import SidFirmware.Libraries.FrameGrammar

/-! What `ESP_BuildCommand` stores, as the bytes of one frame. A well-formed frame that
is taken apart by the accessors and built again is the same frame. -/
namespace SidFirmware.EsProtocol
open Memory

def frameBody (expdt recpt opCode : UInt8) (payload : List UInt8) : List UInt8 :=
  let len := headerSize + 1 + payload.length
  [commandHeaderLSB, commandHeaderMSB, expdt, recpt, UInt8.ofNat len, UInt8.ofNat (len / 256),
    opCode] ++ payload

def builtFrame (expdt recpt opCode : UInt8) (payload : List UInt8) : List UInt8 :=
  frameBody expdt recpt opCode payload ++ [xorAll (frameBody expdt recpt opCode payload)]

/-- The offsets at which `ESP_BuildCommand` stores a byte: the header, the payload of
`len` bytes, and the check byte behind it. -/
def buildOffsets (len : Nat) : List Nat := List.range (headerSize + len) ++ [headerSize + len]

@[simp] theorem frameBody_length (expdt recpt opCode : UInt8) (payload : List UInt8) :
    (frameBody expdt recpt opCode payload).length = headerSize + payload.length := by
  simp [frameBody, headerSize]
  omega

@[simp] theorem builtFrame_length (expdt recpt opCode : UInt8) (payload : List UInt8) :
    (builtFrame expdt recpt opCode payload).length = headerSize + 1 + payload.length := by
  simp [builtFrame]
  omega

theorem buildOffsets_lt_iff {len size : Nat} :
    (∀ k ∈ buildOffsets len, k < size) ↔ headerSize + 1 + len ≤ size := by
  simp only [buildOffsets, List.mem_append, List.mem_range, List.mem_singleton]
  constructor
  · intro h
    have hlast := h (headerSize + len) (Or.inr rfl)
    omega
  · intro h k hk
    omega

/-- Nothing is stored at any other offset. -/
theorem buildCommand_outside (m : Nat → UInt8) (expdt recpt : UInt32) (opCode : UInt8)
    (payload : List UInt8) {k : Nat} (hk : k ∉ buildOffsets payload.length) :
    (buildCommand m expdt recpt opCode payload).1 k = m k := by
  simp only [buildOffsets, List.mem_append, List.mem_range, List.mem_singleton, not_or, not_lt] at hk
  simp only [buildCommand]
  rw [Function.update_of_ne hk.2]
  simp only [copyIn, Nat.zero_le, if_true, Nat.sub_zero]
  rw [List.getElem?_eq_none]
  · rfl
  · have hle := hk.1
    unfold headerSize at hle
    simp only [List.length_append, List.length_cons, List.length_nil]
    omega

/-- As long as its length fits the header, the frame is stored from offset 0 on and
returned with its length. -/
theorem buildCommand_eq (m : Nat → UInt8) (expdt recpt : UInt32) (opCode : UInt8)
    {payload : List UInt8} (h : headerSize + 1 + payload.length < 2 ^ 16) :
    (buildCommand m expdt recpt opCode payload).2 = headerSize + 1 + payload.length ∧
    cells (buildCommand m expdt recpt opCode payload).1 0 (headerSize + 1 + payload.length) =
      builtFrame expdt.toUInt8 recpt.toUInt8 opCode payload := by
  have hbody : [commandHeaderLSB, commandHeaderMSB, expdt.toUInt8, recpt.toUInt8,
      UInt8.ofNat ((headerSize + 1 + payload.length) % 2 ^ 16),
      UInt8.ofNat ((headerSize + 1 + payload.length) % 2 ^ 16 / 256), opCode] ++ payload =
        frameBody expdt.toUInt8 recpt.toUInt8 opCode payload := by
    rw [Nat.mod_eq_of_lt h]
    rfl
  have hcells := cells_copyIn m 0 (frameBody expdt.toUInt8 recpt.toUInt8 opCode payload)
  rw [frameBody_length] at hcells
  have hlen : getFrameLen (copyIn m 0 (frameBody expdt.toUInt8 recpt.toUInt8 opCode payload)) 0 =
      headerSize + 1 + payload.length := by
    have hfield : getFrameLen (copyIn m 0 (frameBody expdt.toUInt8 recpt.toUInt8 opCode payload)) 0 =
        uint16 (UInt8.ofNat (headerSize + 1 + payload.length))
          (UInt8.ofNat ((headerSize + 1 + payload.length) / 256)) := rfl
    rw [hfield, uint16_ofNat h]
  simp only [buildCommand, hbody, hlen]
  refine ⟨trivial, ?_⟩
  have hcrc : (headerSize + 1 + payload.length + 2 ^ 16 - 1) % 2 ^ 16 = headerSize + payload.length := by
    omega
  have hnext := cells_update_next (copyIn m 0 (frameBody expdt.toUInt8 recpt.toUInt8 opCode payload))
    0 (headerSize + payload.length)
    (xorAll (frameBody expdt.toUInt8 recpt.toUInt8 opCode payload))
  rw [Nat.zero_add, hcells] at hnext
  rw [hcrc, calculateCRC_eq, hcells, Nat.add_right_comm]
  exact hnext

theorem builtFrame_cons (expdt recpt opCode : UInt8) (payload : List UInt8) :
    builtFrame expdt recpt opCode payload =
      commandHeaderLSB :: commandHeaderMSB :: expdt :: recpt ::
        UInt8.ofNat (headerSize + 1 + payload.length) ::
        UInt8.ofNat ((headerSize + 1 + payload.length) / 256) :: opCode ::
        (payload ++ [xorAll (frameBody expdt recpt opCode payload)]) := rfl

theorem builtFrame_wellFormed (expdt recpt opCode : UInt8) {payload : List UInt8}
    (h : headerSize + 1 + payload.length < 2 ^ 16) :
    WellFormed (builtFrame expdt recpt opCode payload) := by
  refine ⟨?_, ?_, ?_, ?_⟩
  · rw [builtFrame_cons]
    exact findHeader_header _
  · rw [builtFrame_length, builtFrame_cons]
    exact uint16_ofNat h
  · rw [builtFrame_length]
    omega
  · simp [builtFrame]

/-- What the receiver makes of a frame that was built: its addresses, opcode and payload. -/
theorem builtFrame_payload (expdt recpt opCode : UInt8) (payload : List UInt8) :
    ((builtFrame expdt recpt opCode payload).drop headerSize).take
      ((builtFrame expdt recpt opCode payload).length - (headerSize + 1)) = payload := by
  rw [builtFrame_length, Nat.add_sub_cancel_left, builtFrame_cons]
  simp only [headerSize, List.drop_succ_cons, List.drop_zero, List.take_left]

private theorem uint16_bytes (lsb msb : UInt8) {n : Nat} (h : uint16 lsb msb = n) :
    UInt8.ofNat n = lsb ∧ UInt8.ofNat (n / 256) = msb := by
  subst h
  have hl := lsb.toNat_lt
  have hm := msb.toNat_lt
  constructor
  · apply UInt8.toNat_inj.mp
    rw [UInt8.toNat_ofNat', uint16]
    omega
  · apply UInt8.toNat_inj.mp
    rw [UInt8.toNat_ofNat', uint16]
    omega

/-- Building a frame from the parts of a well-formed one gives it back. -/
theorem WellFormed.rebuild {f : List UInt8} (h : WellFormed f) :
    builtFrame (f.getD 2 0) (f.getD 3 0) (f.getD 6 0)
      ((f.drop headerSize).take (f.length - (headerSize + 1))) = f := by
  obtain ⟨rest, rfl⟩ := findHeader_zero h.header
  have hmin := h.minimum
  have hlen := h.len_eq
  have hcrc := h.crc
  match rest with
  | e :: r :: l0 :: l1 :: o :: tail =>
    have htail : tail ≠ [] := by
      rintro rfl
      simp [headerSize] at hmin
    obtain ⟨payload, check, rfl⟩ : ∃ p c, tail = p ++ [c] :=
      ⟨_, _, (List.dropLast_append_getLast htail).symm⟩
    obtain ⟨h0, h1⟩ := uint16_bytes l0 l1 hlen
    simp only [List.length_cons, List.length_append, List.length_nil] at h0 h1
    have hn : headerSize + 1 + payload.length = payload.length + (0 + 1) + 1 + 1 + 1 + 1 + 1 + 1 + 1 := by
      unfold headerSize
      omega
    have hbody : frameBody e r o payload =
        commandHeaderLSB :: commandHeaderMSB :: e :: r :: l0 :: l1 :: o :: payload := by
      rw [frameBody, hn, h0, h1]
      rfl
    have hcheck : xorAll (frameBody e r o payload) = check := by
      rw [hbody]
      rw [show commandHeaderLSB :: commandHeaderMSB :: e :: r :: l0 :: l1 :: o :: (payload ++ [check]) =
        (commandHeaderLSB :: commandHeaderMSB :: e :: r :: l0 :: l1 :: o :: payload) ++ [check] from rfl,
        xorAll_append, xorAll_cons check, xorAll_nil, UInt8.xor_zero, UInt8.xor_eq_zero_iff] at hcrc
      exact hcrc
    have hpay : (((commandHeaderLSB :: commandHeaderMSB :: e :: r :: l0 :: l1 :: o ::
        (payload ++ [check])).drop headerSize).take
          ((commandHeaderLSB :: commandHeaderMSB :: e :: r :: l0 :: l1 :: o ::
            (payload ++ [check])).length - (headerSize + 1))) = payload := by
      simp [headerSize]
    rw [hpay]
    change builtFrame e r o payload = _
    rw [builtFrame, hcheck, hbody]
    rfl
  | [] => simp [headerSize] at hmin
  | [_] => simp [headerSize] at hmin
  | [_, _] => simp [headerSize] at hmin
  | [_, _, _] => simp [headerSize] at hmin
  | [_, _, _, _] => simp [headerSize] at hmin

end SidFirmware.EsProtocol
