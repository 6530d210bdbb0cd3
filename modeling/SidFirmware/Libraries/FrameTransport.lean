import SidFirmware.Libraries.BuiltFrames

/-! Frames on the wire: what `ESP_BuildCommand` writes is found and taken apart again
wherever it lies, and what a corrupted frame does to the check. -/
namespace SidFirmware.EsProtocol
open Memory

/-- No header is found exactly where `AA 55` is not a run of the bytes. -/
theorem findHeader_eq_none_iff {bs : List UInt8} :
    findHeader bs = none ↔ ¬ [commandHeaderLSB, commandHeaderMSB] <:+: bs := by
  induction bs with
  | nil => simp [findHeader]
  | cons a bs ih =>
    rw [List.infix_cons_iff, not_or, ← ih]
    cases bs with
    | nil => simp [findHeader, List.prefix_cons_iff]
    | cons b bs =>
      simp only [findHeader, List.cons_prefix_cons, List.nil_prefix, and_true]
      split_ifs with h
      · simp [h.1, h.2]
      · rw [Option.map_eq_none_iff]
        exact (and_iff_right fun he => h ⟨he.1.symm, he.2.symm⟩).symm

/-- Bytes without a header in front of one move the answer behind them. -/
theorem verdict_behind {us bs : List UInt8} (hu : findHeader us = none) (hb : findHeader bs = some 0) :
    verdict (us ++ bs) = ((verdict bs).1, us.length) := by
  rw [verdict, findHeader_append_none hu hb, verdict, hb]
  simp

theorem checkForValidFrame_copyIn (behind : Nat → UInt8) {bs : List UInt8} (h : bs ≠ [])
    (hlen : bs.length < 2 ^ 16) :
    checkForValidFrame (copyIn behind 0 bs) bs.length = some (verdict bs) := by
  rw [checkForValidFrame_eq _ (List.length_pos_of_ne_nil h) hlen, cells_copyIn]

/-- The bytes of a block in the middle of what was received. -/
theorem copyIn_middle (behind : Nat → UInt8) (us f vs : List UInt8) :
    cells (copyIn behind 0 (us ++ f ++ vs)) us.length f.length = f := by
  have h := congrArg (fun bs => (bs.drop us.length).take f.length)
    (cells_copyIn behind 0 (us ++ f ++ vs))
  simp only [cells_drop, Nat.zero_add, List.append_assoc, List.drop_left, List.take_left] at h
  rw [cells_take _ _ (by simp)] at h
  rw [List.append_assoc]
  exact h

structure TakenApart (m : Nat → UInt8) (p : Nat) (expdt recpt : UInt32) (opCode : UInt8)
    (payload : List UInt8) : Prop where
  command : getCommand m p = opCode
  expeditor : (getExpeditor m p).toUInt32.toNat = expdt.toNat % 256
  recipient : (getRecipient m p).toUInt32.toNat = recpt.toNat % 256
  frameLen : getFrameLen m p = payload.length + 8
  payloadLength : getPayloadLength m p = payload.length
  payload : cells m (getPayload p) payload.length = payload

theorem takenApart_of_builtFrame {m : Nat → UInt8} {p : Nat} {expdt recpt : UInt32} {opCode : UInt8}
    {payload : List UInt8} (h : headerSize + 1 + payload.length < 2 ^ 16)
    (hm : cells m p (headerSize + 1 + payload.length) =
      builtFrame expdt.toUInt8 recpt.toUInt8 opCode payload) :
    TakenApart m p expdt recpt opCode payload := by
  have hhs : headerSize = 7 := rfl
  have hbyte : ∀ k, k < headerSize + 1 + payload.length →
      (builtFrame expdt.toUInt8 recpt.toUInt8 opCode payload)[k]? = some (m (p + k)) := by
    intro k hk
    rw [← hm, cells_getElem? m p _ k hk]
  have hlen : getFrameLen m p = headerSize + 1 + payload.length := by
    have hfield := lenField_cells m p (n := headerSize + 1 + payload.length) (by omega)
    rw [hm, (builtFrame_wellFormed _ _ _ h).len_eq, builtFrame_length] at hfield
    exact hfield.symm
  refine ⟨?_, ?_, ?_, by omega, ?_, ?_⟩
  · exact (Option.some.inj (hbyte 6 (by omega))).symm
  · have hb : expdt.toUInt8 = getExpeditor m p := Option.some.inj (hbyte 2 (by omega))
    rw [← hb]
    simp
  · have hb : recpt.toUInt8 = getRecipient m p := Option.some.inj (hbyte 3 (by omega))
    rw [← hb]
    simp
  · rw [getPayloadLength, hlen]
    omega
  · have hpay := builtFrame_payload expdt.toUInt8 recpt.toUInt8 opCode payload
    rw [← hm, cells_drop, cells_length, cells_take _ _ (by omega), Nat.add_sub_cancel_left] at hpay
    exact hpay

/-- Whatever is sent before and behind it, a frame that was built is the one that is found,
and comes apart into what it was built of. -/
theorem round_trip (memory behind : Nat → UInt8) (expdt recpt : UInt32) (opCode : UInt8)
    (payload us vs : List UInt8) (hpayload : payload.length ≤ 1023)
    (hus : ¬ [commandHeaderLSB, commandHeaderMSB] <:+: us)
    (hlen : us.length + (buildCommand memory expdt recpt opCode payload).2 + vs.length ≤ 65535) :
    let b := buildCommand memory expdt recpt opCode payload
    let received := copyIn behind 0 (us ++ cells b.1 0 b.2 ++ vs)
    checkForValidFrame received (us.length + b.2 + vs.length) = some (.validFrame, us.length) ∧
      TakenApart received us.length expdt recpt opCode payload := by
  intro b received
  have hfit : headerSize + 1 + payload.length < 2 ^ 16 := by
    unfold headerSize
    omega
  obtain ⟨hsize, hbytes⟩ := buildCommand_eq memory expdt recpt opCode hfit
  have hf : cells b.1 0 b.2 = builtFrame expdt.toUInt8 recpt.toUInt8 opCode payload := by
    rw [← hbytes, ← hsize]
  have hwf := builtFrame_wellFormed expdt.toUInt8 recpt.toUInt8 opCode hfit
  have hb : b.2 = headerSize + 1 + payload.length := hsize
  have hlen' : us.length + b.2 + vs.length ≤ 65535 := hlen
  have hlength : (us ++ cells b.1 0 b.2 ++ vs).length = us.length + b.2 + vs.length := by
    simp [Nat.add_assoc]
  constructor
  · have hverdict : verdict (us ++ cells b.1 0 b.2 ++ vs) = (.validFrame, us.length) := by
      rw [List.append_assoc, verdict_behind (findHeader_eq_none_iff.mpr hus), hf, hwf.verdict_append]
      rw [hf]
      exact findHeader_append hwf.header vs
    rw [← hverdict, ← hlength]
    apply checkForValidFrame_copyIn
    · apply List.ne_nil_of_length_pos
      omega
    · rw [hlength]
      omega
  · apply takenApart_of_builtFrame hfit
    have hmiddle := copyIn_middle behind us (cells b.1 0 b.2) vs
    rw [cells_length, hf] at hmiddle
    rw [← hsize]
    change cells (copyIn behind 0 (us ++ cells b.1 0 b.2 ++ vs)) us.length b.2 = _
    rw [hf]
    exact hmiddle

/-- A ping behind a stray `AA`. -/
theorem round_trip_stray_byte :
    let b := buildCommand (fun _ => 0) 0x100 0x101 0xF2 [0x07]
    checkForValidFrame (copyIn (fun _ => 0) 0 ([0xAA] ++ cells b.1 0 b.2 ++ [0x55])) 11 =
      some (.validFrame, 1) := by
  have hno : ¬ [commandHeaderLSB, commandHeaderMSB] <:+: [0xAA] := by
    rw [← findHeader_eq_none_iff]
    rfl
  exact (round_trip (fun _ => 0) (fun _ => 0) 0x100 0x101 0xF2 [0x07] [0xAA] [0x55] (by decide) hno
    (by decide)).1

/-- The check byte is linear. -/
theorem xorAll_zipWith {f g : List UInt8} (h : f.length = g.length) :
    xorAll (List.zipWith (· ^^^ ·) f g) = xorAll f ^^^ xorAll g := by
  induction f generalizing g with
  | nil =>
    rw [List.length_nil] at h
    rw [List.length_eq_zero_iff.mp h.symm]
    rfl
  | cons a f ih =>
    cases g with
    | nil => exact absurd h (by simp)
    | cons b g =>
      rw [List.zipWith_cons_cons, xorAll_cons, ih (Nat.succ.inj h), xorAll_cons, xorAll_cons]
      ac_rfl

/-- Bytes with a header and their own length stand or fall with their check. -/
theorem verdict_of_framed {g : List UInt8} (hheader : findHeader g = some 0)
    (hlen : lenField g = g.length) (hmin : headerSize ≤ g.length) :
    verdict g = (if xorAll g = 0 then .validFrame else .failed, 0) := by
  rw [verdict, hheader]
  simp only [judge, List.drop_zero, hlen]
  rw [if_pos ⟨hmin, le_rfl⟩, List.take_length]

/-- `g` is `f` with other bytes outside the start marker and the length field. -/
structure Corrupts (f g : List UInt8) : Prop where
  length_eq : g.length = f.length
  marker : g[0]? = f[0]? ∧ g[1]? = f[1]?
  lenField : g[4]? = f[4]? ∧ g[5]? = f[5]?

theorem Corrupts.verdict_eq {f g : List UInt8} (hf : WellFormed f) (h : Corrupts f g) :
    verdict g = (if xorAll (List.zipWith (· ^^^ ·) f g) = 0 then .validFrame else .failed, 0) := by
  have hmin := hf.minimum
  have hfield : EsProtocol.lenField g = g.length := by
    rw [h.length_eq, ← hf.len_eq]
    simp only [EsProtocol.lenField, List.getD_eq_getElem?_getD, h.lenField.1, h.lenField.2]
  obtain ⟨rest, rfl⟩ := findHeader_zero hf.header
  have hheader : findHeader g = some 0 := by
    obtain ⟨h0, h1⟩ := h.marker
    cases g with
    | nil => cases h0
    | cons a g =>
      cases g with
      | nil => cases h1
      | cons b g =>
        rw [Option.some.inj h0, Option.some.inj h1]
        exact findHeader_header g
  rw [verdict_of_framed hheader hfield (by rw [h.length_eq]; omega), xorAll_zipWith h.length_eq.symm,
    hf.crc, UInt8.zero_xor]

theorem Corrupts.ne_nil {f g : List UInt8} (hf : WellFormed f) (h : Corrupts f g) : g ≠ [] := by
  apply List.ne_nil_of_length_pos
  have := hf.minimum
  rw [h.length_eq]
  unfold headerSize at this
  omega

theorem Corrupts.length_lt {f g : List UInt8} (hf : WellFormed f) (h : Corrupts f g) :
    g.length < 2 ^ 16 := by
  rw [h.length_eq, ← hf.len_eq]
  exact uint16_lt _ _

/-- One byte outside the start marker and the length field. -/
theorem corrupts_set (f : List UInt8) {i : Nat} (b : UInt8) (h : i ∉ [0, 1, 4, 5]) :
    Corrupts f (f.set i b) := by
  simp only [List.mem_cons, List.not_mem_nil, or_false, not_or] at h
  obtain ⟨h0, h1, h4, h5⟩ := h
  refine ⟨List.length_set, ⟨?_, ?_⟩, ?_, ?_⟩
  all_goals exact List.getElem?_set_ne (by assumption)

theorem xorAll_set {f : List UInt8} {i : Nat} (hi : i < f.length) (b : UInt8) :
    xorAll (f.set i b) = xorAll f ^^^ f[i] ^^^ b := by
  induction f generalizing i with
  | nil => exact absurd hi (Nat.not_lt_zero i)
  | cons a f ih =>
    cases i with
    | zero =>
      rw [List.set_cons_zero, xorAll_cons, xorAll_cons, List.getElem_cons_zero,
        UInt8.xor_comm a (xorAll f), UInt8.xor_assoc (xorAll f) a a, UInt8.xor_self, UInt8.xor_zero]
      exact UInt8.xor_comm b (xorAll f)
    | succ i =>
      rw [List.set_cons_succ, xorAll_cons, xorAll_cons, ih (Nat.lt_of_succ_lt_succ hi),
        List.getElem_cons_succ]
      ac_rfl

/-- The exclusive or of all differences decides whether a corruption is seen, and the
difference of one byte alone always is. -/
theorem corruption_detected (behind : Nat → UInt8) {f : List UInt8} (hf : WellFormed f) :
    (∀ g, Corrupts f g →
      (checkForValidFrame (copyIn behind 0 g) f.length = some (.validFrame, 0) ↔
        xorAll (List.zipWith (· ^^^ ·) f g) = 0) ∧
      (xorAll (List.zipWith (· ^^^ ·) f g) ≠ 0 →
        checkForValidFrame (copyIn behind 0 g) f.length = some (.failed, 0))) ∧
    ∀ i b, (hi : i < f.length) → i ∉ [0, 1, 4, 5] → b ≠ f[i] →
      checkForValidFrame (copyIn behind 0 (f.set i b)) f.length = some (.failed, 0) := by
  have hanswer : ∀ g, Corrupts f g → checkForValidFrame (copyIn behind 0 g) f.length =
      some (if xorAll (List.zipWith (· ^^^ ·) f g) = 0 then .validFrame else .failed, 0) := by
    intro g hg
    rw [← hg.verdict_eq hf, ← hg.length_eq]
    exact checkForValidFrame_copyIn behind (hg.ne_nil hf) (hg.length_lt hf)
  constructor
  · intro g hg
    rw [hanswer g hg]
    constructor
    · simp
    · intro hne
      rw [if_neg hne]
  · intro i b hi hplace hb
    rw [hanswer _ (corrupts_set f b hplace), xorAll_zipWith (by simp), hf.crc, UInt8.zero_xor,
      xorAll_set hi b, hf.crc, UInt8.zero_xor, if_neg]
    intro hzero
    exact hb (UInt8.xor_eq_zero_iff.mp hzero).symm

/-- A ping whose opcode and check byte took the same change passes; the opcode alone
does not. -/
theorem corruption_detected_ping :
    let f := builtFrame 0x00 0x01 0xF2 []
    checkForValidFrame (copyIn (fun _ => 0) 0 [0xAA, 0x55, 0x00, 0x01, 0x08, 0x00, 0xF3, 0x05]) 8 =
        some (.validFrame, 0) ∧
      checkForValidFrame (copyIn (fun _ => 0) 0 (f.set 6 0xF3)) 8 = some (.failed, 0) := by
  have hf : WellFormed (builtFrame 0x00 0x01 0xF2 []) := by decide
  have hg : Corrupts (builtFrame 0x00 0x01 0xF2 [])
      [0xAA, 0x55, 0x00, 0x01, 0x08, 0x00, 0xF3, 0x05] := ⟨rfl, ⟨rfl, rfl⟩, rfl, rfl⟩
  have h := corruption_detected (fun _ => 0) hf
  exact ⟨(h.1 _ hg).1.mpr (by decide), h.2 6 0xF3 (by decide) (by decide) (by decide)⟩

end SidFirmware.EsProtocol
