import SidFirmware.Libraries.EsProtocol

/-! What `ESP_CheckForValidFrame` accepts, as a grammar over the received bytes.
For one byte or more the search stays inside the buffer, so its answer is a
function of those bytes alone. -/
namespace SidFirmware.EsProtocol
open Memory

/-- The offset of the first `AA 55`. -/
def findHeader : List UInt8 → Option Nat
  | a :: b :: bs =>
    if a = commandHeaderLSB ∧ b = commandHeaderMSB then some 0 else (findHeader (b :: bs)).map (· + 1)
  | _ => none

def xorAll : List UInt8 → UInt8
  | [] => 0
  | b :: bs => b ^^^ xorAll bs

/-- The length field of a frame that starts with `bs`. -/
def lenField (bs : List UInt8) : Nat := uint16 (bs.getD 4 0) (bs.getD 5 0)

def judge (bs : List UInt8) : ReturnCode :=
  if headerSize ≤ bs.length ∧ lenField bs ≤ bs.length then
    if xorAll (bs.take (lenField bs)) = 0 then .validFrame else .failed
  else .receiving

def verdict (bs : List UInt8) : ReturnCode × Nat :=
  match findHeader bs with
  | some s => (judge (bs.drop s), s)
  | none => (.failed, bs.length - 1)

/-- A frame an honest sender produces: header, its own length, xor zero. -/
structure WellFormed (f : List UInt8) : Prop where
  header : findHeader f = some 0
  len_eq : lenField f = f.length
  minimum : headerSize + 1 ≤ f.length
  crc : xorAll f = 0

instance (f : List UInt8) : Decidable (WellFormed f) :=
  decidable_of_iff (findHeader f = some 0 ∧ lenField f = f.length ∧ headerSize + 1 ≤ f.length ∧
      xorAll f = 0)
    ⟨fun h => ⟨h.1, h.2.1, h.2.2.1, h.2.2.2⟩, fun h => ⟨h.1, h.2, h.3, h.4⟩⟩

@[simp] theorem xorAll_nil : xorAll [] = 0 := rfl
@[simp] theorem xorAll_cons (b : UInt8) (bs : List UInt8) : xorAll (b :: bs) = b ^^^ xorAll bs := rfl
@[simp] theorem xorAll_append (as bs : List UInt8) : xorAll (as ++ bs) = xorAll as ^^^ xorAll bs := by
  induction as with
  | nil => simp
  | cons a as ih => simp [ih, UInt8.xor_assoc]

theorem calculateCRC_eq (m : Nat → UInt8) (p n : Nat) : calculateCRC m p n = xorAll (cells m p n) := by
  induction n with
  | zero => rfl
  | succ n ih => simp [calculateCRC, cells_succ, ih]

theorem findHeader_header (bs : List UInt8) :
    findHeader (commandHeaderLSB :: commandHeaderMSB :: bs) = some 0 := by
  simp [findHeader]

theorem findHeader_zero {bs : List UInt8} (h : findHeader bs = some 0) :
    ∃ rest, bs = commandHeaderLSB :: commandHeaderMSB :: rest := by
  match bs with
  | [] => simp [findHeader] at h
  | [_] => simp [findHeader] at h
  | a :: b :: bs =>
    simp only [findHeader] at h
    split at h
    · rename_i he
      exact ⟨bs, by rw [he.1, he.2]⟩
    · simp at h

theorem findHeader_succ {a : UInt8} {bs : List UInt8} {s : Nat} :
    findHeader (a :: bs) = some (s + 1) ↔
      ¬ (a = commandHeaderLSB ∧ bs.head? = some commandHeaderMSB) ∧ findHeader bs = some s := by
  cases bs with
  | nil => simp [findHeader]
  | cons b bs =>
    simp only [findHeader, List.head?_cons, Option.some.injEq]
    split <;> simp_all

theorem findHeader_lt {bs : List UInt8} {s : Nat} (h : findHeader bs = some s) : s + 1 < bs.length := by
  induction s generalizing bs with
  | zero =>
    obtain ⟨rest, rfl⟩ := findHeader_zero h
    simp
  | succ s ih =>
    cases bs with
    | nil => simp [findHeader] at h
    | cons a bs =>
      have hlt := ih (findHeader_succ.mp h).2
      rw [List.length_cons]
      omega

/-- More bytes do not move the first header. -/
theorem findHeader_append {bs : List UInt8} {s : Nat} (h : findHeader bs = some s) (more : List UInt8) :
    findHeader (bs ++ more) = some s := by
  induction s generalizing bs with
  | zero =>
    obtain ⟨rest, rfl⟩ := findHeader_zero h
    exact findHeader_header _
  | succ s ih =>
    cases bs with
    | nil => simp [findHeader] at h
    | cons a bs =>
      obtain ⟨hne, htail⟩ := findHeader_succ.mp h
      have hlt := findHeader_lt htail
      rw [List.cons_append, findHeader_succ]
      refine ⟨?_, ih htail⟩
      rwa [List.head?_append_of_ne_nil _ (List.ne_nil_of_length_pos (by omega))]

/-- A header that lies within the first bytes is found there. -/
theorem findHeader_of_append {bs more : List UInt8} {s : Nat} (h : findHeader (bs ++ more) = some s)
    (hs : s + 1 < bs.length) : findHeader bs = some s := by
  induction s generalizing bs with
  | zero =>
    obtain ⟨rest, he⟩ := findHeader_zero h
    match bs, hs with
    | a :: b :: bs, _ =>
      simp only [List.cons_append, List.cons.injEq] at he
      rw [he.1, he.2.1]
      exact findHeader_header bs
  | succ s ih =>
    cases bs with
    | nil => simp at hs
    | cons a bs =>
      rw [List.length_cons] at hs
      rw [List.cons_append, findHeader_succ, List.head?_append_of_ne_nil _
        (List.ne_nil_of_length_pos (by omega))] at h
      obtain ⟨hne, htail⟩ := h
      exact findHeader_succ.mpr ⟨hne, ih htail (by omega)⟩

/-- Behind bytes without a header the first header is the first one of what follows,
provided that starts with one. -/
theorem findHeader_append_none {bs more : List UInt8} (h : findHeader bs = none)
    (hm : findHeader more = some 0) : findHeader (bs ++ more) = some bs.length := by
  obtain ⟨rest, rfl⟩ := findHeader_zero hm
  induction bs with
  | nil => exact hm
  | cons a bs ih =>
    cases bs with
    | nil => simp [findHeader, commandHeaderLSB, commandHeaderMSB]
    | cons b bs =>
      simp only [findHeader] at h
      split at h
      · exact absurd h (Option.some_ne_none 0)
      · rename_i hne
        rw [Option.map_eq_none_iff] at h
        rw [List.cons_append, List.length_cons, findHeader_succ]
        exact ⟨by simpa using hne, ih h⟩

structure FirstHeader (m : Nat → UInt8) (p n s : Nat) : Prop where
  inside : s + 1 < n
  lsb : m (p + s) = commandHeaderLSB
  msb : m (p + s + 1) = commandHeaderMSB
  first : ∀ t < s, ¬ (m (p + t) = commandHeaderLSB ∧ m (p + t + 1) = commandHeaderMSB)

private theorem cells_head? (m : Nat → UInt8) (p : Nat) {n : Nat} (h : 0 < n) :
    (cells m p n).head? = some (m p) := by
  obtain ⟨k, rfl⟩ : ∃ k, n = k + 1 := ⟨n - 1, by omega⟩
  rw [cells_cons]
  rfl

theorem findHeader_cells {m : Nat → UInt8} {p n s : Nat} :
    findHeader (cells m p n) = some s ↔ FirstHeader m p n s := by
  induction s generalizing p n with
  | zero =>
    constructor
    · intro h
      have hlt := findHeader_lt h
      rw [cells_length] at hlt
      obtain ⟨k, rfl⟩ : ∃ k, n = k + 1 + 1 := ⟨n - 2, by omega⟩
      obtain ⟨rest, he⟩ := findHeader_zero h
      rw [cells_cons, cells_cons, List.cons.injEq, List.cons.injEq] at he
      exact ⟨hlt, he.1, he.2.1, by simp⟩
    · rintro ⟨hin, hl, hm, _⟩
      obtain ⟨k, rfl⟩ : ∃ k, n = k + 1 + 1 := ⟨n - 2, by omega⟩
      rw [Nat.add_zero] at hl hm
      rw [cells_cons, cells_cons, hl, hm]
      exact findHeader_header _
  | succ s ih =>
    constructor
    · intro h
      have hlt := findHeader_lt h
      rw [cells_length] at hlt
      obtain ⟨k, rfl⟩ : ∃ k, n = k + 1 := ⟨n - 1, by omega⟩
      rw [cells_cons, findHeader_succ, cells_head? m (p + 1) (by omega), ih, Option.some.injEq] at h
      obtain ⟨hne, htail⟩ := h
      have hs : p + (s + 1) = p + 1 + s := by omega
      refine ⟨hlt, hs ▸ htail.lsb, hs ▸ htail.msb, fun t ht => ?_⟩
      cases t with
      | zero => exact hne
      | succ t =>
        rw [show p + (t + 1) = p + 1 + t by omega]
        exact htail.first t (by omega)
    · rintro ⟨hin, hl, hm, hf⟩
      obtain ⟨k, rfl⟩ : ∃ k, n = k + 1 := ⟨n - 1, by omega⟩
      rw [cells_cons, findHeader_succ, cells_head? m (p + 1) (by omega), ih, Option.some.injEq]
      have hs : p + (s + 1) = p + 1 + s := by omega
      refine ⟨hf 0 (by omega), by omega, hs ▸ hl, hs ▸ hm, fun t ht => ?_⟩
      rw [show p + 1 + t = p + (t + 1) by omega]
      exact hf (t + 1) (by omega)

theorem FirstHeader.unique {m : Nat → UInt8} {p n s t : Nat} (hs : FirstHeader m p n s)
    (ht : FirstHeader m p n t) : s = t := by
  have h := (findHeader_cells.mpr hs).symm.trans (findHeader_cells.mpr ht)
  exact Option.some.inj h

theorem lenField_append (bs : List UInt8) (h : 6 ≤ bs.length) (more : List UInt8) :
    lenField (bs ++ more) = lenField bs := by
  simp [lenField, List.getElem?_append_left (show 4 < bs.length by omega),
    List.getElem?_append_left (show 5 < bs.length by omega)]

theorem lenField_cells (m : Nat → UInt8) (p : Nat) {n : Nat} (h : 6 ≤ n) :
    lenField (cells m p n) = getFrameLen m p := by
  simp [lenField, getFrameLen, cells_getElem? m p n 4 (by omega), cells_getElem? m p n 5 (by omega)]

private theorem judge_cells (m : Nat → UInt8) (p n : Nat) :
    judge (cells m p n) =
      if headerSize ≤ n ∧ getFrameLen m p ≤ n then
        if calculateCRC m p (getFrameLen m p) = 0 then .validFrame else .failed
      else .receiving := by
  unfold judge
  rw [cells_length]
  by_cases h : headerSize ≤ n
  · rw [lenField_cells m p (by unfold headerSize at h; omega)]
    by_cases hl : getFrameLen m p ≤ n
    · rw [cells_take m p hl, calculateCRC_eq]
    · simp [hl]
  · simp [h]

theorem verdict_skip {a b : UInt8} (bs : List UInt8)
    (h : ¬ (a = commandHeaderLSB ∧ b = commandHeaderMSB)) :
    verdict (a :: b :: bs) = ((verdict (b :: bs)).1, (verdict (b :: bs)).2 + 1) := by
  unfold verdict
  rw [findHeader, if_neg h]
  cases findHeader (b :: bs) <;> simp

private theorem search_eq (m : Nat → UInt8) {len : Nat} (hlen : len < 65536) (k p : Nat)
    (hp : p + (k + 1) = len) :
    search m len p p = some ((verdict (cells m p (k + 1))).1, p + (verdict (cells m p (k + 1))).2) := by
  have hbound : searchBound len = p + k := by
    unfold searchBound
    rw [if_neg (by omega)]
    omega
  have hram : p < ramSize := by
    unfold ramSize
    omega
  rw [search, if_pos hram, hbound]
  induction k generalizing p with
  | zero =>
    rw [if_neg (by omega)]
    rfl
  | succ k ih =>
    rw [if_pos (by omega)]
    by_cases hh : m p = commandHeaderLSB ∧ m (p + 1) = commandHeaderMSB
    · have hv : verdict (cells m p (k + 1 + 1)) = (judge (cells m p (k + 1 + 1)), 0) := by
        unfold verdict
        rw [cells_cons m p (k + 1), cells_cons m (p + 1) k, hh.1, hh.2, findHeader_header]
        rfl
      rw [if_pos hh, hv, judge_cells, show (len + 2 ^ 16 - p) % 2 ^ 16 = k + 1 + 1 by omega]
      simp only [Nat.add_zero]
      split <;> [split <;> rfl; rfl]
    · have hram' : p + 1 < ramSize := by
        unfold ramSize
        omega
      rw [if_neg hh, Nat.mod_eq_of_lt (by omega), search, if_pos hram',
        show searchBound len = p + 1 + k by omega, ih (p + 1) (by omega) (by omega) hram',
        cells_cons m p (k + 1), cells_cons m (p + 1) k, verdict_skip _ hh]
      rw [show p + 1 + (verdict (m (p + 1) :: cells m (p + 1 + 1) k)).2 =
        p + ((verdict (m (p + 1) :: cells m (p + 1 + 1) k)).2 + 1) by omega]

/-- On one byte or more the answer is the verdict on those bytes. -/
theorem checkForValidFrame_eq (m : Nat → UInt8) {len : Nat} (h : 1 ≤ len) (hlen : len < 65536) :
    checkForValidFrame m len = some (verdict (cells m 0 len)) := by
  obtain ⟨k, rfl⟩ : ∃ k, len = k + 1 := ⟨len - 1, by omega⟩
  rw [checkForValidFrame, search_eq m hlen k 0 (by omega)]
  simp

/-- On no bytes at all the search runs on to the next header in memory, if there is one. -/
theorem search_empty (m : Nat → UInt8) (sof p : Nat) (hs : sof < 2 ^ 16) :
    (∃ a, search m 0 sof p = some a) ↔
      ∃ q, p ≤ q ∧ q < ramSize ∧ m q = commandHeaderLSB ∧ m (q + 1) = commandHeaderMSB := by
  induction hk : ramSize - p generalizing sof p with
  | zero =>
    rw [search, if_neg (by omega)]
    constructor
    · rintro ⟨a, ha⟩
      exact absurd ha.symm (Option.some_ne_none a)
    · rintro ⟨q, hpq, hq, _⟩
      omega
  | succ k ih =>
    have hbound : sof < searchBound 0 := by
      change sof < 2 ^ 32 - 1
      omega
    rw [search, if_pos (by omega), if_pos hbound]
    by_cases hh : m p = commandHeaderLSB ∧ m (p + 1) = commandHeaderMSB
    · rw [if_pos hh]
      refine ⟨fun _ => ⟨p, le_refl p, by omega, hh⟩, fun _ => ?_⟩
      simp only
      split
      · split
        · exact ⟨_, rfl⟩
        · exact ⟨_, rfl⟩
      · exact ⟨_, rfl⟩
    · rw [if_neg hh, ih _ _ (Nat.mod_lt _ (by omega)) (by omega)]
      constructor
      · rintro ⟨q, hpq, hq⟩
        exact ⟨q, by omega, hq⟩
      · rintro ⟨q, hpq, hq, hm⟩
        have hne : q ≠ p := by
          rintro rfl
          exact hh hm
        exact ⟨q, by omega, hq, hm⟩

/-- A valid verdict names the first header and a complete frame behind it. -/
theorem verdict_validFrame_iff {bs : List UInt8} {s : Nat} :
    verdict bs = (.validFrame, s) ↔
      findHeader bs = some s ∧ headerSize ≤ bs.length - s ∧ lenField (bs.drop s) ≤ bs.length - s ∧
        xorAll ((bs.drop s).take (lenField (bs.drop s))) = 0 := by
  unfold verdict
  cases findHeader bs with
  | none => simp
  | some t =>
    simp only [judge, List.length_drop, Prod.mk.injEq, Option.some.injEq]
    constructor
    · rintro ⟨hj, rfl⟩
      refine ⟨rfl, ?_⟩
      split at hj
      · rename_i hlen
        split at hj
        · exact ⟨hlen.1, hlen.2, by assumption⟩
        · exact absurd hj (by decide)
      · exact absurd hj (by decide)
    · rintro ⟨rfl, h7, hl, hx⟩
      rw [if_pos ⟨h7, hl⟩, if_pos hx]
      exact ⟨rfl, rfl⟩

theorem WellFormed.lenField_eq {f : List UInt8} (h : WellFormed f) (more : List UInt8) :
    lenField (f ++ more) = f.length := by
  have hmin := h.minimum
  unfold headerSize at hmin
  rw [lenField_append _ (by omega), h.len_eq]

/-- A whole well-formed frame is accepted where it starts, whatever follows it. -/
theorem WellFormed.verdict_append {f : List UInt8} (h : WellFormed f) (more : List UInt8) :
    verdict (f ++ more) = (.validFrame, 0) := by
  have hmin := h.minimum
  refine verdict_validFrame_iff.mpr ⟨findHeader_append h.header more, ?_, ?_, ?_⟩
  · rw [List.length_append]
    omega
  · rw [List.drop_zero, h.lenField_eq, List.length_append]
    omega
  · rw [List.drop_zero, h.lenField_eq, List.take_left]
    exact h.crc

/-- No proper prefix of a well-formed frame is accepted. -/
theorem WellFormed.prefix_not_valid {f bs more : List UInt8} (h : WellFormed f) (hf : f = bs ++ more)
    (hm : more ≠ []) (s : Nat) : verdict bs ≠ (.validFrame, s) := by
  intro hv
  obtain ⟨hs, h7, hl, _⟩ := verdict_validFrame_iff.mp hv
  have happ := findHeader_append hs more
  rw [← hf, h.header, Option.some.injEq] at happ
  subst happ
  unfold headerSize at h7
  have hlen := h.len_eq
  rw [hf, lenField_append _ (by omega), List.length_append] at hlen
  rw [List.drop_zero] at hl
  have hpos := List.length_pos_of_ne_nil hm
  omega

end SidFirmware.EsProtocol
