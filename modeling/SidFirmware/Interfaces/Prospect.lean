import SidFirmware.Interfaces.FrameReceiver

/-! What collected bytes that were not recognised can still become. Bytes before the
first header only take room; a length field that was received settles how the frame
ends; and some beginnings can never be completed. -/
namespace SidFirmware.FrameReceiver
open EsProtocol

/-- The bytes from the first header on, or from the first byte of one at the very end. -/
def fromHeader : List UInt8 → List UInt8
  | a :: b :: bs =>
    if a = commandHeaderLSB ∧ b = commandHeaderMSB then a :: b :: bs else fromHeader (b :: bs)
  | [a] => if a = commandHeaderLSB then [a] else []
  | [] => []

/-- What is left of collected bytes for the chunks to come. -/
inductive Prospect where
  /-- Nothing will be recognised. -/
  | dead
  /-- The next bytes make the frame recognised, which is shorter than a header. -/
  | short (received : Nat) (frame : List UInt8)
  /-- The bytes are the beginning of a frame, for which there is room. -/
  | collecting (room : Nat) (bytes : List UInt8)
  deriving DecidableEq, Repr

def prospectOf (cap room : Nat) (bs : List UInt8) : Prospect :=
  if room < headerSize then .dead
  else if bs.length < 5 then .collecting room bs
  else if lenField bs < headerSize then
    if bs.length < headerSize ∧ xorAll ((bs ++ [0]).take (lenField bs)) = 0 then
      .short bs.length ((bs ++ [0]).take (lenField bs))
    else .dead
  else if bs.length < lenField bs ∧ lenField bs ≤ room then .collecting cap bs
  else .dead

def prospect (cap : Nat) (bs : List UInt8) : Prospect :=
  prospectOf cap (cap - (bs.length - (fromHeader bs).length)) (fromHeader bs)

def Prospect.answer : Prospect → List UInt8 → Option (List UInt8)
  | .dead, _ => none
  | .short received frame, chunk =>
    if headerSize ≤ received + chunk.length ∧ (received = 5 → chunk.head? = some 0) then some frame
    else none
  | .collecting room bs, chunk => accept (Assembler.fill room bs chunk)

/-- Bytes that begin with a header, or could. -/
def Started (bs : List UInt8) : Prop :=
  bs = [] ∨ bs = [commandHeaderLSB] ∨ findHeader bs = some 0

/-- A byte that begins no header is skipped. -/
theorem accept_skip {a : UInt8} {bs : List UInt8}
    (h : ¬ (a = commandHeaderLSB ∧ bs.head? = some commandHeaderMSB)) : accept (a :: bs) = accept bs := by
  cases bs with
  | nil => rfl
  | cons b bs =>
    have hv := verdict_skip bs (a := a) (b := b) (by simpa using h)
    unfold accept
    rw [hv]
    rcases verdict (b :: bs) with ⟨code, s⟩
    cases code with
    | receiving => rfl
    | validFrame => rfl
    | failed => rfl

/-- Behind a header, a frame is recognised once it is complete and its check holds. -/
theorem accept_header {bs : List UInt8} (h : findHeader bs = some 0) :
    accept bs = if headerSize ≤ bs.length ∧ lenField bs ≤ bs.length ∧ xorAll (bs.take (lenField bs)) = 0
      then some (bs.take (lenField bs)) else none := by
  by_cases hv : headerSize ≤ bs.length ∧ lenField bs ≤ bs.length ∧ xorAll (bs.take (lenField bs)) = 0
  · have hvalid : verdict bs = (.validFrame, 0) := verdict_validFrame_iff.mpr ⟨h, hv⟩
    rw [if_pos hv, accept_of_valid hvalid, List.drop_zero]
  · rw [if_neg hv]
    refine accept_of_not_valid fun hcode => ?_
    obtain ⟨hs, hrest⟩ := verdict_validFrame_iff.mp (Prod.ext hcode rfl : verdict bs = (.validFrame, _))
    rw [h, Option.some.injEq] at hs
    rw [← hs, List.drop_zero, Nat.sub_zero] at hrest
    exact hv hrest

theorem accept_whole {f : List UInt8} (h : findHeader f = some 0) (h7 : headerSize ≤ f.length)
    (hlen : lenField f = f.length) (hx : xorAll f = 0) : accept f = some f := by
  rw [accept_header h, hlen, List.take_length, if_pos ⟨h7, le_refl _, hx⟩]

/-- Fewer bytes than a header are never recognised. -/
theorem accept_short {bs : List UInt8} (h : bs.length < headerSize) : accept bs = none := by
  refine accept_of_not_valid fun hcode => ?_
  obtain ⟨_, h7, _⟩ := verdict_validFrame_iff.mp (Prod.ext hcode rfl : verdict bs = (.validFrame, _))
  omega

theorem fromHeader_length_le (bs : List UInt8) : (fromHeader bs).length ≤ bs.length := by
  fun_induction fromHeader bs with
  | case1 a b bs h => exact le_refl _
  | case2 a b bs h ih => exact ih.trans (Nat.le_succ _)
  | case3 => exact le_refl _
  | case4 a => exact Nat.zero_le _
  | case5 => exact le_refl _

theorem fromHeader_started (bs : List UInt8) : Started (fromHeader bs) := by
  fun_induction fromHeader bs with
  | case1 a b bs h =>
    rw [h.1, h.2]
    exact Or.inr (Or.inr (findHeader_header bs))
  | case2 a b bs h ih => exact ih
  | case3 => exact Or.inr (Or.inl rfl)
  | case4 a => exact Or.inl rfl
  | case5 => exact Or.inl rfl

private theorem fill_cons (cap : Nat) (a : UInt8) (bs chunk : List UInt8) :
    Assembler.fill (cap + 1) (a :: bs) chunk = a :: Assembler.fill cap bs chunk := rfl

/-- What lies before the first header only takes room. -/
theorem accept_fill_fromHeader (bs chunk : List UInt8) {cap : Nat} (h : bs.length ≤ cap) :
    accept (Assembler.fill cap bs chunk) =
      accept (Assembler.fill (cap - (bs.length - (fromHeader bs).length)) (fromHeader bs) chunk) := by
  fun_induction fromHeader bs generalizing cap with
  | case1 a b bs hh => rw [Nat.sub_self, Nat.sub_zero]
  | case2 a b bs hh ih =>
    have hle := fromHeader_length_le (b :: bs)
    simp only [List.length_cons] at h hle
    obtain ⟨room, rfl⟩ : ∃ room, cap = room + 1 := ⟨cap - 1, by omega⟩
    have hhead : (Assembler.fill room (b :: bs) chunk).head? = some b := by
      rw [Assembler.fill_eq_append (by simpa using h)]
      rfl
    have hroom : room + 1 - (bs.length + 1 + 1 - (fromHeader (b :: bs)).length) =
        room - (bs.length + 1 - (fromHeader (b :: bs)).length) := by omega
    rw [fill_cons, accept_skip (by rwa [hhead, Option.some.injEq]), ih (by simpa using h)]
    simp only [List.length_cons, hroom]
  | case3 => rw [Nat.sub_self, Nat.sub_zero]
  | case4 a hne =>
    obtain ⟨room, rfl⟩ : ∃ room, cap = room + 1 := ⟨cap - 1, by simp at h; omega⟩
    rw [fill_cons, accept_skip fun hh => hne hh.1]
    rfl
  | case5 => rfl

theorem accept_fromHeader (bs : List UInt8) : accept (fromHeader bs) = accept bs := by
  have hle := fromHeader_length_le bs
  have h := accept_fill_fromHeader bs [] (le_refl bs.length)
  rw [show bs.length - (bs.length - (fromHeader bs).length) = (fromHeader bs).length by omega,
    Assembler.fill_eq_append (le_refl _), Assembler.fill_eq_append (le_refl _)] at h
  simpa using h.symm

section LengthField
variable {bs : List UInt8}

private theorem lenField_five (h : bs.length = 5) (b : UInt8) (more : List UInt8) :
    lenField (bs ++ b :: more) = lenField bs + 256 * b.toNat := by
  simp [lenField, Memory.uint16, List.getElem?_append, h]

/-- Once five bytes are there, a length field that leaves a chance is known. -/
private theorem lenField_settled (hs : findHeader bs = some 0) (h5 : 5 ≤ bs.length) {chunk : List UInt8}
    (hc : chunk ≠ []) (hfit : (bs ++ chunk).length ≤ 255) :
    (lenField (bs ++ chunk) = lenField bs ∧ (bs.length = 5 → chunk.head? = some 0)) ∨
      (bs.length = 5 ∧ chunk.head? ≠ some 0 ∧ accept (bs ++ chunk) = none) := by
  by_cases h : bs.length = 5
  · obtain ⟨b, more, rfl⟩ := List.exists_cons_of_ne_nil hc
    have hlen := lenField_five h b more
    by_cases hb : b = 0
    · subst hb
      exact Or.inl ⟨by simpa using hlen, fun _ => rfl⟩
    · refine Or.inr ⟨h, by simpa using hb, ?_⟩
      have hpos : 0 < b.toNat := by
        rw [Nat.pos_iff_ne_zero]
        exact fun h0 => hb (UInt8.toNat_inj.mp h0)
      rw [accept_header (findHeader_append hs _)]
      exact if_neg fun hw => by omega
  · exact Or.inl ⟨lenField_append bs (by omega) chunk, fun h' => absurd h' h⟩

private theorem take_head? {n : Nat} (hn : 0 < n) (chunk : List UInt8) :
    (chunk.take n).head? = chunk.head? := by
  obtain ⟨k, rfl⟩ : ∃ k, n = k + 1 := ⟨n - 1, by omega⟩
  cases chunk with
  | nil => rfl
  | cons c chunk => rfl

private theorem take_ne_nil {n : Nat} (hn : 0 < n) {chunk : List UInt8} (hc : chunk ≠ []) :
    chunk.take n ≠ [] := by
  have hpos := List.length_pos_of_ne_nil hc
  apply List.ne_nil_of_length_pos
  rw [List.length_take]
  omega

/-- The sixth byte, when it is to come, is the zero that the length field is read with. -/
private theorem take_settled (h5 : 5 ≤ bs.length) {chunk : List UInt8}
    (hhead : bs.length = 5 → chunk.head? = some 0) {n : Nat} (hn : n < headerSize) :
    (bs ++ chunk).take n = (bs ++ [0]).take n := by
  have hhs : headerSize = 7 := rfl
  by_cases h : bs.length = 5
  · obtain ⟨more, rfl⟩ : ∃ more, chunk = 0 :: more := List.head?_eq_some_iff.mp (hhead h)
    rw [← List.singleton_append, ← List.append_assoc, List.take_append_of_le_length]
    rw [List.length_append, List.length_singleton]
    omega
  · rw [List.take_append_of_le_length (by omega), List.take_append_of_le_length (by omega)]

/-- A frame that is all there is refused for its check byte only. -/
private theorem xor_ne_zero_of_reject (hs : findHeader bs = some 0) (hsize : headerSize ≤ bs.length)
    (hle : lenField bs ≤ bs.length) (hnone : accept bs = none) : xorAll (bs.take (lenField bs)) ≠ 0 := by
  intro hx
  rw [accept_header hs, if_pos ⟨hsize, hle, hx⟩] at hnone
  exact absurd hnone (Option.some_ne_none _)

/-- A frame whose length field names fewer bytes than a header ends within the bytes at hand. -/
private theorem answer_short (hs : findHeader bs = some 0) (h5 : 5 ≤ bs.length)
    (hshort : lenField bs < headerSize) (hnone : accept bs = none) {room : Nat} (h7 : headerSize ≤ room)
    (hfit : bs.length ≤ room) (hroom : room ≤ 255) {chunk : List UInt8} (hc : chunk ≠ []) (cap : Nat) :
    accept (Assembler.fill room bs chunk) = (prospectOf cap room bs).answer chunk := by
  have hhs : headerSize = 7 := rfl
  rw [Assembler.fill_eq_append hfit, prospectOf, if_neg (by omega), if_neg (by omega), if_pos hshort]
  by_cases hlt : bs.length < headerSize
  · have hy := take_ne_nil (n := room - bs.length) (by omega) hc
    have hfits : (bs ++ chunk.take (room - bs.length)).length ≤ 255 := by
      rw [List.length_append, List.length_take]
      omega
    rcases lenField_settled hs h5 hy hfits with ⟨hlenf, hhead⟩ | ⟨h, hhead, hdead⟩
    · have hhead' := hhead
      rw [take_head? (by omega)] at hhead'
      have hsize : (bs ++ chunk.take (room - bs.length)).length = min room (bs.length + chunk.length) := by
        rw [List.length_append, List.length_take]
        omega
      rw [accept_header (findHeader_append hs _), hlenf, take_settled h5 hhead hshort]
      by_cases hx : xorAll ((bs ++ [0]).take (lenField bs)) = 0
      · rw [if_pos (And.intro hlt hx), Prospect.answer]
        refine if_congr ⟨fun hw => ⟨?_, hhead'⟩, fun hw => ⟨?_, ?_, hx⟩⟩ rfl rfl
        · omega
        · omega
        · omega
      · rw [if_neg fun hw => hx hw.2.2, if_neg fun hw => hx hw.2]
        rfl
    · rw [take_head? (by omega)] at hhead
      rw [hdead]
      by_cases hx : xorAll ((bs ++ [0]).take (lenField bs)) = 0
      · rw [if_pos ⟨hlt, hx⟩]
        exact (if_neg fun hw => hhead (hw.2 h)).symm
      · rw [if_neg fun hw => hx hw.2]
        rfl
  · have hlenf := lenField_append bs (by omega) (chunk.take (room - bs.length))
    rw [if_neg fun hw => hlt hw.1, accept_header (findHeader_append hs _), hlenf,
      List.take_append_of_le_length (by omega)]
    have hx := xor_ne_zero_of_reject hs (by omega) (by omega) hnone
    exact if_neg fun hw => hx hw.2.2

/-- A frame that is not complete yet depends neither on where it began nor on what follows it. -/
private theorem accept_fill_waiting (hs : findHeader bs = some 0) (h5 : 5 ≤ bs.length)
    (hlong : headerSize ≤ lenField bs) (hpart : bs.length < lenField bs) {cap room : Nat}
    (hfit : lenField bs ≤ room) (hroom : room ≤ cap) (hcap : cap ≤ 255) {chunk : List UInt8} (hc : chunk ≠ []) :
    accept (Assembler.fill room bs chunk) = accept (Assembler.fill cap bs chunk) := by
  have hsettled : ∀ n, lenField bs ≤ n → n ≤ 255 →
      (lenField (Assembler.fill n bs chunk) = lenField bs ∧ (bs.length = 5 → chunk.head? = some 0)) ∨
        (bs.length = 5 ∧ chunk.head? ≠ some 0 ∧ accept (Assembler.fill n bs chunk) = none) := by
    intro n hn hn'
    have hfits : (bs ++ chunk.take (n - bs.length)).length ≤ 255 := by
      rw [List.length_append, List.length_take]
      omega
    have h := lenField_settled hs h5 (take_ne_nil (n := n - bs.length) (by omega) hc) hfits
    rwa [take_head? (by omega), ← Assembler.fill_eq_append (by omega)] at h
  have hheader : ∀ n, lenField bs ≤ n → findHeader (Assembler.fill n bs chunk) = some 0 := by
    intro n hn
    rw [Assembler.fill_eq_append (by omega)]
    exact findHeader_append hs _
  have htake : ∀ n, lenField bs ≤ n →
      (Assembler.fill n bs chunk).take (lenField bs) = (bs ++ chunk).take (lenField bs) := by
    intro n hn
    rw [Assembler.fill, List.take_take, Nat.min_eq_left hn]
  have hlen : ∀ n, (Assembler.fill n bs chunk).length = min n (bs ++ chunk).length := by
    intro n
    rw [Assembler.fill, List.length_take]
  have hl := hlen room
  have hl' := hlen cap
  rcases hsettled room hfit (by omega) with ⟨hlenf, hhead⟩ | ⟨h, hhead, hdead⟩
  · rcases hsettled cap (by omega) hcap with ⟨hlenf', _⟩ | ⟨h, hhead', _⟩
    · rw [accept_header (hheader room hfit), accept_header (hheader cap (by omega)), hlenf, hlenf',
        htake room hfit, htake cap (by omega)]
      exact if_congr ⟨fun hw => ⟨by omega, by omega, hw.2.2⟩, fun hw => ⟨by omega, by omega, hw.2.2⟩⟩ rfl rfl
    · exact absurd (hhead h) hhead'
  · rcases hsettled cap (by omega) hcap with ⟨_, hhead'⟩ | ⟨_, _, hdead'⟩
    · exact absurd (hhead' h) hhead
    · rw [hdead, hdead']

private theorem answer_waiting (hs : findHeader bs = some 0) (h5 : 5 ≤ bs.length)
    (hlong : headerSize ≤ lenField bs) (hnone : accept bs = none) {cap room : Nat} (h7 : headerSize ≤ room)
    (hfit : bs.length ≤ room) (hroom : room ≤ cap) (hcap : cap ≤ 255) {chunk : List UInt8} (hc : chunk ≠ []) :
    accept (Assembler.fill room bs chunk) = (prospectOf cap room bs).answer chunk := by
  have hhs : headerSize = 7 := rfl
  rw [prospectOf, if_neg (by omega), if_neg (by omega), if_neg (by omega)]
  by_cases hw : bs.length < lenField bs ∧ lenField bs ≤ room
  · rw [if_pos hw]
    exact accept_fill_waiting hs h5 hlong hw.1 hw.2 hroom hcap hc
  · rw [if_neg hw, Prospect.answer, Assembler.fill_eq_append hfit]
    have hsize : (bs ++ chunk.take (room - bs.length)).length ≤ room := by
      rw [List.length_append, List.length_take]
      omega
    -- either the check has already failed, or the frame is longer than what can be held
    by_cases hle : lenField bs ≤ bs.length
    · rw [accept_header (findHeader_append hs _), lenField_append bs (by omega),
        List.take_append_of_le_length hle]
      have hx := xor_ne_zero_of_reject hs (by omega) hle hnone
      exact if_neg fun hw => hx hw.2.2
    · by_cases hy : chunk.take (room - bs.length) = []
      · rw [hy, List.append_nil]
        exact hnone
      · rcases lenField_settled hs h5 hy (by omega) with ⟨hlenf, _⟩ | ⟨_, _, hdead⟩
        · rw [accept_header (findHeader_append hs _), hlenf]
          exact if_neg fun hx => by omega
        · exact hdead

end LengthField

/-- The prospect of collected bytes tells what every chunk makes recognised. -/
theorem accept_fill_prospect {cap : Nat} (hcap : cap ≤ 255) {bs : List UInt8} (hfit : bs.length ≤ cap)
    (hnone : accept bs = none) {chunk : List UInt8} (hc : chunk ≠ []) :
    accept (Assembler.fill cap bs chunk) = (prospect cap bs).answer chunk := by
  have hle := fromHeader_length_le bs
  have hstarted := fromHeader_started bs
  have hhs : headerSize = 7 := rfl
  rw [accept_fill_fromHeader bs chunk hfit, prospect]
  rw [← accept_fromHeader] at hnone
  revert hnone hstarted
  have hroom : (fromHeader bs).length ≤ cap - (bs.length - (fromHeader bs).length) := by omega
  have hroom' : cap - (bs.length - (fromHeader bs).length) ≤ cap := Nat.sub_le _ _
  revert hroom hroom'
  generalize cap - (bs.length - (fromHeader bs).length) = room
  generalize fromHeader bs = t
  intro hroom hroom' hnone hstarted
  by_cases h7 : room < headerSize
  · rw [prospectOf, if_pos h7]
    apply accept_short
    rw [Assembler.fill, List.length_take]
    omega
  · by_cases h5 : t.length < 5
    · rw [prospectOf, if_neg h7, if_pos h5]
      rfl
    · have hs : findHeader t = some 0 := by
        rcases hstarted with rfl | rfl | hs
        · simp at h5
        · simp at h5
        · exact hs
      by_cases hlong : lenField t < headerSize
      · exact answer_short hs (by omega) hlong hnone (by omega) hroom (by omega) hc cap
      · exact answer_waiting hs (by omega) (by omega) hnone (by omega) hroom hroom' hcap hc

/-- A beginning with room for a frame: of any length, or of the one it names. -/
structure Collectable (cap room : Nat) (bs : List UInt8) : Prop where
  room_le : room ≤ cap
  header_le : headerSize ≤ room
  fits : bs.length ≤ room
  started : Started bs
  settled : 5 ≤ bs.length →
    room = cap ∧ bs.length < lenField bs ∧ headerSize ≤ lenField bs ∧ lenField bs ≤ cap

def Prospect.Valid (cap : Nat) : Prospect → Prop
  | .dead => True
  | .short received frame => (received = 5 ∨ received = 6) ∧ frame.length < headerSize
  | .collecting room bs => Collectable cap room bs

theorem prospect_valid {cap : Nat} {bs : List UInt8} (hfit : bs.length ≤ cap) : (prospect cap bs).Valid cap := by
  have hle := fromHeader_length_le bs
  have hstarted := fromHeader_started bs
  have hhs : headerSize = 7 := rfl
  have hroom : (fromHeader bs).length ≤ cap - (bs.length - (fromHeader bs).length) := by omega
  have hroom' : cap - (bs.length - (fromHeader bs).length) ≤ cap := Nat.sub_le _ _
  rw [prospect]
  revert hstarted hroom hroom'
  generalize cap - (bs.length - (fromHeader bs).length) = room
  generalize fromHeader bs = t
  intro hstarted hroom hroom'
  unfold prospectOf
  split
  · trivial
  · rename_i h7
    split
    · rename_i h5
      exact ⟨hroom', by omega, hroom, hstarted, fun h => by omega⟩
    · split
      · rename_i hshort
        split
        · rename_i hx
          refine ⟨by omega, ?_⟩
          rw [List.length_take]
          omega
        · trivial
      · split
        · rename_i hw
          exact ⟨le_refl cap, by omega, by omega, hstarted, fun _ => ⟨rfl, hw.1, by omega, by omega⟩⟩
        · trivial

theorem xorAll_replicate (n : Nat) : xorAll (List.replicate n 0) = 0 := by
  induction n with
  | zero => rfl
  | succ n ih => rw [List.replicate_succ, xorAll_cons, ih, UInt8.xor_self]

/-- Zeros and a check byte complete a frame whose length is known. -/
private theorem exists_rest {bs : List UInt8} (hs : findHeader bs = some 0) (h5 : 5 ≤ bs.length)
    (hpart : bs.length < lenField bs) (h7 : headerSize ≤ lenField bs) :
    ∃ c, c ≠ [] ∧ accept (bs ++ c) = some (bs ++ c) ∧ (bs ++ c).length = lenField bs := by
  have hhs : headerSize = 7 := rfl
  refine ⟨List.replicate (lenField bs - bs.length - 1) 0 ++ [xorAll bs], by simp, ?_, ?_⟩
  · have hlen : (bs ++ (List.replicate (lenField bs - bs.length - 1) 0 ++ [xorAll bs])).length =
        lenField bs := by
      simp only [List.length_append, List.length_replicate, List.length_singleton]
      omega
    have hfield : lenField (bs ++ (List.replicate (lenField bs - bs.length - 1) 0 ++ [xorAll bs])) =
        lenField bs := by
      by_cases h : bs.length = 5
      · obtain ⟨k, hk⟩ : ∃ k, lenField bs - bs.length - 1 = k + 1 := ⟨lenField bs - 7, by omega⟩
        rw [hk, List.replicate_succ, List.cons_append, lenField_five h]
        rfl
      · exact lenField_append bs (by omega) _
    have hx : xorAll (bs ++ (List.replicate (lenField bs - bs.length - 1) 0 ++ [xorAll bs])) = 0 := by
      simp [xorAll_replicate]
    exact accept_whole (findHeader_append hs _) (by omega) (hfield.trans hlen.symm) hx
  · simp only [List.length_append, List.length_replicate, List.length_singleton]
    omega

/-- Before the length field anything is possible: a beginning that is no longer can become
a frame of any length. -/
private theorem exists_lenField {bs : List UInt8} (hs : Started bs) (h5 : bs.length < 5) {n : Nat} (hn : n ≤ 255) :
    ∃ c, findHeader (bs ++ c) = some 0 ∧ (bs ++ c).length = 6 ∧ lenField (bs ++ c) = n := by
  refine ⟨[commandHeaderLSB, commandHeaderMSB, 0, 0].drop bs.length ++ [UInt8.ofNat n, 0], ?_, ?_, ?_⟩
  · rcases hs with rfl | rfl | hs
    · exact findHeader_header _
    · exact findHeader_header _
    · exact findHeader_append hs _
  · simp
    omega
  · have hfour : (bs ++ [commandHeaderLSB, commandHeaderMSB, 0, 0].drop bs.length).length = 4 := by
      simp
      omega
    rw [← List.append_assoc, lenField]
    generalize bs ++ [commandHeaderLSB, commandHeaderMSB, 0, 0].drop bs.length = four at hfour
    simp [Memory.uint16, hfour]
    omega

section Separation
variable {cap : Nat} (hcap : cap ≤ 255)
include hcap

/-- A collected beginning can be completed to a frame, which is as long as there is room
while the length is open. -/
theorem Collectable.completes {room : Nat} {bs : List UInt8} (h : Collectable cap room bs) :
    ∃ c, c ≠ [] ∧ (Prospect.collecting room bs).answer c = some (bs ++ c) ∧
      headerSize ≤ (bs ++ c).length ∧ (bs.length < 5 → (bs ++ c).length = room) := by
  have hroom := h.room_le
  have h7 := h.header_le
  have hhs : headerSize = 7 := rfl
  by_cases h5 : bs.length < 5
  · obtain ⟨c, hs, hsix, hlen⟩ := exists_lenField h.started h5 (n := room) (by omega)
    obtain ⟨d, hd, hacc, hrest⟩ := exists_rest hs (by omega) (by omega) (by omega)
    rw [List.append_assoc] at hacc hrest
    refine ⟨c ++ d, List.append_ne_nil_of_right_ne_nil c hd, ?_, by omega, fun _ => by omega⟩
    rw [Prospect.answer, Assembler.fill_eq (by omega), hacc]
  · obtain ⟨rfl, hpart, hlong, hle⟩ := h.settled (by omega)
    have hs : findHeader bs = some 0 := by
      rcases h.started with rfl | rfl | hs
      · simp at h5
      · simp at h5
      · exact hs
    obtain ⟨c, hc, hacc, hlen⟩ := exists_rest hs (by omega) hpart hlong
    refine ⟨c, hc, ?_, by omega, fun h' => absurd h' h5⟩
    rw [Prospect.answer, Assembler.fill_eq (by omega), hacc]

omit hcap in
/-- What is recognised lies within what was collected. -/
private theorem answer_collecting {room : Nat} {bs c f : List UInt8}
    (h : (Prospect.collecting room bs).answer c = some f) : f <:+: bs ++ c ∧ f.length ≤ room := by
  have hinf : f <:+: Assembler.fill room bs c := rules_sound .bth _ f h
  refine ⟨hinf.trans (List.take_prefix _ _).isInfix, hinf.length_le.trans ?_⟩
  rw [Assembler.fill, List.length_take]
  exact Nat.min_le_left _ _

/-- Of two beginnings that answer every chunk alike, neither is longer. -/
private theorem collecting_length_le {room room' : Nat} {bs bs' : List UInt8} (h : Collectable cap room bs)
    (heq : ∀ c, c ≠ [] →
      (Prospect.collecting room bs).answer c = (Prospect.collecting room' bs').answer c) :
    bs.length ≤ bs'.length ∧ (bs.length = bs'.length → bs = bs' ∧ (bs.length < 5 → room ≤ room')) := by
  obtain ⟨c, hc, hans, _, hlong⟩ := h.completes hcap
  rw [heq c hc] at hans
  obtain ⟨hinf, hle⟩ := answer_collecting hans
  have hlen := hinf.length_le
  simp only [List.length_append] at hlen hlong hle
  refine ⟨by omega, fun hsame => ⟨?_, fun h5 => ?_⟩⟩
  · have hall := hinf.eq_of_length (by simp [hsame])
    exact (List.append_inj hall hsame).1
  · have := hlong h5
    omega

/-- A frame that is shorter than a header is no answer to a completed beginning. -/
private theorem collecting_ne_short {room received : Nat} {bs frame : List UInt8}
    (h : Collectable cap room bs) (hf : frame.length < headerSize) :
    ¬ ∀ c, c ≠ [] → (Prospect.collecting room bs).answer c = (Prospect.short received frame).answer c := by
  intro heq
  obtain ⟨c, hc, hans, hlong, _⟩ := h.completes hcap
  rw [heq c hc, Prospect.answer] at hans
  split at hans
  · rw [← Option.some.inj hans] at hlong
    omega
  · exact absurd hans.symm (Option.some_ne_none _)

private theorem collecting_ne_dead {room : Nat} {bs : List UInt8} (h : Collectable cap room bs) :
    ¬ ∀ c, c ≠ [] → (Prospect.collecting room bs).answer c = Prospect.dead.answer c := by
  intro heq
  obtain ⟨c, hc, hans, _⟩ := h.completes hcap
  rw [heq c hc] at hans
  exact absurd hans.symm (Option.some_ne_none _)

omit hcap in
/-- Two bytes of zero decide whether a short frame is to come. -/
private theorem answer_short_zeros {received : Nat} {frame : List UInt8} (h : received = 5 ∨ received = 6) :
    (Prospect.short received frame).answer [0, 0] = some frame := by
  rw [Prospect.answer, if_pos]
  refine ⟨?_, fun _ => rfl⟩
  change 7 ≤ received + 2
  omega

omit hcap in
private theorem short_ne_dead {received : Nat} {frame : List UInt8} (h : received = 5 ∨ received = 6) :
    ¬ ∀ c, c ≠ [] → (Prospect.short received frame).answer c = Prospect.dead.answer c := by
  intro heq
  have hzeros := heq [0, 0] (by simp)
  rw [answer_short_zeros h] at hzeros
  exact absurd hzeros (Option.some_ne_none _)

/-- Prospects that answer every chunk alike are the same. -/
theorem Prospect.answer_injective {p q : Prospect} (hp : p.Valid cap) (hq : q.Valid cap)
    (h : ∀ c, c ≠ [] → p.answer c = q.answer c) : p = q := by
  have hsymm : ∀ c, c ≠ [] → q.answer c = p.answer c := fun c hc => (h c hc).symm
  cases p with
  | dead =>
    cases q with
    | dead => rfl
    | short received frame => exact absurd hsymm (short_ne_dead hq.1)
    | collecting room bs => exact absurd hsymm (collecting_ne_dead hcap hq)
  | short received frame =>
    cases q with
    | dead => exact absurd h (short_ne_dead hp.1)
    | short received' frame' =>
      have h0 := h [0, 0] (by simp)
      have h1 := h [1] (by simp)
      rw [answer_short_zeros hp.1, answer_short_zeros hq.1, Option.some.injEq] at h0
      subst h0
      rcases hp.1 with rfl | rfl <;> rcases hq.1 with rfl | rfl
      · rfl
      · exact absurd h1 (by simp [Prospect.answer, headerSize])
      · exact absurd h1 (by simp [Prospect.answer, headerSize])
      · rfl
    | collecting room bs => exact absurd hsymm (collecting_ne_short hcap hq hp.2)
  | collecting room bs =>
    cases q with
    | dead => exact absurd h (collecting_ne_dead hcap hp)
    | short received frame => exact absurd h (collecting_ne_short hcap hp hq.2)
    | collecting room' bs' =>
      obtain ⟨hle, hsame⟩ := collecting_length_le hcap hp h
      obtain ⟨hle', hsame'⟩ := collecting_length_le hcap hq hsymm
      have hlen := le_antisymm hle hle'
      obtain ⟨rfl, hroom⟩ := hsame hlen
      have hroom' := (hsame' rfl).2
      by_cases h5 : bs.length < 5
      · rw [le_antisymm (hroom h5) (hroom' h5)]
      · rw [(hp.settled (by omega)).1, (hq.settled (by omega)).1]

end Separation

/-- Collected bytes that were not recognised are alike exactly if they have one prospect. -/
theorem alike_iff_prospect (l : Link) {as bs : List UInt8} (has : as.length ≤ l.maxFrameSize)
    (hbs : bs.length ≤ l.maxFrameSize) (ha : accept as = none) (hb : accept bs = none) :
    Assembler.Alike l.rules as bs ↔ prospect l.maxFrameSize as = prospect l.maxFrameSize bs := by
  have hcap := l.maxFrameSize_le
  constructor
  · intro h
    refine Prospect.answer_injective hcap (prospect_valid has) (prospect_valid hbs) fun c hc => ?_
    rw [← accept_fill_prospect hcap has ha hc, ← accept_fill_prospect hcap hbs hb hc]
    exact h c hc
  · intro h c hc
    have hans := congrArg (fun p => Prospect.answer p c) h
    simp only [← accept_fill_prospect hcap has ha hc, ← accept_fill_prospect hcap hbs hb hc] at hans
    exact hans

/-- Only an empty buffer has the prospects of an empty buffer. -/
theorem prospect_eq_nil {cap : Nat} (h7 : headerSize ≤ cap) {bs : List UInt8} (hfit : bs.length ≤ cap) :
    prospect cap [] = prospect cap bs ↔ bs = [] := by
  constructor
  · intro h
    have hle := fromHeader_length_le bs
    have hempty : prospect cap [] = .collecting cap [] := by
      rw [prospect, fromHeader, prospectOf, if_neg (by simpa using h7), if_pos (by simp)]
      rfl
    rw [hempty, prospect, prospectOf] at h
    split at h
    · cases h
    · split at h
      · rw [Prospect.collecting.injEq] at h
        rw [← h.2, List.length_nil] at hle h
        exact List.eq_nil_of_length_eq_zero (by omega)
      · split at h
        · split at h
          · cases h
          · cases h
        · split at h
          · rw [Prospect.collecting.injEq] at h
            rename_i h5 _ _
            rw [← h.2] at h5
            simp at h5
          · cases h
  · rintro rfl
    rfl

end SidFirmware.FrameReceiver
