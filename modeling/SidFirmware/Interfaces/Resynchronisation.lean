import SidFirmware.Interfaces.FrameReceiver

/-! Recovery after bad input. A failed check does not clear the buffer, so a state
recovers only if the bytes it holds are completed to an accepted frame by the first
two bytes of whatever comes next. -/
namespace SidFirmware.FrameReceiver
open Memory EsProtocol EsInterfaces EsQueue

def Accepts (l : Link) (r : Receiver) (f : List UInt8) : Prop :=
  ∃ d, l.dataReceived r f = some d ∧ d.written = some f ∧
    d.receiver.inbox.queue = (EsQueue.write r.inbox.queue f).1

structure Sendable (l : Link) (f : List UInt8) : Prop where
  wellFormed : WellFormed f
  fits : f.length ≤ l.maxFrameSize

def Resyncs (l : Link) (r : Receiver) : Prop :=
  ∃ bound, ∀ fs : List (List UInt8), (∀ f ∈ fs, Sendable l f) → bound < fs.length →
    ∃ as f bs r', fs = as ++ f :: bs ∧ Runs.run l.call r as = some r' ∧ Accepts l r' f

/-- The next two bytes of any frame decide about what is held: the buffer has room,
the length field is there and covers no more than those two bytes. -/
structure CoveredAt (maxFrameSize : Nat) (bs : List UInt8) (s : Nat) : Prop where
  header : findHeader bs = some s
  field : 6 ≤ bs.length - s
  room : bs.length < maxFrameSize
  covered : lenField (bs.drop s) ≤ bs.length - s + 2
  fits : s + lenField (bs.drop s) ≤ maxFrameSize

/-- They decide for it: the covered bytes have xor zero. -/
structure CompletedAt (maxFrameSize : Nat) (bs : List UInt8) (s : Nat) : Prop
    extends CoveredAt maxFrameSize bs s where
  crc : xorAll ((bs.drop s ++ [commandHeaderLSB, commandHeaderMSB]).take (lenField (bs.drop s))) = 0

def Recoverable (maxFrameSize : Nat) (bs : List UInt8) : Prop :=
  bs = [] ∨ ∃ s, CompletedAt maxFrameSize bs s

private theorem accepts_of_empty {l : Link} {r : Receiver} (h : Holds l.maxFrameSize r [])
    {f : List UInt8} (hf : Sendable l f) : Accepts l r f := by
  have hrec := recognises_of_wellFormed hf.wellFormed hf.fits
  have hfill : Assembler.fill l.maxFrameSize [] f = f := Assembler.fill_eq hf.fits
  have hne : Assembler.fill l.maxFrameSize [] f ≠ [] := by
    rw [hfill]
    exact hrec.nonempty
  have ha : accept f = some f := hrec.whole
  obtain ⟨r', hd, _, hi⟩ := dataReceived_spec l h hne
  rw [hfill, ha] at hd hi
  refine ⟨_, hd, rfl, ?_⟩
  rw [hi]
  rfl

/-- The bytes a held header sees once a frame follows: the held ones, then at least
`AA 55` as far as there is room. -/
private theorem fill_frame {max s : Nat} {bs f : List UInt8} (h : CoveredAt max bs s)
    (hf : WellFormed f) :
    findHeader (Assembler.fill max bs f) = some s ∧
    lenField ((Assembler.fill max bs f).drop s) = lenField (bs.drop s) ∧
    headerSize ≤ (Assembler.fill max bs f).length - s ∧
    lenField (bs.drop s) ≤ (Assembler.fill max bs f).length - s ∧
    ((Assembler.fill max bs f).drop s).take (lenField (bs.drop s)) =
      (bs.drop s ++ [commandHeaderLSB, commandHeaderMSB]).take (lenField (bs.drop s)) := by
  have hroom := h.room
  have hfield := h.field
  have hcov := h.covered
  have hfits := h.fits
  have hmin := hf.minimum
  obtain ⟨rest, rfl⟩ := findHeader_zero hf.header
  unfold headerSize at hmin
  have hfill : Assembler.fill max bs (commandHeaderLSB :: commandHeaderMSB :: rest) =
      bs ++ (commandHeaderLSB :: commandHeaderMSB :: rest).take (max - bs.length) :=
    Assembler.fill_eq_append (by omega) _
  have hdrop : (Assembler.fill max bs (commandHeaderLSB :: commandHeaderMSB :: rest)).drop s =
      bs.drop s ++ (commandHeaderLSB :: commandHeaderMSB :: rest).take (max - bs.length) := by
    rw [hfill, List.drop_append_of_le_length (by omega)]
  have hdl : (bs.drop s).length = bs.length - s := List.length_drop
  have hlen : (Assembler.fill max bs (commandHeaderLSB :: commandHeaderMSB :: rest)).length =
      bs.length + min (max - bs.length) (rest.length + 2) := by
    rw [hfill, List.length_append, List.length_take, List.length_cons, List.length_cons]
  simp only [List.length_cons] at hmin
  refine ⟨?_, ?_, ?_, ?_, ?_⟩
  · rw [hfill]
    exact findHeader_append h.header _
  · rw [hdrop, lenField_append _ (by omega)]
  · rw [hlen, headerSize]
    omega
  · rw [hlen]
    omega
  · rw [hdrop, List.take_append, List.take_append, hdl, List.take_take]
    congr 1
    generalize hk : lenField (bs.drop s) - (bs.length - s) = k
    have hk2 : k ≤ 2 := by omega
    have hkr : k ≤ max - bs.length := by omega
    rw [Nat.min_eq_left hkr]
    match k, hk2 with
    | 0, _ => rfl
    | 1, _ => rfl
    | 2, _ => rfl

private theorem completed_accepts {max s : Nat} {bs f : List UInt8} (h : CompletedAt max bs s)
    (hf : WellFormed f) : ∃ g, accept (Assembler.fill max bs f) = some g := by
  obtain ⟨hs, hlen, h7, hl, htake⟩ := fill_frame h.toCoveredAt hf
  refine ⟨_, accept_of_valid (verdict_validFrame_iff.mpr ⟨hs, h7, ?_, ?_⟩)⟩
  · rw [hlen]
    exact hl
  · rw [hlen, htake]
    exact h.crc

/-- A recoverable state ignores at most one frame. -/
theorem resyncs_of_recoverable {l : Link} {r : Receiver} {bs : List UInt8}
    (h : Holds l.maxFrameSize r bs) (hr : Recoverable l.maxFrameSize bs) : Resyncs l r := by
  refine ⟨1, fun fs hfs hlen => ?_⟩
  obtain ⟨f, g, rest, rfl⟩ : ∃ f g rest, fs = f :: g :: rest := by
    match fs, hlen with
    | f :: g :: rest, _ => exact ⟨f, g, rest, rfl⟩
  simp only [List.forall_mem_cons] at hfs
  rcases hr with rfl | ⟨s, hs⟩
  · exact ⟨[], f, g :: rest, r, rfl, rfl, accepts_of_empty h hfs.1⟩
  · obtain ⟨x, hx⟩ := completed_accepts hs hfs.1.wellFormed
    have hne : Assembler.fill l.maxFrameSize bs f ≠ [] := by
      have hlt := findHeader_lt (fill_frame hs.toCoveredAt hfs.1.wellFormed).1
      exact List.ne_nil_of_length_pos (by omega)
    obtain ⟨r', hd, hh, _⟩ := dataReceived_spec l h hne
    rw [leftover_of_some hx] at hh
    refine ⟨[f], g, rest, r', rfl, ?_, accepts_of_empty hh hfs.2.1⟩
    rw [Runs.run, Link.call, hd]
    rfl

private def wedgeTail (l : Link) (y : UInt8) : List UInt8 :=
  [y, UInt8.ofNat l.maxFrameSize, UInt8.ofNat (l.maxFrameSize / 256), 0] ++
    List.replicate (l.maxFrameSize - 8) 0

/-- A well-formed frame as long as the buffer, with two free bytes. -/
def wedgeFrame (l : Link) (x y : UInt8) : List UInt8 :=
  commandHeaderLSB :: commandHeaderMSB :: x ::
    (wedgeTail l y ++ [commandHeaderLSB ^^^ (commandHeaderMSB ^^^ (x ^^^ xorAll (wedgeTail l y)))])

private theorem wedgeTail_length (l : Link) (y : UInt8) : (wedgeTail l y).length = l.maxFrameSize - 4 := by
  have hmax := l.le_maxFrameSize
  simp [wedgeTail]
  omega

theorem wedgeFrame_length (l : Link) (x y : UInt8) : (wedgeFrame l x y).length = l.maxFrameSize := by
  have hmax := l.le_maxFrameSize
  simp only [wedgeFrame, List.length_cons, List.length_append, wedgeTail_length, List.length_nil]
  omega

theorem wedgeFrame_sendable (l : Link) (x y : UInt8) : Sendable l (wedgeFrame l x y) := by
  have hmax := l.le_maxFrameSize
  have hmax' := l.maxFrameSize_le
  have hlen := wedgeFrame_length l x y
  refine ⟨⟨findHeader_header _, ?_, ?_, ?_⟩, by omega⟩
  · rw [hlen]
    exact uint16_ofNat (by omega)
  · rw [hlen, headerSize]
    omega
  · have hx : ∀ a b c t : UInt8, a ^^^ (b ^^^ (c ^^^ (t ^^^ (a ^^^ (b ^^^ (c ^^^ t)))))) = 0 := by
      intro a b c t
      rw [← UInt8.xor_assoc c t, ← UInt8.xor_assoc b (c ^^^ t), ← UInt8.xor_assoc a (b ^^^ (c ^^^ t))]
      exact UInt8.xor_self
    simp only [wedgeFrame, xorAll_cons, xorAll_append, xorAll_nil, UInt8.xor_zero]
    exact hx _ _ _ _

private theorem accept_none {bs : List UInt8}
    (h : ∀ s, findHeader bs = some s → headerSize ≤ bs.length - s →
      lenField (bs.drop s) ≤ bs.length - s → xorAll ((bs.drop s).take (lenField (bs.drop s))) ≠ 0) :
    accept bs = none := by
  refine accept_of_not_valid fun hv => ?_
  obtain ⟨hs, h7, hl, hx⟩ := verdict_validFrame_iff.mp (Prod.ext hv rfl : verdict bs = (_, (verdict bs).2))
  exact h _ hs h7 hl hx

private theorem wedgeFrame_large (l : Link) {i : Nat} (h : i ≤ 3) :
    85 ≤ ((wedgeFrame l 0xFF 0xFF).getD i 0).toNat := by
  match i, h with
  | 0, _ => exact (by decide : 85 ≤ (0xAA : UInt8).toNat)
  | 1, _ => exact (by decide : 85 ≤ (0x55 : UInt8).toNat)
  | 2, _ => exact (by decide : 85 ≤ (0xFF : UInt8).toNat)
  | 3, _ => exact (by decide : 85 ≤ (0xFF : UInt8).toNat)

/-- Behind bytes without a header, a frame as long as the buffer is cut off. -/
private theorem wedge_of_no_header {l : Link} {bs : List UInt8} (hne : bs ≠ [])
    (hroom : bs.length < l.maxFrameSize) (hh : findHeader bs = none) :
    accept (bs ++ (wedgeFrame l 0 0).take (l.maxFrameSize - bs.length)) = none := by
  have hpos := List.length_pos_of_ne_nil hne
  have hmax := l.le_maxFrameSize
  have hmax' := l.maxFrameSize_le
  have hlen := wedgeFrame_length l 0 0
  have htake : ((wedgeFrame l 0 0).take (l.maxFrameSize - bs.length)).length =
      l.maxFrameSize - bs.length := by
    rw [List.length_take, hlen]
    omega
  refine accept_none fun s hs h7 hl => ?_
  exfalso
  rw [List.length_append, htake] at h7 hl
  unfold headerSize at h7
  by_cases hin : s + 1 < bs.length
  · rw [findHeader_of_append hs hin] at hh
    exact Option.some_ne_none s hh
  · by_cases hone : l.maxFrameSize - bs.length = 1
    · omega
    · have hhead : findHeader ((wedgeFrame l 0 0).take (l.maxFrameSize - bs.length)) = some 0 := by
        obtain ⟨k, hk⟩ : ∃ k, l.maxFrameSize - bs.length = k + 2 :=
          ⟨l.maxFrameSize - bs.length - 2, by omega⟩
        rw [hk]
        exact findHeader_header _
      have hat := (findHeader_append_none hh hhead).symm.trans hs
      rw [Option.some.injEq] at hat
      subst hat
      have hfield : lenField ((wedgeFrame l 0 0).take (l.maxFrameSize - bs.length)) = l.maxFrameSize := by
        have happ := lenField_append ((wedgeFrame l 0 0).take (l.maxFrameSize - bs.length))
          (by omega) ((wedgeFrame l 0 0).drop (l.maxFrameSize - bs.length))
        rw [List.take_append_drop, (wedgeFrame_sendable l 0 0).wellFormed.len_eq, hlen] at happ
        exact happ.symm
      rw [List.drop_left, hfield] at hl
      omega

/-- Behind a header without its length field, the frame supplies one that is too long. -/
private theorem wedge_of_short {l : Link} {bs : List UInt8} {s : Nat} (hh : findHeader bs = some s)
    (hfit : bs.length < l.maxFrameSize) (hshort : bs.length - s < 6) :
    accept (bs ++ (wedgeFrame l 0xFF 0xFF).take (l.maxFrameSize - bs.length)) = none := by
  have hlt := findHeader_lt hh
  have hmax := l.maxFrameSize_le
  have hlen := wedgeFrame_length l 0xFF 0xFF
  have htake : ((wedgeFrame l 0xFF 0xFF).take (l.maxFrameSize - bs.length)).length =
      l.maxFrameSize - bs.length := by
    rw [List.length_take, hlen]
    omega
  refine accept_none fun t ht h7 hl => ?_
  exfalso
  have hat := (findHeader_append hh _).symm.trans ht
  rw [Option.some.injEq] at hat
  subst hat
  rw [List.length_append, htake] at h7 hl
  unfold headerSize at h7
  rw [List.drop_append_of_le_length (by omega)] at hl
  have hmsb : 85 ≤
      ((bs.drop s ++ (wedgeFrame l 0xFF 0xFF).take (l.maxFrameSize - bs.length)).getD 5 0).toNat := by
    rw [List.getD_eq_getElem?_getD, List.getElem?_append_right (by rw [List.length_drop]; omega),
      List.length_drop, List.getElem?_take_of_lt (by omega), ← List.getD_eq_getElem?_getD]
    exact wedgeFrame_large l (by omega)
  unfold lenField uint16 at hl
  omega

/-- A frame's third byte can spoil the xor of what a held length field covers. -/
private theorem wedge_of_long {l : Link} {bs : List UInt8} {s : Nat} (hh : findHeader bs = some s)
    (hroom : bs.length < l.maxFrameSize) (hfield : 6 ≤ bs.length - s)
    (hlong : bs.length - s + 2 < lenField (bs.drop s))
    (hfits : s + lenField (bs.drop s) ≤ l.maxFrameSize) :
    ∃ x, accept (bs ++ (wedgeFrame l x 0).take (l.maxFrameSize - bs.length)) = none := by
  obtain ⟨i, hi⟩ : ∃ i, lenField (bs.drop s) = (bs.length - s) + (3 + i) :=
    ⟨lenField (bs.drop s) - (bs.length - s) - 3, by omega⟩
  have hmax := l.le_maxFrameSize
  have hdl : (bs.drop s).length = bs.length - s := List.length_drop
  -- the covered bytes of the frame end before its check byte
  have hcover : ∀ x, xorAll (((bs ++ (wedgeFrame l x 0).take (l.maxFrameSize - bs.length)).drop s).take
      (lenField (bs.drop s))) =
      x ^^^ (xorAll (bs.drop s) ^^^
        (commandHeaderLSB ^^^ (commandHeaderMSB ^^^ xorAll ((wedgeTail l 0).take i)))) := by
    intro x
    rw [List.drop_append_of_le_length (by omega), hi, ← hdl, List.take_length_add_append,
      List.take_take, Nat.min_eq_left (by omega), Nat.add_comm 3 i]
    simp only [wedgeFrame, List.take_succ_cons, xorAll_append, xorAll_cons]
    rw [List.take_append_of_le_length (by rw [wedgeTail_length]; omega)]
    generalize xorAll (bs.drop s) = a
    generalize xorAll ((wedgeTail l 0).take i) = c
    ac_rfl
  have hchoose : ∃ x : UInt8, x ^^^ (xorAll (bs.drop s) ^^^
      (commandHeaderLSB ^^^ (commandHeaderMSB ^^^ xorAll ((wedgeTail l 0).take i)))) ≠ 0 := by
    generalize xorAll (bs.drop s) ^^^
      (commandHeaderLSB ^^^ (commandHeaderMSB ^^^ xorAll ((wedgeTail l 0).take i))) = a
    by_cases ha : a = 0
    · exact ⟨1, by rw [ha]; decide⟩
    · exact ⟨0, by simpa using ha⟩
  obtain ⟨x, hx⟩ := hchoose
  refine ⟨x, accept_none fun t ht h7 hl => ?_⟩
  have hat := (findHeader_append hh _).symm.trans ht
  rw [Option.some.injEq] at hat
  subst hat
  have hlf : lenField ((bs ++ (wedgeFrame l x 0).take (l.maxFrameSize - bs.length)).drop s) =
      lenField (bs.drop s) := by
    rw [List.drop_append_of_le_length (by omega), lenField_append _ (by omega)]
  rw [hlf, hcover x]
  exact hx

/-- A state that cannot recover meets a frame that fills its buffer for nothing. -/
theorem wedge_exists {l : Link} {bs : List UInt8} (hfit : bs.length ≤ l.maxFrameSize)
    (hacc : accept bs = none) (hrec : ¬ Recoverable l.maxFrameSize bs) :
    ∃ f, Sendable l f ∧ f.length = l.maxFrameSize ∧ accept (Assembler.fill l.maxFrameSize bs f) = none := by
  have hne : bs ≠ [] := fun he => hrec (Or.inl he)
  suffices h : ∃ x y, accept (bs ++ (wedgeFrame l x y).take (l.maxFrameSize - bs.length)) = none by
    obtain ⟨x, y, hxy⟩ := h
    exact ⟨wedgeFrame l x y, wedgeFrame_sendable l x y, wedgeFrame_length l x y, by
      rw [Assembler.fill_eq_append hfit]
      exact hxy⟩
  by_cases hroom : bs.length < l.maxFrameSize
  · cases hh : findHeader bs with
    | none => exact ⟨0, 0, wedge_of_no_header hne hroom hh⟩
    | some s =>
      by_cases hfield : bs.length - s < 6
      · exact ⟨0xFF, 0xFF, wedge_of_short hh hroom hfield⟩
      · by_cases hfits : s + lenField (bs.drop s) ≤ l.maxFrameSize
        · by_cases hcov : lenField (bs.drop s) ≤ bs.length - s + 2
          · have hc : CoveredAt l.maxFrameSize bs s := ⟨hh, by omega, hroom, hcov, hfits⟩
            refine ⟨0, 0, accept_none fun t ht _ _ => ?_⟩
            obtain ⟨hs, hlen, _, _, htake⟩ := fill_frame hc (wedgeFrame_sendable l 0 0).wellFormed
            rw [Assembler.fill_eq_append hfit] at hs hlen htake
            have hat := hs.symm.trans ht
            rw [Option.some.injEq] at hat
            subst hat
            rw [hlen, htake]
            exact fun hx => hrec (Or.inr ⟨s, hc, hx⟩)
          · obtain ⟨x, hx⟩ := wedge_of_long hh hroom (by omega) (by omega) hfits
            exact ⟨x, 0, hx⟩
        · refine ⟨0, 0, accept_none fun t ht _ hl => ?_⟩
          have hlt := findHeader_lt hh
          have hat := (findHeader_append hh _).symm.trans ht
          rw [Option.some.injEq] at hat
          subst hat
          rw [List.drop_append_of_le_length (by omega), lenField_append _ (by rw [List.length_drop]; omega),
            List.length_append, List.length_take] at hl
          omega
  · refine ⟨0, 0, ?_⟩
    rw [Nat.sub_eq_zero_of_le (by omega), List.take_zero, List.append_nil]
    exact hacc

/-- The buffer is so full that `f` completes nothing. -/
def Wedged (l : Link) (f : List UInt8) (r : Receiver) : Prop :=
  ∃ bs, Holds l.maxFrameSize r bs ∧ accept (Assembler.fill l.maxFrameSize bs f) = none

/-- A frame as long as the buffer that is not accepted once is never accepted. -/
private theorem call_wedged {l : Link} {r r' : Receiver} {f : List UInt8} (hf : f.length = l.maxFrameSize)
    (h : Wedged l f r) (hr : l.call r f = some r') : Wedged l f r' := by
  obtain ⟨bs, hh, hacc⟩ := h
  have hmax := l.le_maxFrameSize
  have hlen : (Assembler.fill l.maxFrameSize bs f).length = l.maxFrameSize := by
    rw [Assembler.fill, List.length_take, List.length_append]
    omega
  have hne : Assembler.fill l.maxFrameSize bs f ≠ [] := List.ne_nil_of_length_pos (by omega)
  obtain ⟨r1, hd, hh1, _⟩ := dataReceived_spec l hh hne
  obtain ⟨d, hd', rfl⟩ := Link.call_eq_some.mp hr
  rw [leftover_of_none hacc] at hh1
  rw [← Option.some.inj (hd.symm.trans hd')]
  refine ⟨_, hh1, ?_⟩
  rwa [Assembler.fill_eq_append hlen.le, hlen, Nat.sub_self, List.take_zero, List.append_nil]

/-- A reachable state that is not recoverable may ignore frames forever. -/
theorem not_resyncs {l : Link} {r : Receiver} {bs : List UInt8} (h : Holds l.maxFrameSize r bs)
    (hacc : accept bs = none) (hrec : ¬ Recoverable l.maxFrameSize bs) : ¬ Resyncs l r := by
  rintro ⟨bound, hb⟩
  have hmax := l.le_maxFrameSize
  obtain ⟨f, hsend, hlen, hnone⟩ := wedge_exists h.fits hacc hrec
  obtain ⟨as, g, cs, r', heq, hr, d, hd, hw, _⟩ := hb (List.replicate (bound + 1) f)
    (fun x hx => List.eq_of_mem_replicate hx ▸ hsend) (by simp)
  have hall : ∀ x ∈ as ++ g :: cs, x = f := fun x hx => List.eq_of_mem_replicate (heq ▸ hx)
  obtain rfl : g = f := hall g (by simp)
  obtain ⟨bs', hh, hnone'⟩ := Runs.run_invariant (I := Wedged l g) (c := fun x => x = g)
    (fun _ _ _ hw he hs => call_wedged hlen hw (he ▸ hs)) ⟨bs, h, hnone⟩
    (fun x hx => hall x (List.mem_append_left _ hx)) hr
  have hne : Assembler.fill l.maxFrameSize bs' g ≠ [] := by
    apply List.ne_nil_of_length_pos
    rw [Assembler.fill, List.length_take, List.length_append]
    omega
  obtain ⟨r1, hd', _, _⟩ := dataReceived_spec l hh hne
  rw [hnone'] at hd'
  rw [← Option.some.inj (hd'.symm.trans hd)] at hw
  exact Option.some_ne_none g hw.symm

/-- A buffer that the grammar refused resynchronises exactly if it is recoverable. -/
theorem resyncs_iff {l : Link} {r : Receiver} {bs : List UInt8} (h : Holds l.maxFrameSize r bs)
    (hacc : accept bs = none) : Resyncs l r ↔ Recoverable l.maxFrameSize bs :=
  ⟨fun hr => by_contra fun hn => not_resyncs h hacc hn hr, resyncs_of_recoverable h⟩

/-- What a call leaves in the buffer was offered to the grammar and not accepted. -/
theorem dataReceived_leftover {l : Link} {r : Receiver} {bs chunk : List UInt8} {d : Received}
    (h : Holds l.maxFrameSize r bs) (hd : l.dataReceived r chunk = some d) :
    Holds l.maxFrameSize d.receiver (leftover (Assembler.fill l.maxFrameSize bs chunk)) := by
  by_cases he : Assembler.fill l.maxFrameSize bs chunk = []
  · rw [he]
    exact dataReceived_empty l h he hd
  · obtain ⟨r', hd', hh, _⟩ := dataReceived_spec l h he
    rw [← Option.some.inj (hd'.symm.trans hd)]
    exact hh

theorem accept_leftover (bs : List UInt8) : accept (leftover bs) = none := by
  cases ha : accept bs with
  | none => rwa [leftover_of_none ha]
  | some f =>
    rw [leftover_of_some ha]
    rfl

theorem leftover_recoverable (max : Nat) (bs : List UInt8) :
    Recoverable max (leftover bs) ↔ (∃ f, accept bs = some f) ∨ Recoverable max bs := by
  cases ha : accept bs with
  | none =>
    rw [leftover_of_none ha]
    simp
  | some f =>
    rw [leftover_of_some ha]
    exact ⟨fun _ => Or.inl ⟨f, rfl⟩, fun _ => Or.inl rfl⟩

/-- The buffer is empty, or the grammar has refused what it holds. -/
def Refused (l : Link) (r : Receiver) : Prop := ∃ bs, Holds l.maxFrameSize r bs ∧ accept bs = none

theorem init_refused (l : Link) (behindIn behindRead : Nat → UInt8) :
    Refused l (l.init behindIn behindRead) :=
  ⟨[], init_holds l behindIn behindRead, rfl⟩

theorem call_refused {l : Link} {r r' : Receiver} {chunk : List UInt8} (h : Refused l r)
    (hr : l.call r chunk = some r') : Refused l r' := by
  obtain ⟨bs, hh, _⟩ := h
  obtain ⟨d, hd, rfl⟩ := Link.call_eq_some.mp hr
  exact ⟨_, dataReceived_leftover hh hd, accept_leftover _⟩

def offered (l : Link) (r : Receiver) (chunk : List UInt8) : List UInt8 :=
  Assembler.fill l.maxFrameSize (cells r.inBuffer 0 r.inBufferSize) chunk

/-- `ESP_CheckForValidFrame` answers `ESP_Failed` in this call. -/
def Fails (l : Link) (r : Receiver) (chunk : List UInt8) : Prop :=
  ∃ p, checkForValidFrame (chunk.foldl (appendByte l.maxFrameSize) r).inBuffer
    (chunk.foldl (appendByte l.maxFrameSize) r).inBufferSize = some (.failed, p)

/-- The receiver recovers throughout a run: every call returns, every state reached
resynchronises, and after a failed check the next whole frame is accepted. -/
structure Recovers (l : Link) (r : Receiver) (chunks : List (List UInt8)) : Prop where
  resyncs : Runs.Throughout l.call (Resyncs l) r chunks
  after_failure : Runs.Along l.call (fun r chunk => Fails l r chunk → ∀ r', l.call r chunk = some r' →
    ∀ f, Sendable l f → Accepts l r' f) r chunks

/-- The condition on a call: what it offers is accepted or recoverable, and if it
offers nothing, the search finds a header before it leaves the memory. -/
structure Harmless (l : Link) (r : Receiver) (chunk : List UInt8) : Prop where
  recoverable : (∃ f, accept (offered l r chunk) = some f) ∨
    Recoverable l.maxFrameSize (offered l r chunk)
  in_memory : offered l r chunk = [] → ∃ q < ramSize,
    r.inBuffer q = commandHeaderLSB ∧ r.inBuffer (q + 1) = commandHeaderMSB

theorem offered_eq {l : Link} {r : Receiver} {bs : List UInt8} (h : Holds l.maxFrameSize r bs)
    (chunk : List UInt8) : offered l r chunk = Assembler.fill l.maxFrameSize bs chunk := by
  rw [offered, h.size_eq, h.bytes]

private theorem offered_nil {l : Link} {r : Receiver} {bs chunk : List UInt8}
    (h : Holds l.maxFrameSize r bs) (he : offered l r chunk = []) :
    r.inBufferSize = 0 ∧ chunk = [] := by
  have hmax := l.le_maxFrameSize
  have hlen := congrArg List.length (offered_eq h chunk ▸ he)
  rw [Assembler.fill, List.length_take, List.length_append, List.length_nil] at hlen
  have hs := h.size_eq
  exact ⟨by omega, List.eq_nil_of_length_eq_zero (by omega)⟩

/-- A call returns unless it offers nothing and no header follows in memory. -/
private theorem returns_iff {l : Link} {r : Receiver} {bs chunk : List UInt8}
    (h : Holds l.maxFrameSize r bs) :
    (∃ d, l.dataReceived r chunk = some d) ↔
      (offered l r chunk = [] → ∃ q < ramSize,
        r.inBuffer q = commandHeaderLSB ∧ r.inBuffer (q + 1) = commandHeaderMSB) := by
  by_cases he : offered l r chunk = []
  · obtain ⟨hsize, rfl⟩ := offered_nil h he
    have hsearch := search_empty r.inBuffer 0 0 (by omega)
    simp only [Nat.zero_le, true_and] at hsearch
    rw [← hsearch, l.dataReceived_eq, receive, List.foldl_nil, hsize]
    simp only [he, true_implies]
    change _ ↔ ∃ a, checkForValidFrame r.inBuffer 0 = some a
    constructor
    · rintro ⟨d, hd⟩
      cases hn : newIncomingFrame r.inbox r.inBuffer 0 with
      | none =>
        rw [hn] at hd
        exact absurd hd.symm (Option.some_ne_none d)
      | some i =>
        rcases newIncomingFrame_cases hn with ⟨p, hp, _⟩ | ⟨code, p, _, hp, _⟩
        · exact ⟨_, hp⟩
        · exact ⟨_, hp⟩
    · rintro ⟨a, ha⟩
      obtain ⟨i, hi⟩ := newIncomingFrame_total r.inbox ha
      rw [hi]
      simp only
      split
      · exact ⟨_, rfl⟩
      · exact ⟨_, rfl⟩
  · have hne := he
    rw [offered_eq h] at hne
    obtain ⟨r', hd, _⟩ := dataReceived_spec l h hne
    exact ⟨fun _ hc => absurd hc he, fun _ => ⟨_, hd⟩⟩

/-- After a failed check only an empty buffer is recoverable. -/
private theorem failed_recoverable {l : Link} {r : Receiver} {bs chunk : List UInt8}
    (h : Holds l.maxFrameSize r bs) (hf : Fails l r chunk)
    (hok : (∃ f, accept (offered l r chunk) = some f) ∨ Recoverable l.maxFrameSize (offered l r chunk)) :
    offered l r chunk = [] := by
  rw [offered_eq h] at hok ⊢
  obtain ⟨hh, _⟩ := append_holds l.maxFrameSize_le h chunk
  have hmax := l.maxFrameSize_le
  have hfits := hh.fits
  obtain ⟨p, hp⟩ := hf
  by_contra hne
  have hpos := List.length_pos_of_ne_nil hne
  have hcheck := checkForValidFrame_eq (chunk.foldl (appendByte l.maxFrameSize) r).inBuffer hpos (by omega)
  rw [hh.bytes, ← hh.size_eq, hp, Option.some.injEq] at hcheck
  revert hok hcheck hne
  generalize Assembler.fill l.maxFrameSize bs chunk = full
  rintro (⟨f, ha⟩ | he | ⟨s, hs⟩) hne hv
  · obtain ⟨t, ht, _⟩ := accept_eq_some ha
    rw [← hv, Prod.mk.injEq] at ht
    exact absurd ht.1 (by decide)
  · exact hne he
  · have hfield := hs.field
    unfold verdict at hv
    rw [hs.header] at hv
    have hj : judge (full.drop s) = .failed := (congrArg Prod.fst hv).symm
    unfold judge at hj
    split at hj
    · rename_i hlen
      rw [List.length_drop] at hlen
      have hcrc := hs.crc
      rw [List.take_append_of_le_length (by rw [List.length_drop]; exact hlen.2)] at hcrc
      rw [if_pos hcrc] at hj
      exact absurd hj (by decide)
    · exact absurd hj (by decide)

/-- One call returns, leaves a state that resynchronises and keeps the promise about
failed checks exactly if it is harmless. -/
private theorem harmless_iff {l : Link} {r : Receiver} (chunk : List UInt8) (h : Refused l r) :
    ((∃ r', l.call r chunk = some r' ∧ Resyncs l r') ∧
      (Fails l r chunk → ∀ r', l.call r chunk = some r' → ∀ f, Sendable l f → Accepts l r' f)) ↔
    Harmless l r chunk := by
  obtain ⟨bs, hh, _⟩ := h
  have hafter : ∀ {d}, l.dataReceived r chunk = some d → (Resyncs l d.receiver ↔
      (∃ f, accept (offered l r chunk) = some f) ∨ Recoverable l.maxFrameSize (offered l r chunk)) := by
    intro d hd
    rw [resyncs_iff (dataReceived_leftover hh hd) (accept_leftover _), leftover_recoverable,
      offered_eq hh]
  constructor
  · rintro ⟨⟨r', hr, hres⟩, _⟩
    obtain ⟨d, hd, rfl⟩ := Link.call_eq_some.mp hr
    exact ⟨(hafter hd).mp hres, (returns_iff hh).mp ⟨d, hd⟩⟩
  · intro hok
    obtain ⟨d, hd⟩ := (returns_iff hh).mpr hok.in_memory
    refine ⟨⟨d.receiver, Link.call_eq_some.mpr ⟨d, hd, rfl⟩, (hafter hd).mpr hok.recoverable⟩, ?_⟩
    intro hf r' hr f hsend
    obtain ⟨d', hd', rfl⟩ := Link.call_eq_some.mp hr
    have hleft := dataReceived_leftover hh hd'
    rw [← offered_eq hh, failed_recoverable hh hf hok.recoverable] at hleft
    exact accepts_of_empty hleft hsend

/-- A run recovers throughout exactly when each of its calls is harmless. -/
theorem recovers_iff (l : Link) (behindIn behindRead : Nat → UInt8) (chunks : List (List UInt8)) :
    Recovers l (l.init behindIn behindRead) chunks ↔
      Runs.Along l.call (Harmless l) (l.init behindIn behindRead) chunks := by
  have hinit := init_refused l behindIn behindRead
  have hstart : Resyncs l (l.init behindIn behindRead) :=
    resyncs_of_recoverable (init_holds l behindIn behindRead) (Or.inl rfl)
  rw [← Runs.along_congr (fun _ _ _ h hr => call_refused h hr) (fun _ chunk h => harmless_iff chunk h)
    hinit chunks, Runs.along_and]
  constructor
  · rintro ⟨hres, hfail⟩
    exact ⟨(Runs.throughout_iff.mp hres).2, hfail⟩
  · rintro ⟨hres, hfail⟩
    exact ⟨Runs.throughout_iff.mpr ⟨hstart, hres⟩, hfail⟩

/-- A frame with one wrong bit wedges the receiver. -/
theorem corrupt_frame_wedges :
    ¬ Recovers .bth (Link.bth.init (fun _ => 0) (fun _ => 0))
      [[0xAA, 0x55, 0x00, 0x00, 0x08, 0x00, 0x00, 0x00]] := by
  intro h
  have hinit := init_holds .bth (fun _ => 0) (fun _ => 0)
  have hne : Assembler.fill Link.bth.maxFrameSize []
      [(0xAA : UInt8), 0x55, 0x00, 0x00, 0x08, 0x00, 0x00, 0x00] ≠ [] := by decide
  obtain ⟨r, hd, hh, _⟩ := dataReceived_spec .bth hinit hne
  obtain ⟨_, r', hr, hres⟩ := h.resyncs
  obtain ⟨d, hd', rfl⟩ := Link.call_eq_some.mp hr
  rw [← Option.some.inj (hd.symm.trans hd')] at hres
  refine not_resyncs hh (accept_leftover _) ?_ hres
  rintro (he | ⟨s, hs⟩)
  · exact absurd he (by decide)
  · have hs0 : s = 0 := (Option.some.inj hs.header).symm
    subst hs0
    exact absurd hs.crc (by decide)

end SidFirmware.FrameReceiver
