import SidFirmware.Interfaces.Reassembly

/-! Which frames are accepted, and what reaches the handler. The validator has no
lower bound on the length field, so a frame shorter than header and check byte can
pass; on every run without one, the handler gets the payload of a received frame. -/
namespace SidFirmware.FrameReceiver
open Memory DropOldest EsProtocol EsInterfaces EsQueue

/-- The acceptance grammar: behind the first header a length that covers at least
header and check byte, all of it present, with xor zero. -/
structure InGrammar (m : Nat → UInt8) (n s : Nat) : Prop where
  header : FirstHeader m 0 n s
  minimum : headerSize + 1 ≤ getFrameLen m s
  complete : getFrameLen m s ≤ n - s
  crc : xorAll (cells m s (getFrameLen m s)) = 0

/-- The frame the validator accepts outside the grammar. -/
structure ShortFrame (m : Nat → UInt8) (n s : Nat) : Prop where
  header : FirstHeader m 0 n s
  visible : headerSize ≤ n - s
  short : getFrameLen m s ≤ headerSize
  crc : xorAll (cells m s (getFrameLen m s)) = 0

/-- The validator answers `ESP_ValidFrame` at the first header, if there are header and
length many bytes of xor zero. -/
private theorem valid_iff {m : Nat → UInt8} {n : Nat} (h : 1 ≤ n) (hn : n < 65536) (s : Nat) :
    checkForValidFrame m n = some (.validFrame, s) ↔
      FirstHeader m 0 n s ∧ headerSize ≤ n - s ∧ getFrameLen m s ≤ n - s ∧
        xorAll (cells m s (getFrameLen m s)) = 0 := by
  rw [checkForValidFrame_eq m h hn, Option.some.injEq, verdict_validFrame_iff, findHeader_cells,
    cells_length, cells_drop, Nat.zero_add]
  constructor
  · rintro ⟨hf, h7, hl, hx⟩
    unfold headerSize at h7
    rw [lenField_cells m s (by omega)] at hl hx
    rw [cells_take m s hl] at hx
    exact ⟨hf, h7, hl, hx⟩
  · rintro ⟨hf, h7, hl, hx⟩
    unfold headerSize at h7
    rw [lenField_cells m s (by omega), cells_take m s hl]
    exact ⟨hf, h7, hl, hx⟩

/-- The validator keeps to the grammar except on a short frame. -/
theorem grammar_iff {m : Nat → UInt8} {n : Nat} (h : 1 ≤ n) (hn : n < 65536) :
    (∀ s, checkForValidFrame m n = some (.validFrame, s) ↔ InGrammar m n s) ↔
      ∀ s, ¬ ShortFrame m n s := by
  constructor
  · intro hall s hshort
    have h7 := hshort.visible
    have hl := hshort.short
    have hg := (hall s).mp ((valid_iff h hn s).mpr ⟨hshort.header, h7, by omega, hshort.crc⟩)
    have hmin := hg.minimum
    omega
  · intro hnone s
    rw [valid_iff h hn s]
    constructor
    · rintro ⟨hf, h7, hl, hx⟩
      refine ⟨hf, ?_, hl, hx⟩
      by_contra hmin
      exact hnone s ⟨hf, h7, by omega, hx⟩
    · rintro ⟨hf, hmin, hl, hx⟩
      exact ⟨hf, by omega, hl, hx⟩

inductive Event where
  | received (chunk : List UInt8)
  | idle

/-- A run: the receiver, every frame written to the inbox, every handler call. -/
structure Trace where
  receiver : Receiver
  written : List (List UInt8)
  calls : List HandlerCall

def Link.step (l : Link) (t : Trace) : Event → Option Trace
  | .received chunk =>
    (l.dataReceived t.receiver chunk).map
      fun d => ⟨d.receiver, t.written ++ d.written.toList, t.calls⟩
  | .idle =>
    let r := idleInbox t.receiver.inbox
    some ⟨{ t.receiver with inbox := r.1 }, t.written, t.calls ++ r.2.toList⟩

def appended (l : Link) (r : Receiver) (chunk : List UInt8) : Receiver :=
  chunk.foldl (appendByte l.maxFrameSize) r

/-- The validator is called on at least one byte, and not on a short frame. -/
def Regular (l : Link) (t : Trace) : Event → Prop
  | .received chunk => 1 ≤ (appended l t.receiver chunk).inBufferSize ∧
      ∀ s, ¬ ShortFrame (appended l t.receiver chunk).inBuffer (appended l t.receiver chunk).inBufferSize s
  | .idle => True

def Proper (f : List UInt8) : Prop := lenField f = f.length ∧ headerSize + 1 ≤ f.length

structure Faithful (l : Link) (t : Trace) : Prop where
  receives : ∃ bs content, Receives l t.receiver bs content ∧ ∀ f ∈ content, f ∈ t.written ∧ Proper f
  handled : ∀ c ∈ t.calls, ∃ f ∈ t.written, Proper f ∧ Handles f c

/-- What is accepted on a regular call is a proper frame. -/
private theorem accepted_proper {m : Nat → UInt8} {bs f : List UInt8}
    (hb : cells m 0 bs.length = bs) (hn : bs.length < 65536)
    (hs : ∀ s, ¬ ShortFrame m bs.length s) (ha : accept bs = some f) : Proper f := by
  obtain ⟨s, hv, rfl⟩ := accept_eq_some ha
  obtain ⟨_, h7, hl, _⟩ := verdict_validFrame_iff.mp hv
  have hcheck : checkForValidFrame m bs.length = some (verdict (cells m 0 bs.length)) :=
    checkForValidFrame_eq m (by unfold headerSize at h7; omega) hn
  rw [hb, hv] at hcheck
  have hg := ((grammar_iff (by unfold headerSize at h7; omega) hn).mpr hs s).mp hcheck
  have hdrop : bs.drop s = cells m s (bs.length - s) := by
    conv_lhs => rw [← hb, cells_drop, Nat.zero_add]
  have hmin := hg.minimum
  have hfield : lenField (bs.drop s) = getFrameLen m s := by
    unfold headerSize at h7
    rw [hdrop, lenField_cells m s (by omega)]
  have hlen : ((bs.drop s).take (lenField (bs.drop s))).length = getFrameLen m s := by
    rw [List.length_take, List.length_drop, hfield]
    rw [hfield] at hl
    omega
  refine ⟨?_, by omega⟩
  have happ := lenField_append ((bs.drop s).take (lenField (bs.drop s)))
    (by unfold headerSize at hmin; omega) ((bs.drop s).drop (lenField (bs.drop s)))
  rw [List.take_append_drop, hfield] at happ
  rw [hlen, hfield]
  exact happ.symm

theorem mem_push {cap : Nat} {f g : List UInt8} {fs : List (List UInt8)}
    (h : g ∈ push recordSize cap f fs) : g ∈ fs ∨ g = f := by
  rcases List.mem_append.mp h with h | h
  · exact Or.inl ((evict_suffix cap (recordSize f) fs).subset h)
  · exact Or.inr (List.mem_singleton.mp h)

private theorem received_faithful {l : Link} {t : Trace} (h : Faithful l t) {chunk : List UInt8}
    (hr : Regular l t (.received chunk)) :
    ∃ t', l.step t (.received chunk) = some t' ∧ Faithful l t' := by
  obtain ⟨bs, content, hrec, hcontent⟩ := h.receives
  obtain ⟨hh, _⟩ := append_holds l.maxFrameSize_le hrec.holds chunk
  obtain ⟨hpos, hshort⟩ := hr
  have hmax := l.maxFrameSize_le
  have hfits := hh.fits
  unfold appended at hpos hshort
  rw [hh.size_eq] at hpos hshort
  have hne : Assembler.fill l.maxFrameSize bs chunk ≠ [] := List.ne_nil_of_length_pos (by omega)
  obtain ⟨r', hd, hr', _⟩ := dataReceived_receives l hrec hne
  refine ⟨_, by rw [Link.step, hd]; rfl, ⟨⟨_, _, hr', ?_⟩, ?_⟩⟩
  · cases ha : accept (Assembler.fill l.maxFrameSize bs chunk) with
    | none =>
      intro f hf
      simpa using hcontent f hf
    | some g =>
      have hg := accepted_proper hh.bytes (by omega) hshort ha
      intro f hf
      change f ∈ store l content g at hf
      unfold store at hf
      have hmem : f ∈ content ∨ f = g := by
        split at hf
        · exact Or.inl hf
        · exact mem_push hf
      rcases hmem with hmem | rfl
      · exact ⟨List.mem_append_left _ (hcontent f hmem).1, (hcontent f hmem).2⟩
      · exact ⟨by simp, hg⟩
  · intro c hc
    obtain ⟨f, hf, hp⟩ := h.handled c hc
    exact ⟨f, List.mem_append_left _ hf, hp⟩

private theorem idle_faithful {l : Link} {t : Trace} (h : Faithful l t) :
    ∃ t', l.step t .idle = some t' ∧ Faithful l t' := by
  obtain ⟨bs, content, hrec, hcontent⟩ := h.receives
  have hholds : ∀ inbox, Holds l.maxFrameSize { t.receiver with inbox } bs :=
    fun _ => ⟨hrec.holds.size_eq, hrec.holds.fits, hrec.holds.bytes⟩
  refine ⟨_, rfl, ?_⟩
  simp only [idleInbox]
  by_cases hready : t.receiver.inbox.ready = true
  · rw [if_pos hready]
    have hrep := hrec.represents
    cases content with
    | nil =>
      obtain ⟨inbox', hp, hq⟩ := process_empty hrep
      rw [hp]
      refine ⟨⟨bs, [], ⟨hholds _, ?_, ?_⟩, by simp⟩, ?_⟩
      · exact hq ▸ hrep
      · exact (congrArg Queue.size hq).trans hrec.size_eq
      · simpa using h.handled
    | cons f fs =>
      rw [List.forall_mem_cons] at hcontent
      obtain ⟨⟨hmem, hprop⟩, hrest⟩ := hcontent
      obtain ⟨inbox', c, hp, hc, hrep', hsize⟩ := process_handles hrep hprop.1 hprop.2
      rw [hp]
      refine ⟨⟨bs, fs, ⟨hholds _, hrep', hsize.trans hrec.size_eq⟩, hrest⟩, ?_⟩
      intro c' hc'
      rcases List.mem_append.mp hc' with hc' | hc'
      · exact h.handled c' hc'
      · rw [show c' = c by simpa using hc']
        exact ⟨f, hmem, hprop, hc⟩
  · rw [if_neg hready]
    exact ⟨⟨bs, content, hrec, hcontent⟩, by simpa using h.handled⟩

theorem step_faithful {l : Link} {t : Trace} {e : Event} (h : Faithful l t) (hr : Regular l t e) :
    ∃ t', l.step t e = some t' ∧ Faithful l t' := by
  cases e with
  | received chunk => exact received_faithful h hr
  | idle => exact idle_faithful h

theorem init_faithful (l : Link) (behindIn behindRead : Nat → UInt8) :
    Faithful l ⟨l.init behindIn behindRead, [], []⟩ :=
  ⟨⟨[], [], init_tracks l behindIn behindRead, by simp⟩, by simp⟩

/-- The validator keeps to the grammar exactly when it meets no short frame, and on
every run without one each handler call gets the payload of a received frame. -/
theorem acceptance_grammar (m : Nat → UInt8) (n : Nat) (h : 1 ≤ n) (hn : n < 2 ^ 16) (l : Link)
    (behindIn behindRead : Nat → UInt8) (events : List Event) :
    ((∀ s, checkForValidFrame m n = some (.validFrame, s) ↔ InGrammar m n s) ↔
      ∀ s, ¬ ShortFrame m n s) ∧
    (Runs.Along l.step (Regular l) ⟨l.init behindIn behindRead, [], []⟩ events →
      ∃ t, Runs.run l.step ⟨l.init behindIn behindRead, [], []⟩ events = some t ∧
        ∀ c ∈ t.calls, ∃ f ∈ t.written,
          lenField f = f.length ∧ c.len + (headerSize + 1) = lenField f ∧ Handles f c) := by
  refine ⟨grammar_iff h hn, fun hr => ?_⟩
  obtain ⟨t, ht, hf⟩ := (hr.throughout (fun _ _ h hr => step_faithful h hr)
    (init_faithful l behindIn behindRead)).run
  refine ⟨t, ht, fun c hc => ?_⟩
  obtain ⟨f, hmem, hprop, hh⟩ := hf.handled c hc
  exact ⟨f, hmem, hprop.1, by rw [hprop.1]; exact hh.len, hh⟩

/-- One frame of eight bytes, received and handed over. -/
theorem acceptance_grammar_one_frame :
    let f := [0xAA, 0x55, 0x01, 0x02, 0x08, 0x00, 0xF0, 0x04]
    checkForValidFrame (fun k => f.getD k 0) 8 = some (.validFrame, 0) ∧
      ∃ t, Runs.run Link.bth.step ⟨Link.bth.init (fun _ => 0) (fun _ => 0), [], []⟩
          [.received f, .idle] = some t ∧
        ∀ c ∈ t.calls, ∃ g ∈ t.written,
          lenField g = g.length ∧ c.len + (headerSize + 1) = lenField g ∧ Handles g c := by
  intro f
  have hshort : ∀ m : Nat → UInt8, FirstHeader m 0 8 0 → getFrameLen m 0 = 8 →
      ∀ s, ¬ ShortFrame m 8 s := by
    intro m hm hl s hs
    have hs0 : s = 0 := hs.header.unique hm
    have hle := hs.short
    rw [hs0, hl] at hle
    exact absurd hle (by decide)
  have hfirst : FirstHeader (fun k => f.getD k 0) 0 8 0 := ⟨by decide, rfl, rfl, by simp⟩
  have hreg : Runs.Along Link.bth.step (Regular .bth)
      ⟨Link.bth.init (fun _ => 0) (fun _ => 0), [], []⟩ [.received f, .idle] :=
    ⟨⟨by decide, hshort _ ⟨by decide, rfl, rfl, by simp⟩ rfl⟩,
      fun _ _ => ⟨trivial, fun _ _ => trivial⟩⟩
  obtain ⟨hiff, hrun⟩ := acceptance_grammar (fun k => f.getD k 0) 8 (by decide) (by decide) .bth
    (fun _ => 0) (fun _ => 0) [.received f, .idle]
  exact ⟨(hiff.mpr (hshort _ hfirst rfl) 0).mpr ⟨hfirst, by decide, by decide, by decide⟩, hrun hreg⟩

/-- A frame of seven bytes that says so passes, and its handler is told of a payload
of 65535 bytes. -/
theorem short_frame_passes :
    let f := [0xAA, 0x55, 0xF8, 0x00, 0x07, 0x00, 0x00]
    checkForValidFrame (fun k => f.getD k 0) 7 = some (.validFrame, 0) ∧
      ¬ InGrammar (fun k => f.getD k 0) 7 0 ∧
      ∃ t c, Runs.run Link.bth.step ⟨Link.bth.init (fun _ => 0) (fun _ => 0), [], []⟩
        [.received f, .idle] = some t ∧ c ∈ t.calls ∧ c.len = 65535 := by
  intro f
  refine ⟨?_, fun hg => absurd hg.minimum (by decide), ?_⟩
  · rw [checkForValidFrame_eq _ (by decide) (by decide)]
    exact congrArg some (by decide)
  · have hinit := init_tracks .bth (fun _ => 0) (fun _ => 0)
    have hne : Assembler.fill Link.bth.maxFrameSize [] f ≠ [] := by decide
    have ha : accept (Assembler.fill Link.bth.maxFrameSize [] f) = some f := by decide
    obtain ⟨r, hd, hr, hinbox⟩ := dataReceived_receives .bth hinit hne
    rw [ha] at hd hr hinbox
    have hready : r.inbox.ready = true := by
      rw [hinbox]
      rfl
    obtain ⟨inbox', hp, _⟩ := process_read hr.represents (by decide)
    have hidle : idleInbox r.inbox = (inbox', some (handlerCall (copyIn r.inbox.bufferRead 0 f))) := by
      rw [idleInbox, if_pos hready, hp]
      rfl
    have hrun : Runs.run Link.bth.step ⟨Link.bth.init (fun _ => 0) (fun _ => 0), [], []⟩
        [.received f, .idle] = some ⟨{ r with inbox := inbox' }, [f],
          [handlerCall (copyIn r.inbox.bufferRead 0 f)]⟩ := by
      simp only [Runs.run, Link.step]
      change ((Link.bth.dataReceived (Link.bth.init (fun _ => 0) (fun _ => 0)) f).map _).bind _ = _
      rw [hd]
      simp only [Option.map_some, Option.bind_some, hidle]
      rfl
    have hl : getFrameLen (copyIn r.inbox.bufferRead 0 f) 0 = 7 := rfl
    refine ⟨_, _, hrun, List.mem_singleton_self _, ?_⟩
    rw [handlerCall, getPayloadLength, hl]
    rfl

end SidFirmware.FrameReceiver
