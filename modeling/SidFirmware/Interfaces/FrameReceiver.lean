import SidFirmware.Foundation.Assembler
import SidFirmware.Foundation.Runs
import SidFirmware.Libraries.EsInterfaces
import SidFirmware.Libraries.EsQueueRefinement
import SidFirmware.Libraries.FrameGrammar

/-! The receivers of `BLE/BT_Interface.c` and `Application/CC430_Interface.c`, which
differ in the size of their buffers only, and the stream assembler they refine. -/
namespace SidFirmware.FrameReceiver
open Memory DropOldest EsProtocol EsInterfaces EsQueue

inductive Link where
  | bth
  | cc430
  deriving DecidableEq, Repr

/-- `BTH_ESI_MAX_FRAME_SIZE` and `CC430_ESI_MAX_FRAME_SIZE`. -/
def Link.maxFrameSize : Link → Nat
  | .bth => 254
  | .cc430 => 255

/-- `BTH_ESI_BUFFER_SIZE` and `CC430_ESI_BUFFER_SIZE`: the bytes of the inbox ring. -/
def Link.bufferSize (l : Link) : Nat := 4 * l.maxFrameSize

/-- `inBuffer` continues with the memory behind the buffer. -/
structure Receiver where
  inBuffer : Nat → UInt8
  inBufferSize : Nat
  inbox : Inbox

/-- The static initialisers and `vBT_ITF_Init` or `vCC430_ITF_Init`. The arguments
are what lies in memory behind the two buffers. -/
def Link.init (l : Link) (behindIn behindRead : Nat → UInt8) : Receiver where
  inBuffer := copyIn behindIn 0 (List.replicate l.maxFrameSize 0)
  inBufferSize := 0
  inbox := {
    queue := EsQueue.init l.bufferSize (fun _ => 0)
    ready := false
    bufferRead := copyIn behindRead 0 (List.replicate l.maxFrameSize 0)
    bufferReadLen := 0 }

def appendByte (maxFrameSize : Nat) (r : Receiver) (b : UInt8) : Receiver :=
  if r.inBufferSize < maxFrameSize then
    { r with
      inBuffer := Function.update r.inBuffer r.inBufferSize b
      inBufferSize := (r.inBufferSize + 1) % 2 ^ 8 }
  else r

/-- The receiver after a call, and the frame the call wrote to the inbox, if any. -/
structure Received where
  receiver : Receiver
  written : Option (List UInt8)

/-- The body of both functions. Its test compares an `ESP_ReturnCode_t` with the
`ESI_ReturnCode_t` that comes back. -/
def receive (maxFrameSize : Nat) (r : Receiver) (chunk : List UInt8) : Option Received :=
  let r := chunk.foldl (appendByte maxFrameSize) r
  match newIncomingFrame r.inbox r.inBuffer r.inBufferSize with
  | none => none
  | some i =>
    if EsProtocol.ReturnCode.receiving.value ≠ i.ret.value then
      some ⟨⟨copyIn r.inBuffer 0 (List.replicate maxFrameSize 0), 0, i.inbox⟩, i.written⟩
    else some ⟨{ r with inbox := i.inbox }, i.written⟩

/-- `vBT_ITF_DataReceived`. -/
def btItfDataReceived (r : Receiver) (chunk : List UInt8) : Option Received :=
  receive Link.bth.maxFrameSize r chunk

/-- `vCC430_ITF_DataReceived`. -/
def cc430ItfDataReceived (r : Receiver) (chunk : List UInt8) : Option Received :=
  receive Link.cc430.maxFrameSize r chunk

def Link.dataReceived : Link → Receiver → List UInt8 → Option Received
  | .bth => btItfDataReceived
  | .cc430 => cc430ItfDataReceived

def Link.call (l : Link) (r : Receiver) (chunk : List UInt8) : Option Receiver :=
  (l.dataReceived r chunk).map Received.receiver

def accept (bs : List UInt8) : Option (List UInt8) :=
  match verdict bs with
  | (.validFrame, s) => some ((bs.drop s).take (lenField (bs.drop s)))
  | _ => none

/-- The assembler each link refines. -/
def Link.rules (l : Link) : Assembler.Rules UInt8 := ⟨l.maxFrameSize, accept⟩

theorem Link.maxFrameSize_le (l : Link) : l.maxFrameSize ≤ 255 := by cases l <;> decide

theorem Link.le_maxFrameSize (l : Link) : 254 ≤ l.maxFrameSize := by cases l <;> decide

theorem Link.dataReceived_eq (l : Link) (r : Receiver) (chunk : List UInt8) :
    l.dataReceived r chunk = receive l.maxFrameSize r chunk := by
  cases l <;> rfl

theorem Link.call_eq_some {l : Link} {r r' : Receiver} {chunk : List UInt8} :
    l.call r chunk = some r' ↔ ∃ d, l.dataReceived r chunk = some d ∧ d.receiver = r' :=
  Option.map_eq_some_iff

theorem accept_eq_some {bs f : List UInt8} (h : accept bs = some f) :
    ∃ s, verdict bs = (.validFrame, s) ∧ f = (bs.drop s).take (lenField (bs.drop s)) := by
  unfold accept at h
  split at h
  · rename_i s hv
    exact ⟨s, hv, (Option.some.inj h).symm⟩
  · exact absurd h.symm (Option.some_ne_none f)

theorem accept_of_valid {bs : List UInt8} {s : Nat} (h : verdict bs = (.validFrame, s)) :
    accept bs = some ((bs.drop s).take (lenField (bs.drop s))) := by
  unfold accept
  rw [h]

theorem accept_of_not_valid {bs : List UInt8} (h : (verdict bs).1 ≠ .validFrame) : accept bs = none := by
  unfold accept
  split
  · rename_i s hv
    exact absurd (congrArg Prod.fst hv) h
  · rfl

theorem rules_sound (l : Link) : Assembler.Sound l.rules := by
  intro bs f h
  obtain ⟨s, _, rfl⟩ := accept_eq_some h
  exact (List.take_prefix _ _).isInfix.trans (List.drop_suffix s bs).isInfix

/-- A well-formed frame is recognised as itself, whatever follows it. -/
theorem accept_append {f : List UInt8} (h : WellFormed f) (more : List UInt8) :
    accept (f ++ more) = some f := by
  rw [accept_of_valid (h.verdict_append more), List.drop_zero, h.lenField_eq, List.take_left]

/-- Every link recognises the well-formed frames that fit its buffer. -/
theorem recognises_of_wellFormed {f : List UInt8} (h : WellFormed f) {l : Link}
    (hfit : f.length ≤ l.maxFrameSize) : Assembler.Recognises l.rules f := by
  have hmin := h.minimum
  refine ⟨List.ne_nil_of_length_pos (by omega), hfit, ?_, ?_⟩
  · have hw := accept_append h []
    rwa [List.append_nil] at hw
  · intro bs more hf _ hm
    refine accept_of_not_valid fun hv => ?_
    exact h.prefix_not_valid hf hm (verdict bs).2 (Prod.ext hv rfl)

/-- The buffer holds exactly the bytes `bs`. -/
structure Holds (maxFrameSize : Nat) (r : Receiver) (bs : List UInt8) : Prop where
  size_eq : r.inBufferSize = bs.length
  fits : bs.length ≤ maxFrameSize
  bytes : cells r.inBuffer 0 bs.length = bs

theorem init_holds (l : Link) (behindIn behindRead : Nat → UInt8) :
    Holds l.maxFrameSize (l.init behindIn behindRead) [] :=
  ⟨rfl, Nat.zero_le _, rfl⟩

private theorem appendByte_holds {max : Nat} (hmax : max ≤ 255) {r : Receiver} {bs : List UInt8}
    (h : Holds max r bs) (b : UInt8) :
    Holds max (appendByte max r b) (Assembler.fill max bs [b]) ∧ (appendByte max r b).inbox = r.inbox := by
  have hsize := h.size_eq
  have hfits := h.fits
  unfold appendByte
  by_cases hlt : r.inBufferSize < max
  · have hfill : Assembler.fill max bs [b] = bs ++ [b] :=
      Assembler.fill_eq (by rw [List.length_append, List.length_singleton]; omega)
    rw [if_pos hlt, hfill]
    refine ⟨⟨?_, ?_, ?_⟩, rfl⟩
    · simp only [List.length_append, List.length_singleton]
      omega
    · rw [List.length_append, List.length_singleton]
      omega
    · have hc := cells_update_next r.inBuffer 0 bs.length b
      rw [h.bytes, Nat.zero_add, ← hsize] at hc
      rw [List.length_append, List.length_singleton, ← hsize]
      exact hc
  · have hfull : bs.length = max := by omega
    have hfill : Assembler.fill max bs [b] = bs := by
      rw [Assembler.fill, List.take_append_of_le_length (by omega), List.take_of_length_le (by omega)]
    rw [if_neg hlt, hfill]
    exact ⟨h, rfl⟩

/-- Appending a chunk keeps what fits of it. -/
theorem append_holds {max : Nat} (hmax : max ≤ 255) {r : Receiver} {bs : List UInt8}
    (h : Holds max r bs) (chunk : List UInt8) :
    Holds max (chunk.foldl (appendByte max) r) (Assembler.fill max bs chunk) ∧
      (chunk.foldl (appendByte max) r).inbox = r.inbox := by
  induction chunk generalizing r bs with
  | nil =>
    rw [Assembler.fill_nil h.fits]
    exact ⟨h, rfl⟩
  | cons b chunk ih =>
    obtain ⟨hb, hinbox⟩ := appendByte_holds hmax h b
    obtain ⟨hc, hinbox'⟩ := ih hb
    rw [Assembler.fill_fill] at hc
    exact ⟨hc, hinbox'.trans hinbox⟩

def deliver (inbox : Inbox) : Option (List UInt8) → Inbox
  | none => inbox
  | some f => { inbox with queue := (EsQueue.write inbox.queue f).1, ready := true }

/-- What stays in the buffer once its bytes were offered to the grammar. -/
def leftover (bs : List UInt8) : List UInt8 :=
  match accept bs with
  | some _ => []
  | none => bs

theorem leftover_of_some {bs f : List UInt8} (h : accept bs = some f) : leftover bs = [] := by
  unfold leftover
  rw [h]

theorem leftover_of_none {bs : List UInt8} (h : accept bs = none) : leftover bs = bs := by
  unfold leftover
  rw [h]

theorem feed_collected (l : Link) (s : Assembler.State UInt8) (chunk : List UInt8) :
    (Assembler.feed l.rules s chunk).collected =
      leftover (Assembler.fill l.maxFrameSize s.collected chunk) := by
  cases ha : accept (Assembler.fill l.maxFrameSize s.collected chunk) with
  | none =>
    have hr : l.rules.accept (Assembler.fill l.rules.cap s.collected chunk) = none := ha
    rw [leftover_of_none ha, Assembler.feed, hr]
    rfl
  | some f =>
    have hr : l.rules.accept (Assembler.fill l.rules.cap s.collected chunk) = some f := ha
    rw [leftover_of_some ha, Assembler.feed, hr]

/-- The bytes passed to `inbox->write` are the recognised frame. -/
private theorem written_eq {m : Nat → UInt8} {bs : List UInt8} {p : Nat}
    (hb : cells m 0 bs.length = bs) (hv : verdict bs = (.validFrame, p)) :
    accept bs = some (cells m p (getFrameLen m p)) := by
  obtain ⟨_, h7, hl, _⟩ := verdict_validFrame_iff.mp hv
  have hdrop : bs.drop p = cells m p (bs.length - p) := by
    have hd := cells_drop m 0 p bs.length
    rw [hb, Nat.zero_add] at hd
    exact hd
  unfold headerSize at h7
  have hlen : lenField (bs.drop p) = getFrameLen m p := by
    rw [hdrop, lenField_cells m p (by omega)]
  rw [accept_of_valid hv, hlen, hdrop, cells_take m p (by omega)]

private theorem clear_holds (max : Nat) (m : Nat → UInt8) (inbox : Inbox) :
    Holds max ⟨copyIn m 0 (List.replicate max 0), 0, inbox⟩ [] :=
  ⟨rfl, Nat.zero_le _, rfl⟩

/-- One call on one byte or more: the receiver takes the step of the assembler and
delivers what it recognises. -/
theorem dataReceived_spec (l : Link) {r : Receiver} {bs chunk : List UInt8}
    (h : Holds l.maxFrameSize r bs) (hne : Assembler.fill l.maxFrameSize bs chunk ≠ []) :
    ∃ r', l.dataReceived r chunk = some ⟨r', accept (Assembler.fill l.maxFrameSize bs chunk)⟩ ∧
      Holds l.maxFrameSize r' (leftover (Assembler.fill l.maxFrameSize bs chunk)) ∧
      r'.inbox = deliver r.inbox (accept (Assembler.fill l.maxFrameSize bs chunk)) := by
  obtain ⟨hh, hinbox⟩ := append_holds l.maxFrameSize_le h chunk
  have hmax := l.maxFrameSize_le
  have hpos := List.length_pos_of_ne_nil hne
  have hfits := hh.fits
  revert hh hinbox hpos hfits
  generalize Assembler.fill l.maxFrameSize bs chunk = full
  generalize hr : chunk.foldl (appendByte l.maxFrameSize) r = r1
  intro hh hinbox hpos hfits
  have hcheck := checkForValidFrame_eq r1.inBuffer hpos (by omega)
  rw [hh.bytes, ← hh.size_eq] at hcheck
  cases hn : newIncomingFrame r1.inbox r1.inBuffer r1.inBufferSize with
  | none =>
    obtain ⟨i, hi⟩ := newIncomingFrame_total r1.inbox hcheck
    exact absurd (hn.symm.trans hi) (Option.some_ne_none i).symm
  | some i =>
    rw [l.dataReceived_eq, receive, hr, hn]
    rcases newIncomingFrame_cases hn with ⟨p, hp, rfl⟩ | ⟨code, p, hcode, hp, rfl⟩
    · have hv := Option.some.inj (hcheck.symm.trans hp)
      have ha := written_eq hh.bytes hv
      rw [ha, leftover_of_some ha]
      refine ⟨_, rfl, clear_holds _ _ _, ?_⟩
      rw [← hinbox]
      rfl
    · have hv := Option.some.inj (hcheck.symm.trans hp)
      have ha : accept full = none := accept_of_not_valid (by rw [hv]; exact hcode)
      rw [ha, leftover_of_none ha]
      exact ⟨_, rfl, ⟨hh.size_eq, hh.fits, hh.bytes⟩, hinbox⟩

/-- A call that finds the buffer empty and adds nothing leaves it empty. -/
theorem dataReceived_empty (l : Link) {r : Receiver} {bs chunk : List UInt8}
    (h : Holds l.maxFrameSize r bs) (he : Assembler.fill l.maxFrameSize bs chunk = []) {d : Received}
    (hd : l.dataReceived r chunk = some d) : Holds l.maxFrameSize d.receiver [] := by
  obtain ⟨hh, _⟩ := append_holds l.maxFrameSize_le h chunk
  rw [he] at hh
  rw [l.dataReceived_eq, receive] at hd
  split at hd
  · exact absurd hd.symm (Option.some_ne_none d)
  · split at hd
    · rw [← Option.some.inj hd]
      exact clear_holds _ _ _
    · rw [← Option.some.inj hd]
      exact ⟨hh.size_eq, hh.fits, hh.bytes⟩

end SidFirmware.FrameReceiver
