import SidFirmware.Interfaces.HandlerPayloads
import SidFirmware.Interfaces.Resynchronisation

/-! The inbox flag between the main loop and the reception interrupt. `vBT_ITF_IdleTask`
tests the flag, processes a frame and clears the flag when there was none; a frame that is
stored just before the clear keeps no flag. -/
namespace SidFirmware.FrameReceiver
open DropOldest EsProtocol EsInterfaces EsQueue Runs

/-- What the inbox half of the idle task does next. Between two calls it is the flag test. -/
inductive IdlePoint where
  | flagTest
  | process
  | flagClear
  deriving DecidableEq

structure IdleTask where
  receiver : Receiver
  point : IdlePoint

inductive Interleaving where
  | interrupt (chunk : List UInt8)
  | step

def setInbox (s : IdleTask) (inbox : Inbox) (point : IdlePoint) : IdleTask :=
  { s with receiver := { s.receiver with inbox }, point }

/-- One step of `vBT_ITF_IdleTask` on the inbox. -/
def idleStep (s : IdleTask) : IdleTask :=
  match s.point with
  | .flagTest => if s.receiver.inbox.ready then { s with point := .process } else s
  | .process =>
    let r := processIncomingFrame s.receiver.inbox
    if r.2.1 = .failed then setInbox s r.1 .flagClear else setInbox s r.1 .flagTest
  | .flagClear => setInbox s { s.receiver.inbox with ready := false } .flagTest

def Link.interleave (l : Link) (s : IdleTask) : Interleaving → Option IdleTask
  | .interrupt chunk => (l.call s.receiver chunk).map fun receiver => { s with receiver }
  | .step => some (idleStep s)

def Link.idleInit (l : Link) (behindIn behindRead : Nat → UInt8) : IdleTask :=
  ⟨l.init behindIn behindRead, .flagTest⟩

/-- Undisturbed, the steps of one call do what `idleInbox` does. -/
theorem idleStep_refines (s : IdleTask) (h : s.point = .flagTest) :
    ∃ n, idleStep^[n] s = setInbox s (idleInbox s.receiver.inbox).1 .flagTest := by
  obtain ⟨r, p⟩ := s
  subst h
  by_cases hready : r.inbox.ready = true
  · have htest : idleStep ⟨r, .flagTest⟩ = ⟨r, .process⟩ := if_pos hready
    by_cases hfail : (processIncomingFrame r.inbox).2.1 = .failed
    · refine ⟨3, ?_⟩
      have hprocess : idleStep ⟨r, .process⟩ =
          setInbox ⟨r, .process⟩ (processIncomingFrame r.inbox).1 .flagClear := if_pos hfail
      rw [Function.iterate_succ_apply, htest, Function.iterate_succ_apply, hprocess]
      simp only [idleInbox]
      rw [if_pos hready, if_pos hfail]
      rfl
    · refine ⟨2, ?_⟩
      have hprocess : idleStep ⟨r, .process⟩ =
          setInbox ⟨r, .process⟩ (processIncomingFrame r.inbox).1 .flagTest := if_neg hfail
      rw [Function.iterate_succ_apply, htest, Function.iterate_one, hprocess]
      simp only [idleInbox]
      rw [if_pos hready, if_neg hfail]
      rfl
  · refine ⟨0, ?_⟩
    rw [idleInbox, if_neg hready]
    rfl

/-- The test that `ES_Queue_Read` makes. -/
def HoldsFrame (q : Queue) : Prop := q.indexRead ≠ q.indexWrite

/-- Between two calls of the idle task a stored frame has its flag. -/
def NoneLost (s : IdleTask) : Prop :=
  s.point = .flagTest → HoldsFrame s.receiver.inbox.queue → s.receiver.inbox.ready = true

def StoresFrame (l : Link) (r : Receiver) (chunk : List UInt8) : Prop :=
  ∃ f, f ≠ [] ∧ accept (offered l r chunk) = some f

/-- A reception has a byte to check, and between the failed `ESI_ProcessIncomingFrame` and the
clear of the flag it stores no frame. -/
def Timely (l : Link) (s : IdleTask) : Interleaving → Prop
  | .interrupt chunk =>
    offered l s.receiver chunk ≠ [] ∧ (s.point = .flagClear → ¬ StoresFrame l s.receiver chunk)
  | .step => True

structure Awake (l : Link) (s : IdleTask) (content : List (List UInt8)) : Prop where
  receives : ∃ bs, Receives l s.receiver bs content
  nonempty : ∀ f ∈ content, f ≠ []
  flagTest : s.point = .flagTest → content ≠ [] → s.receiver.inbox.ready = true
  process : s.point = .process → s.receiver.inbox.ready = true
  flagClear : s.point = .flagClear → content = []

theorem Receives.holdsFrame_iff {l : Link} {r : Receiver} {bs : List UInt8} {content : List (List UInt8)}
    (h : Receives l r bs content) : HoldsFrame r.inbox.queue ↔ content ≠ [] :=
  not_congr h.represents.empty_iff

theorem Awake.noneLost {l : Link} {s : IdleTask} {content : List (List UInt8)} (h : Awake l s content) :
    NoneLost s := by
  intro hp hframe
  obtain ⟨bs, hrec⟩ := h.receives
  exact h.flagTest hp (hrec.holdsFrame_iff.mp hframe)

theorem init_awake (l : Link) (behindIn behindRead : Nat → UInt8) :
    Awake l (l.idleInit behindIn behindRead) [] :=
  ⟨⟨[], init_tracks l behindIn behindRead⟩, by simp, fun _ h => absurd rfl h,
    fun h => absurd h (by simp [Link.idleInit]), fun _ => rfl⟩

theorem store_nonempty {l : Link} {content : List (List UInt8)} (h : ∀ f ∈ content, f ≠ [])
    (f : List UInt8) : ∀ g ∈ store l content f, g ≠ [] := by
  intro g hg
  unfold store at hg
  split at hg
  · exact h g hg
  · rename_i hf
    rcases mem_push hg with hg | rfl
    · exact h g hg
    · exact hf

/-- What a reception does to the inbox, and to its flag. -/
theorem call_awake {l : Link} {s : IdleTask} {content : List (List UInt8)} (h : Awake l s content)
    {chunk : List UInt8} (hne : offered l s.receiver chunk ≠ []) :
    ∃ r bs, l.call s.receiver chunk = some r ∧
      Receives l r bs ((accept (offered l s.receiver chunk)).elim content (store l content)) ∧
      r.inbox.ready = (s.receiver.inbox.ready || (accept (offered l s.receiver chunk)).isSome) := by
  obtain ⟨bs, hrec⟩ := h.receives
  rw [offered_eq hrec.holds] at hne ⊢
  obtain ⟨r, hd, hr, hinbox⟩ := dataReceived_receives l hrec hne
  refine ⟨r, _, Link.call_eq_some.mpr ⟨_, hd, rfl⟩, hr, ?_⟩
  rw [hinbox]
  cases accept (Assembler.fill l.maxFrameSize bs chunk) with
  | none => exact (Bool.or_false _).symm
  | some f => exact (Bool.or_true _).symm

private theorem interrupt_awake {l : Link} {s : IdleTask} {content : List (List UInt8)}
    (h : Awake l s content) {chunk : List UInt8} (ht : Timely l s (.interrupt chunk)) :
    ∃ s' content', l.interleave s (.interrupt chunk) = some s' ∧ Awake l s' content' := by
  obtain ⟨hne, htimely⟩ := ht
  obtain ⟨r, bs, hcall, hrec, hready⟩ := call_awake h hne
  refine ⟨{ s with receiver := r }, _, by rw [Link.interleave, hcall]; rfl, ⟨bs, hrec⟩, ?_, ?_, ?_, ?_⟩
  · cases accept (offered l s.receiver chunk) with
    | none => exact h.nonempty
    | some f => exact store_nonempty h.nonempty f
  · intro hp hcontent
    change r.inbox.ready = true
    rw [hready]
    revert hcontent
    cases accept (offered l s.receiver chunk) with
    | none =>
      intro hcontent
      rw [h.flagTest hp hcontent]
      rfl
    | some f => exact fun _ => Bool.or_true _
  · intro hp
    change r.inbox.ready = true
    rw [hready, h.process hp, Bool.true_or]
  · intro hp
    have hstores := htimely hp
    have hempty := h.flagClear hp
    cases ha : accept (offered l s.receiver chunk) with
    | none => exact hempty
    | some f =>
      have hf : f = [] := by
        by_contra hf
        exact hstores ⟨f, hf, ha⟩
      change store l content f = []
      rw [store, if_pos hf]
      exact hempty

private theorem setInbox_receives {l : Link} {s : IdleTask} {bs : List UInt8}
    {content content' : List (List UInt8)} (h : Receives l s.receiver bs content) (inbox : Inbox)
    (hrep : Represents inbox.queue content') (hsize : inbox.queue.size = l.bufferSize) (p : IdlePoint) :
    Receives l (setInbox s inbox p).receiver bs content' :=
  ⟨⟨h.holds.size_eq, h.holds.fits, h.holds.bytes⟩, hrep, hsize⟩

private theorem idleStep_awake {l : Link} {s : IdleTask} {content : List (List UInt8)}
    (h : Awake l s content) : ∃ content', Awake l (idleStep s) content' := by
  obtain ⟨bs, hrec⟩ := h.receives
  cases hp : s.point with
  | flagTest =>
    rw [idleStep, hp]
    simp only
    split
    · rename_i hready
      exact ⟨content, ⟨bs, hrec⟩, h.nonempty, fun hq => absurd hq (by simp), fun _ => hready,
        fun hq => absurd hq (by simp)⟩
    · exact ⟨content, h⟩
  | process =>
    have hready := h.process hp
    rw [idleStep, hp]
    simp only
    cases content with
    | nil =>
      obtain ⟨inbox, hproc, hqueue⟩ := process_empty hrec.represents
      rw [hproc, if_pos rfl]
      exact ⟨[], ⟨bs, setInbox_receives hrec _ (hqueue ▸ hrec.represents)
        ((congrArg Queue.size hqueue).trans hrec.size_eq) _⟩, by simp, fun _ hne => absurd rfl hne,
        fun hq => absurd hq (by simp [setInbox]), fun _ => rfl⟩
    | cons f fs =>
      have hnonempty := h.nonempty
      rw [List.forall_mem_cons] at hnonempty
      obtain ⟨inbox, hproc, hrep, hsize, _⟩ := process_read hrec.represents hnonempty.1
      have hkept := processIncomingFrame_ready s.receiver.inbox
      rw [hproc] at hkept
      rw [hproc, if_neg (by simp)]
      exact ⟨fs, ⟨bs, setInbox_receives hrec _ hrep (hsize.trans hrec.size_eq) _⟩, hnonempty.2,
        fun _ _ => hkept.trans hready, fun hq => absurd hq (by simp [setInbox]),
        fun hq => absurd hq (by simp [setInbox])⟩
  | flagClear =>
    have hempty := h.flagClear hp
    subst hempty
    rw [idleStep, hp]
    simp only
    exact ⟨[], ⟨bs, setInbox_receives hrec { s.receiver.inbox with ready := false } hrec.represents
      hrec.size_eq _⟩, by simp, fun _ hne => absurd rfl hne, fun hq => absurd hq (by simp [setInbox]),
      fun _ => rfl⟩

theorem interleave_awake {l : Link} {s : IdleTask} {e : Interleaving}
    (h : ∃ content, Awake l s content) (ht : Timely l s e) :
    ∃ s', l.interleave s e = some s' ∧ ∃ content, Awake l s' content := by
  obtain ⟨content, h⟩ := h
  cases e with
  | interrupt chunk =>
    obtain ⟨s', content', hs, h'⟩ := interrupt_awake h ht
    exact ⟨s', hs, content', h'⟩
  | step => exact ⟨_, rfl, idleStep_awake h⟩

/-- A frame that is stored just before the clear is without its flag after it. -/
theorem late_frame_lost {l : Link} {s : IdleTask} {content : List (List UInt8)} (h : Awake l s content)
    (hp : s.point = .flagClear) {chunk : List UInt8} (hstores : StoresFrame l s.receiver chunk) :
    ∃ s', Runs.run l.interleave s [.interrupt chunk, .step] = some s' ∧ ¬ NoneLost s' := by
  obtain ⟨f, hf, ha⟩ := hstores
  have hne : offered l s.receiver chunk ≠ [] := by
    intro he
    rw [he] at ha
    exact absurd ha (by simp [accept, verdict, findHeader])
  obtain ⟨r, bs, hcall, hrec, _⟩ := call_awake h hne
  rw [ha] at hrec
  have hcontent : store l content f ≠ [] := by
    rw [store, if_neg hf]
    exact List.append_ne_nil_of_right_ne_nil _ (List.cons_ne_nil _ _)
  refine ⟨idleStep { s with receiver := r }, by rw [Runs.run, Link.interleave, hcall]; rfl, ?_⟩
  rw [idleStep, hp]
  intro hlost
  exact absurd (hlost rfl (hrec.holdsFrame_iff.mpr hcontent)) Bool.false_ne_true

/-- A frame in full on an empty buffer is stored and leaves the buffer empty. -/
theorem call_frame {l : Link} {r : Receiver} {content : List (List UInt8)} (h : Receives l r [] content)
    {f : List UInt8} (hf : WellFormed f) (hfit : f.length ≤ l.maxFrameSize) :
    StoresFrame l r f ∧ ∃ r', l.call r f = some r' ∧ Receives l r' [] (store l content f) ∧
      r'.inbox.ready = true := by
  have hrec := recognises_of_wellFormed hf hfit
  have hoffered : Assembler.fill l.maxFrameSize [] f = f := Assembler.fill_eq hfit
  have haccept : accept f = some f := hrec.whole
  refine ⟨⟨f, hrec.nonempty, by rw [offered_eq h.holds, hoffered, haccept]⟩, ?_⟩
  obtain ⟨r', hd, hr', hinbox⟩ := dataReceived_receives l h (by rw [hoffered]; exact hrec.nonempty)
  rw [hoffered, haccept, leftover_of_some haccept] at hr'
  refine ⟨r', Link.call_eq_some.mpr ⟨_, hd, rfl⟩, hr', ?_⟩
  rw [hinbox, hoffered, haccept]
  rfl

/-- Two idle calls on one stored frame: the second is about to clear the flag. -/
theorem idle_reaches_clear {l : Link} {s : IdleTask} {bs f : List UInt8}
    (h : Receives l s.receiver bs [f]) (hf : f ≠ []) (hp : s.point = .flagTest)
    (hready : s.receiver.inbox.ready = true) :
    (idleStep^[4] s).point = .flagClear ∧ Receives l (idleStep^[4] s).receiver bs [] := by
  obtain ⟨r, p⟩ := s
  subst hp
  obtain ⟨inbox, hproc, hrep, hsize, _⟩ := process_read h.represents hf
  have hkept := processIncomingFrame_ready r.inbox
  rw [hproc] at hkept
  obtain ⟨inbox', hproc', hqueue⟩ := process_empty hrep
  have hone : idleStep^[2] ⟨r, .flagTest⟩ = setInbox ⟨r, .process⟩ inbox .flagTest := by
    have htest : idleStep ⟨r, .flagTest⟩ = ⟨r, .process⟩ := if_pos hready
    rw [Function.iterate_succ_apply, htest, Function.iterate_one, idleStep]
    simp only [hproc]
    rw [if_neg (by simp)]
  have htwo : idleStep^[2] (setInbox ⟨r, .process⟩ inbox .flagTest) =
      setInbox ⟨r, .process⟩ inbox' .flagClear := by
    have htest : idleStep (setInbox ⟨r, .process⟩ inbox .flagTest) =
        setInbox ⟨r, .process⟩ inbox .process := if_pos (hkept.trans hready)
    rw [Function.iterate_succ_apply, htest, Function.iterate_one, idleStep]
    simp only [setInbox, hproc']
    rw [if_pos trivial]
  rw [Function.iterate_add_apply idleStep 2 2, hone, htwo]
  exact ⟨rfl, setInbox_receives (s := ⟨r, .process⟩) h _ (hqueue ▸ hrep)
    ((congrArg Queue.size hqueue).trans (hsize.trans h.size_eq)) _⟩

/-- In every timely run each frame between two idle calls has its flag, and from every state of
such a run in which the clear is due, a reception that stores a frame loses it. -/
theorem none_lost_of_timely (behindIn behindRead : Nat → UInt8) (es : List Interleaving)
    (h : Along Link.bth.interleave (Timely .bth) (Link.bth.idleInit behindIn behindRead) es) :
    Throughout Link.bth.interleave NoneLost (Link.bth.idleInit behindIn behindRead) es ∧
      ∀ s, Runs.run Link.bth.interleave (Link.bth.idleInit behindIn behindRead) es = some s →
        s.point = .flagClear → ∀ chunk, StoresFrame .bth s.receiver chunk →
          ∃ s', Runs.run Link.bth.interleave s [.interrupt chunk, .step] = some s' ∧ ¬ NoneLost s' := by
  have hthrough := h.throughout (I := fun s => ∃ content, Awake .bth s content)
    (fun _ _ hs ht => interleave_awake hs ht) ⟨[], init_awake .bth behindIn behindRead⟩
  constructor
  · apply hthrough.mono
    rintro s ⟨_, hs⟩
    exact hs.noneLost
  · intro s hr hp chunk hstores
    obtain ⟨s', hr', content, hs⟩ := hthrough.run
    rw [Option.some.inj (hr.symm.trans hr')] at hp hstores ⊢
    exact late_frame_lost hs hp hstores

/-- A ping is stored, and two idle calls hand it over and clear its flag. -/
theorem none_lost_of_timely_ping :
    ∃ s, Runs.run Link.bth.interleave (Link.bth.idleInit (fun _ => 0) (fun _ => 0))
        [.interrupt [0xAA, 0x55, 0x01, 0x02, 0x08, 0x00, 0xF0, 0x04], .step, .step, .step, .step, .step] =
      some s ∧ NoneLost s := by
  have hinit := init_tracks .bth (fun _ => 0) (fun _ => 0)
  have hstep : ∀ s n, Along Link.bth.interleave (Timely .bth) s (List.replicate n .step) := by
    intro s n
    induction n generalizing s with
    | zero => trivial
    | succ n ih => exact ⟨trivial, fun s' _ => ih s'⟩
  have hfirst : Timely .bth (Link.bth.idleInit (fun _ => 0) (fun _ => 0))
      (.interrupt [0xAA, 0x55, 0x01, 0x02, 0x08, 0x00, 0xF0, 0x04]) := by
    refine ⟨?_, fun hp => absurd hp (by decide)⟩
    change offered .bth (Link.bth.init (fun _ => 0) (fun _ => 0)) _ ≠ []
    rw [offered_eq hinit.holds]
    exact List.cons_ne_nil _ _
  have htimely : Along Link.bth.interleave (Timely .bth) (Link.bth.idleInit (fun _ => 0) (fun _ => 0))
      (.interrupt [0xAA, 0x55, 0x01, 0x02, 0x08, 0x00, 0xF0, 0x04] :: List.replicate 5 .step) :=
    ⟨hfirst, fun s' _ => hstep s' 5⟩
  exact (none_lost_of_timely (fun _ => 0) (fun _ => 0) _ htimely).1.run

/-- Two pings, the second between the failed `ESI_ProcessIncomingFrame` and the clear: it stays
in the inbox without a flag. -/
theorem ping_lost :
    ∃ s, Runs.run Link.bth.interleave (Link.bth.idleInit (fun _ => 0) (fun _ => 0))
        [.interrupt [0xAA, 0x55, 0x01, 0x02, 0x08, 0x00, 0xF0, 0x04], .step, .step, .step, .step,
          .interrupt [0xAA, 0x55, 0x01, 0x02, 0x08, 0x00, 0xF0, 0x04], .step] = some s ∧
      s.point = .flagTest ∧ HoldsFrame s.receiver.inbox.queue ∧ s.receiver.inbox.ready = false := by
  have hf : WellFormed [0xAA, 0x55, 0x01, 0x02, 0x08, 0x00, 0xF0, 0x04] := by decide
  obtain ⟨_, r1, hcall1, hrec1, hready⟩ :=
    call_frame (init_tracks .bth (fun _ => 0) (fun _ => 0)) hf (by decide)
  obtain ⟨hp, hrec2⟩ := idle_reaches_clear (s := ⟨r1, .flagTest⟩) hrec1 (List.cons_ne_nil _ _) rfl hready
  obtain ⟨_, r3, hcall3, hrec3, _⟩ := call_frame hrec2 hf (by decide)
  refine ⟨idleStep { idleStep^[4] ⟨r1, .flagTest⟩ with receiver := r3 }, ?_, ?_, ?_, ?_⟩
  · rw [Runs.run, Link.interleave, Link.idleInit, hcall1]
    change Runs.run Link.bth.interleave (idleStep^[4] ⟨r1, .flagTest⟩) [.interrupt _, .step] = _
    rw [Runs.run, Link.interleave, hcall3]
    rfl
  · rw [idleStep, hp]
    rfl
  · rw [idleStep, hp]
    exact hrec3.holdsFrame_iff.mpr (List.cons_ne_nil _ _)
  · rw [idleStep, hp]
    rfl

end SidFirmware.FrameReceiver
