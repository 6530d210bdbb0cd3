import SidFirmware.Application.CommandHandler
import SidFirmware.Interfaces.Reassembly
import SidFirmware.Libraries.Outbox

/-! Both interfaces around the handlers: chunks arrive on either link, and the idle tasks
of `BLE/BT_Interface.c` and `Application/CC430_Interface.c` hand one received frame to the
registered handler, or one queued frame to the sender. -/
namespace SidFirmware.Gateway
open Memory EsProtocol EsInterfaces EsQueue FrameReceiver SidStorage EsCommands DropOldest

/-- What one of the two interface files keeps. -/
structure Interface where
  receiver : Receiver
  outbox : Outbox

structure State where
  itf : Link → Interface
  device : Device

/-- The static initial values, `vBT_ITF_Init` and `vCC430_ITF_Init`. The arguments are what
lies in memory behind the buffers, and the application state. -/
def init (behindIn behindRead : Link → Nat → UInt8) (device : Device) : State where
  itf l := ⟨l.init (behindIn l) (behindRead l), Outbox.init l.bufferSize⟩
  device := device

def State.withInbox (g : State) (l : Link) (inbox : Inbox) : State :=
  { g with
    itf := Function.update g.itf l { g.itf l with receiver := { (g.itf l).receiver with inbox } } }

def State.withOutbox (g : State) (l : Link) (outbox : Outbox) : State :=
  { g with itf := Function.update g.itf l { g.itf l with outbox } }

/-- `eBT_ITF_SendFrame` and `eCC430_ITF_SendFrame`, with the write buffer of their interface. -/
def sendFrame (g : State) (f : SendFrame) : Option State :=
  (newOutgoingFrame f.itf.maxFrameSize (g.itf f.itf).outbox f.opCode f.expdt f.recpt f.payload).map
    fun r => g.withOutbox f.itf r.1

/-- The registered handler runs on a frame that was read, and what it sends is queued. -/
def dispatch (g : State) (l : Link) (c : HandlerCall) (answer : MemoryErrCode) : Option State :=
  (handle l g.device c answer).bind fun r =>
    match r.2 with
    | some f => sendFrame { g with device := r.1 } f
    | none => some { g with device := r.1 }

/-- The rest of a pass over the inbox, which has read what is left in `inbox`. -/
def handOver (g : State) (l : Link) (inbox : Inbox) (c : Option HandlerCall) (answer : MemoryErrCode) :
    Option State :=
  match c with
  | some c => dispatch (g.withInbox l inbox) l c answer
  | none => some (g.withInbox l inbox)

/-- `ESI_ProcessIncomingFrame` of one interface. -/
def processIncoming (g : State) (l : Link) (answer : MemoryErrCode) : Option State :=
  let r := processIncomingFrame (g.itf l).receiver.inbox
  handOver g l r.1 r.2.2 answer

/-- A chunk arrives on a link, or one half of a link's idle task runs. Flash ends a write
that the handler makes with `answer`. -/
inductive Event where
  | received (l : Link) (chunk : List UInt8)
  | idleInbox (l : Link) (answer : MemoryErrCode)
  | idleOutbox (l : Link)

def step (g : State) : Event → Option State
  | .received l chunk =>
    (l.call (g.itf l).receiver chunk).map fun receiver =>
      { g with itf := Function.update g.itf l { g.itf l with receiver } }
  | .idleInbox l answer =>
    let r := idleInbox (g.itf l).receiver.inbox
    handOver g l r.1 r.2 answer
  | .idleOutbox l => some (g.withOutbox l (idleOutbox (g.itf l).outbox).1)

def called (g : State) : Event → Option HandlerCall
  | .idleInbox l _ => (idleInbox (g.itf l).receiver.inbox).2
  | .received _ _ => none
  | .idleOutbox _ => none

/-- The call of `eBT_ITF_SendFrame` or `eCC430_ITF_SendFrame` that the handler makes. -/
def sends (g : State) : Event → Option SendFrame
  | .idleInbox l answer =>
    (called g (.idleInbox l answer)).bind fun c => (handle l g.device c answer).bind Prod.snd
  | .received _ _ => none
  | .idleOutbox _ => none

def Sound (g : State) : Prop := ∀ l, ∃ content, Carries l.bufferSize (g.itf l).outbox content

@[simp] theorem withInbox_outbox (g : State) (l k : Link) (inbox : Inbox) :
    ((g.withInbox l inbox).itf k).outbox = (g.itf k).outbox := by
  rw [State.withInbox]
  by_cases h : k = l
  · subst h
    simp
  · simp [h]

theorem withInbox_receiver (g : State) (l : Link) (inbox : Inbox) :
    ((g.withInbox l inbox).itf l).receiver = { (g.itf l).receiver with inbox } := by
  simp [State.withInbox]

@[simp] theorem withInbox_device (g : State) (l : Link) (inbox : Inbox) :
    (g.withInbox l inbox).device = g.device := rfl

@[simp] theorem withOutbox_same (g : State) (l : Link) (outbox : Outbox) :
    ((g.withOutbox l outbox).itf l).outbox = outbox := by
  simp [State.withOutbox]

theorem withOutbox_other (g : State) {l k : Link} (outbox : Outbox) (h : k ≠ l) :
    (g.withOutbox l outbox).itf k = g.itf k := by
  simp [State.withOutbox, h]

@[simp] theorem withOutbox_device (g : State) (l : Link) (outbox : Outbox) :
    (g.withOutbox l outbox).device = g.device := rfl

theorem init_sound (behindIn behindRead : Link → Nat → UInt8) (device : Device) :
    Sound (init behindIn behindRead device) := by
  intro l
  exact ⟨[], Outbox.init_carries (by cases l <;> decide) (by cases l <;> decide)⟩

theorem Sound.withInbox {g : State} (h : Sound g) (l : Link) (inbox : Inbox) :
    Sound (g.withInbox l inbox) := by
  intro k
  rw [withInbox_outbox]
  exact h k

theorem Sound.withOutbox {g : State} (h : Sound g) {l : Link} {outbox : Outbox}
    (ho : ∃ content, Carries l.bufferSize outbox content) : Sound (g.withOutbox l outbox) := by
  intro k
  by_cases hk : k = l
  · subst hk
    rw [withOutbox_same]
    exact ho
  · rw [withOutbox_other g outbox hk]
    exact h k

theorem Sound.withDevice {g : State} (h : Sound g) (device : Device) : Sound { g with device } := h

/-- A frame that fits its write buffer goes to its own outbox and changes nothing else. -/
theorem sendFrame_fits {g : State} {f : SendFrame} {content : List (List UInt8)}
    (h : Carries f.itf.bufferSize (g.itf f.itf).outbox content)
    (hfit : headerSize + 1 + f.payload.length ≤ f.itf.maxFrameSize) :
    ∃ outbox, sendFrame g f = some (g.withOutbox f.itf outbox) ∧
      Carries f.itf.bufferSize outbox (push recordSize (f.itf.bufferSize - 1)
        (builtFrame f.expdt.toUInt8 f.recpt.toUInt8 f.opCode f.payload) content) := by
  obtain ⟨outbox, hnew, hcarries⟩ :=
    newOutgoingFrame_carries h f.itf.le_bufferSize f.opCode f.expdt f.recpt hfit
  refine ⟨outbox, ?_, hcarries⟩
  rw [sendFrame, hnew]
  rfl

/-- A frame that does not fit is stored beyond the write buffer. -/
theorem sendFrame_eq_none {g : State} {f : SendFrame} :
    sendFrame g f = none ↔ f.itf.maxFrameSize < headerSize + 1 + f.payload.length := by
  rw [sendFrame, Option.map_eq_none_iff, newOutgoingFrame_eq_none]

theorem sendFrame_sound {g g' : State} (h : Sound g) {f : SendFrame} (hs : sendFrame g f = some g') :
    Sound g' := by
  obtain ⟨content, hc⟩ := h f.itf
  have hfit : headerSize + 1 + f.payload.length ≤ f.itf.maxFrameSize := by
    by_contra hbig
    rw [sendFrame_eq_none.mpr (not_le.mp hbig)] at hs
    exact absurd hs.symm (Option.some_ne_none g')
  obtain ⟨outbox, hsend, hcarries⟩ := sendFrame_fits hc hfit
  rw [← Option.some.inj (hsend.symm.trans hs)]
  exact h.withOutbox ⟨_, hcarries⟩

/-- What a handled frame leads to: the handler has returned, and its frame, if it sends
one, was queued. -/
theorem dispatch_eq_some {g g' : State} {l : Link} {c : HandlerCall} {answer : MemoryErrCode}
    (h : dispatch g l c answer = some g') :
    ∃ device sent, handle l g.device c answer = some (device, sent) ∧
      ((sent = none ∧ g' = { g with device }) ∨
        ∃ f, sent = some f ∧ sendFrame { g with device } f = some g') := by
  obtain ⟨⟨device, sent⟩, hh, hs⟩ := Option.bind_eq_some_iff.mp h
  refine ⟨device, sent, hh, ?_⟩
  cases sent with
  | none => exact Or.inl ⟨rfl, (Option.some.inj hs).symm⟩
  | some f => exact Or.inr ⟨f, rfl, hs⟩

theorem dispatch_sound {g g' : State} (h : Sound g) {l : Link} {c : HandlerCall} {answer : MemoryErrCode}
    (hd : dispatch g l c answer = some g') : Sound g' := by
  obtain ⟨device, sent, _, ⟨_, rfl⟩ | ⟨f, _, hs⟩⟩ := dispatch_eq_some hd
  · exact h.withDevice device
  · exact sendFrame_sound (h.withDevice device) hs

theorem handOver_sound {g g' : State} (h : Sound g) {l : Link} {inbox : Inbox} {c : Option HandlerCall}
    {answer : MemoryErrCode} (hd : handOver g l inbox c answer = some g') : Sound g' := by
  cases c with
  | none =>
    rw [← Option.some.inj hd]
    exact h.withInbox l inbox
  | some c => exact dispatch_sound (h.withInbox l inbox) hd

theorem step_sound {g g' : State} {e : Event} (h : Sound g) (hs : step g e = some g') : Sound g' := by
  cases e with
  | received l chunk =>
    obtain ⟨receiver, _, rfl⟩ := Option.map_eq_some_iff.mp hs
    intro k
    by_cases hk : k = l
    · subst hk
      simpa using h k
    · simpa [hk] using h k
  | idleInbox l answer => exact handOver_sound h hs
  | idleOutbox l =>
    obtain ⟨content, hc⟩ := h l
    rw [← Option.some.inj hs]
    exact h.withOutbox (idleOutbox_carries hc)

theorem run_sound {g g' : State} {events : List Event} (h : Sound g)
    (hr : Runs.run step g events = some g') : Sound g' :=
  Runs.run_invariant (I := Sound) (c := fun _ => True) (fun _ _ _ hs _ hstep => step_sound hs hstep) h
    (fun _ _ => trivial) hr

end SidFirmware.Gateway
