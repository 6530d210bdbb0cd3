import SidFirmware.Libraries.EsProtocol
import SidFirmware.Libraries.EsQueue

/-! `Libraries/ES_Protocol/ES_Interfaces.c` with the inbox callbacks that
`BLE/BT_Interface.c` and `Application/CC430_Interface.c` install: both boxes write to
and read from an `ES_Queue`, and a finished write raises the inbox flag. -/
namespace SidFirmware.EsInterfaces
open Memory

/-- `ESI_ReturnCode_t`. -/
inductive ReturnCode where
  | failed
  | succeed
  | overflow
  | badFrame
  deriving DecidableEq, Repr

def ReturnCode.value : ReturnCode → UInt8
  | .failed => 0x00
  | .succeed => 0x01
  | .overflow => 0xFE
  | .badFrame => 0xFF

/-- The inbox of an interface: its queue, the flag `ESI_SIG_INBOX_READY`, and the
read buffer with the memory behind it. -/
structure Inbox where
  queue : EsQueue.Queue
  ready : Bool
  bufferRead : Nat → UInt8
  bufferReadLen : Nat

/-- The arguments of one call of `handler->handle`; `payload k` is the byte `k` past
the payload pointer. -/
structure HandlerCall where
  opCode : UInt8
  expdt : UInt32
  recpt : UInt32
  payload : Nat → UInt8
  len : Nat

/-- What `ESI_NewIncomingFrame` leaves. `written` records the bytes it passed to
`inbox->write`, if it did. -/
structure Incoming where
  inbox : Inbox
  ret : ReturnCode
  written : Option (List UInt8)

/-- `ESI_NewIncomingFrame`. The answer of `inbox->write` is overwritten. -/
def newIncomingFrame (inbox : Inbox) (data : Nat → UInt8) (len : Nat) : Option Incoming :=
  match EsProtocol.checkForValidFrame data len with
  | none => none
  | some (.receiving, _) => some ⟨inbox, .failed, none⟩
  | some (.validFrame, p) =>
    let frame := cells data p (EsProtocol.getFrameLen data p)
    let queue := (EsQueue.write inbox.queue frame).1
    some ⟨{ inbox with queue, ready := true }, .succeed, some frame⟩
  | some (.failed, _) => some ⟨inbox, .failed, none⟩

/-- `ESI_ProcessIncomingFrame` and the call of the handler it makes, if it makes one. -/
def processIncomingFrame (inbox : Inbox) : Inbox × ReturnCode × Option HandlerCall :=
  let r := EsQueue.read inbox.queue
  let buffer := copyIn inbox.bufferRead 0 r.data
  let inbox := { inbox with queue := r.queue, bufferRead := buffer, bufferReadLen := r.data.length }
  if 0 < inbox.bufferReadLen then
    (inbox, .succeed, some {
      opCode := EsProtocol.getCommand buffer 0
      expdt := (EsProtocol.getExpeditor buffer 0).toUInt32
      recpt := (EsProtocol.getRecipient buffer 0).toUInt32
      payload := fun k => buffer (EsProtocol.getPayload 0 + k)
      len := EsProtocol.getPayloadLength buffer 0 })
  else (inbox, .failed, none)

/-- The inbox half of `vBT_ITF_IdleTask` and `vCC430_ITF_IdleTask`. -/
def idleInbox (inbox : Inbox) : Inbox × Option HandlerCall :=
  if inbox.ready then
    let r := processIncomingFrame inbox
    if r.2.1 = .failed then ({ r.1 with ready := false }, r.2.2) else (r.1, r.2.2)
  else (inbox, none)

/-- The call that is made once a frame is in the read buffer. -/
def handlerCall (buffer : Nat → UInt8) : HandlerCall where
  opCode := EsProtocol.getCommand buffer 0
  expdt := (EsProtocol.getExpeditor buffer 0).toUInt32
  recpt := (EsProtocol.getRecipient buffer 0).toUInt32
  payload := fun k => buffer (EsProtocol.getPayload 0 + k)
  len := EsProtocol.getPayloadLength buffer 0

/-- What is read is handed over behind the bytes it overwrites in the read buffer. -/
theorem processIncomingFrame_read {inbox : Inbox} (h : 0 < (EsQueue.read inbox.queue).data.length) :
    processIncomingFrame inbox =
      ({ inbox with
          queue := (EsQueue.read inbox.queue).queue
          bufferRead := copyIn inbox.bufferRead 0 (EsQueue.read inbox.queue).data
          bufferReadLen := (EsQueue.read inbox.queue).data.length }, .succeed,
        some (handlerCall (copyIn inbox.bufferRead 0 (EsQueue.read inbox.queue).data))) := by
  simp only [processIncomingFrame]
  rw [if_pos h]
  rfl

/-- Only the idle task clears the flag. -/
theorem processIncomingFrame_ready (inbox : Inbox) :
    (processIncomingFrame inbox).1.ready = inbox.ready := by
  simp only [processIncomingFrame]
  split
  · rfl
  · rfl

/-- Only a valid frame is reported as success, and only then is the queue written. -/
theorem newIncomingFrame_cases {inbox : Inbox} {data : Nat → UInt8} {len : Nat} {r : Incoming}
    (h : newIncomingFrame inbox data len = some r) :
    (∃ p, EsProtocol.checkForValidFrame data len = some (.validFrame, p) ∧
      r = ⟨{ inbox with
          queue := (EsQueue.write inbox.queue (cells data p (EsProtocol.getFrameLen data p))).1
          ready := true }, .succeed, some (cells data p (EsProtocol.getFrameLen data p))⟩) ∨
    (∃ code p, code ≠ .validFrame ∧ EsProtocol.checkForValidFrame data len = some (code, p) ∧
      r = ⟨inbox, .failed, none⟩) := by
  unfold newIncomingFrame at h
  cases hv : EsProtocol.checkForValidFrame data len with
  | none =>
    rw [hv] at h
    exact absurd h.symm (Option.some_ne_none r)
  | some a =>
    obtain ⟨code, p⟩ := a
    rw [hv] at h
    cases code with
    | receiving => exact Or.inr ⟨.receiving, p, by decide, rfl, (Option.some.inj h).symm⟩
    | validFrame => exact Or.inl ⟨p, rfl, (Option.some.inj h).symm⟩
    | failed => exact Or.inr ⟨.failed, p, by decide, rfl, (Option.some.inj h).symm⟩

/-- `ESI_NewIncomingFrame` returns whenever the search stays in memory. -/
theorem newIncomingFrame_total (inbox : Inbox) {data : Nat → UInt8} {len : Nat}
    {a : EsProtocol.ReturnCode × Nat} (h : EsProtocol.checkForValidFrame data len = some a) :
    ∃ r, newIncomingFrame inbox data len = some r := by
  unfold newIncomingFrame
  rw [h]
  obtain ⟨code, p⟩ := a
  cases code with
  | receiving => exact ⟨_, rfl⟩
  | validFrame => exact ⟨_, rfl⟩
  | failed => exact ⟨_, rfl⟩

end SidFirmware.EsInterfaces
