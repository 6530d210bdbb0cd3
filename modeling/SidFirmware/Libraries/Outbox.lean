import SidFirmware.Libraries.BuiltFrames
import SidFirmware.Libraries.EsInterfaces
import SidFirmware.Libraries.EsQueueRefinement

/-! The outbox of `Libraries/ES_Protocol/ES_Interfaces.c` with the callbacks that both
interfaces install: a frame is built in the write buffer and queued, and the idle task
hands one queued frame at a time to the sender. -/
namespace SidFirmware.EsInterfaces
open Memory EsProtocol DropOldest EsQueue

/-- The outbox of an interface: its queue, the flag `ESI_SIG_OUTBOX_READY`, and the
write and read buffers with their lengths. -/
structure Outbox where
  queue : Queue
  ready : Bool
  bufferWrite : Nat → UInt8
  bufferWriteLen : Nat
  bufferRead : Nat → UInt8
  bufferReadLen : Nat

/-- An outbox at start, with a queue of `ring` bytes. -/
def Outbox.init (ring : Nat) : Outbox where
  queue := EsQueue.init ring (fun _ => 0)
  ready := false
  bufferWrite := fun _ => 0
  bufferWriteLen := 0
  bufferRead := fun _ => 0
  bufferReadLen := 0

/-- `ESI_NewOutgoingFrame` with a write buffer of `size` bytes. `ESP_BuildCommand` never
asks for that size; `none` is a store at or beyond it. -/
def newOutgoingFrame (size : Nat) (outbox : Outbox) (opCode : UInt8) (expdt recpt : UInt32)
    (payload : List UInt8) : Option (Outbox × ReturnCode) :=
  if ∀ k ∈ buildOffsets payload.length, k < size then
    let b := buildCommand outbox.bufferWrite expdt recpt opCode payload
    some ({ outbox with
        bufferWrite := b.1
        bufferWriteLen := b.2
        queue := (EsQueue.write outbox.queue (cells b.1 0 b.2)).1
        ready := true }, .succeed)
  else none

/-- `ESI_ProcessOutgoingFrame` and the bytes it passes to `sender->send`, if it does. -/
def processOutgoingFrame (outbox : Outbox) : Outbox × ReturnCode × Option (List UInt8) :=
  let r := EsQueue.read outbox.queue
  let outbox :=
    { outbox with
      queue := r.queue
      bufferRead := copyIn outbox.bufferRead 0 r.data
      bufferReadLen := if r.ret ≠ EsQueue.failed then r.data.length else 0 }
  if 0 < outbox.bufferReadLen then
    (outbox, .succeed, some (cells outbox.bufferRead 0 outbox.bufferReadLen))
  else (outbox, .failed, none)

/-- The outbox half of `vBT_ITF_IdleTask` and `vCC430_ITF_IdleTask`. -/
def idleOutbox (outbox : Outbox) : Outbox × Option (List UInt8) :=
  if outbox.ready then
    let r := processOutgoingFrame outbox
    if r.2.1 = .failed then ({ r.1 with ready := false }, r.2.2) else (r.1, r.2.2)
  else (outbox, none)

/-- The outbox, whose queue has `ring` bytes, holds the frames `content`. -/
structure Carries (ring : Nat) (outbox : Outbox) (content : List (List UInt8)) : Prop where
  represents : Represents outbox.queue content
  size_eq : outbox.queue.size = ring

theorem Outbox.init_carries {ring : Nat} (h : 4 ≤ ring) (hN : ring ≤ 65535) :
    Carries ring (Outbox.init ring) [] :=
  ⟨init_represents h hN _, rfl⟩

theorem newOutgoingFrame_eq_none {size : Nat} {outbox : Outbox} {opCode : UInt8} {expdt recpt : UInt32}
    {payload : List UInt8} :
    newOutgoingFrame size outbox opCode expdt recpt payload = none ↔
      size < headerSize + 1 + payload.length := by
  rw [newOutgoingFrame]
  by_cases h : ∀ k ∈ buildOffsets payload.length, k < size
  · have hle := buildOffsets_lt_iff.mp h
    rw [if_pos h]
    simp only [reduceCtorEq, false_iff, not_lt]
    exact hle
  · have hlt : ¬ headerSize + 1 + payload.length ≤ size := fun hle => h (buildOffsets_lt_iff.mpr hle)
    rw [if_neg h]
    exact ⟨fun _ => not_le.mp hlt, fun _ => rfl⟩

/-- A frame that fits the write buffer is queued behind what the outbox holds. -/
theorem newOutgoingFrame_carries {size ring : Nat} {outbox : Outbox} {content : List (List UInt8)}
    (h : Carries ring outbox content) (hring : size + 3 ≤ ring) (opCode : UInt8) (expdt recpt : UInt32)
    {payload : List UInt8} (hfit : headerSize + 1 + payload.length ≤ size) :
    ∃ outbox', newOutgoingFrame size outbox opCode expdt recpt payload = some (outbox', .succeed) ∧
      Carries ring outbox' (push recordSize (ring - 1)
        (builtFrame expdt.toUInt8 recpt.toUInt8 opCode payload) content) := by
  have hupper := h.represents.size_upper
  rw [h.size_eq] at hupper
  have hlong : headerSize + 1 + payload.length < 2 ^ 16 := by omega
  obtain ⟨hlen, hcells⟩ := buildCommand_eq outbox.bufferWrite expdt recpt opCode hlong
  have hframe := builtFrame_length expdt.toUInt8 recpt.toUInt8 opCode payload
  obtain ⟨hrep, hsize, _, _⟩ := write_refines h.represents
    (f := builtFrame expdt.toUInt8 recpt.toUInt8 opCode payload) (by omega)
    (by rw [hframe, h.size_eq]; omega)
  rw [h.size_eq] at hrep
  rw [newOutgoingFrame, if_pos (buildOffsets_lt_iff.mpr hfit)]
  simp only [hlen, hcells]
  exact ⟨_, rfl, hrep, hsize.trans h.size_eq⟩

/-- What is left in the write buffer is the frame that was queued. -/
theorem newOutgoingFrame_written {size : Nat} {outbox outbox' : Outbox} {opCode : UInt8}
    {expdt recpt : UInt32} {payload : List UInt8} {ret : ReturnCode} (hsize : size < 2 ^ 16)
    (h : newOutgoingFrame size outbox opCode expdt recpt payload = some (outbox', ret)) :
    cells outbox'.bufferWrite 0 outbox'.bufferWriteLen =
      builtFrame expdt.toUInt8 recpt.toUInt8 opCode payload := by
  rw [newOutgoingFrame] at h
  split at h
  · rename_i hfit
    have hle := buildOffsets_lt_iff.mp hfit
    have hlong : headerSize + 1 + payload.length < 2 ^ 16 := by omega
    obtain ⟨hlen, hcells⟩ := buildCommand_eq outbox.bufferWrite expdt recpt opCode hlong
    rw [← (Prod.mk.inj (Option.some.inj h)).1]
    dsimp only
    rw [hlen, hcells]
  · exact absurd h.symm (Option.some_ne_none _)

theorem processOutgoingFrame_queue (outbox : Outbox) :
    (processOutgoingFrame outbox).1.queue = (EsQueue.read outbox.queue).queue := by
  simp only [processOutgoingFrame, apply_ite Prod.fst, ite_self]

/-- The idle task takes the oldest frame, if there is one. -/
theorem idleOutbox_carries {ring : Nat} {outbox : Outbox} {content : List (List UInt8)}
    (h : Carries ring outbox content) : ∃ rest, Carries ring (idleOutbox outbox).1 rest := by
  have hread : ∃ rest, Represents (EsQueue.read outbox.queue).queue rest ∧
      (EsQueue.read outbox.queue).queue.size = ring := by
    cases content with
    | nil =>
      rw [read_empty h.represents]
      exact ⟨[], h.represents, h.size_eq⟩
    | cons f fs =>
      obtain ⟨ret, _, q', hr, hrep, hsize, _⟩ := read_refines h.represents
      rw [hr]
      exact ⟨fs, hrep, hsize.trans h.size_eq⟩
  obtain ⟨rest, hrep, hsize⟩ := hread
  rw [← processOutgoingFrame_queue] at hrep hsize
  rw [idleOutbox]
  split
  · dsimp only
    split
    · exact ⟨rest, hrep, hsize⟩
    · exact ⟨rest, hrep, hsize⟩
  · exact ⟨content, h⟩

end SidFirmware.EsInterfaces
