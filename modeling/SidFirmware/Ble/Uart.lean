import SidFirmware.Libraries.EsQueue

/-! `BLE/BLE_Uart.c`: a message leaves in segments of `g_u16SegSize` bytes, one
notification each. When the SoftDevice has no buffer left the sender locks, keeps
its cursor, and later messages wait in the output queue until notifications are
reported complete. -/
namespace SidFirmware.BleUart
open Memory

abbrev ErrCode := UInt32

def nrfSuccess : ErrCode := 0
def nrfErrorInvalidState : ErrCode := 8
def nrfErrorResources : ErrCode := 19

/-- What successive `sd_ble_gatts_hvx` calls answer, first call first. -/
abbrev Answers := Nat → ErrCode

def bufferMaxLen : Nat := 255
def bleTxFifoDepth : Nat := 4
def defaultMtuSegBufferSize : Nat := 20

/-- `s_Ble_Uart_TxInfo_t`. -/
structure TxInfo where
  locked : Bool
  dataToSend : Nat → UInt8
  length : Nat
  seg : Nat

/-- A message taken into `au8DataToSend` and the segments of it for which
`sd_ble_gatts_hvx` answered `NRF_SUCCESS`, in order. -/
structure Transmission where
  message : List UInt8
  sent : List (List UInt8)

/-- The globals of the module. `log` is what went out on the air, last message first;
no branch of the code reads it. -/
structure Uart where
  connected : Bool
  notificationEnabled : Bool
  txInfo : TxInfo
  segSize : Nat
  outputQueue : EsQueue.Queue
  log : List Transmission

/-- `u8Seg * g_u16SegSize < u16Length`: bytes of the current message remain. -/
def Pending (u : Uart) : Prop := u.txInfo.seg * u.segSize < u.txInfo.length

instance (u : Uart) : Decidable (Pending u) := inferInstanceAs (Decidable (_ < _))

def nextSegment (u : Uart) : List UInt8 :=
  let dataSent := u.txInfo.length - u.txInfo.seg * u.segSize
  cells u.txInfo.dataToSend (u.txInfo.seg * u.segSize) (if dataSent > u.segSize then u.segSize else dataSent)

def logSent (segment : List UInt8) : List Transmission → List Transmission
  | [] => []
  | t :: ts => { t with sent := t.sent ++ [segment] } :: ts

/-- `u32TxNotifySend` of a segment, then the cursor moves on or the sender locks. -/
def notifySegment (u : Uart) (segment : List UInt8) (answer : ErrCode) : Uart :=
  if answer = nrfSuccess then
    { u with
      txInfo := { u.txInfo with seg := (u.txInfo.seg + 1) % 256 }
      log := logSent segment u.log }
  else if answer = nrfErrorResources then { u with txInfo := { u.txInfo with locked := true } }
  else u

/-- The body both loops share. -/
def notify (u : Uart) (answer : ErrCode) : Uart := notifySegment u (nextSegment u) answer

/-- Take a message into `au8DataToSend` and start it from the beginning. -/
def load (u : Uart) (message : List UInt8) : Uart :=
  { u with
    txInfo :=
      { u.txInfo with
        dataToSend := copyIn u.txInfo.dataToSend 0 message, length := message.length, seg := 0 }
    log := ⟨message, []⟩ :: u.log }

/-- The loop of `u32BLE_Uart_SendBuffer`; `none` when it is still running after `fuel` passes. -/
def sendLoop : Nat → Uart → Answers → Option (Uart × ErrCode)
  | 0, _, _ => none
  | fuel + 1, u, answers =>
    if Pending u then
      if answers 0 = nrfSuccess then sendLoop fuel (notify u (answers 0)) (fun k => answers (k + 1))
      else some (notify u (answers 0), answers 0)
    else some (u, nrfSuccess)

/-- `u32BLE_Uart_SendBuffer`. A segment size of at least one needs at most 255 passes. -/
def sendBuffer (u : Uart) (message : List UInt8) (answers : Answers) : Option (Uart × ErrCode) :=
  if u.connected = false ∨ u.notificationEnabled = false then some (u, nrfErrorInvalidState)
  else if u.txInfo.locked = false then sendLoop 256 (load u message) answers
  else some ({ u with outputQueue := (EsQueue.write u.outputQueue message).1 }, nrfSuccess)

/-- The loop of `vBleUart_OnTxComplete`. A queue that has nothing unlocks the sender;
its failed read has set the length to zero. -/
def txLoop : Nat → Uart → Answers → Option Uart
  | 0, _, _ => none
  | fuel + 1, u, answers =>
    if Pending u then
      if answers 0 = nrfSuccess then txLoop fuel (notify u (answers 0)) (fun k => answers (k + 1))
      else some (notify u (answers 0))
    else
      let r := EsQueue.read u.outputQueue
      if r.ret = EsQueue.failed then
        some { u with txInfo := { u.txInfo with length := 0, locked := false }, outputQueue := r.queue }
      else txLoop fuel (load { u with outputQueue := r.queue } r.data) answers

/-- `vBleUart_OnTxComplete`: per message of the queue at most 255 segments and one read. -/
def onTxComplete (u : Uart) (answers : Answers) : Option Uart :=
  if u.txInfo.locked = true then txLoop (256 * (u.outputQueue.elementCounter.toNat + 1)) u answers
  else some u

/-- The effective MTU less opcode and handle, as a `uint16_t`. -/
def segSizeOfMtu (attMtuEffective : Nat) : Nat := (attMtuEffective + 65533) % 65536

/-- `vBLE_Uart_onGattEvt`. -/
def onGattEvt (u : Uart) (attMtuEffective : Nat) : Uart :=
  { u with segSize := segSizeOfMtu attMtuEffective }

/-- `vBleUart_OnConnect`. -/
def onConnect (u : Uart) : Uart := { u with connected := true }

/-- `vBleUart_OnWrite` of two bytes to the descriptor of the notified characteristic. -/
def onWriteCccd (u : Uart) (enabled : Bool) : Uart := { u with notificationEnabled := enabled }

/-- `vBleUart_Reset`, which `vBleUart_OnDisconnect` is. The segment size stays. -/
def reset (u : Uart) : Uart :=
  { u with
    connected := false
    notificationEnabled := false
    outputQueue := EsQueue.clearAll u.outputQueue
    txInfo := ⟨false, copyIn u.txInfo.dataToSend 0 (List.replicate bufferMaxLen 0), 0, 0⟩ }

/-- The module once the service is initialised, a central is connected and has
enabled notifications. The queue's storage holds any bytes. -/
def session (segSize : Nat) (storage : Nat → UInt8) : Uart :=
  { connected := true
    notificationEnabled := true
    txInfo := ⟨false, fun _ => 0, 0, 0⟩
    segSize
    outputQueue := EsQueue.init (bleTxFifoDepth * bufferMaxLen) storage
    log := [] }

def sentSegments (u : Uart) : List (List UInt8) := u.log.reverse.flatMap Transmission.sent

inductive Event where
  | sendBuffer (message : List UInt8) (answers : Answers)
  | txComplete (answers : Answers)
  | gattEvt (attMtuEffective : Nat)

/-- `ms` less the `evicted` oldest of its last `waiting` elements. -/
def dropWaiting (waiting evicted : Nat) (ms : List (List UInt8)) : List (List UInt8) :=
  ms.take (ms.length - waiting) ++ ms.drop (ms.length - waiting + evicted)

/-- A session and the messages passed to `u32BLE_Uart_SendBuffer` in call order, less
those that the output queue has evicted. -/
structure Trace where
  uart : Uart
  kept : List (List UInt8)

/-- What is kept when a call has turned `u` into `u'`: the queue counts its evictions. -/
def keep (u u' : Uart) (message : List UInt8) (kept : List (List UInt8)) : List (List UInt8) :=
  dropWaiting u.outputQueue.elementCounter.toNat
    (u'.outputQueue.overlapCounter - u.outputQueue.overlapCounter).toNat kept ++ [message]

def Trace.step (t : Trace) : Event → Option Trace
  | .sendBuffer message answers =>
    (BleUart.sendBuffer t.uart message answers).map (fun r => ⟨r.1, keep t.uart r.1 message t.kept⟩)
  | .txComplete answers => (onTxComplete t.uart answers).map (fun u => ⟨u, t.kept⟩)
  | .gattEvt mtu => some ⟨onGattEvt t.uart mtu, t.kept⟩

/-- The messages that the events pass to `u32BLE_Uart_SendBuffer`. -/
def messages : List Event → List (List UInt8)
  | [] => []
  | .sendBuffer message _ :: events => message :: messages events
  | .txComplete _ :: events => messages events
  | .gattEvt _ :: events => messages events

def Regular (answers : Answers) : Prop := ∀ k, answers k = nrfSuccess ∨ answers k = nrfErrorResources

/-- Messages of 1 to 255 bytes, regular answers, and GATT events among `mtus`. -/
def Event.Admitted (mtus : Nat → Prop) : Event → Prop
  | .sendBuffer message answers => (1 ≤ message.length ∧ message.length ≤ bufferMaxLen) ∧ Regular answers
  | .txComplete answers => Regular answers
  | .gattEvt mtu => mtus mtu

end SidFirmware.BleUart
