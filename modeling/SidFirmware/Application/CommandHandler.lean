import SidFirmware.Application.EsCommands
import SidFirmware.Interfaces.FrameReceiver
import SidFirmware.StateMachines.MainStateMachine

/-! The two frame handlers, `vES_CommandHandler` of `Application/ES_Commands.c` and
`vES_Slave_CommandHandler` of `Application/ES_SlaveMngt.c`, over the application state
they change. A call sends at most one frame, which is part of its result. -/
namespace SidFirmware.EsCommands
open Memory EsInterfaces FrameReceiver ModeManagement SidStorage MainStateMachine

/-- `e_ES_ExpRecpt_t`. -/
def esMaster : UInt32 := 0
def esHostNrf : UInt32 := 1
def esHostCC430 : UInt32 := 2

/-- `e_ES_OpCode_t`. -/
inductive OpCode where
  | reset
  | getBootloaderVersion
  | getFirmwareVersion
  | getHardwareVersion
  | getProductName
  | getSerialNumber
  | getCompilationData
  | sensorCycDataSub
  | sensorCycDataStream
  | sensorCfg
  | sensorDead
  | frameCfgSet
  | frameCfgGet
  | rfPowerSet
  | rfOokCarrierSet
  | rfModCarrierSet
  | rfSettingsGet
  | rfSettingsSet
  | rfTransmission
  | rfRetrySet
  | bleName
  | timestamp
  | acknowledge
  | endOfTransaction
  | diagPing
  | diagInternalComm
  | retErrorCode
deriving DecidableEq

def OpCode.value : OpCode → UInt8
  | .reset => 0x01
  | .getBootloaderVersion => 0x02
  | .getFirmwareVersion => 0x03
  | .getHardwareVersion => 0x04
  | .getProductName => 0x05
  | .getSerialNumber => 0x06
  | .getCompilationData => 0x07
  | .sensorCycDataSub => 0x20
  | .sensorCycDataStream => 0x21
  | .sensorCfg => 0x22
  | .sensorDead => 0x23
  | .frameCfgSet => 0x30
  | .frameCfgGet => 0x31
  | .rfPowerSet => 0x40
  | .rfOokCarrierSet => 0x41
  | .rfModCarrierSet => 0x42
  | .rfSettingsGet => 0x43
  | .rfSettingsSet => 0x44
  | .rfTransmission => 0x45
  | .rfRetrySet => 0x46
  | .bleName => 0x50
  | .timestamp => 0x51
  | .acknowledge => 0xF0
  | .endOfTransaction => 0xF1
  | .diagPing => 0xF2
  | .diagInternalComm => 0xF3
  | .retErrorCode => 0xFE

def OpCode.all : List OpCode :=
  [.reset, .getBootloaderVersion, .getFirmwareVersion, .getHardwareVersion, .getProductName,
    .getSerialNumber, .getCompilationData, .sensorCycDataSub, .sensorCycDataStream, .sensorCfg,
    .sensorDead, .frameCfgSet, .frameCfgGet, .rfPowerSet, .rfOokCarrierSet, .rfModCarrierSet,
    .rfSettingsGet, .rfSettingsSet, .rfTransmission, .rfRetrySet, .bleName, .timestamp,
    .acknowledge, .endOfTransaction, .diagPing, .diagInternalComm, .retErrorCode]

/-- The case of a `switch` on `(e_ES_OpCode_t)byte`, if it has a name. -/
def OpCode.ofByte (byte : UInt8) : Option OpCode := OpCode.all.find? (fun c => c.value = byte)

def AckCode.value : AckCode → UInt8
  | .nok => 0x00
  | .ok => 0x01

/-- The arguments of one call of `eBT_ITF_SendFrame` or `eCC430_ITF_SendFrame`. -/
structure SendFrame where
  itf : Link
  opCode : UInt8
  expdt : UInt32
  recpt : UInt32
  payload : List UInt8

/-- The application state behind the handlers: window table and storage, the state
machine with the stream's configuration, the record of `FILEID_NAME` in flash, and the
advertised name `g_achBleDeviceName`. -/
structure Device extends App where
  msm : Msm
  nameRecord : Option (List UInt8)
  bleDeviceName : List UInt8

def replySize : Nat := 256
def ackSize : Nat := 2

/-- `vES_ReplySendCommand`. -/
def replySendCommand (opCode acknowledge expt : UInt8) (data : List UInt8) : SendFrame :=
  let send payload := ⟨.bth, OpCode.acknowledge.value, expt.toUInt32, esMaster, payload⟩
  if data.length < replySize - ackSize ∧ 0 < data.length then send (acknowledge :: opCode :: data)
  else send [acknowledge, opCode]

/-- `vES_ReplyFromSlave` of the `len` bytes at `data`. -/
def replyFromSlave (expt : UInt8) (data : Nat → UInt8) (len : Nat) : SendFrame :=
  let send payload := ⟨.bth, OpCode.acknowledge.value, expt.toUInt32, esMaster, payload⟩
  if len < replySize - ackSize ∧ 0 < len then send (cells data 0 len)
  else send (List.replicate ackSize 0)

/-- `vES_Slave_CommandHandler`. Each named case of its switch but the acknowledgement,
which is only printed, does the same as the default. -/
def slaveCommandHandler (c : HandlerCall) : Option SendFrame :=
  if c.recpt = esHostCC430 then
    match OpCode.ofByte c.opCode with
    | some .acknowledge => none
    | _ => some ⟨.cc430, c.opCode, c.expdt, c.recpt, cells c.payload 0 c.len⟩
  else if c.recpt = esMaster then some (replyFromSlave esHostCC430.toUInt8 c.payload c.len)
  else none

def nameSize : Nat := 20
def deviceNameSizeMax : Nat := 19

/-- `eStorage_DeviceNameWrite`; `none` when the name leaves the local `l_achName`, which
the eight-bit sum `p_u8Size + 1u` lets through for 255 bytes. -/
def deviceNameWrite (d : Device) (name : Nat → UInt8) (size : UInt8) (answer : MemoryErrCode) :
    Option (Device × ErrorCode) :=
  if d.storage.isMemInitialized then
    let nameLght := size + 1
    if nameLght.toNat < nameSize then
      if nameSize < size.toNat then none
      else
        let achName := Function.update (copyIn (fun _ => 0) 0 (cells name 0 size.toNat)) nameLght.toNat 0
        let data := copyIn (copyIn d.storage.data 0 (List.replicate maxSizeData 0)) 0
          (cells achName 0 nameLght.toNat)
        let d := { d with storage := { d.storage with data } }
        if answer = .none then some ({ d with nameRecord := some (cells data 0 nameSize) }, .none)
        else some (d, .write)
    else some (d, .param)
  else some (d, .init)

/-- `vBLE_UpdateName`, whose calls of the SoftDevice succeed or reset the system. -/
def updateName (d : Device) (name : Nat → UInt8) (size : UInt8) : Device :=
  let nameSize := if size.toNat > deviceNameSizeMax then deviceNameSizeMax else size.toNat
  { d with bleDeviceName := cells name 0 nameSize ++ List.replicate (deviceNameSizeMax - nameSize) 0 }

/-- `FW_VERSION_MAJOR`, `_MINOR`, `_REVISION`; the project is built with `RELEASE`, without
the commit hash. -/
def firmwareVersion : List UInt8 := [1, 0, 0]
def hardwareVersion : List UInt8 := [1, 0, 0]

/-- The lengths of `__DATE__` and `__TIME__`. -/
def buildDateLength : Nat := 11
def buildTimeLength : Nat := 8

/-- What the switch of `vES_CommandHandler` leaves: the application state and, where it sets
`l_u8SendAck`, `l_eAckRet` and the first `l_u8SizeOut` bytes of `l_au8BufferOut`. -/
structure Handled where
  device : Device
  ack : Option (AckCode × List UInt8)

/-- `CMD_SENSOR_CYC_DATA_SUB`, whose five bytes are read at fixed positions. -/
def subscription (data : Nat → UInt8) : Subscription := ⟨data 0, data 1, data 2, data 3, data 4⟩

/-- `CMD_FRAME_CFG_GET`: what `eStorage_FrameConfigRead` copies, cut to the size kept. -/
def frameCfgGet (d : Device) : Handled :=
  let r := frameConfigRead d.storage
  let d := { d with storage := r.1 }
  if r.2.2 = .none then
    let sizeOut := UInt8.ofNat r.2.1.length
    let sizeOut := if sizeOut.toNat > frameInMemorySize + 1 then frameInMemorySize + 1 else sizeOut.toNat
    ⟨d, some (.ok, r.2.1.take sizeOut)⟩
  else ⟨d, some (.nok, [])⟩

/-- The switch of `vES_CommandHandler` on a payload of `len` bytes at `data`. Flash ends a
write with `answer`; `none` is a call that overruns a local buffer. -/
def commandSwitch (d : Device) (opCode : Option OpCode) (data : Nat → UInt8) (len : Nat)
    (answer : MemoryErrCode) : Option Handled :=
  match opCode with
  | some .getFirmwareVersion => some ⟨d, some (.ok, firmwareVersion)⟩
  | some .getHardwareVersion => some ⟨d, some (.ok, hardwareVersion)⟩
  -- The size is counted, the date and time behind it are not.
  | some .getCompilationData => some ⟨d, some (.ok, [UInt8.ofNat (buildDateLength + buildTimeLength + 1)])⟩
  | some .sensorCycDataSub =>
    let r := sensorCycDataSub d.msm (subscription data)
    some ⟨{ d with msm := r.1 }, some (if r.2 then .ok else .nok, [])⟩
  | some .frameCfgSet =>
    let r := frameCfgSet d.toApp data (UInt16.ofNat len) answer
    some ⟨{ d with toApp := r.1 }, some (r.2, [])⟩
  | some .frameCfgGet => some (frameCfgGet d)
  | some .bleName =>
    (deviceNameWrite d data (UInt8.ofNat len) answer).map fun r =>
      if r.2 = .none then ⟨updateName r.1 data (UInt8.ofNat len), some (.ok, [])⟩
      else ⟨r.1, some (.nok, [])⟩
  | some .reset | some .getBootloaderVersion | some .getProductName | some .getSerialNumber
  | some .timestamp | some .diagPing | some .diagInternalComm => some ⟨d, none⟩
  | _ => some ⟨d, some (.nok, [])⟩

/-- `vES_CommandHandler`: the application state and the frame it sends, if it sends one. -/
def commandHandler (d : Device) (c : HandlerCall) (answer : MemoryErrCode) :
    Option (Device × Option SendFrame) :=
  if c.recpt = esHostNrf then
    (commandSwitch d (OpCode.ofByte c.opCode) c.payload c.len answer).map fun h =>
      (h.device, h.ack.map fun a => replySendCommand c.opCode a.1.value esHostNrf.toUInt8 a.2)
  else some (d, slaveCommandHandler c)

/-- The handler that each interface registers. -/
def handle : Link → Device → HandlerCall → MemoryErrCode → Option (Device × Option SendFrame)
  | .bth, d, c, answer => commandHandler d c answer
  | .cc430, d, c, _ => some (d, slaveCommandHandler c)

end SidFirmware.EsCommands
