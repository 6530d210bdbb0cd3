import SidFirmware.Bootloader.InitCommand

/-! The request handler of `ExoKey/dfu_req_handling.c`: command and data objects that a peer
creates, writes and executes, over the flash queue and the settings page. -/
namespace SidFirmware.Bootloader
open Memory NorFlash FlashQueue

/-- `nrf_dfu_obj_type_t`, as far as `cur_obj_type` takes it. -/
inductive ObjType where
  | command
  | data
deriving DecidableEq

/-- The bytes of one write; a transport counts them in 16 bits. -/
structure Payload where
  bytes : List UInt8
  length_lt : bytes.length < 65536

/-- `nrf_dfu_req_t`; an object type is `none` where the number names none. -/
inductive Req where
  | create (objType : Option ObjType) (objectSize : UInt32)
  | write (data : Payload)
  | execute
  | crc
  | select (objType : Option ObjType)
  | other

/-- `nrf_dfu_res_t`. -/
structure Res where
  maxSize : UInt32
  offset : UInt32
  crc : UInt32
deriving DecidableEq

/-- The variables of the module, `s_dfu_settings`, and the flash queue, whose memory has the
rows of `m_data_buf` and `temp_dfu_settings`. -/
structure Sys where
  q : FlashQueue.State Source
  dataBufPos : Nat
  currentDataBuffer : Nat
  firmwareStartAddr : UInt32
  firmwareSizeReq : UInt32
  validInitPacketPresent : Bool
  lastSettingsWriteStarted : Bool
  packet : Packet
  initPacketData : Option (List UInt8)
  fwHash : List UInt8
  curObjType : ObjType
  settings : Settings
  lastError : ExtError

/-- `FLASH_BUFFER_LENGTH`. -/
def flashBufferLength : Nat := 128
/-- `DATA_OBJECT_MAX_SIZE`. -/
def dataObjectMaxSize : UInt32 := 4096
/-- `DFU_SIGNED_COMMAND_SIZE`. -/
def dfuSignedCommandSize : Nat := 178

/-- The number of bytes of a payload, as `req_len`. -/
def Payload.len (d : Payload) : UInt32 := UInt32.ofNat d.bytes.length

/-- A refusal, with `ext_error_set` where it has an error. -/
def refuse (s : Sys) : Refusal → Sys × ResCode
  | .code rc => (s, rc)
  | .ext e => ({ s with lastError := e }, .extError)

def setRam (s : Sys) (src : Source) (bytes : Nat → UInt8) : Sys :=
  { s with q := { s.q with ram := Function.update s.q.ram src bytes } }

/-- `nrf_dfu_flash_store` and `nrf_dfu_flash_erase`. -/
def flashCall (env : Env) (s : Sys) (call : Call Source) : Sys × RetCode :=
  let r := request env.port s.q call
  ({ s with q := r.1 }, r.2)

/-- The calls that write the settings page. -/
def settingsErase : Call Source := .erase bootloaderSettingsAddress.toNat 1
def settingsStore : Call Source := .write bootloaderSettingsAddress.toNat .tempSettings settingsSize

/-- `nrf_dfu_settings_write`. -/
def settingsWrite (env : Env) (s : Sys) : Sys × Bool :=
  let r := flashCall env s settingsErase
  if r.2 = .success then
    let st := { s.settings with crc := settingsCrcGet s.settings }
    let s := setRam { r.1 with settings := st } .tempSettings fun i => (st.bytes[i]?).getD 0
    let r := flashCall env s settingsStore
    (r.1, decide (r.2 = .success))
  else (r.1, false)

/-- `dfu_handle_prevalidate`. -/
def prevalidate (env : Env) (s : Sys) (cmd : SignedCommand) : Sys × ResCode :=
  match checkCommand env s.settings cmd s.initPacketData with
  | some r => refuse s r
  | none =>
    let size := updateSize cmd.init
    let s := { s with firmwareSizeReq := size.1 }
    match size.2 with
    | some r => refuse s r
    | none =>
      let s := { s with fwHash := cmd.init.hash }
      if s.firmwareSizeReq = 0 then (s, .invalidParameter)
      else
        let c := findCache env.appStart s.settings s.firmwareSizeReq false s.firmwareStartAddr
        let s := { s with settings := c.1, firmwareStartAddr := c.2.1 }
        if c.2.2 = .success then (s, .success) else (s, .insufficientResources)

/-- `dfu_handle_signed_command`. -/
def handleSignedCommand (env : Env) (s : Sys) : Sys × ResCode :=
  if s.packet.signedCommand.hasInit then
    let r := prevalidate env s s.packet.signedCommand
    if r.2 = .success then
      let w := settingsWrite env r.1
      if w.2 then (w.1, .success) else (w.1, .operationFailed)
    else r
  else (s, .invalidObject)

/-- `dfu_decode_commmand`. -/
def decodeCommand (env : Env) (s : Sys) : Sys × Bool :=
  let d := env.decode (cells s.settings.initCommand 0 s.settings.progress.commandSize.toNat)
  ({ s with packet := d.packet, initPacketData := d.initPacketData }, d.ok)

/-- A change of `s_dfu_settings.progress`. -/
def setProgress (s : Sys) (p : Progress) : Sys := { s with settings := { s.settings with progress := p } }

/-- The execution of an init command that is complete. -/
def commandExecute (env : Env) (s : Sys) : Sys × ResCode :=
  if s.validInitPacketPresent then (s, .success)
  else
    let d := decodeCommand env s
    if d.2 then
      let r :=
        if d.1.packet.hasSignedCommand then handleSignedCommand env d.1
        else if d.1.packet.hasCommand then refuse d.1 (.ext .unknownCommand)
        else (d.1, .invalidObject)
      if r.2 = .success then ({ r.1 with validInitPacketPresent := true }, .success) else r
    else (d.1, .invalidObject)

/-- `nrf_dfu_command_req`. -/
def commandReq (env : Env) (s : Sys) (res : Res) : Req → Sys × ResCode × Res
  | .create _ objectSize =>
    if objectSize = 0 then (s, .invalidParameter, res)
    else if UInt32.ofNat initCommandMaxSize < objectSize then (s, .insufficientResources, res)
    else
      ({ s with
          validInitPacketPresent := false
          settings := { s.settings with
            progress := { Progress.zero with commandSize := objectSize }
            writeOffset := 0 } }, .success, res)
  | .crc =>
    (s, .success,
      { res with offset := s.settings.progress.commandOffset, crc := s.settings.progress.commandCrc })
  | .write data =>
    let p := s.settings.progress
    if p.commandSize < data.len + p.commandOffset then
      (s, .invalidParameter, { res with offset := p.commandOffset, crc := p.commandCrc })
    else
      let p' := { p with
        commandOffset := p.commandOffset + data.len
        commandCrc := crc32Compute data.bytes (some p.commandCrc) }
      ({ s with settings := { s.settings with
          initCommand := copyIn s.settings.initCommand p.commandOffset.toNat data.bytes
          progress := p' } }, .success, { res with offset := p'.commandOffset, crc := p'.commandCrc })
  | .execute =>
    if s.settings.progress.commandOffset ≠ s.settings.progress.commandSize then
      (s, .operationNotPermitted, res)
    else
      let r := commandExecute env s
      (r.1, r.2, res)
  | .select _ =>
    (s, .success,
      { maxSize := UInt32.ofNat initCommandMaxSize
        offset := s.settings.progress.commandOffset
        crc := s.settings.progress.commandCrc })
  | .other => (s, .opCodeNotSupported, res)

/-- `FLASH_BUFFER_SWAP`. -/
def flashBufferSwap (s : Sys) : Sys :=
  { s with currentDataBuffer := (s.currentDataBuffer + 1) % 4, dataBufPos := 0 }

/-- A copy to the current buffer, behind what it holds. -/
def fillBuffer (s : Sys) (bytes : List UInt8) : Sys :=
  { setRam s (.dataBuf s.currentDataBuffer)
      (copyIn (s.q.ram (.dataBuf s.currentDataBuffer)) s.dataBufPos bytes) with
    dataBufPos := s.dataBufPos + bytes.length }

/-- The current buffer is handed to the flash and the next one is taken. If the flash refuses
it, offset and check sum go back to the last executed object. -/
def flushBuffer (env : Env) (s : Sys) (res : Res) : Sys × Res :=
  let writeAddr := s.firmwareStartAddr + s.settings.writeOffset
  let r := flashCall env s (.write writeAddr.toNat (.dataBuf s.currentDataBuffer) s.dataBufPos)
  if r.2 = .success then
    (flashBufferSwap { r.1 with settings := { s.settings with
        writeOffset := s.settings.writeOffset + UInt32.ofNat s.dataBufPos } }, res)
  else
    let p := s.settings.progress
    (flashBufferSwap (setProgress r.1 { p with
        firmwareImageCrc := p.firmwareImageCrcLast
        firmwareImageOffset := p.firmwareImageOffsetLast }),
      { res with offset := p.firmwareImageOffsetLast, crc := p.firmwareImageCrcLast })

/-- The bytes of a write, through the current buffer and, once that is full, the next one. -/
def bufferData (env : Env) (s : Sys) (bytes : List UInt8) (res : Res) : Sys × Res :=
  if s.dataBufPos + bytes.length < flashBufferLength then (fillBuffer s bytes, res)
  else
    let first := flashBufferLength - s.dataBufPos
    let r := flushBuffer env (fillBuffer s (bytes.take first)) res
    if bytes.drop first = [] then r else (fillBuffer r.1 (bytes.drop first), r.2)

/-- The rest of an object that is complete. -/
def flushObject (env : Env) (s : Sys) (res : Res) : Sys × Res :=
  let p := s.settings.progress
  if s.dataBufPos ≠ 0 ∧ p.dataObjectSize ≤
      s.settings.writeOffset - p.firmwareImageOffsetLast + UInt32.ofNat s.dataBufPos then
    flushBuffer env s res
  else (s, res)

def noted (s : Sys) (data : Payload) : Sys :=
  let p := s.settings.progress
  setProgress s { p with
    firmwareImageCrc := crc32Compute data.bytes (some p.firmwareImageCrc)
    firmwareImageOffset := p.firmwareImageOffset + data.len }

def Res.image (res : Res) (s : Sys) : Res :=
  { res with
    offset := s.settings.progress.firmwareImageOffset
    crc := s.settings.progress.firmwareImageCrc }

/-- `nrf_dfu_data_req` for a write. -/
def dataWrite (env : Env) (s : Sys) (res : Res) (data : Payload) : Sys × ResCode × Res :=
  let p := s.settings.progress
  let res := res.image s
  if s.validInitPacketPresent = false then (s, .operationNotPermitted, res)
  else if UInt32.ofNat flashBufferLength < data.len then (s, .insufficientResources, res)
  else if p.dataObjectSize < data.len + p.firmwareImageOffset - p.firmwareImageOffsetLast then
    (s, .invalidParameter, res)
  else
    let s := noted s data
    let r := bufferData env s data.bytes (res.image s)
    let r := flushObject env r.1 r.2
    (r.1, .success, r.2)

/-- The settings with a new object behind the last executed one. If the current bank is bank 0,
that is no longer valid. -/
def Settings.created (st : Settings) (objectSize : UInt32) : Settings :=
  let p := st.progress
  let st := { st with
    progress := { p with
      firmwareImageCrc := p.firmwareImageCrcLast
      dataObjectSize := objectSize
      firmwareImageOffset := p.firmwareImageOffsetLast }
    writeOffset := p.firmwareImageOffsetLast }
  if st.bankCurrent = currentBank0 then
    { st with bank0 := { st.bank0 with bankCode := bankInvalid } }
  else st

/-- `nrf_dfu_data_req` for a creation. -/
def dataCreate (env : Env) (s : Sys) (res : Res) (objectSize : UInt32) : Sys × ResCode × Res :=
  let p := s.settings.progress
  if objectSize = 0 then (s, .invalidParameter, res)
  else if objectSize &&& (4096 - 1) ≠ 0 ∧ p.firmwareImageOffsetLast + objectSize ≠ s.firmwareSizeReq then
    (s, .invalidParameter, res)
  else if dataObjectMaxSize < objectSize then (s, .insufficientResources, res)
  else if s.validInitPacketPresent = false then (s, .operationNotPermitted, res)
  else if s.firmwareSizeReq < p.firmwareImageOffsetLast + objectSize then
    (s, .operationNotPermitted, res)
  else
    let s := flashBufferSwap { s with settings := s.settings.created objectSize }
    let eraseAddr := s.firmwareStartAddr + s.settings.progress.firmwareImageOffset
    -- `CEIL_DIV` of the size by the size of a page
    let r := flashCall env s (.erase eraseAddr.toNat ((objectSize.toNat - 1) / codePageSize + 1))
    (r.1, if r.2 = .success then .success else .invalidObject, res)

/-- The part of `nrf_dfu_postvalidate` that compares the hash of the flash with the packet's. -/
def checkHash (env : Env) (s : Sys) (init : InitCommand) : Sys × ResCode :=
  match init.hashType with
  | .sha256 =>
    let image := cells s.q.flash s.firmwareStartAddr.toNat s.firmwareSizeReq.toNat
    let s' := match env.hash image with
      | some digest => { s with fwHash := digest }
      | none => s
    if s'.fwHash ≠ init.hash then refuse s' (.ext .verificationFailed)
    else (s', if (env.hash image).isSome then .success else .operationFailed)
  | .other => refuse s (.ext .wrongHashType)

/-- The part of `nrf_dfu_postvalidate` that looks at the version of a new SoftDevice. -/
def checkSdVersion (env : Env) (s : Sys) (init : InitCommand) (rc : ResCode) : Sys × ResCode :=
  let changed := env.sdVersion s.q.flash 0x1000 / 1000000 ≠
    env.sdVersion s.q.flash s.firmwareStartAddr.toNat / 1000000
  match init.type with
  | .application | .bootloader => (s, rc)
  | .softdevice => (s, if changed then .invalidObject else rc)
  | .softdeviceBootloader =>
    if changed ∧ s.settings.bankCurrent = currentBank1 then
      ({ s with settings := { s.settings with bank0 := { s.settings.bank0 with bankCode := bankInvalid } } }, rc)
    else (s, rc)
  | .other => (s, .operationFailed)

def setCurrentBank (st : Settings) (f : Bank → Bank) : Settings :=
  if st.bankCurrent = currentBank0 then { st with bank0 := f st.bank0 } else { st with bank1 := f st.bank1 }

/-- The bank code and the settings of an image that has passed. -/
def acceptImage (st : Settings) (init : InitCommand) (sizeReq : UInt32) : Settings :=
  let crc := st.progress.firmwareImageCrc
  let accept code := setCurrentBank st fun _ => ⟨sizeReq, crc, code⟩
  match init.type with
  | .application =>
    let st' := accept bankValidApp
    let st' := if st.bankCurrent = currentBank1 then
      { st' with bank0 := { st'.bank0 with bankCode := bankInvalid } } else st'
    { st' with appVersion := init.fwVersion.getD 0 }
  | .softdevice => { accept bankValidSd with sdSize := init.sdSize.getD 0 }
  | .bootloader => { accept bankValidBl with bootloaderVersion := init.fwVersion.getD 0 }
  | .softdeviceBootloader =>
    { accept bankValidSdBl with
      sdSize := init.sdSize.getD 0
      bootloaderVersion := init.fwVersion.getD 0 }
  -- The switch over the type has no such case; `checkSdVersion` has refused it before.
  | .other => setCurrentBank st fun b => { b with imageCrc := crc, imageSize := sizeReq }

def Settings.finished (st : Settings) : Settings :=
  { st with
    progress := Progress.zero
    initCommand := copyIn st.initCommand 0 (List.replicate dfuSignedCommandSize 0xFF)
    writeOffset := 0 }

/-- `nrf_dfu_postvalidate`. -/
def postvalidate (env : Env) (s : Sys) : Sys × ResCode :=
  let init := s.packet.signedCommand.init
  let h := checkHash env s init
  if h.1.settings.bankCurrent = currentBank0 ∨ h.1.settings.bankCurrent = currentBank1 then
    let v := checkSdVersion env h.1 init h.2
    let st := v.1.settings
    let st :=
      if v.2 = .success then acceptImage st init s.firmwareSizeReq else setCurrentBank st fun _ => Bank.zero
    let w := settingsWrite env { v.1 with settings := st.finished, lastSettingsWriteStarted := true }
    (w.1, if w.2 then v.2 else .operationFailed)
  else (h.1, .operationFailed)

def executed (s : Sys) : Sys :=
  setProgress s { s.settings.progress with
    dataObjectSize := 0
    firmwareImageOffsetLast := s.settings.progress.firmwareImageOffset
    firmwareImageCrcLast := s.settings.progress.firmwareImageCrc }

/-- `nrf_dfu_data_req` for an execution. -/
def dataExecute (env : Env) (s : Sys) (res : Res) : Sys × ResCode × Res :=
  let p := s.settings.progress
  if p.dataObjectSize ≠ p.firmwareImageOffset - p.firmwareImageOffsetLast then
    (s, .operationNotPermitted, res)
  else
    let w := settingsWrite env (executed s)
    if w.2 = false then (w.1, .operationFailed, res)
    else if p.firmwareImageOffset = s.firmwareSizeReq then
      let v := postvalidate env w.1
      (v.1, v.2, res)
    else (w.1, .success, res)

/-- `nrf_dfu_data_req`. -/
def dataReq (env : Env) (s : Sys) (res : Res) : Req → Sys × ResCode × Res
  | .create _ objectSize => dataCreate env s res objectSize
  | .write data => dataWrite env s res data
  | .crc => (s, .success, res.image s)
  | .execute => dataExecute env s res
  | .select _ => (s, .success, { res.image s with maxSize := dataObjectMaxSize })
  | .other => (s, .opCodeNotSupported, res)

/-- The object type that a request selects; `none` where it names no type. -/
def selectedType (s : Sys) : Req → Option ObjType
  | .create objType _ | .select objType => objType
  | _ => some s.curObjType

/-- `nrf_dfu_req_handler_on_req`. -/
def onReq (env : Env) (s : Sys) (res : Res) (req : Req) : Sys × ResCode × Res :=
  match selectedType s req with
  | none => (s, .unsupportedType, res)
  | some .command => commandReq env { s with curObjType := .command } res req
  | some .data => dataReq env { s with curObjType := .data } res req

/-- `nrf_dfu_req_handler_init`, behind `nrf_dfu_flash_init`. -/
def reqHandlerInit (env : Env) (s : Sys) : Sys :=
  if s.settings.progress.commandSize ≠ 0 then
    let d := decodeCommand env s
    if d.2 then
      let st := d.1.settings
      let resume (size : UInt32) : Sys :=
        let c := findCache env.appStart st size false s.firmwareStartAddr
        { d.1 with
          firmwareSizeReq := size
          settings := c.1
          firmwareStartAddr := c.2.1
          validInitPacketPresent := true
          lastError := .noError }
      if st.bank0.bankCode = bankInvalid ∧ st.bank0.imageSize ≠ 0 then resume st.bank0.imageSize
      else if st.bank1.bankCode = bankInvalid ∧ st.bank0.imageSize ≠ 0 then resume st.bank1.imageSize
      else d.1
    else { d.1 with lastError := .noError }
  else { s with lastError := .noError }

end SidFirmware.Bootloader
