import SidFirmware.Bootloader.BankSelection
import SidFirmware.Bootloader.FlashContents

/-! The init command of an update: the decoded packet of `dfu-cc.pb.h`, what the handler in
`ExoKey/dfu_req_handling.c` keeps, and the checks of `dfu_handle_prevalidate`. -/
namespace SidFirmware.Bootloader
open Memory NorFlash FlashQueue

/-- `dfu_fw_type_t`; the decoder lets other numbers through. -/
inductive FwType where
  | application
  | softdevice
  | bootloader
  | softdeviceBootloader
  | other
deriving DecidableEq

/-- `dfu_hash_type_t`; only one is handled. -/
inductive HashType where
  | sha256
  | other
deriving DecidableEq

/-- `dfu_signature_type_t`; only one is handled. -/
inductive SignatureType where
  | ecdsaP256Sha256
  | other
deriving DecidableEq

/-- `dfu_init_command_t`; a number that is not in the packet is `none`, and is read as 0. -/
structure InitCommand where
  fwVersion : Option UInt32
  hwVersion : Option UInt32
  sdReq : List UInt32
  type : FwType
  sdSize : Option UInt32
  blSize : Option UInt32
  appSize : Option UInt32
  hashType : HashType
  hash : List UInt8
  isDebug : Bool

/-- `dfu_signed_command_t`. -/
structure SignedCommand where
  hasInit : Bool
  init : InitCommand
  signatureType : SignatureType
  signature : List UInt8

/-- `dfu_packet_t`; of an unsigned command only its presence counts. -/
structure Packet where
  hasSignedCommand : Bool
  signedCommand : SignedCommand
  hasCommand : Bool

/-- `DFU_PACKET_INIT_DEFAULT`. -/
def Packet.default : Packet :=
  ⟨false, ⟨false, ⟨none, none, [], .application, none, none, none, .other, List.replicate 32 0, false⟩,
    .ecdsaP256Sha256, []⟩, false⟩

/-- What `pb_decode` leaves in `packet` and `init_packet_data`, and whether it succeeds. -/
structure Decoded where
  packet : Packet
  initPacketData : Option (List UInt8)
  ok : Bool

/-- `nrf_dfu_res_code_t`. -/
inductive ResCode where
  | success
  | opCodeNotSupported
  | invalidParameter
  | insufficientResources
  | invalidObject
  | unsupportedType
  | operationNotPermitted
  | operationFailed
  | extError
deriving DecidableEq

/-- `nrf_dfu_ext_error_code_t`. -/
inductive ExtError where
  | noError
  | unknownCommand
  | initCommandInvalid
  | fwVersionFailure
  | hwVersionFailure
  | sdVersionFailure
  | wrongHashType
  | wrongSignatureType
  | verificationFailed
deriving DecidableEq

/-- Where a write to flash reads from: a row of `m_data_buf`, or `temp_dfu_settings`. -/
inductive Source where
  | dataBuf (i : Nat)
  | tempSettings
deriving DecidableEq

/-- The device and the code that the handler calls: where the application starts, behind the
SoftDevice and in front of the bootloader, the protocol buffer decoder, SHA-256, ECDSA with the
public key of the bootloader, the identifier of the SoftDevice, the version of the one at an
address, and the flash commands that it takes. -/
structure Env where
  appStart : UInt32
  appStart_page : appStart.toNat % codePageSize = 0
  appStart_ge : 0x1000 ≤ appStart.toNat
  appStart_le : appStart.toNat ≤ areaEnd
  decode : List UInt8 → Decoded
  hash : List UInt8 → Option (List UInt8)
  verify : List UInt8 → List UInt8 → Bool
  sdFwid : UInt32
  sdVersion : Flash → Nat → Nat
  accepts : Command Source → Bool

/-- `m_fs` of `nrf_dfu_flash.c`. -/
def Env.port (env : Env) : Port Source where
  startAddr := 0x1000
  endAddr := bootloaderSettingsAddress.toNat + codePageSize
  aligned := fun _ => true
  accepts := env.accepts

/-- A code to return, or an error for `ext_error_set`. -/
inductive Refusal where
  | code (rc : ResCode)
  | ext (e : ExtError)
deriving DecidableEq

/-- `NRF_DFU_HW_VERSION`. -/
def hwVersion : UInt32 := 52

/-- The two switches of `dfu_handle_prevalidate` over the version. -/
def checkVersion (st : Settings) (init : InitCommand) : Option Refusal :=
  match init.type with
  | .application =>
    match init.fwVersion with
    | none => some (.ext .initCommandInvalid)
    | some v => if v < st.appVersion then some (.ext .fwVersionFailure) else none
  | .softdevice => none
  | .bootloader | .softdeviceBootloader =>
    match init.fwVersion with
    | none => some (.ext .initCommandInvalid)
    | some v => if v ≤ st.bootloaderVersion then some (.ext .fwVersionFailure) else none
  | .other => some (.ext .initCommandInvalid)

def checkSignature (env : Env) (cmd : SignedCommand) (data : List UInt8) : Option Refusal :=
  match cmd.signatureType with
  | .ecdsaP256Sha256 =>
    match env.hash data with
    | none => some (.code .operationFailed)
    | some digest =>
      if cmd.signature.length ≠ 64 then some (.code .operationFailed)
      else if env.verify digest cmd.signature then none
      else some (.code .invalidObject)
  | .other => some (.ext .wrongSignatureType)

/-- The checks of `dfu_handle_prevalidate` before the size of the update is looked at. -/
def checkCommand (env : Env) (st : Settings) (cmd : SignedCommand) (data : Option (List UInt8)) :
    Option Refusal :=
  match data with
  | none | some [] => some (.ext .initCommandInvalid)
  | some (b :: bs) =>
    if cmd.init.isDebug then some (.code .operationFailed)
    else
      match cmd.init.hwVersion with
      | none => some (.ext .initCommandInvalid)
      | some v =>
        if v ≠ hwVersion then some (.ext .hwVersionFailure)
        else if env.sdFwid ∉ cmd.init.sdReq then some (.ext .sdVersionFailure)
        else (checkVersion st cmd.init).or (checkSignature env cmd (b :: bs))

/-- The bootloader of an update has to fit in the place of the present one. -/
def checkBlSize (blSize : UInt32) : Option Refusal :=
  if mbrParamsPageAddress - bootloaderStartAddr < blSize then some (.code .insufficientResources) else none

/-- `m_firmware_size_req` after the switch over the type, and where that ends the check. -/
def updateSize (init : InitCommand) : UInt32 × Option Refusal :=
  match init.type with
  | .application =>
    match init.appSize with
    | none => (0, some (.ext .initCommandInvalid))
    | some n => (n, none)
  | .bootloader =>
    match init.blSize with
    | none => (0, some (.ext .initCommandInvalid))
    | some n => (n, checkBlSize n)
  | .softdevice =>
    match init.sdSize with
    | none => (0, some (.ext .initCommandInvalid))
    | some n => (n, none)
  | .softdeviceBootloader =>
    match init.blSize, init.sdSize with
    | some bl, some sd =>
      (sd + bl, if sd = 0 ∨ bl = 0 then some (.code .invalidParameter) else checkBlSize bl)
    | _, _ => (0, some (.ext .initCommandInvalid))
  | .other => (0, some (.ext .initCommandInvalid))

def sampleInit : InitCommand where
  fwVersion := some 1
  hwVersion := some hwVersion
  sdReq := [0x9D]
  type := .application
  sdSize := some 0
  blSize := some 0
  appSize := some 8
  hashType := .sha256
  hash := littleEndian 32 0xE09DC61BF558593EB37C4981AB79DB95DC200F649E220B7B4454BB2C36752FAB
  isDebug := false

def sampleSignature : List UInt8 := List.replicate 64 0x5A

def samplePacket : Packet := ⟨true, ⟨true, sampleInit, .ecdsaP256Sha256, sampleSignature⟩, false⟩

/-- The init command as its signature covers it, and the packet as a peer sends it. -/
def sampleInitBytes : List UInt8 :=
  [0x08, 0x01, 0x10, 0x34, 0x1A, 0x02, 0x9D, 0x01, 0x20, 0x00, 0x28, 0x00, 0x30, 0x00, 0x38, 0x08, 0x42, 0x24,
    0x08, 0x03, 0x12, 0x20] ++ sampleInit.hash ++ [0x48, 0x00]
def sampleCommand : List UInt8 :=
  [0x12, 0x82, 0x01, 0x0A, 0x3C, 0x08, 0x01, 0x12, 0x38] ++ sampleInitBytes ++ [0x10, 0x00, 0x1A, 0x40] ++
    sampleSignature

/-- A packet without a signature, that asks for a reset. -/
def sampleUnsigned : List UInt8 := [0x0A, 0x02, 0x08, 0x00]

/-- The digest of `sampleInitBytes`. -/
def sampleDigest : List UInt8 :=
  littleEndian 32 0x7F30EB848776F327215C39493D6459EAD14DA59CC77EB1695C815BB9A7ABECC0

/-- A device that knows these packets and the key of that signature, with the digests of what is hashed. -/
def Env.sample : Env where
  appStart := 0x23000
  appStart_page := by decide
  appStart_ge := by decide
  appStart_le := by decide
  decode bytes :=
    if bytes = sampleCommand then ⟨samplePacket, some sampleInitBytes, true⟩
    else if bytes = sampleUnsigned then ⟨{ Packet.default with hasCommand := true }, none, true⟩
    else ⟨Packet.default, none, false⟩
  hash bytes :=
    some (if bytes = sampleImage then sampleInit.hash else if bytes = sampleInitBytes then sampleDigest
      else littleEndian 32 0xE3B0C44298FC1C149AFBF4C8996FB92427AE41E4649B934CA495991B7852B855)
  verify digest signature := digest == sampleDigest && signature == sampleSignature
  sdFwid := 0x9D
  sdVersion _ _ := 5000000
  accepts _ := true

end SidFirmware.Bootloader
