import SidFirmware.Application.ModeManagement
import SidFirmware.Application.SidStorage

/-! The frame configuration's way in and back: `CMD_FRAME_CFG_SET` of
`vES_CommandHandler` in `Application/ES_Commands.c` and `vES_Slave_Init` of
`Application/ES_SlaveMngt.c`. -/
namespace SidFirmware.EsCommands
open Memory ModeManagement SidStorage

/-- `e_ES_AckCode_t`. -/
inductive AckCode where
  | nok
  | ok
deriving DecidableEq

structure App where
  modeMngt : ModeMngt
  storage : Storage

/-- `CMD_FRAME_CFG_SET` with a payload of `len` bytes at `data`. The table takes one byte
less than the payload has, the storage takes them all. -/
def frameCfgSet (a : App) (data : Nat → UInt8) (len : UInt16) (answer : MemoryErrCode) : App × AckCode :=
  let c := bleFrameCfg a.modeMngt.cfgFrame data (len.toUInt8 - 1)
  let a := { a with modeMngt := { a.modeMngt with cfgFrame := c.1 } }
  if c.2 = 1 then
    let w := frameConfigWrite a.storage data len.toUInt8 answer
    ({ a with storage := w.1 }, if w.2 = .none then .ok else .nok)
  else (a, .nok)

/-- `FRAME_IN_MEMORY_SIZE`, the records of all windows. -/
def frameInMemorySize : Nat := 25

/-- `vES_Slave_Init`: what is read back is cut to whole records. It goes into the local array of
`FRAME_IN_MEMORY_SIZE` bytes first, three less than five records take in flash; `none` when the
copy leaves that array. -/
def slaveInit (a : App) : Option App :=
  let r := frameConfigRead a.storage
  let a := { a with storage := r.1 }
  if r.2.2 = .none then
    if r.2.1.length ≤ frameInMemorySize then
      let cfgFrame := copyIn (fun _ => 0) 0 r.2.1
      let size := UInt8.ofNat r.2.1.length / UInt8.ofNat frameCfgWindowsBleSize * UInt8.ofNat frameCfgWindowsBleSize
      some { a with
        modeMngt := { a.modeMngt with cfgFrame := (bleFrameCfg a.modeMngt.cfgFrame cfgFrame size).1 } }
    else none
  else some a

/-- The first start: a zeroed table and an empty, initialised storage. -/
def fresh : App := ⟨ModeManagement.init, ⟨true, fun _ => 0, none⟩⟩

/-- A restart: the table is zeroed, the flash record stays. The staging buffer holds what
reading the device name has left in it. -/
def reboot (a : App) (data : Nat → UInt8) : Option App :=
  slaveInit ⟨ModeManagement.init, ⟨true, data, a.storage.frameCfg⟩⟩

/-- One `CMD_FRAME_CFG_SET`, and what its flash write answers. -/
structure SetCommand where
  data : Nat → UInt8
  len : UInt16
  answer : MemoryErrCode

/-- The command is handled and acknowledged `ES_ACK_OK`. -/
def acknowledged (a : App) (c : SetCommand) : Option App :=
  let r := frameCfgSet a c.data c.len c.answer
  if r.2 = .ok then some r.1 else none

end SidFirmware.EsCommands
