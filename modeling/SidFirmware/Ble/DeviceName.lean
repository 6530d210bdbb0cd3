import SidFirmware.Foundation.Runs
import SidFirmware.Application.CommandHandler

/-! The device name in its three places: the record of `FILEID_NAME`, the advertised array
`g_achBleDeviceName`, and the local array of `eStorage_Init` into which a start reads the
record back. `vGapParamsInit` names the board by its address, and nothing renames it. -/
namespace SidFirmware.DeviceName
open Memory EsCommands SidStorage Runs

def cString (bytes : List UInt8) : List UInt8 := bytes.takeWhile (· ≠ 0)

/-- An array of `n` bytes that begins with `name` and is zero behind it. -/
def padded (n : Nat) (name : List UInt8) : List UInt8 := name ++ List.replicate (n - name.length) 0

/-- `DEVICE_NAME`, "SF_SIDv4". -/
def deviceName : List UInt8 := [0x53, 0x46, 0x5F, 0x53, 0x49, 0x44, 0x76, 0x34]

/-- `DEFAULT_NAME`, "Exo_SysID". -/
def defaultName : List UInt8 := [0x45, 0x78, 0x6F, 0x5F, 0x53, 0x79, 0x73, 0x49, 0x44]

def printHex (byte : UInt8) : List UInt8 :=
  let digit (n : UInt8) := if n < 10 then 0x30 + n else 0x37 + n
  [digit (byte / 16), digit (byte % 16)]

/-- `l_pchDefaultName`, printed with `%s_%02X%02X` from the board's address. -/
def defaultBoardName (addr : Nat → UInt8) : List UInt8 :=
  deviceName ++ [0x5F] ++ printHex (addr 1) ++ printHex (addr 0)

/-- `vGapParamsInit`. -/
def gapParamsInit (d : Device) (addr : Nat → UInt8) : Device :=
  let name := (defaultBoardName addr).take deviceNameSizeMax
  { d with bleDeviceName := name ++ d.bleDeviceName.drop name.length }

/-- `eStorage_DeviceNameRead`: the string copied to the caller, whose array has `NAME_SIZE`
bytes, and the error code; `none` when `strcpy` leaves that array. -/
def deviceNameRead (d : Device) : Option (Device × List UInt8 × ErrorCode) :=
  if d.storage.isMemInitialized then
    match d.nameRecord with
    | some bytes =>
      let data := copyIn d.storage.data 0 (bytes.take nameSize)
      let name := cString (cells data 0 (4 * maxSizeData))
      if name.length < nameSize then some ({ d with storage := { d.storage with data } }, name, .none)
      else none
    | none => some (d, [], .notFound)
  else some (d, [], .init)

/-- A store to `g_u8IsMemInitialized`. -/
def setMemInitialized (d : Device) (isMemInitialized : Bool) : Device :=
  { d with storage := { d.storage with isMemInitialized } }

/-- `eStorage_Init`, where `eMemory_Init` ends with `memoryInit` and the write of the default
name with `answer`. The name that is read stays in the local array. -/
def storageInit (d : Device) (memoryInit answer : MemoryErrCode) : Option (Device × ErrorCode) :=
  if memoryInit ≠ .none then some (setMemInitialized d false, .init)
  else
    (deviceNameRead (setMemInitialized d true)).bind fun r =>
      if r.2.2 = .notFound then
        (deviceNameWrite r.1 (copyIn (fun _ => 0) 0 defaultName) (UInt8.ofNat defaultName.length)
          answer).map fun w => (if w.2 = .write then setMemInitialized w.1 false else w.1, .none)
      else some (r.1, .none)

/-- `vInit_Entry`. -/
def initEntry (d : Device) (memoryInit answer : MemoryErrCode) : Option Device :=
  (storageInit d memoryInit answer).bind fun r =>
    if r.2 = .none then (slaveInit r.1.toApp).map fun a => { r.1 with toApp := a } else some r.1

def powerOn (d : Device) : Device :=
  { modeMngt := ModeManagement.init
    storage := ⟨false, fun _ => 0, d.storage.frameCfg⟩
    msm := MainStateMachine.msmInit
    nameRecord := d.nameRecord
    bleDeviceName := List.replicate deviceNameSizeMax 0 }

/-- A start of a board with address `addr`, up to the end of `vInit_Entry`. -/
def restart (addr : Nat → UInt8) (d : Device) (memoryInit answer : MemoryErrCode) : Option Device :=
  initEntry (gapParamsInit (powerOn d) addr) memoryInit answer

def advSensDataSize : UInt8 := 5
def boardType : UInt8 := 3

/-- The sensor data that is advertised in front of the name. -/
def sentSize (size : UInt8) : UInt8 := if size > advSensDataSize then advSensDataSize else size

/-- `vBLE_AdvDataUpdate` over the name `bleDeviceName`: `g_au8AdvData` and `g_u8SizeAdvData`. -/
def advDataUpdate (bleDeviceName : List UInt8) (data : Nat → UInt8) (size : UInt8) :
    (Nat → UInt8) × UInt8 :=
  let size := sentSize size
  let strlen := (cString bleDeviceName).length
  let nameSize := if strlen + 1 > deviceNameSizeMax then deviceNameSizeMax else strlen + 1
  let advData := copyIn (fun _ => 0) 0 [size + 4, 0xFF, 0x59, 0x00, boardType]
  let advData := copyIn advData 5 (cells data 0 size.toNat)
  let advData := copyIn advData (5 + size.toNat) [UInt8.ofNat nameSize + 1, 0x09]
  (copyIn advData (7 + size.toNat) (bleDeviceName.take nameSize), 7 + size + UInt8.ofNat nameSize)

/-- A `CMD_BLE_NAME` with a payload of `len` bytes at `data`, and what its flash write answers. -/
structure NameCommand where
  data : Nat → UInt8
  len : Nat
  answer : MemoryErrCode

def NameCommand.name (c : NameCommand) : List UInt8 := cells c.data 0 c.len

structure Nameable (name : List UInt8) : Prop where
  pos : 1 ≤ name.length
  le : name.length ≤ 18
  nul : (0 : UInt8) ∉ name

inductive Event where
  | bleName (command : NameCommand)
  | restart (memoryInit answer : MemoryErrCode)

def Event.Admitted : Event → Prop
  | .bleName c => Nameable c.name
  | .restart _ _ => True

/-- The device with the last name answered `ES_ACK_OK` since its start. -/
structure Life where
  device : Device
  acknowledged : Option (List UInt8)

def step (addr : Nat → UInt8) (l : Life) : Event → Option Life
  | .bleName c =>
    (commandSwitch l.device (some .bleName) c.data c.len c.answer).map fun h =>
      ⟨h.device, if h.ack = some (.ok, []) then some c.name else l.acknowledged⟩
  | .restart memoryInit answer => (restart addr l.device memoryInit answer).map (⟨·, none⟩)

def new : Life :=
  ⟨{ modeMngt := ModeManagement.init
     storage := ⟨false, fun _ => 0, none⟩
     msm := MainStateMachine.msmInit
     nameRecord := none
     bleDeviceName := List.replicate deviceNameSizeMax 0 }, none⟩

theorem padded_length {n : Nat} {name : List UInt8} (h : name.length ≤ n) :
    (padded n name).length = n := by
  rw [padded, List.length_append, List.length_replicate]
  omega

theorem padded_take (n : Nat) (name : List UInt8) : (padded n name).take name.length = name :=
  List.take_left

/-- A NUL behind the string is what the array holds anyway. -/
theorem padded_concat {n : Nat} {name : List UInt8} (h : name.length < n) :
    padded n (name ++ [0]) = padded n name := by
  have hlen : n - name.length = n - (name ++ [0]).length + 1 := by
    rw [List.length_append, List.length_singleton]
    omega
  rw [padded, padded, hlen, List.replicate_succ, List.append_assoc, List.singleton_append]

theorem cString_append {name : List UInt8} (h : (0 : UInt8) ∉ name) (rest : List UInt8) :
    cString (name ++ 0 :: rest) = name := by
  rw [cString, List.takeWhile_append_of_pos]
  · simp
  · intro byte hbyte
    exact decide_eq_true fun h0 => h (h0 ▸ hbyte)

theorem cString_padded {n : Nat} {name : List UInt8} (h : (0 : UInt8) ∉ name) (hn : name.length < n) :
    cString (padded n name) = name := by
  obtain ⟨k, hk⟩ : ∃ k, n - name.length = k + 1 := Nat.exists_eq_add_one.mpr (by omega)
  rw [padded, hk, List.replicate_succ]
  exact cString_append h _

/-- Clearing an array and copying a string to its start pads the string. -/
theorem cells_zeroed (m : Nat → UInt8) {n : Nat} {bytes : List UInt8} (h : bytes.length ≤ n) :
    cells (copyIn (copyIn m 0 (List.replicate n 0)) 0 bytes) 0 n = padded n bytes := by
  apply List.ext_getElem
  · rw [cells_length, padded_length h]
  · intro k hk _
    rw [cells_length] at hk
    rw [cells_getElem, Nat.zero_add]
    by_cases hin : k < bytes.length
    · simp [copyIn, padded, hin, List.getElem_append_left]
    · have hout : bytes.length ≤ k := not_lt.mp hin
      simp [copyIn, padded, hk, hout, List.getElem_append_right]

/-- What `eStorage_DeviceNameWrite` stages of a name that leaves room for two NULs. -/
theorem staged_name (m name : Nat → UInt8) {size : Nat} (h : size + 1 < nameSize) :
    cells (copyIn (copyIn m 0 (List.replicate maxSizeData 0)) 0
      (cells (Function.update (copyIn (fun _ => 0) 0 (cells name 0 size)) (size + 1) 0) 0 (size + 1)))
      0 nameSize = padded nameSize (cells name 0 size) := by
  have hcopy := cells_copyIn (fun _ => 0) 0 (cells name 0 size)
  rw [cells_length] at hcopy
  have hach : cells (Function.update (copyIn (fun _ => 0) 0 (cells name 0 size)) (size + 1) 0) 0
      (size + 1) = cells name 0 size ++ [0] := by
    rw [cells_update_outside _ _ _ _ _ (by omega), cells_succ, hcopy]
    simp [copyIn]
  have hlen : (cells name 0 size ++ [0]).length ≤ nameSize := by
    rw [List.length_append, cells_length]
    exact h.le
  rw [hach, ← padded_concat (by rw [cells_length]; omega)]
  exact cells_zeroed m hlen

/-- A write that flash accepts records the padded name; no other write touches the record. -/
theorem deviceNameWrite_spec (d : Device) (name : Nat → UInt8) {size : UInt8} (answer : MemoryErrCode)
    (h : size.toNat ≤ 18) :
    ∃ d' e, deviceNameWrite d name size answer = some (d', e) ∧ d'.bleDeviceName = d.bleDeviceName ∧
      d'.storage.frameCfg = d.storage.frameCfg ∧
      d'.nameRecord = if e = .none then some (padded nameSize (cells name 0 size.toNat)) else d.nameRecord := by
  have hlght : (size + 1).toNat = size.toNat + 1 := by
    have hone : (1 : UInt8).toNat = 1 := rfl
    rw [UInt8.toNat_add, hone]
    omega
  have hfits : size.toNat + 1 < nameSize := Nat.lt_of_le_of_lt (Nat.succ_le_succ h) (by decide)
  have hmemcpy : ¬ nameSize < size.toNat := by omega
  by_cases hinit : d.storage.isMemInitialized = true
  · simp only [deviceNameWrite, hinit, hlght, hfits, hmemcpy, if_true, if_false]
    by_cases hanswer : answer = .none
    · rw [if_pos hanswer]
      refine ⟨_, .none, rfl, rfl, rfl, ?_⟩
      rw [if_pos rfl]
      exact congrArg some (staged_name _ _ hfits)
    · rw [if_neg hanswer]
      exact ⟨_, .write, rfl, rfl, rfl, rfl⟩
  · rw [deviceNameWrite, if_neg hinit]
    exact ⟨d, .init, rfl, rfl, rfl, rfl⟩

/-- A record that names without NUL leave in flash. -/
def Recorded (record : List UInt8) : Prop :=
  ∃ name, name.length ≤ 18 ∧ (0 : UInt8) ∉ name ∧ record = padded nameSize name

theorem recorded_defaultName : Recorded (padded nameSize defaultName) :=
  ⟨defaultName, by decide, by decide, rfl⟩

/-- An initialised storage reads the recorded name back. -/
theorem deviceNameRead_recorded {d : Device} {name : List UInt8} (hinit : d.storage.isMemInitialized = true)
    (hlen : name.length ≤ 18) (hnul : (0 : UInt8) ∉ name) (h : d.nameRecord = some (padded nameSize name)) :
    ∃ data, deviceNameRead d = some ({ d with storage := { d.storage with data } }, name, .none) := by
  have hlt : name.length < nameSize := Nat.lt_of_le_of_lt hlen (by decide)
  have hlength := padded_length hlt.le
  have htake : (padded nameSize name).take nameSize = padded nameSize name :=
    List.take_of_length_le hlength.le
  have hread : cells (copyIn d.storage.data 0 (padded nameSize name)) 0 (4 * maxSizeData) =
      padded nameSize name ++ cells (copyIn d.storage.data 0 (padded nameSize name)) (0 + nameSize) 60 := by
    have hcopy := cells_copyIn d.storage.data 0 (padded nameSize name)
    rw [hlength] at hcopy
    have hcells : 4 * maxSizeData = nameSize + 60 := rfl
    rw [hcells, cells_add, hcopy]
  have hname : cString (cells (copyIn d.storage.data 0 (padded nameSize name)) 0 (4 * maxSizeData)) = name := by
    obtain ⟨k, hk⟩ : ∃ k, nameSize - name.length = k + 1 := Nat.exists_eq_add_one.mpr (by omega)
    rw [hread, padded, hk, List.replicate_succ, List.append_assoc, List.cons_append]
    exact cString_append hnul _
  refine ⟨copyIn d.storage.data 0 (padded nameSize name), ?_⟩
  simp only [deviceNameRead, hinit, if_true, h, htake, hname, if_pos hlt]

theorem deviceNameRead_empty {d : Device} (hinit : d.storage.isMemInitialized = true)
    (h : d.nameRecord = none) : deviceNameRead d = some (d, [], .notFound) := by
  simp only [deviceNameRead, hinit, if_true, h]

/-- `eStorage_Init` returns, keeps a record that flash has, and renames nothing. -/
theorem storageInit_spec (d : Device) (memoryInit answer : MemoryErrCode)
    (h : ∀ record, d.nameRecord = some record → Recorded record) :
    ∃ d' e, storageInit d memoryInit answer = some (d', e) ∧ d'.bleDeviceName = d.bleDeviceName ∧
      d'.storage.frameCfg = d.storage.frameCfg ∧
      (∀ record, d'.nameRecord = some record → Recorded record) ∧
      ∀ record, d.nameRecord = some record → d'.nameRecord = some record := by
  by_cases hmemory : memoryInit = .none
  · rw [storageInit, if_neg (not_not.mpr hmemory)]
    cases hrecord : d.nameRecord with
    | some record =>
      obtain ⟨name, hlen, hnul, rfl⟩ := h record hrecord
      obtain ⟨data, hread⟩ := deviceNameRead_recorded (d := setMemInitialized d true) rfl hlen hnul hrecord
      rw [hread]
      exact ⟨_, .none, rfl, rfl, rfl, h, fun record hr => hrecord.trans hr⟩
    | none =>
      rw [deviceNameRead_empty (d := setMemInitialized d true) rfl hrecord]
      obtain ⟨d', e, hwrite, hname, hcfg, hwritten⟩ := deviceNameWrite_spec (setMemInitialized d true)
        (copyIn (fun _ => 0) 0 defaultName) answer (by decide : (UInt8.ofNat defaultName.length).toNat ≤ 18)
      have hdefault : cells (copyIn (fun _ => 0) 0 defaultName) 0 (UInt8.ofNat defaultName.length).toNat =
          defaultName := cells_copyIn _ 0 defaultName
      have hrecorded : ∀ record, d'.nameRecord = some record → Recorded record := by
        intro record hr
        rw [hwritten, hdefault] at hr
        split at hr
        · exact Option.some.inj hr ▸ recorded_defaultName
        · exact h record hr
      simp only [Option.bind_some, if_true, hwrite, Option.map_some]
      refine ⟨_, .none, rfl, ?_, ?_, ?_, by simp⟩
      · split
        · exact hname
        · exact hname
      · split
        · exact hcfg
        · exact hcfg
      · split
        · exact hrecorded
        · exact hrecorded
  · rw [storageInit, if_pos hmemory]
    exact ⟨_, .init, rfl, rfl, rfl, h, fun _ hr => hr⟩

/-- The default name leaves room for its NUL, so that all of it is copied. -/
theorem defaultBoardName_length (addr : Nat → UInt8) : (defaultBoardName addr).length = 13 := rfl

theorem gapParamsInit_name (d : Device) (addr : Nat → UInt8) :
    (gapParamsInit (powerOn d) addr).bleDeviceName = padded deviceNameSizeMax (defaultBoardName addr) := rfl

/-- Without a frame configuration in flash, `vES_Slave_Init` has nothing to copy. -/
theorem slaveInit_empty {a : App} (h : a.storage.frameCfg = none) :
    ∃ b, slaveInit a = some b ∧ b.storage.frameCfg = none := by
  by_cases hinit : a.storage.isMemInitialized = true
  · simp only [slaveInit, frameConfigRead, memoryRead, h, hinit, if_true]
    exact ⟨_, rfl, h⟩
  · simp only [slaveInit, frameConfigRead, hinit]
    exact ⟨_, rfl, h⟩

/-- A start returns, keeps the record, and names the board by its address. -/
theorem restart_spec (addr : Nat → UInt8) (d : Device) (memoryInit answer : MemoryErrCode)
    (hcfg : d.storage.frameCfg = none) (h : ∀ record, d.nameRecord = some record → Recorded record) :
    ∃ d', restart addr d memoryInit answer = some d' ∧ d'.storage.frameCfg = none ∧
      d'.bleDeviceName = padded deviceNameSizeMax (defaultBoardName addr) ∧
      (∀ record, d'.nameRecord = some record → Recorded record) ∧
      ∀ record, d.nameRecord = some record → d'.nameRecord = some record := by
  obtain ⟨d', e, hstorage, hname, hempty, hrecorded, hkept⟩ :=
    storageInit_spec (gapParamsInit (powerOn d) addr) memoryInit answer h
  have hempty : d'.storage.frameCfg = none := hempty.trans hcfg
  obtain ⟨b, hslave, hb⟩ := slaveInit_empty hempty
  rw [gapParamsInit_name] at hname
  rw [restart, initEntry, hstorage, Option.bind_some]
  split
  · rw [hslave]
    exact ⟨_, rfl, hb, hname, hrecorded, hkept⟩
  · exact ⟨_, rfl, hempty, hname, hrecorded, hkept⟩

/-- A name that fits is advertised with its NUL, behind the sensor data. -/
theorem advDataUpdate_name {name : List UInt8} (hlen : name.length ≤ 18) (hnul : (0 : UInt8) ∉ name)
    (data : Nat → UInt8) (size : UInt8) :
    (advDataUpdate (padded deviceNameSizeMax name) data size).2 =
      7 + sentSize size + UInt8.ofNat (name.length + 1) ∧
    cells (advDataUpdate (padded deviceNameSizeMax name) data size).1 (7 + (sentSize size).toNat)
      (name.length + 1) = (padded deviceNameSizeMax name).take (name.length + 1) := by
  have hlt : name.length < deviceNameSizeMax := Nat.lt_of_le_of_lt hlen (by decide)
  have hsize : ¬ name.length + 1 > deviceNameSizeMax := not_lt.mpr hlt
  have htake : ((padded deviceNameSizeMax name).take (name.length + 1)).length = name.length + 1 := by
    rw [List.length_take, padded_length hlt.le]
    omega
  have hcopy (m : Nat → UInt8) (s : Nat) :
      cells (copyIn m s ((padded deviceNameSizeMax name).take (name.length + 1))) s (name.length + 1) =
        (padded deviceNameSizeMax name).take (name.length + 1) := by
    have hblock := cells_copyIn m s ((padded deviceNameSizeMax name).take (name.length + 1))
    rwa [htake] at hblock
  simp only [advDataUpdate, cString_padded hnul hlt, if_neg hsize]
  exact ⟨trivial, hcopy _ _⟩

/-- Different names are advertised differently. -/
theorem advDataUpdate_injective {a b : List UInt8} (ha : a.length ≤ 18) (hanul : (0 : UInt8) ∉ a)
    (hb : b.length ≤ 18) (hbnul : (0 : UInt8) ∉ b) {data : Nat → UInt8} {size : UInt8}
    (h : advDataUpdate (padded deviceNameSizeMax a) data size =
      advDataUpdate (padded deviceNameSizeMax b) data size) : a = b := by
  obtain ⟨hasize, haname⟩ := advDataUpdate_name ha hanul data size
  obtain ⟨hbsize, hbname⟩ := advDataUpdate_name hb hbnul data size
  have hlen : a.length = b.length := by
    rw [h, hbsize] at hasize
    have hnat := congrArg UInt8.toNat hasize
    simp only [UInt8.toNat_add, UInt8.toNat_ofNat'] at hnat
    omega
  have htake : (padded deviceNameSizeMax a).take (a.length + 1) =
      (padded deviceNameSizeMax b).take (b.length + 1) := by
    rw [← haname, ← hbname, h, hlen]
  have hfirst := congrArg (List.take a.length) htake
  rwa [List.take_take, List.take_take, hlen, min_eq_left (Nat.le_succ _), ← hlen, padded_take, hlen,
    padded_take] at hfirst

private theorem digit_ne_zero {n : UInt8} (h : n.toNat < 16) :
    (if n < 10 then 0x30 + n else 0x37 + n) ≠ 0 := by
  intro hzero
  have hnat := congrArg UInt8.toNat hzero
  split at hnat
  · rw [UInt8.toNat_add] at hnat
    have h30 : (0x30 : UInt8).toNat = 48 := rfl
    have h0 : (0 : UInt8).toNat = 0 := rfl
    omega
  · rw [UInt8.toNat_add] at hnat
    have h37 : (0x37 : UInt8).toNat = 55 := rfl
    have h0 : (0 : UInt8).toNat = 0 := rfl
    omega

theorem printHex_nul (byte : UInt8) : (0 : UInt8) ∉ printHex byte := by
  have hbyte := byte.toNat_lt
  have h16 : (16 : UInt8).toNat = 16 := rfl
  have hhigh : (byte / 16).toNat < 16 := by
    rw [UInt8.toNat_div, h16]
    omega
  have hlow : (byte % 16).toNat < 16 := by
    rw [UInt8.toNat_mod, h16]
    omega
  simp only [printHex, List.mem_cons, List.not_mem_nil, or_false, not_or]
  exact ⟨(digit_ne_zero hhigh).symm, (digit_ne_zero hlow).symm⟩

theorem defaultBoardName_nul (addr : Nat → UInt8) : (0 : UInt8) ∉ defaultBoardName addr := by
  have hfront : (0 : UInt8) ∉ deviceName ++ [0x5F] := by decide
  simp only [defaultBoardName, List.mem_append, not_or] at hfront ⊢
  exact ⟨⟨hfront, printHex_nul _⟩, printHex_nul _⟩

/-- A command of an admitted length is handled. Acknowledged, it leaves its name in flash and in
the advertised array; refused, it changes neither. -/
theorem bleName_spec (d : Device) {c : NameCommand} (h : c.len ≤ 18) :
    ∃ r, commandSwitch d (some .bleName) c.data c.len c.answer = some r ∧
      r.device.storage.frameCfg = d.storage.frameCfg ∧
      if r.ack = some (.ok, []) then
        r.device.nameRecord = some (padded nameSize c.name) ∧
        r.device.bleDeviceName = padded deviceNameSizeMax c.name
      else r.device.nameRecord = d.nameRecord ∧ r.device.bleDeviceName = d.bleDeviceName := by
  have hsize : (UInt8.ofNat c.len).toNat = c.len := by
    rw [UInt8.toNat_ofNat']
    omega
  obtain ⟨d', e, hwrite, hname, hcfg, hrecord⟩ := deviceNameWrite_spec d c.data c.answer
    (hsize.le.trans h)
  rw [hsize] at hrecord
  rw [commandSwitch, hwrite, Option.map_some]
  refine ⟨_, rfl, ?_⟩
  by_cases he : e = .none
  · have hmax : ¬ c.len > deviceNameSizeMax := not_lt.mpr (h.trans (by decide))
    simp only [he, if_true] at hrecord ⊢
    refine ⟨hcfg, hrecord, ?_⟩
    rw [updateName, hsize, if_neg hmax, padded, NameCommand.name, cells_length]
  · simp only [he, if_false] at hrecord ⊢
    simpa using ⟨hcfg, hrecord, hname⟩

structure Named (l : Life) : Prop where
  frameCfg : l.device.storage.frameCfg = none
  recorded : ∀ record, l.device.nameRecord = some record → Recorded record
  acknowledged : ∀ name, l.acknowledged = some name → Nameable name ∧
    l.device.nameRecord = some (padded nameSize name) ∧
    l.device.bleDeviceName = padded deviceNameSizeMax name

theorem new_named : Named new where
  frameCfg := rfl
  recorded _ h := by cases h
  acknowledged _ h := by cases h

theorem step_named {addr : Nat → UInt8} (l : Life) (e : Event) (l' : Life) (h : Named l)
    (ha : e.Admitted) (hs : step addr l e = some l') : Named l' := by
  cases e with
  | bleName c =>
    have hlen : c.len ≤ 18 := by
      have hle := ha.le
      rwa [NameCommand.name, cells_length] at hle
    obtain ⟨r, hswitch, hcfg, hr⟩ := bleName_spec l.device hlen
    have hcfg := hcfg.trans h.frameCfg
    rw [step, hswitch, Option.map_some, Option.some.injEq] at hs
    subst hs
    by_cases hack : r.ack = some (.ok, [])
    · simp only [hack, if_true] at hr ⊢
      refine ⟨hcfg, ?_, ?_⟩
      · intro record hrecord
        rw [hr.1] at hrecord
        exact ⟨c.name, ha.le, ha.nul, (Option.some.inj hrecord).symm⟩
      · rintro _ ⟨⟩
        exact ⟨ha, hr⟩
    · simp only [hack, if_false] at hr ⊢
      refine ⟨hcfg, ?_, ?_⟩
      · intro record hrecord
        exact h.recorded record (hr.1.symm.trans hrecord)
      · intro name hname
        rw [hr.1, hr.2]
        exact h.acknowledged name hname
  | restart memoryInit answer =>
    obtain ⟨d', hrestart, hcfg, _, hrecorded, _⟩ :=
      restart_spec addr l.device memoryInit answer h.frameCfg h.recorded
    rw [step, hrestart, Option.map_some, Option.some.injEq] at hs
    subst hs
    exact ⟨hcfg, hrecorded, fun _ hnone => by cases hnone⟩

/-- The restarted board advertises the name last acknowledged exactly if that is the name
it has from its address; the record that it does not use still holds the other one. -/
theorem device_name_survives_iff (addr : Nat → UInt8) {history : List Event} {l : Life}
    {name : List UInt8} (memoryInit answer : MemoryErrCode) (hadmitted : ∀ e ∈ history, e.Admitted)
    (hrun : run (step addr) new history = some l) (hack : l.acknowledged = some name) :
    ∃ d, restart addr l.device memoryInit answer = some d ∧
      d.nameRecord = some (padded nameSize name) ∧
      (d.bleDeviceName = padded deviceNameSizeMax name ↔ name = defaultBoardName addr) ∧
      ((∀ data size, advDataUpdate d.bleDeviceName data size =
        advDataUpdate l.device.bleDeviceName data size) ↔ name = defaultBoardName addr) := by
  have hnamed := run_invariant step_named new_named hadmitted hrun
  obtain ⟨hname, hrecord, hble⟩ := hnamed.acknowledged name hack
  obtain ⟨d, hrestart, _, hboard, _, hkept⟩ :=
    restart_spec addr l.device memoryInit answer hnamed.frameCfg hnamed.recorded
  refine ⟨d, hrestart, hkept _ hrecord, ?_, ?_⟩
  · rw [hboard]
    constructor
    · intro hpadded
      have hstring := congrArg cString hpadded
      rwa [cString_padded hname.nul (Nat.lt_of_le_of_lt hname.le (by decide)),
        cString_padded (defaultBoardName_nul addr) (by rw [defaultBoardName_length]; decide), eq_comm] at hstring
    · rintro rfl
      rfl
  · rw [hboard, hble]
    constructor
    · intro hadvertised
      exact (advDataUpdate_injective (by rw [defaultBoardName_length]; decide) (defaultBoardName_nul addr)
        hname.le hname.nul (hadvertised (fun _ => 0) 0)).symm
    · rintro rfl data size
      rfl

def board : Nat → UInt8 := fun _ => 0

def nameA : NameCommand := ⟨fun _ => 0x41, 1, .none⟩

def renamed : List Event := [.restart .none .none, .bleName nameA]

theorem nameA_nameable : Nameable nameA.name := ⟨by decide, by decide, by decide⟩

theorem renamed_admitted : ∀ e ∈ renamed, e.Admitted := by
  simpa [renamed, Event.Admitted] using nameA_nameable

theorem renamed_acknowledged :
    ∃ l, run (step board) new renamed = some l ∧ l.acknowledged = some nameA.name := by
  have hack : (run (step board) new renamed).map Life.acknowledged = some (some nameA.name) := by decide
  exact Option.map_eq_some_iff.mp hack

/-- "A" is still in flash and no longer advertised. -/
theorem device_name_survives_iff_A :
    ∃ l d, run (step board) new renamed = some l ∧ restart board l.device .none .none = some d ∧
      d.nameRecord = some (padded nameSize nameA.name) ∧
      d.bleDeviceName ≠ padded deviceNameSizeMax nameA.name := by
  obtain ⟨l, hrun, hack⟩ := renamed_acknowledged
  obtain ⟨d, hrestart, hrecord, hname, _⟩ :=
    device_name_survives_iff board .none .none renamed_admitted hrun hack
  have hother : nameA.name ≠ defaultBoardName board := by decide
  exact ⟨l, d, hrun, hrestart, hrecord, fun hpadded => hother (hname.mp hpadded)⟩

/-- An acknowledged name is gone after a restart. -/
theorem device_name_lost :
    ¬ ∀ (addr : Nat → UInt8) (history : List Event) (l : Life) (name : List UInt8)
      (memoryInit answer : MemoryErrCode), (∀ e ∈ history, e.Admitted) →
      run (step addr) new history = some l → l.acknowledged = some name →
      ∃ d, restart addr l.device memoryInit answer = some d ∧
        d.bleDeviceName = padded deviceNameSizeMax name ∧
        ∀ data size, advDataUpdate d.bleDeviceName data size =
          advDataUpdate l.device.bleDeviceName data size := by
  intro hall
  obtain ⟨l, hrun, hack⟩ := renamed_acknowledged
  obtain ⟨d, hrestart, hname, _⟩ := hall board renamed l _ .none .none renamed_admitted hrun hack
  have hdefault : ((run (step board) new renamed).bind fun l => restart board l.device .none .none).map
      Device.bleDeviceName = some (padded deviceNameSizeMax (defaultBoardName board)) := by decide
  rw [hrun, Option.bind_some, hrestart, Option.map_some, hname] at hdefault
  exact absurd (Option.some.inj hdefault) (by decide)

end SidFirmware.DeviceName
