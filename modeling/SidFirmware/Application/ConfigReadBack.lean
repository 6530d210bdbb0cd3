import SidFirmware.Application.FrameCfgAtomic
import SidFirmware.Ble.DeviceName

/-! The way back of the frame configuration. A record has whole words, so that
`eStorage_FrameConfigRead` copies up to three bytes more than were written; the answer of
`CMD_FRAME_CFG_GET` is cut at the longest payload only. -/
namespace SidFirmware.ConfigReadBack
open Memory SidStorage EsCommands ModeManagement DeviceName Runs

/-- The calls that share the staging buffer `g_acu32Data`. -/
inductive StorageUse where
  | configWrite (config : Nat → UInt8) (size : UInt8) (answer : MemoryErrCode)
  | configRead
  | nameWrite (name : Nat → UInt8) (size : UInt8) (answer : MemoryErrCode)
  | nameRead

/-- The record that a call may replace. -/
def StorageUse.WritesConfig : StorageUse → Prop
  | .configWrite _ _ _ => True
  | _ => False

def StorageUse.WritesName : StorageUse → Prop
  | .nameWrite _ _ _ => True
  | _ => False

/-- One such call; `none` when it leaves an array. -/
def useStorage (d : Device) : StorageUse → Option Device
  | .configWrite config size answer =>
    if size.toNat ≤ 4 * maxSizeData then
      some { d with storage := (frameConfigWrite d.storage config size answer).1 }
    else none
  | .configRead => some { d with storage := (frameConfigRead d.storage).1 }
  | .nameWrite name size answer => (deviceNameWrite d name size answer).map Prod.fst
  | .nameRead => (deviceNameRead d).map Prod.fst

/-- The size of `l_au8BufferOut` in `vES_CommandHandler`. -/
def bufferOutSize : Nat := 64

/-- The bytes that `eStorage_FrameConfigRead` copies to its caller, and the bytes that
`vReadStorageCallback` copies to `g_acu32Data` before. -/
def copied (s : Storage) : Nat := (frameConfigRead s).2.1.length
def staged (s : Storage) : Nat := (memoryRead s).2.1

/-- The payload is accepted, and flash takes it. -/
def Kept (c : SetCommand) : Prop := SizeAccepted c ∧ c.answer = .none

instance (c : SetCommand) : Decidable (Kept c) := inferInstanceAs (Decidable ((_ ∧ _) ∧ _))

/-- What uses the frame configuration: a `CMD_FRAME_CFG_SET`, a `CMD_FRAME_CFG_GET`, or the next
boot, which finds `data` in the staging buffer. -/
inductive Event where
  | set (command : SetCommand)
  | get
  | boot (data : Nat → UInt8)

structure History where
  app : App
  last : Option SetCommand

def step (h : History) : Event → Option History
  | .set c => some ⟨(frameCfgSet h.app c.data c.len c.answer).1, if Kept c then some c else h.last⟩
  | .get => some { h with app := { h.app with storage := (frameConfigRead h.app.storage).1 } }
  | .boot data => (reboot h.app data).map fun app => { h with app }

def Fits (h : History) : Event → Prop
  | .set _ => True
  | .get => copied h.app.storage ≤ bufferOutSize ∧ staged h.app.storage ≤ 4 * maxSizeData
  | .boot data => copied ⟨true, data, h.app.storage.frameCfg⟩ ≤ frameInMemorySize ∧
      staged ⟨true, data, h.app.storage.frameCfg⟩ ≤ 4 * maxSizeData

def BootsShort (h : History) : Event → Prop
  | .boot _ => ∀ c ∈ h.last, c.recordCount ≠ 5
  | _ => True

structure Tracked (h : History) : Prop where
  initialized : h.app.storage.isMemInitialized = true
  accepted : ∀ c ∈ h.last, SizeAccepted c
  length : h.app.storage.frameCfg.map List.length = h.last.map fun c => wordBytes c.len.toUInt8.toNat

theorem memoryRead_keeps (s : Storage) :
    (memoryRead s).1.frameCfg = s.frameCfg ∧ (memoryRead s).1.isMemInitialized = s.isMemInitialized := by
  rw [memoryRead]
  split
  · exact ⟨rfl, rfl⟩
  · exact ⟨rfl, rfl⟩

theorem frameConfigRead_keeps (s : Storage) :
    (frameConfigRead s).1.frameCfg = s.frameCfg ∧
      (frameConfigRead s).1.isMemInitialized = s.isMemInitialized := by
  simp only [frameConfigRead]
  split_ifs
  · exact memoryRead_keeps s
  · exact memoryRead_keeps s
  · exact memoryRead_keeps s
  · exact ⟨rfl, rfl⟩

theorem frameConfigWrite_keeps (s : Storage) (config : Nat → UInt8) (size : UInt8) (answer : MemoryErrCode) :
    (frameConfigWrite s config size answer).1.isMemInitialized = s.isMemInitialized := by
  simp only [frameConfigWrite, memoryWrite, memoryWriteEnding]
  split_ifs <;> rfl

/-- The frame configuration and its flag are not the name's. -/
theorem deviceNameWrite_keeps {d : Device} {name : Nat → UInt8} {size : UInt8} {answer : MemoryErrCode}
    {r : Device × ErrorCode} (h : deviceNameWrite d name size answer = some r) :
    r.1.storage.frameCfg = d.storage.frameCfg ∧
      r.1.storage.isMemInitialized = d.storage.isMemInitialized := by
  simp only [deviceNameWrite] at h
  split_ifs at h
  all_goals
    rw [← Option.some.inj h]
    exact ⟨rfl, rfl⟩

theorem deviceNameRead_keeps {d : Device} {r : Device × List UInt8 × ErrorCode}
    (h : deviceNameRead d = some r) :
    r.1.storage.frameCfg = d.storage.frameCfg ∧ r.1.nameRecord = d.nameRecord ∧
      r.1.storage.isMemInitialized = d.storage.isMemInitialized := by
  simp only [deviceNameRead] at h
  split at h
  · split at h
    · split at h
      · rw [← Option.some.inj h]
        exact ⟨rfl, rfl, rfl⟩
      · cases h
    · rw [← Option.some.inj h]
      exact ⟨rfl, rfl, rfl⟩
  · rw [← Option.some.inj h]
    exact ⟨rfl, rfl, rfl⟩

/-- Only a write of a record's own kind replaces it, and nothing takes the storage down. -/
theorem useStorage_keeps {d d' : Device} {u : StorageUse} (h : useStorage d u = some d') :
    (¬ u.WritesConfig → d'.storage.frameCfg = d.storage.frameCfg) ∧
    (¬ u.WritesName → d'.nameRecord = d.nameRecord) ∧
    d'.storage.isMemInitialized = d.storage.isMemInitialized := by
  cases u with
  | configWrite config size answer =>
    rw [useStorage] at h
    split at h
    · rw [← Option.some.inj h]
      exact ⟨fun hnot => absurd trivial hnot, fun _ => rfl, frameConfigWrite_keeps _ _ _ _⟩
    · cases h
  | configRead =>
    rw [← Option.some.inj h]
    exact ⟨fun _ => (frameConfigRead_keeps _).1, fun _ => rfl, (frameConfigRead_keeps _).2⟩
  | nameWrite name size answer =>
    obtain ⟨r, hr, rfl⟩ := Option.map_eq_some_iff.mp h
    obtain ⟨hconfig, hinit⟩ := deviceNameWrite_keeps hr
    exact ⟨fun _ => hconfig, fun hnot => absurd trivial hnot, hinit⟩
  | nameRead =>
    obtain ⟨r, hr, rfl⟩ := Option.map_eq_some_iff.mp h
    obtain ⟨hconfig, hname, hinit⟩ := deviceNameRead_keeps hr
    exact ⟨fun _ => hconfig, fun _ => hname, hinit⟩

/-- The answer of `CMD_FRAME_CFG_GET` is the record, cut to 26 bytes. -/
theorem frameCfgGet_ack {d : Device} {bytes : List UInt8} (hinit : d.storage.isMemInitialized = true)
    (h : d.storage.frameCfg = some bytes) (hlen : bytes.length < 256) :
    (frameCfgGet d).ack = some (.ok, bytes.take (frameInMemorySize + 1)) := by
  have hsize : (UInt8.ofNat bytes.length).toNat = bytes.length := by
    rw [UInt8.toNat_ofNat']
    exact Nat.mod_eq_of_lt hlen
  simp only [frameCfgGet, frameConfigRead_some hinit h, if_true, hsize]
  split
  · rfl
  · rename_i hshort
    rw [List.take_length, List.take_of_length_le (not_lt.mp hshort)]

/-- An accepted payload has five bytes a record, and one more. -/
theorem len_of_accepted {c : SetCommand} (h : SizeAccepted c) :
    c.len.toUInt8.toNat = 5 * c.recordCount + 1 ∧ c.recordCount ≤ 5 := by
  obtain ⟨hpos, -⟩ := h.toUInt8
  obtain ⟨hrem, hmany⟩ := h
  have hone : (1 : UInt8).toNat = 1 := rfl
  have hsub : (c.len.toUInt8 - 1).toNat = c.len.toUInt8.toNat - 1 := by
    rw [UInt8.toNat_sub_of_le _ _ (UInt8.le_iff_toNat_le.mpr (hone.le.trans hpos)), hone]
  rw [SetCommand.recordCount, frameCfgWindowsBleSize] at *
  refine ⟨?_, hmany⟩
  omega

theorem accepted_of_ok {a : App} {c : SetCommand} (h : (frameCfgSet a c.data c.len c.answer).2 = .ok) :
    SizeAccepted c := by
  by_contra hno
  rw [← frameCfgSetEnding_truthful, frameCfgSetEnding_rejected hno] at h
  cases h

/-- An acknowledged command leaves its records and the trailing byte in flash. -/
theorem frameCfgSet_stored {d : Device} {data : Nat → UInt8} {len : Nat} {answer : MemoryErrCode}
    {set : Handled} (hset : commandSwitch d (some .frameCfgSet) data len answer = some set)
    (hack : set.ack = some (.ok, [])) :
    ∃ n ≤ 5, len % 65536 % 256 = 5 * n + 1 ∧
      Stored ⟨data, UInt16.ofNat len, answer⟩ n d.toApp set.device.toApp := by
  rw [← Option.some.inj hset] at hack ⊢
  simp only [Option.some.injEq, Prod.mk.injEq, and_true] at hack
  have hack' : acknowledged d.toApp ⟨data, UInt16.ofNat len, answer⟩ =
      some (frameCfgSet d.toApp data (UInt16.ofNat len) answer).1 := by
    rw [acknowledged, if_pos hack]
  obtain ⟨n, hstored⟩ := acknowledged_stored hack'
  obtain ⟨hlen, -⟩ := len_of_accepted
    (accepted_of_ok (c := ⟨data, UInt16.ofNat len, answer⟩) hack)
  rw [hstored.count, UInt16.toNat_toUInt8, UInt16.toNat_ofNat'] at hlen
  exact ⟨n, hstored.count_le, by omega, hstored⟩

/-- A payload that was acknowledged is read back as it was set, whatever names were written and
whatever was read in between, exactly if it has three or five records. -/
theorem config_read_back_iff {d : Device} {data : Nat → UInt8} {len : Nat} {answer : MemoryErrCode}
    {set : Handled} (hset : commandSwitch d (some .frameCfgSet) data len answer = some set)
    (hack : set.ack = some (.ok, [])) {uses : List StorageUse} (huses : ∀ u ∈ uses, ¬ u.WritesConfig)
    {d' : Device} (hrun : run useStorage set.device uses = some d') (getData : Nat → UInt8) (getLen : Nat)
    (getAnswer : MemoryErrCode) :
    (commandSwitch d' (some .frameCfgGet) getData getLen getAnswer).map Handled.ack =
      some (some (.ok, cells data 0 len)) ↔ len = 16 ∨ len = 26 := by
  obtain ⟨n, hn, hlen, hstored⟩ := frameCfgSet_stored hset hack
  obtain ⟨bytes, hflash, hlength, htake⟩ := hstored.flash
  have hkept : d'.storage.frameCfg = some bytes ∧ d'.storage.isMemInitialized = true := by
    refine run_invariant (I := fun d => d.storage.frameCfg = some bytes ∧ d.storage.isMemInitialized = true)
      ?_ ⟨hflash, hstored.initialized⟩ huses hrun
    rintro s u s' ⟨hrecord, hinit⟩ hu hstep
    obtain ⟨hconfig, -, hstorage⟩ := useStorage_keeps hstep
    exact ⟨(hconfig hu).trans hrecord, hstorage.trans hinit⟩
  rw [wordBytes] at hlength
  have hget : (commandSwitch d' (some .frameCfgGet) getData getLen getAnswer).map Handled.ack =
      some (some (.ok, bytes.take (frameInMemorySize + 1))) :=
    congrArg some (frameCfgGet_ack hkept.2 hkept.1 (by omega))
  rw [hget, Option.some.injEq, Option.some.injEq, Prod.mk.injEq, and_iff_right rfl]
  constructor
  · intro heq
    have hcount := congrArg List.length heq
    rw [List.length_take, cells_length, hlength, frameInMemorySize] at hcount
    omega
  · rintro (rfl | rfl)
    · obtain rfl : n = 3 := by omega
      rw [List.take_of_length_le (by rw [hlength]; decide), ← htake]
      exact (List.take_of_length_le (by rw [hlength])).symm
    · obtain rfl : n = 5 := by omega
      exact htake

def started : Device := { DeviceName.new.device with storage := ⟨true, fun _ => 0, none⟩ }

/-- Windows 0, 1 and 2 with periods 10, 30 and 60, and the trailing byte. -/
def threeRecords : SetCommand := setCommand [0x01, 0, 4, 0, 10, 0x21, 0, 4, 0, 30, 0x41, 0, 4, 0, 60, 0]

/-- Three records come back as they were set. -/
theorem config_read_back_iff_three :
    ∃ set d', commandSwitch started (some .frameCfgSet) threeRecords.data 16 .none = some set ∧
      run useStorage set.device [.nameWrite (fun _ => 0x41) 1 .none, .configRead] = some d' ∧
      ((commandSwitch d' (some .frameCfgGet) threeRecords.data 0 .none).map Handled.ack =
        some (some (.ok, cells threeRecords.data 0 16)) ↔ 16 = 16 ∨ 16 = 26) := by
  have hack : (frameCfgSet started.toApp threeRecords.data (UInt16.ofNat 16) .none).2 = .ok := by decide
  have huses : ∀ u ∈ [StorageUse.nameWrite (fun _ => 0x41) 1 .none, .configRead], ¬ u.WritesConfig := by
    simp [StorageUse.WritesConfig]
  exact ⟨_, _, rfl, rfl, @config_read_back_iff started threeRecords.data 16 .none _ rfl
    (congrArg (fun ack => some (ack, [])) hack) _ huses _ rfl _ _ _⟩

def oneRecord : SetCommand := setCommand [0x01, 0, 4, 0, 10, 0]

/-- One record comes back with two more bytes than it was set with. -/
theorem one_record_read_back_longer :
    ¬ ∀ (d : Device) (data : Nat → UInt8) (len : Nat) (answer : MemoryErrCode) (set : Handled),
      commandSwitch d (some .frameCfgSet) data len answer = some set → set.ack = some (.ok, []) →
      ∀ (uses : List StorageUse) (d' : Device), (∀ u ∈ uses, ¬ u.WritesConfig) →
        run useStorage set.device uses = some d' →
        (commandSwitch d' (some .frameCfgGet) data len answer).map Handled.ack =
          some (some (.ok, cells data 0 len)) := by
  intro hall
  have hack : (frameCfgSet started.toApp oneRecord.data (UInt16.ofNat 6) .none).2 = .ok := by decide
  have hread := hall started oneRecord.data 6 .none _ rfl (congrArg (fun ack => some (ack, [])) hack) [] _
    (by simp) rfl
  exact absurd hread (by decide)

theorem copied_eq {s : Storage} (h : s.isMemInitialized = true) :
    copied s = (s.frameCfg.map List.length).getD 0 := by
  rw [copied]
  cases hrecord : s.frameCfg with
  | none =>
    rw [frameConfigRead_none h hrecord]
    rfl
  | some bytes =>
    rw [frameConfigRead_some h hrecord]
    rfl

theorem staged_eq (s : Storage) : staged s = (s.frameCfg.map List.length).getD 0 := by
  simp only [staged, memoryRead]
  cases s.frameCfg with
  | none => rfl
  | some bytes => rfl

/-- What a command does to the record. -/
theorem frameCfgSet_record {a : App} (c : SetCommand) (h : a.storage.isMemInitialized = true) :
    (frameCfgSet a c.data c.len c.answer).1.storage.isMemInitialized = true ∧
    (frameCfgSet a c.data c.len c.answer).1.storage.frameCfg.map List.length =
      if Kept c then some (wordBytes c.len.toUInt8.toNat) else a.storage.frameCfg.map List.length := by
  rw [← frameCfgSetEnding_truthful]
  by_cases hsize : SizeAccepted c
  · rw [frameCfgSetEnding_accepted hsize]
    by_cases hanswer : c.answer = .none
    · have hkept : Kept c := ⟨hsize, hanswer⟩
      simp [frameConfigWriteEnding, memoryWriteEnding, h, hanswer, hkept]
    · have hkept : ¬ Kept c := fun hkept => hanswer hkept.2
      simp [frameConfigWriteEnding, memoryWriteEnding, h, hanswer, hkept]
  · rw [frameCfgSetEnding_rejected hsize, if_neg fun hkept => hsize hkept.1]
    exact ⟨h, rfl⟩

theorem slaveInit_storage {a b : App} (h : slaveInit a = some b) :
    b.storage = (frameConfigRead a.storage).1 := by
  simp only [slaveInit] at h
  split_ifs at h
  · rw [← Option.some.inj h]
  · rw [← Option.some.inj h]

theorem start_tracked : Tracked ⟨fresh, none⟩ where
  initialized := rfl
  accepted _ h := absurd h (Option.not_mem_none _)
  length := rfl

theorem step_tracked {h h' : History} {e : Event} (ht : Tracked h) (hs : step h e = some h') : Tracked h' := by
  cases e with
  | set c =>
    obtain ⟨hinit, hlength⟩ := frameCfgSet_record c ht.initialized
    rw [← Option.some.inj hs]
    refine ⟨hinit, ?_, ?_⟩
    · intro c' hc'
      dsimp only at hc'
      split at hc'
      · rename_i hkept
        exact Option.some.inj hc' ▸ hkept.1
      · exact ht.accepted c' hc'
    · dsimp only
      rw [hlength]
      split
      · rfl
      · exact ht.length
  | get =>
    obtain ⟨hrecord, hinit⟩ := frameConfigRead_keeps h.app.storage
    rw [← Option.some.inj hs]
    exact ⟨hinit.trans ht.initialized, ht.accepted, (congrArg _ hrecord).trans ht.length⟩
  | boot data =>
    obtain ⟨hrecord, hinit⟩ := frameConfigRead_keeps ⟨true, data, h.app.storage.frameCfg⟩
    obtain ⟨app, hboot, rfl⟩ := Option.map_eq_some_iff.mp hs
    have hstorage : app.storage = (frameConfigRead ⟨true, data, h.app.storage.frameCfg⟩).1 :=
      slaveInit_storage hboot
    refine ⟨?_, ht.accepted, ?_⟩
    · rw [hstorage, hinit]
    · rw [hstorage, hrecord]
      exact ht.length

/-- A record has 28 bytes at most, and more than 24 only if it has five records. -/
theorem Tracked.record_length {h : History} (ht : Tracked h) :
    (h.app.storage.frameCfg.map List.length).getD 0 ≤ 28 ∧
      ((h.app.storage.frameCfg.map List.length).getD 0 ≤ 25 ↔ ∀ c ∈ h.last, c.recordCount ≠ 5) := by
  rw [ht.length]
  cases hlast : h.last with
  | none => simp
  | some c =>
    obtain ⟨hlen, hle⟩ := len_of_accepted (ht.accepted c hlast)
    simp only [Option.map_some, Option.getD_some, Option.mem_some_iff, forall_eq', hlen, wordBytes]
    omega

/-- One read fits exactly if it is not a boot that finds five records. -/
theorem fits_iff {h : History} (ht : Tracked h) (e : Event) : Fits h e ↔ BootsShort h e := by
  obtain ⟨hle, hshort⟩ := ht.record_length
  have hbuffer : bufferOutSize = 64 := rfl
  have hdata : 4 * maxSizeData = 80 := rfl
  have hframe : frameInMemorySize = 25 := rfl
  cases e with
  | set c => exact Iff.rfl
  | get =>
    rw [Fits, copied_eq ht.initialized, staged_eq]
    exact iff_of_true ⟨by omega, by omega⟩ trivial
  | boot data =>
    rw [Fits, copied_eq rfl, staged_eq, BootsShort, ← hshort]
    exact and_iff_left (hle.trans (by decide))

/-- From an empty flash on, all reads of a sequence of configurations, read-backs and boots fit their
destination exactly if no boot finds five records. -/
theorem reads_fit_iff (events : List Event) :
    Along step Fits ⟨fresh, none⟩ events ↔ Along step BootsShort ⟨fresh, none⟩ events :=
  along_congr (I := Tracked) (fun _ _ _ => step_tracked) (fun _ e ht => fits_iff ht e) start_tracked events

def fiveRecords : SetCommand :=
  setCommand [0x01, 0, 4, 0, 10, 0x21, 0, 4, 0, 10, 0x41, 0, 4, 0, 10, 0x61, 0, 4, 0, 10, 0x81, 0, 4, 0, 10, 0]

/-- The boot copies the 28 bytes of five records into an array of 25. -/
theorem boot_overruns : ¬ ∀ events : List Event, Along step Fits ⟨fresh, none⟩ events := by
  intro hall
  have hboot := ((hall [.set fiveRecords, .boot fun _ => 0]).2 _ rfl).1.1
  have hcopied : copied ⟨true, fun _ => 0,
      (frameCfgSet fresh fiveRecords.data fiveRecords.len fiveRecords.answer).1.storage.frameCfg⟩ = 28 := by
    decide
  dsimp only at hboot
  rw [hcopied] at hboot
  exact absurd hboot (by decide)

end SidFirmware.ConfigReadBack
