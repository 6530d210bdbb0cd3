import SidFirmware.Foundation.Runs
import SidFirmware.Application.EsCommands

/-! What a restart brings back. The table follows the records of every command; the
flash record is the last command's alone, and a restart replays only that one. -/
namespace SidFirmware.EsCommands
open Memory ModeManagement SidStorage Runs

@[ext]
structure Config where
  active : UInt8
  mode : UInt8
  cmd : UInt8
  dimming : UInt8
  tagType : UInt8
  time : UInt16
deriving DecidableEq

def Config.zero : Config := ⟨0, 0, 0, 0, 0, 0⟩

def configOf (c : FrameCfg) : Config := ⟨c.active, c.mode, c.cmd, c.dimming, c.tagType, c.time⟩

/-- The configuration that the record at `offset` describes. -/
def recordConfig (data : Nat → UInt8) (offset : Nat) : Config :=
  configOf (applyRecord FrameCfg.zero data offset)

def recordFor (data : Nat → UInt8) (i : Window) : Nat → Option Config
  | 0 => none
  | n + 1 =>
    if (bWindowsNb (data (frameCfgWindowsBleSize * n))).toNat = i.val then
      some (recordConfig data (frameCfgWindowsBleSize * n))
    else recordFor data i n

def SetCommand.recordCount (c : SetCommand) : Nat := (c.len.toUInt8 - 1).toNat / frameCfgWindowsBleSize

def SetCommand.config (c : SetCommand) (i : Window) : Option Config := recordFor c.data i c.recordCount

def latest (commands : List SetCommand) (i : Window) : Option Config :=
  commands.foldl (fun config c => (c.config i).or config) none

/-- The last command has a record for window `i`, or the last record that there was for
it is all zero. -/
def Recoverable (commands : List SetCommand) (i : Window) : Prop :=
  ∀ c ∈ commands.getLast?, c.config i = none → ∀ config ∈ latest commands i, config = Config.zero

/-- What flash holds of the last command has room in the array of the next start. -/
def Restorable (commands : List SetCommand) : Prop := ∀ c ∈ commands.getLast?, c.recordCount ≤ 4

/-- The next start stays in its array and brings every window back. -/
def Survives (a : App) (data : Nat → UInt8) : Prop :=
  ∃ b, reboot a data = some b ∧ ∀ i, configOf (b.modeMngt.cfgFrame i) = configOf (a.modeMngt.cfgFrame i)

/-- The table and the storage after an acknowledged command of `n` records. -/
structure Stored (c : SetCommand) (n : Nat) (before after : App) : Prop where
  count : c.recordCount = n
  count_le : n ≤ frameCfgNumber
  table : after.modeMngt.cfgFrame = cfgRecords before.modeMngt.cfgFrame c.data n
  initialized : after.storage.isMemInitialized = true
  flash : ∃ bytes, after.storage.frameCfg = some bytes ∧ bytes.length = wordBytes (5 * n + 1) ∧
    bytes.take (5 * n + 1) = cells c.data 0 (5 * n + 1)

theorem configOf_applyRecord (c : FrameCfg) (data : Nat → UInt8) (offset : Nat) :
    configOf (applyRecord c data offset) = recordConfig data offset := rfl

/-- Each window's configuration is the last record for it, or what it was. -/
theorem cfgRecords_config (t : Table) (data : Nat → UInt8) (n : Nat) (i : Window) :
    configOf (cfgRecords t data n i) = (recordFor data i n).getD (configOf (t i)) := by
  induction n with
  | zero => rfl
  | succ n ih =>
    rw [cfgRecords, recordFor]
    split
    · rename_i hw
      by_cases hi : (bWindowsNb (data (frameCfgWindowsBleSize * n))).toNat = i.val
      · have heq : i = ⟨_, hw⟩ := Fin.ext hi.symm
        rw [if_pos hi, Option.getD_some, ← heq, Function.update_self, configOf_applyRecord]
      · have hne : i ≠ ⟨_, hw⟩ := fun h => hi (congrArg Fin.val h).symm
        rw [if_neg hi, Function.update_of_ne hne]
        exact ih
    · rename_i hw
      have hi : (bWindowsNb (data (frameCfgWindowsBleSize * n))).toNat ≠ i.val :=
        fun h => hw (h ▸ i.isLt)
      rw [if_neg hi]
      exact ih

theorem recordFor_congr {data data' : Nat → UInt8} (i : Window) {n : Nat}
    (h : ∀ j < 5 * n, data j = data' j) : recordFor data i n = recordFor data' i n := by
  induction n with
  | zero => rfl
  | succ n ih =>
    have hread : ∀ k < 5, data (frameCfgWindowsBleSize * n + k) = data' (frameCfgWindowsBleSize * n + k) := by
      intro k hk
      apply h
      rw [frameCfgWindowsBleSize]
      omega
    have hfirst : data (frameCfgWindowsBleSize * n) = data' (frameCfgWindowsBleSize * n) := hread 0 (by omega)
    have hconfig : recordConfig data (frameCfgWindowsBleSize * n) =
        recordConfig data' (frameCfgWindowsBleSize * n) := by
      simp only [recordConfig, configOf, applyRecord, hfirst, hread 1 (by omega), hread 2 (by omega),
        hread 3 (by omega), hread 4 (by omega)]
    rw [recordFor, recordFor, hfirst, hconfig, ih (fun j hj => h j (by omega))]

/-- The sizes that both sides accept: whole records and one byte. -/
private theorem payload_size {x : UInt8} {n : Nat} (hmod : (x - 1).toNat % 5 = 0)
    (hn : (x - 1).toNat / 5 = n) (hle : n ≤ 5) : x.toNat = 5 * n + 1 := by
  have hx := x.toNat_lt
  rw [UInt8.toNat_sub] at hmod hn
  have hone : (1 : UInt8).toNat = 1 := rfl
  rw [hone] at hmod hn
  omega

theorem acknowledged_stored {a a' : App} {c : SetCommand} (h : acknowledged a c = some a') :
    ∃ n, Stored c n a a' := by
  simp only [acknowledged, frameCfgSet] at h
  by_cases hmod : (c.len.toUInt8 - 1).toNat % frameCfgWindowsBleSize ≠ 0
  · simp [bleFrameCfg, hmod] at h
  · by_cases hcount : (c.len.toUInt8 - 1).toNat / frameCfgWindowsBleSize > frameCfgNumber
    · simp [bleFrameCfg, hmod, hcount] at h
    · have hcfg : bleFrameCfg a.modeMngt.cfgFrame c.data (c.len.toUInt8 - 1) =
          (cfgRecords a.modeMngt.cfgFrame c.data
            ((c.len.toUInt8 - 1).toNat / frameCfgWindowsBleSize), 1) := by
        rw [bleFrameCfg, if_neg hmod, if_neg hcount]
      have hsize := payload_size (not_not.mp hmod) rfl (not_lt.mp hcount)
      rw [hcfg] at h
      simp only [if_true] at h
      by_cases hwrite : (frameConfigWrite a.storage c.data c.len.toUInt8 c.answer).2 = .none
      · simp only [hwrite, if_true, Option.some.injEq] at h
        subst h
        obtain ⟨hinit, bytes, hflash, hlen, htake⟩ := frameConfigWrite_none hwrite
        rw [hsize] at hlen htake
        exact ⟨_, rfl, not_lt.mp hcount, rfl, hinit, bytes, hflash, hlen, htake⟩
      · simp [hwrite] at h

/-- What the next start reads back; five records are more than it has room for. -/
theorem Stored.read_back {c : SetCommand} {n : Nat} {a a' : App} (h : Stored c n a a') (data : Nat → UInt8) :
    ∃ bytes, (frameConfigRead ⟨true, data, a'.storage.frameCfg⟩).2 = (bytes, .none) ∧
      bytes.length = wordBytes (5 * n + 1) ∧ (bytes.length ≤ frameInMemorySize ↔ n ≤ 4) ∧
      ∀ j < 5 * n, copyIn (fun _ => 0) 0 bytes j = c.data j := by
  obtain ⟨bytes, hflash, hlen, htake⟩ := h.flash
  have hle : n ≤ 5 := h.count_le
  have hwords : 5 * n + 1 ≤ bytes.length := by
    rw [hlen, wordBytes]
    omega
  refine ⟨bytes, frameConfigRead_some rfl hflash, hlen, ?_, ?_⟩
  · rw [hlen, wordBytes, frameInMemorySize]
    omega
  · have hcells : cells (copyIn (fun _ => 0) 0 bytes) 0 (5 * n + 1) = cells c.data 0 (5 * n + 1) := by
      rw [← htake, ← cells_take _ _ hwords, cells_copyIn]
    intro j hj
    have hat : (cells (copyIn (fun _ => 0) 0 bytes) 0 (5 * n + 1))[j]? =
        (cells c.data 0 (5 * n + 1))[j]? := congrArg (fun l => l[j]?) hcells
    rw [cells_getElem? _ _ _ _ (Nat.lt_succ_of_lt hj), cells_getElem? _ _ _ _ (Nat.lt_succ_of_lt hj),
      Nat.zero_add] at hat
    exact Option.some.inj hat

/-- The local array is left exactly if five records were stored. -/
theorem Stored.reboot_some_iff {c : SetCommand} {n : Nat} {a a' : App} (h : Stored c n a a')
    (data : Nat → UInt8) : (∃ b, reboot a' data = some b) ↔ n ≤ 4 := by
  obtain ⟨bytes, hread, _, hroom, _⟩ := h.read_back data
  rw [← hroom]
  simp only [reboot, slaveInit, hread, if_true]
  split
  · rename_i hle
    exact iff_of_true ⟨_, rfl⟩ hle
  · rename_i hgt
    exact iff_of_false (by rintro ⟨_, ⟨⟩⟩) hgt

/-- After a restart each window is what the last command said about it, or zero. -/
theorem Stored.reboot_config {c : SetCommand} {n : Nat} {a a' b : App} (h : Stored c n a a')
    {data : Nat → UInt8} (hb : reboot a' data = some b) (i : Window) :
    configOf (b.modeMngt.cfgFrame i) = (c.config i).getD Config.zero := by
  obtain ⟨bytes, hread, hlen, hroom, hbytes⟩ := h.read_back data
  have hle : n ≤ 4 := (h.reboot_some_iff data).mp ⟨b, hb⟩
  have hsize : (UInt8.ofNat bytes.length / UInt8.ofNat frameCfgWindowsBleSize *
      UInt8.ofNat frameCfgWindowsBleSize).toNat = 5 * n := by
    rw [hlen, UInt8.toNat_mul, UInt8.toNat_div, UInt8.toNat_ofNat', UInt8.toNat_ofNat']
    interval_cases n <;> rfl
  have hcfg : bleFrameCfg ModeManagement.init.cfgFrame (copyIn (fun _ => 0) 0 bytes)
      (UInt8.ofNat bytes.length / UInt8.ofNat frameCfgWindowsBleSize * UInt8.ofNat frameCfgWindowsBleSize) =
      (cfgRecords ModeManagement.init.cfgFrame (copyIn (fun _ => 0) 0 bytes) n, 1) := by
    have hmul : 5 * n % frameCfgWindowsBleSize = 0 := Nat.mul_mod_right 5 n
    have hdiv : 5 * n / frameCfgWindowsBleSize = n := Nat.mul_div_cancel_left n (by omega : 0 < 5)
    rw [bleFrameCfg, hsize, hdiv, if_neg (not_not.mpr hmul), if_neg (not_lt.mpr h.count_le)]
  simp only [reboot, slaveInit, hread, if_true, if_pos (hroom.mpr hle), hcfg, Option.some.injEq] at hb
  rw [← hb]
  dsimp only
  rw [cfgRecords_config, recordFor_congr i hbytes, SetCommand.config, h.count]
  rfl

theorem reboot_empty {a : App} (h : a.storage.frameCfg = none) (data : Nat → UInt8) :
    ∃ b, reboot a data = some b ∧ ∀ i, configOf (b.modeMngt.cfgFrame i) = Config.zero := by
  have hread : (frameConfigRead ⟨true, data, a.storage.frameCfg⟩).2 = ([], .notFound) :=
    frameConfigRead_none rfl h
  simp only [reboot, slaveInit, hread]
  exact ⟨_, rfl, fun _ => rfl⟩

theorem latest_concat (commands : List SetCommand) (c : SetCommand) (i : Window) :
    latest (commands ++ [c]) i = (c.config i).or (latest commands i) := by
  simp [latest]

/-- The table holds what the commands said last. -/
theorem run_remembers {commands : List SetCommand} {a : App}
    (h : run acknowledged fresh commands = some a) (i : Window) :
    configOf (a.modeMngt.cfgFrame i) = (latest commands i).getD Config.zero := by
  refine run_relates (R := fun (a : App) config => configOf (a.modeMngt.cfgFrame i) =
    config.getD Config.zero) (f := fun config c => (c.config i).or config) (t := none) ?_ rfl h
  intro a config c a' hconfig hc
  obtain ⟨n, hstored⟩ := acknowledged_stored hc
  rw [hstored.table, cfgRecords_config, hconfig, SetCommand.config, hstored.count]
  cases recordFor c.data i n with
  | none => rfl
  | some config => rfl

/-- A restart brings every window back exactly if the last command has at most four records, and each
window is recoverable. -/
theorem frame_config_survives_iff (commands : List SetCommand) (a : App) (data : Nat → UInt8)
    (h : run acknowledged fresh commands = some a) :
    Survives a data ↔ Restorable commands ∧ ∀ i, Recoverable commands i := by
  rcases List.eq_nil_or_concat commands with rfl | ⟨older, c, rfl⟩
  · obtain rfl : fresh = a := Option.some.inj h
    refine iff_of_true (reboot_empty rfl data) ⟨?_, ?_⟩
    · rintro c ⟨⟩
    · rintro i c ⟨⟩
  · have hremembers := run_remembers h
    rw [List.concat_eq_append] at h hremembers ⊢
    rw [run_concat] at h
    obtain ⟨mid, _, hc⟩ := Option.bind_eq_some_iff.mp h
    obtain ⟨n, hstored⟩ := acknowledged_stored hc
    have hrestorable : Restorable (older ++ [c]) ↔ n ≤ 4 := by
      simp [Restorable, hstored.count]
    have hwindow (i : Window) : (c.config i).getD Config.zero = configOf (a.modeMngt.cfgFrame i) ↔
        Recoverable (older ++ [c]) i := by
      rw [hremembers, Recoverable, List.getLast?_concat, latest_concat]
      cases hconfig : c.config i with
      | some config => simp [hconfig]
      | none =>
        cases latest older i with
        | none => simp
        | some config => simp [hconfig, eq_comm]
    rw [hrestorable, ← hstored.reboot_some_iff data, ← forall_congr' hwindow]
    constructor
    · rintro ⟨b, hb, hsame⟩
      exact ⟨⟨b, hb⟩, fun i => (hstored.reboot_config hb i).symm.trans (hsame i)⟩
    · rintro ⟨⟨b, hb⟩, hsame⟩
      exact ⟨b, hb, fun i => (hstored.reboot_config hb i).trans (hsame i)⟩

def setCommand (payload : List UInt8) : SetCommand :=
  ⟨fun k => payload.getD k 0, UInt16.ofNat payload.length, .none⟩

/-- Window 0 is configured, then window 1: the restart forgets window 0. -/
def oneAfterAnother : List SetCommand :=
  [setCommand [0x01, 0, 4, 0, 10, 0], setCommand [0x21, 0, 4, 0, 30, 0]]

theorem frame_config_lost :
    ¬ ∀ (commands : List SetCommand) (a : App) (data : Nat → UInt8),
      run acknowledged fresh commands = some a → Survives a data := by
  intro hall
  have hrun : ((run acknowledged fresh oneAfterAnother).bind fun a =>
      (reboot a (fun _ => 0)).map fun b =>
        (configOf (a.modeMngt.cfgFrame 0), configOf (b.modeMngt.cfgFrame 0))) =
        some (⟨1, 0, 1, 0, 4, 10⟩, Config.zero) := by decide
  obtain ⟨a, ha, hreboot⟩ := Option.bind_eq_some_iff.mp hrun
  obtain ⟨b, hb, hconfigs⟩ := Option.map_eq_some_iff.mp hreboot
  obtain ⟨b', hb', hsame⟩ := hall oneAfterAnother a (fun _ => 0) ha
  obtain rfl := Option.some.inj (hb.symm.trans hb')
  rw [Prod.mk.injEq] at hconfigs
  have hlost := hsame 0
  rw [hconfigs.1, hconfigs.2] at hlost
  exact absurd hlost (by decide)

/-- Both windows in one command survive. -/
theorem frame_config_survives_together :
    ∃ a, run acknowledged fresh [setCommand [0x01, 0, 4, 0, 10, 0x21, 0, 4, 0, 30, 0]] = some a ∧
      Survives a (fun _ => 0) := by
  have hsome :
      (run acknowledged fresh [setCommand [0x01, 0, 4, 0, 10, 0x21, 0, 4, 0, 30, 0]]).isSome = true := by
    decide
  obtain ⟨a, ha⟩ := Option.isSome_iff_exists.mp hsome
  refine ⟨a, ha, (frame_config_survives_iff _ a (fun _ => 0) ha).mpr ⟨?_, ?_⟩⟩
  · intro c hc
    have heq : setCommand [0x01, 0, 4, 0, 10, 0x21, 0, 4, 0, 30, 0] = c := Option.some.inj hc
    subst heq
    decide
  · intro i c hc hnone config hconfig
    have heq : setCommand [0x01, 0, 4, 0, 10, 0x21, 0, 4, 0, 30, 0] = c := Option.some.inj hc
    subst heq
    simp [latest, hnone] at hconfig

end SidFirmware.EsCommands
