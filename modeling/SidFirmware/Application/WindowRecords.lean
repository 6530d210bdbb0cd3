import SidFirmware.Foundation.Overwrites
import SidFirmware.Application.ModeManagement

/-! What `u8ModeMngt_BleFrameCfg` makes of its bytes: records of one window each, which
overwrite the table in their order. -/
namespace SidFirmware.ModeManagement
open Memory Overwrites

structure WindowRecord where
  window : Nat
  mode : Nat
  cmd : Nat
  dimming : Int8
  tagType : Nat
  time : Nat

/-- The fields of the first byte are its bits 7..5, 4 and 3..0; the dimming is signed, and the
period has its high byte first. -/
def readRecord (data : Nat → UInt8) (offset : Nat) : WindowRecord where
  window := (data offset).toNat / 32
  mode := (data offset).toNat / 16 % 2
  cmd := (data offset).toNat % 16
  dimming := (data (offset + 1)).toInt8
  tagType := (data (offset + 2)).toNat
  time := 256 * (data (offset + 3)).toNat + (data (offset + 4)).toNat

/-- The first `n` records of the bytes at `data`. -/
def readRecords (data : Nat → UInt8) (n : Nat) : List WindowRecord :=
  (List.range n).map fun k => readRecord data (5 * k)

/-- The window that a record is for; the indices 5..7 name none. -/
def WindowRecord.key (r : WindowRecord) : Option Window :=
  if h : r.window < frameCfgNumber then some ⟨r.window, h⟩ else none

/-- The entry that a record leaves: it keeps the flag `u8TimeToSend` only. -/
def WindowRecord.put (r : WindowRecord) (c : FrameCfg) : FrameCfg where
  windowsNb := UInt8.ofNat r.window
  active := if r.cmd = 0 then 0 else 1
  mode := UInt8.ofNat r.mode
  cmd := UInt8.ofNat r.cmd
  dimming := r.dimming.toUInt8
  tagType := UInt8.ofNat r.tagType
  time := UInt16.ofNat r.time
  u8TimeToSend := c.u8TimeToSend
  u16TimeToSend := 0

theorem bWindowsNb_toNat (b : UInt8) : (bWindowsNb b).toNat = b.toNat / 32 := by
  rw [bWindowsNb, UInt8.toNat_shiftRight, Nat.shiftRight_eq_div_pow]
  rfl

theorem bTransmissionMode_toNat (b : UInt8) : (bTransmissionMode b).toNat = b.toNat / 16 % 2 := by
  rw [bTransmissionMode, UInt8.toNat_and, UInt8.toNat_shiftRight]
  change b.toNat >>> 4 &&& 1 = _
  rw [Nat.and_one_is_mod, Nat.shiftRight_eq_div_pow]

theorem bCmdNb_toNat (b : UInt8) : (bCmdNb b).toNat = b.toNat % 16 := by
  rw [bCmdNb, UInt8.toNat_and]
  exact Nat.and_two_pow_sub_one_eq_mod b.toNat 4

theorem bCmdNb_eq_zero_iff (b : UInt8) : bCmdNb b = 0 ↔ b.toNat % 16 = 0 := by
  rw [← bCmdNb_toNat, ← UInt8.toNat_inj]
  rfl

/-- What the source stores field by field is the record. -/
theorem applyRecord_eq_put (c : FrameCfg) (data : Nat → UInt8) (offset : Nat) :
    applyRecord c data offset = (readRecord data offset).put c := by
  have htime : UInt16.ofNat (uint16 (data (offset + 4)) (data (offset + 3))) =
      UInt16.ofNat (256 * (data (offset + 3)).toNat + (data (offset + 4)).toNat) := by
    rw [uint16, Nat.add_comm]
  simp only [applyRecord, WindowRecord.put, readRecord, bCmdNb_eq_zero_iff, htime, UInt8.toUInt8_toInt8,
    ← bWindowsNb_toNat, ← bTransmissionMode_toNat, ← bCmdNb_toNat, UInt8.ofNat_toNat]

/-- A record leaves nothing of an earlier one for its window. -/
theorem WindowRecord.put_put (r r' : WindowRecord) (c : FrameCfg) : r'.put (r.put c) = r'.put c := rfl

theorem readRecords_succ (data : Nat → UInt8) (n : Nat) :
    readRecords data (n + 1) = readRecords data n ++ [readRecord data (5 * n)] := by
  rw [readRecords, List.range_succ, List.map_append]
  rfl

/-- The loop overwrites the table by one record after the other. -/
theorem cfgRecords_eq_foldl (t : Table) (data : Nat → UInt8) (n : Nat) :
    cfgRecords t data n = (readRecords data n).foldl (overwrite WindowRecord.key WindowRecord.put) t := by
  induction n with
  | zero => rfl
  | succ n ih =>
    rw [readRecords_succ, List.foldl_append, List.foldl_cons, List.foldl_nil, ← ih, cfgRecords]
    have hnb : (bWindowsNb (data (frameCfgWindowsBleSize * n))).toNat = (readRecord data (5 * n)).window :=
      bWindowsNb_toNat _
    by_cases hw : (bWindowsNb (data (frameCfgWindowsBleSize * n))).toNat < frameCfgNumber
    · have hkey : (readRecord data (5 * n)).key = some ⟨_, hw⟩ := by
        have hw' : (readRecord data (5 * n)).window < frameCfgNumber := hnb ▸ hw
        rw [WindowRecord.key, dif_pos hw']
        exact congrArg some (Fin.ext hnb.symm)
      rw [dif_pos hw, applyRecord_eq_put, overwrite, hkey]
      rfl
    · have hkey : (readRecord data (5 * n)).key = none := by
        have hw' : ¬ (readRecord data (5 * n)).window < frameCfgNumber := hnb ▸ hw
        rw [WindowRecord.key, dif_neg hw']
      rw [dif_neg hw, overwrite, hkey]

/-- Whether the bytes are taken: they are whole records, for five windows at most. -/
theorem bleFrameCfg_cases (t : Table) (data : Nat → UInt8) (size : UInt8) :
    ((5 ∣ size.toNat ∧ size.toNat / 5 ≤ 5) ∧
      bleFrameCfg t data size = (cfgRecords t data (size.toNat / 5), 1)) ∨
    (¬ (5 ∣ size.toNat ∧ size.toNat / 5 ≤ 5) ∧ bleFrameCfg t data size = (t, 0)) := by
  by_cases hrem : size.toNat % frameCfgWindowsBleSize ≠ 0
  · refine Or.inr ⟨fun h => hrem (Nat.mod_eq_zero_of_dvd h.1), ?_⟩
    rw [bleFrameCfg, if_pos hrem]
  · have hdvd := Nat.dvd_of_mod_eq_zero (not_not.mp hrem)
    by_cases hmany : size.toNat / frameCfgWindowsBleSize > frameCfgNumber
    · refine Or.inr ⟨fun h => absurd h.2 (not_le.mpr hmany), ?_⟩
      rw [bleFrameCfg, if_neg hrem, if_pos hmany]
    · refine Or.inl ⟨⟨hdvd, not_lt.mp hmany⟩, ?_⟩
      rw [bleFrameCfg, if_neg hrem, if_neg hmany]
      rfl

/-- What is taken leaves in each window's entry the last record for it. -/
theorem bleFrameCfg_apply {size : UInt8} (h : 5 ∣ size.toNat ∧ size.toNat / 5 ≤ 5) (t : Table)
    (data : Nat → UInt8) (i : Window) :
    (bleFrameCfg t data size).1 i =
      (lastFor WindowRecord.key i (readRecords data (size.toNat / 5))).elim (t i) fun r => r.put (t i) := by
  obtain ⟨_, hcfg⟩ | ⟨hsize, _⟩ := bleFrameCfg_cases t data size
  · rw [hcfg, cfgRecords_eq_foldl]
    exact foldl_overwrite (fun r r' c => WindowRecord.put_put r r' c) t _ i
  · exact absurd h hsize

/-- No configuration touches the flag. -/
theorem bleFrameCfg_flag (t : Table) (data : Nat → UInt8) (size : UInt8) (i : Window) :
    ((bleFrameCfg t data size).1 i).u8TimeToSend = (t i).u8TimeToSend := by
  obtain ⟨hsize, _⟩ | ⟨_, hcfg⟩ := bleFrameCfg_cases t data size
  · rw [bleFrameCfg_apply hsize]
    cases lastFor WindowRecord.key i (readRecords data (size.toNat / 5)) with
    | none => rfl
    | some r => rfl
  · rw [hcfg]

/-- `u8ModeMngt_BleFrameCfg` takes whole records for five windows at most, and lets the last
record for a window win; what it does not take, or does not name, it leaves alone. -/
theorem window_records_decoded (t : Table) (data : Nat → UInt8) (size : UInt8) :
    ((bleFrameCfg t data size).2 = 1 ↔ 5 ∣ size.toNat ∧ size.toNat / 5 ≤ 5) ∧
    ((bleFrameCfg t data size).2 ≠ 1 → bleFrameCfg t data size = (t, 0)) ∧
    ((bleFrameCfg t data size).2 = 1 →
      (bleFrameCfg t data size).1 =
        (readRecords data (size.toNat / 5)).foldl (overwrite WindowRecord.key WindowRecord.put) t ∧
      ∀ i, (bleFrameCfg t data size).1 i =
        (lastFor WindowRecord.key i (readRecords data (size.toNat / 5))).elim (t i) fun r => r.put (t i)) := by
  obtain ⟨hsize, hcfg⟩ | ⟨hsize, hcfg⟩ := bleFrameCfg_cases t data size
  · have happly := bleFrameCfg_apply hsize t data
    rw [hcfg] at happly ⊢
    exact ⟨iff_of_true rfl hsize, fun h => absurd rfl h, fun _ => ⟨cfgRecords_eq_foldl t data _, happly⟩⟩
  · rw [hcfg]
    have hzero : ¬ (0 : UInt8) = 1 := by decide
    exact ⟨iff_of_false hzero hsize, fun _ => rfl, fun h => absurd h hzero⟩

end SidFirmware.ModeManagement
