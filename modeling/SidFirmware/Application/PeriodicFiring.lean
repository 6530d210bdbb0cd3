import SidFirmware.Foundation.Firings
import SidFirmware.Application.DueWindows
import SidFirmware.Application.WindowRecords

/-! One window in timer mode, looked at call after call. The elapsed time is a difference of two
32-bit times, of which `u16TimeToSend` keeps 16 bits. -/
namespace SidFirmware.ModeManagement
open Memory FrameBuilder Firings

def framesFor (i : Window) (frames : List RFFrame) : List RFFrame := frames.filter fun f => f.window = i

/-- The times at which a series of calls sends for a window, one for each frame. -/
def transmissions (i : Window) : ModeMngt → List (UInt32 × Surroundings) → List UInt32
  | _, [] => []
  | s, (now, e) :: calls =>
    (framesFor i (frameProcess s now e).2).map (fun _ => now) ++ transmissions i (frameProcess s now e).1 calls

def configured (cfgs : List ((Nat → UInt8) × UInt8)) : ModeMngt :=
  (cfgs.map fun c => Event.bleFrameCfg c.1 c.2).foldl step init

structure Timed (c : FrameCfg) (cmd : UInt8) (period : UInt16) : Prop where
  active : c.active = 1
  mode : c.mode = 0
  cmd : c.cmd = cmd
  time : c.time = period

/-- A timed window that last fired at `last`, and has nothing left to send. -/
structure Waiting (s : ModeMngt) (i : Window) (cmd : UInt8) (period : UInt16) (last : UInt32) : Prop where
  timed : Timed (s.cfgFrame i) cmd period
  flag : (s.cfgFrame i).u8TimeToSend ≠ 1
  old : s.oldTime i = last

def Elapsed (period : UInt16) (last t : UInt32) : Prop := period.toNat ≤ t.toNat - last.toNat

/-- What `u16TimeToSend` shows of it. -/
def Shown (period : UInt16) (last t : UInt32) : Prop := period ≤ (t - last).toUInt16

instance (period : UInt16) (last t : UInt32) : Decidable (Elapsed period last t) :=
  inferInstanceAs (Decidable (_ ≤ _))

instance (period : UInt16) (last t : UInt32) : Decidable (Shown period last t) :=
  inferInstanceAs (Decidable (_ ≤ _))

instance (c : FrameCfg) : Decidable (Sendable c) := inferInstanceAs (Decidable (_ ∧ _))

def NeverWraps (period : UInt16) (times : List UInt32) : Prop :=
  ∀ p ∈ observations (Elapsed period) 0 times,
    period.toNat ≤ p.2.toNat - p.1.toNat → period.toNat ≤ (p.2.toNat - p.1.toNat) % 65536

/-- The elapsed time that is shown is cut to 16 bits. -/
theorem shown_iff {period : UInt16} {last t : UInt32} (h : last.toNat ≤ t.toNat) :
    Shown period last t ↔ period.toNat ≤ (t.toNat - last.toNat) % 65536 := by
  rw [Shown, UInt16.le_iff_toNat_le, UInt32.toNat_toUInt16, UInt32.toNat_sub_of_le _ _
    (UInt32.le_iff_toNat_le.mpr h)]

/-- One turn of the second loop, as one window sees it. -/
theorem sendWindow_window (e : Surroundings) (s : ModeMngt) (fs : List RFFrame) (j i : Window) :
    (framesFor i (sendWindow e (s, fs) j).2).length =
      (framesFor i fs).length + (if i = j ∧ Sendable (s.cfgFrame i) then 1 else 0) ∧
    (sendWindow e (s, fs) j).1.cfgFrame i =
      (if i = j ∧ Sendable (s.cfgFrame i) then { s.cfgFrame i with u8TimeToSend := 0 } else s.cfgFrame i) ∧
    (sendWindow e (s, fs) j).1.oldTime = s.oldTime ∧ (sendWindow e (s, fs) j).1.prevTime = s.prevTime := by
  rcases sendWindow_cases e s fs j with ⟨hsend, data, -, hrun⟩ | ⟨hsend, hrun⟩
  · rw [hrun]
    refine ⟨?_, ?_, rfl, rfl⟩
    · by_cases hij : i = j
      · subst hij
        simp [framesFor, hsend]
      · have hne : j ≠ i := fun h => hij h.symm
        simp [framesFor, hij, hne]
    · by_cases hij : i = j
      · subst hij
        simp [hsend]
      · simp [hij]
  · have hnot : ¬ (i = j ∧ Sendable (s.cfgFrame i)) := by
      rintro ⟨rfl, hsendable⟩
      exact hsend hsendable
    rw [hrun, if_neg hnot, if_neg hnot]
    exact ⟨rfl, rfl, rfl, rfl⟩

/-- The second loop sends for each sendable window once, and takes its flag down. -/
theorem sendWindow_fold_window (e : Surroundings) (s : ModeMngt) (fs : List RFFrame) {l : List Window}
    (hl : l.Nodup) (i : Window) :
    (framesFor i (l.foldl (sendWindow e) (s, fs)).2).length =
      (framesFor i fs).length + (if i ∈ l ∧ Sendable (s.cfgFrame i) then 1 else 0) ∧
    (l.foldl (sendWindow e) (s, fs)).1.cfgFrame i =
      (if i ∈ l ∧ Sendable (s.cfgFrame i) then { s.cfgFrame i with u8TimeToSend := 0 } else s.cfgFrame i) ∧
    (l.foldl (sendWindow e) (s, fs)).1.oldTime = s.oldTime ∧
    (l.foldl (sendWindow e) (s, fs)).1.prevTime = s.prevTime := by
  induction l generalizing s fs with
  | nil => simp
  | cons j l ih =>
    obtain ⟨hj, hl⟩ := List.nodup_cons.mp hl
    obtain ⟨hframes, hentry, hold, hprev⟩ := sendWindow_window e s fs j i
    obtain ⟨hframes', hentry', hold', hprev'⟩ := ih (sendWindow e (s, fs) j).1 (sendWindow e (s, fs) j).2 hl
    rw [List.foldl_cons]
    refine ⟨hframes'.trans ?_, hentry'.trans ?_, hold'.trans hold, hprev'.trans hprev⟩
    · -- The window's own turn is the only one that counts.
      by_cases hij : i = j
      · subst hij
        simp [hframes, hj]
      · simp [hframes, hentry, hij]
    · by_cases hij : i = j
      · subst hij
        simp [hentry, hj]
      · simp [hentry, hij]

/-- The first loop keeps what the configuration has set. -/
theorem Timed.checkTimer {c : FrameCfg} {cmd : UInt8} {period : UInt16} (h : Timed c cmd period)
    (old now : UInt32) : Timed (checkTimer c old now) cmd period := by
  obtain ⟨hactive, hmode, hcmd, htime⟩ := h
  simp only [ModeManagement.checkTimer]
  split_ifs
  · exact ⟨hactive, hmode, hcmd, htime⟩
  · exact ⟨hactive, hmode, hcmd, htime⟩

theorem Waiting.timerElapsed_iff {s : ModeMngt} {i : Window} {cmd : UInt8} {period : UInt16}
    {last : UInt32} (h : Waiting s i cmd period last) (now : UInt32) :
    TimerElapsed (s.cfgFrame i) (s.oldTime i) now ↔ Shown period last now := by
  rw [TimerElapsed, h.timed.time, h.old]
  exact ⟨fun hel => hel.2.2, fun hshown => ⟨h.timed.active, h.timed.mode, hshown⟩⟩

/-- One call at a new time: a waiting window is sent for exactly if its period shows to be over,
and it waits again. -/
theorem Waiting.frameProcess {s : ModeMngt} {i : Window} {cmd : UInt8} {period : UInt16} {last now : UInt32}
    (h : Waiting s i cmd period last) (hcmd : Buildable cmd) (hnow : now ≠ s.prevTime) (e : Surroundings) :
    (framesFor i (frameProcess s now e).2).length = (if Shown period last now then 1 else 0) ∧
    Waiting (frameProcess s now e).1 i cmd period (if Shown period last now then now else last) ∧
    (frameProcess s now e).1.prevTime = now := by
  have htimed := h.timed.checkTimer (s.oldTime i) now
  have hflag : ((checkTimers s now).cfgFrame i).u8TimeToSend = 1 ↔ Shown period last now := by
    rw [checkTimers_flag, h.timerElapsed_iff now]
    exact or_iff_right h.flag
  have hsendable : Sendable ((checkTimers s now).cfgFrame i) ↔ Shown period last now := by
    rw [Sendable, hflag, checkTimers_cmd, h.timed.cmd]
    exact and_iff_left hcmd
  have hold : (checkTimers s now).oldTime i = if Shown period last now then now else last := by
    rw [← h.old]
    exact if_congr (h.old ▸ h.timerElapsed_iff now) rfl rfl
  rw [ModeManagement.frameProcess, if_pos hnow]
  by_cases hany : ∃ j, TimerElapsed (s.cfgFrame j) (s.oldTime j) now
  · rw [if_pos hany]
    obtain ⟨hframes, hentry, holdTime, hprev⟩ :=
      sendWindow_fold_window e (checkTimers s now) [] (List.nodup_finRange frameCfgNumber) i
    simp only [List.mem_finRange, true_and, hsendable] at hframes hentry
    refine ⟨?_, ⟨?_, ?_, ?_⟩, hprev⟩
    · rw [hframes]
      simp [framesFor]
    · rw [hentry]
      split
      · exact ⟨htimed.active, htimed.mode, htimed.cmd, htimed.time⟩
      · exact htimed
    · rw [hentry]
      split
      · exact (by decide : ¬ (0 : UInt8) = 1)
      · rename_i hshown
        exact fun hone => hshown (hflag.mp hone)
    · rw [holdTime, hold]
  · -- No timer at all has run out.
    have hshown : ¬ Shown period last now := fun hshown => hany ⟨i, (h.timerElapsed_iff now).mpr hshown⟩
    rw [if_neg hany, if_neg hshown, if_neg hshown]
    refine ⟨rfl, ⟨htimed, fun hone => hshown (hflag.mp hone), ?_⟩, rfl⟩
    rw [hold, if_neg hshown]

/-- A series of calls at growing times sends whenever the period shows to be over. -/
theorem Waiting.transmissions {s : ModeMngt} {i : Window} {cmd : UInt8} {period : UInt16} {last : UInt32}
    (h : Waiting s i cmd period last) (hcmd : Buildable cmd) {calls : List (UInt32 × Surroundings)}
    (htimes : (s.prevTime :: calls.map Prod.fst).Pairwise (· < ·)) :
    transmissions i s calls = firings (Shown period) last (calls.map Prod.fst) := by
  induction calls generalizing s last with
  | nil => rfl
  | cons call calls ih =>
    obtain ⟨now, e⟩ := call
    rw [List.map_cons, List.pairwise_cons] at htimes
    have hnow : now ≠ s.prevTime := (UInt32.ne_of_lt (htimes.1 now List.mem_cons_self)).symm
    obtain ⟨hframes, hwaiting, hprev⟩ := h.frameProcess hcmd hnow e
    have hrest := ih hwaiting (hprev.symm ▸ htimes.2)
    rw [ModeManagement.transmissions, hrest, List.map_const', hframes, List.map_cons, firings]
    split
    · rfl
    · rfl

/-- Configurations leave every flag down and every timer at zero. -/
theorem configured_idle (cfgs : List ((Nat → UInt8) × UInt8)) (i : Window) :
    ((configured cfgs).cfgFrame i).u8TimeToSend = 0 ∧ (configured cfgs).oldTime i = 0 ∧
      (configured cfgs).prevTime = 0 := by
  induction cfgs using List.reverseRecOn with
  | nil => exact ⟨rfl, rfl, rfl⟩
  | append_singleton cfgs c ih =>
    rw [configured, List.map_append, List.foldl_append]
    exact ⟨(bleFrameCfg_flag (configured cfgs).cfgFrame c.1 c.2 i).trans ih.1, ih.2⟩

/-- After any configurations from power-up, a window with a builder fires at exactly the observed
times at which its period is over, exactly if no such time hides behind the 16 bits. -/
theorem fires_when_elapsed_iff (cfgs : List ((Nat → UInt8) × UInt8)) (i : Window) {cmd : UInt8}
    {period : UInt16} (hwindow : Timed ((configured cfgs).cfgFrame i) cmd period)
    (hcmd : cmd = 1 ∨ cmd = 2 ∨ cmd = 3) (calls : List (UInt32 × Surroundings))
    (htimes : (0 :: calls.map Prod.fst).Pairwise (· < ·)) :
    transmissions i (configured cfgs) calls = firings (Elapsed period) 0 (calls.map Prod.fst) ↔
      NeverWraps period (calls.map Prod.fst) := by
  obtain ⟨hflag, hold, hprev⟩ := configured_idle cfgs i
  have hwaiting : Waiting (configured cfgs) i cmd period 0 := by
    refine ⟨hwindow, ?_, hold⟩
    rw [hflag]
    decide
  have hbuild : Buildable cmd := (buildable_iff cmd).mpr (Or.inr hcmd)
  have hnodup : (calls.map Prod.fst).Nodup :=
    (List.pairwise_cons.mp htimes).2.imp fun h => UInt32.ne_of_lt h
  rw [hwaiting.transmissions hbuild (hprev.symm ▸ htimes), firings_eq_iff hnodup]
  refine forall₂_congr fun p hp => ?_
  have hlt := UInt32.lt_iff_toNat_lt.mp (observations_rel htimes p hp)
  have hmod := Nat.mod_le (p.2.toNat - p.1.toNat) 65536
  rw [Elapsed, shown_iff hlt.le]
  exact ⟨Iff.mpr, fun h => ⟨fun hshown => hshown.trans hmod, h⟩⟩

/-- Window 0 with command 1 and period 10, looked at every five time units. -/
theorem fires_when_elapsed_iff_ten :
    transmissions 0 (configured [(bytes [0x01, 0, 4, 0, 10], 5)])
        [(5, quiet), (10, quiet), (15, quiet), (20, quiet)] =
      firings (Elapsed 10) 0 ([(5, quiet), (10, quiet), (15, quiet), (20, quiet)].map Prod.fst) ↔
      NeverWraps 10 ([(5, quiet), (10, quiet), (15, quiet), (20, quiet)].map Prod.fst) :=
  fires_when_elapsed_iff [(bytes [0x01, 0, 4, 0, 10], 5)] 0
    ⟨by decide, by decide, by decide, by decide⟩ (Or.inl rfl) _ (by decide)

/-- The longest period is over for one time unit only: looked at right before and right after it,
window 0 is not sent for. -/
theorem elapsed_period_skipped :
    ¬ ∀ (cfgs : List ((Nat → UInt8) × UInt8)) (i : Window) (cmd : UInt8) (period : UInt16)
        (calls : List (UInt32 × Surroundings)), Timed ((configured cfgs).cfgFrame i) cmd period →
      (cmd = 1 ∨ cmd = 2 ∨ cmd = 3) → (0 :: calls.map Prod.fst).Pairwise (· < ·) →
      transmissions i (configured cfgs) calls = firings (Elapsed period) 0 (calls.map Prod.fst) := by
  intro hall
  have hsends := hall [(bytes [0x01, 0, 4, 0xFF, 0xFF], 5)] 0 1 65535 [(65534, quiet), (65536, quiet)]
    ⟨by decide, by decide, by decide, by decide⟩ (Or.inl rfl) (by decide)
  exact absurd hsends (by decide)

end SidFirmware.ModeManagement
