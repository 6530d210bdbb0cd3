import SidFirmware.Foundation.Runs
import SidFirmware.Application.ModeManagement

/-! Which windows transmit. The flag `u8TimeToSend` outlives the call that raised it
when the command has no builder, and no configuration clears it; a later call that
sends for any other window then sends for that one too. -/
namespace SidFirmware.ModeManagement
open Memory FrameBuilder Runs

def Due (c : FrameCfg) (old now : UInt32) : Prop :=
  c.active = 1 ∧ c.mode = 0 ∧ c.time.toNat ≤ (now - old).toNat

instance (c : FrameCfg) (old now : UInt32) : Decidable (Due c old now) :=
  inferInstanceAs (Decidable (_ ∧ _))

/-- Every frame of the call is for a window that is due, and fits the local buffer. -/
def OnlyDue (s : ModeMngt) : Event → Prop
  | .bleFrameCfg _ _ => True
  | .frameProcess now e => ∀ f ∈ (frameProcess s now e).2,
      Due (s.cfgFrame f.window) (s.oldTime f.window) now ∧ f.data.length ≤ frameSizeMax

/-- The call comes at the time of the one before, or no timer has run out, or each window
whose flag is up from an earlier call and whose command has a builder is due itself. -/
def NoLeftover (s : ModeMngt) : Event → Prop
  | .bleFrameCfg _ _ => True
  | .frameProcess now _ =>
    now = s.prevTime ∨ (∀ i, ¬ TimerElapsed (s.cfgFrame i) (s.oldTime i) now) ∨
      ∀ i, (s.cfgFrame i).u8TimeToSend = 1 → Buildable (s.cfgFrame i).cmd →
        Due (s.cfgFrame i) (s.oldTime i) now

def Commanded (t : Table) : Prop := ∀ i, (t i).active = 1 → (t i).cmd ≠ 0

theorem TimerElapsed.due {c : FrameCfg} {old now : UInt32} (h : TimerElapsed c old now) :
    Due c old now := by
  obtain ⟨hactive, hmode, htime⟩ := h
  refine ⟨hactive, hmode, ?_⟩
  have hle := UInt16.le_iff_toNat_le.mp htime
  rw [UInt32.toNat_toUInt16] at hle
  exact hle.trans (Nat.mod_le _ _)

theorem checkTimers_flag (s : ModeMngt) (now : UInt32) (i : Window) :
    ((checkTimers s now).cfgFrame i).u8TimeToSend = 1 ↔
      (s.cfgFrame i).u8TimeToSend = 1 ∨ TimerElapsed (s.cfgFrame i) (s.oldTime i) now := by
  simp only [checkTimers, checkTimer, TimerElapsed]
  split_ifs <;> simp_all

theorem checkTimers_cmd (s : ModeMngt) (now : UInt32) (i : Window) :
    ((checkTimers s now).cfgFrame i).cmd = (s.cfgFrame i).cmd := by
  simp only [checkTimers, checkTimer]
  split_ifs <;> rfl

theorem checkTimers_active (s : ModeMngt) (now : UInt32) (i : Window) :
    ((checkTimers s now).cfgFrame i).active = (s.cfgFrame i).active := by
  simp only [checkTimers, checkTimer]
  split_ifs <;> rfl

def Sendable (c : FrameCfg) : Prop := c.u8TimeToSend = 1 ∧ Buildable c.cmd

/-- One turn of the second loop. -/
theorem sendWindow_cases (e : Surroundings) (s : ModeMngt) (fs : List RFFrame) (i : Window) :
    (Sendable (s.cfgFrame i) ∧ ∃ data, data.length = payloadSize (s.cfgFrame i).cmd + 2 ∧
      sendWindow e (s, fs) i =
        ({ s with
            cfgFrame := Function.update s.cfgFrame i { s.cfgFrame i with u8TimeToSend := 0 }
            periodicTx := s.periodicTx + 1 }, fs ++ [⟨i, data⟩])) ∨
    (¬ Sendable (s.cfgFrame i) ∧ sendWindow e (s, fs) i = (s, fs)) := by
  by_cases hflag : (s.cfgFrame i).u8TimeToSend = 1
  · have hnone := payloadGet_none_iff (s.cfgFrame i).cmd ⟨e.sensors, e.address, s.periodicTx⟩
    by_cases hbuild : Buildable (s.cfgFrame i).cmd
    · refine Or.inl ⟨⟨hflag, hbuild⟩, (s.cfgFrame i).tagType :: (s.cfgFrame i).dimming ::
        (payloadGet (s.cfgFrame i).cmd ⟨e.sensors, e.address, s.periodicTx⟩).1, ?_, ?_⟩
      · simp [payloadGet_length]
      · simp only [sendWindow, if_pos hflag, if_pos (hnone.mpr hbuild)]
    · refine Or.inr ⟨fun h => hbuild h.2, ?_⟩
      simp only [sendWindow, if_pos hflag, if_neg (fun h => hbuild (hnone.mp h))]
  · refine Or.inr ⟨fun h => hflag h.1, ?_⟩
    simp only [sendWindow, if_neg hflag]

/-- The second loop over the windows `l` sends exactly for the sendable ones among them. -/
theorem sendWindow_fold (e : Surroundings) (s : ModeMngt) (fs : List RFFrame) {l : List Window}
    (hl : l.Nodup) :
    ∃ sent, (l.foldl (sendWindow e) (s, fs)).2 = fs ++ sent ∧
      (∀ f ∈ sent, f.window ∈ l ∧ Sendable (s.cfgFrame f.window) ∧
        f.data.length = payloadSize (s.cfgFrame f.window).cmd + 2) ∧
      ∀ i ∈ l, Sendable (s.cfgFrame i) → ∃ f ∈ sent, f.window = i := by
  induction l generalizing s fs with
  | nil => exact ⟨[], by simp, by simp, by simp⟩
  | cons i l ih =>
    obtain ⟨hi, hl⟩ := List.nodup_cons.mp hl
    rw [List.foldl_cons]
    rcases sendWindow_cases e s fs i with ⟨hsend, data, hdata, hrun⟩ | ⟨hsend, hrun⟩
    · rw [hrun]
      obtain ⟨sent, hfold, hsound, hcomplete⟩ := ih
        { s with
          cfgFrame := Function.update s.cfgFrame i { s.cfgFrame i with u8TimeToSend := 0 }
          periodicTx := s.periodicTx + 1 } (fs ++ [⟨i, data⟩]) hl
      have hkeep : ∀ j ∈ l, Function.update s.cfgFrame i { s.cfgFrame i with u8TimeToSend := 0 } j =
          s.cfgFrame j := by
        intro j hj
        have hne : j ≠ i := fun h => hi (h ▸ hj)
        exact Function.update_of_ne hne _ _
      refine ⟨⟨i, data⟩ :: sent, by rw [hfold, List.append_assoc]; rfl, ?_, ?_⟩
      · intro f hf
        rcases List.mem_cons.mp hf with rfl | hf
        · exact ⟨List.mem_cons_self, hsend, hdata⟩
        · obtain ⟨hmem, hs, hlen⟩ := hsound f hf
          simp only [hkeep _ hmem] at hs hlen
          exact ⟨List.mem_cons_of_mem i hmem, hs, hlen⟩
      · intro j hj hs
        rcases List.mem_cons.mp hj with rfl | hj
        · exact ⟨⟨j, data⟩, List.mem_cons_self, rfl⟩
        · obtain ⟨f, hf, hw⟩ := hcomplete j hj (by simpa only [hkeep j hj] using hs)
          exact ⟨f, List.mem_cons_of_mem _ hf, hw⟩
    · rw [hrun]
      obtain ⟨sent, hfold, hsound, hcomplete⟩ := ih s fs hl
      refine ⟨sent, hfold, ?_, ?_⟩
      · intro f hf
        obtain ⟨hmem, hrest⟩ := hsound f hf
        exact ⟨List.mem_cons_of_mem i hmem, hrest⟩
      · intro j hj hs
        rcases List.mem_cons.mp hj with rfl | hj
        · exact absurd hs hsend
        · exact hcomplete j hj hs

/-- What a call at a new time sends once some timer has run out. -/
theorem frameProcess_sends {s : ModeMngt} {now : UInt32} (e : Surroundings) (hnow : now ≠ s.prevTime)
    (helapsed : ∃ i, TimerElapsed (s.cfgFrame i) (s.oldTime i) now) :
    (∀ f ∈ (frameProcess s now e).2,
      ((s.cfgFrame f.window).u8TimeToSend = 1 ∨
          TimerElapsed (s.cfgFrame f.window) (s.oldTime f.window) now) ∧
        Buildable (s.cfgFrame f.window).cmd ∧
        f.data.length = payloadSize (s.cfgFrame f.window).cmd + 2) ∧
    ∀ i, (s.cfgFrame i).u8TimeToSend = 1 → Buildable (s.cfgFrame i).cmd →
      ∃ f ∈ (frameProcess s now e).2, f.window = i := by
  rw [frameProcess, if_pos hnow, if_pos helapsed]
  obtain ⟨sent, hfold, hsound, hcomplete⟩ :=
    sendWindow_fold e (checkTimers s now) [] (List.nodup_finRange frameCfgNumber)
  rw [List.nil_append] at hfold
  rw [hfold]
  refine ⟨?_, ?_⟩
  · intro f hf
    obtain ⟨_, ⟨hflag, hbuild⟩, hlen⟩ := hsound f hf
    rw [checkTimers_cmd] at hbuild hlen
    exact ⟨(checkTimers_flag s now _).mp hflag, hbuild, hlen⟩
  · intro i hflag hbuild
    apply hcomplete i (List.mem_finRange i)
    exact ⟨(checkTimers_flag s now i).mpr (Or.inl hflag), (checkTimers_cmd s now i).symm ▸ hbuild⟩

theorem Due.fits {t : Table} (ht : Commanded t) {i : Window} {old now : UInt32} (h : Due (t i) old now) :
    payloadSize (t i).cmd + 2 ≤ frameSizeMax := by
  have hle := payloadSize_le (ht i h.1)
  rw [frameSizeMax]
  omega

/-- One call sends for due windows only exactly if nothing is left over. -/
theorem onlyDue_iff {s : ModeMngt} (hs : Commanded s.cfgFrame) (ev : Event) :
    OnlyDue s ev ↔ NoLeftover s ev := by
  cases ev with
  | bleFrameCfg data size => exact Iff.rfl
  | frameProcess now e =>
    by_cases hnow : now = s.prevTime
    · have hquiet : (frameProcess s now e).2 = [] := by simp [frameProcess, hnow]
      rw [OnlyDue, hquiet]
      simp [NoLeftover, hnow]
    · by_cases helapsed : ∃ i, TimerElapsed (s.cfgFrame i) (s.oldTime i) now
      · obtain ⟨hsound, hcomplete⟩ := frameProcess_sends e hnow helapsed
        constructor
        · intro h
          refine Or.inr (Or.inr ?_)
          intro i hflag hbuild
          obtain ⟨f, hf, rfl⟩ := hcomplete i hflag hbuild
          exact (h f hf).1
        · rintro (h | h | h) f hf
          · exact absurd h hnow
          · obtain ⟨i, hi⟩ := helapsed
            exact absurd hi (h i)
          · obtain ⟨hwhy, hbuild, hlen⟩ := hsound f hf
            have hdue : Due (s.cfgFrame f.window) (s.oldTime f.window) now := by
              rcases hwhy with hflag | htimer
              · exact h f.window hflag hbuild
              · exact htimer.due
            exact ⟨hdue, hlen ▸ hdue.fits hs⟩
      · have hquiet : (frameProcess s now e).2 = [] := by simp [frameProcess, hnow, helapsed]
        have hnone : ∀ i, ¬ TimerElapsed (s.cfgFrame i) (s.oldTime i) now := not_exists.mp helapsed
        simp [OnlyDue, NoLeftover, hquiet, hnone]

theorem applyRecord_commanded (c : FrameCfg) (data : Nat → UInt8) (offset : Nat)
    (h : (applyRecord c data offset).active = 1) : (applyRecord c data offset).cmd ≠ 0 := by
  simp only [applyRecord] at h ⊢
  intro hcmd
  rw [if_pos hcmd] at h
  exact absurd h (by decide)

theorem Commanded.update {t : Table} (ht : Commanded t) (w : Window) {c : FrameCfg}
    (hc : c.active = 1 → c.cmd ≠ 0) : Commanded (Function.update t w c) := by
  intro i hactive
  by_cases hi : i = w
  · subst hi
    rw [Function.update_self] at hactive ⊢
    exact hc hactive
  · rw [Function.update_of_ne hi] at hactive ⊢
    exact ht i hactive

theorem cfgRecords_commanded {t : Table} (ht : Commanded t) (data : Nat → UInt8) (n : Nat) :
    Commanded (cfgRecords t data n) := by
  induction n with
  | zero => exact ht
  | succ n ih =>
    rw [cfgRecords]
    split
    · exact ih.update _ (applyRecord_commanded _ _ _)
    · exact ih

theorem bleFrameCfg_commanded {t : Table} (ht : Commanded t) (data : Nat → UInt8) (size : UInt8) :
    Commanded (bleFrameCfg t data size).1 := by
  rw [bleFrameCfg]
  split_ifs
  · exact ht
  · exact ht
  · exact cfgRecords_commanded ht data _

theorem sendWindow_commanded (e : Surroundings) {s : ModeMngt} (hs : Commanded s.cfgFrame)
    (fs : List RFFrame) (l : List Window) :
    Commanded (l.foldl (sendWindow e) (s, fs)).1.cfgFrame := by
  induction l generalizing s fs with
  | nil => exact hs
  | cons i l ih =>
    rw [List.foldl_cons]
    rcases sendWindow_cases e s fs i with ⟨_, data, _, hrun⟩ | ⟨_, hrun⟩
    · rw [hrun]
      have hcleared : Commanded (Function.update s.cfgFrame i { s.cfgFrame i with u8TimeToSend := 0 }) :=
        hs.update i (hs i)
      exact ih hcleared _
    · rw [hrun]
      exact ih hs fs

theorem checkTimers_commanded {s : ModeMngt} (hs : Commanded s.cfgFrame) (now : UInt32) :
    Commanded (checkTimers s now).cfgFrame := by
  intro i hactive
  rw [checkTimers_active] at hactive
  rw [checkTimers_cmd]
  exact hs i hactive

theorem step_commanded {s : ModeMngt} (hs : Commanded s.cfgFrame) (ev : Event) :
    Commanded (step s ev).cfgFrame := by
  cases ev with
  | bleFrameCfg data size => exact bleFrameCfg_commanded hs data size
  | frameProcess now e =>
    have hchecked := checkTimers_commanded hs now
    rw [step, frameProcess]
    split_ifs
    · exact sendWindow_commanded e hchecked [] _
    · exact hchecked
    · exact hs

theorem init_commanded : Commanded init.cfgFrame := by
  intro i hactive
  exact absurd hactive (by decide : ¬ (0 : UInt8) = 1)

/-- In every run, only due windows transmit exactly if no call finds a leftover flag. -/
theorem only_due_transmit_iff (events : List Event) :
    Along (returning step) OnlyDue init events ↔ Along (returning step) NoLeftover init events := by
  refine along_congr (I := fun s => Commanded s.cfgFrame) ?_ ?_ init_commanded events
  · rintro s ev s' hs hstep
    rw [← Option.some.inj hstep]
    exact step_commanded hs ev
  · exact fun s ev hs => onlyDue_iff hs ev

def bytes (bs : List UInt8) : Nat → UInt8 := fun k => bs.getD k 0

def quiet : Surroundings := ⟨⟨0, 0, 0, 0, 0, 0, 0, 0, 0, 0, 0, 0, 0, 0⟩, none⟩

/-- Window 0 has command 5 and period 10, window 1 command 1 and period 30; window 0 is
switched off after its timer ran out at 10. -/
def switchedOff : List Event :=
  [.bleFrameCfg (bytes [0x05, 0, 4, 0, 10, 0x21, 0, 4, 0, 30]) 10, .frameProcess 10 quiet,
    .bleFrameCfg (bytes [0x00, 0, 4, 0, 10]) 5]

/-- At 30 the inactive window 0 transmits, and 31 bytes at that. -/
theorem inactive_window_transmits :
    ¬ ∀ events : List Event, Along (returning step) OnlyDue init events := by
  intro hall
  have hsizes : (frameProcess (switchedOff.foldl step init) 30 quiet).2.map (fun f => f.data.length) =
      [31, 8] := by decide
  have hcall := (hall (switchedOff ++ [.frameProcess 30 quiet])).last (run_returning init switchedOff)
  obtain ⟨f, hf, hlen⟩ := List.mem_map.mp (hsizes ▸ List.mem_cons_self : 31 ∈ _)
  have hfits : f.data.length ≤ 22 := (hcall f hf).2
  omega

end SidFirmware.ModeManagement
