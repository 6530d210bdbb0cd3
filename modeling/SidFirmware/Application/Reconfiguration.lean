import SidFirmware.Application.PeriodicFiring

/-! A window configured anew. `u8ModeMngt_BleFrameCfg` resets `u16TimeToSend`, but the elapsed time
is counted from `l_u32OldTime`, which no configuration touches, and `u8TimeToSend` stays up. -/
namespace SidFirmware.ModeManagement
open Memory FrameBuilder Overwrites Runs

/-- The record that a configuration leaves for a window, if it is taken and names the window. -/
def namedRecord (data : Nat → UInt8) (size : UInt8) (i : Window) : Option WindowRecord :=
  if 5 ∣ size.toNat ∧ size.toNat / 5 ≤ 5 then
    lastFor WindowRecord.key i (readRecords data (size.toNat / 5))
  else none

/-- The state after some calls from power-up; `prevTime` is the last time observed. -/
def reached (history : List Event) : ModeMngt := history.foldl step init

/-- What may follow the configuration of a window: configurations of others, and calls at times
that never go back. -/
def Continues (i : Window) (t0 : UInt32) (s : ModeMngt) : Event → Prop
  | .bleFrameCfg data size => namedRecord data size i = none
  | .frameProcess now _ => (s.prevTime - t0).toNat ≤ (now - t0).toNat

/-- The call sends nothing for the window when less than its period has passed since `t0`. -/
def NotEarly (i : Window) (t0 : UInt32) (period : Nat) (s : ModeMngt) : Event → Prop
  | .bleFrameCfg _ _ => True
  | .frameProcess now e => (now - t0).toNat < period → framesFor i (frameProcess s now e).2 = []

/-- Whatever follows, the window is not sent before one period has passed since `t0`. -/
def RestartsPeriod (i : Window) (t0 : UInt32) (period : Nat) (s : ModeMngt) : Prop :=
  ∀ events, Along (returning step) (Continues i t0) s events →
    Along (returning step) (NotEarly i t0 period) s events

def InStep (elapsed : UInt32) : Prop := elapsed.toNat % 65536 = 0 ∨ elapsed.toNat % 65536 = 65535

theorem bleFrameCfg_namedRecord (t : Table) (data : Nat → UInt8) (size : UInt8) (i : Window) :
    (bleFrameCfg t data size).1 i = (namedRecord data size i).elim (t i) fun r => r.put (t i) := by
  rw [namedRecord]
  obtain ⟨hsize, _⟩ | ⟨hsize, hcfg⟩ := bleFrameCfg_cases t data size
  · rw [if_pos hsize]
    exact bleFrameCfg_apply hsize t data i
  · rw [if_neg hsize, hcfg]
    rfl

theorem namedRecord_time_lt {data : Nat → UInt8} {size : UInt8} {i : Window} {r : WindowRecord}
    (h : namedRecord data size i = some r) : r.time < 65536 := by
  rw [namedRecord] at h
  split at h
  · obtain ⟨hmem, -⟩ := List.mem_filter.mp (List.mem_of_getLast? h)
    obtain ⟨k, -, rfl⟩ := List.mem_map.mp hmem
    have hhigh := (data (5 * k + 3)).toNat_lt
    have hlow := (data (5 * k + 4)).toNat_lt
    simp only [readRecord]
    omega
  · cases h

/-- The configuration sets all that a timed window needs. -/
theorem WindowRecord.timed_put {r : WindowRecord} (hmode : r.mode = 0) (hcmd : r.cmd ≠ 0) (c : FrameCfg) :
    Timed (r.put c) (UInt8.ofNat r.cmd) (UInt16.ofNat r.time) := by
  refine ⟨if_neg hcmd, ?_, rfl, rfl⟩
  rw [WindowRecord.put, hmode]
  rfl

theorem frameProcess_prevTime (s : ModeMngt) (now : UInt32) (e : Surroundings) :
    (frameProcess s now e).1.prevTime = now := by
  rw [frameProcess]
  split
  · split
    · exact (sendWindow_fold_window e (checkTimers s now) [] (List.nodup_finRange frameCfgNumber) 0).2.2.2
    · rfl
  · rename_i h
    exact (not_not.mp h).symm

theorem frameProcess_cmd (s : ModeMngt) (now : UInt32) (e : Surroundings) (i : Window) :
    ((frameProcess s now e).1.cfgFrame i).cmd = (s.cfgFrame i).cmd := by
  rw [frameProcess]
  split
  · split
    · rw [(sendWindow_fold_window e (checkTimers s now) [] (List.nodup_finRange frameCfgNumber) i).2.1]
      split
      · exact checkTimers_cmd s now i
      · exact checkTimers_cmd s now i
    · exact checkTimers_cmd s now i
  · rfl

/-- A call at the time of the one before does nothing. -/
theorem frameProcess_same {s : ModeMngt} {now : UInt32} (h : now = s.prevTime) (e : Surroundings) :
    frameProcess s now e = (s, []) := by
  rw [frameProcess, if_neg (not_not.mpr h)]

/-- A command without a builder is never sent. -/
theorem framesFor_unbuildable {s : ModeMngt} {i : Window} (h : ¬ Buildable (s.cfgFrame i).cmd)
    (now : UInt32) (e : Surroundings) : framesFor i (frameProcess s now e).2 = [] := by
  rw [frameProcess]
  split
  · split
    · have hframes :=
        (sendWindow_fold_window e (checkTimers s now) [] (List.nodup_finRange frameCfgNumber) i).1
      have hsend : ¬ Sendable ((checkTimers s now).cfgFrame i) := by
        rintro ⟨-, hbuild⟩
        exact h (checkTimers_cmd s now i ▸ hbuild)
      rw [if_neg fun hand => hsend hand.2] at hframes
      exact List.eq_nil_of_length_eq_zero hframes
    · rfl
  · rfl

/-- The time since the last firing, counted by way of `t0`. -/
theorem shown_mod (period : UInt16) (last t0 t : UInt32) :
    Shown period last t ↔ period.toNat ≤ ((t - t0).toNat + (t0 - last).toNat) % 65536 := by
  have hsplit : t - last = (t - t0) + (t0 - last) := by grind
  rw [Shown, UInt16.le_iff_toNat_le, UInt32.toNat_toUInt16, hsplit, UInt32.toNat_add]
  omega

/-- The rule for a run: `J` holds as long as the period is not over, and keeps the window quiet. -/
theorem restartsPeriod_of {J : ModeMngt → Prop} {i : Window} {t0 : UInt32} {period : Nat}
    (hcfg : ∀ s data size, J s → namedRecord data size i = none → J (step s (.bleFrameCfg data size)))
    (hcall : ∀ s now e, J s → now ≠ s.prevTime → 0 < (now - t0).toNat → (now - t0).toNat < period →
      framesFor i (frameProcess s now e).2 = [] ∧ J (frameProcess s now e).1) {s : ModeMngt} (h : J s) :
    RestartsPeriod i t0 period s := by
  have hstep : ∀ s now e, J s → (s.prevTime - t0).toNat ≤ (now - t0).toNat → (now - t0).toNat < period →
      framesFor i (frameProcess s now e).2 = [] ∧ J (frameProcess s now e).1 := by
    intro s now e hs hclock hlt
    by_cases hnow : now = s.prevTime
    · rw [frameProcess_same hnow]
      exact ⟨rfl, hs⟩
    · -- Of two times that differ, one at least is not `t0`.
      have hpos : 0 < (now - t0).toNat := by
        refine Nat.pos_of_ne_zero fun hzero => hnow ?_
        have hprev : s.prevTime - t0 = 0 := UInt32.toNat_inj.mp (Nat.le_zero.mp (hzero ▸ hclock))
        have hcur : now - t0 = 0 := UInt32.toNat_inj.mp hzero
        grind
      exact hcall s now e hs hnow hpos hlt
  intro events hcontinues
  refine hcontinues.imp (I := fun s => period ≤ (s.prevTime - t0).toNat ∨ J s) ?_ ?_ (Or.inr h)
  · rintro s ev s' hs hadmitted hrun
    rw [← Option.some.inj hrun]
    cases ev with
    | bleFrameCfg data size => exact hs.imp_right fun hJ => hcfg s data size hJ hadmitted
    | frameProcess now e =>
      rw [step, frameProcess_prevTime]
      by_cases hlt : (now - t0).toNat < period
      · have hJ := hs.resolve_left (not_le.mpr (hadmitted.trans_lt hlt))
        exact Or.inr (hstep s now e hJ hadmitted hlt).2
      · exact Or.inl (not_lt.mp hlt)
  · rintro s ev hs hadmitted
    cases ev with
    | bleFrameCfg data size => trivial
    | frameProcess now e =>
      intro hlt
      have hJ := hs.resolve_left (not_le.mpr (hadmitted.trans_lt hlt))
      exact (hstep s now e hJ hadmitted hlt).1

/-- A configuration that does not name the window leaves its entry alone. -/
theorem step_unnamed {data : Nat → UInt8} {size : UInt8} {i : Window} (h : namedRecord data size i = none)
    (s : ModeMngt) : (step s (.bleFrameCfg data size)).cfgFrame i = s.cfgFrame i := by
  have hentry := bleFrameCfg_namedRecord s.cfgFrame data size i
  rwa [h, Option.elim_none] at hentry

theorem step_named {data : Nat → UInt8} {size : UInt8} {i : Window} {r : WindowRecord}
    (h : namedRecord data size i = some r) (s : ModeMngt) :
    (step s (.bleFrameCfg data size)).cfgFrame i = r.put (s.cfgFrame i) := by
  have hentry := bleFrameCfg_namedRecord s.cfgFrame data size i
  rwa [h, Option.elim_some] at hentry

/-- Any first call may follow, whatever its time. -/
theorem continues_frameProcess (i : Window) (s : ModeMngt) (now : UInt32) (e : Surroundings) :
    Continues i s.prevTime s (.frameProcess now e) := by
  rw [Continues, UInt32.sub_self]
  exact Nat.zero_le _

/-- A window in step with `t0` waits out its period. -/
theorem Waiting.restartsPeriod {s : ModeMngt} {i : Window} {cmd : UInt8} {period : UInt16} {last t0 : UInt32}
    (h : Waiting s i cmd period last) (hcmd : Buildable cmd) (hstep : InStep (t0 - last)) :
    RestartsPeriod i t0 period.toNat s := by
  have hperiod := period.toNat_lt
  refine restartsPeriod_of (J := fun s => Waiting s i cmd period last) ?_ ?_ h
  · rintro s data size hs hnone
    have hentry := step_unnamed hnone s
    exact ⟨hentry ▸ hs.timed, hentry ▸ hs.flag, hs.old⟩
  · rintro s now e hs hnow hpos hlt
    have hshown : ¬ Shown period last now := by
      rw [shown_mod period last t0]
      rcases hstep with hzero | hshort
      · omega
      · omega
    obtain ⟨hframes, hwaiting, -⟩ := hs.frameProcess hcmd hnow e
    rw [if_neg hshown] at hframes hwaiting
    exact ⟨List.eq_nil_of_length_eq_zero hframes, hwaiting⟩

/-- A window that is out of step is sent early by a call at the right time. -/
theorem Waiting.sent_early {s : ModeMngt} {i : Window} {cmd : UInt8} {period : UInt16} {last : UInt32}
    (h : Waiting s i cmd period last) (hcmd : Buildable cmd) (hperiod : 1 < period.toNat)
    (hstep : ¬ InStep (s.prevTime - last)) : ¬ RestartsPeriod i s.prevTime period.toNat s := by
  have hlt := period.toNat_lt
  obtain ⟨hzero, hshort⟩ := not_or.mp hstep
  -- It is over at once, or when the count reaches the period.
  obtain ⟨wait, hpos, hwait, hover⟩ : ∃ wait, 0 < wait ∧ wait < period.toNat ∧
      period.toNat ≤ (wait + (s.prevTime - last).toNat) % 65536 := by
    by_cases hone : period.toNat ≤ (s.prevTime - last).toNat % 65536 + 1
    · exact ⟨1, by omega, by omega, by omega⟩
    · exact ⟨period.toNat - (s.prevTime - last).toNat % 65536, by omega, by omega, by omega⟩
  have hsince : (s.prevTime + UInt32.ofNat wait - s.prevTime).toNat = wait := by
    have hcancel : s.prevTime + UInt32.ofNat wait - s.prevTime = UInt32.ofNat wait := by grind
    rw [hcancel, UInt32.toNat_ofNat']
    omega
  have hnow : s.prevTime + UInt32.ofNat wait ≠ s.prevTime := by
    intro heq
    rw [heq, UInt32.sub_self] at hsince
    exact hpos.ne hsince
  have hshown : Shown period last (s.prevTime + UInt32.ofNat wait) := by
    rw [shown_mod period last s.prevTime, hsince]
    exact hover
  intro hrestarts
  have hadmitted : Along (returning step) (Continues i s.prevTime) s
      [.frameProcess (s.prevTime + UInt32.ofNat wait) quiet] := by
    rw [along_returning_cons]
    exact ⟨continues_frameProcess i s _ quiet, trivial⟩
  have hquiet := (along_returning_cons.mp (hrestarts _ hadmitted)).1 (hsince.symm ▸ hwait)
  have hframes := (h.frameProcess hcmd hnow quiet).1
  rw [hquiet, if_pos hshown] at hframes
  cases hframes

/-- A configuration of another window, with a period that is always over. -/
theorem exists_other (i : Window) :
    ∃ data j r, namedRecord data 5 i = none ∧ namedRecord data 5 j = some r ∧ r.mode = 0 ∧ r.cmd ≠ 0 ∧
      r.time = 0 := by
  by_cases hi : i = 0
  · subst hi
    exact ⟨bytes [0x21, 0, 0, 0, 0], 1, _, rfl, rfl, rfl, by decide, rfl⟩
  · have hnone : namedRecord (bytes [0x01, 0, 0, 0, 0]) 5 i = none := by
      have hkey : (readRecord (bytes [0x01, 0, 0, 0, 0]) 0).key ≠ some i :=
        fun h => hi (Option.some.inj h).symm
      have hlast : namedRecord (bytes [0x01, 0, 0, 0, 0]) 5 i =
          lastFor WindowRecord.key i ([] ++ [readRecord (bytes [0x01, 0, 0, 0, 0]) 0]) := rfl
      rw [hlast, lastFor_concat, if_neg hkey]
      rfl
    exact ⟨bytes [0x01, 0, 0, 0, 0], 0, _, hnone, rfl, rfl, by decide, rfl⟩

/-- A flag left up is sent with the next window that fires. -/
theorem leftover_sent_early {s : ModeMngt} {i : Window} {period : Nat}
    (hflag : (s.cfgFrame i).u8TimeToSend = 1) (hcmd : Buildable (s.cfgFrame i).cmd) (hperiod : 1 < period) :
    ¬ RestartsPeriod i s.prevTime period s := by
  obtain ⟨data, j, r, hnone, hother, hmode, hr, htime⟩ := exists_other i
  set s' := step s (.bleFrameCfg data 5)
  have hentry : s'.cfgFrame i = s.cfgFrame i := step_unnamed hnone s
  have hsince : (s.prevTime + 1 - s.prevTime).toNat = 1 := by
    have hcancel : s.prevTime + 1 - s.prevTime = 1 := by grind
    rw [hcancel]
    rfl
  have hnow : s.prevTime + 1 ≠ s'.prevTime := by
    intro heq
    have hprev : s'.prevTime = s.prevTime := rfl
    rw [heq, hprev, UInt32.sub_self] at hsince
    cases hsince
  have helapsed : TimerElapsed (s'.cfgFrame j) (s'.oldTime j) (s.prevTime + 1) := by
    have hput : s'.cfgFrame j = r.put (s.cfgFrame j) := step_named hother s
    have htimed := WindowRecord.timed_put hmode hr (s.cfgFrame j)
    rw [hput, TimerElapsed, htimed.time, htime]
    exact ⟨htimed.active, htimed.mode, UInt16.le_iff_toNat_le.mpr (Nat.zero_le _)⟩
  intro hrestarts
  have hadmitted : Along (returning step) (Continues i s.prevTime) s
      [.bleFrameCfg data 5, .frameProcess (s.prevTime + 1) quiet] := by
    rw [along_returning_cons, along_returning_cons]
    exact ⟨hnone, continues_frameProcess i s' _ quiet, trivial⟩
  have hquiet := (along_returning_cons.mp (along_returning_cons.mp (hrestarts _ hadmitted)).2).1
  have hframes := hquiet (hsince.symm ▸ hperiod)
  obtain ⟨f, hf, hwindow⟩ :=
    (frameProcess_sends quiet hnow ⟨j, helapsed⟩).2 i (hentry ▸ hflag) (hentry ▸ hcmd)
  have hmem : f ∈ framesFor i (frameProcess s' (s.prevTime + 1) quiet).2 :=
    List.mem_filter.mpr ⟨hf, decide_eq_true hwindow⟩
  rw [hframes] at hmem
  exact List.not_mem_nil hmem

/-- A window without a builder is never sent, and so never early. -/
theorem unbuildable_restarts {s : ModeMngt} {i : Window} {cmd : UInt8} {t0 : UInt32} {period : Nat}
    (h : (s.cfgFrame i).cmd = cmd) (hcmd : ¬ Buildable cmd) : RestartsPeriod i t0 period s := by
  refine restartsPeriod_of (J := fun s => (s.cfgFrame i).cmd = cmd) ?_ ?_ h
  · rintro s data size hs hnone
    exact (congrArg FrameCfg.cmd (step_unnamed hnone s)).trans hs
  · rintro s now e hs _ _ _
    exact ⟨framesFor_unbuildable (hs ▸ hcmd) now e, (frameProcess_cmd s now e i).trans hs⟩

/-- A period of one time unit leaves no new time before its end. -/
theorem short_restarts {s : ModeMngt} {i : Window} {t0 : UInt32} {period : Nat} (h : period ≤ 1) :
    RestartsPeriod i t0 period s := by
  refine restartsPeriod_of (J := fun _ => True) (fun _ _ _ _ _ => trivial) ?_ trivial
  rintro s now e - - hpos hlt
  omega

/-- A window configured in timer mode with a command waits out its period from the last observed
time on exactly if it has no builder, its period leaves no time in between, or its flag was down and
its timer in step. -/
theorem reconfiguration_restarts_iff (history : List Event) {data : Nat → UInt8} {size : UInt8} {i : Window}
    {r : WindowRecord} (hr : namedRecord data size i = some r) (hmode : r.mode = 0) (hcmd : r.cmd ≠ 0) :
    RestartsPeriod i (reached history).prevTime r.time (step (reached history) (.bleFrameCfg data size)) ↔
      ¬ Buildable (UInt8.ofNat r.cmd) ∨ r.time ≤ 1 ∨
        ((reached history).cfgFrame i).u8TimeToSend ≠ 1 ∧
          InStep ((reached history).prevTime - (reached history).oldTime i) := by
  set s := step (reached history) (.bleFrameCfg data size)
  have hentry : s.cfgFrame i = r.put ((reached history).cfgFrame i) := step_named hr (reached history)
  have htimed : Timed (s.cfgFrame i) (UInt8.ofNat r.cmd) (UInt16.ofNat r.time) :=
    hentry ▸ WindowRecord.timed_put hmode hcmd _
  have hflag : (s.cfgFrame i).u8TimeToSend = ((reached history).cfgFrame i).u8TimeToSend := by
    rw [hentry]
    rfl
  have htime : (UInt16.ofNat r.time).toNat = r.time := by
    rw [UInt16.toNat_ofNat']
    exact Nat.mod_eq_of_lt (namedRecord_time_lt hr)
  have hprev : s.prevTime = (reached history).prevTime := rfl
  rw [← hflag]
  constructor
  · intro hrestarts
    by_contra hnone
    obtain ⟨hbuild, hnone⟩ := not_or.mp hnone
    obtain ⟨hperiod, hready⟩ := not_or.mp hnone
    have hbuild := not_not.mp hbuild
    have hlong : 1 < r.time := not_le.mp hperiod
    by_cases hup : (s.cfgFrame i).u8TimeToSend = 1
    · exact leftover_sent_early hup (htimed.cmd ▸ hbuild) hlong hrestarts
    · have hout : ¬ InStep (s.prevTime - s.oldTime i) := fun hstep => hready ⟨hup, hstep⟩
      have hwaiting : Waiting s i (UInt8.ofNat r.cmd) (UInt16.ofNat r.time) (s.oldTime i) :=
        ⟨htimed, hup, rfl⟩
      have hearly := hwaiting.sent_early hbuild (htime.symm ▸ hlong) hout
      rw [htime] at hearly
      exact hearly hrestarts
  · rintro (hbuild | hperiod | ⟨hup, hstep⟩)
    · exact unbuildable_restarts htimed.cmd hbuild
    · exact short_restarts hperiod
    · by_cases hbuild : Buildable (UInt8.ofNat r.cmd)
      · have hwaiting : Waiting s i (UInt8.ofNat r.cmd) (UInt16.ofNat r.time) (s.oldTime i) :=
          ⟨htimed, hup, rfl⟩
        have hrestarts := hwaiting.restartsPeriod hbuild hstep
        rwa [htime] at hrestarts
      · exact unbuildable_restarts htimed.cmd hbuild

/-- Window 0 with command 1 and period 10, sent at time 10 and looked at again at time 14. -/
def sentAndObserved : List Event :=
  [.bleFrameCfg (bytes [0x01, 0, 4, 0, 10]) 5, .frameProcess 10 quiet, .frameProcess 14 quiet]

/-- Configured once more, it does not wait for time 24. -/
theorem reconfiguration_restarts_iff_sent :
    (reached sentAndObserved).oldTime 0 = 10 ∧ (reached sentAndObserved).prevTime = 14 ∧
      ¬ RestartsPeriod 0 (reached sentAndObserved).prevTime (readRecord (bytes [0x01, 0, 4, 0, 10]) 0).time
        (step (reached sentAndObserved) (.bleFrameCfg (bytes [0x01, 0, 4, 0, 10]) 5)) := by
  refine ⟨by decide, by decide, fun hrestarts => ?_⟩
  obtain hcmd | hperiod | ⟨_, hstep⟩ :=
    (reconfiguration_restarts_iff sentAndObserved rfl rfl (by decide)).mp hrestarts
  · exact hcmd (by decide)
  · exact absurd hperiod (by decide)
  · exact absurd hstep (by unfold InStep; decide)

/-- Window 0 is configured with period 10 after time 100 was observed, and sent at 101. -/
theorem sent_right_after_configuration :
    ¬ ∀ (history : List Event) (data : Nat → UInt8) (size : UInt8) (i : Window) (r : WindowRecord),
      namedRecord data size i = some r → r.mode = 0 → r.cmd ≠ 0 →
      RestartsPeriod i (reached history).prevTime r.time (step (reached history) (.bleFrameCfg data size)) := by
  intro hall
  have hrestarts := hall [.frameProcess 100 quiet] (bytes [0x01, 0, 4, 0, 10]) 5 0 _ rfl rfl (by decide)
  have hadmitted : Along (returning step) (Continues 0 (reached [.frameProcess 100 quiet]).prevTime)
      (step (reached [.frameProcess 100 quiet]) (.bleFrameCfg (bytes [0x01, 0, 4, 0, 10]) 5))
      [.frameProcess 101 quiet] := by
    rw [along_returning_cons]
    exact ⟨continues_frameProcess 0 (step (reached [.frameProcess 100 quiet]) _) 101 quiet, trivial⟩
  have hcall := (along_returning_cons.mp (hrestarts _ hadmitted)).1 (by decide)
  have hone : (framesFor 0 (frameProcess (step (reached [.frameProcess 100 quiet])
      (.bleFrameCfg (bytes [0x01, 0, 4, 0, 10]) 5)) 101 quiet).2).length = 1 := by decide
  rw [hcall] at hone
  cases hone

end SidFirmware.ModeManagement
