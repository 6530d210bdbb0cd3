import SidFirmware.Application.SidStorage

/-! `eMemory_Write` and `vMemoryEventHandler` of `Libraries/Memory.c`. Flash Data Storage
answers a request at once and completes it with an event, which may interrupt the call
between any two of its statements. -/
namespace SidFirmware.FlashMemory
open SidStorage

/-- `fds_evt_id_t`. -/
inductive FdsEvtId where
  | init
  | write
  | update
  | delRecord
  | delFile
  | gc
deriving DecidableEq

/-- `fds_evt_t`, with whether it completes the request of the call it interrupts. -/
structure FdsEvt where
  id : FdsEvtId
  success : Bool
  own : Bool
deriving DecidableEq

structure Flags where
  memoryInitialized : Bool
  pendingWrite : Bool
  pendingDelete : Bool

/-- `vMemoryEventHandler`. -/
def memoryEventHandler (f : Flags) (e : FdsEvt) : Flags :=
  match e.id with
  | .init => if e.success then { f with memoryInitialized := true } else f
  | .write | .update => if e.success then { f with pendingWrite := false } else f
  | .delRecord | .delFile => if e.success then { f with pendingDelete := false } else f
  | .gc => f

/-- `fds_record_t` over the address of its data. -/
structure FdsRecord where
  fileId : UInt16
  key : UInt16
  data : Nat
  lengthWords : Nat

/-- What Flash Data Storage answers to a search and to either request. -/
structure Fds where
  findInFile : UInt16 → Bool
  recordUpdate : FdsRecord → Bool
  recordWrite : FdsRecord → Bool

/-- The events that interrupt a call: between its request and the store to the flag, before
and after each test of the flag, and behind the loop. -/
structure Interrupts where
  onSubmit : List FdsEvt
  beforeTest : Nat → List FdsEvt
  afterTest : Nat → List FdsEvt
  onReturn : List FdsEvt

structure Poll where
  flags : Flags
  delivered : List FdsEvt

def Poll.deliver (p : Poll) (es : List FdsEvt) : Poll :=
  ⟨es.foldl memoryEventHandler p.flags, p.delivered ++ es⟩

/-- The loop that waits for the flag from its test `i` on, and the time it leaves. -/
def waitLoop (ints : Interrupts) : Nat → Nat → Poll → Poll × Nat
  | 0, _, p => (p, 0)
  | timeout + 1, i, p =>
    let p := p.deliver (ints.beforeTest i)
    if p.flags.pendingWrite then waitLoop ints timeout (i + 1) (p.deliver (ints.afterTest i))
    else (p, timeout + 1)

/-- `HW_TIMEOUT`. -/
def hwTimeout : Nat := 2000000

def record (fileId key : UInt16) (data : Nat) (byteNumber : UInt16) : FdsRecord :=
  ⟨fileId, key, data, (byteNumber.toNat + 3) / 4⟩

/-- The request is taken: an update if the file has a record, a first write if not. -/
def accepts (fds : Fds) (r : FdsRecord) : Bool :=
  if fds.findInFile r.fileId then fds.recordUpdate r else fds.recordWrite r

/-- `eMemory_Write`, with what was delivered until its loop ended. -/
def memoryWrite (timeout : Nat) (fds : Fds) (ints : Interrupts) (f : Flags) (r : FdsRecord) :
    Poll × MemoryErrCode :=
  if accepts fds r then
    let p := (Poll.mk f []).deliver ints.onSubmit
    let w := waitLoop ints timeout 0 { p with flags := { p.flags with pendingWrite := true } }
    (w.1, if w.2 = 0 then .busy else .none)
  else (⟨f, []⟩, .write)

def Clears (e : FdsEvt) : Prop := (e.id = .write ∨ e.id = .update) ∧ e.success = true

instance (e : FdsEvt) : Decidable (Clears e) := inferInstanceAs (Decidable (_ ∧ _))

def OwnDone (es : List FdsEvt) : Prop := ∃ e ∈ es, e.own = true ∧ Clears e

/-- The answer is the truth about the call's own request: success only if it was completed
with success, and success whenever that was before the time ran out. -/
structure Truthful (timeout : Nat) (fds : Fds) (ints : Interrupts) (f : Flags) (r : FdsRecord) : Prop where
  sound : (memoryWrite timeout fds ints f r).2 = .none →
    OwnDone ((memoryWrite timeout fds ints f r).1.delivered ++ ints.onReturn)
  complete : accepts fds r = true → OwnDone (memoryWrite timeout fds ints f r).1.delivered →
    (memoryWrite timeout fds ints f r).2 = .none

/-- What is delivered from before test `i` to the `k`-th test behind it. -/
def Interrupts.until (ints : Interrupts) (i : Nat) : Nat → List FdsEvt
  | 0 => ints.beforeTest i
  | k + 1 => ints.beforeTest i ++ ints.afterTest i ++ ints.until (i + 1) k

/-- What is delivered around the `n` tests from `i` on. -/
def Interrupts.around (ints : Interrupts) (i : Nat) : Nat → List FdsEvt
  | 0 => []
  | n + 1 => ints.beforeTest i ++ ints.afterTest i ++ ints.around (i + 1) n

/-- Some event among `es` takes the flag back. -/
def Cleared (es : List FdsEvt) : Prop := ∃ e ∈ es, Clears e

/-- The first test that finds the flag taken back, by whatever write, finds the call's own
write complete, or it completes before the call returns. Or no test finds the flag taken back,
and the call's own write was completed neither before the flag was set nor after the last
test. -/
def InTime (timeout : Nat) (ints : Interrupts) : Prop :=
  (∃ k < timeout, Cleared (ints.until 0 k) ∧ (∀ j < k, ¬ Cleared (ints.until 0 j)) ∧
      OwnDone (ints.onSubmit ++ ints.until 0 k ++ ints.onReturn)) ∨
    ((∀ k < timeout, ¬ Cleared (ints.until 0 k)) ∧ ¬ OwnDone ints.onSubmit ∧
      ∀ k, k + 1 = timeout → ¬ OwnDone (ints.afterTest k))

theorem pendingWrite_handler (f : Flags) (e : FdsEvt) :
    (memoryEventHandler f e).pendingWrite = true ↔ f.pendingWrite = true ∧ ¬ Clears e := by
  unfold memoryEventHandler Clears
  cases e.id <;> cases e.success <;> simp

/-- The flag survives exactly the events that do not take it back. -/
theorem pendingWrite_deliver (p : Poll) (es : List FdsEvt) :
    (p.deliver es).flags.pendingWrite = true ↔ p.flags.pendingWrite = true ∧ ¬ Cleared es := by
  unfold Poll.deliver Cleared
  induction es generalizing p with
  | nil => simp
  | cons e es ih =>
    have hrest := ih ⟨memoryEventHandler p.flags e, p.delivered ++ [e]⟩
    rw [List.foldl_cons]
    dsimp only at hrest ⊢
    rw [hrest, pendingWrite_handler, List.exists_mem_cons_iff, not_or, and_assoc]

@[simp] theorem cleared_append (es es' : List FdsEvt) :
    Cleared (es ++ es') ↔ Cleared es ∨ Cleared es' := by
  simp only [Cleared, List.mem_append, or_and_right, exists_or]

@[simp] theorem ownDone_append (es es' : List FdsEvt) :
    OwnDone (es ++ es') ↔ OwnDone es ∨ OwnDone es' := by
  simp only [OwnDone, List.mem_append, or_and_right, exists_or]

theorem OwnDone.cleared {es : List FdsEvt} (h : OwnDone es) : Cleared es := by
  obtain ⟨e, he, _, hc⟩ := h
  exact ⟨e, he, hc⟩

/-- The loop, entered behind the events `before`, ends at the first test that finds the flag
taken back, or with no time left. -/
theorem waitLoop_spec (ints : Interrupts) (timeout i : Nat) {p : Poll} {before : List FdsEvt}
    (h : p.flags.pendingWrite = true ↔ ¬ Cleared before) :
    (∃ k < timeout, Cleared (before ++ ints.until i k) ∧
      (∀ j < k, ¬ Cleared (before ++ ints.until i j)) ∧ (waitLoop ints timeout i p).2 ≠ 0 ∧
      (waitLoop ints timeout i p).1.delivered = p.delivered ++ ints.until i k) ∨
    ((∀ k < timeout, ¬ Cleared (before ++ ints.until i k)) ∧ (waitLoop ints timeout i p).2 = 0 ∧
      (waitLoop ints timeout i p).1.delivered = p.delivered ++ ints.around i timeout) := by
  induction timeout generalizing i p before with
  | zero => exact Or.inr ⟨fun k hk => absurd hk (Nat.not_lt_zero k), rfl, (List.append_nil _).symm⟩
  | succ timeout ih =>
    have htest : (p.deliver (ints.beforeTest i)).flags.pendingWrite = true ↔
        ¬ Cleared (before ++ ints.until i 0) := by
      rw [pendingWrite_deliver, h, Interrupts.until, cleared_append, not_or]
    by_cases hclear : Cleared (before ++ ints.until i 0)
    · have hend : waitLoop ints (timeout + 1) i p = (p.deliver (ints.beforeTest i), timeout + 1) := by
        rw [waitLoop, if_neg (fun hp => htest.mp hp hclear)]
      refine Or.inl ⟨0, Nat.succ_pos _, hclear, fun j hj => absurd hj (Nat.not_lt_zero j), ?_, ?_⟩
      · rw [hend]
        exact Nat.succ_ne_zero timeout
      · rw [hend]
        rfl
    · have hnext : waitLoop ints (timeout + 1) i p = waitLoop ints timeout (i + 1)
          ((p.deliver (ints.beforeTest i)).deliver (ints.afterTest i)) := by
        rw [waitLoop, if_pos (htest.mpr hclear)]
      have hentry : ((p.deliver (ints.beforeTest i)).deliver (ints.afterTest i)).flags.pendingWrite = true ↔
          ¬ Cleared (before ++ (ints.beforeTest i ++ ints.afterTest i)) := by
        rw [pendingWrite_deliver, htest, ← not_or, ← cleared_append, List.append_assoc]
        rfl
      have hshift : ∀ k, before ++ (ints.beforeTest i ++ ints.afterTest i) ++ ints.until (i + 1) k =
          before ++ ints.until i (k + 1) := fun k => List.append_assoc _ _ _
      rw [hnext]
      rcases ih (i + 1) hentry with ⟨k, hk, hcl, hfirst, htime, hdel⟩ | ⟨hnone, htime, hdel⟩
      · rw [hshift] at hcl
        refine Or.inl ⟨k + 1, Nat.succ_lt_succ hk, hcl, fun j hj => ?_, htime, ?_⟩
        · cases j with
          | zero => exact hclear
          | succ j =>
            rw [← hshift]
            exact hfirst j (Nat.lt_of_succ_lt_succ hj)
        · rw [hdel]
          simp only [Poll.deliver, Interrupts.until, List.append_assoc]
      · refine Or.inr ⟨fun j hj => ?_, htime, ?_⟩
        · cases j with
          | zero => exact hclear
          | succ j =>
            rw [← hshift]
            exact hnone j (Nat.lt_of_succ_lt_succ hj)
        · rw [hdel]
          simp only [Poll.deliver, Interrupts.around, List.append_assoc]

/-- An event that no test sees comes behind the last one. -/
theorem around_unseen (ints : Interrupts) {timeout i : Nat} (h : ∀ k < timeout, ¬ Cleared (ints.until i k)) :
    OwnDone (ints.around i timeout) ↔ ∃ k, k + 1 = timeout ∧ OwnDone (ints.afterTest (i + k)) := by
  induction timeout generalizing i with
  | zero => simp [Interrupts.around, OwnDone]
  | succ timeout ih =>
    have hbefore : ¬ OwnDone (ints.beforeTest i) := fun hd => h 0 (Nat.succ_pos _) hd.cleared
    have hlater : ∀ k < timeout, ¬ Cleared (ints.afterTest i) ∧ ¬ Cleared (ints.until (i + 1) k) := by
      intro k hk
      have hn := h (k + 1) (Nat.succ_lt_succ hk)
      rw [Interrupts.until, cleared_append, cleared_append, not_or, not_or] at hn
      exact ⟨hn.1.2, hn.2⟩
    rw [Interrupts.around, ownDone_append, ownDone_append, ih (fun k hk => (hlater k hk).2)]
    cases timeout with
    | zero => simp [hbefore]
    | succ timeout =>
      have hafter : ¬ OwnDone (ints.afterTest i) := fun hd => (hlater 0 (Nat.succ_pos _)).1 hd.cleared
      simp only [hbefore, hafter, or_self, false_or, Nat.add_right_cancel_iff]
      constructor
      · rintro ⟨k, hk, hd⟩
        exact ⟨k + 1, by omega, by rw [← Nat.add_assoc, Nat.add_right_comm]; exact hd⟩
      · rintro ⟨k, hk, hd⟩
        obtain ⟨k, rfl⟩ : ∃ j, k = j + 1 := ⟨k - 1, by omega⟩
        exact ⟨k, by omega, by rw [Nat.add_right_comm, Nat.add_assoc]; exact hd⟩

/-- How an accepted write ends. -/
theorem memoryWrite_spec {fds : Fds} {r : FdsRecord} (h : accepts fds r = true) (timeout : Nat)
    (ints : Interrupts) (f : Flags) :
    (∃ k < timeout, Cleared (ints.until 0 k) ∧ (∀ j < k, ¬ Cleared (ints.until 0 j)) ∧
      (memoryWrite timeout fds ints f r).2 = .none ∧
      (memoryWrite timeout fds ints f r).1.delivered = ints.onSubmit ++ ints.until 0 k) ∨
    ((∀ k < timeout, ¬ Cleared (ints.until 0 k)) ∧ (memoryWrite timeout fds ints f r).2 = .busy ∧
      (memoryWrite timeout fds ints f r).1.delivered = ints.onSubmit ++ ints.around 0 timeout) := by
  have hspec := @waitLoop_spec ints timeout 0
    ⟨{ (Poll.deliver ⟨f, []⟩ ints.onSubmit).flags with pendingWrite := true }, ints.onSubmit⟩ []
    (by simp [Cleared])
  simp only [List.nil_append] at hspec
  simp only [memoryWrite, h, if_true, Poll.deliver, List.nil_append] at hspec ⊢
  rcases hspec with ⟨k, hk, hcl, hfirst, htime, hdel⟩ | ⟨hnone, htime, hdel⟩
  · exact Or.inl ⟨k, hk, hcl, hfirst, if_neg htime, hdel⟩
  · exact Or.inr ⟨hnone, if_pos htime, hdel⟩

private theorem truthful_iff (timeout : Nat) (fds : Fds) (ints : Interrupts) (f : Flags) (r : FdsRecord) :
    Truthful timeout fds ints f r ↔ accepts fds r = true → InTime timeout ints := by
  by_cases hacc : accepts fds r = true
  · rcases memoryWrite_spec hacc timeout ints f with ⟨k, hk, hcl, hfirst, hans, hdel⟩ | ⟨hnone, hans, hdel⟩
    · constructor
      · intro h _
        have hown := h.sound hans
        rw [hdel] at hown
        exact Or.inl ⟨k, hk, hcl, hfirst, hown⟩
      · intro h
        refine ⟨fun _ => ?_, fun _ _ => hans⟩
        rcases h hacc with ⟨k', hk', hcl', hfirst', hown⟩ | ⟨hnone, _⟩
        · have hsame : k' = k := by
            rcases Nat.lt_trichotomy k' k with hlt | heq | hgt
            · exact absurd hcl' (hfirst k' hlt)
            · exact heq
            · exact absurd hcl (hfirst' k hgt)
          rw [hdel, ← hsame]
          exact hown
        · exact absurd hcl (hnone k hk)
    · have hown : OwnDone (memoryWrite timeout fds ints f r).1.delivered ↔
          OwnDone ints.onSubmit ∨ ∃ k, k + 1 = timeout ∧ OwnDone (ints.afterTest k) := by
        rw [hdel, ownDone_append, around_unseen ints hnone]
        simp only [Nat.zero_add]
      constructor
      · intro h _
        have hmiss : ¬ OwnDone (memoryWrite timeout fds ints f r).1.delivered := by
          intro hd
          have hok := h.complete hacc hd
          rw [hans] at hok
          cases hok
        rw [hown, not_or] at hmiss
        exact Or.inr ⟨hnone, hmiss.1, fun k hk hd => hmiss.2 ⟨k, hk, hd⟩⟩
      · intro h
        rcases h hacc with ⟨k, hk, hcl, _⟩ | ⟨_, hsubmit, hlast⟩
        · exact absurd hcl (hnone k hk)
        · refine ⟨fun hok => ?_, fun _ hd => ?_⟩
          · rw [hans] at hok
            cases hok
          · rcases hown.mp hd with hd | ⟨k, hk, hd⟩
            · exact absurd hd hsubmit
            · exact absurd hd (hlast k hk)
  · refine ⟨fun _ h => absurd h hacc, fun _ => ⟨fun hok => ?_, fun h => absurd h hacc⟩⟩
    rw [memoryWrite, if_neg hacc] at hok
    cases hok

/-- `eMemory_Write` tells the truth exactly if its request is refused, or the events come in
time. -/
theorem flash_write_truthful_iff (timeout : Nat) (fds : Fds) (ints : Interrupts) (f : Flags) (r : FdsRecord) :
    Truthful timeout fds ints f r ↔ accepts fds r = true → InTime timeout ints :=
  truthful_iff timeout fds ints f r

def willing : Fds := ⟨fun _ => false, fun _ => true, fun _ => true⟩

/-- The write of another user ends the wait. -/
def foreignFirst : Interrupts := ⟨[], fun _ => [⟨.write, true, false⟩], fun _ => [], []⟩

/-- The call's own write completes before the flag is set. -/
def ownEarly : Interrupts := ⟨[⟨.write, true, true⟩], fun _ => [], fun _ => [], []⟩

theorem flash_write_untruthful :
    ¬ Truthful hwTimeout willing foreignFirst ⟨true, false, false⟩ (record 0x2222 0x0220 0 6) ∧
      ¬ Truthful hwTimeout willing ownEarly ⟨true, false, false⟩ (record 0x2222 0x0220 0 6) := by
  have hunseen : ∀ i k, ¬ Cleared (ownEarly.until i k) := by
    intro i k
    induction k generalizing i with
    | zero => simp [Interrupts.until, ownEarly, Cleared]
    | succ k ih =>
      rw [Interrupts.until, cleared_append, not_or]
      exact ⟨by simp [ownEarly, Cleared], ih (i + 1)⟩
  constructor
  · rw [truthful_iff]
    intro h
    have hseen : Cleared (foreignFirst.until 0 0) := ⟨⟨.write, true, false⟩, by decide, by decide⟩
    rcases h rfl with ⟨k, _, _, hfirst, e, he, hown, _⟩ | ⟨hnone, _⟩
    · obtain rfl : k = 0 := by
        by_contra hk
        exact hfirst 0 (Nat.pos_of_ne_zero hk) hseen
      obtain rfl : e = ⟨.write, true, false⟩ := by simpa [foreignFirst, Interrupts.until] using he
      cases hown
    · exact hnone 0 (by decide) hseen
  · rw [truthful_iff]
    intro h
    rcases h rfl with ⟨k, _, hcl, _⟩ | ⟨_, hsubmit, _⟩
    · exact hunseen 0 k hcl
    · exact hsubmit ⟨⟨.write, true, true⟩, by decide, rfl, by decide⟩

end SidFirmware.FlashMemory
