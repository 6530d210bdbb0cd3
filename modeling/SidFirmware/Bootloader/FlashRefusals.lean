import SidFirmware.Bootloader.FlashQueue

/-! Commands that the SoftDevice refuses. `queue_process` then sends an event and stays at the
operation, so what the other modules say is about runs in which this has not happened: until then
the queue does what it does on a SoftDevice that takes every command. -/
namespace SidFirmware.Bootloader.FlashQueue
variable {Src : Type} {port : Port Src} {s s' : State Src}

/-- No command has been refused so far. -/
def Granted (s : State Src) : Prop := ∀ r ∈ s.reports, r.2 ≠ .internal

def Port.granting (port : Port Src) : Port Src := { port with accepts := fun _ => true }

theorem granted_of_success (h : ∀ r ∈ s.reports, r.2 = .success) : Granted s := by
  intro r hr hrefused
  exact RetCode.noConfusion ((h r hr).symm.trans hrefused)

theorem Granted.before (h : Granted s') (hreports : s.reports <+: s'.reports) : Granted s :=
  fun r hr => h r (hreports.subset hr)

theorem queueProcess_reports (port : Port Src) (s : State Src) :
    s.reports <+: (queueProcess port s).reports := by
  unfold queueProcess
  dsimp only
  repeat' split
  all_goals first | exact List.prefix_rfl | exact List.prefix_append _ _

theorem queueStart_reports (port : Port Src) (s : State Src) : s.reports <+: (queueStart port s).reports := by
  unfold queueStart
  split
  · exact queueProcess_reports port s
  · exact List.prefix_rfl

theorem request_reports (port : Port Src) (s : State Src) (call : Call Src) :
    s.reports <+: (request port s call).1.reports := by
  unfold request
  cases check port call with
  | error rc => exact List.prefix_rfl
  | ok op =>
    dsimp only
    split
    · exact List.prefix_rfl
    · exact queueStart_reports port (enqueue s op)

theorem foldl_request_reports (port : Port Src) (s : State Src) (calls : List (Call Src)) :
    s.reports <+: (calls.foldl (fun s call => (request port s call).1) s).reports := by
  induction calls generalizing s with
  | nil => exact List.prefix_rfl
  | cons call calls ih => exact (request_reports port s call).trans (ih _)

theorem onOwn_reports (port : Port Src) (s : State Src) (success : Bool) (calls : List (Call Src)) :
    s.reports <+: (onOwn port s success calls).reports := by
  have hsame : (onOperation s success).1.reports = s.reports := by
    unfold onOperation
    dsimp only
    repeat' split
    all_goals rfl
  unfold onOwn
  dsimp only
  split
  · refine List.IsPrefix.trans ?_ (foldl_request_reports port _ calls)
    dsimp only
    rw [hsame]
    exact List.prefix_append _ _
  · rw [hsame]

theorem sysEvtHandler_reports (port : Port Src) (s : State Src) (success : Bool) (calls : List (Call Src)) :
    s.reports <+: (sysEvtHandler port s success calls).reports := by
  refine List.IsPrefix.trans ?_ (queueProcess_reports port _)
  split
  · exact onOwn_reports port s success calls
  · exact List.prefix_rfl

theorem complete_reports (s : State Src) (f : Flight Src) (success followed : Bool) :
    (complete s f success followed).reports = s.reports := by
  cases f <;> rfl

/-- Events that have been sent stay. -/
theorem step_reports {e : Event Src} (hs : step port s e = some s') : s.reports <+: s'.reports := by
  cases e with
  | call call =>
    cases hs
    exact request_reports port s call
  | done success followed calls =>
    obtain ⟨f, _, rfl⟩ := Option.map_eq_some_iff.mp hs
    rw [← complete_reports s f success followed]
    exact sysEvtHandler_reports port _ success calls
  | foreign =>
    rw [step] at hs
    split at hs
    · cases hs
    · cases hs
      exact List.prefix_rfl
  | ram ram =>
    cases hs
    exact List.prefix_rfl

theorem queueProcess_granting (h : Granted (queueProcess port s)) :
    queueProcess port.granting s = queueProcess port s := by
  unfold queueProcess at h ⊢
  split
  · rfl
  · rename_i hcnt
    rw [if_neg hcnt] at h
    by_cases haccepts : port.accepts (s.op s.rp).command = true
    · dsimp only
      rw [if_pos haccepts, if_pos (show port.granting.accepts (s.op s.rp).command = true from rfl)]
    · dsimp only at h
      rw [if_neg haccepts] at h
      exact absurd rfl (h _ (List.mem_append_right _ (List.mem_singleton_self _)))

theorem queueStart_granting (h : Granted (queueStart port s)) :
    queueStart port.granting s = queueStart port s := by
  unfold queueStart at h ⊢
  split
  · rename_i hidle
    rw [if_pos hidle] at h
    exact queueProcess_granting h
  · rfl

theorem request_granting {call : Call Src} (h : Granted (request port s call).1) :
    request port.granting s call = request port s call := by
  have hcheck : check port.granting call = check port call := by cases call <;> rfl
  unfold request at h ⊢
  rw [hcheck]
  cases hck : check port call with
  | error rc => rfl
  | ok op =>
    rw [hck] at h
    dsimp only at h ⊢
    split
    · rfl
    · rename_i hroom
      rw [if_neg hroom] at h
      rw [queueStart_granting h]

theorem foldl_request_granting {calls : List (Call Src)}
    (h : Granted (calls.foldl (fun s call => (request port s call).1) s)) :
    calls.foldl (fun s call => (request port.granting s call).1) s =
      calls.foldl (fun s call => (request port s call).1) s := by
  induction calls generalizing s with
  | nil => rfl
  | cons call calls ih =>
    rw [List.foldl_cons] at h ⊢
    rw [List.foldl_cons, request_granting (h.before (foldl_request_reports port _ calls))]
    exact ih h

theorem onOwn_granting {success : Bool} {calls : List (Call Src)} (h : Granted (onOwn port s success calls)) :
    onOwn port.granting s success calls = onOwn port s success calls := by
  unfold onOwn at h ⊢
  dsimp only at h ⊢
  split
  · rename_i hfinished
    rw [if_pos hfinished] at h
    exact foldl_request_granting h
  · rfl

theorem sysEvtHandler_granting {success : Bool} {calls : List (Call Src)}
    (h : Granted (sysEvtHandler port s success calls)) :
    sysEvtHandler port.granting s success calls = sysEvtHandler port s success calls := by
  have hbefore := h.before (queueProcess_reports port _)
  have hsame : (if s.ongoing then onOwn port.granting s success calls else { s with pending := false }) =
      if s.ongoing then onOwn port s success calls else { s with pending := false } := by
    split
    · rename_i hongoing
      rw [if_pos hongoing] at hbefore
      exact onOwn_granting hbefore
    · rfl
  rw [sysEvtHandler, hsame]
  exact queueProcess_granting h

/-- A step after which no command has been refused is one of a SoftDevice that takes them all. -/
theorem step_granting {e : Event Src} (hs : step port s e = some s') (h : Granted s') :
    step port.granting s e = some s' := by
  cases e with
  | call call =>
    cases hs
    rw [step, request_granting h]
  | done success followed calls =>
    obtain ⟨f, hf, rfl⟩ := Option.map_eq_some_iff.mp hs
    rw [step, hf, Option.map_some, sysEvtHandler_granting h]
  | foreign => exact hs
  | ram ram => exact hs

/-- An invariant of the steps over such a SoftDevice holds as long as no command is refused. -/
theorem run_granted {I : State Src → Prop} {p : State Src → Event Src → Prop}
    (hstep : ∀ s e s', I s → p s e → step port.granting s e = some s' → I s') (hI : I s)
    {es : List (Event Src)} (hp : Runs.Along (step port) p s es) (hr : Runs.run (step port) s es = some s')
    (h : Granted s') : I s' := by
  obtain ⟨t, ht, hI'⟩ := (hp.throughout_run (I := fun s => Granted s → I s)
    (fun s e s' hs hp hst hg => hstep s e s' (hs (hg.before (step_reports hst))) hp (step_granting hst hg))
    (fun _ => hI) hr).run
  obtain rfl := Option.some.inj (hr.symm.trans ht)
  exact hI' h

/-- What returns does not depend on the commands that are taken. -/
theorem step_returns {e : Event Src} (hs : step port.granting s e = some s') : ∃ t, step port s e = some t := by
  cases e with
  | call call => exact ⟨_, rfl⟩
  | done success followed calls =>
    obtain ⟨f, hf, _⟩ := Option.map_eq_some_iff.mp hs
    exact ⟨_, by rw [step, hf]; rfl⟩
  | foreign => exact ⟨_, hs⟩
  | ram ram => exact ⟨_, rfl⟩

/-- A run over a SoftDevice that takes every command is one over a SoftDevice that does not, or a command
is refused on the way. -/
theorem run_or_refused {es : List (Event Src)} (hr : Runs.run (step port.granting) s es = some s') :
    Runs.run (step port) s es = some s' ∨
      ∃ k ≤ es.length, ∃ t, Runs.run (step port) s (es.take k) = some t ∧ ¬ Granted t := by
  induction es generalizing s with
  | nil => exact Or.inl hr
  | cons e es ih =>
    obtain ⟨mid, hstep, hrest⟩ := Option.bind_eq_some_iff.mp hr
    obtain ⟨t, ht⟩ := step_returns hstep
    by_cases hg : Granted t
    · obtain rfl := Option.some.inj (hstep.symm.trans (step_granting ht hg))
      rw [Runs.run, ht]
      refine (ih hrest).imp id ?_
      rintro ⟨k, hk, u, hu, hrefused⟩
      exact ⟨k + 1, Nat.succ_le_succ hk, u, by rw [List.take_succ_cons, Runs.run, ht]; exact hu, hrefused⟩
    · refine Or.inr ⟨1, Nat.succ_le_succ (Nat.zero_le _), t, ?_, hg⟩
      rw [List.take_succ_cons, List.take_zero, Runs.run, ht]
      rfl

end SidFirmware.Bootloader.FlashQueue
