import Mathlib.Data.List.Basic
import Mathlib.Tactic

/-! Runs of a system that takes one step for each event; a step may fail to return.
The rules carry an invariant, or a relation to a second system, from one step to a
whole run. -/
namespace SidFirmware.Runs
variable {σ τ ε : Type}

def run (step : σ → ε → Option σ) (s : σ) : List ε → Option σ
  | [] => some s
  | e :: es => (step s e).bind fun s' => run step s' es

/-- `p` holds of every event of a run, in the state in which the event finds the system. -/
def Along (step : σ → ε → Option σ) (p : σ → ε → Prop) (s : σ) : List ε → Prop
  | [] => True
  | e :: es => p s e ∧ ∀ s', step s e = some s' → Along step p s' es

/-- All steps of a run return, and `p` holds in every state that it reaches. -/
def Throughout (step : σ → ε → Option σ) (p : σ → Prop) (s : σ) : List ε → Prop
  | [] => p s
  | e :: es => p s ∧ ∃ s', step s e = some s' ∧ Throughout step p s' es

def returning (step : σ → ε → σ) (s : σ) (e : ε) : Option σ := some (step s e)

variable {step : σ → ε → Option σ}

theorem run_append (s : σ) (as bs : List ε) :
    run step s (as ++ bs) = (run step s as).bind fun s' => run step s' bs := by
  induction as generalizing s with
  | nil => rfl
  | cons e as ih =>
    simp only [List.cons_append, run, Option.bind_assoc]
    congr 1
    funext s'
    exact ih s'

theorem run_concat (s : σ) (es : List ε) (e : ε) :
    run step s (es ++ [e]) = (run step s es).bind fun s' => step s' e := by
  simp [run_append, run]

/-- The stepwise reading of `Throughout`. -/
theorem throughout_iff {p : σ → Prop} {s : σ} {es : List ε} :
    Throughout step p s es ↔
      p s ∧ Along step (fun s e => ∃ s', step s e = some s' ∧ p s') s es := by
  induction es generalizing s with
  | nil => simp [Throughout, Along]
  | cons e es ih =>
    constructor
    · rintro ⟨hs, s', hstep, hrest⟩
      obtain ⟨hs', halong⟩ := ih.mp hrest
      refine ⟨hs, ⟨s', hstep, hs'⟩, fun s'' h => ?_⟩
      rwa [← Option.some.inj (hstep.symm.trans h)]
    · rintro ⟨hs, ⟨s', hstep, hs'⟩, hrest⟩
      exact ⟨hs, s', hstep, ih.mpr ⟨hs', hrest s' hstep⟩⟩

theorem Throughout.run {p : σ → Prop} {s : σ} {es : List ε} (h : Throughout step p s es) :
    ∃ s', Runs.run step s es = some s' ∧ p s' := by
  induction es generalizing s with
  | nil => exact ⟨s, rfl, h⟩
  | cons e es ih =>
    obtain ⟨_, s', hstep, hrest⟩ := h
    rw [Runs.run, hstep]
    exact ih hrest

theorem Throughout.mono {p q : σ → Prop} (hpq : ∀ s, p s → q s) {s : σ} {es : List ε}
    (h : Throughout step p s es) : Throughout step q s es := by
  induction es generalizing s with
  | nil => exact hpq s h
  | cons e es ih =>
    obtain ⟨hs, s', hstep, hrest⟩ := h
    exact ⟨hpq s hs, s', hstep, ih hrest⟩

theorem along_and {p q : σ → ε → Prop} {s : σ} {es : List ε} :
    Along step (fun s e => p s e ∧ q s e) s es ↔ Along step p s es ∧ Along step q s es := by
  induction es generalizing s with
  | nil => exact (and_self_iff).symm
  | cons e es ih =>
    simp only [Along, ih]
    constructor
    · rintro ⟨⟨hp, hq⟩, hrest⟩
      exact ⟨⟨hp, fun s' h => (hrest s' h).1⟩, hq, fun s' h => (hrest s' h).2⟩
    · rintro ⟨⟨hp, hps⟩, hq, hqs⟩
      exact ⟨⟨hp, hq⟩, fun s' h => ⟨hps s' h, hqs s' h⟩⟩

theorem along_append {p : σ → ε → Prop} {s : σ} {as bs : List ε} :
    Along step p s (as ++ bs) ↔
      Along step p s as ∧ ∀ s', run step s as = some s' → Along step p s' bs := by
  induction as generalizing s with
  | nil => simp [Along, run]
  | cons e as ih =>
    simp only [List.cons_append, Along, run, ih, Option.bind_eq_some_iff]
    constructor
    · rintro ⟨hp, hrest⟩
      refine ⟨⟨hp, fun mid hs => (hrest mid hs).1⟩, ?_⟩
      rintro s' ⟨mid, hs, hr⟩
      exact (hrest mid hs).2 s' hr
    · rintro ⟨⟨hp, has⟩, hbs⟩
      exact ⟨hp, fun mid hs => ⟨has mid hs, fun s' hr => hbs s' ⟨mid, hs, hr⟩⟩⟩

/-- A condition on the events alone. -/
theorem along_of_forall {c : ε → Prop} (s : σ) {es : List ε} (h : ∀ e ∈ es, c e) :
    Along step (fun _ e => c e) s es := by
  induction es generalizing s with
  | nil => trivial
  | cons e es ih =>
    rw [List.forall_mem_cons] at h
    exact ⟨h.1, fun s' _ => ih s' h.2⟩

/-- Conditions on a run can be evaluated. -/
instance decidableAlong {p : σ → ε → Prop} [∀ s e, Decidable (p s e)] :
    ∀ (s : σ) (es : List ε), Decidable (Along step p s es)
  | _, [] => .isTrue trivial
  | s, e :: es =>
    match hs : step s e with
    | none => decidable_of_iff (p s e) ⟨fun h => ⟨h, fun _ h' => nomatch hs.symm.trans h'⟩, And.left⟩
    | some s' =>
      have : Decidable (Along step p s' es) := decidableAlong s' es
      decidable_of_iff (p s e ∧ Along step p s' es)
        ⟨fun h => ⟨h.1, fun _ h' => Option.some.inj (hs.symm.trans h') ▸ h.2⟩, fun h => ⟨h.1, h.2 s' hs⟩⟩

instance decidableThroughout {p : σ → Prop} [DecidablePred p] :
    ∀ (s : σ) (es : List ε), Decidable (Throughout step p s es)
  | s, [] => inferInstanceAs (Decidable (p s))
  | s, e :: es =>
    match hs : step s e with
    | none => .isFalse fun ⟨_, _, h, _⟩ => nomatch hs.symm.trans h
    | some s' =>
      have : Decidable (Throughout step p s' es) := decidableThroughout s' es
      decidable_of_iff (p s ∧ Throughout step p s' es)
        ⟨fun h => ⟨h.1, s', hs, h.2⟩, fun ⟨h, _, h', hes⟩ => ⟨h, Option.some.inj (h'.symm.trans hs) ▸ hes⟩⟩

theorem Along.cons {p : σ → ε → Prop} {s s' : σ} {e : ε} {es : List ε} (hp : p s e)
    (hs : step s e = some s') (h : Along step p s' es) : Along step p s (e :: es) := by
  refine ⟨hp, fun s'' h'' => ?_⟩
  rwa [← Option.some.inj (hs.symm.trans h'')]

/-- Two conditions that agree on admitted events wherever an invariant of the steps that
meet the second holds, agree along a run of such events. -/
theorem along_congr_admitted {I : σ → Prop} {c : ε → Prop} {p q : σ → ε → Prop}
    (hstep : ∀ s e s', I s → c e → q s e → step s e = some s' → I s')
    (hiff : ∀ s e, I s → c e → (p s e ↔ q s e)) {s : σ} {es : List ε} (h : I s)
    (hc : ∀ e ∈ es, c e) : Along step p s es ↔ Along step q s es := by
  induction es generalizing s with
  | nil => exact Iff.rfl
  | cons e es ih =>
    rw [List.forall_mem_cons] at hc
    have hrest : q s e → ((∀ s', step s e = some s' → Along step p s' es) ↔
        ∀ s', step s e = some s' → Along step q s' es) := fun hq =>
      forall_congr' fun s' => imp_congr_right fun hs => ih (hstep s e s' h hc.1 hq hs) hc.2
    rw [Along, Along, hiff s e h hc.1]
    exact and_congr_right hrest

/-- Two conditions that agree wherever an invariant holds agree along a run. -/
theorem along_congr {I : σ → Prop} {p q : σ → ε → Prop}
    (hstep : ∀ s e s', I s → step s e = some s' → I s')
    (hiff : ∀ s e, I s → (p s e ↔ q s e)) {s : σ} (h : I s) (es : List ε) :
    Along step p s es ↔ Along step q s es :=
  along_congr_admitted (c := fun _ => True) (fun s e s' hs _ _ => hstep s e s' hs)
    (fun s e hs _ => hiff s e hs) h (fun _ _ => trivial)

/-- An invariant that admitted steps return to holds throughout an admitted run. -/
theorem Along.throughout {I : σ → Prop} {p : σ → ε → Prop}
    (hstep : ∀ s e, I s → p s e → ∃ s', step s e = some s' ∧ I s') {s : σ} {es : List ε} (h : I s)
    (ha : Along step p s es) : Throughout step I s es := by
  induction es generalizing s with
  | nil => exact h
  | cons e es ih =>
    obtain ⟨hp, hrest⟩ := ha
    obtain ⟨s', hs, h'⟩ := hstep s e h hp
    exact ⟨h, s', hs, ih h' (hrest s' hs)⟩

/-- A condition that follows from another wherever an invariant of the admitted steps holds. -/
theorem Along.imp {I : σ → Prop} {p q : σ → ε → Prop}
    (hstep : ∀ s e s', I s → p s e → step s e = some s' → I s')
    (himp : ∀ s e, I s → p s e → q s e) {s : σ} {es : List ε} (h : I s) (ha : Along step p s es) :
    Along step q s es := by
  induction es generalizing s with
  | nil => trivial
  | cons e es ih =>
    refine ⟨himp s e h ha.1, fun s' hs => ?_⟩
    exact ih (hstep s e s' h ha.1 hs) (ha.2 s' hs)

/-- An invariant of the admitted steps holds throughout an admitted run that returns. -/
theorem Along.throughout_run {I : σ → Prop} {p : σ → ε → Prop}
    (hstep : ∀ s e s', I s → p s e → step s e = some s' → I s') {s s' : σ} {es : List ε} (h : I s)
    (ha : Along step p s es) (hr : run step s es = some s') : Throughout step I s es := by
  induction es generalizing s with
  | nil => exact h
  | cons e es ih =>
    obtain ⟨mid, hs, hr⟩ := Option.bind_eq_some_iff.mp hr
    exact ⟨h, mid, hs, ih (hstep s e mid h ha.1 hs) (ha.2 mid hs) hr⟩

/-- The condition of a run's last event. -/
theorem Along.last {p : σ → ε → Prop} {s s' : σ} {es : List ε} {e : ε}
    (h : Along step p s (es ++ [e])) (hr : run step s es = some s') : p s' e := by
  induction es generalizing s with
  | nil =>
    rw [← Option.some.inj hr]
    exact h.1
  | cons e es ih =>
    obtain ⟨mid, hs, hr⟩ := Option.bind_eq_some_iff.mp hr
    exact ih (h.2 mid hs) hr

/-- A relation that every step keeps holds after a run. -/
theorem run_relates {R : σ → τ → Prop} {f : τ → ε → τ}
    (hstep : ∀ s t e s', R s t → step s e = some s' → R s' (f t e)) {s s' : σ} {t : τ}
    {es : List ε} (h : R s t) (hr : run step s es = some s') : R s' (es.foldl f t) := by
  induction es generalizing s t with
  | nil => rwa [← Option.some.inj hr]
  | cons e es ih =>
    obtain ⟨mid, hs, hr⟩ := Option.bind_eq_some_iff.mp hr
    exact ih (hstep s t e mid h hs) hr

/-- An invariant of the steps on admitted events holds after a run of such events. -/
theorem run_invariant {I : σ → Prop} {c : ε → Prop}
    (hstep : ∀ s e s', I s → c e → step s e = some s' → I s') {s s' : σ} {es : List ε} (h : I s)
    (hc : ∀ e ∈ es, c e) (hr : run step s es = some s') : I s' := by
  induction es generalizing s with
  | nil => rwa [← Option.some.inj hr]
  | cons e es ih =>
    rw [List.forall_mem_cons] at hc
    obtain ⟨mid, hs, hr⟩ := Option.bind_eq_some_iff.mp hr
    exact ih (hstep s e mid h hc.1 hs) hc.2 hr

/-- A property that each step keeps exactly under a condition holds after a run exactly if
it held before and every step of the run met the condition. -/
theorem run_iff {I p : σ → Prop} {m : σ → ε → Prop}
    (hI : ∀ s e s', I s → step s e = some s' → I s')
    (hstep : ∀ s e s', I s → step s e = some s' → (p s' ↔ p s ∧ m s e)) {s s' : σ} {es : List ε}
    (h : I s) (hr : run step s es = some s') : p s' ↔ p s ∧ Along step m s es := by
  induction es generalizing s with
  | nil =>
    rw [← Option.some.inj hr]
    exact (and_iff_left trivial).symm
  | cons e es ih =>
    obtain ⟨mid, hs, hr⟩ := Option.bind_eq_some_iff.mp hr
    have hrest : (∀ s'', step s e = some s'' → Along step m s'' es) ↔ Along step m mid es := by
      simp [hs]
    rw [ih (hI s e mid h hs) hr, hstep s e mid h hs, Along, hrest, and_assoc]

/-- Where admitted steps return, and keep a property exactly under a condition, it holds
throughout an admitted run exactly if every step of the run meets the condition. -/
theorem throughout_iff_along {I p : σ → Prop} {q m : σ → ε → Prop}
    (hstep : ∀ s e, I s → q s e → p s → ∃ s', step s e = some s' ∧ I s' ∧ (p s' ↔ m s e))
    {s : σ} {es : List ε} (h : I s) (hp : p s) (hq : Along step q s es) :
    Throughout step p s es ↔ Along step m s es := by
  induction es generalizing s with
  | nil => exact iff_of_true hp trivial
  | cons e es ih =>
    obtain ⟨s', hs, h', hiff⟩ := hstep s e h hq.1 hp
    have hrest := hq.2 s' hs
    constructor
    · rintro ⟨_, s'', hs'', hthrough⟩
      obtain rfl := Option.some.inj (hs.symm.trans hs'')
      have hp' : p s' := by
        cases es with
        | nil => exact hthrough
        | cons e es => exact hthrough.1
      exact Along.cons (hiff.mp hp') hs ((ih h' hp' hrest).mp hthrough)
    · rintro ⟨hm, halong⟩
      have hp' := hiff.mpr hm
      exact ⟨hp, s', hs, (ih h' hp' hrest).mpr (halong s' hs)⟩

/-- Where a second system can always follow, the run ends and the systems stay related. -/
theorem simulation {R : σ → τ → Prop} {f : τ → ε → τ} {c : ε → Prop}
    (hstep : ∀ s t e, R s t → c e → ∃ s', step s e = some s' ∧ R s' (f t e)) {s : σ} {t : τ}
    {es : List ε} (h : R s t) (hc : ∀ e ∈ es, c e) :
    ∃ s', run step s es = some s' ∧ R s' (es.foldl f t) := by
  induction es generalizing s t with
  | nil => exact ⟨s, rfl, h⟩
  | cons e es ih =>
    rw [List.forall_mem_cons] at hc
    obtain ⟨mid, hs, h'⟩ := hstep s t e h hc.1
    rw [run, hs]
    exact ih h' hc.2

/-- Two systems whose steps are related event by event have related runs. -/
theorem run_rel {step' : τ → ε → Option τ} {R : σ → τ → Prop}
    (hstep : ∀ s t e, R s t → Option.Rel R (step s e) (step' t e)) {s : σ} {t : τ} (h : R s t)
    (es : List ε) : Option.Rel R (run step s es) (run step' t es) := by
  induction es generalizing s t with
  | nil => exact .some h
  | cons e es ih =>
    have hrel := hstep s t e h
    rw [run, run]
    revert hrel
    generalize step s e = next
    generalize step' t e = next'
    rintro (h' | _)
    · exact ih h'
    · exact .none

section Returning
variable {f : σ → ε → σ}

theorem run_returning (s : σ) (es : List ε) : run (returning f) s es = some (es.foldl f s) := by
  induction es generalizing s with
  | nil => rfl
  | cons e es ih => exact ih (f s e)

theorem along_returning_cons {p : σ → ε → Prop} {s : σ} {e : ε} {es : List ε} :
    Along (returning f) p s (e :: es) ↔ p s e ∧ Along (returning f) p (f s e) es := by
  simp [Along, returning]

/-- A condition on the events alone, where every step returns. -/
theorem along_returning_iff_forall {c : ε → Prop} {s : σ} {es : List ε} :
    Along (returning f) (fun _ e => c e) s es ↔ ∀ e ∈ es, c e := by
  induction es generalizing s with
  | nil => simp [Along]
  | cons e es ih => rw [along_returning_cons, ih, List.forall_mem_cons]

theorem Throughout.foldl {p : σ → Prop} {s : σ} {es : List ε} (h : Throughout (returning f) p s es) :
    p (es.foldl f s) := by
  obtain ⟨s', hr, hs'⟩ := h.run
  rwa [Option.some.inj ((run_returning s es).symm.trans hr)]

end Returning

end SidFirmware.Runs
