import Mathlib.Tactic

/-! Attempts that are made again when they fail. The fuel is the number of attempts nested in
one another; whether the outermost returns depends on the first success alone. -/
namespace SidFirmware.Retry
variable {σ : Type} {f : Nat → σ → Option σ} {attempts : σ → Nat} {ok : Nat → Prop} {Fresh : σ → Prop}

/-- A function that makes the attempt its state has counted up to, is through where that
succeeds, and calls itself where it does not. -/
structure Retries (f : Nat → σ → Option σ) (attempts : σ → Nat) (ok : Nat → Prop)
    (Fresh : σ → Prop) : Prop where
  zero : ∀ s, f 0 s = none
  through : ∀ n s, Fresh s → ok (attempts s) → (f (n + 1) s).map attempts = some (attempts s + 1)
  again : ∀ n s, Fresh s → ¬ ok (attempts s) → ∃ s', Fresh s' ∧ attempts s' = attempts s + 1 ∧
    (f (n + 1) s).map attempts = (f n s').map attempts

def ReturnsWithin (f : Nat → σ → Option σ) (attempts : σ → Nat) (bound : Nat) (s : σ) : Prop :=
  ∃ fuel s', f fuel s = some s' ∧ attempts s' ≤ attempts s + bound

/-- The first success ends every call that has the fuel to reach it. -/
theorem Retries.attempts_first (h : Retries f attempts ok Fresh) {s : σ} (hs : Fresh s) {k n : Nat}
    (hn : k < n) (hok : ok (attempts s + k)) (hfirst : ∀ j < k, ¬ ok (attempts s + j)) :
    (f n s).map attempts = some (attempts s + k + 1) := by
  induction k generalizing n s with
  | zero =>
    obtain ⟨n, rfl⟩ := Nat.exists_eq_succ_of_ne_zero (Nat.ne_zero_of_lt hn)
    exact h.through n s hs hok
  | succ k ih =>
    obtain ⟨n, rfl⟩ := Nat.exists_eq_succ_of_ne_zero (Nat.ne_zero_of_lt hn)
    obtain ⟨s', hs', hcount, hcall⟩ := h.again n s hs (hfirst 0 (Nat.succ_pos k))
    have hshift : ∀ j, attempts s' + j = attempts s + (j + 1) := by
      intro j
      rw [hcount, Nat.add_assoc, Nat.add_comm 1 j]
    rw [hcall, ih hs' (Nat.lt_of_succ_lt_succ hn), hshift]
    · rw [hshift]
      exact hok
    · intro j hj
      rw [hshift]
      exact hfirst (j + 1) (Nat.succ_lt_succ hj)

/-- Without a success no call returns. -/
theorem Retries.never (h : Retries f attempts ok Fresh) {s : σ} (hs : Fresh s)
    (hfail : ∀ k, ¬ ok (attempts s + k)) (n : Nat) : f n s = none := by
  induction n generalizing s with
  | zero => exact h.zero s
  | succ n ih =>
    obtain ⟨s', hs', hcount, hcall⟩ := h.again n s hs (hfail 0)
    have hrest : f n s' = none := by
      apply ih hs'
      intro k
      rw [hcount, Nat.add_assoc, Nat.add_comm 1 k]
      exact hfail (k + 1)
    rw [hrest, Option.map_none] at hcall
    exact Option.map_eq_none_iff.mp hcall

/-- The call returns exactly if some attempt succeeds. -/
theorem Retries.returnsWithin_iff (h : Retries f attempts ok Fresh) {s : σ} (hs : Fresh s) :
    (∃ bound, ReturnsWithin f attempts bound s) ↔ ∃ k, ok (attempts s + k) := by
  constructor
  · rintro ⟨bound, fuel, s', hcall, _⟩
    by_contra hfail
    rw [h.never hs (not_exists.mp hfail) fuel] at hcall
    cases hcall
  · intro hok
    classical
    have hcall := h.attempts_first hs (Nat.lt_succ_self (Nat.find hok)) (Nat.find_spec hok)
      (fun j hj => Nat.find_min hok hj)
    obtain ⟨s', hs', hcount⟩ := Option.map_eq_some_iff.mp hcall
    exact ⟨Nat.find hok + 1, Nat.find hok + 1, s', hs', by omega⟩

end SidFirmware.Retry
