import Mathlib.Data.List.Induction
import Mathlib.Logic.Function.Basic

/-! A table overwritten by records in order. A record names at most one entry, and what it
puts there may keep parts of the entry that no record changes. -/
namespace SidFirmware.Overwrites
variable {κ α ρ : Type} [DecidableEq κ]

def overwrite (key : ρ → Option κ) (put : ρ → α → α) (t : κ → α) (r : ρ) : κ → α :=
  match key r with
  | some k => Function.update t k (put r (t k))
  | none => t

def lastFor (key : ρ → Option κ) (k : κ) (rs : List ρ) : Option ρ :=
  (rs.filter fun r => key r = some k).getLast?

variable {key : ρ → Option κ} {put : ρ → α → α}

theorem overwrite_of_key {r : ρ} {k : κ} (h : key r = some k) (t : κ → α) :
    overwrite key put t r k = put r (t k) := by
  simp only [overwrite, h, Function.update_self]

theorem overwrite_of_ne {r : ρ} {k : κ} (h : key r ≠ some k) (t : κ → α) :
    overwrite key put t r k = t k := by
  unfold overwrite
  cases hk : key r with
  | none => rfl
  | some k' =>
    have hne : k ≠ k' := fun he => h (he ▸ hk)
    exact Function.update_of_ne hne _ _

theorem lastFor_concat (k : κ) (rs : List ρ) (r : ρ) :
    lastFor key k (rs ++ [r]) = if key r = some k then some r else lastFor key k rs := by
  rw [lastFor, List.filter_append]
  split
  · rename_i h
    simp [h]
  · rename_i h
    simp [h, lastFor]

/-- Where a record leaves nothing of the one before it, the last record for an entry wins. -/
theorem foldl_overwrite (habsorb : ∀ r r' a, put r' (put r a) = put r' a) (t : κ → α) (rs : List ρ) (k : κ) :
    rs.foldl (overwrite key put) t k = (lastFor key k rs).elim (t k) fun r => put r (t k) := by
  induction rs using List.reverseRecOn with
  | nil => rfl
  | append_singleton rs r ih =>
    rw [List.foldl_append, lastFor_concat, List.foldl_cons, List.foldl_nil]
    split
    · rename_i h
      rw [overwrite_of_key h, ih, Option.elim_some]
      cases lastFor key k rs with
      | none => rfl
      | some r' => exact habsorb r' r (t k)
    · rename_i h
      rw [overwrite_of_ne h, ih]

end SidFirmware.Overwrites
