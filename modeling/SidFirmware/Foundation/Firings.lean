import Mathlib.Data.List.Basic
import Mathlib.Tactic

/-! A timer that is looked at now and then, fires when it is due, and starts again at that time.
Two rules for being due are told apart by what each makes of the same observations. -/
namespace SidFirmware.Firings
variable {β : Type} (due due' : β → β → Prop) [∀ r t, Decidable (due r t)] [∀ r t, Decidable (due' r t)]

def firings : β → List β → List β
  | _, [] => []
  | r, t :: ts => if due r t then t :: firings t ts else firings r ts

/-- Each observed time behind the time of the last firing before it. -/
def observations : β → List β → List (β × β)
  | _, [] => []
  | r, t :: ts => (r, t) :: observations (if due r t then t else r) ts

variable {due due'}

theorem mem_of_mem_firings {r t : β} {ts : List β} (h : t ∈ firings due r ts) : t ∈ ts := by
  induction ts generalizing r with
  | nil => exact absurd h List.not_mem_nil
  | cons a ts ih =>
    rw [firings] at h
    split at h
    · rcases List.mem_cons.mp h with rfl | h
      · exact List.mem_cons_self
      · exact List.mem_cons_of_mem a (ih h)
    · exact List.mem_cons_of_mem a (ih h)

/-- Over times that never repeat, two rules fire alike exactly if they agree at each observation
that the first one makes. -/
theorem firings_eq_iff {ts : List β} (h : ts.Nodup) (r : β) :
    firings due' r ts = firings due r ts ↔ ∀ p ∈ observations due r ts, (due' p.1 p.2 ↔ due p.1 p.2) := by
  induction ts generalizing r with
  | nil => simp [firings, observations]
  | cons t ts ih =>
    obtain ⟨ht, hts⟩ := List.nodup_cons.mp h
    rw [firings, firings, observations, List.forall_mem_cons]
    -- A time at which only one of them fires is in one of the lists only.
    by_cases hdue : due r t
    · by_cases hdue' : due' r t
      · rw [if_pos hdue, if_pos hdue', if_pos hdue, List.cons.injEq, ih hts]
        exact and_congr (iff_of_true rfl (iff_of_true hdue' hdue)) Iff.rfl
      · rw [if_pos hdue, if_neg hdue']
        refine iff_of_false ?_ fun hagree => hdue' (hagree.1.mpr hdue)
        intro heq
        exact ht (mem_of_mem_firings (heq ▸ List.mem_cons_self))
    · by_cases hdue' : due' r t
      · rw [if_neg hdue, if_pos hdue']
        refine iff_of_false ?_ fun hagree => hdue (hagree.1.mp hdue')
        intro heq
        exact ht (mem_of_mem_firings (heq ▸ List.mem_cons_self))
      · rw [if_neg hdue, if_neg hdue', if_neg hdue, ih hts]
        exact (and_iff_right (iff_of_false hdue' hdue)).symm

/-- Where each time stands in a relation to all later ones, each reference time stands in it to what
is observed behind it. -/
theorem observations_rel {rel : β → β → Prop} {r : β} {ts : List β} (h : (r :: ts).Pairwise rel) :
    ∀ p ∈ observations due r ts, rel p.1 p.2 := by
  induction ts generalizing r with
  | nil => simp [observations]
  | cons t ts ih =>
    obtain ⟨hr, hts⟩ := List.pairwise_cons.mp h
    rw [observations, List.forall_mem_cons]
    refine ⟨hr t List.mem_cons_self, ?_⟩
    split
    · exact ih hts
    · exact ih (List.pairwise_cons.mpr ⟨fun a ha => hr a (List.mem_cons_of_mem t ha),
        (List.pairwise_cons.mp hts).2⟩)

end SidFirmware.Firings
