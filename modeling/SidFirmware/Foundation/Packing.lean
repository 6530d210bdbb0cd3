import Mathlib.Logic.Function.Basic
import Mathlib.Tactic

/-! Values packed into bytes. What is shown of a state gives a value back exactly if states that
are shown alike have it in common. -/
namespace SidFirmware.Packing
variable {α β γ : Type}

/-- One decoder gives the value of every state of the set back from what is shown of it. -/
def RecoverableOn (S : Set α) (shown : α → β) (value : α → γ) : Prop :=
  ∃ decode : β → γ, ∀ s ∈ S, decode (shown s) = value s

theorem recoverableOn_iff [Nonempty γ] {S : Set α} {shown : α → β} {value : α → γ} :
    RecoverableOn S shown value ↔ ∀ s ∈ S, ∀ t ∈ S, shown s = shown t → value s = value t := by
  have hfactors := Function.factorsThrough_iff (f := S.domRestrict shown) (S.domRestrict value)
  constructor
  · rintro ⟨decode, hdecode⟩ s hs t ht heq
    rw [← hdecode s hs, ← hdecode t ht, heq]
  · intro halike
    obtain ⟨decode, hdecode⟩ := hfactors.mp fun s t heq => halike s.1 s.2 t.1 t.2 heq
    exact ⟨decode, fun s hs => (congrFun hdecode ⟨s, hs⟩).symm⟩

/-- Bits that are set anyway hide what lies below them. -/
theorem or_eq_or_iff (c a b : UInt8) : c ||| a = c ||| b ↔ a &&& ~~~c = b &&& ~~~c := by
  simp only [← UInt8.toBitVec_inj, UInt8.toBitVec_or, UInt8.toBitVec_and, UInt8.toBitVec_not,
    BitVec.eq_of_getElem_eq_iff, BitVec.getElem_or, BitVec.getElem_and, BitVec.getElem_not]
  refine forall₂_congr fun i hi => ?_
  cases c.toBitVec[i] <;> simp

/-- A byte is what a mask hides of it and what it leaves. -/
theorem eq_iff_masked (c a b : UInt8) : a = b ↔ a &&& ~~~c = b &&& ~~~c ∧ a &&& c = b &&& c := by
  simp only [← UInt8.toBitVec_inj, UInt8.toBitVec_and, UInt8.toBitVec_not, BitVec.eq_of_getElem_eq_iff,
    BitVec.getElem_and, BitVec.getElem_not, ← forall_and]
  refine forall₂_congr fun i hi => ?_
  cases c.toBitVec[i] <;> simp

/-- A property of bytes, checked one by one. -/
theorem forall_byte {p : UInt8 → Prop} (h : ∀ k < 256, p (UInt8.ofNat k)) (x : UInt8) : p x := by
  have hx := h x.toNat x.toNat_lt
  rwa [UInt8.ofNat_toNat] at hx

/-- A field of `n` bits, cut out and moved down by `k`. -/
theorem and_mask_shiftRight (x n k : Nat) : (x &&& (2 ^ n - 1) <<< k) >>> k = x / 2 ^ k % 2 ^ n := by
  rw [Nat.shiftRight_and_distrib, Nat.shiftLeft_shiftRight, Nat.and_two_pow_sub_one_eq_mod,
    Nat.shiftRight_eq_div_pow]

/-- Bits that lie above a field add up with it. -/
theorem or_toNat {a x : UInt8} {k c : Nat} (ha : a.toNat = 2 ^ k * c) (hx : x.toNat < 2 ^ k) :
    (a ||| x).toNat = 2 ^ k * c + x.toNat := by
  rw [UInt8.toNat_or, ha, Nat.two_pow_add_eq_or_of_lt hx]

end SidFirmware.Packing
