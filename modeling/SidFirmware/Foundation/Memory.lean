import Mathlib.Data.List.Basic
import Mathlib.Tactic

/-! Memory seen from one address: a total function of the offset. Reads of a run
of cells are lists; a ring of `N` cells is the same memory read modulo `N`. -/
namespace SidFirmware.Memory
variable {α : Type}

def cells (m : Nat → α) (s n : Nat) : List α := (List.range n).map (fun k => m (s + k))

/-- Copy `bs` to the cells from offset `s` on; every other cell keeps its value. -/
def copyIn (m : Nat → α) (s : Nat) (bs : List α) : Nat → α :=
  fun j => if s ≤ j then (bs[j - s]?).getD (m j) else m j

/-- The ring of the first `N` cells, unrolled along unbounded positions. -/
def wrap (m : Nat → α) (N : Nat) : Nat → α := fun p => m (p % N)

/-- A `uint16_t` read from its two bytes in memory order. -/
def uint16 (lsb msb : UInt8) : Nat := lsb.toNat + 256 * msb.toNat

@[simp] theorem cells_length (m : Nat → α) (s n : Nat) : (cells m s n).length = n := by
  simp [cells]

@[simp] theorem cells_zero (m : Nat → α) (s : Nat) : cells m s 0 = [] := rfl

theorem cells_getElem? (m : Nat → α) (s n k : Nat) (hk : k < n) :
    (cells m s n)[k]? = some (m (s + k)) := by
  simp [cells, hk]

theorem cells_getElem (m : Nat → α) (s n k : Nat) (hk : k < (cells m s n).length) :
    (cells m s n)[k] = m (s + k) := by
  simp [cells]

theorem cells_congr {m m' : Nat → α} {s n : Nat} (h : ∀ k < n, m (s + k) = m' (s + k)) :
    cells m s n = cells m' s n := by
  apply List.map_congr_left
  intro k hk
  exact h k (List.mem_range.mp hk)

theorem cells_add (m : Nat → α) (s a b : Nat) :
    cells m s (a + b) = cells m s a ++ cells m (s + a) b := by
  unfold cells
  rw [List.range_add, List.map_append, List.map_map]
  have hb : (List.range b).map ((fun k => m (s + k)) ∘ (a + ·)) =
      (List.range b).map (fun k => m (s + a + k)) :=
    List.map_congr_left (fun k _ => by rw [Function.comp_apply, Nat.add_assoc])
  rw [hb]

theorem cells_succ (m : Nat → α) (s n : Nat) : cells m s (n + 1) = cells m s n ++ [m (s + n)] := by
  rw [cells_add]
  simp [cells]

theorem cells_cons (m : Nat → α) (s n : Nat) : cells m s (n + 1) = m s :: cells m (s + 1) n := by
  rw [Nat.add_comm, cells_add]
  simp [cells]

theorem cells_take (m : Nat → α) (s : Nat) {a n : Nat} (h : a ≤ n) :
    (cells m s n).take a = cells m s a := by
  obtain ⟨b, rfl⟩ := Nat.exists_eq_add_of_le h
  rw [cells_add, List.take_left' (cells_length m s a)]

theorem cells_drop (m : Nat → α) (s a n : Nat) :
    (cells m s n).drop a = cells m (s + a) (n - a) := by
  by_cases h : a ≤ n
  · obtain ⟨b, rfl⟩ := Nat.exists_eq_add_of_le h
    rw [cells_add, List.drop_left' (cells_length m s a), Nat.add_sub_cancel_left]
  · rw [List.drop_of_length_le (by simp; omega), Nat.sub_eq_zero_of_le (by omega), cells_zero]

/-- The cells behind a pointer. -/
theorem cells_shift (m : Nat → α) (s n : Nat) : cells (fun k => m (s + k)) 0 n = cells m s n := by
  simp [cells]

theorem cells_update_outside (m : Nat → α) (s n i : Nat) (v : α) (h : ∀ k < n, s + k ≠ i) :
    cells (Function.update m i v) s n = cells m s n :=
  cells_congr (fun k hk => Function.update_of_ne (h k hk) v m)

/-- Storing right behind a run of cells appends one element to it. -/
theorem cells_update_next (m : Nat → α) (s n : Nat) (v : α) :
    cells (Function.update m (s + n) v) s (n + 1) = cells m s n ++ [v] := by
  rw [cells_succ, cells_update_outside _ _ _ _ _ (by omega), Function.update_self]

/-- A copied block is read back as it was given. -/
theorem cells_copyIn (m : Nat → α) (s : Nat) (bs : List α) :
    cells (copyIn m s bs) s bs.length = bs := by
  apply List.ext_getElem (by simp)
  intro k _ hk
  rw [cells_getElem]
  simp [copyIn, hk]

@[simp] theorem copyIn_nil (m : Nat → α) (s : Nat) : copyIn m s [] = m := by
  funext j
  simp [copyIn]

theorem copyIn_inside (m : Nat → α) (s : Nat) (bs : List α) (j : Nat) (h : s ≤ j)
    (hj : j - s < bs.length) : copyIn m s bs j = bs[j - s] := by
  simp [copyIn, h, hj]

theorem copyIn_before (m : Nat → α) (s : Nat) (bs : List α) {j : Nat} (h : j < s) : copyIn m s bs j = m j :=
  if_neg (not_le.mpr h)

theorem copyIn_behind (m : Nat → α) (s : Nat) (bs : List α) {j : Nat} (h : s + bs.length ≤ j) :
    copyIn m s bs j = m j := by
  have hnone : bs[j - s]? = none := List.getElem?_eq_none (by omega)
  rw [copyIn, if_pos (by omega), hnone, Option.getD_none]

/-- A block copied behind the first cells is appended to them. -/
theorem cells_copyIn_append (m : Nat → α) (s : Nat) (bs : List α) :
    cells (copyIn m s bs) 0 (s + bs.length) = cells m 0 s ++ bs := by
  have hbefore : cells (copyIn m s bs) 0 s = cells m 0 s :=
    cells_congr fun k hk => copyIn_before m s bs (by omega)
  rw [cells_add, Nat.zero_add, cells_copyIn, hbefore]

theorem cells_wrap_mod (m : Nat → α) (N s n : Nat) :
    cells (wrap m N) (s % N) n = cells (wrap m N) s n := by
  apply List.map_congr_left
  intro k _
  simp [wrap]

private theorem mod_add_inj {s i n N : Nat} (hi : i < n) (hn : n < N) :
    (s + i) % N ≠ (s + n) % N := by
  intro he
  have hd : N ∣ (s + n) - (s + i) := (Nat.modEq_iff_dvd' (by omega)).mp he
  have hz : (s + n) - (s + i) = 0 := Nat.eq_zero_of_dvd_of_lt hd (by omega)
  omega

/-- Storing at the first free position of a ring appends one element to the run,
as long as the run does not fill the ring. -/
theorem cells_wrap_update (m : Nat → α) (N s n : Nat) (v : α) (hn : n < N) :
    cells (wrap (Function.update m ((s + n) % N) v) N) s (n + 1) = cells (wrap m N) s n ++ [v] := by
  rw [cells_succ]
  congr 1
  · apply cells_congr
    intro k hk
    exact Function.update_of_ne (mod_add_inj hk hn) v m
  · simp [wrap]

/-- Two positions of a ring less than one turn apart coincide only if equal. -/
theorem ring_position_eq_iff {s n N : Nat} (hn : n ≤ N) (hN : 0 < N) :
    (s + n) % N = s % N ↔ n = 0 ∨ n = N := by
  constructor
  · intro he
    rcases Nat.eq_or_lt_of_le hn with h | h
    · exact Or.inr h
    · by_contra hne
      exact mod_add_inj (i := 0) (by omega) h (by simpa using he.symm)
  · rintro (rfl | rfl)
    · rfl
    · exact Nat.add_mod_right s n

theorem uint16_lt (lsb msb : UInt8) : uint16 lsb msb < 2 ^ 16 := by
  have hl : lsb.toNat < 256 := lsb.toNat_lt
  have hm : msb.toNat < 256 := msb.toNat_lt
  unfold uint16
  omega

theorem uint16_ofNat {n : Nat} (h : n < 65536) :
    uint16 (UInt8.ofNat n) (UInt8.ofNat (n / 256)) = n := by
  simp only [uint16, UInt8.toNat_ofNat']
  omega

end SidFirmware.Memory
