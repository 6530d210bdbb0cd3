import SidFirmware.Foundation.Memory

/-! Flash memory: a cell is erased to all ones, and programming it only clears bits. A block
programmed into erased cells is read back as it was given, and programming a block a second
time, as after an interrupted attempt, changes nothing. -/
namespace SidFirmware.NorFlash
open Memory

abbrev Flash := Nat → UInt8

def program (m : Flash) (a : Nat) (bs : List UInt8) : Flash :=
  fun j => if a ≤ j then (bs[j - a]?).elim (m j) (m j &&& ·) else m j

def erase (m : Flash) (a n : Nat) : Flash := fun j => if a ≤ j ∧ j < a + n then 0xFF else m j

def Erased (m : Flash) (a n : Nat) : Prop := ∀ j, a ≤ j → j < a + n → m j = 0xFF

theorem program_inside (m : Flash) (a : Nat) (bs : List UInt8) {j : Nat} (h : a ≤ j)
    (hj : j - a < bs.length) : program m a bs j = m j &&& bs[j - a] := by
  simp [program, h, hj]

theorem program_outside (m : Flash) (a : Nat) (bs : List UInt8) {j : Nat}
    (h : j < a ∨ a + bs.length ≤ j) : program m a bs j = m j := by
  unfold program
  split
  · have hnone : bs[j - a]? = none := List.getElem?_eq_none (by omega)
    rw [hnone, Option.elim_none]
  · rfl

@[simp] theorem program_nil (m : Flash) (a : Nat) : program m a [] = m := by
  funext j
  exact program_outside m a [] (by simp; omega)

theorem erase_inside (m : Flash) (a n : Nat) {j : Nat} (h : a ≤ j) (hj : j < a + n) :
    erase m a n j = 0xFF :=
  if_pos ⟨h, hj⟩

theorem erase_outside (m : Flash) (a n : Nat) {j : Nat} (h : j < a ∨ a + n ≤ j) :
    erase m a n j = m j :=
  if_neg (by omega)

theorem erased_erase (m : Flash) (a n : Nat) : Erased (erase m a n) a n :=
  fun _ h hj => erase_inside m a n h hj

theorem erase_erase (m : Flash) (a n : Nat) : erase (erase m a n) a n = erase m a n := by
  funext j
  by_cases h : a ≤ j ∧ j < a + n
  · rw [erase_inside _ a n h.1 h.2, erase_inside _ a n h.1 h.2]
  · rw [erase_outside _ a n (by omega)]

/-- Pages erased one behind the other are erased at once. -/
theorem erase_add (m : Flash) (a n k : Nat) : erase (erase m a n) (a + n) k = erase m a (n + k) := by
  funext j
  simp only [erase]
  split_ifs <;> first | rfl | omega

@[simp] theorem erase_zero (m : Flash) (a : Nat) : erase m a 0 = m := by
  funext j
  exact erase_outside m a 0 (by omega)

/-- Erasing a part of an area first changes nothing. -/
theorem erase_part (m : Flash) {a n b k : Nat} (h : a ≤ b) (hk : b + k ≤ a + n) :
    erase (erase m b k) a n = erase m a n := by
  funext j
  simp only [erase]
  split_ifs <;> first | rfl | omega

/-- The order in which two areas are erased makes no difference. -/
theorem erase_comm (m : Flash) (a n b k : Nat) : erase (erase m a n) b k = erase (erase m b k) a n := by
  funext j
  simp only [erase]
  split_ifs <;> rfl

/-- The order in which two blocks are programmed makes no difference. -/
theorem program_comm (m : Flash) (a b : Nat) (bs cs : List UInt8) :
    program (program m a bs) b cs = program (program m b cs) a bs := by
  funext j
  simp only [program]
  by_cases ha : a ≤ j <;> by_cases hb : b ≤ j <;> simp only [ha, hb, if_true, if_false]
  cases bs[j - a]? <;> cases cs[j - b]? <;> simp only [Option.elim]
  rename_i x y
  rw [UInt8.and_assoc, UInt8.and_comm x, ← UInt8.and_assoc]

/-- A block programmed in two parts. -/
theorem program_append (m : Flash) (a : Nat) (bs cs : List UInt8) :
    program (program m a bs) (a + bs.length) cs = program m a (bs ++ cs) := by
  funext j
  by_cases hb : a ≤ j ∧ j - a < bs.length
  · rw [program_outside _ _ cs (by omega), program_inside m a bs hb.1 hb.2,
      program_inside m a (bs ++ cs) hb.1 (by rw [List.length_append]; omega), List.getElem_append_left]
  · by_cases hc : a + bs.length ≤ j ∧ j - (a + bs.length) < cs.length
    · rw [program_inside _ _ cs hc.1 hc.2, program_outside m a bs (by omega),
        program_inside m a (bs ++ cs) (by omega) (by rw [List.length_append]; omega),
        List.getElem_append_right (by omega)]
      simp only [Nat.sub_sub]
    · rw [program_outside _ _ cs (by omega), program_outside m a bs (by omega),
        program_outside m a (bs ++ cs) (by rw [List.length_append]; omega)]

/-- Programming a block again changes nothing. -/
theorem program_program (m : Flash) (a : Nat) (bs : List UInt8) :
    program (program m a bs) a bs = program m a bs := by
  funext j
  by_cases h : a ≤ j ∧ j - a < bs.length
  · rw [program_inside _ a bs h.1 h.2, program_inside m a bs h.1 h.2, UInt8.and_assoc, UInt8.and_self]
  · rw [program_outside _ a bs (by omega)]

/-- Programming a part of a block first changes nothing either. -/
theorem program_part (m : Flash) (a : Nat) (xs ys zs : List UInt8) :
    program (program m (a + xs.length) ys) a (xs ++ ys ++ zs) = program m a (xs ++ ys ++ zs) := by
  rw [← program_append _ a, ← program_append _ a, program_comm m (a + xs.length) a, program_program,
    program_append m a xs ys, program_append m a (xs ++ ys) zs]

/-- What is programmed into erased cells is read back. -/
theorem cells_program {m : Flash} {a : Nat} {bs : List UInt8} (h : Erased m a bs.length) :
    cells (program m a bs) a bs.length = bs := by
  apply List.ext_getElem (by simp)
  intro k _ hk
  rw [cells_getElem, program_inside m a bs (by omega) (by omega), h (a + k) (by omega) (by omega)]
  simp only [Nat.add_sub_cancel_left]
  exact UInt8.neg_one_and

theorem cells_program_outside (m : Flash) (a : Nat) (bs : List UInt8) {s n : Nat}
    (h : s + n ≤ a ∨ a + bs.length ≤ s) : cells (program m a bs) s n = cells m s n :=
  cells_congr fun k hk => program_outside m a bs (by omega)

theorem cells_erase_outside (m : Flash) (a k : Nat) {s n : Nat} (h : s + n ≤ a ∨ a + k ≤ s) :
    cells (erase m a k) s n = cells m s n :=
  cells_congr fun j hj => erase_outside m a k (by omega)

theorem Erased.program_outside {m : Flash} {s n : Nat} (he : Erased m s n) (a : Nat) (bs : List UInt8)
    (h : s + n ≤ a ∨ a + bs.length ≤ s) : Erased (program m a bs) s n := by
  intro j hs hj
  rw [NorFlash.program_outside m a bs (by omega)]
  exact he j hs hj

theorem Erased.mono {m : Flash} {s n a k : Nat} (he : Erased m s n) (hs : s ≤ a) (hn : a + k ≤ s + n) :
    Erased m a k :=
  fun j hj hjk => he j (by omega) (by omega)

/-- The block right behind what is already there, as far as the cells were erased. -/
theorem cells_program_next {m : Flash} {s n : Nat} {bs : List UInt8} (h : Erased m (s + n) bs.length) :
    cells (program m (s + n) bs) s (n + bs.length) = cells m s n ++ bs := by
  rw [cells_add, cells_program h, cells_program_outside m _ bs (by omega)]

end SidFirmware.NorFlash
