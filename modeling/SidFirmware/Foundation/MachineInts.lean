import Mathlib.Data.Int.Basic
import Mathlib.Tactic

/-! One program text, run over two arithmetics: the machine's, which cuts a value to the bits of
the variable it goes into, and one that stops where a value does not fit. -/
namespace SidFirmware.MachineInts

/-- What becomes of an exact value that is put into a variable of a type; `int` is the promoted
value between two operators of one expression. -/
structure Arithmetic (m : Type → Type) where
  uint8 : ℤ → m UInt8
  uint16 : ℤ → m UInt16
  int16 : ℤ → m Int16
  int : ℤ → m ℤ

/-- The machine; its `int` has 32 bits. -/
def wrapping : Arithmetic Id where
  uint8 x := UInt8.ofInt x
  uint16 x := UInt16.ofInt x
  int16 x := Int16.ofInt x
  int x := Int.bmod x (2 ^ 32)

/-- Nothing may be cut off, and between operators too a value is held to 16 bits. -/
def checked : Arithmetic Option where
  uint8 x := if 0 ≤ x ∧ x < 2 ^ 8 then some (UInt8.ofInt x) else none
  uint16 x := if 0 ≤ x ∧ x < 2 ^ 16 then some (UInt16.ofInt x) else none
  int16 x := if -2 ^ 15 ≤ x ∧ x < 2 ^ 15 then some (Int16.ofInt x) else none
  int x := if -2 ^ 15 ≤ x ∧ x < 2 ^ 15 then some x else none

structure Keeps {m : Type → Type} [Monad m] (a : Arithmetic m) : Prop where
  uint8 : ∀ x : ℤ, 0 ≤ x ∧ x < 2 ^ 8 → a.uint8 x = pure (UInt8.ofInt x)
  uint16 : ∀ x : ℤ, 0 ≤ x ∧ x < 2 ^ 16 → a.uint16 x = pure (UInt16.ofInt x)
  int16 : ∀ x : ℤ, -2 ^ 15 ≤ x ∧ x < 2 ^ 15 → a.int16 x = pure (Int16.ofInt x)
  int : ∀ x : ℤ, -2 ^ 15 ≤ x ∧ x < 2 ^ 15 → a.int x = pure x

theorem keeps_wrapping : Keeps wrapping where
  uint8 _ _ := rfl
  uint16 _ _ := rfl
  int16 _ _ := rfl
  int _ h := Int.bmod_eq_of_le (by omega) (by omega)

theorem keeps_checked : Keeps checked where
  uint8 _ h := if_pos h
  uint16 _ h := if_pos h
  int16 _ h := if_pos h
  int _ h := if_pos h

/-- What is read back of a variable that has room for its value. -/
theorem toNat_uint8 {x : ℤ} (h : 0 ≤ x ∧ x < 2 ^ 8) : ((UInt8.ofInt x).toNat : ℤ) = x := by
  rw [UInt8.ofInt, UInt8.toNat_ofNat']
  omega

theorem toNat_uint16 {x : ℤ} (h : 0 ≤ x ∧ x < 2 ^ 16) : ((UInt16.ofInt x).toNat : ℤ) = x := by
  rw [UInt16.ofInt, UInt16.toNat_ofNat']
  omega

theorem toInt_int16 {x : ℤ} (h : -2 ^ 15 ≤ x ∧ x < 2 ^ 15) : (Int16.ofInt x).toInt = x :=
  Int16.toInt_ofInt_of_le h.1 h.2

end SidFirmware.MachineInts
