import Mathlib.Data.List.Basic
import Mathlib.Tactic

/-! Elements of a length byte, a type byte and data, one behind the other. The length counts
the type and the data. -/
namespace SidFirmware.LengthTypeData

structure Element where
  type : UInt8
  data : List UInt8
deriving DecidableEq

def Element.encode (e : Element) : List UInt8 := UInt8.ofNat (e.data.length + 1) :: e.type :: e.data

def first : List UInt8 → Option (Element × List UInt8)
  | length :: type :: rest =>
    if 1 ≤ length.toNat ∧ length.toNat ≤ rest.length + 1 then
      some (⟨type, rest.take (length.toNat - 1)⟩, rest.drop (length.toNat - 1))
    else none
  | _ => none

/-- What is left behind an element is shorter. -/
theorem first_length {bs rest : List UInt8} {e : Element} (h : first bs = some (e, rest)) :
    rest.length < bs.length := by
  match bs with
  | [] => cases h
  | [_] => cases h
  | length :: type :: tail =>
    rw [first] at h
    split at h
    · obtain ⟨-, rfl⟩ := Prod.mk.inj (Option.some.inj h)
      simp only [List.length_drop, List.length_cons]
      omega
    · cases h

def parse (bs : List UInt8) : Option (List Element) :=
  if bs = [] then some []
  else
    match _h : first bs with
    | some (e, rest) => (parse rest).map (e :: ·)
    | none => none
termination_by bs.length
decreasing_by exact first_length _h

theorem parse_nil : parse [] = some [] := by
  rw [parse]
  rfl

theorem parse_cons {bs rest : List UInt8} {e : Element} (h : first bs = some (e, rest)) :
    parse bs = (parse rest).map (e :: ·) := by
  have hne : bs ≠ [] := by
    rintro rfl
    cases h
  rw [parse, if_neg hne]
  split
  · rename_i e' rest' h'
    obtain ⟨rfl, rfl⟩ := Prod.mk.inj (Option.some.inj (h.symm.trans h'))
    rfl
  · rename_i h'
    rw [h] at h'
    cases h'

/-- An element that was encoded is the one in front, whatever follows it. -/
theorem first_encode {e : Element} (h : e.data.length < 255) (rest : List UInt8) :
    first (e.encode ++ rest) = some (e, rest) := by
  have hlength : (UInt8.ofNat (e.data.length + 1)).toNat = e.data.length + 1 := by
    rw [UInt8.toNat_ofNat']
    omega
  simp only [Element.encode, List.cons_append, first, hlength, Nat.add_sub_cancel, List.length_append,
    List.take_left, List.drop_left]
  rw [if_pos (by omega)]

/-- Encoded elements are parsed back. -/
theorem parse_encode {es : List Element} (h : ∀ e ∈ es, e.data.length < 255) :
    parse (es.flatMap Element.encode) = some es := by
  induction es with
  | nil => exact parse_nil
  | cons e es ih =>
    rw [List.forall_mem_cons] at h
    rw [List.flatMap_cons, parse_cons (first_encode h.1 _), ih h.2]
    rfl

end SidFirmware.LengthTypeData
