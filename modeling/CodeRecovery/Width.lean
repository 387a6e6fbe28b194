/-
Operand widths of the virtual machine and arithmetic at a width.

A value travels through the library as a full 64-bit word; a width says how many of its low bits
count. Results are cut to their width, so the upper bits of a narrow result are always clear.
-/
import CodeRecovery.LittleEndian

set_option autoImplicit false

namespace CodeRecovery

/-- How many bits of a word an operation looks at. -/
inductive Width where
  | bit
  | dword
  | qword
deriving DecidableEq, Repr

namespace Width

def bits : Width → Nat
  | bit => 1
  | dword => 32
  | qword => 64

/-- The width with a number of bits. -/
def ofBits? : Nat → Option Width
  | 1 => some bit
  | 32 => some dword
  | 64 => some qword
  | _ => none

/-- The room a value takes in memory; a single bit takes a byte of its own. -/
def bytes : Width → Nat
  | bit => 1
  | dword => 4
  | qword => 8

/-- The word whose set bits are exactly those of the width. -/
def mask : Width → Word
  | bit => 0x1
  | dword => 0xFFFFFFFF
  | qword => 0xFFFFFFFFFFFFFFFF

/-- Cuts a word to the width. -/
def cut (w : Width) (v : Word) : Word :=
  v &&& w.mask

/-- Reads the low bits of `v` as a two's complement number and widens it to a whole word. -/
def signExtend : Width → Word → Word
  | bit, v => if v &&& 1 = 0 then 0 else 0xFFFFFFFFFFFFFFFF
  | dword, v => v.toUInt32.toInt32.toInt64.toUInt64
  | qword, v => v

/-- The flag word left behind by arithmetic: all ones when the result was zero, otherwise zero. -/
def zeroFlag (w : Width) (result : Word) : Word :=
  bit.signExtend (if w.signExtend result = 0 then 1 else 0)

end Width

/-- The two-operand operations of the virtual machine. -/
inductive BinaryOp where
  | add
  | sub
  | or
  | and
  | xor
deriving DecidableEq, Repr

namespace BinaryOp

def name : BinaryOp → String
  | add => "add"
  | sub => "sub"
  | or => "or"
  | and => "and"
  | xor => "xor"

/-- The operation with a name. -/
def ofName? (name : String) : Option BinaryOp :=
  [add, sub, or, and, xor].find? (·.name == name)

/-- The result of the operation at a width. -/
def apply (op : BinaryOp) (w : Width) (lhs rhs : Word) : Word :=
  w.cut <| match op with
    | add => lhs + rhs
    | sub => lhs - rhs
    | or => lhs ||| rhs
    | and => lhs &&& rhs
    | xor => lhs ^^^ rhs

end BinaryOp

end CodeRecovery
