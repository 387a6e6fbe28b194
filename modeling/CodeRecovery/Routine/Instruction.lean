/-
Instructions of a routine: a register-transfer language over native registers, virtual registers and
temporaries. An instruction that writes a register names it first.
-/
import CodeRecovery.Native.Register
import CodeRecovery.Text.Layout
import CodeRecovery.Width

set_option autoImplicit false

namespace CodeRecovery

namespace Routine

/-- What kind of register an operand names. -/
inductive Place where
  | native (register : Native.Register)
  | flags
  /-- The virtual stack pointer. -/
  | stackPointer
  | virtual (index : UInt32)
  /-- Local to a block. -/
  | temporary (index : UInt32)
deriving DecidableEq, Repr

def Place.text : Place → String
  | native register => register.name
  | flags => "$flags"
  | stackPointer => "$sp"
  | virtual index => s!"vr{index.toNat}"
  | temporary index => s!"t{index.toNat}"

inductive Operand where
  | register (place : Place) (bits : UInt32)
  | immediate (value : Word) (bits : UInt32)
deriving DecidableEq, Repr

namespace Operand

/-- How many bits the operand has. -/
def bits : Operand → UInt32
  | register _ bits => bits
  | immediate _ bits => bits

/-- The size is written behind the operand unless it is that of a word. -/
def sizeText (bits : UInt32) : String :=
  if bits = 64 then "" else s!":{bits.toNat}"

def text : Operand → String
  | register place bits => place.text ++ sizeText bits
  | immediate value bits => Text.address value.toNat ++ sizeText bits

/-- A whole native register. -/
def native (r : Gpr) : Operand := register (.native (.whole r)) 64

/-- The whole flags register. -/
def flags : Operand := register .flags 64

/-- The virtual stack pointer. -/
def stackPointer : Operand := register .stackPointer 64

/-- A whole saved register. -/
def saved : SavedRegister → Operand
  | .gpr r => native r
  | .flags => flags

/-- A constant of 64 bits. -/
def word (value : Word) : Operand := immediate value 64

end Operand

inductive Operation where
  | mov
  | movsx
  | add
  | sub
  | or
  | and
  | xor
  /-- Whether two operands are equal. -/
  | te
  /-- Whether two operands differ. -/
  | tne
  /-- Loads from a base and an offset. -/
  | ldd
  /-- Stores to a base and an offset. -/
  | str
  | push
  | pop
  | pushf
  | popf
  /-- Branches to one of two addresses. -/
  | js
  | jmp
  /-- Leaves the routine. -/
  | vexit
deriving DecidableEq, Repr

namespace Operation

/-- All operations by increasing code. -/
def all : List Operation :=
  [mov, movsx, add, sub, or, and, xor, te, tne, ldd, str, push, pop, pushf, popf, js, jmp, vexit]

def name : Operation → String
  | mov => "mov" | movsx => "movsx" | add => "add" | sub => "sub" | or => "or" | and => "and"
  | xor => "xor" | te => "te" | tne => "tne" | ldd => "ldd" | str => "str" | push => "push"
  | pop => "pop" | pushf => "pushf" | popf => "popf" | js => "js" | jmp => "jmp" | vexit => "vexit"

/-- The number that stands for the operation in an encoded routine. -/
def code (op : Operation) : Nat :=
  all.idxOf op

/-- The operation with a name. -/
def ofName? (name : String) : Option Operation :=
  all.find? (·.name == name)

/-- Whether control leaves the block here. -/
def endsBlock : Operation → Bool
  | js | jmp | vexit => true
  | _ => false

def ofBinary : BinaryOp → Operation
  | .add => add
  | .sub => sub
  | .or => or
  | .and => and
  | .xor => xor

end Operation

structure Instruction where
  op : Operation
  operands : List Operand
  /-- How far the stack pointer has moved since the start of the block, before this instruction. -/
  stackOffset : Int64
deriving DecidableEq, Repr

namespace Instruction

/-- How far an operation moves the stack pointer. -/
def stackChange (op : Operation) (operands : List Operand) : Int64 :=
  let bytes := match operands with
    | [] => 8
    | first :: _ => first.bits.toUInt64.toInt64 / 8
  match op with
  | .push => -bytes
  | .pop => bytes
  | .pushf => -8
  | .popf => 8
  | _ => 0

def text (i : Instruction) : String :=
  let offset := Text.padStart 5 ' ' (Text.signed i.stackOffset.toInt)
  let name := Text.padEnd 6 i.op.name
  let operands := ",".intercalate (i.operands.map fun o => " " ++ o.text)
  s!"[{offset}] {name}{operands}"

end Instruction

end Routine

end CodeRecovery
