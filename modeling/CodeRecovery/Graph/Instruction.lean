/-
Instructions of the graph: a small typed language in which every value is assigned once.
-/
import CodeRecovery.Register
import CodeRecovery.Width

set_option autoImplicit false

namespace CodeRecovery.Graph

/-- The types of values. -/
inductive Ty where
  | i1
  | i32
  | i64
  | ptr
deriving DecidableEq, Repr

namespace Ty

def name : Ty → String
  | i1 => "i1"
  | i32 => "i32"
  | i64 => "i64"
  | ptr => "ptr"

/-- The type with a name. -/
def ofName? (name : String) : Option Ty :=
  [i1, i32, i64, ptr].find? (·.name == name)

/-- The type of values of a width. -/
def ofWidth : Width → Ty
  | .bit => i1
  | .dword => i32
  | .qword => i64

end Ty

/-- Names a value. Values are named by counting; 32 bits are enough for the values of a program of
nine million handlers. -/
abbrev ValueName := Nat

/-- Names a block by its place in the function. -/
abbrev BlockIndex := Nat

inductive Operand where
  | value (id : ValueName) (type : Ty)
  | const (type : Ty) (bits : Word)
deriving DecidableEq, Repr

namespace Operand

def type : Operand → Ty
  | value _ type => type
  | const type _ => type

/-- The value an operand names, if it is not a constant. -/
def value? : Operand → Option ValueName
  | value id _ => some id
  | const .. => none

/-- An operand without its type. Integers are written as signed numbers. -/
def text : Operand → String
  | value id _ => s!"%{id}"
  | const .i1 bits => if bits &&& 1 = 0 then "false" else "true"
  | const .i32 bits => toString bits.toUInt32.toInt32.toInt
  | const .i64 bits => toString bits.toInt64.toInt
  | const .ptr bits => if bits = 0 then "null" else s!"inttoptr (i64 {bits.toNat} to ptr)"

/-- An operand behind its type. -/
def typedText (o : Operand) : String :=
  s!"{o.type.name} {o.text}"

end Operand

inductive Cast where
  | sext
  | zext
  | ptrtoint
  | inttoptr
deriving DecidableEq, Repr

namespace Cast

def name : Cast → String
  | sext => "sext"
  | zext => "zext"
  | ptrtoint => "ptrtoint"
  | inttoptr => "inttoptr"

/-- The cast with a name. -/
def ofName? (name : String) : Option Cast :=
  [sext, zext, ptrtoint, inttoptr].find? (·.name == name)

end Cast

inductive Comparison where
  | eq
  | ne
deriving DecidableEq, Repr

namespace Comparison

def name : Comparison → String
  | eq => "eq"
  | ne => "ne"

/-- The comparison with a name. -/
def ofName? (name : String) : Option Comparison :=
  [eq, ne].find? (·.name == name)

end Comparison

inductive Instruction where
  | alloca (dst : ValueName) (bytes : Word)
  /-- Moves a pointer by a number of bytes. -/
  | movePtr (dst : ValueName) (base : Operand) (offset : Int64)
  | load (dst : ValueName) (type : Ty) (ptr : Operand)
  | store (value ptr : Operand)
  | binary (dst : ValueName) (op : BinaryOp) (lhs rhs : Operand)
  | icmp (dst : ValueName) (comparison : Comparison) (lhs rhs : Operand)
  | cast (dst : ValueName) (op : Cast) (value : Operand) (type : Ty)
  | loadRegister (dst : ValueName) (register : SavedRegister)
  | storeRegister (register : SavedRegister) (value : Operand)
deriving DecidableEq, Repr

namespace Instruction

/-- The value an instruction assigns. -/
def assigned? : Instruction → Option ValueName
  | alloca dst .. | movePtr dst .. | load dst .. | binary dst .. | icmp dst .. | cast dst ..
  | loadRegister dst .. => some dst
  | store .. | storeRegister .. => none

def operands : Instruction → List Operand
  | alloca .. | loadRegister .. => []
  | movePtr _ base _ => [base]
  | load _ _ ptr => [ptr]
  | store value ptr => [value, ptr]
  | binary _ _ lhs rhs => [lhs, rhs]
  | icmp _ _ lhs rhs => [lhs, rhs]
  | cast _ _ value _ => [value]
  | storeRegister _ value => [value]

/-- The native register an instruction reads or writes. -/
def register? : Instruction → Option SavedRegister
  | loadRegister _ register | storeRegister register _ => some register
  | _ => none

def text : Instruction → String
  | alloca dst bytes => s!"%{dst} = alloca [{bytes.toNat} x i8], align 8"
  | movePtr dst base offset => s!"%{dst} = getelementptr i8, ptr {base.text}, i64 {offset.toInt}"
  | load dst type ptr => s!"%{dst} = load {type.name}, ptr {ptr.text}"
  | store value ptr => s!"store {value.typedText}, ptr {ptr.text}"
  | binary dst op lhs rhs => s!"%{dst} = {op.name} {lhs.typedText}, {rhs.text}"
  | icmp dst comparison lhs rhs => s!"%{dst} = icmp {comparison.name} {lhs.typedText}, {rhs.text}"
  | cast dst op value type => s!"%{dst} = {op.name} {value.typedText} to {type.name}"
  | loadRegister dst register => s!"%{dst} = load i64, ptr @{register.name}"
  | storeRegister register value => s!"store {value.typedText}, ptr @{register.name}"

end Instruction

/-- How a block ends. -/
inductive Terminator where
  | br (target : BlockIndex)
  | brIf (condition : Operand) (yes no : BlockIndex)
  | ret (value : Option Operand)
deriving DecidableEq, Repr

namespace Terminator

def successors : Terminator → List BlockIndex
  | br target => [target]
  | brIf _ yes no => [yes, no]
  | ret _ => []

def operands : Terminator → List Operand
  | br _ => []
  | brIf condition .. => [condition]
  | ret value => value.toList

end Terminator

end CodeRecovery.Graph
