/-
The instruction set of the virtual machine, and how each instruction uses the virtual stack.
-/
import CodeRecovery.Width

set_option autoImplicit false

namespace CodeRecovery

/-- The instructions of the virtual machine. `unknown` stands for a handler nobody has
identified. -/
inductive Opcode where
  | unknown
  | vmInit
  | vmExit
  | popVr64
  | popVr32
  | pushVr64
  | pushVr32
  | pushVsp
  | popVsp
  | push64
  | push32
  | sub64
  | sub32
  | add64
  | add32
  | write32
  | load32
  | load64
  | or32
  | and32
  | xor32
  | jnz
deriving DecidableEq, Repr

namespace Opcode

/-- All instructions, by increasing code. -/
def all : List Opcode :=
  [unknown, vmInit, vmExit, popVr64, popVr32, pushVr64, pushVr32, pushVsp, popVsp, push64, push32,
    sub64, sub32, add64, add32, write32, load32, load64, or32, and32, xor32, jnz]

def name : Opcode → String
  | unknown => "UNKNOWN"
  | vmInit => "VM_INIT"
  | vmExit => "VM_EXIT"
  | popVr64 => "POP_VR64"
  | popVr32 => "POP_VR32"
  | pushVr64 => "PUSH_VR64"
  | pushVr32 => "PUSH_VR32"
  | pushVsp => "PUSH_VSP"
  | popVsp => "POP_VSP"
  | push64 => "PUSH_64"
  | push32 => "PUSH_32"
  | sub64 => "SUB64"
  | sub32 => "SUB32"
  | add64 => "ADD64"
  | add32 => "ADD32"
  | write32 => "WRITE32"
  | load32 => "LOAD32"
  | load64 => "LOAD64"
  | or32 => "OR_32"
  | and32 => "AND_32"
  | xor32 => "XOR_32"
  | jnz => "JNZ"

/-- The instruction with exactly this name. -/
def ofName? (name : String) : Option Opcode :=
  all.find? (·.name == name)

/-- The instruction's place in the instruction set. -/
def code (o : Opcode) : Nat :=
  all.idxOf o

/-- The operation and width of an arithmetic instruction. -/
def arithmetic? : Opcode → Option (BinaryOp × Width)
  | sub64 => some (.sub, .qword)
  | sub32 => some (.sub, .dword)
  | add64 => some (.add, .qword)
  | add32 => some (.add, .dword)
  | or32 => some (.or, .dword)
  | and32 => some (.and, .dword)
  | xor32 => some (.xor, .dword)
  | _ => none

end Opcode

/-- What an instruction takes from the virtual stack and what it leaves there, in order. -/
structure StackUse where
  pops : List Width
  pushes : List Width
deriving DecidableEq, Repr

namespace StackUse

/-- Bytes taken from the stack. -/
def poppedBytes (e : StackUse) : Nat :=
  (e.pops.map Width.bytes).foldr (· + ·) 0

/-- Bytes left on the stack. -/
def pushedBytes (e : StackUse) : Nat :=
  (e.pushes.map Width.bytes).foldr (· + ·) 0

/-- The change of stack depth in bytes; it is positive when the stack grows. -/
def growth (e : StackUse) : Int :=
  (e.pushedBytes : Int) - e.poppedBytes

end StackUse

namespace Opcode

/-- The native context on the stack: seventeen words. -/
def context : List Width :=
  List.replicate 17 .qword

/-- The stack discipline of an instruction. `popVsp` replaces the stack pointer, so its effect only
counts the value it takes. -/
def stackUse? : Opcode → Option StackUse
  | unknown => none
  | vmInit => some ⟨[], context⟩
  | vmExit => some ⟨context, []⟩
  | popVr64 | popVsp => some ⟨[.qword], []⟩
  | popVr32 => some ⟨[.dword], []⟩
  | pushVr64 | pushVsp | push64 => some ⟨[], [.qword]⟩
  | pushVr32 | push32 => some ⟨[], [.dword]⟩
  | sub64 | add64 => some ⟨[.qword, .qword], [.qword, .qword]⟩
  | sub32 | add32 | or32 | and32 | xor32 => some ⟨[.dword, .dword], [.dword, .qword]⟩
  | write32 => some ⟨[.qword, .dword], []⟩
  | load32 => some ⟨[.qword], [.dword]⟩
  | load64 => some ⟨[.qword], [.qword]⟩
  | jnz => some ⟨[.qword], []⟩

end Opcode

end CodeRecovery
