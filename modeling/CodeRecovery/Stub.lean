/-
Native stubs: what the code of a handler tells about its bytecode slot, and what the code in front
of a protected routine tells about where its bytecode starts.
-/
import CodeRecovery.HandlerMap
import CodeRecovery.Native.Instruction

set_option autoImplicit false

namespace CodeRecovery

/-- Decoded native code in the order it runs. -/
abbrev Stub := List Native.Instruction

namespace Stub

open Native (Instruction Operand Register)

/-! ## Handlers -/

/-- How far an instruction moves the bytecode pointer forward. -/
def advanceOf (pointer : Register) (i : Instruction) : Int64 :=
  match i.mnemonic, i.operands with
  | .add, .register r :: .immediate _ value :: _ => if r = pointer then value.toInt64 else 0
  | .inc, .register r :: _ => if r = pointer then 1 else 0
  | _, _ => 0

/-- How far a handler moves the bytecode pointer before its first jump, in 64 bits. -/
def advance (pointer : Register) (stub : Stub) : Int64 :=
  ((stub.takeWhile (·.mnemonic ≠ .jmp)).map (advanceOf pointer)).foldr (· + ·) 0

/-- The instruction that a handler implements, and the size of its slot. A handler that moves the
pointer backwards has no slot. -/
def classify (handlers : HandlerMap) (pointer : Register) (stub : Stub) : Opcode × Nat :=
  let opcode := match stub with
    | [] => .unknown
    | first :: _ => handlers.lookup first.ip
  (opcode, (advance pointer stub).toNatClampNeg)

/-! ## Entries -/

/-- How many bytes of code are looked at for an entry. -/
def entryWindow : Nat := 10

/-- The offset that the first instruction of an entry pushes. -/
def pushed? (i : Instruction) : Option UInt32 :=
  match i.mnemonic, i.operands with
  | .push, .immediate kind value :: _ =>
    if kind = .imm8to64 ∨ kind = .imm32to64 ∨ kind = .imm32 then some value.toUInt32 else none
  | _, _ => none

/-- Whether the instruction is a jump to a fixed place. -/
def jumpsAhead (i : Instruction) : Bool :=
  match i.mnemonic, i.operands with
  | .jmp, .branch _ :: _ => true
  | _, _ => false

/-- Where the bytecode of a routine starts, relative to the image base. An entry pushes that offset
and jumps into the virtual machine. -/
def bytecodeOffset (stub : Stub) : Except Failure UInt32 :=
  match stub with
  | first :: second :: _ =>
    match pushed? first with
    | none => .error (.precondition s!"expected push imm at {Text.address first.ip.toNat}")
    | some offset =>
      if jumpsAhead second then .ok offset
      else .error (.precondition s!"expected relative jmp at {Text.address second.ip.toNat}")
  | _ => .error (.precondition s!"expected 2 instructions, decoded {stub.length}")

end Stub

end CodeRecovery
