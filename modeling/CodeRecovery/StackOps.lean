/-
The meaning of the virtual machine's instructions.

Each instruction is said once, in terms of the operations a virtual machine offers: a stack, a file
of virtual registers, memory and the saved native registers. `StackOps` is that interface. A
simulator carries the operations out on words; a compiler emits code for them and hands around
operands instead of words. `Handler.perform` is the one definition both share.
-/
import CodeRecovery.Handler
import CodeRecovery.Register

set_option autoImplicit false

namespace CodeRecovery

/-- The operations of a virtual machine with state `σ` whose values are `V`. -/
class StackOps (σ : Type) (V : outParam Type) where
  /-- The number of virtual registers. -/
  virtualRegisters : σ → Nat
  constant : Width → Word → Action σ V
  push : Width → V → Action σ Unit
  pop : Width → Action σ V
  getVreg : Width → (index : Nat) → Action σ V
  setVreg : Width → (index : Nat) → V → Action σ Unit
  /-- The virtual stack pointer as a word. -/
  getVsp : Action σ V
  setVsp : V → Action σ Unit
  getRegister : SavedRegister → Action σ V
  setRegister : SavedRegister → V → Action σ Unit
  binary : BinaryOp → Width → (lhs rhs : V) → Action σ V
  /-- Widens a value of this width to a word, keeping its sign. -/
  signExtend : Width → V → Action σ V
  testZero : Width → V → Action σ V
  testNonzero : Width → V → Action σ V
  load : Width → (address : V) → Action σ V
  store : Width → (address value : V) → Action σ Unit
  /-- Pushes the native context. -/
  saveRegisters : Action σ Unit :=
    SavedRegister.pushOrder.forM fun r => do
      let value ← getRegister r
      push .qword value
  /-- Pops the native context. -/
  restoreRegisters : Action σ Unit :=
    SavedRegister.popOrder.forM fun r => do
      let value ← pop .qword
      setRegister r value

/-- Where control goes after an instruction. -/
inductive Outcome (V : Type) where
  | next
  /-- To the handler at `target` if the condition holds, otherwise to the next one. -/
  | branch (condition : V) (target : Word)
  | exit
deriving DecidableEq, Repr

section

variable {σ V : Type} [StackOps σ V]

open StackOps

/-- The flag word of an arithmetic result: the result is widened, compared with zero, and the answer
widened to a whole word. -/
def zeroFlag (w : Width) (result : V) : Action σ V := do
  let wide ← match w with
    | .qword => pure result
    | _ => signExtend w result
  let zero ← testZero .qword wide
  signExtend .bit zero

namespace Handler

/-- Takes two values, leaves the result and its flag word. The value on top is the right operand. -/
def performArithmetic (op : BinaryOp) (w : Width) : Action σ (Outcome V) := do
  let rhs ← pop w
  let lhs ← pop w
  let result ← binary op w lhs rhs
  push w result
  let flag ← zeroFlag w result
  push .qword flag
  return .next

/-- The virtual register a handler names. -/
def vreg (h : Handler) (position : Nat) : Action σ Nat := do
  if h.data.toNat < virtualRegisters (← get) then return h.data.toNat
  else Action.fail (.registerOutOfRange h.data position)

def performPopVreg (h : Handler) (w : Width) (position : Nat) : Action σ (Outcome V) := do
  let index ← h.vreg position
  let value ← pop w
  setVreg w index value
  return .next

def performPushVreg (h : Handler) (w : Width) (position : Nat) : Action σ (Outcome V) := do
  let index ← h.vreg position
  let value ← getVreg w index
  push w value
  return .next

def performLoad (w : Width) : Action σ (Outcome V) := do
  let address ← pop .qword
  let value ← load w address
  push w value
  return .next

/-- What a handler does; `position` is where it stands in its program. -/
def perform (h : Handler) (position : Nat) : Action σ (Outcome V) :=
  match h.opcode with
  | .unknown => Action.fail (.unknownOpcode h.address position)
  | .vmInit => do
    saveRegisters
    return .next
  | .vmExit => do
    restoreRegisters
    return .exit
  | .popVr64 => h.performPopVreg .qword position
  | .popVr32 => h.performPopVreg .dword position
  | .pushVr64 => h.performPushVreg .qword position
  | .pushVr32 => h.performPushVreg .dword position
  | .pushVsp => do
    let vsp ← getVsp
    push .qword vsp
    return .next
  | .popVsp => do
    let vsp ← pop .qword
    setVsp vsp
    return .next
  | .push64 => do
    let value ← constant .qword h.data
    push .qword value
    return .next
  | .push32 => do
    let value ← constant .dword (Width.dword.cut h.data)
    push .dword value
    return .next
  | .sub64 => performArithmetic .sub .qword
  | .sub32 => performArithmetic .sub .dword
  | .add64 => performArithmetic .add .qword
  | .add32 => performArithmetic .add .dword
  | .or32 => performArithmetic .or .dword
  | .and32 => performArithmetic .and .dword
  | .xor32 => performArithmetic .xor .dword
  | .write32 => do
    let address ← pop .qword
    let value ← pop .dword
    store .dword address value
    return .next
  | .load32 => performLoad .dword
  | .load64 => performLoad .qword
  | .jnz => do
    let flag ← pop .qword
    let condition ← testNonzero .qword flag
    return .branch condition h.data

end Handler

end

end CodeRecovery
