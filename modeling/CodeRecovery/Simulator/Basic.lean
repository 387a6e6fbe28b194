/-
The simulator: the virtual machine carried out on words.

The virtual stack lies in ordinary memory and grows downwards. Nothing keeps a program from moving
its stack pointer elsewhere or from running past either end of the stack; all addresses wrap.
-/
import CodeRecovery.Settings
import CodeRecovery.Simulator.Memory
import CodeRecovery.StackOps

set_option autoImplicit false

namespace CodeRecovery

/-- The state of the virtual machine. -/
structure Simulator where
  memory : Memory
  /-- The virtual stack pointer. -/
  vsp : Word
  /-- Where the stack pointer started. -/
  top : Word
  vregs : Array Word
  /-- The native registers. -/
  registers : SavedRegister → Word

namespace Simulator

/-- The lowest address of the virtual stack. -/
def stackBase : Word := 0x7FFF00000000

/-- A machine with an empty stack and all else zero. -/
def new (stackSize virtualRegisters : Nat) : Simulator :=
  let top := stackBase + UInt64.ofNat stackSize
  { memory := .empty, vsp := top, top, vregs := Array.replicate virtualRegisters 0
    registers := fun _ => 0 }

def ofSettings (s : Settings) : Simulator :=
  new s.stackSize s.virtualRegisters

/-- How many bytes the stack holds; below zero if more was popped than pushed. -/
def depth (s : Simulator) : Int :=
  (s.top.toInt64 - s.vsp.toInt64).toInt

/-- The value `offset` bytes above the stack pointer. -/
def peek (s : Simulator) (w : Width) (offset : Word) : Word :=
  s.memory.read w (s.vsp + offset)

def setRegister (s : Simulator) (r : SavedRegister) (value : Word) : Simulator :=
  { s with registers := fun r' => if r' = r then value else s.registers r' }

def push (s : Simulator) (w : Width) (value : Word) : Simulator :=
  let vsp := s.vsp - UInt64.ofNat w.bytes
  { s with vsp, memory := s.memory.write w vsp value }

/-- The value on top of the stack, and the machine without it. -/
def pop (s : Simulator) (w : Width) : Word × Simulator :=
  (s.memory.read w s.vsp, { s with vsp := s.vsp + UInt64.ofNat w.bytes })

instance : StackOps Simulator Word where
  virtualRegisters s := s.vregs.size
  constant w n := pure (w.cut n)
  push w value := modify (·.push w value)
  pop w := modifyGet (·.pop w)
  getVreg w index := do
    let value ← Action.ofIndex (← get).vregs[index]?
    return w.cut value
  setVreg w index value := do
    if index < (← get).vregs.size then
      modify fun s => { s with vregs := s.vregs.setIfInBounds index (w.cut value) }
    else throw .outOfRange
  getVsp := return (← get).vsp
  setVsp value := modify fun s => { s with vsp := value }
  getRegister r := return (← get).registers r
  setRegister r value := modify (·.setRegister r value)
  binary op w lhs rhs := pure (op.apply w lhs rhs)
  signExtend w value := pure (w.signExtend value)
  testZero w value := pure (if w.cut value = 0 then 1 else 0)
  testNonzero w value := pure (if w.cut value = 0 then 0 else 1)
  load w address := return (← get).memory.read w address
  store w address value := modify fun s => { s with memory := s.memory.write w address value }

/-! ## Running a program -/

/-- What a step leads to. -/
inductive Progress where
  /-- To the handler at `next`; `taken` says that a branch led there. -/
  | advance (next : Nat) (taken : Bool)
  | exit
deriving DecidableEq, Repr

/-- Goes on at `next`. Behind the last handler the native context is restored and the program
ends. -/
def goTo (p : Program) (next : Nat) (taken : Bool) : Action Simulator Progress := do
  if next < p.length then return .advance next taken
  else
    StackOps.restoreRegisters
    return .exit

/-- Carries out the handler at a position. -/
def step (p : Program) (position : Nat) : Action Simulator Progress := do
  let h ← p.fetch position
  match ← h.perform position with
  | .exit => return .exit
  | .next => goTo p (position + 1) false
  | .branch condition target =>
    if condition = 0 then goTo p (position + 1) false
    else do
      let next ← Action.ofExcept (p.branchTarget target position)
      goTo p next true

/-- Makes at most `limit` steps from a position on, after `done` steps already made. Tells the
number of all steps if the program ended. -/
def runFrom (p : Program) : (limit done position : Nat) → Action Simulator (Option Nat)
  | 0, _, _ => return none
  | limit + 1, done, position => do
    match ← step p position with
    | .exit => return some (done + 1)
    | .advance next _ => runFrom p limit (done + 1) next

/-- Runs a program from its first handler for at most `limit` steps. -/
def run (p : Program) (limit : Nat) : Action Simulator (Option Nat) :=
  runFrom p limit 0 0

end Simulator

end CodeRecovery
