/-
The routine compiler: one block per bytecode address.

A handler is compiled once something leads to its address; handlers behind an exit are skipped until
a branch reaches them. Leaving the program by a branch at its last handler goes to the address
behind that handler, where the native context is restored once.
-/
import CodeRecovery.FlowOps
import CodeRecovery.Routine.Basic
import CodeRecovery.Settings
import Std.Data.TreeSet

set_option autoImplicit false

namespace CodeRecovery.Routine

/-- The state of the routine compiler. -/
structure Backend where
  routine : Routine
  /-- The address of the block that is being written. -/
  current : BytecodeAddress
  virtualRegisters : Nat
  /-- The addresses whose code is written. -/
  written : Std.TreeSet BytecodeAddress
  /-- The last handler left the routine, so nothing leads on to the next one. -/
  afterExit : Bool
  journal : Journal

namespace Backend

def new (s : Settings) : Backend where
  routine := .new 0
  current := 0
  virtualRegisters := s.virtualRegisters
  written := ∅
  afterExit := false
  journal := #[]

def report (event : Journal.Event) : Action Backend Unit :=
  modify fun b => { b with journal := b.journal.push event }

/-! ## Operations of the virtual machine -/

/-- Changes the current block, which is made if it is missing. -/
def onBlock (b : Backend) (change : Block → Block) : Backend :=
  { b with routine := (b.routine.create b.current).modifyBlock b.current change }

/-- Adds an instruction to the current block. -/
def emit (op : Operation) (operands : List Operand) : Action Backend Unit :=
  modify (·.onBlock (·.emit op operands))

/-- The current block. -/
def block (b : Backend) : Block :=
  (b.routine.block? b.current).getD { address := b.current }

/-- A temporary that the current block does not use yet. -/
def freshTemporary (w : Width) : Action Backend Operand :=
  modifyGet fun b =>
    let bits := UInt32.ofNat w.bits
    ((b.block.freshTemporary bits).1, b.onBlock fun block => (block.freshTemporary bits).2)

/-- A constant of a width. -/
def constantOf (w : Width) (n : Word) : Operand :=
  .immediate (w.cut n) (UInt32.ofNat w.bits)

/-- A virtual register at a number of bits; its number has 32 bits. -/
def vregOf (index : Nat) (bits : Nat) : Operand :=
  .register (.virtual (UInt32.ofNat index)) (UInt32.ofNat bits)

/-- Writes the answer of a comparison with zero to a temporary. -/
def compareWithZero (op : Operation) (w : Width) (value : Operand) : Action Backend Operand := do
  let answer ← freshTemporary .bit
  emit op [answer, value, constantOf w 0]
  return answer

instance : StackOps Backend Operand where
  virtualRegisters b := b.virtualRegisters
  constant w n := pure (constantOf w n)
  push _ value := emit .push [value]
  pop w := do
    let value ← freshTemporary w
    emit .pop [value]
    return value
  getVreg w index := pure (vregOf index w.bits)
  setVreg _ index value := emit .mov [vregOf index 64, value]
  getVsp := pure .stackPointer
  setVsp value := emit .mov [.stackPointer, value]
  getRegister r := pure (.saved r)
  setRegister r value := emit .mov [.saved r, value]
  binary op w lhs rhs := do
    let result ← freshTemporary w
    emit .mov [result, lhs]
    emit (.ofBinary op) [result, rhs]
    return result
  signExtend _ value := do
    let result ← freshTemporary .qword
    emit .movsx [result, value]
    return result
  testZero w value := compareWithZero .te w value
  testNonzero w value := compareWithZero .tne w value
  load w address := do
    let value ← freshTemporary w
    emit .ldd [value, address, .word 0]
    return value
  store _ address value := emit .str [address, .word 0, value]
  saveRegisters := SavedRegister.pushOrder.forM fun
    | .flags => emit .pushf []
    | .gpr r => emit .push [.native r]
  restoreRegisters := SavedRegister.popOrder.forM fun
    | .flags => emit .popf []
    | .gpr r => emit .pop [.native r]

/-! ## Flow of control -/

/-- Leaves the routine with its result. -/
def leave : Action Backend Unit :=
  emit .vexit [.native returnRegister]

/-- The address that a successor starts at. -/
def addressFor (p : Program) : Destination → Action Backend BytecodeAddress
  | .handler position => return (← p.fetch position).address.toUInt64
  | .exit => return p.exitAddress

/-- Links the current block to a successor. The code behind the program is written on first use. -/
def leadTo (p : Program) (next : Destination) : Action Backend Unit := do
  let address ← addressFor p next
  modify fun b => { b with routine := b.routine.addEdge b.current address }
  let b ← get
  if next = .exit ∧ ¬ b.written.contains address then
    set { b with written := b.written.insert address, current := address }
    StackOps.restoreRegisters
    leave
    modify fun b' => { b' with current := b.current }

/-- Starts over with an empty routine. -/
def start (p : Program) : Action Backend Unit := do
  let entry := (← p.fetch 0).address.toUInt64
  modify fun b =>
    { b with routine := .new entry, current := entry, written := ∅, afterExit := false }

/-- The note on a handler that is compiled. -/
def enterEvent (h : Handler) : Journal.Event :=
  .debug s!"Lowering {h.text} into vip {Text.address h.address.toNat}"

/-- Goes to the block of a handler, unless it is written or nothing leads to it yet. -/
def enter (p : Program) (position : Nat) : Action Backend Visit := do
  let h ← p.fetch position
  let address := h.address.toUInt64
  let b ← get
  if b.written.contains address then return .skip
  else if b.routine.hasBlock address then do
    report (enterEvent h)
    modify fun b =>
      { b with current := address, written := b.written.insert address, afterExit := false }
    return .lower
  else if b.afterExit then return .skip
  else Action.fail (.missingBlock h.opcode position)

/-- The first handler that something leads to and that is not written. -/
def pending (p : Program) (b : Backend) : Option Nat :=
  p.findIdx? fun h =>
    let address := h.address.toUInt64
    b.routine.hasBlock address && !b.written.contains address

instance : FlowOps Backend Operand where
  start := start
  enter := enter
  jump p next := do
    let target ← addressFor p next
    emit .jmp [.word target]
    leadTo p next
  branch p condition taken otherwise := do
    let yes ← addressFor p (.handler taken)
    let no ← addressFor p otherwise
    emit .js [condition, .word yes, .word no]
    leadTo p (.handler taken)
    leadTo p otherwise
  ret := do
    leave
    modify fun b => { b with afterExit := true }
  pending := pending
  report := report

/-! ## Whole programs -/

/-- The summary of a compiled program. -/
def summary (r : Routine) : Journal.Event :=
  .info s!"Emitted {r.size} routine blocks ({r.totalInstructions} instructions)"

/-- Compiles a program. -/
def run (p : Program) : Action Backend Unit := do
  if p.isEmpty then Action.fail .emptyProgram
  p.compile
  report (summary (← get).routine)

end Backend

end CodeRecovery.Routine
