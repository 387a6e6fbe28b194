/-
The graph compiler: one block per handler, in one function.

The virtual stack pointer and the virtual registers live in memory that the entry block sets aside,
so any flow of control between blocks is well formed. Leaving the program by a branch at its last
handler goes through one shared block, made when it is first needed.
-/
import CodeRecovery.FlowOps
import CodeRecovery.Graph.Cursor
import CodeRecovery.Graph.Verify
import CodeRecovery.Settings

set_option autoImplicit false

namespace CodeRecovery.Graph

/-- The state of the graph compiler. -/
structure Backend where
  cursor : Cursor
  stackSize : Nat
  virtualRegisters : Nat
  /-- Where the stack pointer is kept. -/
  vspSlot : Operand
  /-- Where the virtual registers are kept. -/
  vregs : Operand
  /-- The block of each handler. -/
  handlers : Array BlockIndex
  /-- The shared block that leaves the routine. -/
  exit : Option BlockIndex
  journal : Journal
deriving DecidableEq, Repr

namespace Backend

def moduleName : String := "devirt_module"

def functionName : String := "devirtualized"

def exitLabel : String := "vm_exit"

def new (s : Settings) : Backend where
  cursor := .new { name := functionName, returnType := .i64 } "entry"
  stackSize := s.stackSize
  virtualRegisters := s.virtualRegisters
  vspSlot := .const .ptr 0
  vregs := .const .ptr 0
  handlers := #[]
  exit := none
  journal := #[]

/-- Writes at the compiler's cursor. -/
def write {α : Type} (w : Cursor.Write α) : Action Backend α :=
  modifyGet fun b =>
    let (a, cursor) := w.run b.cursor
    (a, { b with cursor })

def report (event : Journal.Event) : Action Backend Unit :=
  modify fun b => { b with journal := b.journal.push event }

/-! ## Operations of the virtual machine -/

/-- Pushes a value: the stack pointer goes down first. -/
def pushAt (slot : Operand) (w : Width) (value : Operand) : Cursor.Write Unit := do
  let vsp ← Cursor.load .ptr slot
  let next ← Cursor.movePtr vsp (-(Int64.ofNat w.bytes))
  Cursor.store next slot
  Cursor.store value next

/-- Pops a value: the stack pointer goes up afterwards. -/
def popAt (slot : Operand) (w : Width) : Cursor.Write Operand := do
  let vsp ← Cursor.load .ptr slot
  let value ← Cursor.load (.ofWidth w) vsp
  let next ← Cursor.movePtr vsp (Int64.ofNat w.bytes)
  Cursor.store next slot
  return value

/-- The place of a virtual register. -/
def vregAt (vregs : Operand) (index : Nat) : Cursor.Write Operand :=
  Cursor.movePtr vregs (Int64.ofNat (index * 8))

/-- Writes a virtual register; the upper half of a narrow value is cleared. -/
def setVregAt (vregs : Operand) (w : Width) (index : Nat) (value : Operand) :
    Cursor.Write Unit := do
  let place ← vregAt vregs index
  let value ← match w with
    | .qword => pure value
    | _ => Cursor.cast .zext value .i64
  Cursor.store value place

instance : StackOps Backend Operand where
  virtualRegisters b := b.virtualRegisters
  constant w n := pure (.const (.ofWidth w) (w.cut n))
  push w value := do write (pushAt (← get).vspSlot w value)
  pop w := do write (popAt (← get).vspSlot w)
  getVreg w index := do
    let vregs := (← get).vregs
    write do
      let place ← vregAt vregs index
      Cursor.load (.ofWidth w) place
  setVreg w index value := do write (setVregAt (← get).vregs w index value)
  getVsp := do
    let slot := (← get).vspSlot
    write do
      let vsp ← Cursor.load .ptr slot
      Cursor.cast .ptrtoint vsp .i64
  setVsp value := do
    let slot := (← get).vspSlot
    write do
      let vsp ← Cursor.cast .inttoptr value .ptr
      Cursor.store vsp slot
  getRegister r := write (Cursor.loadRegister r)
  setRegister r value := write (Cursor.storeRegister r value)
  binary op _ lhs rhs := write (Cursor.binary op lhs rhs)
  signExtend _ value := write (Cursor.cast .sext value .i64)
  testZero w value := write (Cursor.icmp .eq value (.const (.ofWidth w) 0))
  testNonzero w value := write (Cursor.icmp .ne value (.const (.ofWidth w) 0))
  load w address := write do
    let ptr ← Cursor.cast .inttoptr address .ptr
    Cursor.load (.ofWidth w) ptr
  store _ address value := write do
    let ptr ← Cursor.cast .inttoptr address .ptr
    Cursor.store value ptr

/-! ## Flow of control -/

/-- Returns from the function with the routine's result. -/
def leave : Action Backend Unit :=
  write do
    let value ← Cursor.loadRegister (.gpr returnRegister)
    Cursor.ret (some value)

/-- The shared block that leaves the routine; it is written on first use. -/
def sharedExit : Action Backend BlockIndex := do
  match (← get).exit with
  | some block => return block
  | none => do
    let block ← write (Cursor.newBlock exitLabel)
    modify fun b => { b with exit := some block }
    let resume := (← get).cursor.current
    write (Cursor.moveTo block)
    StackOps.restoreRegisters
    leave
    write (Cursor.moveTo resume)
    return block

/-- The block that a successor starts with. -/
def blockOf : Destination → Action Backend BlockIndex
  | .handler position => do Action.ofIndex (← get).handlers[position]?
  | .exit => sharedExit

/-- The label of a handler's block. -/
def handlerLabel (h : Handler) (position : Nat) : String :=
  s!"{h.opcode.name}_{position}"

/-- Sets aside the virtual stack, the stack pointer and the virtual registers, and makes the blocks
of all handlers. -/
def start (p : Program) : Action Backend Unit := do
  let b ← get
  let (vspSlot, vregs, handlers) ← write do
    let stack ← Cursor.alloca (UInt64.ofNat b.stackSize)
    let vspSlot ← Cursor.alloca 8
    let vregs ← Cursor.alloca (UInt64.ofNat b.virtualRegisters * 8)
    let top ← Cursor.movePtr stack (Int64.ofNat b.stackSize)
    Cursor.store top vspSlot
    let handlers ← p.zipIdx.mapM fun (h, position) => Cursor.newBlock (handlerLabel h position)
    return (vspSlot, vregs, handlers)
  modify fun b => { b with vspSlot, vregs, handlers := handlers.toArray }
  let first ← Action.ofIndex handlers.head?
  write (Cursor.br first)

/-- The note on a handler that is compiled. -/
def enterEvent (h : Handler) (label : String) : Journal.Event :=
  .debug s!"Lowering {h.text} into {label}"

/-- Goes to the block of a handler. -/
def enter (p : Program) (position : Nat) : Action Backend Visit := do
  let h ← p.fetch position
  match (← get).handlers[position]? with
  | none => Action.fail (.missingBlock h.opcode position)
  | some block => do
    let label ← Action.ofIndex ((← get).cursor.function.label? block)
    report (enterEvent h label)
    write (Cursor.moveTo block)
    return .lower

instance : FlowOps Backend Operand where
  start := start
  enter := enter
  jump _ next := do
    let target ← blockOf next
    write (Cursor.br target)
  branch _ condition taken otherwise := do
    let yes ← Action.ofIndex (← get).handlers[taken]?
    let no ← blockOf otherwise
    write (Cursor.brIf condition yes no)
  ret := leave
  report := report

/-! ## Whole programs -/

/-- The summary of a compiled program. -/
def summary (blocks handlers : Nat) : Journal.Event :=
  .info s!"Emitted {blocks} blocks for {handlers} handlers"

/-- Compiles a program and checks the result. -/
def run (p : Program) : Action Backend Unit := do
  if p.isEmpty then Action.fail .emptyProgram
  p.compile
  let f := (← get).cursor.function
  match f.verify with
  | .error defect => Action.fail (.malformed defect.message)
  | .ok () => report (summary f.blocks.size p.length)

/-- The module that holds the compiled function. -/
def toModule (b : Backend) : Module :=
  { name := moduleName, functions := #[b.cursor.function] }

end Backend

end CodeRecovery.Graph
