/-
What the graph language means.

A state has a flat memory of bytes, the native registers and the values assigned so far. The first
`alloca` is the virtual stack, which lies in flat memory where the simulator has it; every later one
is a cell of its own that no address of flat memory reaches. All memory is zero at first. Pointers
are therefore a region and an address in it, and moving one wraps.

Integers are words cut to their width. Whatever LLVM would not accept has no meaning here: an
operand of another type than its value, two widths in one operation, a cast that does not widen, and
a pointer into a cell that is turned into a number or stored.
-/
import CodeRecovery.Graph.Function
import CodeRecovery.Proofs.LockStep

set_option autoImplicit false

namespace CodeRecovery.Graph

/-- The parts of memory that pointers lead to. -/
inductive Region where
  | flat
  /-- A cell that is reached through its own `alloca` only. -/
  | cell (index : Nat)
deriving DecidableEq, Repr

/-- A pointer is a region and an address in it. Two pointers into different regions never meet,
whatever their addresses. -/
structure Pointer where
  region : Region
  address : Word
deriving DecidableEq, Repr

/-- An integer is kept with its width, so that an operand of another width than its value is
noticed. -/
inductive Value where
  | int (width : Width) (bits : Word)
  | ptr (target : Pointer)
deriving DecidableEq, Repr

/-- The width of an integer type. Pointers have none: they are not numbers until they are cast. -/
def Ty.width? : Ty → Option Width
  | i1 => some .bit
  | i32 => some .dword
  | i64 => some .qword
  | ptr => none

namespace Value

def type : Value → Ty
  | int w _ => .ofWidth w
  | ptr _ => .ptr

/-- The integer with the low bits of a word. -/
def ofWord (w : Width) (bits : Word) : Value :=
  int w (w.cut bits)

/-- The result of a cast. A cast has to widen, and only a pointer into flat memory is a number. -/
def cast : Cast → Ty → Value → Option Value
  | .sext, type, int w bits => do
    let w' ← type.width?
    if w.bits < w'.bits then some (ofWord w' (w.signExtend bits)) else none
  | .zext, type, int w bits => do
    let w' ← type.width?
    if w.bits < w'.bits then some (ofWord w' bits) else none
  | .ptrtoint, .i64, ptr ⟨.flat, address⟩ => some (int .qword address)
  | .inttoptr, .ptr, int .qword bits => some (ptr ⟨.flat, bits⟩)
  | _, _, _ => none

end Value

def Comparison.holds : Comparison → Word → Word → Bool
  | eq, a, b => a == b
  | ne, a, b => a != b

structure State where
  /-- The values assigned so far. -/
  values : ValueName → Option Value
  memory : Region → Memory
  registers : SavedRegister → Word
  /-- How many `alloca`s have been carried out. -/
  allocas : Nat

namespace State

/-- Nothing is assigned and all memory is zero. -/
def initial (registers : SavedRegister → Word) : State :=
  { values := fun _ => none, memory := fun _ => .empty, registers, allocas := 0 }

/-- Assigns a value. -/
def assign (st : State) (dst : ValueName) (v : Value) : State :=
  { st with values := fun id => if id = dst then some v else st.values id }

/-- Replaces the contents of a region and leaves the others. -/
def setMemory (st : State) (region : Region) (m : Memory) : State :=
  { st with memory := fun region' => if region' = region then m else st.memory region' }

def setRegister (st : State) (r : SavedRegister) (v : Word) : State :=
  { st with registers := fun r' => if r' = r then v else st.registers r' }

/-- The value of an operand, which must have the type that the operand gives. A pointer that is
written as a constant points into flat memory. -/
def eval (st : State) : Operand → Option Value
  | .value id type => (st.values id).filter (·.type = type)
  | .const .ptr bits => some (.ptr ⟨.flat, bits⟩)
  | .const .i1 bits => some (.ofWord .bit bits)
  | .const .i32 bits => some (.ofWord .dword bits)
  | .const .i64 bits => some (.ofWord .qword bits)

/-- The value of an operand that is an integer. -/
def integer (st : State) (o : Operand) : Option (Width × Word) :=
  match st.eval o with
  | some (.int w bits) => some (w, bits)
  | _ => none

/-- The value of an operand that is a pointer. -/
def pointer (st : State) (o : Operand) : Option Pointer :=
  match st.eval o with
  | some (.ptr target) => some target
  | _ => none

/-- Where the `alloca` with a number lies: the first is the virtual stack, and the others are cells
of their own. -/
def place : (number : Nat) → Pointer
  | 0 => ⟨.flat, Simulator.stackBase⟩
  | n + 1 => ⟨.cell n, 0⟩

/-- What a load finds. A pointer that is loaded points into flat memory, since no other kind can be
stored. -/
def fetch (st : State) (type : Ty) (source : Pointer) : Value :=
  match type.width? with
  | some w => .ofWord w ((st.memory source.region).read w source.address)
  | none => .ptr ⟨.flat, (st.memory source.region).read .qword source.address⟩

/-- Stores a value. A pointer into a cell has no number and cannot be stored. -/
def put (st : State) (target : Pointer) : Value → Option State
  | .int w bits =>
    some (st.setMemory target.region ((st.memory target.region).write w target.address bits))
  | .ptr ⟨.flat, address⟩ =>
    some (st.setMemory target.region
      ((st.memory target.region).write .qword target.address address))
  | .ptr ⟨.cell _, _⟩ => none

/-- Carries out an instruction, or gives nothing if it has no meaning in the state. -/
def exec (st : State) : Instruction → Option State
  | .alloca dst _ => some { st.assign dst (.ptr (place st.allocas)) with allocas := st.allocas + 1 }
  | .movePtr dst base offset => do
    let ⟨region, address⟩ ← st.pointer base
    return st.assign dst (.ptr ⟨region, address + offset.toUInt64⟩)
  | .load dst type ptr => do
    let source ← st.pointer ptr
    return st.assign dst (st.fetch type source)
  | .store value ptr => do
    let value ← st.eval value
    let target ← st.pointer ptr
    st.put target value
  | .binary dst op lhs rhs => do
    let (w, a) ← st.integer lhs
    let (w', b) ← st.integer rhs
    if w = w' then some (st.assign dst (.int w (op.apply w a b))) else none
  | .icmp dst comparison lhs rhs => do
    let (w, a) ← st.integer lhs
    let (w', b) ← st.integer rhs
    if w = w' then
      some (st.assign dst (.int .bit (if comparison.holds a b then 1 else 0)))
    else none
  | .cast dst op value type => do
    let value ← st.eval value
    let result ← value.cast op type
    return st.assign dst result
  | .loadRegister dst register => some (st.assign dst (.int .qword (st.registers register)))
  | .storeRegister register value => do
    let (w, bits) ← st.integer value
    if w = .qword then some (st.setRegister register bits) else none

/-- Carries out instructions one after the other, as long as each has a meaning. -/
def execAll (st : State) : List Instruction → Option State
  | [] => some st
  | i :: rest => do
    let st ← st.exec i
    st.execAll rest

/-- Where a terminator leads. The condition of a branch is a single bit. -/
def follow (st : State) : Terminator → Stage BlockIndex State (Option Value)
  | .br target => .entering target st
  | .brIf condition yes no =>
    match st.integer condition with
    | some (.bit, bits) => .entering (if bits = 0 then no else yes) st
    | _ => .stuck
  | .ret none => .left none st
  | .ret (some o) =>
    match st.eval o with
    | some v => .left (some v) st
    | none => .stuck

end State

/-- Runs a block to its end. A block without an end is stuck, and so is one whose code has no
meaning. -/
def Block.run (b : Block) (st : State) : Stage BlockIndex State (Option Value) :=
  match st.execAll b.instructions.toList, b.terminator with
  | some st', some t => st'.follow t
  | _, _ => .stuck

/-- Runs the block with an index. -/
def Function.runBlock (f : Function) (id : BlockIndex) (st : State) :
    Stage BlockIndex State (Option Value) :=
  match f.blocks[id]? with
  | some b => b.run st
  | none => .stuck

/-- The run of a function from its first block; `handlers` are the blocks of the program's
handlers. -/
def Function.execution (f : Function) (handlers : Array BlockIndex) (st : State) :
    BlockRun BlockIndex State (Option Value) where
  run := f.runBlock
  start := .entering 0 st
  isHandler id := handlers.contains id

namespace State

variable {st st' : State}

@[simp] theorem values_assign (st : State) (dst id : Nat) (v : Value) :
    (st.assign dst v).values id = if id = dst then some v else st.values id := rfl

@[simp] theorem memory_assign (st : State) (dst : ValueName) (v : Value) :
    (st.assign dst v).memory = st.memory := rfl

@[simp] theorem memory_setMemory (st : State) (region region' : Region) (m : Memory) :
    (st.setMemory region m).memory region' = if region' = region then m else st.memory region' :=
  rfl

/-- Code in a row is carried out in a row. -/
theorem execAll_append (st : State) (code code' : List Instruction) :
    st.execAll (code ++ code') = (st.execAll code).bind (·.execAll code') := by
  induction code generalizing st with
  | nil => rfl
  | cons i rest ih =>
    rw [List.cons_append, execAll, execAll]
    cases st.exec i with
    | none => rfl
    | some st' => exact ih st'

/-- Operands see nothing of a state but the values assigned, so memory and registers may change
under them. -/
theorem eval_congr {o : Operand} (h : ∀ id : Nat, id ∈ o.value? → st'.values id = st.values id) :
    st'.eval o = st.eval o := by
  cases o with
  | value id type => rw [eval, eval, h id rfl]
  | const type bits => cases type <;> rfl

end State

end CodeRecovery.Graph
