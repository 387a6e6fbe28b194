/-
What the routine language means.

A state has a flat memory of bytes, the virtual stack pointer, the virtual registers, the native
registers and the temporaries of the current block. An operand has a width and a value at that
width: of a register that is wider, its low bits. A temporary is gone at the end of its block and is
read at the width it was written with. Registers other than temporaries are written as a whole.

Whatever the language does not give a meaning to is stuck: an operand of an odd size, a narrowing
move, two widths in one operation, a single bit on the stack, a native register that is not a whole
general purpose one.
-/
import CodeRecovery.Proofs.LockStep
import CodeRecovery.Proofs.Memory
import CodeRecovery.Routine.Basic

set_option autoImplicit false

namespace CodeRecovery.Routine

/-- The width of an operand. Sizes that are no width of the machine have none, and such an operand
cannot be evaluated. -/
def Operand.width? (o : Operand) : Option Width :=
  Width.ofBits? o.bits.toNat

/-- An instruction without its place on the stack, on which nothing depends. -/
abbrev Code := Operation × List Operand

/-- What a block does. -/
def Block.code (b : Block) : List Code :=
  b.instructions.toList.map fun i => (i.op, i.operands)

/-- A state of a run. Memory starts out as zero, like that of the simulator. -/
structure State where
  memory : Memory
  /-- The virtual stack pointer. -/
  sp : Word
  vregs : UInt32 → Word
  registers : SavedRegister → Word
  /-- The temporaries that the block has written, with the width of each. -/
  temporaries : UInt32 → Option (Width × Word)

namespace State

/-- An empty stack, and all else zero but the native registers. -/
def initial (s : Settings) (registers : SavedRegister → Word) : State :=
  { memory := .empty, sp := Simulator.stackBase + UInt64.ofNat s.stackSize, vregs := fun _ => 0
    registers, temporaries := fun _ => none }

/-- What an operand stands for, for an access of some width. A temporary is read at the width it was
written with. -/
def content (st : State) (w : Width) : Operand → Option Word
  | .immediate value _ => some value
  | .register (.native r) _ => r.gpr?.map fun g => st.registers (.gpr g)
  | .register .flags _ => some (st.registers .flags)
  | .register .stackPointer _ => some st.sp
  | .register (.virtual index) _ => some (st.vregs index)
  | .register (.temporary index) _ =>
    match st.temporaries index with
    | some (w', x) => if w' = w then some x else none
    | none => none

/-- A whole native register stands for what it holds. -/
theorem content_native (st : State) (w : Width) (r : Gpr) :
    st.content w (.native r) = some (st.registers (.gpr r)) := by
  change Option.map _ (Native.Register.whole r).gpr? = _
  rw [Native.Register.gpr?_whole, Option.map_some]

/-- The width and the value of an operand. Of a register that is wider, only the low bits count. -/
def eval (st : State) (o : Operand) : Option (Width × Word) := do
  let w ← o.width?
  let x ← st.content w o
  return (w, w.cut x)

/-- The value of an operand that is a whole word. -/
def word (st : State) (o : Operand) : Option Word :=
  match st.eval o with
  | some (.qword, x) => some x
  | _ => none

/-- Writes a native register, as a whole. -/
def setRegister (st : State) (r : SavedRegister) (x : Word) : State :=
  { st with registers := fun r' => if r' = r then x else st.registers r' }

/-- Writes a virtual register, as a whole. -/
def setVreg (st : State) (index : UInt32) (x : Word) : State :=
  { st with vregs := fun index' => if index' = index then x else st.vregs index' }

/-- Writes a temporary, with the width it is to be read with. -/
def setTemporary (st : State) (index : UInt32) (w : Width) (x : Word) : State :=
  { st with temporaries := fun index' =>
    if index' = index then some (w, x) else st.temporaries index' }

/-- Writes to a place. All but temporaries take whole words only. -/
def put (st : State) : Place → Width → Word → Option State
  | .temporary index, w, x => some (st.setTemporary index w x)
  | .native r, .qword, x => r.gpr?.map fun g => st.setRegister (.gpr g) x
  | .flags, .qword, x => some (st.setRegister .flags x)
  | .stackPointer, .qword, x => some { st with sp := x }
  | .virtual index, .qword, x => some (st.setVreg index x)
  | _, _, _ => none

/-- A whole native register can be written. -/
theorem put_whole (st : State) (r : Gpr) (x : Word) :
    st.put (.native (.whole r)) .qword x = some (st.setRegister (.gpr r) x) := by
  change Option.map _ (Native.Register.whole r).gpr? = _
  rw [Native.Register.gpr?_whole, Option.map_some]

/-- Writes to an operand what `f` gives for its width. -/
def assign (st : State) (dst : Operand) (f : Width → Option Word) : Option State :=
  match dst with
  | .register place _ => do
    let w ← dst.width?
    let x ← f w
    st.put place w x
  | .immediate .. => none

/-- Lowers the stack pointer and stores a value there. -/
def push (st : State) (w : Width) (x : Word) : Option State :=
  if w = .bit then none
  else
    let sp := st.sp - UInt64.ofNat (w.bits / 8)
    some { st with sp, memory := st.memory.write w sp x }

/-- The value that the stack pointer leads to, and the state with the stack pointer raised. -/
def pop (st : State) (w : Width) : Option (Word × State) :=
  if w = .bit then none
  else some (st.memory.read w st.sp, { st with sp := st.sp + UInt64.ofNat (w.bits / 8) })

/-- Combines two operands of one width and writes the result to the first. -/
def update (st : State) (op : BinaryOp) (dst src : Operand) : Option State := do
  let (w, a) ← st.eval dst
  let (w', b) ← st.eval src
  if w = w' then st.assign dst fun _ => some (op.apply w a b) else none

/-- Writes to a single bit whether a comparison of two operands of one width holds. -/
def compare (st : State) (holds : Word → Word → Bool) (dst lhs rhs : Operand) : Option State := do
  let (w, a) ← st.eval lhs
  let (w', b) ← st.eval rhs
  if w = w' then
    st.assign dst fun
      | .bit => some (if holds a b then 1 else 0)
      | _ => none
  else none

/-- Carries out an instruction that does not end its block. With any other number of operands than
it takes, an instruction is stuck. -/
def exec (st : State) : Code → Option State
  | (.mov, [dst, src]) => do
    let (w, x) ← st.eval src
    st.assign dst fun w' => if w.bits ≤ w'.bits then some x else none
  | (.movsx, [dst, src]) => do
    let (w, x) ← st.eval src
    st.assign dst fun w' => if w.bits ≤ w'.bits then some (w'.cut (w.signExtend x)) else none
  | (.add, [dst, src]) => st.update .add dst src
  | (.sub, [dst, src]) => st.update .sub dst src
  | (.or, [dst, src]) => st.update .or dst src
  | (.and, [dst, src]) => st.update .and dst src
  | (.xor, [dst, src]) => st.update .xor dst src
  | (.te, [dst, lhs, rhs]) => st.compare (· == ·) dst lhs rhs
  | (.tne, [dst, lhs, rhs]) => st.compare (· != ·) dst lhs rhs
  | (.ldd, [dst, base, offset]) => do
    let a ← st.word base
    let k ← st.word offset
    st.assign dst fun w => if w = .bit then none else some (st.memory.read w (a + k))
  | (.str, [base, offset, src]) => do
    let a ← st.word base
    let k ← st.word offset
    let (w, x) ← st.eval src
    if w = .bit then none else some { st with memory := st.memory.write w (a + k) x }
  | (.push, [src]) => do
    let (w, x) ← st.eval src
    st.push w x
  | (.pop, [dst]) => do
    let w ← dst.width?
    let (x, st) ← st.pop w
    st.assign dst fun _ => some x
  | (.pushf, []) => st.push .qword (st.registers .flags)
  | (.popf, []) => do
    let (x, st) ← st.pop .qword
    return st.setRegister .flags x
  | _ => none

/-- Carries out instructions one after the other. -/
def execAll (st : State) : List Code → Option State
  | [] => some st
  | c :: rest => do
    let st ← st.exec c
    st.execAll rest

/-- Where an instruction that ends its block leads: to the address of a block, or out with a
result. -/
def follow (st : State) : Code → Stage BytecodeAddress State Word
  | (.js, [condition, yes, no]) =>
    match st.eval condition, st.word yes, st.word no with
    | some (.bit, x), some yes, some no => .entering (if x = 0 then no else yes) st
    | _, _, _ => .stuck
  | (.jmp, [target]) =>
    match st.word target with
    | some target => .entering target st
    | none => .stuck
  | (.vexit, [result]) =>
    match st.word result with
    | some x => .left x st
    | none => .stuck
  | _ => .stuck

/-- Runs code up to the first instruction that ends a block. Code without such an instruction is
stuck at its end. -/
def runCode (st : State) : List Code → Stage BytecodeAddress State Word
  | [] => .stuck
  | c :: rest =>
    if c.1.endsBlock then st.follow c
    else
      match st.exec c with
      | some st => st.runCode rest
      | none => .stuck

/-- The state as a block finds it, without the temporaries of the one before. -/
def atEntry (st : State) : State :=
  { st with temporaries := fun _ => none }

end State

/-- Runs the block at an address. Where there is none, the run is stuck. -/
def runBlock (r : Routine) (address : BytecodeAddress) (st : State) :
    Stage BytecodeAddress State Word :=
  match r.block? address with
  | some b => st.atEntry.runCode b.code
  | none => .stuck

/-- The run of a routine from its entry. The addresses of handlers are those at which it is compared
with the simulator. -/
def execution (r : Routine) (p : Program) (st : State) : BlockRun BytecodeAddress State Word where
  run := r.runBlock
  start := .entering r.entry st
  isHandler address := p.any (·.address.toUInt64 == address)

/-- The state of a run is that of a simulator, temporaries aside. Virtual registers are numbered by
32 bits on one side and are a row on the other. -/
structure Agrees (st : State) (m : Simulator) : Prop where
  memory : st.memory = m.memory
  sp : st.sp = m.vsp
  registers : st.registers = m.registers
  vregs : ∀ (i : Nat) (h : i < m.vregs.size), st.vregs (UInt32.ofNat i) = m.vregs[i]

namespace State

variable {st st' : State} {o : Operand} {w : Width} {x : Word}

theorem execAll_append (st : State) (code code' : List Code) :
    st.execAll (code ++ code') = (st.execAll code).bind (·.execAll code') := by
  induction code generalizing st with
  | nil => rfl
  | cons c rest ih =>
    rw [List.cons_append, execAll, execAll]
    cases st.exec c with
    | none => rfl
    | some st' => exact ih st'

/-- An instruction that ends a block cannot be passed over, so code that was carried out has
none. -/
theorem exec_of_endsBlock {c : Code} (h : c.1.endsBlock = true) : st.exec c = none := by
  obtain ⟨op, operands⟩ := c
  cases op with
  | js | jmp | vexit => rfl
  | _ => cases h

/-- A run over a whole block: its code is carried out, and its last instruction leads on. The code
in front has no such instruction, since it was carried out. -/
theorem runCode_append {code : List Code} {last : Code} (hexec : st.execAll code = some st')
    (hlast : last.1.endsBlock = true) : st.runCode (code ++ [last]) = st'.follow last := by
  induction code generalizing st with
  | nil =>
    cases hexec
    rw [List.nil_append, runCode, if_pos hlast]
  | cons c rest ih =>
    rw [execAll] at hexec
    obtain ⟨st₁, hc, hrest⟩ := Option.bind_eq_some_iff.1 hexec
    have hends : ¬ c.1.endsBlock = true := by
      intro hends
      rw [exec_of_endsBlock hends] at hc
      cases hc
    rw [List.cons_append, runCode, if_neg hends, hc]
    exact ih hrest

/-- The value of an operand fits its width, so it need not be cut again. -/
theorem cut_of_eval (h : st.eval o = some (w, x)) : w.cut x = x := by
  rw [eval] at h
  obtain ⟨w', -, h⟩ := Option.bind_eq_some_iff.1 h
  obtain ⟨x', -, h⟩ := Option.bind_eq_some_iff.1 h
  cases h
  exact Width.cut_cut _ x'

end State

end CodeRecovery.Routine
