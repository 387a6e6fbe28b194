/-
What the graph compiler writes.

Every operation of the graph compiler adds a short run of instructions to the current block and
takes the next few value names for them; nothing else changes. `Backend.emitted` is that change, and
there is one equation per operation that spells the instructions out. Everything later files say
about emitted code, its numbering, its meaning and its defects, starts from these equations.

`Tidy` is the numbering: code that starts when `n` values exist assigns `n`, `n + 1`, … in this
order and only uses values that exist by then. It is closed under putting code behind code.
-/
import CodeRecovery.Graph.Backend
import CodeRecovery.Proofs.Coupling

set_option autoImplicit false

namespace CodeRecovery.Graph

/-! ## Code and its numbering -/

/-- An operand that names no value from `n` on. Constants name none at all. -/
def Operand.Below (n : Nat) (o : Operand) : Prop :=
  ∀ id : Nat, id ∈ o.value? → id < n

@[simp] theorem Operand.below_value {n id : Nat} {type : Ty} :
    (Operand.value id type).Below n ↔ id < n := by
  simp [Below, value?]

@[simp] theorem Operand.below_const {n : Nat} {type : Ty} {bits : Word} :
    (Operand.const type bits).Below n := by
  simp [Below, value?]

theorem Operand.Below.mono {n n' : Nat} {o : Operand} (h : o.Below n) (hle : n ≤ n') :
    o.Below n' :=
  fun id hid => Nat.lt_of_lt_of_le (h id hid) hle

/-- **Code that finds the values below `n` and leaves those below `n'`.** It assigns them in order
and uses only what it finds or has assigned, so that it can be put behind any code that leaves
`n`. -/
def Tidy : (n : Nat) → List Instruction → (n' : Nat) → Prop
  | n, [], n' => n = n'
  | n, i :: rest, n' => (∀ o ∈ i.operands, o.Below n) ∧
    match i.assigned? with
    | none => Tidy n rest n'
    | some dst => dst = n ∧ Tidy (n + 1) rest n'

/-- Code behind code takes up the numbering where the first one left off. -/
theorem Tidy.append {n n' n'' : Nat} {code code' : List Instruction} (h : Tidy n code n')
    (h' : Tidy n' code' n'') : Tidy n (code ++ code') n'' := by
  induction code generalizing n with
  | nil => exact h.symm ▸ h'
  | cons i rest ih =>
    refine ⟨h.1, ?_⟩
    have htail := h.2
    cases hi : i.assigned? with
    | none =>
      rw [hi] at htail
      exact ih htail
    | some dst =>
      rw [hi] at htail
      exact ⟨htail.1, ih htail.2⟩

/-- Values do not go away. -/
theorem Tidy.le {n n' : Nat} {code : List Instruction} (h : Tidy n code n') : n ≤ n' := by
  induction code generalizing n with
  | nil => exact Nat.le_of_eq h
  | cons i rest ih =>
    have htail := h.2
    cases hi : i.assigned? with
    | none =>
      rw [hi] at htail
      exact ih htail
    | some dst =>
      rw [hi] at htail
      exact Nat.le_of_succ_le (ih htail.2)

/-! ## Writing at a cursor -/

/-- The block with code behind its own. -/
def Block.extended (b : Block) (code : List Instruction) : Block :=
  { b with instructions := b.instructions ++ code.toArray }

/-- The block with an end. -/
def Block.ended (b : Block) (t : Terminator) : Block :=
  { b with terminator := some t }

/-- Two changes to one element are one change. -/
theorem modify_modify {α : Type} (a : Array α) (i : Nat) (f g : α → α) :
    (a.modify i f).modify i g = a.modify i (fun x => g (f x)) := by
  apply Array.ext
  · simp
  · intro j _ _
    simp only [Array.getElem_modify]
    split <;> rfl

namespace Cursor

/-- The cursor once code that assigns `count` values is added. -/
def emitted (c : Cursor) (code : List Instruction) (count : Nat) : Cursor :=
  { c with
    function := { c.function.modifyBlock c.current (·.extended code) with
      nextValue := c.function.nextValue + count } }

theorem nextValue_emitted (c : Cursor) (code : List Instruction) (count : Nat) :
    (c.emitted code count).function.nextValue = c.function.nextValue + count := rfl

theorem emitted_emitted (c : Cursor) (code code' : List Instruction) (count count' : Nat) :
    (c.emitted code count).emitted code' count' = c.emitted (code ++ code') (count + count') := by
  simp [emitted, Function.modifyBlock, modify_modify, Block.extended, Nat.add_assoc]

theorem run_bind {α β : Type} (x : Write α) (f : α → Write β) (c : Cursor) :
    (x >>= f).run c = (f (x.run c).1).run (x.run c).2 := rfl

theorem run_pure {α : Type} (a : α) (c : Cursor) : (pure a : Write α).run c = (a, c) := rfl

/-- Inserting one instruction is emitting code without values. -/
theorem run_insert (i : Instruction) (c : Cursor) : (insert i).run c = ((), c.emitted [i] 0) := by
  have hblock : ∀ b : Block, { b with instructions := b.instructions.push i } = b.extended [i] := by
    simp [Block.extended]
  change ((), { c with function := c.function.modifyBlock c.current _ }) = _
  simp only [hblock]
  rfl

theorem run_assign (type : Ty) (i : ValueName → Instruction) (c : Cursor) :
    (assign type i).run c
      = (.value c.function.nextValue type, c.emitted [i c.function.nextValue] 1) := rfl

end Cursor

namespace Backend

/-- The compiler once code that assigns `count` values is added. -/
def emitted (b : Backend) (code : List Instruction) (count : Nat) : Backend :=
  { b with cursor := b.cursor.emitted code count }

/-- The next value to be assigned. -/
def nextValue (b : Backend) : Nat :=
  b.cursor.function.nextValue

@[simp] theorem nextValue_emitted (b : Backend) (code : List Instruction) (count : Nat) :
    (b.emitted code count).nextValue = b.nextValue + count := rfl

theorem emitted_emitted (b : Backend) (code code' : List Instruction) (count count' : Nat) :
    (b.emitted code count).emitted code' count' = b.emitted (code ++ code') (count + count') := by
  rw [emitted, emitted, emitted, Cursor.emitted_emitted]

/-- Writing through the cursor cannot fail, whatever the block. -/
theorem run_write {α : Type} (w : Cursor.Write α) (b : Backend) :
    (write w).run b = .ok (w.run b.cursor).1 { b with cursor := (w.run b.cursor).2 } := rfl

/-! ## The code of each operation

`n` is the first free value name. -/

/-- Moves the stack pointer down in its cell, and stores the value where it points then. -/
def pushCode (slot : Operand) (n : Nat) (w : Width) (value : Operand) : List Instruction :=
  [.load n .ptr slot, .movePtr (n + 1) (.value n .ptr) (-(Int64.ofNat w.bytes)),
    .store (.value (n + 1) .ptr) slot, .store value (.value (n + 1) .ptr)]

/-- Loads the value where the stack pointer points, and moves it up behind that. -/
def popCode (slot : Operand) (n : Nat) (w : Width) : List Instruction :=
  [.load n .ptr slot, .load (n + 1) (.ofWidth w) (.value n .ptr),
    .movePtr (n + 2) (.value n .ptr) (Int64.ofNat w.bytes), .store (.value (n + 2) .ptr) slot]

/-- Loads from the place of a virtual register, which is eight bytes per register into the file. -/
def getVregCode (vregs : Operand) (n : Nat) (w : Width) (index : Nat) : List Instruction :=
  [.movePtr n vregs (Int64.ofNat (index * 8)), .load (n + 1) (.ofWidth w) (.value n .ptr)]

/-- Stores a whole word at the place of a virtual register. -/
def setWideVregCode (vregs : Operand) (n : Nat) (index : Nat) (value : Operand) :
    List Instruction :=
  [.movePtr n vregs (Int64.ofNat (index * 8)), .store value (.value n .ptr)]

/-- Stores a narrow value there, widened with zeros, so that the whole register is written over. -/
def setNarrowVregCode (vregs : Operand) (n : Nat) (index : Nat) (value : Operand) :
    List Instruction :=
  [.movePtr n vregs (Int64.ofNat (index * 8)), .cast (n + 1) .zext value .i64,
    .store (.value (n + 1) .i64) (.value n .ptr)]

/-- The stack pointer as a number. -/
def getVspCode (slot : Operand) (n : Nat) : List Instruction :=
  [.load n .ptr slot, .cast (n + 1) .ptrtoint (.value n .ptr) .i64]

/-- A number as the stack pointer. Nothing checks that it points into the stack. -/
def setVspCode (slot : Operand) (n : Nat) (value : Operand) : List Instruction :=
  [.cast n .inttoptr value .ptr, .store (.value n .ptr) slot]

/-- Loads from an address that is a number. -/
def loadCode (n : Nat) (w : Width) (address : Operand) : List Instruction :=
  [.cast n .inttoptr address .ptr, .load (n + 1) (.ofWidth w) (.value n .ptr)]

/-- Stores at an address that is a number. -/
def storeCode (n : Nat) (address value : Operand) : List Instruction :=
  [.cast n .inttoptr address .ptr, .store value (.value n .ptr)]

theorem run_push (b : Backend) (w : Width) (value : Operand) :
    (StackOps.push w value : Action Backend Unit).run b
      = .ok () (b.emitted (pushCode b.vspSlot b.nextValue w value) 2) := by
  simp only [StackOps.push, EStateM.run_bind, EStateM.run_get, run_write, pushAt, Cursor.load,
    Cursor.movePtr, Cursor.store, Cursor.run_bind, Cursor.run_assign, Cursor.run_insert,
    Cursor.nextValue_emitted, Cursor.emitted_emitted, List.cons_append, List.nil_append,
    Nat.reduceAdd, emitted, pushCode, nextValue]

theorem run_pop (b : Backend) (w : Width) :
    (StackOps.pop w : Action Backend Operand).run b
      = .ok (.value (b.nextValue + 1) (.ofWidth w))
        (b.emitted (popCode b.vspSlot b.nextValue w) 3) := by
  simp only [StackOps.pop, EStateM.run_bind, EStateM.run_get, run_write, popAt, Cursor.load,
    Cursor.movePtr, Cursor.store, Cursor.run_bind, Cursor.run_pure, Cursor.run_assign,
    Cursor.run_insert, Cursor.nextValue_emitted, Cursor.emitted_emitted, List.cons_append,
    List.nil_append, Nat.reduceAdd, emitted, popCode, nextValue]

theorem run_getVreg (b : Backend) (w : Width) (index : Nat) :
    (StackOps.getVreg w index : Action Backend Operand).run b
      = .ok (.value (b.nextValue + 1) (.ofWidth w))
        (b.emitted (getVregCode b.vregs b.nextValue w index) 2) := by
  simp only [StackOps.getVreg, EStateM.run_bind, EStateM.run_get, run_write, vregAt, Cursor.load,
    Cursor.movePtr, Cursor.run_bind, Cursor.run_assign, Cursor.nextValue_emitted,
    Cursor.emitted_emitted, List.cons_append, List.nil_append, Nat.reduceAdd, emitted, getVregCode,
    nextValue]

theorem run_setVreg_qword (b : Backend) (index : Nat) (value : Operand) :
    (StackOps.setVreg .qword index value : Action Backend Unit).run b
      = .ok () (b.emitted (setWideVregCode b.vregs b.nextValue index value) 1) := by
  simp only [StackOps.setVreg, EStateM.run_bind, EStateM.run_get, run_write, setVregAt, vregAt,
    Cursor.movePtr, Cursor.store, Cursor.run_bind, Cursor.run_pure, Cursor.run_assign,
    Cursor.run_insert, Cursor.emitted_emitted, List.cons_append, List.nil_append, Nat.reduceAdd,
    emitted, setWideVregCode, nextValue]

theorem run_setVreg_narrow (b : Backend) {w : Width} (hw : w ≠ .qword) (index : Nat)
    (value : Operand) :
    (StackOps.setVreg w index value : Action Backend Unit).run b
      = .ok () (b.emitted (setNarrowVregCode b.vregs b.nextValue index value) 2) := by
  cases w with
  | qword => exact absurd rfl hw
  | bit | dword =>
    simp only [StackOps.setVreg, EStateM.run_bind, EStateM.run_get, run_write, setVregAt, vregAt,
      Cursor.movePtr, Cursor.cast, Cursor.store, Cursor.run_bind, Cursor.run_assign,
      Cursor.run_insert, Cursor.nextValue_emitted, Cursor.emitted_emitted, List.cons_append,
      List.nil_append, Nat.reduceAdd, emitted, setNarrowVregCode, nextValue]

theorem run_getVsp (b : Backend) :
    (StackOps.getVsp : Action Backend Operand).run b
      = .ok (.value (b.nextValue + 1) .i64) (b.emitted (getVspCode b.vspSlot b.nextValue) 2) := by
  simp only [StackOps.getVsp, EStateM.run_bind, EStateM.run_get, run_write, Cursor.load,
    Cursor.cast, Cursor.run_bind, Cursor.run_assign, Cursor.nextValue_emitted,
    Cursor.emitted_emitted, List.cons_append, List.nil_append, Nat.reduceAdd, emitted, getVspCode,
    nextValue]

theorem run_setVsp (b : Backend) (value : Operand) :
    (StackOps.setVsp value : Action Backend Unit).run b
      = .ok () (b.emitted (setVspCode b.vspSlot b.nextValue value) 1) := by
  simp only [StackOps.setVsp, EStateM.run_bind, EStateM.run_get, run_write, Cursor.cast,
    Cursor.store, Cursor.run_bind, Cursor.run_assign, Cursor.run_insert, Cursor.emitted_emitted,
    List.cons_append, List.nil_append, Nat.reduceAdd, emitted, setVspCode, nextValue]

theorem run_getRegister (b : Backend) (r : SavedRegister) :
    (StackOps.getRegister r : Action Backend Operand).run b
      = .ok (.value b.nextValue .i64) (b.emitted [.loadRegister b.nextValue r] 1) := rfl

theorem run_setRegister (b : Backend) (r : SavedRegister) (value : Operand) :
    (StackOps.setRegister r value : Action Backend Unit).run b
      = .ok () (b.emitted [.storeRegister r value] 0) := by
  simp only [StackOps.setRegister, run_write, Cursor.storeRegister, Cursor.run_insert, emitted]

theorem run_binary (b : Backend) (op : BinaryOp) (w : Width) (lhs rhs : Operand) :
    (StackOps.binary op w lhs rhs : Action Backend Operand).run b
      = .ok (.value b.nextValue lhs.type) (b.emitted [.binary b.nextValue op lhs rhs] 1) := rfl

theorem run_signExtend (b : Backend) (w : Width) (value : Operand) :
    (StackOps.signExtend w value : Action Backend Operand).run b
      = .ok (.value b.nextValue .i64) (b.emitted [.cast b.nextValue .sext value .i64] 1) := rfl

theorem run_testZero (b : Backend) (w : Width) (value : Operand) :
    (StackOps.testZero w value : Action Backend Operand).run b
      = .ok (.value b.nextValue .i1)
        (b.emitted [.icmp b.nextValue .eq value (.const (.ofWidth w) 0)] 1) := rfl

theorem run_testNonzero (b : Backend) (w : Width) (value : Operand) :
    (StackOps.testNonzero w value : Action Backend Operand).run b
      = .ok (.value b.nextValue .i1)
        (b.emitted [.icmp b.nextValue .ne value (.const (.ofWidth w) 0)] 1) := rfl

theorem run_load (b : Backend) (w : Width) (address : Operand) :
    (StackOps.load w address : Action Backend Operand).run b
      = .ok (.value (b.nextValue + 1) (.ofWidth w))
        (b.emitted (loadCode b.nextValue w address) 2) := by
  simp only [StackOps.load, run_write, Cursor.load, Cursor.cast, Cursor.run_bind, Cursor.run_assign,
    Cursor.nextValue_emitted, Cursor.emitted_emitted, List.cons_append, List.nil_append,
    Nat.reduceAdd, emitted, loadCode, nextValue]

theorem run_store (b : Backend) (w : Width) (address value : Operand) :
    (StackOps.store w address value : Action Backend Unit).run b
      = .ok () (b.emitted (storeCode b.nextValue address value) 1) := by
  simp only [StackOps.store, run_write, Cursor.cast, Cursor.store, Cursor.run_bind,
    Cursor.run_assign, Cursor.run_insert, Cursor.emitted_emitted, List.cons_append, List.nil_append,
    Nat.reduceAdd, emitted, storeCode, nextValue]

/-! ## The native context -/

open StackOps

/-- Saves native registers one after the other, each by a push of its own. -/
def saveCode (slot : Operand) : Nat → List SavedRegister → List Instruction
  | _, [] => []
  | n, r :: rest =>
    .loadRegister n r :: pushCode slot (n + 1) .qword (.value n .i64) ++ saveCode slot (n + 3) rest

/-- Restores native registers one after the other, each by a pop of its own. -/
def restoreCode (slot : Operand) : Nat → List SavedRegister → List Instruction
  | _, [] => []
  | n, r :: rest =>
    popCode slot n .qword ++ .storeRegister r (.value (n + 1) .i64) :: restoreCode slot (n + 3) rest

/-- No code changes nothing, also where there is no current block. -/
theorem emitted_nil (b : Backend) : b.emitted [] 0 = b := by
  have hblocks : b.cursor.function.blocks.modify b.cursor.current (·.extended [])
      = b.cursor.function.blocks := by
    apply Array.ext
    · simp
    · intro i _ _
      simp [Array.getElem_modify, Block.extended]
  rw [emitted, Cursor.emitted, Function.modifyBlock, hblocks]
  rfl

/-- One register takes three values: what it holds, and the two of a push. -/
theorem run_saveRegister (b : Backend) (r : SavedRegister) :
    (saveRegister r).run b = .ok () (b.emitted
      (.loadRegister b.nextValue r ::
        pushCode b.vspSlot (b.nextValue + 1) .qword (.value b.nextValue .i64)) 3) := by
  rw [saveRegister, Action.run_bind_of_ok (run_getRegister b r), run_push, emitted_emitted]
  rfl

/-- The same for restoring, where the pop has all three. -/
theorem run_restoreRegister (b : Backend) (r : SavedRegister) :
    (restoreRegister r).run b = .ok () (b.emitted
      (popCode b.vspSlot b.nextValue .qword ++ [.storeRegister r (.value (b.nextValue + 1) .i64)])
      3) := by
  rw [restoreRegister, Action.run_bind_of_ok (run_pop b .qword), run_setRegister, emitted_emitted]
  rfl

/-- The registers are saved in the order of the list, with the numbering carried on. -/
theorem run_forM_saveRegister (b : Backend) (rs : List SavedRegister) :
    (rs.forM saveRegister : Action Backend PUnit).run b
      = .ok () (b.emitted (saveCode b.vspSlot b.nextValue rs) (3 * rs.length)) := by
  induction rs generalizing b with
  | nil => exact congrArg _ (emitted_nil b).symm
  | cons r rest ih =>
    rw [List.forM, Action.run_bind_of_ok (run_saveRegister b r), ih, emitted_emitted,
      List.length_cons, Nat.mul_succ, Nat.add_comm 3]
    rfl

/-- Registers are restored in the order of the list, three values for each. -/
theorem run_forM_restoreRegister (b : Backend) (rs : List SavedRegister) :
    (rs.forM restoreRegister : Action Backend PUnit).run b
      = .ok () (b.emitted (restoreCode b.vspSlot b.nextValue rs) (3 * rs.length)) := by
  induction rs generalizing b with
  | nil => exact congrArg _ (emitted_nil b).symm
  | cons r rest ih =>
    rw [List.forM, Action.run_bind_of_ok (run_restoreRegister b r), ih, emitted_emitted,
      List.length_cons, Nat.mul_succ, Nat.add_comm 3, List.append_assoc]
    rfl

/-- The code that restores the native context. -/
def epilogue (slot : Operand) (n : Nat) : List Instruction :=
  restoreCode slot n SavedRegister.popOrder

/-- There are seventeen registers, and three values for each. -/
theorem run_saveRegisters (b : Backend) :
    (saveRegisters : Action Backend Unit).run b
      = .ok () (b.emitted (saveCode b.vspSlot b.nextValue SavedRegister.pushOrder) 51) :=
  run_forM_saveRegister b SavedRegister.pushOrder

theorem run_restoreRegisters (b : Backend) :
    (restoreRegisters : Action Backend Unit).run b
      = .ok () (b.emitted (epilogue b.vspSlot b.nextValue) 51) :=
  run_forM_restoreRegister b SavedRegister.popOrder

/-! ## Ends of blocks -/

/-- The compiler once the current block has an end. -/
def terminated (b : Backend) (t : Terminator) : Backend :=
  { b with cursor := { b.cursor with
      function := b.cursor.function.modifyBlock b.cursor.current (·.ended t) } }

/-- Leaving reads the result register and returns it. The native context is not touched here; where
it has to be restored, that comes before. -/
theorem run_leave (b : Backend) :
    leave.run b = .ok () ((b.emitted [.loadRegister b.nextValue (.gpr returnRegister)] 1).terminated
      (.ret (some (.value b.nextValue .i64)))) := rfl

end Backend

end CodeRecovery.Graph
