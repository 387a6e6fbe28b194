/-
The graph compiler under any session.

Whatever call is made, the graph compiler only adds: values, blocks, code to a block. Between two
blocks it may turn to another one, and it always turns to one that is there. `Ready` is what this
leaves true after every session, from the first call on: there is a current block, and the place of
the virtual registers is no value that is still to be assigned.
-/
import CodeRecovery.Proofs.Graph.Layout
import CodeRecovery.Proofs.Session

set_option autoImplicit false

namespace CodeRecovery.Graph.Backend

open CodeRecovery.Action (Within Composes finalState)

/-- How many blocks there are. -/
def size (b : Backend) : Nat :=
  b.cursor.function.blocks.size

/-- Values and blocks may have been added, and the compiler may have turned to another block.
Nothing is said of the code in the blocks, which may have been written over at its end. -/
structure Onward (b b' : Backend) : Prop where
  name : b'.cursor.function.name = b.cursor.function.name
  values : b.nextValue ≤ b'.nextValue
  blocks : b.size ≤ b'.size
  vregs : b'.vregs = b.vregs
  current : b.cursor.current < b.size → b'.cursor.current < b'.size

/-- There is a block to write to, and the virtual registers have their place. -/
structure Ready (b : Backend) : Prop where
  current : b.cursor.current < b.size
  vregs : b.vregs.Below b.nextValue

/-- What only adds keeps the compiler ready. -/
theorem Onward.ready {b b' : Backend} (h : b.Onward b') (hb : b.Ready) : b'.Ready where
  current := h.current hb.current
  vregs := h.vregs ▸ hb.vregs.mono h.values

theorem composes_onward : Composes Onward where
  refl _ := ⟨rfl, Nat.le_refl _, Nat.le_refl _, rfl, id⟩
  trans h h' :=
    ⟨h'.name.trans h.name, Nat.le_trans h.values h'.values, Nat.le_trans h.blocks h'.blocks,
    h'.vregs.trans h.vregs, h'.current ∘ h.current⟩

@[simp] theorem size_emitted (b : Backend) (code : List Instruction) (count : Nat) :
    (b.emitted code count).size = b.size := by
  simp [size, emitted, Cursor.emitted, Function.modifyBlock]

@[simp] theorem size_terminated (b : Backend) (t : Terminator) :
    (b.terminated t).size = b.size := by
  simp [size, terminated, Function.modifyBlock]

/-- Code takes values and no blocks. -/
theorem onward_emitted (b : Backend) (code : List Instruction) (count : Nat) :
    b.Onward (b.emitted code count) where
  name := rfl
  values := Nat.le_add_right _ _
  blocks := Nat.le_of_eq (size_emitted b code count).symm
  vregs := rfl
  current h := by
    rw [size_emitted]
    exact h

/-- An end takes neither. -/
theorem onward_terminated (b : Backend) (t : Terminator) : b.Onward (b.terminated t) where
  name := rfl
  values := Nat.le_refl _
  blocks := Nat.le_of_eq (size_terminated b t).symm
  vregs := rfl
  current h := by
    rw [size_terminated]
    exact h

/-! ## The operations -/

/-- An action that adds code to the current block, which is what most operations are. -/
theorem within_of_emits {α : Type} {x : Action Backend α}
    (h : ∀ b : Backend, ∃ a code count, x.run b = .ok a (b.emitted code count)) :
    Within Onward x := by
  intro b
  obtain ⟨a, code, count, hrun⟩ := h b
  rw [hrun]
  exact onward_emitted b code count

/-- The two ways of writing a register both add code. -/
theorem within_setVreg (w : Width) (index : Nat) (v : Operand) :
    Within Onward (StackOps.setVreg w index v : Action Backend Unit) := by
  refine within_of_emits fun b => ?_
  by_cases hw : w = .qword
  · subst hw
    exact ⟨_, _, _, run_setVreg_qword b index v⟩
  · exact ⟨_, _, _, run_setVreg_narrow b hw index v⟩

/-- **No operation of the machine does anything but add code.** One line for each, by the equation
of its code. -/
theorem kept_operations : StackOps.Kept Onward where
  toComposes := composes_onward
  constant _ _ := composes_onward.pure _
  push w v := within_of_emits fun b => ⟨_, _, _, run_push b w v⟩
  pop w := within_of_emits fun b => ⟨_, _, _, run_pop b w⟩
  getVreg w index := within_of_emits fun b => ⟨_, _, _, run_getVreg b w index⟩
  setVreg := within_setVreg
  getVsp := within_of_emits fun b => ⟨_, _, _, run_getVsp b⟩
  setVsp v := within_of_emits fun b => ⟨_, _, _, run_setVsp b v⟩
  getRegister r := within_of_emits fun b => ⟨_, _, _, run_getRegister b r⟩
  setRegister r v := within_of_emits fun b => ⟨_, _, _, run_setRegister b r v⟩
  binary op w lhs rhs := within_of_emits fun b => ⟨_, _, _, run_binary b op w lhs rhs⟩
  signExtend w v := within_of_emits fun b => ⟨_, _, _, run_signExtend b w v⟩
  testZero w v := within_of_emits fun b => ⟨_, _, _, run_testZero b w v⟩
  testNonzero w v := within_of_emits fun b => ⟨_, _, _, run_testNonzero b w v⟩
  load w address := within_of_emits fun b => ⟨_, _, _, run_load b w address⟩
  store w address v := within_of_emits fun b => ⟨_, _, _, run_store b w address v⟩
  saveRegisters := within_of_emits fun b => ⟨_, _, _, run_saveRegisters b⟩
  restoreRegisters := within_of_emits fun b => ⟨_, _, _, run_restoreRegisters b⟩

/-! ## The flow of control -/

/-- Leaving adds code and an end. -/
theorem within_leave : Within Onward leave := by
  intro b
  rw [run_leave]
  exact composes_onward.trans (onward_emitted b _ _) (onward_terminated _ _)

theorem within_report (event : Journal.Event) : Within Onward (report event) :=
  fun _ => ⟨rfl, Nat.le_refl _, Nat.le_refl _, rfl, id⟩

theorem within_terminate (t : Terminator) : Within Onward (write (Cursor.terminate t)) :=
  fun b => onward_terminated b t

/-- A detour over another block, from where the compiler comes back to the block it was at. That
block is still there, since blocks do not go away. -/
theorem Onward.back {b b₁ b₂ : Backend} (h : b₁.Onward b₂)
    (hname : b₁.cursor.function.name = b.cursor.function.name)
    (hvalues : b.nextValue ≤ b₁.nextValue) (hblocks : b.size ≤ b₁.size)
    (hvregs : b₁.vregs = b.vregs) :
    b.Onward { b₂ with cursor := { b₂.cursor with current := b.cursor.current } } where
  name := h.name.trans hname
  values := Nat.le_trans hvalues h.values
  blocks := Nat.le_trans hblocks h.blocks
  vregs := h.vregs.trans hvregs
  current hb := Nat.lt_of_lt_of_le hb (Nat.le_trans hblocks h.blocks)

/-- The shared block is written on such a detour, unless it is there already. -/
theorem within_sharedExit : Within Onward sharedExit := by
  intro b
  rw [sharedExit, Action.run_bind_of_ok (EStateM.run_get b)]
  cases hexit : b.exit with
  | some block => exact composes_onward.refl b
  | none =>
    dsimp only
    rw [Action.run_bind_of_ok (run_write _ b), run_newBlock,
      Action.run_bind_of_ok (EStateM.run_modify _ _), Action.run_bind_of_ok (EStateM.run_get _),
      Action.run_bind_of_ok (run_moveTo _ _), Action.run_bind_of_ok (run_restoreRegisters _),
      Action.run_bind_of_ok (run_leave _), Action.run_bind_of_ok (run_moveTo _ _)]
    -- The exit block is written from any state; only then is it said which state that is.
    have hwritten := fun b₁ : Backend => composes_onward.trans
      (onward_emitted b₁ (epilogue b₁.vspSlot b₁.nextValue) 51) (within_leave _)
    refine (hwritten _).back rfl (Nat.le_refl _) ?_ rfl
    rw [size, size, Array.size_push]
    exact Nat.le_succ _

/-- Finding a block may make the shared one. -/
theorem within_blockOf (next : Destination) : Within Onward (blockOf next) := by
  cases next with
  | handler position =>
    exact composes_onward.bind composes_onward.get fun _ => composes_onward.ofIndex _
  | exit => exact within_sharedExit

/-- Entering a handler turns to its block. If the handler has none, nothing is done; if the block is
not in the function, the compiler stays where it is. -/
theorem within_enter (p : Program) (position : Nat) :
    Within Onward (FlowOps.enter p position : Action Backend Visit) := by
  refine composes_onward.bind (composes_onward.ofIndex _) fun h b => ?_
  rw [Action.run_bind_of_ok (EStateM.run_get b)]
  cases hblock : b.handlers[position]? with
  | none => exact composes_onward.refl b
  | some block =>
    dsimp only
    rw [Action.run_bind_of_ok (EStateM.run_get b)]
    cases hlabel : b.cursor.function.label? block with
    | none => exact composes_onward.refl b
    | some label =>
      -- A block with a label is a block that is there.
      have hlt : block < b.size := by
        obtain ⟨found, hfound, -⟩ := Option.map_eq_some_iff.1 hlabel
        exact (Array.getElem?_eq_some_iff.1 hfound).1
      exact ⟨rfl, Nat.le_refl _, Nat.le_refl _, rfl, fun _ => hlt⟩

theorem within_jump (p : Program) (next : Destination) :
    Within Onward (FlowOps.jump p next : Action Backend Unit) :=
  composes_onward.bind (within_blockOf next) fun target => within_terminate (.br target)

/-- A branch looks up one block and finds the other. -/
theorem within_branch (p : Program) (condition : Operand) (taken : Nat) (otherwise : Destination) :
    Within Onward (FlowOps.branch p condition taken otherwise : Action Backend Unit) := by
  refine composes_onward.bind composes_onward.get fun b => ?_
  refine composes_onward.bind (composes_onward.ofIndex _) fun yes => ?_
  refine composes_onward.bind (within_blockOf otherwise) fun no => ?_
  exact within_terminate (.brIf condition yes no)

/-- **Whatever the compiler is called to do, it only adds**, unless it starts over. -/
theorem kept_onward : FlowOps.Kept Onward where
  toKept := kept_operations
  enter := within_enter
  jump := within_jump
  branch := within_branch
  ret := within_leave
  report := within_report

/-! ## Sessions -/

/-- A new compiler has an empty block, and a place for the registers that is no value at all. -/
theorem ready_new (s : Settings) : (new s).Ready :=
  ⟨Nat.zero_lt_one, Operand.below_const⟩

/-- Starting sets the virtual registers aside behind whatever was there before, so their place is a
value that exists. -/
theorem ready_start (p : Program) {b : Backend} (hb : b.Ready) :
    (finalState ((FlowOps.start p : Action Backend Unit).run b)).Ready := by
  have hrest : ∀ handlers : List BlockIndex, Within Onward (do
      let first ← Action.ofIndex handlers.head?
      write (Cursor.br first)) :=
    fun _ => composes_onward.bind (composes_onward.ofIndex _)
      fun first => within_terminate (.br first)
  change (finalState ((start p).run b)).Ready
  rw [start, Action.run_bind_of_ok (EStateM.run_get b), Action.run_bind_of_ok (run_write _ b),
    Action.run_bind_of_ok (EStateM.run_modify _ _)]
  refine (hrest _ _).ready ?_
  simp only [Cursor.run_bind, Cursor.alloca, Cursor.movePtr, Cursor.store, Cursor.run_assign,
    Cursor.run_insert, Cursor.emitted_emitted, Cursor.nextValue_emitted, run_mapM_newBlock,
    Cursor.run_pure]
  refine ⟨?_, Operand.below_value.2 ?_⟩
  · simp only [size, Cursor.emitted, Function.modifyBlock, Array.size_append, Array.size_modify]
    exact Nat.lt_of_lt_of_le hb.current (Nat.le_add_right _ _)
  · show b.nextValue + 2 < b.nextValue + 4
    omega

/-- **After every session the compiler is ready**, whatever the calls were and whether or not they
succeeded. -/
theorem ready_play (s : Settings) (calls : List (Program × FlowCall Operand)) :
    (play (new s) calls).Ready :=
  kept_onward.invariant (fun h => h.ready) ready_start (ready_new s) calls

end CodeRecovery.Graph.Backend
