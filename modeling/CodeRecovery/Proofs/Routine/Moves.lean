/-
The moves of the routine compiler.

Whatever call is made, the compiler changes its state in four ways only: it adds an instruction to
the current block, numbers a temporary there, links the current block to another, or turns to a
block that is there already. A state is reached if such moves lead to it from an empty routine, and
every session on every program leads to a reached state. What the moves keep is then all that has to
be shown of anything that is to hold after every session.

Linking from the current block needs the block to be there: a link from nowhere would be recorded at
its target only. That is why moves are followed from states whose current block exists.
-/
import CodeRecovery.Proofs.Routine.Sealing
import CodeRecovery.Proofs.Session
import Mathlib.Logic.Relation

set_option autoImplicit false

namespace CodeRecovery.Routine

open CodeRecovery.Action (Within Composes finalState)
open Relation (ReflTransGen)

/-- A push or a pop has one operand. Other operations may have any, since nothing depends on them
here. -/
def Operation.Takes : Operation → List Operand → Prop
  | .push, operands | .pop, operands => operands.length = 1
  | _, _ => True

namespace Backend

/-- One change of the compiler's state. Links are from the current block, so they need no source. -/
inductive Move (b : Backend) : Backend → Prop
  | emit {op : Operation} {operands : List Operand} :
      op.Takes operands → Move b (b.onBlock (·.emit op operands))
  | number (bits : UInt32) : Move b (b.onBlock fun block => (block.freshTemporary bits).2)
  | link (target : BytecodeAddress) :
      Move b { b with routine := b.routine.addEdge b.current target }
  /-- The blocks stay as they are; the current one and those that count as written are among
  them. -/
  | turn {b' : Backend} : b'.routine = b.routine → b.Has b'.current →
      (∀ a, b'.written.contains a = true → b.written.contains a = true ∨ b.Has a) → Move b b'

/-- Any number of moves. -/
abbrev Moves : Backend → Backend → Prop :=
  ReflTransGen Move

/-- Moves lead on, provided that there is a current block to begin with. -/
def Onward (b b' : Backend) : Prop :=
  b.Has b.current → b.Moves b'

variable {b b' : Backend} {a : BytecodeAddress}

/-! ## Blocks stay -/

/-- A change of the current block removes none, and makes the current one if it was not there. -/
theorem has_onBlock (b : Backend) (change : Block → Block) {a : BytecodeAddress} (h : b.Has a) :
    (b.onBlock change).Has a := by
  rw [Has, block?_onBlock]
  by_cases ha : a = b.current
  · rw [if_pos ha]
    rfl
  · rw [if_neg ha]
    exact h

theorem has_current_onBlock (b : Backend) (change : Block → Block) :
    (b.onBlock change).Has b.current := by
  rw [Has, block?_onBlock, if_pos rfl]
  rfl

theorem has_addEdge_of_has (source target : BytecodeAddress) (h : b.Has a) :
    Has { b with routine := b.routine.addEdge source target } a := by
  rw [Has, block?_addEdge, Option.isSome_map]
  exact isSome_block?_create _ _ h

/-- A block that is there stays there. -/
theorem Move.has (h : b.Move b') (ha : b.Has a) : b'.Has a := by
  cases h with
  | emit _ => exact has_onBlock b _ ha
  | number bits => exact has_onBlock b _ ha
  | link target => exact has_addEdge_of_has _ _ ha
  | turn hroutine _ _ =>
    rw [Has, hroutine]
    exact ha

theorem Moves.has (h : b.Moves b') (ha : b.Has a) : b'.Has a := by
  induction h with
  | refl => exact ha
  | tail _ hmove ih => exact hmove.has ih

/-- The current block is there after a move, because a move turns to blocks that are there. -/
theorem Move.has_current (h : b.Move b') (hb : b.Has b.current) : b'.Has b'.current := by
  cases h with
  | emit _ => exact has_current_onBlock b _
  | number bits => exact has_current_onBlock b _
  | link target => exact has_addEdge_of_has _ _ hb
  | turn hroutine hcurrent _ =>
    rw [Has, hroutine]
    exact hcurrent

theorem Moves.has_current (h : b.Moves b') (hb : b.Has b.current) : b'.Has b'.current := by
  induction h with
  | refl => exact hb
  | tail _ hmove ih => exact hmove.has_current ih

/-- Turning to a block that counts as written from now on. -/
theorem Move.begin (ha : b.Has a) (hroutine : b'.routine = b.routine) (hcurrent : b'.current = a)
    (hwritten : b'.written = b.written.insert a) : b.Move b' := by
  refine .turn hroutine (hcurrent ▸ ha) fun a' ha' => ?_
  rw [hwritten, Std.TreeSet.contains_insert, Bool.or_eq_true, beq_iff_eq] at ha'
  rcases ha' with heq | hold
  · exact .inr (Std.LawfulEqCmp.eq_of_compare heq ▸ ha)
  · exact .inl hold

/-! ## The operations move -/

/-- Adding an instruction to the current block is a move along `R`, and so is numbering a temporary.
That is all the operations of the machine do, so such an `R` is kept by all of them. -/
structure Covers (R : Backend → Backend → Prop) : Prop extends Composes R where
  emit : ∀ (b : Backend) (op : Operation) (operands : List Operand), op.Takes operands →
    R b (b.onBlock (·.emit op operands))
  number : ∀ (b : Backend) (bits : UInt32),
    R b (b.onBlock fun block => (block.freshTemporary bits).2)

namespace Covers

variable {R : Backend → Backend → Prop} (hR : Covers R)

include hR

theorem within_emit (op : Operation) {operands : List Operand} (h : op.Takes operands) :
    Within R (Backend.emit op operands) :=
  fun b => hR.emit b op operands h

theorem within_freshTemporary (w : Width) : Within R (freshTemporary w) :=
  fun b => hR.number b _

/-- One instruction that writes to a fresh temporary. -/
theorem within_fresh (w : Width) (op : Operation) {operands : List Operand}
    (h : ∀ result, op.Takes (result :: operands)) :
    Within R (do
      let result ← freshTemporary w
      Backend.emit op (result :: operands)
      return result) := by
  refine hR.bind (hR.within_freshTemporary w) fun result => ?_
  refine hR.bind (hR.within_emit op (h result)) fun _ => ?_
  exact hR.pure _

/-- A copy and an operation on it. -/
theorem within_binary (op : BinaryOp) (w : Width) (lhs rhs : Operand) :
    Within R (StackOps.binary op w lhs rhs : Action Backend Operand) := by
  have htakes : ∀ operands, (Operation.ofBinary op).Takes operands := by
    intro operands
    cases op <;> trivial
  refine hR.bind (hR.within_freshTemporary w) fun result => ?_
  refine hR.bind (hR.within_emit .mov trivial) fun _ => ?_
  refine hR.bind (hR.within_emit _ (htakes _)) fun _ => ?_
  exact hR.pure _

/-- Saving and restoring is one instruction for each register. -/
theorem within_saveRegisters : Within R (StackOps.saveRegisters : Action Backend Unit) := by
  refine hR.forM (fun r => ?_) _
  cases r with
  | flags => exact hR.within_emit .pushf trivial
  | gpr r => exact hR.within_emit .push rfl

theorem within_restoreRegisters : Within R (StackOps.restoreRegisters : Action Backend Unit) := by
  refine hR.forM (fun r => ?_) _
  cases r with
  | flags => exact hR.within_emit .popf trivial
  | gpr r => exact hR.within_emit .pop rfl

/-- **The operations of the machine only add instructions to the current block and number
temporaries.** One line for each. -/
theorem kept : StackOps.Kept R where
  toComposes := hR.toComposes
  constant _ _ := hR.pure _
  push _ _ := hR.within_emit .push rfl
  pop w := hR.within_fresh w .pop fun _ => rfl
  getVreg _ _ := hR.pure _
  setVreg _ _ _ := hR.within_emit .mov trivial
  getVsp := hR.pure _
  setVsp _ := hR.within_emit .mov trivial
  getRegister _ := hR.pure _
  setRegister _ _ := hR.within_emit .mov trivial
  binary := hR.within_binary
  signExtend _ _ := hR.within_fresh .qword .movsx fun _ => trivial
  testZero _ _ := hR.within_fresh .bit .te fun _ => trivial
  testNonzero _ _ := hR.within_fresh .bit .tne fun _ => trivial
  load w _ := hR.within_fresh w .ldd fun _ => trivial
  store _ _ _ := hR.within_emit .str trivial
  saveRegisters := hR.within_saveRegisters
  restoreRegisters := hR.within_restoreRegisters

end Covers

theorem covers_onward : Covers Onward where
  refl _ _ := .refl
  -- The second part may only be used behind the first one, where the current block is there still.
  trans h h' hb := (h hb).trans (h' ((h hb).has_current hb))
  emit _ _ _ h _ := .single (.emit h)
  number _ bits _ := .single (.number bits)

/-! ## The flow of control moves -/

/-- Leaving is an instruction. -/
theorem within_leave : Within Onward leave :=
  covers_onward.within_emit .vexit trivial

theorem within_report (event : Journal.Event) : Within Onward (report event) :=
  fun _ hb => .single (.turn rfl hb fun _ ha => .inl ha)

/-- Looking up an address changes nothing, and may fail. -/
theorem within_addressFor (p : Program) (next : Destination) :
    Within Onward (addressFor p next) := by
  cases next with
  | handler position =>
    exact covers_onward.bind (covers_onward.ofIndex _) fun _ => covers_onward.pure _
  | exit => exact covers_onward.pure _

/-- The code behind the program is written in a block of its own, and the compiler comes back to the
block it was at, which is there still. -/
theorem onward_epilogue (b : Backend) {address : BytecodeAddress} (ha : b.Has address) :
    b.Onward (finalState (((do
      set { b with written := b.written.insert address, current := address }
      StackOps.restoreRegisters
      leave
      modify fun b' => { b' with current := b.current }) : Action Backend Unit).run b)) := by
  intro hb
  have hturn : b.Move { b with written := b.written.insert address, current := address } :=
    .begin ha rfl rfl rfl
  have hb₁ := hturn.has_current hb
  refine (ReflTransGen.single hturn).trans ?_
  rw [Action.run_bind_of_ok (EStateM.run_set _ b)]
  refine covers_onward.bind_at (covers_onward.within_restoreRegisters _)
    (fun _ b₂ hrestore => ?_) hb₁
  have hmoves := covers_onward.within_restoreRegisters.of_run hrestore hb₁
  have hb₂ := hmoves.has_current hb₁
  refine covers_onward.bind_at (within_leave b₂) fun _ b₃ hleave => ?_
  have hmoves' := within_leave.of_run hleave hb₂
  -- The block that the compiler comes back to has not gone away in between.
  have hhas : b₃.Has b.current := hmoves'.has (hmoves.has (hturn.has hb))
  exact fun _ => .single (.turn rfl hhas fun _ ha => .inl ha)

/-- Leading on links, and may make that detour. -/
theorem within_leadTo (p : Program) (next : Destination) : Within Onward (leadTo p next) := by
  refine covers_onward.bind (within_addressFor p next) fun address b => ?_
  have hlink : b.Onward { b with routine := b.routine.addEdge b.current address } :=
    fun _ => .single (.link address)
  -- A link makes the block that it leads to, so there is one to write the epilogue in.
  have hhas := has_addEdge b b.current address
  rw [Action.run_bind_of_ok (EStateM.run_modify _ b), Action.run_bind_of_ok (EStateM.run_get _)]
  refine covers_onward.trans hlink ?_
  generalize { b with routine := b.routine.addEdge b.current address } = b₁ at hhas
  by_cases hexit : next = .exit ∧ ¬ b₁.written.contains address
  · rw [if_pos hexit]
    exact onward_epilogue b₁ hhas
  · rw [if_neg hexit]
    exact covers_onward.refl b₁

/-- Entering turns to a block that is there, and otherwise skips the handler. -/
theorem within_enter (p : Program) (position : Nat) :
    Within Onward (FlowOps.enter p position : Action Backend Visit) := by
  refine covers_onward.bind (covers_onward.ofIndex _) fun h b => ?_
  rw [Action.run_bind_of_ok (EStateM.run_get b)]
  cases hwritten : b.written.contains h.address.toUInt64 with
  | true => exact covers_onward.refl b
  | false =>
    cases hblock : b.routine.hasBlock h.address.toUInt64 with
    | true =>
      have hhas : b.Has h.address.toUInt64 := (hasBlock_eq _ _).symm.trans hblock
      exact fun _ => .single (.begin hhas rfl rfl rfl)
    | false =>
      cases hexit : b.afterExit with
      | true => exact covers_onward.refl b
      | false => exact covers_onward.refl b

/-- A jump is an instruction and a link. -/
theorem within_jump (p : Program) (next : Destination) :
    Within Onward (FlowOps.jump p next : Action Backend Unit) := by
  refine covers_onward.bind (within_addressFor p next) fun target => ?_
  exact covers_onward.bind (covers_onward.within_emit .jmp trivial) fun _ => within_leadTo p next

/-- A branch is an instruction and two links. -/
theorem within_branch (p : Program) (condition : Operand) (taken : Nat) (otherwise : Destination) :
    Within Onward (FlowOps.branch p condition taken otherwise : Action Backend Unit) := by
  refine covers_onward.bind (within_addressFor p (.handler taken)) fun yes => ?_
  refine covers_onward.bind (within_addressFor p otherwise) fun no => ?_
  refine covers_onward.bind (covers_onward.within_emit .js trivial) fun _ => ?_
  exact covers_onward.bind (within_leadTo p _) fun _ => within_leadTo p otherwise

theorem within_ret : Within Onward (FlowOps.ret : Action Backend Unit) :=
  covers_onward.bind within_leave fun _ _ hb => .single (.turn rfl hb fun _ ha => .inl ha)

/-- **Whatever the compiler is called to do, it moves**, unless it starts over. It need not be
called in any order, nor for one program only. -/
theorem kept_onward : FlowOps.Kept Onward where
  toKept := covers_onward.kept
  enter := within_enter
  jump := within_jump
  branch := within_branch
  ret := within_ret
  report := within_report

/-! ## Sessions -/

/-- A routine with one empty block, which is the current one. -/
structure Blank (b : Backend) : Prop where
  routine : b.routine = .new b.current
  written : b.written = ∅

/-- Moves lead here from an empty routine, wherever its entry is. -/
def Reached (b : Backend) : Prop :=
  ∃ b₀ : Backend, b₀.Blank ∧ b₀.Moves b

/-- A new compiler has an empty routine. -/
theorem blank_new (s : Settings) : (new s).Blank :=
  ⟨rfl, rfl⟩

/-- Its only block is the current one. -/
theorem Blank.has_iff (h : b.Blank) : b.Has a ↔ a = b.current := by
  rw [Has, h.routine, block?_new]
  by_cases ha : a = b.current <;> simp [ha]

/-- A reached state has a current block, since it has one from the start. -/
theorem Reached.has_current (h : b.Reached) : b.Has b.current := by
  obtain ⟨b₀, hblank, hmoves⟩ := h
  exact hmoves.has_current (hblank.has_iff.2 rfl)

/-- Starting over leaves an empty routine, or everything as it was if there is nothing to start
with. -/
theorem start_cases (p : Program) (b : Backend) :
    finalState ((FlowOps.start p : Action Backend Unit).run b) = b ∨
      (finalState ((FlowOps.start p : Action Backend Unit).run b)).Blank := by
  cases p with
  | nil => exact .inl rfl
  | cons h rest => exact .inr ⟨rfl, rfl⟩

/-- **Every session leads to a state that moves lead to.** A call moves on from where the session
is, or starts over with an empty routine. -/
theorem reached_play (s : Settings) (calls : List (Program × FlowCall Operand)) :
    (play (new s) calls).Reached := by
  refine kept_onward.invariant ?_ ?_ ⟨_, blank_new s, .refl⟩ calls
  · intro b b' honward hreached
    have hmoves := honward hreached.has_current
    obtain ⟨b₀, hblank, hmoves₀⟩ := hreached
    exact ⟨b₀, hblank, hmoves₀.trans hmoves⟩
  · intro p b hreached
    rcases start_cases p b with hsame | hblank
    · rw [hsame]
      exact hreached
    · exact ⟨_, hblank, .refl⟩

end Backend

end CodeRecovery.Routine
