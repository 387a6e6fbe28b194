/-
The shape of a compiled function.

Which blocks there are, what they are called, how each of them ends and which of them leave the
routine, said by the program alone. Most of it can be read off the layout. What the layout leaves
open is which native registers the code of a handler writes; `Ledger` is a machine that knows
nothing else, and coupled with it the graph compiler is seen to write them in one place only: where
the native context is restored. So the blocks that return are exactly the ones that restore it.
-/
import CodeRecovery.Proofs.Graph.Acceptance
import CodeRecovery.Proofs.Session

set_option autoImplicit false

namespace CodeRecovery

/-! ## The machine that keeps book of native registers -/

/-- The native registers that an instruction of the virtual machine writes, in order. The one that
leaves writes all of them, and no other one writes any. -/
def Opcode.restored : Opcode → List SavedRegister
  | .vmExit => SavedRegister.popOrder
  | _ => []

theorem Opcode.restored_of_ne {o : Opcode} (hop : o ≠ .vmExit) : o.restored = [] := by
  cases o with
  | vmExit => exact absurd rfl hop
  | _ => rfl

/-- A machine of which only the native registers it has written are known. Its operations do
nothing, except the two that write native registers. -/
structure Ledger where
  virtualRegisters : Nat
  written : List SavedRegister

namespace Ledger

/-- Enters native registers behind those in the book. -/
def enter (t : Ledger) (rs : List SavedRegister) : Ledger :=
  { t with written := t.written ++ rs }

theorem enter_nil (t : Ledger) : t.enter [] = t := by
  rw [enter, List.append_nil]

instance : StackOps Ledger Unit where
  virtualRegisters t := t.virtualRegisters
  constant _ _ := pure ()
  push _ _ := pure ()
  pop _ := pure ()
  getVreg _ _ := pure ()
  setVreg _ _ _ := pure ()
  getVsp := pure ()
  setVsp _ := pure ()
  getRegister _ := pure ()
  setRegister r _ := modify (·.enter [r])
  binary _ _ _ _ := pure ()
  signExtend _ _ := pure ()
  testZero _ _ := pure ()
  testNonzero _ _ := pure ()
  load _ _ := pure ()
  store _ _ _ := pure ()
  saveRegisters := pure ()
  restoreRegisters := modify (·.enter SavedRegister.popOrder)

/-- A handler that is carried out writes the native registers of its instruction. Only the
instruction that leaves uses an operation that is not silent. -/
theorem eq_enter_of_perform {h : Handler} {position : Nat} {t t' : Ledger} {outcome : Outcome Unit}
    (hrun : (h.perform position : Action Ledger (Outcome Unit)).run t = .ok outcome t') :
    t' = t.enter h.opcode.restored := by
  cases hop : h.opcode with
  | unknown =>
    rw [Handler.perform, hop] at hrun
    cases hrun
  | vmExit =>
    rw [Handler.perform, hop] at hrun
    cases hrun
    rfl
  | popVr64 | popVr32 | pushVr64 | pushVr32 =>
    rw [Handler.perform, hop] at hrun
    obtain ⟨index, t₁, hvreg, hrest⟩ := Action.exists_of_run_bind_ok hrun
    obtain rfl := (h.within_vreg .eq position).of_run hvreg
    cases hrest
    exact (enter_nil t).symm
  | _ =>
    rw [Handler.perform, hop] at hrun
    cases hrun
    exact (enter_nil t).symm

end Ledger

namespace Graph

/-! ## Native registers in code -/

/-- The native register that an instruction writes. -/
def Instruction.stored? : Instruction → Option SavedRegister
  | .storeRegister r _ => some r
  | _ => none

/-- The native registers that code writes, in order. -/
def storedRegisters (code : List Instruction) : List SavedRegister :=
  code.filterMap Instruction.stored?

/-- Code behind code writes its registers behind those of the other. -/
theorem storedRegisters_append (code code' : List Instruction) :
    storedRegisters (code ++ code') = storedRegisters code ++ storedRegisters code' :=
  List.filterMap_append

/-! ## Blocks that leave the routine -/

/-- The block ends by returning. -/
def Block.Returns (block : Block) : Prop :=
  ∃ value, block.terminator = some (.ret value)

/-- The block restores the native context, all of it and in order, and last of all reads the result
register, whose value it returns. -/
structure Block.Leaves (block : Block) : Prop where
  restored : storedRegisters block.instructions.toList = SavedRegister.popOrder
  result : ∃ value, block.instructions.back? = some (.loadRegister value (.gpr .rax)) ∧
    block.terminator = some (.ret (some (.value value .i64)))

/-- A block either restores the native context and returns, or does neither and leaves the native
registers alone. -/
def Block.AllOrNothing (block : Block) : Prop :=
  block.Leaves ∨ ¬ block.Returns ∧ storedRegisters block.instructions.toList = []

theorem Block.Leaves.returns {block : Block} (hleaves : block.Leaves) : block.Returns :=
  let ⟨_, _, hterminator⟩ := hleaves.result
  ⟨_, hterminator⟩

/-! ## Ends of blocks -/

/-- `position` is the first one whose handler starts at `target`. -/
def FirstAt (p : Program) (target : Word) (position : Nat) : Prop :=
  (∃ h, p[position]? = some h ∧ h.address.toUInt64 = target) ∧
    ∀ earlier < position, ∀ h, p[earlier]? = some h → h.address.toUInt64 ≠ target

/-- How the block of the handler at a position ends. A block is one behind the position of its
handler, so the block behind it is at `position + 2`; behind the last handler that is the shared
block. -/
inductive Ending (p : Program) (position : Nat) (h : Handler) : Terminator → Prop
  | branch {condition : Operand} {taken : Nat} : h.opcode = .jnz → FirstAt p h.data taken →
      Ending p position h (.brIf condition (taken + 1) (position + 2))
  | exit {value : Option Operand} : h.opcode = .vmExit → Ending p position h (.ret value)
  | next : h.opcode ≠ .vmExit → h.opcode ≠ .jnz → position + 1 < p.length →
      Ending p position h (.br (position + 2))
  | last {value : Option Operand} : h.opcode ≠ .vmExit → h.opcode ≠ .jnz → position + 1 = p.length →
      Ending p position h (.ret value)

/-- A search finds the first one. -/
theorem firstAt_of_positionAt? {p : Program} {target : Word} {position : Nat}
    (hat : p.positionAt? target = some position) : FirstAt p target position := by
  obtain ⟨hlt, -, hearlier⟩ := List.findIdx?_eq_some_iff_getElem.1 hat
  refine ⟨Program.positionAt?_eq_some hat, fun earlier hlt' h hh => ?_⟩
  obtain ⟨_, rfl⟩ := List.getElem?_eq_some_iff.1 hh
  simpa using hearlier earlier hlt'

namespace Backend

/-! ## Native registers in the code of handlers -/

/-- Saving registers reads them. -/
theorem storedRegisters_saveCode (slot : Operand) (n : Nat) (rs : List SavedRegister) :
    storedRegisters (saveCode slot n rs) = [] := by
  induction rs generalizing n with
  | nil => rfl
  | cons r rest ih => exact ih (n + 3)

/-- Restoring registers writes each of them, in the order in which they are popped. -/
theorem storedRegisters_restoreCode (slot : Operand) (n : Nat) (rs : List SavedRegister) :
    storedRegisters (restoreCode slot n rs) = rs := by
  induction rs generalizing n with
  | nil => rfl
  | cons r rest ih => exact congrArg (r :: ·) (ih (n + 3))

/-- The code of the current block writes the native registers that are in the book. Nothing has to
be known of operands. -/
def bookedOf (registers : Nat) : Correspondence Backend Operand Ledger Unit where
  State _ b t := Placed b ∧ storedRegisters b.written = t.written ∧ b.virtualRegisters = registers ∧
    t.virtualRegisters = registers
  Now _ _ _ _ _ := True
  Held _ _ _ _ _ := True

section

variable {registers m m' count : Nat} {b : Backend} {t : Ledger} {α β : Type}
  {code : List Instruction}
  {rs : List SavedRegister} {R : Backend → Ledger → α → β → Prop} {a : α} {a' : β}
  {x : Action Backend α} {y : Action Ledger β}

/-- Code that writes the native registers that are entered. Only restoring them enters any. -/
theorem booked_joint (hstate : (bookedOf registers).State m b t)
    (hrun : x.run b = .ok a (b.emitted code count)) (hledger : y.run t = .ok a' (t.enter rs))
    (hstored : storedRegisters code = rs) (hR : R (b.emitted code count) (t.enter rs) a a') :
    (bookedOf registers).Joint m' b t R (x.run b) (y.run t) := by
  obtain ⟨hplaced, hwritten, hregisters, hregisters'⟩ := hstate
  rw [hrun, hledger]
  refine .ok ⟨hplaced.emitted .., ?_, hregisters, hregisters'⟩ (fun _ _ _ hheld => hheld) hR
  rw [written_emitted hplaced, storedRegisters_append, hwritten, hstored]
  rfl

/-- Code that writes no native register, which is that of every other operation. -/
theorem booked_still (hstate : (bookedOf registers).State m b t)
    (hrun : x.run b = .ok a (b.emitted code count)) (hledger : y.run t = .ok a' t)
    (hstored : storedRegisters code = []) (hR : R (b.emitted code count) t a a') :
    (bookedOf registers).Joint m' b t R (x.run b) (y.run t) :=
  booked_joint hstate hrun (t.enter_nil.symm ▸ hledger) hstored (t.enter_nil.symm ▸ hR)

end

/-- The graph compiler, coupled with the machine that keeps book of native registers. The code of an
operation is known, so what it writes is a matter of computing. -/
def booked (registers : Nat) : Coupling Backend Operand Ledger Unit where
  toCorrespondence := bookedOf registers
  now_of_held h := h
  weaken h := h
  registers := registers
  virtualRegisters h := h.2.2
  constant w c hstate := .ok hstate (Correspondence.Later.refl _ _) trivial
  push {_ s _ w v _} _ hstate _ := booked_still hstate (run_push s w v) rfl rfl trivial
  pop {_ s _ w} _ hstate := booked_still hstate (run_pop s w) rfl rfl trivial
  getVreg {_ s _ w index} _ hstate _ := booked_still hstate (run_getVreg s w index) rfl rfl trivial
  setVreg {_ s _ w index v _} _ hstate _ _ := by
    by_cases hw : w = .qword
    · subst hw
      exact booked_still hstate (run_setVreg_qword s index v) rfl rfl trivial
    · exact booked_still hstate (run_setVreg_narrow s hw index v) rfl rfl trivial
  getVsp {_ s _} hstate := booked_still hstate (run_getVsp s) rfl rfl trivial
  setVsp {_ s _ v _} hstate _ := booked_still hstate (run_setVsp s v) rfl rfl trivial
  binary {_ s _} op {w lhs rhs _ _} hstate _ _ :=
    booked_still hstate (run_binary s op w lhs rhs) rfl rfl trivial
  signExtend {_ s _ w v _} _ hstate _ := booked_still hstate (run_signExtend s w v) rfl rfl trivial
  testZero {_ s _ w v _} hstate _ := booked_still hstate (run_testZero s w v) rfl rfl trivial
  testNonzero {_ s _ w v _} hstate _ := booked_still hstate (run_testNonzero s w v) rfl rfl trivial
  load {_ s _ w v _} _ hstate _ := booked_still hstate (run_load s w v) rfl rfl trivial
  store {_ s _ w v _ v' _} _ hstate _ _ := booked_still hstate (run_store s w v v') rfl rfl trivial
  saveRegisters {_ s _} hstate :=
    booked_still hstate (run_saveRegisters s) rfl (storedRegisters_saveCode ..) trivial
  restoreRegisters {_ s _} hstate :=
    booked_joint hstate (run_restoreRegisters s) rfl (storedRegisters_restoreCode ..) trivial

variable {s : Settings} {p : Program} {b : Backend} {registers k n n' : Nat} {block : Block}
  {h : Handler} {code : List Instruction} {outcome : Outcome Operand}

/-- The code of a handler writes the native registers of its instruction. -/
theorem Body.storedRegisters_eq (hbody : Body registers n h k outcome code n') :
    storedRegisters code = h.opcode.restored := by
  obtain ⟨b, count, hplaced, hempty, rfl, -, hrun, -⟩ := hbody
  have hstate : (booked b.virtualRegisters).State 8 b ⟨b.virtualRegisters, []⟩ :=
    ⟨hplaced, by rw [hempty]; rfl, rfl, rfl⟩
  -- The handler is compiled into an empty block while the other machine starts with an empty book.
  have hjoint := (booked b.virtualRegisters).perform_joint (n := 0) h k hstate
  rw [hrun] at hjoint
  generalize hledger : (h.perform k : Action Ledger (Outcome Unit)).run _ = result at hjoint
  cases hjoint with
  | ok hstate' _ _ =>
    obtain ⟨-, hstored, -⟩ := hstate'
    rw [written_emitted hplaced, hempty, Ledger.eq_enter_of_perform hledger] at hstored
    exact hstored

/-! ## Compiled blocks -/

/-- Reading the result register behind code that restores the context makes a block that leaves. -/
theorem leaves_result (name : String) (hstored : storedRegisters code = SavedRegister.popOrder) :
    Block.Leaves ⟨name, (code ++ resultCode n).toArray, some (.ret (some (.value n .i64)))⟩ where
  restored := by
    rw [storedRegisters_append, hstored]
    rfl
  result := ⟨n, by simp [resultCode, returnRegister], rfl⟩

theorem storedRegisters_epilogue (slot : Operand) (n : Nat) :
    storedRegisters (epilogue slot n) = SavedRegister.popOrder :=
  storedRegisters_restoreCode slot n _

theorem leaves_exitBlock (n : Nat) : (exitBlock n).Leaves :=
  leaves_result exitLabel (storedRegisters_epilogue ..)

/-- A handler that does not leave writes no native register. -/
theorem Body.storedRegisters_eq_nil (hbody : Body registers n h k outcome code n')
    (hop : h.opcode ≠ .vmExit) : storedRegisters code = [] :=
  hbody.storedRegisters_eq.trans (Opcode.restored_of_ne hop)

/-- The block of a handler restores the context if it is the last one or leaves, and otherwise does
not touch it. -/
theorem Lowered.allOrNothing (hlowered : Lowered registers p k n block n') :
    block.AllOrNothing := by
  cases hlowered with
  | next _ hbody _ => exact .inr ⟨nofun, hbody.storedRegisters_eq_nil hbody.opcode.1⟩
  | last _ hbody _ =>
    refine .inl (leaves_result _ ?_)
    rw [storedRegisters_append, hbody.storedRegisters_eq_nil hbody.opcode.1,
      storedRegisters_epilogue]
    rfl
  | exit _ hbody =>
    have hop : _ = Opcode.vmExit := hbody.opcode
    refine .inl (leaves_result _ ?_)
    rw [hbody.storedRegisters_eq, hop]
    rfl
  | branch _ hbody _ =>
    obtain ⟨hop, -⟩ := hbody.opcode
    exact .inr ⟨nofun, hbody.storedRegisters_eq_nil (by simp [hop])⟩

/-- The entry block does not touch it either. -/
theorem Finished.allOrNothing (hfinished : Finished s p b) :
    ∀ block ∈ b.blocks, block.AllOrNothing :=
  hfinished.forall_blocks (.inr ⟨nofun, rfl⟩) (fun _ _ _ _ hlowered => hlowered.allOrNothing)
    fun n => .inl (leaves_exitBlock n)

/-! ## The shape -/

/-- The shape of the function compiled from a program. There is the entry block, a block for each
handler in the order of the program and, if the last handler is a branch, one more. -/
structure Shaped (p : Program) (b : Backend) : Prop where
  size : b.cursor.function.blocks.size = p.length + 1 + if p.endsInBranch then 1 else 0
  entry : ∃ block, b.cursor.function.blocks[0]? = some block ∧ block.name = "entry" ∧
    block.terminator = some (.br 1)
  handler : ∀ position h, p[position]? = some h → b.handlers[position]? = some (position + 1) ∧
    ∃ block t, b.cursor.function.blocks[position + 1]? = some block ∧
      block.name = s!"{h.opcode.name}_{position}" ∧ block.terminator = some t ∧
        Ending p position h t
  exit : ∀ (id : BlockIndex) (block : Block), b.cursor.function.blocks[id]? = some block →
    (block.name = "vm_exit" ↔ id = p.length + 1) ∧ (id = p.length + 1 → block.Returns)
  found : ∀ (id : BlockIndex) (block : Block), b.cursor.function.blocks[id]? = some block →
    b.cursor.function.find? block.name = some id
  leaves : ∀ (id : BlockIndex) (block : Block), b.cursor.function.blocks[id]? = some block →
    block.Returns → block.Leaves
  stays : ∀ (id : BlockIndex) (block : Block), b.cursor.function.blocks[id]? = some block →
    ¬ block.Returns → storedRegisters block.instructions.toList = []

/-- A block has the name and the end that its handler calls for. The first handler at an address is
the one that a branch goes to. -/
theorem Lowered.ending (hlowered : Lowered registers p k n block n') (hh : p[k]? = some h) :
    block.name = handlerLabel h k ∧ ∃ t, block.terminator = some t ∧ Ending p k h t := by
  cases hlowered with
  | next hh' hbody hlt =>
    obtain rfl := Option.some.inj (hh'.symm.trans hh)
    exact ⟨rfl, _, rfl, .next hbody.opcode.1 hbody.opcode.2 hlt⟩
  | last hh' hbody hlast =>
    obtain rfl := Option.some.inj (hh'.symm.trans hh)
    exact ⟨rfl, _, rfl, .last hbody.opcode.1 hbody.opcode.2 hlast⟩
  | exit hh' hbody =>
    obtain rfl := Option.some.inj (hh'.symm.trans hh)
    exact ⟨rfl, _, rfl, .exit hbody.opcode⟩
  | branch hh' hbody htaken =>
    obtain rfl := Option.some.inj (hh'.symm.trans hh)
    obtain ⟨hop, rfl⟩ := hbody.opcode
    exact ⟨rfl, _, rfl, .branch hop (firstAt_of_positionAt? htaken)⟩

namespace Finished

/-- There is the entry block, one for each handler, and the shared one if the last is a branch. -/
theorem size_blocks (hfinished : Finished s p b) :
    b.cursor.function.blocks.size = p.length + 1 + if p.endsInBranch then 1 else 0 := by
  obtain ⟨done, n, hlaid, hblocks, -⟩ := hfinished.laid
  have hlength : b.blocks.length = p.length + 1 + if p.endsInBranch then 1 else 0 := by
    rw [hblocks, List.length_append, List.length_cons, hlaid.length]
    split <;> rfl
  exact hlength

/-- Every block is the first one, that of a handler, or the one behind a branch at the end of the
program. -/
theorem block_cases (hfinished : Finished s p b) {id : BlockIndex}
    (hblock : b.cursor.function.blocks[id]? = some block) :
    id = 0 ∧ block = entryBlock s ∨
      (∃ (position : Nat) (h : Handler), id = position + 1 ∧ position < p.length ∧
        block.name = handlerLabel h position) ∨
      id = p.length + 1 ∧ ∃ n, block = exitBlock n := by
  obtain ⟨hlt, -⟩ := Array.getElem?_eq_some_iff.1 hblock
  rw [hfinished.size_blocks] at hlt
  cases id with
  | zero => exact .inl ⟨rfl, Option.some.inj (hblock.symm.trans hfinished.entry)⟩
  | succ position =>
    by_cases hposition : position < p.length
    · obtain ⟨block', n₀, n₁, hblock', -, hlowered⟩ := hfinished.lowered hposition
      obtain rfl := Option.some.inj (hblock'.symm.trans hblock)
      obtain ⟨h, hname⟩ := hlowered.name
      exact .inr (.inl ⟨position, h, rfl, hposition, hname⟩)
    · -- Behind the handlers there is one block at most.
      by_cases hends : p.endsInBranch = true
      · rw [if_pos hends] at hlt
        obtain rfl : position = p.length := by omega
        obtain ⟨n, hexit, -⟩ := hfinished.exit hends
        exact .inr (.inr ⟨rfl, n, Option.some.inj (hblock.symm.trans hexit)⟩)
      · rw [if_neg hends] at hlt
        omega

/-- The shape, read off the layout and off which blocks leave. Labels are found where they are
because no two blocks share one. -/
theorem shaped (hfinished : Finished s p b) : Shaped p b where
  size := hfinished.size_blocks
  entry := ⟨_, hfinished.entry, rfl, rfl⟩
  handler position h hh := by
    obtain ⟨hlt, -⟩ := List.getElem?_eq_some_iff.1 hh
    obtain ⟨block, n₀, n₁, hblock, -, hlowered⟩ := hfinished.lowered hlt
    obtain ⟨hname, t, hterminator, hending⟩ := hlowered.ending hh
    exact ⟨by rw [hfinished.handler?, if_pos hlt], block, t, hblock, hname, hterminator, hending⟩
  exit id block hblock := by
    rcases hfinished.block_cases hblock with ⟨rfl, rfl⟩ | ⟨position, h, rfl, hlt, hname⟩ |
      ⟨rfl, n, rfl⟩
    · have hne : "entry" ≠ exitLabel := by decide
      exact ⟨⟨fun hname => absurd hname hne, nofun⟩, nofun⟩
    · have hne : position + 1 ≠ p.length + 1 := by omega
      exact ⟨⟨fun hexit => absurd (hname.symm.trans hexit) (handlerLabel_ne_exit h position),
        fun hid => absurd hid hne⟩, fun hid => absurd hid hne⟩
    · exact ⟨⟨fun _ => rfl, fun _ => rfl⟩, fun _ => (leaves_exitBlock n).returns⟩
  found _ _ hblock := Function.find?_name hfinished.nodup_names hblock
  leaves id block hblock hreturns := by
    rcases hfinished.allOrNothing block (List.mem_of_getElem? (getElem?_blocks b id ▸ hblock)) with
      hleaves | ⟨hnot, -⟩
    · exact hleaves
    · exact absurd hreturns hnot
  stays id block hblock hnot := by
    rcases hfinished.allOrNothing block (List.mem_of_getElem? (getElem?_blocks b id ▸ hblock)) with
      hleaves | ⟨-, hstored⟩
    · exact absurd hleaves.returns hnot
    · exact hstored

end Finished

/-- **The shape of a compiled function.** It is fixed by the program: which blocks there are, what
they are called, where they lead, and which of them leave the routine. -/
theorem shaped_of_run (hrun : (run p).run (new s) = .ok () b) : p ≠ [] ∧ Shaped p b := by
  obtain ⟨hne, hfinished⟩ := finished_of_run hrun
  exact ⟨hne, hfinished.shaped⟩

/-- Leaves in the middle, and branches at the end to an address that two handlers share. -/
def doubled : Program :=
  [{ opcode := .pushVr64, data := 3, address := 0x10, dispatch := 0, width := 5 },
    { opcode := .push32, data := 7, address := 0x15, dispatch := 0, width := 8 },
    { opcode := .vmExit, data := 0, address := 0x15, dispatch := 0, width := 4 },
    { opcode := .jnz, data := 0x15, address := 0x19, dispatch := 0, width := 12 }]

/-- The branch goes to the first of the two handlers, and four blocks of the six do not return. -/
theorem shaped_of_run_doubled :
    ∃ b, (run doubled).run (new {}) = .ok () b ∧ doubled ≠ [] ∧ Shaped doubled b := by
  obtain ⟨b, hrun⟩ : ∃ b, (run doubled).run (new {}) = .ok () b :=
    Action.exists_of_succeeds (by decide +kernel)
  exact ⟨b, hrun, shaped_of_run hrun⟩

end Backend

end Graph

end CodeRecovery
