/-
How a compiled function is laid out.

The graph compiler writes the entry block, then one block per handler in the order of the program,
then, if the last handler is a branch, the block behind it. `Lowered` says what the block of a
single handler looks like; `Laid` puts such blocks one behind the other, each taking up the
numbering of values where the one before left off. `Finished` is the whole function.

The main results are about one round of the compiler's loop and about all of them: a handler without
a flaw adds its block, and the first flaw ends the compilation.
-/
import CodeRecovery.Proofs.ControlFlow
import CodeRecovery.Proofs.Graph.Outline

set_option autoImplicit false

namespace CodeRecovery.Graph.Backend

/-! ## Blocks in order -/

/-- The blocks of the function that is being written. -/
def blocks (b : Backend) : List Block :=
  b.cursor.function.blocks.toList

/-- Changing the element behind `l` leaves what is in front and what follows. -/
theorem modify_append {α : Type} (l r : List α) (a : α) (f : α → α) :
    (l ++ a :: r).modify l.length f = l ++ f a :: r := by
  induction l with
  | nil => rfl
  | cons x l ih => exact congrArg (x :: ·) ih

variable {b : Backend} {before after : List Block} {block : Block}

/-- Code that is emitted goes to the current block, and the others stay. -/
theorem blocks_emitted (hblocks : b.blocks = before ++ block :: after)
    (hcurrent : b.cursor.current = before.length) (code : List Instruction) (count : Nat) :
    (b.emitted code count).blocks = before ++ block.extended code :: after := by
  have hmodify : (b.emitted code count).blocks
      = b.blocks.modify b.cursor.current (·.extended code) := by
    simp [blocks, emitted, Cursor.emitted, Function.modifyBlock, Array.toList_modify]
  rw [hmodify, hblocks, hcurrent, modify_append]

/-- An end changes the current block only. -/
theorem blocks_terminated (hblocks : b.blocks = before ++ block :: after)
    (hcurrent : b.cursor.current = before.length) (t : Terminator) :
    (b.terminated t).blocks = before ++ block.ended t :: after := by
  have hmodify : (b.terminated t).blocks = b.blocks.modify b.cursor.current (·.ended t) := by
    simp [blocks, terminated, Function.modifyBlock, Array.toList_modify]
  rw [hmodify, hblocks, hcurrent, modify_append]

/-! ## The blocks of a program -/

/-- Reads the result register and returns it. Every block that leaves ends with this. -/
def resultCode (n : Nat) : List Instruction :=
  [.loadRegister n (.gpr returnRegister)]

/-- The block in front of the handlers: it sets the three places aside and puts the stack pointer at
the end of the stack. -/
def entryBlock (s : Settings) : Block where
  name := "entry"
  instructions := #[.alloca 0 (UInt64.ofNat s.stackSize), .alloca 1 8,
    .alloca 2 (UInt64.ofNat s.virtualRegisters * 8),
    .movePtr 3 (.value 0 .ptr) (Int64.ofNat s.stackSize), .store (.value 3 .ptr) slotOperand]
  terminator := some (.br 1)

/-- The block of a handler before anything is written in it. -/
def emptyBlock (entry : Handler × Nat) : Block :=
  { name := handlerLabel entry.1 entry.2 }

/-- The block behind the last handler, which restores the native context and returns. It is shared
by all branches that may come there. -/
def exitBlock (n : Nat) : Block where
  name := exitLabel
  instructions := (epilogue slotOperand n ++ resultCode (n + 51)).toArray
  terminator := some (.ret (some (.value (n + 51) .i64)))

/-- **The block of the handler at a position, with its values numbered from `n` up to `n'`.** There
is one case for each way in which the block goes on; which of them it is, the outcome and the
position tell. -/
inductive Lowered (registers : Nat) (p : Program) (position n : Nat) : Block → (n' : Nat) → Prop
  | next {h : Handler} {code : List Instruction} {n' : Nat} : p[position]? = some h →
      Body registers n h position .next code n' → position + 1 < p.length →
      Lowered registers p position n ⟨handlerLabel h position, code.toArray,
        some (.br (position + 2))⟩ n'
  | last {h : Handler} {code : List Instruction} {n' : Nat} : p[position]? = some h →
      Body registers n h position .next code n' → position + 1 = p.length →
      Lowered registers p position n ⟨handlerLabel h position,
        (code ++ epilogue slotOperand n' ++ resultCode (n' + 51)).toArray,
        some (.ret (some (.value (n' + 51) .i64)))⟩ (n' + 52)
  | exit {h : Handler} {code : List Instruction} {n' : Nat} : p[position]? = some h →
      Body registers n h position .exit code n' →
      Lowered registers p position n ⟨handlerLabel h position, (code ++ resultCode n').toArray,
        some (.ret (some (.value n' .i64)))⟩ (n' + 1)
  | branch {h : Handler} {code : List Instruction} {n' : Nat} {condition : Operand} {target : Word}
      {taken : Nat} : p[position]? = some h →
      Body registers n h position (.branch condition target) code n' →
      p.positionAt? target = some taken →
      Lowered registers p position n ⟨handlerLabel h position, code.toArray,
        some (.brIf condition (taken + 1) (position + 2))⟩ n'

/-- The blocks of the first `k` handlers, numbered one behind the other; the entry block has the
values below four. -/
inductive Laid (registers : Nat) (p : Program) : (k n : Nat) → List Block → Prop
  | nil : Laid registers p 0 4 []
  | snoc {k n n' : Nat} {done : List Block} {block : Block} : Laid registers p k n done →
      Lowered registers p k n block n' → Laid registers p (k + 1) n' (done ++ [block])

/-! ## The start -/

/-- A new block is empty and gets the next index. -/
theorem run_newBlock (name : String) (c : Cursor) :
    (Cursor.newBlock name).run c = (c.function.blocks.size,
      { c with function := { c.function with blocks := c.function.blocks.push { name } } }) := rfl

theorem run_ended (t : Terminator) (c : Cursor) :
    (Cursor.terminate t).run c
      = ((), { c with function := c.function.modifyBlock c.current (·.ended t) }) := rfl

theorem run_moveTo (id : BlockIndex) (b : Backend) :
    (write (Cursor.moveTo id)).run b
      = .ok () { b with cursor := { b.cursor with current := id } } := rfl

/-- The blocks of all handlers are made before anything is written in them, so a branch to a later
handler has a block to lead to. -/
theorem run_mapM_newBlock (l : List (Handler × Nat)) (c : Cursor) :
    (l.mapM fun (h, position) => Cursor.newBlock (handlerLabel h position)).run c
      = (List.range' c.function.blocks.size l.length,
        { c with function := { c.function with
            blocks := c.function.blocks ++ (l.map emptyBlock).toArray } }) := by
  induction l generalizing c with
  | nil =>
    rw [List.mapM_nil, Cursor.run_pure]
    simp
  | cons entry rest ih =>
    rw [List.mapM_cons, Cursor.run_bind, Cursor.run_bind, ih, run_newBlock, Cursor.run_pure]
    simp [List.range'_succ, emptyBlock]

/-- The compiler in front of the first handler. Three places are set aside and the stack pointer is
at the end of the stack, which takes four values. -/
def started (s : Settings) (p : Program) : Backend where
  cursor :=
    { function :=
        { name := functionName
          returnType := .i64
          blocks := (entryBlock s :: p.zipIdx.map emptyBlock).toArray
          nextValue := 4 }
      current := 0 }
  stackSize := s.stackSize
  virtualRegisters := s.virtualRegisters
  vspSlot := slotOperand
  vregs := fileOperand
  handlers := (List.range' 1 p.length).toArray
  exit := none
  journal := #[]

/-- Starting brings a new compiler there, whatever the program, as long as there is one. -/
theorem run_start (s : Settings) {p : Program} (hp : p ≠ []) :
    (start p).run (new s) = .ok () (started s p) := by
  obtain ⟨h, rest, rfl⟩ := List.exists_cons_of_ne_nil hp
  simp only [start, EStateM.run_bind, EStateM.run_get, EStateM.run_modify, run_write,
    Cursor.run_bind, Cursor.alloca, Cursor.movePtr, Cursor.store, Cursor.run_assign,
    Cursor.run_insert, Cursor.emitted_emitted, Cursor.nextValue_emitted, run_mapM_newBlock,
    Cursor.run_pure]
  simp [new, Cursor.new, Function.appendBlock, Cursor.emitted, Function.modifyBlock, Block.extended,
    List.range'_succ, Cursor.br, run_ended, started, entryBlock, slotOperand, fileOperand,
    Block.ended]

/-! ## Writing one block -/

/-- **The compiler is at `block`**, behind the entry block and the blocks `done` and in front of the
blocks `rest`; the values below `n` exist. It says all that the operations of the compiler depend
on. -/
structure Writing (s : Settings) (p : Program) (done : List Block) (block : Block)
    (rest : List Block) (n : Nat) (b : Backend) : Prop where
  virtualRegisters : b.virtualRegisters = s.virtualRegisters
  slot : b.vspSlot = slotOperand
  file : b.vregs = fileOperand
  handlers : b.handlers = (List.range' 1 p.length).toArray
  nextValue : b.nextValue = n
  current : b.cursor.current = (entryBlock s :: done).length
  blocks : b.blocks = (entryBlock s :: done) ++ block :: rest

namespace Writing

variable {s : Settings} {p : Program} {done rest : List Block} {n : Nat}

/-- Emitting code changes the current block and takes values. -/
theorem emitted (h : Writing s p done block rest n b) (code : List Instruction) (count : Nat) :
    Writing s p done (block.extended code) rest (n + count) (b.emitted code count) where
  virtualRegisters := h.virtualRegisters
  slot := h.slot
  file := h.file
  handlers := h.handlers
  nextValue := by rw [nextValue_emitted, h.nextValue]
  current := h.current
  blocks := blocks_emitted h.blocks h.current code count

/-- Ending the block changes nothing else. -/
theorem terminated (h : Writing s p done block rest n b) (t : Terminator) :
    Writing s p done (block.ended t) rest n (b.terminated t) where
  virtualRegisters := h.virtualRegisters
  slot := h.slot
  file := h.file
  handlers := h.handlers
  nextValue := h.nextValue
  current := h.current
  blocks := blocks_terminated h.blocks h.current t

/-- Going back to an earlier block, as is done when the shared block has been written. -/
theorem back {block' : Block} (h : Writing s p (done ++ [block']) block rest n b) :
    Writing s p done block' (block :: rest) n
      { b with cursor := { b.cursor with current := (entryBlock s :: done).length } } where
  virtualRegisters := h.virtualRegisters
  slot := h.slot
  file := h.file
  handlers := h.handlers
  nextValue := h.nextValue
  current := rfl
  blocks := by
    have hblocks := h.blocks
    simp only [List.cons_append, List.append_assoc, List.nil_append] at hblocks ⊢
    exact hblocks

/-- What the operations ask of the compiler holds while a block is being written: the two places are
values that exist, and there is a current block. -/
theorem placed (h : Writing s p done block rest n b) (hn : 3 ≤ n) : Placed b where
  slot := h.slot
  file := h.file
  values := h.nextValue ▸ hn
  current := by
    have hsize : b.cursor.function.blocks.size = b.blocks.length := rfl
    rw [h.current, hsize, h.blocks]
    simp

/-- The code that has been written is that of the current block. -/
theorem written (h : Writing s p done block rest n b) : b.written = block.instructions.toList := by
  have hblock : b.cursor.function.blocks[b.cursor.current]? = some block := by
    have hget : b.cursor.function.blocks[b.cursor.current]? = b.blocks[b.cursor.current]? :=
      (Array.getElem?_toList ..).symm
    rw [hget, h.current, h.blocks]
    simp
  rw [Backend.written, hblock]
  rfl

/-- Leaving at the end of the current block takes one value, for the result. -/
theorem leave (h : Writing s p done block rest n b) :
    ∃ b', Backend.leave.run b = .ok () b' ∧ b'.exit = b.exit ∧
      Writing s p done ((block.extended (resultCode n)).ended (.ret (some (.value n .i64))))
        rest (n + 1) b' := by
  have hrun := run_leave b
  rw [h.nextValue] at hrun
  exact ⟨_, hrun, rfl, (h.emitted (resultCode n) 1).terminated _⟩

/-- Leaving behind the native context at the end of the current block takes fifty-one more. -/
theorem restoreAndLeave (h : Writing s p done block rest n b) :
    ∃ b', (do StackOps.restoreRegisters; Backend.leave : Action Backend Unit).run b = .ok () b' ∧
      b'.exit = b.exit ∧
      Writing s p done ((block.extended (epilogue slotOperand n ++ resultCode (n + 51))).ended
        (.ret (some (.value (n + 51) .i64)))) rest (n + 52) b' := by
  have hrun := run_restoreRegisters b
  rw [h.slot, h.nextValue] at hrun
  obtain ⟨b', hleave, hexit, hwriting⟩ := (h.emitted (epilogue slotOperand n) 51).leave
  refine ⟨b', by rw [Action.run_bind_of_ok hrun, hleave], hexit, ?_⟩
  simpa [Block.extended] using hwriting

/-- The block of a handler is one behind its position, because the entry block is in front. -/
theorem handler? (h : Writing s p done block rest n b) {position : Nat}
    (hlt : position < p.length) :
    b.handlers[position]? = some (position + 1) := by
  rw [h.handlers]
  simp [hlt, Nat.add_comm]

/-- **The shared exit, made while the last block of a handler is being written.** The compiler goes
to a new block, writes it in full and comes back, so the current block is as it was but the
numbering has gone on. -/
theorem sharedExit (h : Writing s p done block [] n b) (hexit : b.exit = none) :
    ∃ b', Backend.sharedExit.run b = .ok (done.length + 2) b' ∧
      Writing s p done block [exitBlock n] (n + 52) b' := by
  let b₁ : Backend :=
    { b with
      cursor :=
        { function := { b.cursor.function with
            blocks := b.cursor.function.blocks.push { name := exitLabel } }
          current := done.length + 2 }
      exit := some (done.length + 2) }
  have hsize : b.cursor.function.blocks.size = done.length + 2 := by
    have hlength := congrArg List.length h.blocks
    simpa [Backend.blocks] using hlength
  have hblocks : b₁.blocks = b.blocks ++ [{ name := exitLabel }] := Array.toList_push
  have hwriting : Writing s p (done ++ [block]) { name := exitLabel } [] n b₁ :=
    { virtualRegisters := h.virtualRegisters
      slot := h.slot
      file := h.file
      handlers := h.handlers
      nextValue := h.nextValue
      current := by simp [b₁]
      blocks := by rw [hblocks, h.blocks]; simp }
  obtain ⟨b₂, hrun, -, hwriting₂⟩ := hwriting.restoreAndLeave
  have hblock : ((({ name := exitLabel } : Block).extended
      (epilogue slotOperand n ++ resultCode (n + 51))).ended (.ret (some (.value (n + 51) .i64))))
      = exitBlock n := by
    simp [exitBlock, Block.extended, Block.ended]
  rw [hblock] at hwriting₂
  -- The two parts run in the new block with moves around them, so they are taken apart here.
  obtain ⟨_, b', hrestore, hleave⟩ := Action.exists_of_run_bind_ok hrun
  let b₀ : Backend := { b with cursor := { b.cursor with function := b₁.cursor.function } }
  have hnew : (write (Cursor.newBlock exitLabel)).run b = .ok (done.length + 2) b₀ := by
    rw [run_write, run_newBlock, hsize]
  refine ⟨_, ?_, hwriting₂.back⟩
  rw [Backend.sharedExit, Action.run_bind_of_ok (EStateM.run_get b), hexit]
  dsimp only
  rw [Action.run_bind_of_ok hnew, Action.run_bind_of_ok (EStateM.run_modify _ b₀),
    Action.run_bind_of_ok (EStateM.run_get _), Action.run_bind_of_ok (run_moveTo _ _),
    Action.run_bind_of_ok hrestore, Action.run_bind_of_ok hleave,
    Action.run_bind_of_ok (run_moveTo _ _)]
  rw [← h.current]
  rfl

end Writing

/-! ## One handler -/

/-- The compiler is in front of the handler at position `k`. The blocks behind are laid out, and
those ahead are empty. -/
structure Underway (s : Settings) (p : Program) (k : Nat) (b : Backend) : Prop where
  virtualRegisters : b.virtualRegisters = s.virtualRegisters
  slot : b.vspSlot = slotOperand
  file : b.vregs = fileOperand
  handlers : b.handlers = (List.range' 1 p.length).toArray
  exit : b.exit = none
  laid : ∃ done, Laid s.virtualRegisters p k b.nextValue done ∧
    b.blocks = (entryBlock s :: done) ++ (p.zipIdx.drop k).map emptyBlock

/-- **The compiler is behind the last handler.** The blocks of all handlers are laid out behind the
entry block, and the block behind a branch at the end is there if it is needed. -/
structure Finished (s : Settings) (p : Program) (b : Backend) : Prop where
  handlers : b.handlers = (List.range' 1 p.length).toArray
  laid : ∃ done n, Laid s.virtualRegisters p p.length n done ∧
    b.blocks = (entryBlock s :: done) ++ (if p.endsInBranch then [exitBlock n] else []) ∧
    b.nextValue = n + (if p.endsInBranch then 52 else 0)

/-- The compiler has got past the first `k` handlers. It is in front of the next one, or finished if
there is none. -/
def Past (s : Settings) (p : Program) (k : Nat) (b : Backend) : Prop :=
  if k < p.length then Underway s p k b else Finished s p b

/-- One block for each handler. -/
theorem Laid.length {registers k n : Nat} {p : Program} {done : List Block}
    (h : Laid registers p k n done) : done.length = k := by
  induction h with
  | nil => rfl
  | snoc _ _ ih => rw [List.length_append, ih]; rfl

/-- The numbering goes up within a block. -/
theorem Lowered.le {registers k n n' : Nat} {p : Program} {block : Block}
    (h : Lowered registers p k n block n') : n ≤ n' := by
  cases h with
  | next _ hbody _ => exact hbody.le
  | last _ hbody _ => exact Nat.le_add_right_of_le hbody.le
  | exit _ hbody => exact Nat.le_add_right_of_le hbody.le
  | branch _ hbody _ => exact hbody.le

/-- The numbering goes up from block to block, starting behind the values of the entry block. -/
theorem Laid.le {registers k n : Nat} {p : Program} {done : List Block}
    (h : Laid registers p k n done) : 4 ≤ n := by
  induction h with
  | nil => exact Nat.le_refl 4
  | snoc _ hlowered ih => exact Nat.le_trans ih hlowered.le

section

variable {s : Settings} {p : Program} {k : Nat} {h : Handler}

/-- Going to the block of a handler. Nothing is ever skipped, unlike in a compiler that goes by what
control comes to. -/
theorem Underway.enter (hunder : Underway s p k b) (hh : p[k]? = some h) :
    ∃ done b₀, (Backend.enter p k).run b = .ok .lower b₀ ∧ b₀.exit = none ∧
      Laid s.virtualRegisters p k b.nextValue done ∧
      Writing s p done (emptyBlock (h, k))
        ((p.zipIdx.drop (k + 1)).map emptyBlock) b.nextValue b₀ := by
  obtain ⟨done, hlaid, hblocks⟩ := hunder.laid
  obtain ⟨hlt, hget⟩ := List.getElem?_eq_some_iff.1 hh
  have hdrop : p.zipIdx.drop k = (h, k) :: p.zipIdx.drop (k + 1) := by
    rw [List.drop_eq_getElem_cons (by simpa using hlt)]
    simp [hget]
  rw [hdrop, List.map_cons] at hblocks
  have hhandler : b.handlers[k]? = some (k + 1) := by
    rw [hunder.handlers]
    simp [hlt, Nat.add_comm]
  -- The block is still as it was made, so its label is the one for the journal.
  have hlabel : b.cursor.function.label? (k + 1) = some (handlerLabel h k) := by
    have hblock : b.cursor.function.blocks[k + 1]? = b.blocks[k + 1]? :=
      (Array.getElem?_toList ..).symm
    rw [Function.label?, hblock, hblocks, ← hlaid.length]
    simp [emptyBlock]
  let b₀ : Backend :=
    { b with
      journal := b.journal.push (enterEvent h (handlerLabel h k))
      cursor := { b.cursor with current := k + 1 } }
  have hrun : (Backend.enter p k).run b = .ok .lower b₀ := by
    rw [Backend.enter, Program.fetch, hh, Action.run_bind_of_ok (Action.run_ofIndex_some h b),
      Action.run_bind_of_ok (EStateM.run_get b), hhandler]
    dsimp only
    rw [Action.run_bind_of_ok (EStateM.run_get b), hlabel,
      Action.run_bind_of_ok (Action.run_ofIndex_some _ b)]
    rfl
  refine ⟨done, b₀, hrun, hunder.exit, hlaid, ?_⟩
  exact
    { virtualRegisters := hunder.virtualRegisters
      slot := hunder.slot
      file := hunder.file
      handlers := hunder.handlers
      nextValue := rfl
      current := by rw [List.length_cons, hlaid.length]
      blocks := hblocks }

/-- A block that is written in full takes its place among the others. If it was the last one,
nothing is left but the shared block, which is not needed unless it ends in a branch. -/
theorem Writing.past {done : List Block} {n' : Nat}
    (hwriting : Writing s p done block ((p.zipIdx.drop (k + 1)).map emptyBlock) n' b)
    (hexit : b.exit = none) (hlaid : Laid s.virtualRegisters p (k + 1) n' (done ++ [block]))
    (hlast : k + 1 = p.length → p.endsInBranch = false) (hk : k < p.length) :
    Past s p (k + 1) b := by
  have hblocks : b.blocks = (entryBlock s :: (done ++ [block])) ++
      (p.zipIdx.drop (k + 1)).map emptyBlock := by
    rw [hwriting.blocks]
    simp
  unfold Past
  split
  · exact
      { virtualRegisters := hwriting.virtualRegisters
        slot := hwriting.slot
        file := hwriting.file
        handlers := hwriting.handlers
        exit := hexit
        laid := ⟨done ++ [block], by rw [hwriting.nextValue]; exact hlaid, hblocks⟩ }
  · have hk' : k + 1 = p.length := by omega
    refine ⟨hwriting.handlers, done ++ [block], n', hk' ▸ hlaid, ?_, ?_⟩
    · rw [hblocks, hlast hk', hk']
      simp
    · rw [hwriting.nextValue, hlast hk']
      rfl

/-- What the outcome of a compiled handler says about its instruction. -/
theorem Body.opcode {registers n n' : Nat} {outcome : Outcome Operand} {code : List Instruction}
    (hbody : Body registers n h k outcome code n') : h.Yields outcome := by
  obtain ⟨_, _, _, _, _, _, _, _, fate, hfate, hsame⟩ := hbody
  exact Handler.yields_of_fate hfate hsame

variable {done rest : List Block} {n n' : Nat} {code : List Instruction}

/-- The block of a handler is looked up and nothing is written. -/
theorem run_blockOf_handler {position : Nat} {id : BlockIndex}
    (hhandler : b.handlers[position]? = some id) :
    (blockOf (.handler position)).run b = .ok id b := by
  rw [blockOf, Action.run_bind_of_ok (EStateM.run_get b), hhandler]
  rfl

/-- A jump ends the block by a branch to it. -/
theorem run_jump_handler (p : Program) {position : Nat} {id : BlockIndex}
    (hhandler : b.handlers[position]? = some id) :
    (FlowOps.jump p (.handler position) : Action Backend Unit).run b
      = .ok () (b.terminated (.br id)) := by
  have hjump : (FlowOps.jump p (.handler position) : Action Backend Unit)
      = (do let target ← blockOf (.handler position); write (Cursor.br target)) := rfl
  rw [hjump, Action.run_bind_of_ok (run_blockOf_handler hhandler)]
  rfl

/-- Ending a block by a branch, once both of its targets are known. Finding the second one may have
written the shared block. -/
theorem run_branch (p : Program) {condition : Operand} {taken : Nat} {otherwise : Destination}
    {yes no : BlockIndex} {b' : Backend} (hyes : b.handlers[taken]? = some yes)
    (hno : (blockOf otherwise).run b = .ok no b') :
    (FlowOps.branch p condition taken otherwise : Action Backend Unit).run b
      = .ok () (b'.terminated (.brIf condition yes no)) := by
  have hbranch : (FlowOps.branch p condition taken otherwise : Action Backend Unit)
      = (do
          let yes ← Action.ofIndex (← get).handlers[taken]?
          let no ← blockOf otherwise
          write (Cursor.brIf condition yes no)) := rfl
  rw [hbranch, Action.run_bind_of_ok (EStateM.run_get b), hyes,
    Action.run_bind_of_ok (Action.run_ofIndex_some yes b), Action.run_bind_of_ok hno]
  rfl

/-- Behind a handler that goes on: to the next block or, behind the last handler, out. -/
theorem compile_next
    (hwriting : Writing s p done ((emptyBlock (h, k)).extended code)
      ((p.zipIdx.drop (k + 1)).map emptyBlock) n' b)
    (hexit : b.exit = none) (hlaid : Laid s.virtualRegisters p k n done) (hh : p[k]? = some h)
    (hbody : Body s.virtualRegisters n h k .next code n') :
    ∃ b', (p.fallThrough k : Action Backend Unit).run b = .ok () b' ∧ Past s p (k + 1) b' := by
  obtain ⟨hlt, -⟩ := List.getElem?_eq_some_iff.1 hh
  have hlast : k + 1 = p.length → p.endsInBranch = false := by
    intro hk
    rw [Program.endsInBranch_eq hh hk]
    simpa using hbody.opcode.2
  by_cases hnext : k + 1 < p.length
  · have hhandler := hwriting.handler? hnext
    have hrun : (p.fallThrough k : Action Backend Unit).run b
        = .ok () (b.terminated (.br (k + 2))) := by
      rw [Program.fallThrough, Program.successor, if_pos hnext]
      exact run_jump_handler p hhandler
    refine ⟨_, hrun, (hwriting.terminated _).past hexit (hlaid.snoc ?_) hlast hlt⟩
    simpa [emptyBlock, Block.extended, Block.ended] using Lowered.next hh hbody hnext
  · have hk : k + 1 = p.length := by omega
    obtain ⟨b', hrun, hexit', hwriting'⟩ := hwriting.restoreAndLeave
    refine ⟨b', ?_, hwriting'.past (hexit'.trans hexit) (hlaid.snoc ?_) hlast hlt⟩
    · rw [Program.fallThrough, Program.successor, if_neg hnext]
      exact hrun
    · simpa [emptyBlock, Block.extended, Block.ended] using Lowered.last hh hbody hk

/-- Behind a handler that leaves. Its own code has restored the native context. -/
theorem compile_exit
    (hwriting : Writing s p done ((emptyBlock (h, k)).extended code)
      ((p.zipIdx.drop (k + 1)).map emptyBlock) n' b)
    (hexit : b.exit = none) (hlaid : Laid s.virtualRegisters p k n done) (hh : p[k]? = some h)
    (hbody : Body s.virtualRegisters n h k .exit code n') :
    ∃ b', leave.run b = .ok () b' ∧ Past s p (k + 1) b' := by
  obtain ⟨hlt, -⟩ := List.getElem?_eq_some_iff.1 hh
  have hlast : k + 1 = p.length → p.endsInBranch = false := by
    intro hk
    have hop : h.opcode = .vmExit := hbody.opcode
    rw [Program.endsInBranch_eq hh hk, hop]
    rfl
  obtain ⟨b', hrun, hexit', hwriting'⟩ := hwriting.leave
  refine ⟨b', hrun, hwriting'.past (hexit'.trans hexit) (hlaid.snoc ?_) hlast hlt⟩
  simpa [emptyBlock, Block.extended, Block.ended] using Lowered.exit hh hbody

/-- Behind a handler that branches. The block behind the program's end is made here, if control may
get there. -/
theorem compile_branch {condition : Operand} {target : Word} {taken : Nat}
    (hwriting : Writing s p done ((emptyBlock (h, k)).extended code)
      ((p.zipIdx.drop (k + 1)).map emptyBlock) n' b)
    (hexit : b.exit = none) (hlaid : Laid s.virtualRegisters p k n done) (hh : p[k]? = some h)
    (hbody : Body s.virtualRegisters n h k (.branch condition target) code n')
    (htaken : p.positionAt? target = some taken) :
    ∃ b', (FlowOps.branch p condition taken (p.successor k) : Action Backend Unit).run b
      = .ok () b' ∧ Past s p (k + 1) b' := by
  obtain ⟨hlt, -⟩ := List.getElem?_eq_some_iff.1 hh
  have hyes := hwriting.handler? (Program.lt_of_positionAt? htaken)
  have hlowered := Lowered.branch hh hbody htaken
  -- Within the program both targets have blocks. Behind its end the shared exit is made now; it
  -- cannot have been made before, since only the last handler asks for it.
  by_cases hnext : k + 1 < p.length
  · have hno := run_blockOf_handler (hwriting.handler? hnext)
    refine ⟨_, ?_, (hwriting.terminated (.brIf condition (taken + 1) (k + 2))).past hexit
      (hlaid.snoc ?_) (by omega) hlt⟩
    · rw [Program.successor, if_pos hnext]
      exact run_branch p hyes hno
    · simpa [emptyBlock, Block.extended, Block.ended] using hlowered
  · have hk : k + 1 = p.length := by omega
    have hbranch : p.endsInBranch = true := by
      rw [Program.endsInBranch_eq hh hk]
      simpa using hbody.opcode.1
    rw [hk, List.drop_eq_nil_of_le (by simp), List.map_nil] at hwriting
    obtain ⟨b₁, hrun, hwriting₁⟩ := hwriting.sharedExit hexit
    rw [hlaid.length] at hrun
    have hwriting' := hwriting₁.terminated (.brIf condition (taken + 1) (k + 2))
    refine ⟨b₁.terminated (.brIf condition (taken + 1) (k + 2)), ?_, ?_⟩
    · rw [Program.successor, if_neg hnext]
      exact run_branch p hyes hrun
    · rw [Past, if_neg hnext]
      have hlaid' : Laid s.virtualRegisters p p.length n' (done ++ [_]) := hk ▸ hlaid.snoc hlowered
      refine ⟨hwriting'.handlers, _, n', hlaid', ?_, ?_⟩
      · rw [hwriting'.blocks, hbranch]
        simp [emptyBlock, Block.extended, Block.ended]
      · rw [hwriting'.nextValue, hbranch]
        rfl

/-- The part of a handler's compilation that lies in its block. It cannot fail, because the fate of
the handler is known. -/
theorem Underway.perform {fate : Outcome Unit} (hunder : Underway s p k b) (hh : p[k]? = some h)
    (hfate : h.fate s.virtualRegisters k = .ok fate) :
    ∃ done b₀ b₁ outcome code n', (FlowOps.enter p k : Action Backend Visit).run b = .ok .lower b₀ ∧
      (h.perform k : Action Backend (Outcome Operand)).run b₀ = .ok outcome b₁ ∧ b₁.exit = none ∧
      Laid s.virtualRegisters p k b.nextValue done ∧
      Body s.virtualRegisters b.nextValue h k outcome code n' ∧
      Writing s p done ((emptyBlock (h, k)).extended code)
        ((p.zipIdx.drop (k + 1)).map emptyBlock) n' b₁ := by
  obtain ⟨done, b₀, henter, hexit, hlaid, hwriting⟩ := hunder.enter hh
  have hplaced := hwriting.placed (Nat.le_of_succ_le hlaid.le)
  rw [← hwriting.virtualRegisters] at hfate
  obtain ⟨outcome, code, count, hrun, hbody⟩ := body_of_fate hplaced hwriting.written hfate
  rw [hwriting.virtualRegisters, hwriting.nextValue] at hbody
  exact ⟨done, b₀, _, outcome, code, _, henter, hrun, hexit, hlaid, hbody,
    hwriting.emitted code count⟩

/-- **One round of the loop.** A handler without a flaw is compiled into its block, and the compiler
is past it. The cases are those of the outcome. -/
theorem Underway.compileAt_ok (hunder : Underway s p k b) (hk : k < p.length)
    (hflaw : p.flaw? s.virtualRegisters k = none) :
    ∃ b', (p.compileAt k : Action Backend Unit).run b = .ok () b' ∧ Past s p (k + 1) b' := by
  obtain ⟨h, hh⟩ : ∃ h, p[k]? = some h := ⟨p[k], List.getElem?_eq_getElem hk⟩
  have hfetch : (p.fetch k : Action Backend Handler).run b = .ok h b := by
    rw [Program.fetch, hh]; rfl
  have hgood := Program.good_of_flaw?_eq_none hh hflaw
  cases hfate : h.fate s.virtualRegisters k with
  | error cause => simp [Program.flaw?, hh, hfate] at hflaw
  | ok fate =>
    obtain ⟨done, b₀, b₁, outcome, code, n', henter, hrun, hexit, hlaid, hbody, hwriting⟩ :=
      hunder.perform hh hfate
    rw [Program.compileAt, Action.run_bind_of_ok hfetch, Action.run_bind_of_ok henter]
    dsimp only
    rw [Action.run_bind_of_ok hrun]
    cases outcome with
    | next => exact compile_next hwriting hexit hlaid hh hbody
    | exit => exact compile_exit hwriting hexit hlaid hh hbody
    | branch condition target =>
      obtain ⟨hop, rfl⟩ := hbody.opcode
      obtain ⟨taken, htaken⟩ := Program.exists_positionAt?_of_good hgood hop
      dsimp only
      rw [Program.branchTarget_of_some htaken,
        Action.run_bind_of_ok (Action.run_ofExcept_ok taken b₁)]
      exact compile_branch hwriting hexit hlaid hh hbody htaken

/-- A handler with a flaw ends the compilation, be it in carrying the handler out or in resolving
its branch. -/
theorem Underway.compileAt_error {cause : Failure} (hunder : Underway s p k b)
    (hflaw : p.flaw? s.virtualRegisters k = some cause) :
    ∃ b', (p.compileAt k : Action Backend Unit).run b = .error (.failed cause) b' := by
  cases hh : p[k]? with
  | none => simp [Program.flaw?, hh] at hflaw
  | some h =>
    have hfetch : (p.fetch k : Action Backend Handler).run b = .ok h b := by
      rw [Program.fetch, hh]; rfl
    -- Either the handler cannot be carried out, or it is and its branch leads nowhere.
    rcases Program.flaw?_cases hh hflaw with hfate | ⟨hop, hfate, hat, rfl⟩
    · obtain ⟨done, b₀, henter, -, hlaid, hwriting⟩ := hunder.enter hh
      have hplaced := hwriting.placed (Nat.le_of_succ_le hlaid.le)
      rw [← hwriting.virtualRegisters] at hfate
      obtain ⟨b', hrun⟩ := perform_of_fate_error hplaced hfate
      have henter' : (FlowOps.enter p k : Action Backend Visit).run b = .ok .lower b₀ := henter
      refine ⟨b', ?_⟩
      rw [Program.compileAt, Action.run_bind_of_ok hfetch, Action.run_bind_of_ok henter']
      dsimp only
      rw [Action.run_bind_of_error hrun]
    · obtain ⟨done, b₀, b₁, outcome, code, n', henter, hrun, -, -, hbody, -⟩ :=
        hunder.perform hh hfate
      refine ⟨b₁, ?_⟩
      rw [Program.compileAt, Action.run_bind_of_ok hfetch, Action.run_bind_of_ok henter]
      dsimp only
      rw [Action.run_bind_of_ok hrun]
      cases outcome with
      | next => exact absurd hop hbody.opcode.2
      | exit => exact absurd (hop.symm.trans hbody.opcode) (by decide)
      | branch condition target =>
        obtain ⟨-, rfl⟩ := hbody.opcode
        dsimp only
        rw [Program.branchTarget_of_none hat,
          Action.run_bind_of_error (Action.run_ofExcept_error _ b₁)]

/-! ## All handlers -/

theorem Past.underway (hpast : Past s p k b) (hk : k < p.length) : Underway s p k b := by
  rwa [Past, if_pos hk] at hpast

theorem Past.finished (hpast : Past s p p.length b) : Finished s p b := by
  rwa [Past, if_neg (Nat.lt_irrefl _)] at hpast

/-- **The compiler's loop from position `k` on**: all handlers are compiled, or the first one with a
flaw ends it. The first flaw is the first in the order of positions, since the loop goes by them. -/
theorem Past.forM_compileAt {m : Nat} (hpast : Past s p k b) (hm : k + m = p.length) :
    ((∀ position, k ≤ position → position < p.length → p.flaw? s.virtualRegisters position = none) ∧
        ∃ b', ((List.range' k m).forM p.compileAt : Action Backend PUnit).run b = .ok () b' ∧
          Finished s p b') ∨
      ∃ position cause b', (k ≤ position ∧ p.flaw? s.virtualRegisters position = some cause) ∧
        (∀ q, k ≤ q → q < position → p.flaw? s.virtualRegisters q = none) ∧
        ((List.range' k m).forM p.compileAt : Action Backend PUnit).run b
          = .error (.failed cause) b' := by
  -- By the handlers that are left.
  induction m generalizing k b with
  | zero =>
    obtain rfl : k = p.length := hm
    exact .inl ⟨by omega, b, rfl, hpast.finished⟩
  | succ m ih =>
    have hk : k < p.length := by omega
    rw [List.range'_succ, List.forM]
    cases hflaw : p.flaw? s.virtualRegisters k with
    | some cause =>
      obtain ⟨b', hrun⟩ := (hpast.underway hk).compileAt_error hflaw
      exact .inr ⟨k, cause, b', ⟨Nat.le_refl k, hflaw⟩, by omega, Action.run_bind_of_error hrun⟩
    | none =>
      obtain ⟨b₁, hrun, hpast₁⟩ := (hpast.underway hk).compileAt_ok hk hflaw
      rw [Action.run_bind_of_ok hrun]
      have hfirst : ∀ q, k ≤ q → (q = k ∨ k + 1 ≤ q) := by omega
      rcases ih hpast₁ (by omega) with ⟨hnone, hok⟩ |
        ⟨position, cause, b', hposition, hnone, herror⟩
      · refine .inl ⟨fun q hkq hq => ?_, hok⟩
        rcases hfirst q hkq with rfl | hlt
        · exact hflaw
        · exact hnone q hlt hq
      · refine .inr ⟨position, cause, b', ⟨Nat.le_of_succ_le hposition.1, hposition.2⟩,
          fun q hkq hq => ?_, herror⟩
        rcases hfirst q hkq with rfl | hlt
        · exact hflaw
        · exact hnone q hlt hq

/-- At the start the compiler is past no handler. -/
theorem past_started (s : Settings) (hp : p ≠ []) : Past s p 0 (started s p) := by
  rw [Past, if_pos (List.length_pos_iff.2 hp)]
  exact ⟨rfl, rfl, rfl, rfl, rfl, [], .nil, rfl⟩

/-- A compiler that never has a pending handler has nothing to do after its loop, whatever fuel it
is given. -/
theorem run_drain (p : Program) (fuel : Nat) (b : Backend) :
    (p.drain fuel : Action Backend Unit).run b = .ok () b := by
  cases fuel with
  | zero => rfl
  | succ fuel =>
    rw [Program.drain, Action.run_bind_of_ok (EStateM.run_get b)]
    rfl

/-- **Compiling a program.** Either no handler has a flaw and the function is laid out in full, or
the first flaw is the failure. -/
theorem run_compile (s : Settings) (hp : p ≠ []) :
    ((∀ position < p.length, p.flaw? s.virtualRegisters position = none) ∧
        ∃ b, (p.compile : Action Backend Unit).run (new s) = .ok () b ∧ Finished s p b) ∨
      ∃ position cause b, p.flaw? s.virtualRegisters position = some cause ∧
        (∀ q < position, p.flaw? s.virtualRegisters q = none) ∧
        (p.compile : Action Backend Unit).run (new s) = .error (.failed cause) b := by
  have hstart : (FlowOps.start p : Action Backend Unit).run (new s) = .ok () (started s p) :=
    run_start s hp
  have hcompile : (p.compile : Action Backend Unit).run (new s)
      = (do (List.range' 0 p.length).forM p.compileAt; p.drain p.length : Action Backend Unit).run
          (started s p) := by
    rw [Program.compile, if_neg (by simpa using hp), Action.run_bind_of_ok hstart,
      List.range_eq_range']
  rw [hcompile]
  rcases (past_started s hp).forM_compileAt (Nat.zero_add _) with
    ⟨hnone, b, hrun, hfinished⟩ | ⟨position, cause, b, ⟨-, hflaw⟩, hnone, hrun⟩
  · refine .inl ⟨fun q hq => hnone q (Nat.zero_le q) hq, b, ?_, hfinished⟩
    rw [Action.run_bind_of_ok hrun, run_drain]
  · exact .inr ⟨position, cause, b, hflaw, fun q hq => hnone q (Nat.zero_le q) hq,
      Action.run_bind_of_error hrun⟩

/-- A compilation that succeeds leaves a finished function. -/
theorem finished_of_compile (hp : p ≠ [])
    (hcompile : (p.compile : Action Backend Unit).run (new s) = .ok () b) : Finished s p b := by
  rcases run_compile s hp with ⟨-, b', hrun, hfinished⟩ | ⟨_, _, _, -, -, hrun⟩
  · rw [hrun] at hcompile
    cases hcompile
    exact hfinished
  · rw [hrun] at hcompile
    cases hcompile

/-- The compiler once a note is taken. -/
def noted (b : Backend) (event : Journal.Event) : Backend :=
  { b with journal := b.journal.push event }

/-- A run is a compilation whose result passes the check. A note of its size is taken in the end. -/
theorem run_of_compile_ok (hp : p ≠ []) {b₀ : Backend}
    (hcompile : (p.compile : Action Backend Unit).run b₀ = .ok () b) :
    (run p).run b₀ = match b.cursor.function.verify with
      | .error defect => .error (.failed (.malformed defect.message)) b
      | .ok () => .ok () (b.noted (summary b.cursor.function.blocks.size p.length)) := by
  rw [run, if_neg (by simpa using hp)]
  dsimp only
  rw [Action.run_bind_of_ok hcompile, Action.run_bind_of_ok (EStateM.run_get b)]
  cases b.cursor.function.verify <;> rfl

/-- A compilation that fails is a run that fails in the same way; the check is not made. -/
theorem run_of_compile_error (hp : p ≠ []) {b₀ : Backend} {halt : Halt}
    (hcompile : (p.compile : Action Backend Unit).run b₀ = .error halt b) :
    (run p).run b₀ = .error halt b := by
  rw [run, if_neg (by simpa using hp)]
  dsimp only
  rw [Action.run_bind_of_error hcompile]

/-- A run that succeeds leaves a finished function. -/
theorem finished_of_run (hrun : (run p).run (new s) = .ok () b) : p ≠ [] ∧ Finished s p b := by
  have hp : p ≠ [] := by
    rintro rfl
    exact absurd hrun (by simp [run])
  refine ⟨hp, ?_⟩
  rcases run_compile s hp with ⟨-, b', hcompile, hfinished⟩ | ⟨_, _, _, -, -, hcompile⟩
  · rw [run_of_compile_ok hp hcompile] at hrun
    split at hrun
    · cases hrun
    · cases hrun
      exact ⟨hfinished.handlers, hfinished.laid⟩
  · rw [run_of_compile_error hp hcompile] at hrun
    cases hrun

/-! ## The blocks of a finished function -/

/-- The block of each handler that is laid out, with the values at which its numbering starts. -/
theorem Laid.lowered {registers : Nat} (hlaid : Laid registers p k n done) {position : Nat}
    (hposition : position < k) :
    ∃ block n₀ n₁, done[position]? = some block ∧ 4 ≤ n₀ ∧
      Lowered registers p position n₀ block n₁ := by
  induction hlaid with
  | nil => exact absurd hposition (Nat.not_lt_zero _)
  | @snoc k n n' done block hlaid hlowered ih =>
    by_cases hlt : position < k
    · obtain ⟨block', n₀, n₁, hblock, hn₀, hlowered'⟩ := ih hlt
      exact ⟨block', n₀, n₁, by rw [List.getElem?_append_left (hlaid.length ▸ hlt), hblock], hn₀,
        hlowered'⟩
    · obtain rfl : position = k := by omega
      exact ⟨block, n, n', by rw [← hlaid.length]; simp, hlaid.le, hlowered⟩

namespace Finished

theorem getElem?_blocks (b : Backend) (id : Nat) :
    b.cursor.function.blocks[id]? = b.blocks[id]? :=
  (Array.getElem?_toList ..).symm

/-- The blocks of the handlers are known by position, and there are no others. -/
theorem handler? (hfinished : Finished s p b) (position : Nat) :
    b.handlers[position]? = if position < p.length then some (position + 1) else none := by
  rw [hfinished.handlers]
  by_cases hlt : position < p.length <;> simp [hlt, Nat.add_comm]

/-- Whether a block belongs to a handler can be told from its index. -/
theorem contains_handlers (hfinished : Finished s p b) (id : Nat) :
    b.handlers.contains id = decide (1 ≤ id ∧ id ≤ p.length) := by
  rw [hfinished.handlers]
  simp only [List.contains_toArray, List.contains_eq_mem, List.mem_range'_1, decide_eq_decide]
  omega

/-- The first block is the entry block. -/
theorem entry (hfinished : Finished s p b) :
    b.cursor.function.blocks[0]? = some (entryBlock s) := by
  obtain ⟨done, n, -, hblocks, -⟩ := hfinished.laid
  rw [getElem?_blocks, hblocks]
  rfl

/-- Behind it are the blocks of the handlers, in the order of the program. -/
theorem lowered (hfinished : Finished s p b) {position : Nat} (hposition : position < p.length) :
    ∃ block n₀ n₁, b.cursor.function.blocks[position + 1]? = some block ∧ 4 ≤ n₀ ∧
      Lowered s.virtualRegisters p position n₀ block n₁ := by
  obtain ⟨done, n, hlaid, hblocks, -⟩ := hfinished.laid
  obtain ⟨block, n₀, n₁, hblock, hn₀, hlowered⟩ := hlaid.lowered hposition
  refine ⟨block, n₀, n₁, ?_, hn₀, hlowered⟩
  rw [getElem?_blocks, hblocks, List.cons_append, List.getElem?_cons_succ,
    List.getElem?_append_left (hlaid.length ▸ hposition), hblock]

/-- Behind the blocks of the handlers there is the shared one, if the program ends in a branch. -/
theorem exit (hfinished : Finished s p b) (hends : p.endsInBranch = true) :
    ∃ n, b.cursor.function.blocks[p.length + 1]? = some (exitBlock n) ∧ 4 ≤ n := by
  obtain ⟨done, n, hlaid, hblocks, -⟩ := hfinished.laid
  refine ⟨n, ?_, hlaid.le⟩
  rw [getElem?_blocks, hblocks, hends, if_pos rfl, List.cons_append, List.getElem?_cons_succ,
    ← hlaid.length]
  simp

end Finished

end

end CodeRecovery.Graph.Backend
