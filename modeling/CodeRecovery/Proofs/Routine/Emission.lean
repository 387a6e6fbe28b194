/-
What the routine compiler writes for a handler.

The operations of the virtual machine add instructions to the current block and number its
temporaries; they touch nothing else. `Emits` is that, said of the blocks as they are looked up,
since the map that holds them is not the same for the same blocks. Coupled with the skeleton, a
whole handler only adds to the current block, and is carried out exactly when it can be.
-/
import CodeRecovery.Proofs.Routine.Execution
import CodeRecovery.Proofs.Skeleton
import CodeRecovery.Routine.Backend

set_option autoImplicit false

namespace CodeRecovery.Routine

/-! ## Blocks by address -/

section

variable (r : Routine) (address a : BytecodeAddress)

/-- Making a block makes one only where there is none, so no block goes away. -/
theorem block?_create :
    (r.create address).block? a
      = if a = address then some ((r.block? address).getD { address }) else r.block? a := by
  simp only [block?, create, Std.TreeMap.getElem?_insertIfNew, Std.compare_eq_iff_eq]
  by_cases ha : a = address
  · subst ha
    by_cases hmem : a ∈ r.blocks
    · simp [hmem]
    · simp [hmem]
  · simp [ha, Ne.symm ha]

theorem isSome_block?_create {a : BytecodeAddress} (h : (r.block? a).isSome) :
    ((r.create address).block? a).isSome := by
  rw [block?_create]
  split
  · rfl
  · exact h

/-- A block of a routine with one more place is an old block, or new and empty. -/
theorem block?_create_cases {r : Routine} {address a : BytecodeAddress} {block : Block}
    (h : (r.create address).block? a = some block) :
    r.block? a = some block ∨ r.block? a = none ∧ block = { address := a } := by
  rw [block?_create] at h
  split at h
  · rename_i ha
    subst ha
    cases hold : r.block? a with
    | some old =>
      rw [hold] at h
      exact .inl h
    | none =>
      rw [hold] at h
      exact .inr ⟨rfl, (Option.some.inj h).symm⟩
  · exact .inl h

/-- A change applies to a block that is there, and to no other. -/
theorem block?_modifyBlock (change : Block → Block) :
    (r.modifyBlock address change).block? a
      = if a = address then (r.block? address).map change else r.block? a := by
  simp only [block?, modifyBlock, Std.TreeMap.getElem?_modify, Std.compare_eq_iff_eq,
    eq_comm (a := a)]

/-- Asking for a block is looking it up. -/
theorem hasBlock_eq : r.hasBlock address = (r.block? address).isSome := by
  rw [hasBlock, block?, Std.TreeMap.contains_eq_isSome_getElem?]

/-- A new routine has its entry block, which is empty. -/
theorem block?_new : (new address).block? a = if a = address then some { address } else none := by
  simp only [block?, new, Std.TreeMap.getElem?_insert, Std.compare_eq_iff_eq, eq_comm (a := a)]
  rfl

end

/-! ## Adding to the current block -/

/-- `b'` is `b` with more code and more temporaries. The offsets of the stack are left out: they
follow from the code. -/
structure Block.Grows (b b' : Block) (code : List Code) (count : Nat) : Prop where
  code : b'.code = b.code ++ code
  temporaries : b'.nextTemporary = b.nextTemporary + UInt32.ofNat count
  address : b'.address = b.address
  prev : b'.prev = b.prev
  next : b'.next = b.next

namespace Block.Grows

variable {b b₁ b₂ : Block} {code code' : List Code} {count count' : Nat}

theorem refl (b : Block) : b.Grows b [] 0 where
  code := by simp
  temporaries := by simp
  address := rfl
  prev := rfl
  next := rfl

/-- Growth adds up, in code as in temporaries. Numbers of temporaries wrap, but so do their sums. -/
theorem trans (h : b.Grows b₁ code count) (h' : b₁.Grows b₂ code' count') :
    b.Grows b₂ (code ++ code') (count' + count) where
  code := by rw [h'.code, h.code, List.append_assoc]
  temporaries := by
    rw [h'.temporaries, h.temporaries, Nat.add_comm, UInt32.ofNat_add, UInt32.add_assoc]
  address := h'.address.trans h.address
  prev := h'.prev.trans h.prev
  next := h'.next.trans h.next

/-- An instruction is code, and no temporary. -/
theorem emit (b : Block) (op : Operation) (operands : List Operand) :
    b.Grows (b.emit op operands) [(op, operands)] 0 where
  code := by simp [Block.emit, Block.code]
  temporaries := by simp [Block.emit]
  address := rfl
  prev := rfl
  next := rfl

/-- A temporary is no code. -/
theorem freshTemporary (b : Block) (bits : UInt32) :
    b.Grows (b.freshTemporary bits).2 [] 1 where
  code := by simp [Block.freshTemporary, Block.code]
  temporaries := rfl
  address := rfl
  prev := rfl
  next := rfl

end Block.Grows

namespace Backend

/-- `b'` is `b` with more code in its current block. Nothing else that matters has changed; notes
may have been made. -/
structure Emits (b b' : Backend) (code : List Code) (count : Nat) : Prop where
  block : b.block.Grows b'.block code count
  others : ∀ a, a ≠ b.current → b'.routine.block? a = b.routine.block? a
  present : (b.routine.block? b.current).isSome → (b'.routine.block? b.current).isSome
  entry : b'.routine.entry = b.routine.entry
  current : b'.current = b.current
  virtualRegisters : b'.virtualRegisters = b.virtualRegisters
  written : b'.written = b.written
  afterExit : b'.afterExit = b.afterExit

variable {b b₁ b₂ : Backend} {code code' : List Code} {count count' : Nat}

/-- If the current block is there, it is the one that code goes to. -/
theorem block?_current (h : (b.routine.block? b.current).isSome) :
    b.routine.block? b.current = some b.block := by
  obtain ⟨block, hblock⟩ := Option.isSome_iff_exists.1 h
  rw [Backend.block, hblock]
  rfl

/-- A change of the current block, which is made if it was not there. -/
theorem block?_onBlock (b : Backend) (change : Block → Block) (a : BytecodeAddress) :
    (b.onBlock change).routine.block? a
      = if a = b.current then some (change b.block) else b.routine.block? a := by
  rw [onBlock, block?_modifyBlock]
  -- The block is made if it was not there, so the change always applies.
  by_cases ha : a = b.current
  · rw [if_pos ha, if_pos ha, block?_create, if_pos rfl]
    rfl
  · rw [if_neg ha, if_neg ha, block?_create, if_neg ha]

theorem block_onBlock (b : Backend) (change : Block → Block) :
    (b.onBlock change).block = change b.block := by
  have hcurrent : (b.onBlock change).current = b.current := rfl
  rw [Backend.block, hcurrent, block?_onBlock, if_pos rfl]
  rfl

namespace Emits

theorem refl (b : Backend) : b.Emits b [] 0 :=
  ⟨.refl _, fun _ _ => rfl, id, rfl, rfl, rfl, rfl, rfl⟩

theorem trans (h : b.Emits b₁ code count) (h' : b₁.Emits b₂ code' count') :
    b.Emits b₂ (code ++ code') (count' + count) where
  block := h.block.trans h'.block
  others := by
    intro a ha
    rw [h'.others a (h.current.symm ▸ ha), h.others a ha]
  present := by
    intro hpresent
    have hpresent' := h'.present
    rw [h.current] at hpresent'
    exact hpresent' (h.present hpresent)
  entry := h'.entry.trans h.entry
  current := h'.current.trans h.current
  virtualRegisters := h'.virtualRegisters.trans h.virtualRegisters
  written := h'.written.trans h.written
  afterExit := h'.afterExit.trans h.afterExit

/-- A change that makes the current block grow. -/
theorem onBlock (b : Backend) {change : Block → Block}
    (hchange : b.block.Grows (change b.block) code count) :
    b.Emits (b.onBlock change) code count where
  block := by rwa [block_onBlock]
  others := by
    intro a ha
    rw [block?_onBlock, if_neg ha]
  present := by
    intro _
    rw [block?_onBlock, if_pos rfl]
    rfl
  entry := rfl
  current := rfl
  virtualRegisters := rfl
  written := rfl
  afterExit := rfl

/-- A block is the current one, or it is as it was. -/
theorem block?_cases (h : b.Emits b₁ code count) {a : BytecodeAddress} {block : Block}
    (hblock : b₁.routine.block? a = some block) :
    a = b.current ∧ block = b₁.block ∨ a ≠ b.current ∧ b.routine.block? a = some block := by
  by_cases ha : a = b.current
  · refine .inl ⟨ha, ?_⟩
    rw [Backend.block, h.current, ← ha, hblock]
    rfl
  · exact .inr ⟨ha, (h.others a ha).symm.trans hblock⟩

/-- If the current block is there, blocks are where they were. -/
theorem isSome_block? (h : b.Emits b₁ code count) (hpresent : (b.routine.block? b.current).isSome)
    (a : BytecodeAddress) : (b₁.routine.block? a).isSome = (b.routine.block? a).isSome := by
  by_cases ha : a = b.current
  · rw [ha, hpresent, h.present hpresent]
  · rw [h.others a ha]

end Emits

/-! ## The operations -/

/-- An action that adds code to the current block and gives `a`. -/
def Writes {α : Type} (x : Action Backend α) (b : Backend) (a : α) (code : List Code)
    (count : Nat) : Prop :=
  ∃ b', x.run b = .ok a b' ∧ b.Emits b' code count

namespace Writes

variable {α β : Type} {x : Action Backend α} {a : α} {c : β}

theorem pure (b : Backend) (a : α) : Writes (Pure.pure a) b a [] 0 :=
  ⟨b, rfl, .refl b⟩

/-- One action after another, where the second does the same from whatever state the first
leaves. -/
theorem bind {f : α → Action Backend β} (h : Writes x b a code count)
    (hnext : ∀ b', Writes (f a) b' c code' count') :
    Writes (x >>= f) b c (code ++ code') (count' + count) := by
  obtain ⟨b₁, hrun, hemits⟩ := h
  obtain ⟨b₂, hrun', hemits'⟩ := hnext b₁
  exact ⟨b₂, (Action.run_bind_of_ok hrun).trans hrun', hemits.trans hemits'⟩

theorem emit (b : Backend) (op : Operation) (operands : List Operand) :
    Writes (Backend.emit op operands) b () [(op, operands)] 0 :=
  ⟨_, rfl, .onBlock b (.emit _ op operands)⟩

end Writes

/-- The operand that names a temporary. -/
def temporary (index : UInt32) (w : Width) : Operand :=
  .register (.temporary index) (UInt32.ofNat w.bits)

/-- The temporary that the current block hands out next. -/
def fresh (b : Backend) (w : Width) : Operand :=
  temporary b.block.nextTemporary w

/-- Numbering a temporary gives its name and writes nothing. -/
theorem writes_freshTemporary (b : Backend) (w : Width) :
    Writes (freshTemporary w) b (b.fresh w) [] 1 :=
  ⟨_, rfl, .onBlock b (.freshTemporary _ _)⟩

/-- One instruction that writes to a fresh temporary. Most operations that give a value are such. -/
theorem writes_fresh (b : Backend) (w : Width) (op : Operation) (operands : List Operand) :
    Writes (do
      let result ← freshTemporary w
      emit op (result :: operands)
      return result) b (b.fresh w) [(op, b.fresh w :: operands)] 1 := by
  refine (writes_freshTemporary b w).bind fun b₁ => ?_
  refine (Writes.emit b₁ op _).bind fun b₂ => ?_
  exact .pure b₂ _

section

open StackOps

variable (b : Backend) (w : Width) (v v' : Operand)

/-- What each operation writes, in any state. Reading a register or the stack pointer writes nothing
and is left out. -/
theorem writes_push : Writes (push w v) b () [(.push, [v])] 0 :=
  .emit b .push [v]

theorem writes_pop : Writes (pop w) b (b.fresh w) [(.pop, [b.fresh w])] 1 :=
  writes_fresh b w .pop []

theorem writes_setVreg (index : Nat) :
    Writes (setVreg w index v) b () [(.mov, [vregOf index 64, v])] 0 :=
  .emit b .mov _

theorem writes_setVsp : Writes (setVsp v) b () [(.mov, [.stackPointer, v])] 0 :=
  .emit b .mov _

/-- Arithmetic overwrites its first operand, so it is done on a copy. -/
theorem writes_binary (op : BinaryOp) :
    Writes (binary op w v v') b (b.fresh w)
      [(.mov, [b.fresh w, v]), (.ofBinary op, [b.fresh w, v'])] 1 := by
  refine (writes_freshTemporary b w).bind fun b₁ => ?_
  refine (Writes.emit b₁ .mov _).bind fun b₂ => ?_
  refine (Writes.emit b₂ (.ofBinary op) _).bind fun b₃ => ?_
  exact .pure b₃ _

theorem writes_signExtend :
    Writes (signExtend w v) b (b.fresh .qword) [(.movsx, [b.fresh .qword, v])] 1 :=
  writes_fresh b .qword .movsx [v]

theorem writes_testZero :
    Writes (testZero w v) b (b.fresh .bit) [(.te, [b.fresh .bit, v, constantOf w 0])] 1 :=
  writes_fresh b .bit .te [v, constantOf w 0]

theorem writes_testNonzero :
    Writes (testNonzero w v) b (b.fresh .bit) [(.tne, [b.fresh .bit, v, constantOf w 0])] 1 :=
  writes_fresh b .bit .tne [v, constantOf w 0]

theorem writes_load : Writes (load w v) b (b.fresh w) [(.ldd, [b.fresh w, v, .word 0])] 1 :=
  writes_fresh b w .ldd [v, .word 0]

theorem writes_store : Writes (store w v v') b () [(.str, [v, .word 0, v'])] 0 :=
  .emit b .str _

/-- The instruction that pushes a native register. -/
def saveCode : SavedRegister → Code
  | .flags => (.pushf, [])
  | .gpr r => (.push, [.native r])

/-- The instruction that pops a native register. -/
def restoreCode : SavedRegister → Code
  | .flags => (.popf, [])
  | .gpr r => (.pop, [.native r])

/-- One instruction for each of some registers, none of which gives a value. -/
theorem writes_forM {x : SavedRegister → Action Backend PUnit} {f : SavedRegister → Code}
    (h : ∀ (b : Backend) (r : SavedRegister), Writes (x r) b ⟨⟩ [f r] 0) (rs : List SavedRegister)
    (b : Backend) : Writes (rs.forM x) b ⟨⟩ (rs.map f) 0 := by
  induction rs generalizing b with
  | nil => exact .pure b _
  | cons r rest ih => exact (h b r).bind fun b' => ih b'

/-- Saving the native context is a push for each register. -/
theorem writes_saveRegisters :
    Writes saveRegisters b () (SavedRegister.pushOrder.map saveCode) 0 := by
  refine writes_forM (fun b r => ?_) _ b
  cases r with
  | flags => exact .emit b _ _
  | gpr r => exact .emit b _ _

/-- Restoring it is a pop for each, in another order. -/
theorem writes_restoreRegisters :
    Writes restoreRegisters b () (SavedRegister.popOrder.map restoreCode) 0 := by
  refine writes_forM (fun b r => ?_) _ b
  cases r with
  | flags => exact .emit b _ _
  | gpr r => exact .emit b _ _

end

/-! ## With the skeleton -/

/-- The backend has only added to its current block since `b₀`. Of operands nothing has to be
known. -/
def outlineOf (b₀ : Backend) : Correspondence Backend Operand Skeleton Unit where
  State _ b t := (∃ code count, b₀.Emits b code count) ∧ t.virtualRegisters = b₀.virtualRegisters
  Now _ _ _ _ _ := True
  Held _ _ _ _ _ := True

/-- Adding code keeps the correspondence with the skeleton. -/
theorem outline_joint {b₀ : Backend} {t : Skeleton} {α β : Type} {n n' : Nat}
    {R : Backend → Skeleton → α → β → Prop} {a : α} {a' : β}
    {x : Action Backend α} {y : Action Skeleton β} (hstate : (outlineOf b₀).State n b t)
    (hwrites : Writes x b a code count) (hskeleton : y.run t = .ok a' t) (hR : ∀ b', R b' t a a') :
    (outlineOf b₀).Joint n' b t R (x.run b) (y.run t) := by
  obtain ⟨⟨code₀, count₀, hemits⟩, hregisters⟩ := hstate
  obtain ⟨b', hrun, hemits'⟩ := hwrites
  rw [hrun, hskeleton]
  exact .ok ⟨⟨_, _, hemits.trans hemits'⟩, hregisters⟩ (fun _ _ _ hheld => hheld) (hR b')

/-- The routine compiler, coupled with the skeleton: one line for each operation. -/
def outline (b₀ : Backend) : Coupling Backend Operand Skeleton Unit where
  toCorrespondence := outlineOf b₀
  now_of_held h := h
  weaken h := h
  registers := b₀.virtualRegisters
  virtualRegisters {_ _ _} h := by
    obtain ⟨⟨_, _, hemits⟩, hregisters⟩ := h
    exact ⟨hemits.virtualRegisters, hregisters⟩
  constant w c hstate := outline_joint hstate (.pure _ _) rfl fun _ => trivial
  push _ hstate _ := outline_joint hstate (writes_push _ _ _) rfl fun _ => trivial
  pop _ hstate := outline_joint hstate (writes_pop _ _) rfl fun _ => trivial
  getVreg _ hstate _ := outline_joint hstate (.pure _ _) rfl fun _ => trivial
  setVreg _ hstate _ _ := outline_joint hstate (writes_setVreg _ _ _ _) rfl fun _ => trivial
  getVsp hstate := outline_joint hstate (.pure _ _) rfl fun _ => trivial
  setVsp hstate _ := outline_joint hstate (writes_setVsp _ _) rfl fun _ => trivial
  binary {_ _ _} op {_ _ _ _ _} hstate _ _ :=
    outline_joint hstate (writes_binary _ _ _ _ op) rfl fun _ => trivial
  signExtend _ hstate _ := outline_joint hstate (writes_signExtend _ _ _) rfl fun _ => trivial
  testZero hstate _ := outline_joint hstate (writes_testZero _ _ _) rfl fun _ => trivial
  testNonzero hstate _ := outline_joint hstate (writes_testNonzero _ _ _) rfl fun _ => trivial
  load _ hstate _ := outline_joint hstate (writes_load _ _ _) rfl fun _ => trivial
  store _ hstate _ _ := outline_joint hstate (writes_store _ _ _ _) rfl fun _ => trivial
  saveRegisters hstate := outline_joint hstate (writes_saveRegisters _) rfl fun _ => trivial
  restoreRegisters hstate := outline_joint hstate (writes_restoreRegisters _) rfl fun _ => trivial

/-- The code of a handler, written to an empty block, and where control goes behind it. The block is
empty of code and of temporaries, so the code depends on nothing else. -/
structure Body (registers : Nat) (h : Handler) (position : Nat) (outcome : Outcome Operand)
    (code : List Code) : Prop where
  run : ∃ b b' : Backend, b.virtualRegisters = registers ∧ b.block.code = [] ∧
    b.block.nextTemporary = 0 ∧
    (h.perform position : Action Backend (Outcome Operand)).run b = .ok outcome b' ∧
    b'.block.code = code
  fate : ∃ fate, h.fate registers position = .ok fate ∧ Outcome.Same (fun _ _ => True) outcome fate

variable {h : Handler} {position : Nat}

/-- A handler that can be carried out is compiled, and its code goes to the current block. -/
theorem body_of_fate {fate : Outcome Unit} (hcode : b.block.code = [])
    (htemporary : b.block.nextTemporary = 0)
    (hfate : h.fate b.virtualRegisters position = .ok fate) :
    ∃ outcome code count b', (h.perform position : Action Backend (Outcome Operand)).run b
        = .ok outcome b' ∧ b.Emits b' code count ∧
      Body b.virtualRegisters h position outcome code := by
  have hstate : (outline b).State 8 b ⟨b.virtualRegisters⟩ := ⟨⟨_, _, .refl b⟩, rfl⟩
  obtain ⟨outcome, b', hrun, ⟨⟨code, count, hemits⟩, -⟩, hsame⟩ :=
    (outline b).perform_of_fate_ok (n := 0) hstate hfate
  have hcode' : b'.block.code = code := by
    rw [hemits.block.code, hcode, List.nil_append]
  exact ⟨outcome, code, count, b', hrun, hemits,
    ⟨b, b', rfl, hcode, htemporary, hrun, hcode'⟩, fate, hfate, hsame⟩

/-- A handler that cannot be carried out is refused, for the reason that its fate gives. -/
theorem perform_of_fate_error {cause : Failure}
    (hfate : h.fate b.virtualRegisters position = .error cause) :
    ∃ b', (h.perform position : Action Backend (Outcome Operand)).run b
      = .error (.failed cause) b' :=
  have hstate : (outline b).State 8 b ⟨b.virtualRegisters⟩ := ⟨⟨_, _, .refl b⟩, rfl⟩
  (outline b).perform_of_fate_error (n := 0) hstate hfate

end Backend

end CodeRecovery.Routine
