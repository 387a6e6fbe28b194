/-
What the instructions of a handler look like.

Every instruction that a handler is compiled to leaves control in its block, has at most three
operands, and none of them has more bits than a word. There are not many of them either: a handler
takes eight operations of the virtual machine at most, and the longest of these saves or restores
the native context, one instruction per register. All of this is one correspondence with the
skeleton, in which the room for further operations bounds the code.
-/
import CodeRecovery.Proofs.Routine.Emission

set_option autoImplicit false

namespace CodeRecovery.Routine

/-- An instruction behind which control goes on with the next one, and whose operands are few and
small. -/
structure Code.Plain (c : Code) : Prop where
  passes : c.1.endsBlock = false
  operands : c.2.length ≤ 3
  bits : ∀ o ∈ c.2, o.bits ≤ 64

namespace Backend

/-! ## Sizes of operands -/

/-- No width is larger than a word, so no operand that the compiler makes is. -/
theorem bits_ofWidth (w : Width) : UInt32.ofNat w.bits ≤ 64 := by
  cases w <;> decide

theorem bits_fresh (b : Backend) (w : Width) : (b.fresh w).bits ≤ 64 :=
  bits_ofWidth w

theorem bits_constantOf (w : Width) (n : Word) : (constantOf w n).bits ≤ 64 :=
  bits_ofWidth w

theorem bits_word (n : Word) : (Operand.word n).bits ≤ 64 :=
  UInt32.le_refl 64

/-- Saving and restoring a register is plain. -/
theorem plain_saveCode (r : SavedRegister) : (saveCode r).Plain := by
  cases r with
  | flags => exact ⟨rfl, by decide, by simp [saveCode]⟩
  | gpr r => exact ⟨rfl, by simp [saveCode], by simp [saveCode, Operand.native, Operand.bits]⟩

theorem plain_restoreCode (r : SavedRegister) : (restoreCode r).Plain := by
  cases r with
  | flags => exact ⟨rfl, by decide, by simp [restoreCode]⟩
  | gpr r => exact ⟨rfl, by simp [restoreCode], by simp [restoreCode, Operand.native, Operand.bits]⟩

/-- Code that goes over the native registers is plain if each instruction is. -/
theorem plain_map {f : SavedRegister → Code} (hf : ∀ r, (f r).Plain) (rs : List SavedRegister) :
    ∀ c ∈ rs.map f, c.Plain := by
  intro c hc
  obtain ⟨r, -, rfl⟩ := List.mem_map.1 hc
  exact hf r

/-! ## With the skeleton -/

/-- The backend has added plain code to its current block since `b₀`, and not more than leaves room
for further operations. Seventeen instructions are allowed for each. -/
def tidyOf (b₀ : Backend) : Correspondence Backend Operand Skeleton Unit where
  State n b t := (∃ code count, b₀.Emits b code count ∧ (∀ c ∈ code, c.Plain) ∧
    code.length + 17 * n ≤ 136) ∧ t.virtualRegisters = b₀.virtualRegisters
  Now _ _ _ v _ := v.bits ≤ 64
  Held _ _ _ v _ := v.bits ≤ 64

variable {b : Backend} {code : List Code} {count : Nat}

/-- One operation writes a stretch of plain code, no longer than the native context is. -/
theorem tidy_joint {b₀ : Backend} {t : Skeleton} {α β : Type} {n : Nat}
    {R : Backend → Skeleton → α → β → Prop} {a : α} {a' : β}
    {x : Action Backend α} {y : Action Skeleton β} (hstate : (tidyOf b₀).State (n + 1) b t)
    (hwrites : Writes x b a code count) (hplain : ∀ c ∈ code, c.Plain) (hlength : code.length ≤ 17)
    (hskeleton : y.run t = .ok a' t) (hR : ∀ b', R b' t a a') :
    (tidyOf b₀).Joint n b t R (x.run b) (y.run t) := by
  obtain ⟨⟨code₀, count₀, hemits, hplain₀, hroom⟩, hregisters⟩ := hstate
  obtain ⟨b', hrun, hemits'⟩ := hwrites
  rw [hrun, hskeleton]
  refine .ok ⟨⟨_, _, hemits.trans hemits', ?_, ?_⟩, hregisters⟩ (fun _ _ _ hheld => hheld) (hR b')
  · intro c hc
    exact (List.mem_append.1 hc).elim (hplain₀ c) (hplain c)
  · rw [List.length_append]
    omega

theorem plain_nil : ∀ c ∈ ([] : List Code), c.Plain :=
  fun _ hc => nomatch hc

/-- One instruction, by its operation and operands. -/
theorem plain_singleton {op : Operation} {operands : List Operand} (hop : op.endsBlock = false)
    (hlength : operands.length ≤ 3) (hbits : ∀ o ∈ operands, o.bits ≤ 64) :
    ∀ c ∈ [(op, operands)], Code.Plain c :=
  List.forall_mem_singleton.2 ⟨hop, hlength, hbits⟩

section

variable {v v' : Operand} (hv : v.bits ≤ 64) (hv' : v'.bits ≤ 64)

include hv in
/-- Operands one by one, for the lists that instructions have. -/
theorem bits_one : ∀ o ∈ [v], o.bits ≤ 64 :=
  List.forall_mem_singleton.2 hv

include hv hv' in
theorem bits_two : ∀ o ∈ [v, v'], o.bits ≤ 64 :=
  List.forall_mem_cons.2 ⟨hv, bits_one hv'⟩

include hv hv' in
theorem bits_three {v'' : Operand} (hv'' : v''.bits ≤ 64) : ∀ o ∈ [v, v', v''], o.bits ≤ 64 :=
  List.forall_mem_cons.2 ⟨hv, bits_two hv' hv''⟩

end

/-- Arithmetic never ends a block. -/
theorem endsBlock_ofBinary (op : BinaryOp) : (Operation.ofBinary op).endsBlock = false := by
  cases op <;> rfl

/-- The routine compiler, coupled with the skeleton: one line for each operation. -/
def tidy (b₀ : Backend) : Coupling Backend Operand Skeleton Unit where
  toCorrespondence := tidyOf b₀
  now_of_held h := h
  weaken h := by
    obtain ⟨⟨code, count, hemits, hplain, hroom⟩, hregisters⟩ := h
    exact ⟨⟨code, count, hemits, hplain, by omega⟩, hregisters⟩
  registers := b₀.virtualRegisters
  virtualRegisters h := by
    obtain ⟨⟨_, _, hemits, -, -⟩, hregisters⟩ := h
    exact ⟨hemits.virtualRegisters, hregisters⟩
  constant w c hstate :=
    tidy_joint hstate (.pure _ _) plain_nil (by decide) rfl fun _ => bits_constantOf w c
  push _ hstate hv := tidy_joint hstate (writes_push _ _ _)
    (plain_singleton rfl (by simp) (bits_one hv)) (by simp) rfl fun _ => trivial
  pop _ hstate := tidy_joint hstate (writes_pop _ _)
    (plain_singleton rfl (by simp) (bits_one (bits_fresh _ _))) (by simp) rfl
      fun _ => bits_fresh _ _
  getVreg {_ _ _ w _} _ hstate _ :=
    tidy_joint hstate (.pure _ _) plain_nil (by decide) rfl fun _ => bits_ofWidth w
  setVreg _ hstate _ hv := tidy_joint hstate (writes_setVreg _ _ _ _)
    (plain_singleton rfl (by simp) (bits_two (bits_ofWidth .qword) hv)) (by simp) rfl
      fun _ => trivial
  getVsp hstate :=
    tidy_joint hstate (.pure _ _) plain_nil (by decide) rfl fun _ => bits_ofWidth .qword
  setVsp hstate hv := tidy_joint hstate (writes_setVsp _ _)
    (plain_singleton rfl (by simp) (bits_two (bits_ofWidth .qword) hv)) (by simp) rfl
      fun _ => trivial
  binary {_ _ _} op {_ _ _ _ _} hstate hlhs hrhs := tidy_joint hstate (writes_binary _ _ _ _ op)
    (List.forall_mem_cons.2 ⟨⟨rfl, by simp, bits_two (bits_fresh _ _) hlhs⟩,
      plain_singleton (endsBlock_ofBinary op) (by simp) (bits_two (bits_fresh _ _) hrhs)⟩)
    (by simp) rfl fun _ => bits_fresh _ _
  signExtend _ hstate hv := tidy_joint hstate (writes_signExtend _ _ _)
    (plain_singleton rfl (by simp) (bits_two (bits_fresh _ _) hv)) (by simp) rfl
      fun _ => bits_fresh _ _
  testZero hstate hv := tidy_joint hstate (writes_testZero _ _ _)
    (plain_singleton rfl (by simp) (bits_three (bits_fresh _ _) hv (bits_constantOf _ _)))
      (by simp) rfl
    fun _ => bits_fresh _ _
  testNonzero hstate hv := tidy_joint hstate (writes_testNonzero _ _ _)
    (plain_singleton rfl (by simp) (bits_three (bits_fresh _ _) hv (bits_constantOf _ _)))
      (by simp) rfl
    fun _ => bits_fresh _ _
  load _ hstate hv := tidy_joint hstate (writes_load _ _ _)
    (plain_singleton rfl (by simp) (bits_three (bits_fresh _ _) hv (bits_word 0))) (by simp) rfl
    fun _ => bits_fresh _ _
  store _ hstate hv hv' := tidy_joint hstate (writes_store _ _ _ _)
    (plain_singleton rfl (by simp) (bits_three hv (bits_word 0) hv')) (by simp) rfl fun _ => trivial
  saveRegisters hstate := tidy_joint hstate (writes_saveRegisters _) (plain_map plain_saveCode _)
    (by rw [List.length_map]; decide) rfl fun _ => trivial
  restoreRegisters hstate := tidy_joint hstate (writes_restoreRegisters _)
    (plain_map plain_restoreCode _) (by rw [List.length_map]; decide) rfl fun _ => trivial

/-- **A handler that is carried out adds a little plain code to the current block.** There are no
more than eight operations to a handler. -/
theorem plain_of_perform {h : Handler} {position : Nat} {outcome : Outcome Operand} {b' : Backend}
    (hrun : (h.perform position : Action Backend (Outcome Operand)).run b = .ok outcome b') :
    ∃ code count, b.Emits b' code count ∧ (∀ c ∈ code, c.Plain) ∧ code.length ≤ 136 ∧
      ∀ condition target, outcome = .branch condition target → condition.bits ≤ 64 := by
  have hstate : (tidy b).State (0 + 8) b ⟨b.virtualRegisters⟩ :=
    ⟨⟨[], 0, .refl b, plain_nil, by decide⟩, rfl⟩
  have hjoint := (tidy b).perform_joint h position hstate
  rw [hrun] at hjoint
  generalize (h.perform position : Action Skeleton (Outcome Unit)).run _ = result at hjoint
  cases hjoint with
  | ok hstate' _ hsame =>
    obtain ⟨⟨code, count, hemits, hplain, hroom⟩, -⟩ := hstate'
    refine ⟨code, count, hemits, hplain, by omega, ?_⟩
    rintro condition target rfl
    cases hsame with
    | branch hcondition => exact hcondition

end Backend

end CodeRecovery.Routine
