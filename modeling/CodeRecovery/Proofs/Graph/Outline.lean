/-
The graph compiler as a writer of tidy code.

Coupled with the skeleton, the graph compiler is shown to do nothing to its state in a handler but
to add tidy code to the current block, and to refuse a handler for the handler's own reasons only.
`Grows` is what has happened to the compiler, `Placed` what it needs to know for it: where the stack
pointer and the virtual registers are kept, and that there is a current block.
-/
import CodeRecovery.Proofs.Graph.Emission
import CodeRecovery.Proofs.Skeleton

set_option autoImplicit false

namespace CodeRecovery.Graph

/-- The operand that points to the stack pointer's cell. -/
def slotOperand : Operand := .value 1 .ptr

/-- The operand that points to the virtual registers. -/
def fileOperand : Operand := .value 2 .ptr

/-! ## Numbering of the code of each operation -/

namespace Backend

variable {n : Nat} {slot vregs v v' : Operand}

section

-- Unfolding the code and these leaves only bounds on operands.
attribute [local simp] Tidy Instruction.operands Instruction.assigned?

/-- The code of each operation numbers its values from `n` on. The place of the stack pointer and
the operands are older. -/
theorem tidy_pushCode (w : Width) (hslot : slot.Below n) (hv : v.Below n) :
    Tidy n (pushCode slot n w v) (n + 2) := by
  simp [pushCode, hslot, hslot.mono (Nat.le_add_right n 2), hv.mono (Nat.le_add_right n 2)]

theorem tidy_popCode (w : Width) (hslot : slot.Below n) : Tidy n (popCode slot n w) (n + 3) := by
  simp [popCode, hslot, hslot.mono (Nat.le_add_right n 3), show n < n + 1 + 1 by omega]

theorem tidy_getVregCode (w : Width) (index : Nat) (hvregs : vregs.Below n) :
    Tidy n (getVregCode vregs n w index) (n + 2) := by
  simp [getVregCode, hvregs]

theorem tidy_setWideVregCode (index : Nat) (hvregs : vregs.Below n) (hv : v.Below n) :
    Tidy n (setWideVregCode vregs n index v) (n + 1) := by
  simp [setWideVregCode, hvregs, hv.mono (Nat.le_add_right n 1)]

theorem tidy_setNarrowVregCode (index : Nat) (hvregs : vregs.Below n) (hv : v.Below n) :
    Tidy n (setNarrowVregCode vregs n index v) (n + 2) := by
  simp [setNarrowVregCode, hvregs, hv.mono (Nat.le_add_right n 1), show n < n + 1 + 1 by omega]

theorem tidy_getVspCode (hslot : slot.Below n) : Tidy n (getVspCode slot n) (n + 2) := by
  simp [getVspCode, hslot]

theorem tidy_setVspCode (hslot : slot.Below n) (hv : v.Below n) :
    Tidy n (setVspCode slot n v) (n + 1) := by
  simp [setVspCode, hv, hslot.mono (Nat.le_add_right n 1)]

theorem tidy_loadCode (w : Width) (hv : v.Below n) : Tidy n (loadCode n w v) (n + 2) := by
  simp [loadCode, hv]

theorem tidy_storeCode (hv : v.Below n) (hv' : v'.Below n) : Tidy n (storeCode n v v') (n + 1) := by
  simp [storeCode, hv, hv'.mono (Nat.le_add_right n 1)]

/-- One instruction that assigns the next value. -/
theorem tidy_singleton {i : Instruction} (hi : i.assigned? = some n)
    (hbelow : ∀ o ∈ i.operands, o.Below n) : Tidy n [i] (n + 1) :=
  ⟨hbelow, by rw [hi]; exact ⟨rfl, rfl⟩⟩

/-- A store to a native register assigns nothing. -/
theorem tidy_storeRegister (r : SavedRegister) (hv : v.Below n) :
    Tidy n [.storeRegister r v] n := by
  simp [hv]

end

/-- Three values for each register. -/
theorem tidy_saveCode (rs : List SavedRegister) (hslot : slot.Below n) :
    Tidy n (saveCode slot n rs) (n + 3 * rs.length) := by
  induction rs generalizing n with
  | nil => rfl
  | cons r rest ih =>
    have hload : Tidy n [.loadRegister n r] (n + 1) :=
      tidy_singleton rfl (by simp [Instruction.operands])
    have hpush := tidy_pushCode (v := .value n .i64) .qword (hslot.mono (Nat.le_add_right n 1))
      (by simp)
    have hrest := ih (hslot.mono (Nat.le_add_right n 3))
    rw [Nat.add_assoc, Nat.add_comm 3, ← Nat.mul_succ] at hrest
    exact (hload.append hpush).append hrest

theorem tidy_restoreCode (rs : List SavedRegister) (hslot : slot.Below n) :
    Tidy n (restoreCode slot n rs) (n + 3 * rs.length) := by
  induction rs generalizing n with
  | nil => rfl
  | cons r rest ih =>
    have hstore : Tidy (n + 3) [.storeRegister r (.value (n + 1) .i64)] (n + 3) :=
      tidy_storeRegister r (by simp)
    have hrest := ih (hslot.mono (Nat.le_add_right n 3))
    rw [Nat.add_assoc, Nat.add_comm 3, ← Nat.mul_succ] at hrest
    exact (tidy_popCode .qword hslot).append (hstore.append hrest)

/-! ## With the skeleton -/

/-- The places of the stack pointer and of the virtual registers are values of the entry block, so
they are older than anything a handler assigns. -/
theorem below_slot {n : Nat} (hn : 3 ≤ n) : slotOperand.Below n := by
  simp only [slotOperand, Operand.below_value]
  omega

theorem below_file {n : Nat} (hn : 3 ≤ n) : fileOperand.Below n := by
  simp only [fileOperand, Operand.below_value]
  omega

/-- **All that has happened is that tidy code was added to the current block.** The code is not
named: what matters is that there is some. -/
def Grows (b₀ b : Backend) : Prop :=
  ∃ code count, b = b₀.emitted code count ∧ Tidy b₀.nextValue code (b₀.nextValue + count)

theorem Grows.refl (b : Backend) : Grows b b :=
  ⟨[], 0, (emitted_nil b).symm, rfl⟩

theorem Grows.emitted {b₀ b : Backend} (h : Grows b₀ b) {code : List Instruction} {count : Nat}
    (htidy : Tidy b.nextValue code (b.nextValue + count)) : Grows b₀ (b.emitted code count) := by
  obtain ⟨code₀, count₀, rfl, htidy₀⟩ := h
  refine ⟨code₀ ++ code, count₀ + count, emitted_emitted .., htidy₀.append ?_⟩
  rw [nextValue_emitted, Nat.add_assoc] at htidy
  exact htidy

/-- The places that the stack pointer and the virtual registers are kept in are known, and there is
a block to write to. -/
structure Placed (b : Backend) : Prop where
  slot : b.vspSlot = slotOperand
  file : b.vregs = fileOperand
  values : 3 ≤ b.nextValue
  current : b.cursor.current < b.cursor.function.blocks.size

/-- Adding code changes none of this. -/
theorem Placed.emitted {b : Backend} (h : Placed b) (code : List Instruction) (count : Nat) :
    Placed (b.emitted code count) where
  slot := h.slot
  file := h.file
  values := Nat.le_trans h.values (Nat.le_add_right _ count)
  current := by
    simpa [Backend.emitted, Cursor.emitted, Function.modifyBlock] using h.current

theorem Placed.below_vspSlot {b : Backend} (h : Placed b) : b.vspSlot.Below b.nextValue :=
  h.slot ▸ below_slot h.values

theorem Placed.below_vregs {b : Backend} (h : Placed b) : b.vregs.Below b.nextValue :=
  h.file ▸ below_file h.values

/-- How many values one operation assigns at most. Those that save or restore the native registers
take three values for each of the seventeen. -/
def operationValues : Nat := 51

/-- How many values a handler assigns at most, as it takes no more than eight operations. -/
def handlerValues : Nat := 8 * operationValues

/-- The compiler has grown from `b₀`, with as many values left as the operations that may follow can
take, and its operands name values that exist. An operand that exists goes on existing, so it is
held to the end of the handler. -/
def outlineOf (b₀ : Backend) : Correspondence Backend Operand Skeleton Unit where
  State n b t := (Grows b₀ b ∧ b.nextValue + n * operationValues ≤ b₀.nextValue + handlerValues) ∧
    Placed b ∧ b.virtualRegisters = b₀.virtualRegisters ∧
    t.virtualRegisters = b₀.virtualRegisters
  Now b _ w v _ := v.Below b.nextValue ∧ v.type = .ofWidth w
  Held b _ w v _ := v.Below b.nextValue ∧ v.type = .ofWidth w

/-- Fewer operations take fewer values. -/
theorem outline_weaken {b₀ b : Backend} {t : Skeleton} {n : Nat}
    (hstate : (outlineOf b₀).State (n + 1) b t) : (outlineOf b₀).State n b t := by
  obtain ⟨⟨hgrows, hvalues⟩, hrest⟩ := hstate
  rw [Nat.succ_mul] at hvalues
  exact ⟨⟨hgrows, by omega⟩, hrest⟩

/-- **Adding tidy code keeps the correspondence with the skeleton.** Each operation of the compiler
is of this form, with code of its own. -/
theorem outline_joint {b₀ b : Backend} {t : Skeleton} {α β : Type} {n : Nat}
    {R : Backend → Skeleton → α → β → Prop} {code : List Instruction} {count : Nat} {a : α} {a' : β}
    {x : Action Backend α} {y : Action Skeleton β} (hstate : (outlineOf b₀).State (n + 1) b t)
    (hrun : x.run b = .ok a (b.emitted code count)) (hskeleton : y.run t = .ok a' t)
    (hcount : count ≤ operationValues) (htidy : Tidy b.nextValue code (b.nextValue + count))
    (hR : R (b.emitted code count) t a a') :
    (outlineOf b₀).Joint n b t R (x.run b) (y.run t) := by
  obtain ⟨⟨hgrows, hvalues⟩, hplaced, hregisters, hregisters'⟩ := hstate
  have hvalues' : (b.emitted code count).nextValue + n * operationValues
      ≤ b₀.nextValue + handlerValues := by
    rw [Nat.succ_mul] at hvalues
    rw [nextValue_emitted]
    omega
  rw [hrun, hskeleton]
  refine .ok ⟨⟨hgrows.emitted htidy, hvalues'⟩, hplaced.emitted .., hregisters, hregisters'⟩ ?_ hR
  intro w v _ hheld
  exact ⟨hheld.1.mono (Nat.le_add_right _ _), hheld.2⟩

/-- A value that was just assigned exists, with the type it was assigned with. -/
theorem outline_held (b₀ : Backend) (t : Skeleton) {b : Backend} {w : Width} {id : Nat}
    (hid : id < b.nextValue) : (outlineOf b₀).Held b t w (.value id (.ofWidth w)) () :=
  ⟨Operand.below_value.2 hid, rfl⟩

/-- The graph compiler, coupled with the skeleton: one line for each operation. -/
def outline (b₀ : Backend) : Coupling Backend Operand Skeleton Unit where
  toCorrespondence := outlineOf b₀
  now_of_held h := h
  weaken := outline_weaken
  registers := b₀.virtualRegisters
  virtualRegisters h := h.2.2
  constant w c hstate :=
    .ok (outline_weaken hstate) (Correspondence.Later.refl _ _) ⟨Operand.below_const, rfl⟩
  push {n s t w v x} _ hstate hv :=
    outline_joint hstate (run_push s w v) rfl (by decide)
      (tidy_pushCode w hstate.2.1.below_vspSlot hv.1) trivial
  pop {n s t w} _ hstate :=
    outline_joint hstate (run_pop s w) rfl (by decide) (tidy_popCode w hstate.2.1.below_vspSlot)
      (outline_held b₀ t (by rw [nextValue_emitted]; omega))
  getVreg {n s t w index} _ hstate _ :=
    outline_joint hstate (run_getVreg s w index) rfl (by decide)
      (tidy_getVregCode w index hstate.2.1.below_vregs)
      (outline_held b₀ t (by rw [nextValue_emitted]; omega))
  setVreg {n s t w index v x} _ hstate _ hv := by
    by_cases hw : w = .qword
    · subst hw
      exact outline_joint hstate (run_setVreg_qword s index v) rfl (by decide)
        (tidy_setWideVregCode index hstate.2.1.below_vregs hv.1) trivial
    · exact outline_joint hstate (run_setVreg_narrow s hw index v) rfl (by decide)
        (tidy_setNarrowVregCode index hstate.2.1.below_vregs hv.1) trivial
  getVsp {n s t} hstate :=
    outline_joint hstate (run_getVsp s) rfl (by decide) (tidy_getVspCode hstate.2.1.below_vspSlot)
      (outline_held b₀ t (w := .qword) (by rw [nextValue_emitted]; omega))
  setVsp {n s t v x} hstate hv :=
    outline_joint hstate (run_setVsp s v) rfl (by decide)
      (tidy_setVspCode hstate.2.1.below_vspSlot hv.1) trivial
  binary {n s t} op {w lhs rhs lhs' rhs'} hstate hlhs hrhs :=
    outline_joint hstate (run_binary s op w lhs rhs) rfl (by decide)
      (tidy_singleton rfl (by simp [Instruction.operands, hlhs.1, hrhs.1]))
      (hlhs.2 ▸ outline_held b₀ t (by rw [nextValue_emitted]; omega))
  signExtend {n s t w v x} _ hstate hv :=
    outline_joint hstate (run_signExtend s w v) rfl (by decide)
      (tidy_singleton rfl (by simp [Instruction.operands, hv.1]))
      (outline_held b₀ t (w := .qword) (by rw [nextValue_emitted]; omega))
  testZero {n s t w v x} hstate hv :=
    outline_joint hstate (run_testZero s w v) rfl (by decide)
      (tidy_singleton rfl (by simp [Instruction.operands, hv.1]))
      (outline_held b₀ t (w := .bit) (by rw [nextValue_emitted]; omega))
  testNonzero {n s t w v x} hstate hv :=
    outline_joint hstate (run_testNonzero s w v) rfl (by decide)
      (tidy_singleton rfl (by simp [Instruction.operands, hv.1]))
      (outline_held b₀ t (w := .bit) (by rw [nextValue_emitted]; omega))
  load {n s t w v x} _ hstate hv :=
    outline_joint hstate (run_load s w v) rfl (by decide) (tidy_loadCode w hv.1)
      (outline_held b₀ t (by rw [nextValue_emitted]; omega))
  store {n s t w v x v' x'} _ hstate hv hv' :=
    outline_joint hstate (run_store s w v v') rfl (by decide) (tidy_storeCode hv.1 hv'.1) trivial
  saveRegisters {n s t} hstate :=
    outline_joint hstate (run_saveRegisters s) rfl (by decide)
      (tidy_saveCode SavedRegister.pushOrder hstate.2.1.below_vspSlot) trivial
  restoreRegisters {n s t} hstate :=
    outline_joint hstate (run_restoreRegisters s) rfl (by decide)
      (tidy_restoreCode SavedRegister.popOrder hstate.2.1.below_vspSlot) trivial

/-! ## The code of a handler -/

/-- The code of the current block. -/
def written (b : Backend) : List Instruction :=
  (b.cursor.function.blocks[b.cursor.current]?.map (·.instructions.toList)).getD []

/-- Code that is added stands behind the code that is there, as long as there is a block. -/
theorem written_emitted_of_lt {b : Backend}
    (h : b.cursor.current < b.cursor.function.blocks.size) (code : List Instruction) (count : Nat) :
    (b.emitted code count).written = b.written ++ code := by
  simp [written, emitted, Cursor.emitted, Function.modifyBlock, Block.extended, h,
    Array.getElem_modify]

theorem written_emitted {b : Backend} (h : Placed b) (code : List Instruction) (count : Nat) :
    (b.emitted code count).written = b.written ++ code :=
  written_emitted_of_lt h.current code count

/-- **`code` is what the compiler writes for a handler into an empty block**, when the values below
`n` exist; those below `n'` exist behind it. Some state of the compiler has written it; which one
does not matter, since the code depends on the numbering alone. -/
def Body (registers n : Nat) (h : Handler) (position : Nat) (outcome : Outcome Operand)
    (code : List Instruction) (n' : Nat) : Prop :=
  ∃ (b : Backend) (count : Nat), Placed b ∧ b.written = [] ∧ b.virtualRegisters = registers ∧
    (b.nextValue = n ∧ n' = n + count ∧ count ≤ handlerValues) ∧
    (h.perform position : Action Backend (Outcome Operand)).run b
      = .ok outcome (b.emitted code count) ∧
    Tidy n code n' ∧ ∃ fate, h.fate registers position = .ok fate ∧
      Outcome.Same (fun condition _ => condition.Below n' ∧ condition.type = .i1) outcome fate

variable {b : Backend} {h : Handler} {position : Nat}

theorem Body.le {registers n n' : Nat} {outcome : Outcome Operand} {code : List Instruction}
    (hbody : Body registers n h position outcome code n') : n ≤ n' := by
  obtain ⟨_, _, _, _, _, ⟨_, rfl, _⟩, _⟩ := hbody
  exact Nat.le_add_right _ _

/-- A handler takes its values one behind the other, and no more than all that eight operations
can. -/
theorem Body.le_add {registers n n' : Nat} {outcome : Outcome Operand} {code : List Instruction}
    (hbody : Body registers n h position outcome code n') : n' ≤ n + handlerValues := by
  obtain ⟨_, _, _, _, _, ⟨_, rfl, hcount⟩, _⟩ := hbody
  exact Nat.add_le_add_left hcount n

/-- Before a handler, nothing has grown and all its values are left. -/
theorem outline_self (hplaced : Placed b) : (outline b).State 8 b ⟨b.virtualRegisters⟩ :=
  ⟨⟨Grows.refl b, Nat.le_refl _⟩, hplaced, rfl, rfl⟩

/-- A handler that can be carried out is compiled, into code that is its own. -/
theorem body_of_fate {fate : Outcome Unit} (hplaced : Placed b) (hwritten : b.written = [])
    (hfate : h.fate b.virtualRegisters position = .ok fate) :
    ∃ outcome code count, (h.perform position : Action Backend (Outcome Operand)).run b
        = .ok outcome (b.emitted code count) ∧
      Body b.virtualRegisters b.nextValue h position outcome code (b.nextValue + count) := by
  obtain ⟨outcome, b', hrun, hstate', hsame⟩ :=
    (outline b).perform_of_fate_ok (n := 0) (outline_self hplaced) hfate
  obtain ⟨⟨⟨code, count, rfl, htidy⟩, hvalues⟩, -, -⟩ := hstate'
  have hcount : count ≤ handlerValues := by
    rw [Nat.zero_mul, nextValue_emitted] at hvalues
    omega
  exact ⟨outcome, code, count, hrun, b, count, hplaced, hwritten, rfl, ⟨rfl, rfl, hcount⟩, hrun,
    htidy, fate, hfate, hsame⟩

/-- A handler that cannot be carried out is refused, and for the reason that its fate gives. -/
theorem perform_of_fate_error {cause : Failure} (hplaced : Placed b)
    (hfate : h.fate b.virtualRegisters position = .error cause) :
    ∃ b', (h.perform position : Action Backend (Outcome Operand)).run b
      = .error (.failed cause) b' :=
  (outline b).perform_of_fate_error (n := 0) (outline_self hplaced) hfate

end Backend

end CodeRecovery.Graph
