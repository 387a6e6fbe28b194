/-
The machine that only counts.

It knows how deep its stack is, in bytes, and nothing of what is there; its values carry no
information. A handler on it changes the depth by what the table of stack uses says for its
instruction, so a machine that is coupled with this one keeps to the table.
-/
import CodeRecovery.Proofs.Session
import CodeRecovery.Proofs.Simulator.Context
import CodeRecovery.Proofs.Skeleton

set_option autoImplicit false

namespace CodeRecovery

/-- A machine of which only the depth of the stack is known. The depth is an integer: nothing keeps
a program from popping more than it has pushed. -/
structure Tally where
  virtualRegisters : Nat
  depth : Int

namespace Tally

/-- The stack grows by a number of bytes, or shrinks if the number is negative. -/
def grow (t : Tally) (bytes : Int) : Tally :=
  { t with depth := t.depth + bytes }

/-- Two changes in a row are one. -/
theorem grow_grow (t : Tally) (bytes bytes' : Int) :
    (t.grow bytes).grow bytes' = t.grow (bytes + bytes') := by
  simp only [grow, Int.add_assoc]

theorem grow_zero (t : Tally) : t.grow 0 = t := by
  rw [grow, Int.add_zero]

instance : StackOps Tally Unit where
  virtualRegisters t := t.virtualRegisters
  constant _ _ := pure ()
  push w _ := modify (·.grow w.bytes)
  pop w := modify (·.grow (-w.bytes))
  getVreg _ _ := pure ()
  setVreg _ _ _ := pure ()
  getVsp := pure ()
  setVsp _ := pure ()
  getRegister _ := pure ()
  setRegister _ _ := pure ()
  binary _ _ _ _ := pure ()
  signExtend _ _ := pure ()
  testZero _ _ := pure ()
  testNonzero _ _ := pure ()
  load _ _ := pure ()
  store _ _ _ := pure ()
  saveRegisters := modify (·.grow 136)
  restoreRegisters := modify (·.grow (-136))

variable {h : Handler} {position : Nat} {t t' : Tally} {outcome : Outcome Unit} {w : Width}

/-! ## Families of instructions -/

/-- The depth after arithmetic. The flag is a whole word whatever the width of the operands, so
narrow arithmetic leaves more than it has found. -/
theorem run_performArithmetic (op : BinaryOp) (w : Width) (t : Tally) :
    (Handler.performArithmetic op w : Action Tally (Outcome Unit)).run t
      = .ok .next (t.grow (8 - w.bytes)) := by
  -- Two operands go, the result comes back and a flag with it, which is a whole word at either
  -- width.
  have hsum : (((t.grow (-w.bytes)).grow (-w.bytes)).grow w.bytes).grow 8
      = t.grow (8 - w.bytes) := by
    rw [grow_grow, grow_grow, grow_grow]
    congr 1
    omega
  rw [← hsum]
  cases w <;> rfl

/-- A load takes a whole address and leaves what it has loaded. -/
theorem run_performLoad (w : Width) (t : Tally) :
    (Handler.performLoad w : Action Tally (Outcome Unit)).run t
      = .ok .next (t.grow (w.bytes - 8)) := by
  have hsum : (t.grow (-8)).grow w.bytes = t.grow (w.bytes - 8) := by
    rw [grow_grow, Int.add_comm, Int.sub_eq_add_neg]
  rw [← hsum]
  rfl

/-- Popping into a register takes the width of the value, if the register exists. -/
theorem eq_grow_of_performPopVreg
    (hrun : (h.performPopVreg w position : Action Tally (Outcome Unit)).run t = .ok outcome t') :
    t' = t.grow (-w.bytes) := by
  obtain ⟨index, t₁, hvreg, hrest⟩ := Action.exists_of_run_bind_ok hrun
  obtain rfl := (h.within_vreg .eq position).of_run hvreg
  cases hrest
  rfl

/-- Pushing a register leaves the width of the value, if the register exists. -/
theorem eq_grow_of_performPushVreg
    (hrun : (h.performPushVreg w position : Action Tally (Outcome Unit)).run t = .ok outcome t') :
    t' = t.grow w.bytes := by
  obtain ⟨index, t₁, hvreg, hrest⟩ := Action.exists_of_run_bind_ok hrun
  obtain rfl := (h.within_vreg .eq position).of_run hvreg
  cases hrest
  rfl

/-! ## All instructions -/

/-- **A handler that is carried out makes the stack grow as its instruction says.** This is the only
place where the table is compared with what handlers do, instruction by instruction. -/
theorem eq_grow_of_perform
    (hrun : (h.perform position : Action Tally (Outcome Unit)).run t = .ok outcome t') :
    t' = t.grow h.opcode.growth := by
  cases hop : h.opcode with
  | unknown =>
    rw [Handler.perform, hop] at hrun
    cases hrun
  | popVr64 | popVr32 =>
    rw [Handler.perform, hop] at hrun
    exact eq_grow_of_performPopVreg hrun
  | pushVr64 | pushVr32 =>
    rw [Handler.perform, hop] at hrun
    exact eq_grow_of_performPushVreg hrun
  | sub64 | sub32 | add64 | add32 | or32 | and32 | xor32 =>
    rw [Handler.perform, hop] at hrun
    dsimp only at hrun
    rw [run_performArithmetic] at hrun
    cases hrun
    rfl
  | load32 | load64 =>
    rw [Handler.perform, hop] at hrun
    dsimp only at hrun
    rw [run_performLoad] at hrun
    cases hrun
    rfl
  | write32 =>
    rw [Handler.perform, hop] at hrun
    cases hrun
    exact grow_grow t _ _
  | vmInit | vmExit | pushVsp | popVsp | push64 | push32 | jnz =>
    rw [Handler.perform, hop] at hrun
    cases hrun
    rfl

end Tally

/-- A machine coupled with the counting one keeps to the table: when it has carried out a handler,
it corresponds to the count that the table gives. -/
theorem Coupling.state_of_perform {σ V : Type} [StackOps σ V] (C : Coupling σ V Tally Unit)
    {h : Handler} {position n : Nat} {s s' : σ} {t : Tally} {outcome : Outcome V}
    (hstate : C.State (n + 8) s t)
    (hrun : (h.perform position : Action σ (Outcome V)).run s = .ok outcome s') :
    C.State n s' (t.grow h.opcode.growth) := by
  -- Coupled machines halt together, so the counting one has carried out the handler as well.
  have hjoint := C.perform_joint h position hstate
  rw [hrun] at hjoint
  generalize hcount : (h.perform position : Action Tally (Outcome Unit)).run t = result at hjoint
  cases hjoint with
  | ok hstate' _ _ => exact Tally.eq_grow_of_perform hcount ▸ hstate'

end CodeRecovery
