/-
The machine that does nothing.

It has a number of virtual registers and no state besides, and its values carry no information. What
is left of a handler on it is whether it can be carried out at all and where control goes next:
`Handler.fate` is that in closed form. Coupled with the skeleton, a backend is shown to accept a
handler or to refuse it for exactly the reasons that lie in the handler.
-/
import CodeRecovery.Proofs.Coupling

set_option autoImplicit false

namespace CodeRecovery

/-- A machine of which only the number of virtual registers is known. It has as much state as it
takes to decide whether a handler can be carried out. -/
structure Skeleton where
  virtualRegisters : Nat

instance : StackOps Skeleton Unit where
  virtualRegisters s := s.virtualRegisters
  constant _ _ := pure ()
  push _ _ := pure ()
  pop _ := pure ()
  getVreg _ _ := pure ()
  setVreg _ _ _ := pure ()
  getVsp := pure ()
  setVsp _ := pure ()
  getRegister _ := pure ()
  setRegister _ _ := pure ()
  binary _ _ _ _ := pure ()
  signExtend _ _ := pure ()
  testZero _ _ := pure ()
  testNonzero _ _ := pure ()
  load _ _ := pure ()
  store _ _ _ := pure ()
  saveRegisters := pure ()
  restoreRegisters := pure ()

/-- Why a handler cannot be carried out, or where control goes behind it. The condition of a branch
is not known, so both ways are open. -/
def Handler.fate (registers : Nat) (h : Handler) (position : Nat) : Except Failure (Outcome Unit) :=
  match h.opcode with
  | .unknown => .error (.unknownOpcode h.address position)
  | .popVr64 | .popVr32 | .pushVr64 | .pushVr32 =>
    if h.data.toNat < registers then .ok .next else .error (.registerOutOfRange h.data position)
  | .vmExit => .ok .exit
  | .jnz => .ok (.branch () h.data)
  | _ => .ok .next

namespace Skeleton

/-- Finding the register that a handler names fails by the number of registers alone. -/
theorem run_vreg (h : Handler) (position : Nat) (s : Skeleton) :
    (h.vreg position : Action Skeleton Nat).run s
      = if h.data.toNat < s.virtualRegisters then .ok h.data.toNat s
        else .error (.failed (.registerOutOfRange h.data position)) s := by
  have hget : (get : Action Skeleton Skeleton).run s = .ok s s := rfl
  rw [Handler.vreg, Action.run_bind_of_ok hget]
  by_cases hlt : h.data.toNat < s.virtualRegisters
  · rw [if_pos hlt, if_pos (show h.data.toNat < StackOps.virtualRegisters s from hlt)]
    rfl
  · rw [if_neg hlt, if_neg (show ¬ h.data.toNat < StackOps.virtualRegisters s from hlt)]
    rfl

/-- **A handler on the skeleton comes to its fate.** Nothing but the register that it names can go
wrong, besides the handler being unknown. -/
theorem run_perform (h : Handler) (position : Nat) (s : Skeleton) :
    (h.perform position : Action Skeleton (Outcome Unit)).run s
      = match h.fate s.virtualRegisters position with
        | .ok outcome => .ok outcome s
        | .error cause => .error (.failed cause) s := by
  unfold Handler.perform Handler.fate
  -- Only the instructions that name a virtual register can fail here, apart from the unknown one.
  cases h.opcode with
  | popVr64 | popVr32 =>
    simp only [Handler.performPopVreg, EStateM.run_bind, run_vreg]
    by_cases hlt : h.data.toNat < s.virtualRegisters
    · rw [if_pos hlt, if_pos hlt]; rfl
    · rw [if_neg hlt, if_neg hlt]
  | pushVr64 | pushVr32 =>
    simp only [Handler.performPushVreg, EStateM.run_bind, run_vreg]
    by_cases hlt : h.data.toNat < s.virtualRegisters
    · rw [if_pos hlt, if_pos hlt]; rfl
    · rw [if_neg hlt, if_neg hlt]
  | _ => rfl

end Skeleton

namespace Coupling

variable {σ V : Type} [StackOps σ V] (C : Coupling σ V Skeleton Unit)

/-- A machine coupled with the skeleton carries out a handler that can be carried out. There is no
other way for it to halt, whatever its state. -/
theorem perform_of_fate_ok {h : Handler} {position n : Nat} {s : σ} {t : Skeleton}
    {outcome : Outcome Unit} (hstate : C.State (n + 8) s t)
    (hfate : h.fate t.virtualRegisters position = .ok outcome) :
    ∃ outcome' s', (h.perform position : Action σ (Outcome V)).run s = .ok outcome' s' ∧
      C.State n s' t ∧ C.SameOutcome s' t outcome' outcome := by
  have hjoint := C.perform_joint h position hstate
  rw [Skeleton.run_perform, hfate] at hjoint
  generalize hrun : (h.perform position : Action σ (Outcome V)).run s = result at hjoint
  cases hjoint with
  | ok hstate' _ houtcome => exact ⟨_, _, rfl, hstate', houtcome⟩

/-- And it refuses one that cannot, for the same reason. Where it halts is not said, since a machine
may have done something by then. -/
theorem perform_of_fate_error {h : Handler} {position n : Nat} {s : σ} {t : Skeleton}
    {cause : Failure} (hstate : C.State (n + 8) s t)
    (hfate : h.fate t.virtualRegisters position = .error cause) :
    ∃ s', (h.perform position : Action σ (Outcome V)).run s = .error (.failed cause) s' := by
  have hjoint := C.perform_joint h position hstate
  rw [Skeleton.run_perform, hfate] at hjoint
  generalize hrun : (h.perform position : Action σ (Outcome V)).run s = result at hjoint
  cases hjoint with
  | error => exact ⟨_, rfl⟩

end Coupling

end CodeRecovery
