/-
The stack pointer of the simulator, handler by handler and over whole runs.

A handler moves the stack pointer by what the table of stack uses says for its instruction, unless
it replaces the pointer. Over a run the handlers that were carried out add up, whatever way control
took through the program and however the run came to its end: by leaving, by using up its steps, or
by a handler that is refused or branches to nowhere. A run that comes behind the last handler has
the native context popped on top of that.
-/
import Mathlib.Algebra.Ring.Int.Defs
import CodeRecovery.Proofs.Session
import CodeRecovery.Proofs.Simulator.Context

set_option autoImplicit false

namespace CodeRecovery

open CodeRecovery.Action (finalState)

/-- A number of bytes as a word, by way of integers or not. -/
theorem ofInt_natCast (n : Nat) : UInt64.ofInt n = UInt64.ofNat n := by
  have hcast : ((n : Int) % 2 ^ 64).toNat = n % 2 ^ 64 := by omega
  rw [UInt64.ofInt, hcast]
  exact UInt64.toNat_inj.1 (by simp)

/-- By how many bytes handlers make the stack grow together. It is negative if they take more than
they leave. -/
def growthOf (handlers : List Handler) : Int :=
  (handlers.map (·.opcode.growth)).sum

theorem growthOf_cons (h : Handler) (rest : List Handler) :
    growthOf (h :: rest) = h.opcode.growth + growthOf rest := by
  rw [growthOf, List.map_cons, List.sum_cons, growthOf]

namespace Simulator

variable {p : Program} {h : Handler} {position : Nat} {m m₁ m' : Simulator} {outcome : Outcome Word}

/-! ## Single handlers -/

/-- **A handler moves the stack pointer as the table of stack uses says**, unless it replaces it.
This is the footprint, with the two counts of the table taken together. -/
theorem vsp_of_perform
    (hrun : (h.perform position : Action Simulator (Outcome Word)).run m = .ok outcome m')
    (hop : h.opcode ≠ .popVsp) : m'.vsp = m.vsp - UInt64.ofInt h.opcode.growth := by
  obtain ⟨use, huse, hfootprint⟩ := footprint hrun
  have hgrowth : h.opcode.growth = (use.pushedBytes : Int) + -use.poppedBytes := by
    rw [Opcode.growth, huse]
    rfl
  rw [hfootprint.vsp hop, hgrowth, UInt64.ofInt_add, UInt64.ofInt_neg, ofInt_natCast, ofInt_natCast]
  grind

/-- A pop into a register is refused before anything is popped, because the register is looked up
first. -/
theorem eq_of_performPopVreg_error {e : Halt} {w : Width}
    (hrun : (h.performPopVreg w position : Action Simulator (Outcome Word)).run m = .error e m') :
    m' = m := by
  rw [Handler.performPopVreg] at hrun
  cases hvreg : (h.vreg position : Action Simulator Nat).run m with
  | error e' m₁ =>
    rw [Action.run_bind_of_error hvreg] at hrun
    cases hrun
    exact ((h.within_vreg .eq position).of_error hvreg).symm
  | ok index m₁ =>
    -- The register is there, so nothing can go wrong any more.
    obtain ⟨rfl, hlt⟩ := run_vreg_ok hvreg
    have hpop : (StackOps.pop w : Action Simulator Word).run m₁ = .ok (m₁.pop w).1 (m₁.pop w).2 :=
      rfl
    have hlt' : index < (m₁.pop w).2.vregs.size := hlt
    rw [Action.run_bind_of_ok hvreg, Action.run_bind_of_ok hpop,
      Action.run_bind_of_ok (run_setVreg hlt' w _)] at hrun
    cases hrun

/-- A push of a register is refused before anything is pushed. -/
theorem eq_of_performPushVreg_error {e : Halt} {w : Width}
    (hrun : (h.performPushVreg w position : Action Simulator (Outcome Word)).run m = .error e m') :
    m' = m := by
  rw [Handler.performPushVreg] at hrun
  cases hvreg : (h.vreg position : Action Simulator Nat).run m with
  | error e' m₁ =>
    rw [Action.run_bind_of_error hvreg] at hrun
    cases hrun
    exact ((h.within_vreg .eq position).of_error hvreg).symm
  | ok index m₁ =>
    obtain ⟨rfl, hlt⟩ := run_vreg_ok hvreg
    rw [Action.run_bind_of_ok hvreg, Action.run_bind_of_ok (run_getVreg hlt w)] at hrun
    cases hrun

/-- A handler that is refused changes nothing. There are three kinds that can be: the two that name
a register, and those that are unknown. -/
theorem eq_of_perform_error {e : Halt}
    (hrun : (h.perform position : Action Simulator (Outcome Word)).run m = .error e m') :
    m' = m := by
  cases hop : h.opcode with
  | unknown =>
    rw [Handler.perform, hop] at hrun
    cases hrun
    rfl
  | vmInit =>
    rw [run_perform_vmInit hop] at hrun
    cases hrun
  | vmExit =>
    rw [run_perform_vmExit hop] at hrun
    cases hrun
  | popVr64 | popVr32 =>
    rw [Handler.perform, hop] at hrun
    exact eq_of_performPopVreg_error hrun
  | pushVr64 | pushVr32 =>
    rw [Handler.perform, hop] at hrun
    exact eq_of_performPushVreg_error hrun
  | _ =>
    rw [Handler.perform, hop] at hrun
    cases hrun

/-! ## Runs -/

/-- Going to a position never fails: behind the end of the program it leaves. -/
theorem exists_run_goTo (p : Program) (next : Nat) (taken : Bool) (m : Simulator) :
    ∃ progress m', (goTo p next taken).run m = .ok progress m' := by
  by_cases hlt : next < p.length
  · exact ⟨_, _, run_goTo_inside hlt taken m⟩
  · exact ⟨_, _, run_goTo_outside hlt taken (run_restoreRegisters m)⟩

/-- What follows a handler fails only by branching to nowhere, which changes nothing. -/
theorem eq_of_proceed_error {e : Halt} (hrun : (proceed p position outcome).run m = .error e m') :
    m' = m := by
  have hgoTo : ∀ {next taken}, (goTo p next taken).run m ≠ .error e m' := by
    intro next taken herror
    obtain ⟨progress, m₁, hok⟩ := exists_run_goTo p next taken m
    rw [hok] at herror
    cases herror
  cases outcome with
  | exit => cases hrun
  | next => exact absurd hrun hgoTo
  | branch condition target =>
    rw [proceed] at hrun
    split at hrun
    · exact absurd hrun hgoTo
    · cases hbranch : p.branchTarget target position with
      | error cause =>
        rw [hbranch, Action.run_bind_of_error (Action.run_ofExcept_error cause m)] at hrun
        cases hrun
        rfl
      | ok next =>
        rw [hbranch, Action.run_bind_of_ok (Action.run_ofExcept_ok next m)] at hrun
        exact absurd hrun hgoTo

/-- What a step does once its handler is carried out: it settles, or it halts there and then. -/
theorem settles_of_perform (hh : p[position]? = some h)
    (hperform : (h.perform position : Action Simulator (Outcome Word)).run m = .ok outcome m₁) :
    (∃ progress m', (step p position).run m = .ok progress m' ∧ Settles h m₁ progress m') ∨
      ∃ e, (step p position).run m = .error e m₁ := by
  cases hstep : (step p position).run m with
  | ok progress m' =>
    obtain ⟨h', outcome', m₂, hh', hperform', hsettles⟩ := step_cases hstep
    obtain rfl : h = h' := Option.some.inj (hh.symm.trans hh')
    obtain ⟨-, rfl⟩ := EStateM.Result.ok.inj (hperform.symm.trans hperform')
    exact .inl ⟨progress, m', rfl, hsettles⟩
  | error e m' =>
    rw [run_step hh hperform] at hstep
    rw [eq_of_proceed_error hstep]
    exact .inr ⟨e, rfl⟩

/-- The handlers that a run carries out, without the machines in front of them. -/
def carriedOut (p : Program) (limit position : Nat) (m : Simulator) : List Handler :=
  (stops p limit position m).map (·.handler)

/-- Whether a run of at most `limit` steps from a position on ends behind the last handler, by a
handler that does not leave the virtual machine itself. -/
def runsOff (p : Program) : (limit position : Nat) → Simulator → Bool
  | 0, _, _ => false
  | limit + 1, position, m =>
    match (step p position).run m with
    | .ok (.advance next _) m' => runsOff p limit next m'
    | .ok .exit _ => p[position]?.any (·.opcode ≠ .vmExit)
    | .error .. => false

/-- A handler that is carried out comes first, and then those of the rest of the run. -/
theorem carriedOut_of_perform (limit : Nat) (hh : p[position]? = some h)
    (hperform : (h.perform position : Action Simulator (Outcome Word)).run m = .ok outcome m₁) :
    carriedOut p (limit + 1) position m
      = h :: match (step p position).run m with
        | .ok (.advance next _) m' => carriedOut p limit next m'
        | _ => [] := by
  rw [carriedOut, stops_of_perform limit hh hperform, List.map_cons]
  congr 1
  cases (step p position).run m with
  | error _ _ => rfl
  | ok progress m' =>
    cases progress with
    | advance _ _ => rfl
    | exit => rfl

/-- A step that carries out no handler halts where it is, and the run with it. -/
theorem refused_cases (p : Program) (limit position : Nat) (m : Simulator) :
    (∃ h outcome m₁, p[position]? = some h ∧
        (h.perform position : Action Simulator (Outcome Word)).run m = .ok outcome m₁) ∨
      carriedOut p (limit + 1) position m = [] ∧ ∃ e, (step p position).run m = .error e m := by
  rw [carriedOut, stops, step, Program.fetch]
  cases hh : p[position]? with
  | none => exact .inr ⟨rfl, .outOfRange, rfl⟩
  | some h =>
    dsimp only
    cases hperform : (h.perform position : Action Simulator (Outcome Word)).run m with
    | ok outcome m₁ => exact .inl ⟨h, outcome, m₁, rfl, hperform⟩
    | error e m₁ =>
      obtain rfl := eq_of_perform_error hperform
      refine .inr ⟨rfl, e, ?_⟩
      rw [Action.run_bind_of_ok (Action.run_ofIndex_some h m₁), Action.run_bind_of_error hperform]

/-- Behind the last handler the native context is popped, and nowhere else. -/
theorem Settles.vsp {progress : Progress} (hsettles : Settles h m₁ progress m') :
    m'.vsp = m₁.vsp + if progress = .exit ∧ h.opcode ≠ .vmExit then 136 else 0 := by
  cases hsettles with
  | advance hop =>
    rw [if_neg fun hexit => nomatch hexit.1]
    exact (UInt64.add_zero _).symm
  | behind hop =>
    rw [if_pos ⟨rfl, hop⟩, vsp_popAll]
    rfl
  | exit hop =>
    rw [if_neg fun hexit => hexit.2 hop]
    exact (UInt64.add_zero _).symm

/-- Where a run leaves the stack pointer, from any position on. By the limit; a step that halts has
carried out its handler or has changed nothing. -/
theorem vsp_runFrom {limit done : Nat}
    (hkeeps : ∀ h ∈ carriedOut p limit position m, h.opcode ≠ .popVsp) :
    (finalState ((runFrom p limit done position).run m)).vsp
      = m.vsp - UInt64.ofInt (growthOf (carriedOut p limit position m))
        + if runsOff p limit position m then 136 else 0 := by
  have hnone : UInt64.ofInt (growthOf []) = 0 := rfl
  have hnothing : ∀ word : Word, word = word - UInt64.ofInt (growthOf []) + 0 := by
    intro word
    rw [hnone, UInt64.sub_zero, UInt64.add_zero]
  -- By the steps that are left: each of them adds its handler to the count.
  induction limit generalizing done position m with
  | zero => exact hnothing m.vsp
  | succ limit ih =>
    rw [runFrom, runsOff]
    rcases refused_cases p limit position m with ⟨h, outcome, m₁, hh, hperform⟩ |
      ⟨hcarried, e, hstep⟩
    · have hcarried := carriedOut_of_perform limit hh hperform
      have hvsp := vsp_of_perform hperform (hkeeps h (hcarried ▸ List.mem_cons_self))
      rw [hcarried] at hkeeps
      rw [hcarried, growthOf_cons, UInt64.ofInt_add]
      rcases settles_of_perform hh hperform with ⟨progress, m', hstep, hsettles⟩ | ⟨e, hstep⟩
      · rw [Action.run_bind_of_ok hstep, hstep]
        rw [hstep] at hkeeps
        have hvsp' := hsettles.vsp
        cases progress with
        | advance next taken =>
          dsimp only
          rw [ih fun h' hh' => hkeeps h' (List.mem_cons_of_mem h hh'), hvsp', hvsp]
          grind
        | exit =>
          -- Whether the context was popped depends on the handler that the run ended with.
          have hlast : (p[position]?.any fun h => decide (h.opcode ≠ .vmExit)) = true
              ↔ Progress.exit = .exit ∧ h.opcode ≠ .vmExit := by
            simp [hh]
          change m'.vsp = _
          simp only [hvsp', hvsp, hlast, hnone]
          grind
      -- A branch to nowhere comes too late for its handler not to count.
      · rw [Action.run_bind_of_error hstep, hstep]
        change m₁.vsp = m.vsp - (UInt64.ofInt h.opcode.growth + 0) + 0
        rw [hvsp, UInt64.add_zero, UInt64.add_zero]
    · rw [Action.run_bind_of_error hstep, hstep, hcarried]
      exact hnothing m.vsp

/-- **Where a run leaves the stack pointer**, however it ends: by as much as the handlers it carried
out make the stack grow, and the native context if it ran off the end. -/
theorem vsp_run {limit : Nat} (hkeeps : ∀ h ∈ carriedOut p limit 0 m, h.opcode ≠ .popVsp) :
    (finalState ((run p limit).run m)).vsp
      = m.vsp - UInt64.ofInt (growthOf (carriedOut p limit 0 m))
        + if runsOff p limit 0 m then 136 else 0 :=
  vsp_runFrom hkeeps

end Simulator

end CodeRecovery
