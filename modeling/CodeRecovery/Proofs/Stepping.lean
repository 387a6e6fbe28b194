/-
Runs of the simulator, step by step.

`Simulator.run` only tells how many steps a program took. `Reaches` keeps the position as well: it
relates a number of steps to the handler that comes next and to the machine in front of it. The file
connects the two, so that a statement about single steps becomes one about runs of any length.
-/
import CodeRecovery.Proofs.Action
import CodeRecovery.Simulator.Basic

set_option autoImplicit false

namespace CodeRecovery.Simulator

/-! ## Virtual registers -/

/-- The stack is in memory and the virtual registers are not. -/
theorem vregs_push (s : Simulator) (w : Width) (value : Word) :
    (s.push w value).vregs = s.vregs := by
  simp only [push]

/-- A register that exists is read at a width, and nothing changes. -/
theorem run_getVreg {s : Simulator} {index : Nat} (h : index < s.vregs.size) (w : Width) :
    (StackOps.getVreg w index : Action Simulator Word).run s = .ok (w.cut s.vregs[index]) s := by
  have hget : (get : Action Simulator Simulator).run s = .ok s s := rfl
  rw [StackOps.getVreg, instStackOpsWord]
  dsimp only
  rw [Action.run_bind_of_ok hget, Array.getElem?_eq_getElem h]
  rfl

/-- A register that exists is written over as a whole: a narrow value clears the upper half. -/
theorem run_setVreg {s : Simulator} {index : Nat} (h : index < s.vregs.size) (w : Width)
    (value : Word) :
    (StackOps.setVreg w index value : Action Simulator Unit).run s
      = .ok () { s with vregs := s.vregs.setIfInBounds index (w.cut value) } := by
  have hget : (get : Action Simulator Simulator).run s = .ok s s := rfl
  rw [StackOps.setVreg, instStackOpsWord]
  dsimp only
  rw [Action.run_bind_of_ok hget, if_pos h]
  rfl

/-! ## Steps -/

section

variable {p : Program} {position : Nat} {h : Handler} {m m' : Simulator}

/-- Going on to a handler takes nothing. -/
theorem run_goTo_inside {next : Nat} (hlt : next < p.length) (taken : Bool) (m : Simulator) :
    (goTo p next taken).run m = .ok (.advance next taken) m := by
  rw [goTo, if_pos hlt]
  rfl

/-- Going behind the last handler restores the native registers, as leaving does. -/
theorem run_goTo_outside {next : Nat} (hlt : ¬ next < p.length) (taken : Bool)
    (hrestore : (StackOps.restoreRegisters : Action Simulator Unit).run m = .ok () m') :
    (goTo p next taken).run m = .ok .exit m' := by
  rw [goTo, if_neg hlt, Action.run_bind_of_ok hrestore]
  rfl

/-- What a step does once its handler is carried out. A branch is resolved only if it is taken, so a
branch to nowhere does no harm as long as it falls through. -/
def proceed (p : Program) (position : Nat) : Outcome Word → Action Simulator Progress
  | .exit => return .exit
  | .next => goTo p (position + 1) false
  | .branch condition target =>
    if condition = 0 then goTo p (position + 1) false
    else do
      let next ← Action.ofExcept (p.branchTarget target position)
      goTo p next true

/-- A step is its handler and then what the outcome says. -/
theorem run_step {outcome : Outcome Word} (hh : p[position]? = some h)
    (hperform : (h.perform position : Action Simulator (Outcome Word)).run m = .ok outcome m') :
    (step p position).run m = (proceed p position outcome).run m' := by
  have hfetch : (p.fetch position : Action Simulator Handler).run m = .ok h m := by
    rw [Program.fetch, hh]
    rfl
  rw [step, Action.run_bind_of_ok hfetch, Action.run_bind_of_ok hperform]
  cases outcome <;> rfl

/-- A branch whose condition is zero falls through, whatever its target. -/
theorem run_proceed_fallThrough {condition : Word} {target : Word} (hcondition : condition = 0) :
    (proceed p position (.branch condition target)).run m
      = (goTo p (position + 1) false).run m := by
  rw [proceed, if_pos hcondition]

/-- A branch that is taken goes to its target. -/
theorem run_proceed_taken {condition : Word} {target : Word} {next : Nat}
    (hcondition : condition ≠ 0) (hbranch : p.branchTarget target position = .ok next)
    (hlt : next < p.length) :
    (proceed p position (.branch condition target)).run m = .ok (.advance next true) m := by
  rw [proceed, if_neg hcondition, hbranch, Action.run_bind_of_ok (Action.run_ofExcept_ok next m),
    run_goTo_inside hlt]

end

/-- After `k` steps from `start` the handler at `position` comes next, on the machine `m`. Steps are
a function, so there is one position and one machine for each number of steps. -/
inductive Reaches (p : Program) (start : Simulator) : (k position : Nat) → Simulator → Prop
  | zero : Reaches p start 0 0 start
  | succ {k position next : Nat} {taken : Bool} {m m' : Simulator} :
      Reaches p start k position m → (step p position).run m = .ok (.advance next taken) m' →
      Reaches p start (k + 1) next m'

/-- The program ends with its `k`-th step, which leaves the machine `m`. The last step has a handler
in front of it like any other. -/
def Exits (p : Program) (start : Simulator) (k : Nat) (m : Simulator) : Prop :=
  ∃ j position m', k = j + 1 ∧ Reaches p start j position m' ∧
    (step p position).run m' = .ok .exit m

variable {p : Program} {start : Simulator}

/-- **What is left of a run once some of its steps are made.** A statement about the steps is
carried over to the run by this alone. -/
theorem Reaches.run_add {k position : Nat} {m : Simulator} (h : Reaches p start k position m)
    (n : Nat) : (run p (k + n)).run start = (runFrom p n k position).run m := by
  -- By the steps made: each of them takes one from the steps that `runFrom` still has.
  induction h generalizing n with
  | zero => rw [Nat.zero_add]; rfl
  | succ hreach hstep ih =>
    rw [Nat.add_right_comm, Nat.add_assoc, ih (n + 1), runFrom, Action.run_bind_of_ok hstep]

/-- A run whose steps are used up before the program ends has no number of steps to report. -/
theorem Reaches.run_eq_none {k position : Nat} {m : Simulator} (h : Reaches p start k position m) :
    (run p k).run start = .ok none m :=
  h.run_add 0

/-- A run that is long enough for the program to end reports when it did, and more steps change
nothing. -/
theorem Exits.run_eq_some {k : Nat} {m : Simulator} (h : Exits p start k m) {n : Nat}
    (hn : k ≤ n) : (run p n).run start = .ok (some k) m := by
  obtain ⟨j, position, m', rfl, hreach, hstep⟩ := h
  obtain ⟨extra, rfl⟩ := Nat.exists_eq_add_of_le hn
  rw [Nat.add_assoc, Nat.add_comm 1, hreach.run_add, runFrom, Action.run_bind_of_ok hstep]
  rfl

/-- A run that ended did so by a step of its own, from some position it had come to. -/
theorem Reaches.exits_of_runFrom {n k position steps : Nat} {m m' : Simulator}
    (h : Reaches p start k position m)
    (hrun : (runFrom p n k position).run m = .ok (some steps) m') : Exits p start steps m' := by
  -- By the steps that are left, with the position and the machine changing on the way.
  induction n generalizing k position m with
  | zero => exact absurd hrun (by simp [runFrom])
  | succ n ih =>
    rw [runFrom] at hrun
    obtain ⟨progress, m₁, hstep, hrest⟩ := Action.exists_of_run_bind_ok hrun
    cases progress with
    | exit =>
      simp only [EStateM.run_pure, EStateM.Result.ok.injEq, Option.some.injEq] at hrest
      obtain ⟨rfl, rfl⟩ := hrest
      exact ⟨k, position, m, rfl, h, hstep⟩
    | advance next taken => exact ih (h.succ hstep) hrest

/-- The same for a run from the first handler. -/
theorem exits_of_run_eq_some {n k : Nat} {m : Simulator}
    (h : (run p n).run start = .ok (some k) m) : Exits p start k m :=
  Reaches.zero.exits_of_runFrom h

end CodeRecovery.Simulator
