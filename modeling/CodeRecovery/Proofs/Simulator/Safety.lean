/-
Where the simulator fails, and where it cannot.

Of all that a handler may ask of the machine, three things can be denied: to be identified, a
virtual register that is there, and a branch that leads to a handler. `Fails` lists them with the
failure and with the machine that is left, and a step halts in these cases and no others. In
particular no step looks for a handler behind the end of the program or for a register behind the
end of the file: from the first handler on, every position that a run comes to is one of the
program, and there are as many registers as there were.

A run halts with the first of its steps that does, which `Reaches` makes a statement about all runs.
The same relation tells how a run depends on its limit: it ends with a number of steps that the
limit does not change, if only it is large enough.
-/
import CodeRecovery.Proofs.Simulator.Frame

set_option autoImplicit false

namespace CodeRecovery

namespace Simulator

variable {p : Program} {h : Handler} {position k limit : Nat} {start m m₁ m' : Simulator} {e : Halt}
  {cause : Failure}

/-! ## Steps -/

/-- The ways a step can fail on the machine `m`, each with the failure that reports it and the
machine that it leaves. A branch has popped its flag by the time it looks for its target. -/
inductive Fails (p : Program) (position : Nat) (m : Simulator) : Failure → Simulator → Prop
  | unknown {h : Handler} : p[position]? = some h → h.opcode = .unknown →
      Fails p position m (.unknownOpcode h.address position) m
  | register {h : Handler} : p[position]? = some h → h.opcode.namesRegister →
      m.vregs.size ≤ h.data.toNat → Fails p position m (.registerOutOfRange h.data position) m
  | branch {h : Handler} : p[position]? = some h → h.opcode = .jnz → m.peek .qword 0 ≠ 0 →
      (∀ h' ∈ p, h'.address.toUInt64 ≠ h.data) →
      Fails p position m (.unresolvedBranch h.data position) { m with vsp := m.vsp + 8 }

/-- A step fails if its handler does. -/
theorem run_step_of_error (hh : p[position]? = some h)
    (hperform : (h.perform position : Action Simulator (Outcome Word)).run m = .error e m') :
    (step p position).run m = .error e m' := by
  unfold step
  rw [Program.fetch, hh, Action.run_bind_of_ok (Action.run_ofIndex_some h m),
    Action.run_bind_of_error hperform]

/-- Each of the cases makes a step fail, with that failure and that machine. -/
theorem Fails.run_step (hfails : Fails p position m cause m') :
    (step p position).run m = .error (.failed cause) m' := by
  cases hfails with
  | unknown hh hop =>
    apply run_step_of_error hh
    apply perform_of_fate_error
    rw [Handler.fate, hop]
  | @register h hh hop hle =>
    apply run_step_of_error hh
    apply perform_of_fate_error
    unfold Handler.fate
    rcases hop with hop | hop | hop | hop
    all_goals
      rw [hop]
      exact if_neg (Nat.not_lt.2 hle)
  | @branch h hh hop hflag hnowhere =>
    have hstep := branchStep_of_jnz hh hop m
    generalize (step p position).run m = result at hstep
    cases hstep with
    | unresolved => rfl
    | taken _ hat =>
      obtain ⟨h', hh', htarget⟩ := Program.positionAt?_eq_some hat
      exact absurd htarget (hnowhere h' (List.mem_of_getElem? hh'))
    | onward hzero => exact absurd hflag hzero
    | behind hzero => exact absurd hflag hzero

/-- Nothing else makes a step of the program fail. A handler that is refused is so by its fate, and
one that was carried out can only branch to nowhere. -/
theorem fails_of_step (hlt : position < p.length) (hstep : (step p position).run m = .error e m') :
    ∃ cause, e = .failed cause ∧ Fails p position m cause m' := by
  obtain ⟨h, hh⟩ : ∃ h, p[position]? = some h := ⟨_, List.getElem?_eq_getElem hlt⟩
  have hrefused : ∀ {cause}, h.fate m.vregs.size position = .error cause →
      Fails p position m cause m → ∃ cause, e = .failed cause ∧ Fails p position m cause m' := by
    intro cause hfate hfails
    rw [run_step_of_error hh (perform_of_fate_error hfate)] at hstep
    obtain ⟨rfl, rfl⟩ := EStateM.Result.error.inj hstep
    exact ⟨cause, rfl, hfails⟩
  have hof := h.fateOf m.vregs.size position
  cases hfate : h.fate m.vregs.size position with
  | error cause =>
    apply hrefused hfate
    rw [hfate] at hof
    cases hof with
    | unknown hop => exact .unknown hh hop
    | register hop hle => exact .register hh hop hle
  | ok fate =>
    obtain ⟨outcome, m₁, hperform, -⟩ := perform_of_fate_ok hfate
    have hyields := h.gives_yields position m outcome m₁ hperform
    cases outcome with
    | exit =>
      rw [run_step hh hperform] at hstep
      cases hstep
    | next =>
      obtain ⟨progress, m₂, hgoes⟩ := exists_run_goTo p (position + 1) false m₁
      rw [run_step hh hperform, proceed, hgoes] at hstep
      cases hstep
    | branch condition target =>
      have hbranch := branchStep_of_jnz hh hyields.1 m
      rw [hstep] at hbranch
      cases hbranch with
      | unresolved hflag hat =>
        exact ⟨_, rfl, .branch hh hyields.1 hflag (Program.positionAt?_eq_none hat)⟩

/-- Going on is to a position of the program. -/
theorem lt_of_goTo {next next' : Nat} {taken taken' : Bool}
    (hgoes : (goTo p next taken).run m = .ok (.advance next' taken') m') : next' < p.length := by
  by_cases hlt : next < p.length
  · rw [run_goTo_inside hlt] at hgoes
    cases hgoes
    exact hlt
  · rw [run_goTo_outside hlt taken (run_restoreRegisters m)] at hgoes
    cases hgoes

/-- A step leads to a handler of the program, or nowhere. The target of a branch is searched among
the handlers. -/
theorem lt_of_step {next : Nat} {taken : Bool}
    (hstep : (step p position).run m = .ok (.advance next taken) m') : next < p.length := by
  obtain ⟨h, outcome, m₁, hh, hperform, -⟩ := step_cases hstep
  rw [run_step hh hperform] at hstep
  cases outcome with
  | exit => cases hstep
  | next => exact lt_of_goTo hstep
  | branch condition target =>
    rw [proceed] at hstep
    split at hstep
    · exact lt_of_goTo hstep
    · obtain ⟨found, m₂, -, hgoes⟩ := Action.exists_of_run_bind_ok hstep
      exact lt_of_goTo hgoes

/-! ## Runs -/

/-- A run stays inside the program, and the file of registers keeps its size. -/
theorem Reaches.inside (hp : p ≠ []) (hreach : Reaches p start k position m) :
    position < p.length ∧ m.vregs.size = start.vregs.size := by
  induction hreach with
  | zero => exact ⟨List.length_pos_iff.2 hp, rfl⟩
  | succ _ hstep ih => exact ⟨lt_of_step hstep, (size_of_step hstep).trans ih.2⟩

/-- A run comes to each number of steps on its way to more. -/
theorem Reaches.exists_of_le (hreach : Reaches p start k position m) {j : Nat} (hle : j ≤ k) :
    ∃ position' m', Reaches p start j position' m' := by
  induction hreach with
  | zero =>
    obtain rfl := Nat.le_zero.1 hle
    exact ⟨_, _, .zero⟩
  | @succ k _ _ _ _ _ hreach hstep ih =>
    rcases Nat.lt_or_eq_of_le hle with hlt | rfl
    · exact ih (Nat.le_of_lt_succ hlt)
    · exact ⟨_, _, hreach.succ hstep⟩

/-- A run that halts from some position on comes to a step that does. -/
theorem Reaches.halts_of_runFrom {n : Nat} (hreach : Reaches p start k position m)
    (hrun : (runFrom p n k position).run m = .error e m') :
    ∃ k' position' m₁, k' < k + n ∧ Reaches p start k' position' m₁ ∧
      (step p position').run m₁ = .error e m' := by
  -- By the steps that are left: the first of them halts, or it leads to the others.
  induction n generalizing k position m with
  | zero => cases hrun
  | succ n ih =>
    rw [runFrom] at hrun
    cases hstep : (step p position).run m with
    | error e' m₁ =>
      rw [Action.run_bind_of_error hstep] at hrun
      obtain ⟨rfl, rfl⟩ := EStateM.Result.error.inj hrun
      exact ⟨k, position, m, by omega, hreach, hstep⟩
    | ok progress m₁ =>
      rw [Action.run_bind_of_ok hstep] at hrun
      cases progress with
      | exit => cases hrun
      | advance next taken =>
        obtain ⟨k', position', m₂, hlt, hreach', hhalts⟩ := ih (hreach.succ hstep) hrun
        exact ⟨k', position', m₂, by omega, hreach', hhalts⟩

/-- A run halts exactly if it comes to a step that does, within its limit. -/
theorem run_eq_error_iff : (run p limit).run start = .error e m' ↔
    ∃ k position m, k < limit ∧ Reaches p start k position m ∧
      (step p position).run m = .error e m' := by
  constructor
  · intro hrun
    obtain ⟨k, position, m, hlt, hreach, hhalts⟩ := Reaches.zero.halts_of_runFrom hrun
    exact ⟨k, position, m, by omega, hreach, hhalts⟩
  · rintro ⟨k, position, m, hlt, hreach, hhalts⟩
    obtain ⟨n, rfl⟩ : ∃ n, limit = k + (n + 1) := ⟨limit - k - 1, by omega⟩
    rw [hreach.run_add, runFrom, Action.run_bind_of_error hhalts]

/-- A run whose limit is below the number of steps that the program takes does not end. -/
theorem Exits.run_eq_none {n : Nat} (hexits : Exits p start n m) (hlt : limit < n) :
    ∃ m', (run p limit).run start = .ok none m' := by
  obtain ⟨j, position, m₁, rfl, hreach, -⟩ := hexits
  obtain ⟨position', m', hreach'⟩ := hreach.exists_of_le (Nat.le_of_lt_succ hlt)
  exact ⟨m', hreach'.run_eq_none⟩

/-- What there is to say about the runs of a program from one machine. -/
structure RunsSafely (p : Program) (start : Simulator) (limit : Nat) : Prop where
  /-- No step leads behind the end of the program, on whatever machine it is made. -/
  advances : ∀ position m next taken m',
    (step p position).run m = .ok (.advance next taken) m' → next < p.length
  inside : ∀ k position m, Reaches p start k position m →
    position < p.length ∧ m.vregs.size = start.vregs.size
  /-- Nothing is looked up where nothing is. -/
  inRange : ∀ m', (run p limit).run start ≠ .error .outOfRange m'
  fails_iff : ∀ cause m', (run p limit).run start = .error (.failed cause) m' ↔
    ∃ k position m, k < limit ∧ Reaches p start k position m ∧ Fails p position m cause m'
  /-- The limit does not matter to a program that ends, if it is large enough, and it is
  respected. -/
  ends : ∀ n m', (run p limit).run start = .ok (some n) m' → n ≤ limit ∧
    (∀ limit', n ≤ limit' → (run p limit').run start = .ok (some n) m') ∧
    ∀ limit' < n, ∃ m₁, (run p limit').run start = .ok none m₁

/-- **The simulator is safe, and it fails for the known reasons only.** The program must have a
handler, or the first step would look for one behind its end. -/
theorem runsSafely {p : Program} (hp : p ≠ []) (start : Simulator) (limit : Nat) :
    RunsSafely p start limit where
  advances _ _ _ _ _ hstep := lt_of_step hstep
  inside _ _ _ hreach := hreach.inside hp
  inRange m' hrun := by
    obtain ⟨k, position, m, -, hreach, hhalts⟩ := run_eq_error_iff.1 hrun
    obtain ⟨cause, hcause, -⟩ := fails_of_step (hreach.inside hp).1 hhalts
    cases hcause
  fails_iff cause m' := by
    rw [run_eq_error_iff]
    constructor
    · rintro ⟨k, position, m, hlt, hreach, hhalts⟩
      obtain ⟨cause', hcause, hfails⟩ := fails_of_step (hreach.inside hp).1 hhalts
      cases hcause
      exact ⟨k, position, m, hlt, hreach, hfails⟩
    · rintro ⟨k, position, m, hlt, hreach, hfails⟩
      exact ⟨k, position, m, hlt, hreach, hfails.run_step⟩
  ends n m' hrun := by
    have hexits := exits_of_run_eq_some hrun
    refine ⟨?_, fun limit' hle => hexits.run_eq_some hle, fun limit' hlt => hexits.run_eq_none hlt⟩
    apply Nat.le_of_not_lt
    intro hlt
    obtain ⟨m₁, hnone⟩ := hexits.run_eq_none hlt
    rw [hnone] at hrun
    cases hrun

/-- Branches to where no handler is. -/
def straying : Program :=
  [{ opcode := .push64, data := 1, address := 0x10, dispatch := 0, width := 12 },
    { opcode := .jnz, data := 0xffff, address := 0x1c, dispatch := 0, width := 12 }]

/-- A branch that leads nowhere, and a loop that ends within one limit and not within another. -/
theorem runsSafely_straying :
    (straying ≠ [] ∧ (run straying 2).run wrapped = .error (.failed (.unresolvedBranch 0xffff 1))
      { wrapped.push .qword 1 with vsp := (wrapped.push .qword 1).vsp + 8 }) ∧
    repeating ≠ [] ∧ ∃ m', (run repeating 20).run distinctive = .ok (some 16) m' ∧
      (run repeating 16).run distinctive = .ok (some 16) m' ∧
      ∃ m₁, (run repeating 15).run distinctive = .ok none m₁ := by
  have hreach : Reaches straying wrapped 1 1 (wrapped.push .qword 1) := Reaches.zero.succ rfl
  have hflag : (wrapped.push .qword 1).peek .qword 0 ≠ 0 := by decide +kernel
  have hat : straying[1]? =
      some { opcode := .jnz, data := 0xffff, address := 0x1c, dispatch := 0, width := 12 } := rfl
  have hfails := Fails.branch hat rfl hflag (by decide)
  obtain ⟨m', hrun⟩ : ∃ m', (run repeating 20).run distinctive = .ok (some 16) m' :=
    Action.exists_of_answer (by decide +kernel)
  refine ⟨⟨by decide, ?_⟩, by decide, m', hrun, ?_⟩
  · rw [(runsSafely (by decide) wrapped 2).fails_iff]
    exact ⟨1, 1, _, by decide, hreach, hfails⟩
  · obtain ⟨-, hmore, hless⟩ := (runsSafely (by decide) distinctive 20).ends 16 m' hrun
    exact ⟨hmore 16 (by decide), hless 15 (by decide)⟩

end Simulator

end CodeRecovery
