/-
What a step leaves alone.

A step of the simulator carries out a handler and then, behind the last handler, pops the native
context. `Frame` says what of the machine may be different afterwards: memory where the handler
pushed and where it stored, the virtual register that it pops into, and the native registers if the
program has ended. All else is as before, and where the pushed bytes lie is a matter of the table of
stack uses alone.

The memory and the native registers of a handler are its footprint. The virtual registers are added
here. That there are always as many of them is one more correspondence with the skeleton, and it
settles at the same time which handlers are carried out.
-/
import CodeRecovery.Proofs.Simulator.Arithmetic
import CodeRecovery.Proofs.Simulator.Balance

set_option autoImplicit false

namespace CodeRecovery

namespace Simulator

open Memory (distance)

variable {p : Program} {h : Handler} {position registers : Nat} {m m₁ m' : Simulator}
  {outcome : Outcome Word} {progress : Progress}

/-! ## The number of virtual registers -/

/-- Saving and restoring the native context does not touch virtual registers. -/
theorem vregs_pushAll (m : Simulator) (values : List Word) :
    (m.pushAll values).vregs = m.vregs := by
  induction values generalizing m with
  | nil => rfl
  | cons value rest ih =>
    rw [pushAll_cons, ih]
    exact vregs_push m .qword value

theorem vregs_popAll (m : Simulator) (rs : List SavedRegister) : (m.popAll rs).vregs = m.vregs := by
  induction rs generalizing m with
  | nil => rfl
  | cons r rest ih => exact ih _

/-- The simulator and the skeleton have the same number of virtual registers. Values do not
matter. -/
def filedOf (registers : Nat) : Correspondence Simulator Word Skeleton Unit where
  State _ m t := m.vregs.size = registers ∧ t.virtualRegisters = registers
  Now _ _ _ _ _ := True
  Held _ _ _ _ _ := True

/-- An operation that keeps the number of registers. -/
theorem filed_joint {α β : Type} {n n' : Nat} {t : Skeleton}
    {R : Simulator → Skeleton → α → β → Prop} {a : α} {a' : β} {x : Action Simulator α}
    {y : Action Skeleton β} (hstate : (filedOf registers).State n m t) (hrun : x.run m = .ok a m')
    (hsize : m'.vregs.size = m.vregs.size) (hskeleton : y.run t = .ok a' t) (hR : R m' t a a') :
    (filedOf registers).Joint n' m t R (x.run m) (y.run t) := by
  rw [hrun, hskeleton]
  exact .ok ⟨hsize.trans hstate.1, hstate.2⟩ (fun _ _ _ hheld => hheld) hR

/-- The simulator, coupled with the skeleton: one line for each operation. -/
def filed (registers : Nat) : Coupling Simulator Word Skeleton Unit where
  toCorrespondence := filedOf registers
  now_of_held h := h
  weaken h := h
  registers := registers
  virtualRegisters h := h
  constant _ _ hstate := filed_joint hstate rfl rfl rfl trivial
  push _ hstate _ := filed_joint hstate rfl rfl rfl trivial
  pop _ hstate := filed_joint hstate rfl rfl rfl trivial
  getVreg {_ _ _ w _} _ hstate hindex :=
    filed_joint hstate (run_getVreg (hstate.1 ▸ hindex) w) rfl rfl trivial
  setVreg {_ _ _ w _ v _} _ hstate hindex _ :=
    filed_joint hstate (run_setVreg (hstate.1 ▸ hindex) w v) Array.size_setIfInBounds rfl trivial
  getVsp hstate := filed_joint hstate rfl rfl rfl trivial
  setVsp hstate _ := filed_joint hstate rfl rfl rfl trivial
  binary _ _ _ _ _ _ hstate _ _ := filed_joint hstate rfl rfl rfl trivial
  signExtend _ hstate _ := filed_joint hstate rfl rfl rfl trivial
  testZero hstate _ := filed_joint hstate rfl rfl rfl trivial
  testNonzero hstate _ := filed_joint hstate rfl rfl rfl trivial
  load _ hstate _ := filed_joint hstate rfl rfl rfl trivial
  store _ hstate _ _ := filed_joint hstate rfl rfl rfl trivial
  saveRegisters {_ m _} hstate :=
    filed_joint hstate (run_saveRegisters m) (congrArg Array.size (vregs_pushAll m _)) rfl trivial
  restoreRegisters {_ m _} hstate :=
    filed_joint hstate (run_restoreRegisters m) (congrArg Array.size (vregs_popAll m _)) rfl trivial

/-- A handler that can be carried out is carried out, and there are as many registers as before. -/
theorem perform_of_fate_ok {fate : Outcome Unit} (hfate : h.fate m.vregs.size position = .ok fate) :
    ∃ outcome m', (h.perform position : Action Simulator (Outcome Word)).run m = .ok outcome m' ∧
      m'.vregs.size = m.vregs.size := by
  have hstate : (filed m.vregs.size).State (0 + 8) m ⟨m.vregs.size⟩ := ⟨rfl, rfl⟩
  obtain ⟨outcome, m', hrun, hstate', -⟩ := (filed m.vregs.size).perform_of_fate_ok hstate hfate
  exact ⟨outcome, m', hrun, hstate'.1⟩

/-- A handler that cannot be carried out is refused, and nothing is changed. -/
theorem perform_of_fate_error {cause : Failure}
    (hfate : h.fate m.vregs.size position = .error cause) :
    (h.perform position : Action Simulator (Outcome Word)).run m = .error (.failed cause) m := by
  have hstate : (filed m.vregs.size).State (0 + 8) m ⟨m.vregs.size⟩ := ⟨rfl, rfl⟩
  obtain ⟨m', hrun⟩ := (filed m.vregs.size).perform_of_fate_error hstate hfate
  obtain rfl := eq_of_perform_error hrun
  exact hrun

/-- A handler that was carried out names a register that is there, for otherwise its fate would be
to fail. -/
theorem lt_of_perform (hop : h.opcode.namesRegister)
    (hrun : (h.perform position : Action Simulator (Outcome Word)).run m = .ok outcome m') :
    h.data.toNat < m.vregs.size := by
  have hof := h.fateOf m.vregs.size position
  cases hfate : h.fate m.vregs.size position with
  | error cause =>
    rw [perform_of_fate_error hfate] at hrun
    cases hrun
  | ok fate =>
    rw [hfate] at hof
    cases hof with
    | next _ _ _ hlt => exact hlt hop
    | branch hjnz => simp [Opcode.namesRegister, hjnz] at hop
    | exit hexit => simp [Opcode.namesRegister, hexit] at hop

/-! ## The virtual registers behind a handler -/

/-- A pop replaces the register that the handler names, and nothing else touches the registers. A
value of 32 bits replaces the whole register. -/
def vregsBehind (m : Simulator) (h : Handler) : Array Word :=
  match h.opcode with
  | .popVr64 => m.vregs.setIfInBounds h.data.toNat (m.peek .qword 0)
  | .popVr32 => m.vregs.setIfInBounds h.data.toNat (m.peek .dword 0)
  | _ => m.vregs

/-- A pop writes what is on top of the stack, which is at most as wide as the register. -/
theorem vregs_of_performPopVreg {w : Width} (hw : w ≠ .bit) (hlt : h.data.toNat < m.vregs.size)
    (hrun : (h.performPopVreg w position : Action Simulator (Outcome Word)).run m
      = .ok outcome m') :
    m'.vregs = m.vregs.setIfInBounds h.data.toNat (m.peek w 0) := by
  have hvreg : (h.vreg position : Action Simulator Nat).run m = .ok h.data.toNat m := by
    rw [Handler.vreg, Action.run_bind_of_ok (EStateM.run_get m),
      if_pos (show _ < StackOps.virtualRegisters m from hlt)]
    rfl
  have hpop : (StackOps.pop w : Action Simulator Word).run m = .ok (m.pop w).1 (m.pop w).2 := rfl
  have hlt' : h.data.toNat < (m.pop w).2.vregs.size := hlt
  have hcut : w.cut (m.pop w).1 = m.peek w 0 := by
    rw [peek_zero]
    exact Memory.cut_read m.memory hw m.vsp
  rw [Handler.performPopVreg, Action.run_bind_of_ok hvreg, Action.run_bind_of_ok hpop,
    Action.run_bind_of_ok (run_setVreg hlt' w _), hcut] at hrun
  cases hrun
  rfl

theorem vregs_of_performPushVreg {w : Width}
    (hrun : (h.performPushVreg w position : Action Simulator (Outcome Word)).run m
      = .ok outcome m') :
    m'.vregs = m.vregs := by
  obtain ⟨index, m₁, hvreg, hrest⟩ := Action.exists_of_run_bind_ok hrun
  obtain ⟨rfl, hlt⟩ := run_vreg_ok hvreg
  rw [Action.run_bind_of_ok (run_getVreg hlt w)] at hrest
  cases hrest
  rfl

/-- Arithmetic is on the stack alone. -/
theorem vregs_of_performArithmetic {op : BinaryOp} {w : Width}
    (hrun : (Handler.performArithmetic op w : Action Simulator (Outcome Word)).run m
      = .ok outcome m') :
    m'.vregs = m.vregs := by
  rw [run_performArithmetic] at hrun
  obtain ⟨-, rfl⟩ := EStateM.Result.ok.inj hrun
  rw [vregs_push, vregs_push]
  rfl

/-- **What a handler makes of the virtual registers.** By the instruction; all but two leave them
alone. -/
theorem vregs_of_perform
    (hrun : (h.perform position : Action Simulator (Outcome Word)).run m = .ok outcome m') :
    m'.vregs = m.vregsBehind h := by
  unfold vregsBehind
  cases hop : h.opcode with
  | popVr64 | popVr32 =>
    have hlt := lt_of_perform (by simp [Opcode.namesRegister, hop]) hrun
    rw [Handler.perform, hop] at hrun
    exact vregs_of_performPopVreg (by decide) hlt hrun
  | pushVr64 | pushVr32 =>
    rw [Handler.perform, hop] at hrun
    exact vregs_of_performPushVreg hrun
  | vmInit =>
    rw [run_perform_vmInit hop] at hrun
    cases hrun
    exact vregs_pushAll m _
  | vmExit =>
    rw [run_perform_vmExit hop] at hrun
    cases hrun
    exact vregs_popAll m _
  | sub64 | sub32 | add64 | add32 | or32 | and32 | xor32 =>
    rw [Handler.perform, hop] at hrun
    exact vregs_of_performArithmetic hrun
  | unknown =>
    rw [Handler.perform, hop] at hrun
    cases hrun
  | pushVsp | push64 | push32 | load32 | load64 =>
    rw [Handler.perform, hop] at hrun
    cases hrun
    exact vregs_push _ _ _
  | popVsp | write32 | jnz =>
    rw [Handler.perform, hop] at hrun
    cases hrun
    rfl

/-! ## Steps -/

/-- What a step at a handler with some use of the stack may change. All else is as before. -/
structure Frame (h : Handler) (use : StackUse) (m : Simulator) (progress : Progress)
    (m' : Simulator) : Prop where
  /-- A byte that is different lies where values were pushed, or where a value was stored. -/
  memory : ∀ a, m'.memory.byte a ≠ m.memory.byte a →
    (∃ k < use.pushedBytes,
      a = m.vsp + .ofNat use.poppedBytes - .ofNat use.pushedBytes + .ofNat k) ∨
    h.opcode = .write32 ∧ ∃ k < 4, a = m.peek .qword 0 + .ofNat k
  size : m'.vregs.size = m.vregs.size
  /-- A virtual register that is different is the one that a pop names. -/
  vregs : ∀ i, m'.vregs[i]? ≠ m.vregs[i]? →
    i = h.data.toNat ∧ (h.opcode = .popVr64 ∨ h.opcode = .popVr32)
  wide : h.opcode = .popVr64 → m'.vregs[h.data.toNat]? = some (m.peek .qword 0)
  /-- The upper half of a register is cleared by a narrow pop. -/
  narrow : h.opcode = .popVr32 → m'.vregs[h.data.toNat]? = some (m.peek .dword 0) ∧
    (m.peek .dword 0).toNat < 2 ^ 32
  registers : progress ≠ .exit → m'.registers = m.registers

/-- A register that is different is the one that was replaced. -/
theorem getElem?_vregsBehind (m : Simulator) (h : Handler) {i : Nat}
    (hi : (m.vregsBehind h)[i]? ≠ m.vregs[i]?) :
    i = h.data.toNat ∧ (h.opcode = .popVr64 ∨ h.opcode = .popVr32) := by
  have hset : ∀ value : Word, (m.vregs.setIfInBounds h.data.toNat value)[i]? ≠ m.vregs[i]? →
      i = h.data.toNat := by
    intro value hne
    apply Decidable.byContradiction
    intro hother
    exact hne (Array.getElem?_setIfInBounds_ne (Ne.symm hother))
  unfold vregsBehind at hi
  cases hop : h.opcode with
  | popVr64 =>
    rw [hop] at hi
    exact ⟨hset _ hi, .inl rfl⟩
  | popVr32 =>
    rw [hop] at hi
    exact ⟨hset _ hi, .inr rfl⟩
  | _ =>
    rw [hop] at hi
    exact absurd rfl hi

/-- There are as many as before. -/
theorem size_vregsBehind (m : Simulator) (h : Handler) : (m.vregsBehind h).size = m.vregs.size := by
  unfold vregsBehind
  split
  · exact Array.size_setIfInBounds
  · exact Array.size_setIfInBounds
  · rfl

/-- What a step makes of the machine that its handler leaves touches neither memory nor virtual
registers, and native registers only if the program has ended. -/
theorem Settles.keeps (hsettles : Settles h m₁ progress m') :
    m'.memory = m₁.memory ∧ m'.vregs = m₁.vregs ∧
      (progress ≠ .exit → h.opcode ≠ .vmExit ∧ m'.registers = m₁.registers) := by
  cases hsettles with
  | advance hop => exact ⟨rfl, rfl, fun _ => ⟨hop, rfl⟩⟩
  | behind _ => exact ⟨memory_popAll _ _, vregs_popAll _ _, fun hne => absurd rfl hne⟩
  | exit _ => exact ⟨rfl, rfl, fun hne => absurd rfl hne⟩

/-- A step keeps the number of virtual registers. -/
theorem size_of_step (hstep : (step p position).run m = .ok progress m') :
    m'.vregs.size = m.vregs.size := by
  obtain ⟨h, outcome, m₁, -, hperform, hsettles⟩ := step_cases hstep
  obtain ⟨-, hvregs, -⟩ := hsettles.keeps
  rw [hvregs, vregs_of_perform hperform, size_vregsBehind]

/-- **What a step leaves alone**, for every program, position and machine. The handler has its
footprint and its virtual registers, and what the step does behind it is to restore native registers
at most. -/
theorem step_frame {p : Program} {position : Nat} {m m' : Simulator} {progress : Progress}
    (hstep : (step p position).run m = .ok progress m') :
    ∃ h use, p[position]? = some h ∧ h.opcode.stackUse? = some use ∧ Frame h use m progress m' := by
  obtain ⟨h, outcome, m₁, hh, hperform, hsettles⟩ := step_cases hstep
  obtain ⟨use, huse, hfootprint⟩ := footprint hperform
  obtain ⟨hmemory, hvregs, hregisters⟩ := hsettles.keeps
  have hvregs' := hvregs.trans (vregs_of_perform hperform)
  have hpopped : ∀ {value : Word}, h.opcode.namesRegister →
      m'.vregs = m.vregs.setIfInBounds h.data.toNat value →
        m'.vregs[h.data.toNat]? = some value := by
    intro value hop hset
    rw [hset]
    exact Array.getElem?_setIfInBounds_self_of_lt (lt_of_perform hop hperform)
  refine ⟨h, use, hh, huse, ?memory, ?size, ?vregs, ?wide, ?narrow, ?registers⟩
  case memory =>
    intro a ha
    rw [hmemory] at ha
    by_cases hpushed :
      distance (m.vsp + .ofNat use.poppedBytes - .ofNat use.pushedBytes) a < use.pushedBytes
    · exact .inl ⟨_, hpushed, (add_distance _ a).symm⟩
    · by_cases hstored : h.opcode = .write32 ∧ distance (m.peek .qword 0) a < 4
      · exact .inr ⟨hstored.1, _, hstored.2, (add_distance _ a).symm⟩
      · -- A byte that is near neither place is kept by the footprint.
        refine absurd (hfootprint.memory a (Nat.le_of_not_lt hpushed) fun hwrite => ?_) ha
        exact Nat.le_of_not_lt fun hnear => hstored ⟨hwrite, hnear⟩
  case size => exact size_of_step hstep
  case vregs =>
    intro i hi
    rw [hvregs'] at hi
    exact getElem?_vregsBehind m h hi
  case wide =>
    intro hop
    refine hpopped (.inl hop) ?_
    rw [hvregs', vregsBehind, hop]
  case narrow =>
    intro hop
    refine ⟨hpopped (.inr (.inl hop)) ?_, ?_⟩
    · rw [hvregs', vregsBehind, hop]
    · rw [peek_zero]
      exact lt_of_eq_of_lt (Memory.toNat_read ..) (Memory.readBytes_lt ..)
  case registers =>
    intro hprogress
    obtain ⟨hop, hkept⟩ := hregisters hprogress
    exact hkept.trans (hfootprint.registers hop)

/-- Stores a word and pops a narrow one into the last register. -/
def storing : Program :=
  [{ opcode := .write32, data := 0, address := 0x10, dispatch := 0, width := 4 },
    { opcode := .popVr32, data := 31, address := 0x14, dispatch := 0, width := 12 }]

/-- The address on top of the stack is that of the last byte of memory, so the four bytes go round
its end, and so does the stack. -/
def wrapped : Simulator :=
  ({ Simulator.new 2048 32 with vsp := 8 }.push .dword 0xddccbbaa).push .qword 0xffffffffffffffff

/-- The second step is at the last handler, so it ends the program and the native registers need not
be kept. -/
theorem step_frame_wrapped :
    (∃ m', (step storing 0).run wrapped = .ok (.advance 1 false) m' ∧
      ∃ h use, storing[0]? = some h ∧ h.opcode.stackUse? = some use ∧
        Frame h use wrapped (.advance 1 false) m') ∧
    ∃ m', (step storing 1).run wrapped = .ok .exit m' ∧
      ∃ h use, storing[1]? = some h ∧ h.opcode.stackUse? = some use ∧
        Frame h use wrapped .exit m' := by
  obtain ⟨m₁, hstore⟩ : ∃ m₁, (step storing 0).run wrapped = .ok (.advance 1 false) m₁ :=
    Action.exists_of_answer (by decide +kernel)
  obtain ⟨m₂, hpop⟩ : ∃ m₂, (step storing 1).run wrapped = .ok .exit m₂ :=
    Action.exists_of_answer (by decide +kernel)
  exact ⟨⟨m₁, hstore, step_frame hstore⟩, m₂, hpop, step_frame hpop⟩

end Simulator

end CodeRecovery
