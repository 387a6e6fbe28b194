/-
Two machines that carry out the same instructions.

`Handler.perform` is written once against `StackOps`, so what it does on two machines at a time
follows from what the single operations do. A `Coupling` says when the states of two machines
correspond and when a value of the one stands for a value of the other, and has one law per
operation; `perform_joint` is the conclusion for every handler. The simulator, the two compilers and
a machine that does nothing but fail are compared through it.

Two things are less than obvious. A value may stand for another only until the next operation (a
compiler may hand out the name of a register, and the register changes) or to the end of the
handler; these are `Now` and `Held`. And a compiler may number its temporaries with a counter of
finite size, so the correspondence of states carries the number of operations that may still follow.
-/
import CodeRecovery.Proofs.Action
import CodeRecovery.StackOps

set_option autoImplicit false

namespace CodeRecovery

namespace StackOps

variable {σ V : Type} [StackOps σ V]

/-- Pushes one native register. Saving all of them is this in a row, which is how the machines that
have them in order are compared. -/
def saveRegister (r : SavedRegister) : Action σ Unit := do
  let value ← getRegister r
  push .qword value

/-- Pops one native register. -/
def restoreRegister (r : SavedRegister) : Action σ Unit := do
  let value ← pop .qword
  setRegister r value

end StackOps

/-- Two outcomes lead to the same place, by conditions that `R` relates. The target of a branch is a
number of the handler and is the same on both. -/
inductive Outcome.Same {V W : Type} (R : V → W → Prop) : Outcome V → Outcome W → Prop
  | next : Same R .next .next
  | branch {condition : V} {condition' : W} {target : Word} :
      R condition condition' → Same R (.branch condition target) (.branch condition' target)
  | exit : Same R .exit .exit

/-- What is known of the conditions may be weakened. -/
theorem Outcome.Same.mono {V W : Type} {R R' : V → W → Prop} {outcome : Outcome V}
    {outcome' : Outcome W} (h : Same R outcome outcome')
    (hR : ∀ condition condition', R condition condition' → R' condition condition') :
    Same R' outcome outcome' := by
  cases h with
  | next => exact .next
  | branch hcondition => exact .branch (hR _ _ hcondition)
  | exit => exact .exit

/-- When the states of two machines correspond, and when their values do. -/
structure Correspondence (σ V τ W : Type) where
  /-- The states correspond, with room for a number of further operations. -/
  State : Nat → σ → τ → Prop
  /-- One value stands for the other until the next operation. -/
  Now : σ → τ → Width → V → W → Prop
  /-- One value stands for the other to the end of the handler. -/
  Held : σ → τ → Width → V → W → Prop

namespace Correspondence

variable {σ V τ W α β α' β' : Type} (C : Correspondence σ V τ W)

/-- What was held in the first pair of states is held in the second. Values that are held are never
taken back, which is why they may be kept across operations. -/
def Later (s : σ) (t : τ) (s' : σ) (t' : τ) : Prop :=
  ∀ w v x, C.Held s t w v x → C.Held s' t' w v x

/-- **Two results correspond**: both are successes in corresponding states, with values related by
`R`, or both halted for the same reason. The states of machines that halted need not correspond:
nothing is done with them. -/
inductive Joint (n : Nat) (s : σ) (t : τ) (R : σ → τ → α → β → Prop) :
    EStateM.Result Halt σ α → EStateM.Result Halt τ β → Prop
  | ok {a : α} {b : β} {s' : σ} {t' : τ} :
      C.State n s' t' → C.Later s t s' t' → R s' t' a b → Joint n s t R (.ok a s') (.ok b t')
  | error {e : Halt} {s' : σ} {t' : τ} : Joint n s t R (.error e s') (.error e t')

/-- Control goes the same way, by conditions that stand for each other. -/
abbrev SameOutcome (s : σ) (t : τ) : Outcome V → Outcome W → Prop :=
  Outcome.Same (C.Held s t .bit)

variable {C}

theorem Later.refl (s : σ) (t : τ) : C.Later s t s t :=
  fun _ _ _ h => h

theorem Later.trans {s₁ s₂ s₃ : σ} {t₁ t₂ t₃ : τ} (h : C.Later s₁ t₁ s₂ t₂)
    (h' : C.Later s₂ t₂ s₃ t₃) : C.Later s₁ t₁ s₃ t₃ :=
  fun w v x hv => h' w v x (h w v x hv)

/-- **Corresponding sequences**: the second parts may rely on what the first parts gave. The room
for operations goes down from the first to the second, since both are counted by the same
numeral. -/
theorem Joint.bind {n m : Nat} {s : σ} {t : τ} {R : σ → τ → α → β → Prop}
    {R' : σ → τ → α' → β' → Prop} {x : Action σ α} {y : Action τ β} {f : α → Action σ α'}
    {g : β → Action τ β'} (h : C.Joint n s t R (x.run s) (y.run t))
    (hnext : ∀ a b s' t', C.State n s' t' → C.Later s t s' t' → R s' t' a b →
      C.Joint m s' t' R' ((f a).run s') ((g b).run t')) :
    C.Joint m s t R' ((x >>= f).run s) ((y >>= g).run t) := by
  -- Both first parts succeed or both halt, so the two sequences are cut at the same place.
  generalize hx : x.run s = result at h
  generalize hy : y.run t = result' at h
  cases h with
  | ok hstate hlater hab =>
    have hrest := hnext _ _ _ _ hstate hlater hab
    rw [Action.run_bind_of_ok hx, Action.run_bind_of_ok hy]
    generalize (f _).run _ = last at hrest
    generalize (g _).run _ = last' at hrest
    cases hrest with
    | ok hstate' hlater' hab' => exact .ok hstate' (hlater.trans hlater') hab'
    | error => exact .error
  | error =>
    rw [Action.run_bind_of_error hx, Action.run_bind_of_error hy]
    exact .error

/-- Giving values back takes no operation, so the states are as they were. -/
theorem Joint.pure {n : Nat} {s : σ} {t : τ} {R : σ → τ → α → β → Prop} {a : α} {b : β}
    (hstate : C.State n s t) (hab : R s t a b) :
    C.Joint n s t R ((Pure.pure a : Action σ α).run s) ((Pure.pure b : Action τ β).run t) :=
  .ok hstate (Later.refl s t) hab

end Correspondence

/-- A correspondence that every operation keeps. Each law takes one operation off the room that is
left; the two about native registers count as one operation each, however many registers there
are. -/
structure Coupling (σ V τ W : Type) [StackOps σ V] [StackOps τ W] extends
    Correspondence σ V τ W where
  now_of_held : ∀ {s t w v x}, Held s t w v x → Now s t w v x
  /-- Room for more operations is room for fewer. -/
  weaken : ∀ {n s t}, State (n + 1) s t → State n s t
  /-- How many virtual registers both machines have. -/
  registers : Nat
  virtualRegisters : ∀ {n s t}, State n s t →
    StackOps.virtualRegisters s = registers ∧ StackOps.virtualRegisters t = registers
  constant : ∀ {n s t} (w : Width) (c : Word), State (n + 1) s t →
    toCorrespondence.Joint n s t (Held · · w)
      ((StackOps.constant w c).run s) ((StackOps.constant w c).run t)
  push : ∀ {n s t} {w : Width} {v x}, w ≠ .bit → State (n + 1) s t → Now s t w v x →
    toCorrespondence.Joint n s t (fun _ _ _ _ => True)
      ((StackOps.push w v).run s) ((StackOps.push w x).run t)
  pop : ∀ {n s t} {w : Width}, w ≠ .bit → State (n + 1) s t →
    toCorrespondence.Joint n s t (Held · · w)
      ((StackOps.pop w).run s) ((StackOps.pop w).run t)
  getVreg : ∀ {n s t} {w : Width} {index : Nat}, w ≠ .bit → State (n + 1) s t →
    index < registers →
    toCorrespondence.Joint n s t (Now · · w)
      ((StackOps.getVreg w index).run s) ((StackOps.getVreg w index).run t)
  setVreg : ∀ {n s t} {w : Width} {index : Nat} {v x}, w ≠ .bit → State (n + 1) s t →
    index < registers → Now s t w v x →
    toCorrespondence.Joint n s t (fun _ _ _ _ => True)
      ((StackOps.setVreg w index v).run s) ((StackOps.setVreg w index x).run t)
  getVsp : ∀ {n s t}, State (n + 1) s t →
    toCorrespondence.Joint n s t (Now · · .qword)
      ((StackOps.getVsp : Action σ V).run s) ((StackOps.getVsp : Action τ W).run t)
  setVsp : ∀ {n s t v x}, State (n + 1) s t → Now s t .qword v x →
    toCorrespondence.Joint n s t (fun _ _ _ _ => True)
      ((StackOps.setVsp v).run s) ((StackOps.setVsp x).run t)
  binary : ∀ {n s t} (op : BinaryOp) {w : Width} {lhs rhs lhs' rhs'}, State (n + 1) s t →
    Held s t w lhs lhs' → Held s t w rhs rhs' →
    toCorrespondence.Joint n s t (Held · · w)
      ((StackOps.binary op w lhs rhs).run s) ((StackOps.binary op w lhs' rhs').run t)
  signExtend : ∀ {n s t} {w : Width} {v x}, w ≠ .qword → State (n + 1) s t → Held s t w v x →
    toCorrespondence.Joint n s t (Held · · .qword)
      ((StackOps.signExtend w v).run s) ((StackOps.signExtend w x).run t)
  testZero : ∀ {n s t} {w : Width} {v x}, State (n + 1) s t → Held s t w v x →
    toCorrespondence.Joint n s t (Held · · .bit)
      ((StackOps.testZero w v).run s) ((StackOps.testZero w x).run t)
  testNonzero : ∀ {n s t} {w : Width} {v x}, State (n + 1) s t → Held s t w v x →
    toCorrespondence.Joint n s t (Held · · .bit)
      ((StackOps.testNonzero w v).run s) ((StackOps.testNonzero w x).run t)
  load : ∀ {n s t} {w : Width} {v x}, w ≠ .bit → State (n + 1) s t → Held s t .qword v x →
    toCorrespondence.Joint n s t (Held · · w)
      ((StackOps.load w v).run s) ((StackOps.load w x).run t)
  store : ∀ {n s t} {w : Width} {v x v' x'}, w ≠ .bit → State (n + 1) s t →
    Held s t .qword v x → Held s t w v' x' →
    toCorrespondence.Joint n s t (fun _ _ _ _ => True)
      ((StackOps.store w v v').run s) ((StackOps.store w x x').run t)
  saveRegisters : ∀ {n s t}, State (n + 1) s t →
    toCorrespondence.Joint n s t (fun _ _ _ _ => True)
      ((StackOps.saveRegisters : Action σ Unit).run s)
      ((StackOps.saveRegisters : Action τ Unit).run t)
  restoreRegisters : ∀ {n s t}, State (n + 1) s t →
    toCorrespondence.Joint n s t (fun _ _ _ _ => True)
      ((StackOps.restoreRegisters : Action σ Unit).run s)
      ((StackOps.restoreRegisters : Action τ Unit).run t)

namespace Coupling

open Correspondence

variable {σ V τ W : Type} [StackOps σ V] [StackOps τ W] (C : Coupling σ V τ W)
variable {n : Nat} {s : σ} {t : τ}

variable {C} in
/-- Room for more operations is room for fewer, by any number. -/
theorem weaken_add {k : Nat} (h : C.State (n + k) s t) : C.State n s t := by
  induction k with
  | zero => exact h
  | succ k ih => exact ih (C.weaken h)

/-- The flag word of an arithmetic result, on both machines. It takes three operations for a result
that is not a whole word, and the room is counted for these. -/
theorem zeroFlag_joint {w : Width} {v : V} {x : W} (hstate : C.State (n + 3) s t)
    (hheld : C.Held s t w v x) :
    C.Joint n s t (C.Held · · .qword) ((zeroFlag w v).run s) ((zeroFlag w x).run t) := by
  -- A word is not widened, so its flag takes one operation less.
  have htail : ∀ {s t v x}, C.State (n + 2) s t → C.Held s t .qword v x →
      C.Joint n s t (C.Held · · .qword)
        ((StackOps.testZero .qword v >>= StackOps.signExtend .bit).run s)
        ((StackOps.testZero .qword x >>= StackOps.signExtend .bit).run t) := by
    intro s t v x hstate hheld
    refine (C.testZero hstate hheld).bind ?_
    intro zero zero' s₁ t₁ hstate₁ _ hzero
    exact C.signExtend (by decide) hstate₁ hzero
  cases w with
  | qword => exact htail (C.weaken hstate) hheld
  | bit =>
    refine (C.signExtend (by decide) hstate hheld).bind ?_
    intro wide wide' s₁ t₁ hstate₁ _ hwide
    exact htail hstate₁ hwide
  | dword =>
    refine (C.signExtend (by decide) hstate hheld).bind ?_
    intro wide wide' s₁ t₁ hstate₁ _ hwide
    exact htail hstate₁ hwide

/-- Arithmetic on both machines: two pops, the operation, the push of its result and that of its
flag. It is the longest handler. -/
theorem performArithmetic_joint (op : BinaryOp) {w : Width} (hw : w ≠ .bit)
    (hstate : C.State (n + 8) s t) :
    C.Joint n s t C.SameOutcome ((Handler.performArithmetic op w).run s)
      ((Handler.performArithmetic op w).run t) := by
  refine (C.pop hw hstate).bind ?_
  intro rhs rhs' s₁ t₁ hstate₁ _ hrhs
  refine (C.pop hw hstate₁).bind ?_
  intro lhs lhs' s₂ t₂ hstate₂ hlater₂ hlhs
  -- What was popped first has outlived the second pop: pops give values that are held.
  refine (C.binary op hstate₂ hlhs (hlater₂ _ _ _ hrhs)).bind ?_
  intro result result' s₃ t₃ hstate₃ _ hresult
  refine (C.push hw hstate₃ (C.now_of_held hresult)).bind ?_
  intro _ _ s₄ t₄ hstate₄ hlater₄ _
  refine (C.zeroFlag_joint hstate₄ (hlater₄ _ _ _ hresult)).bind ?_
  intro flag flag' s₅ t₅ hstate₅ _ hflag
  refine (C.push (by decide) hstate₅ (C.now_of_held hflag)).bind ?_
  intro _ _ s₆ t₆ hstate₆ _ _
  exact Joint.pure hstate₆ .next

/-- The register a handler names is checked against the same number of registers, so both machines
go on or both halt with the same failure. -/
theorem vreg_joint (h : Handler) (position : Nat) (hstate : C.State n s t) :
    C.Joint n s t (fun _ _ index index' => index = index' ∧ index < C.registers)
      ((h.vreg position : Action σ Nat).run s) ((h.vreg position : Action τ Nat).run t) := by
  obtain ⟨hs, ht⟩ := C.virtualRegisters hstate
  by_cases hlt : h.data.toNat < C.registers
  · have hvs : (h.vreg position : Action σ Nat).run s = .ok h.data.toNat s := by
      simp [Handler.vreg, hs, hlt]
    have hvt : (h.vreg position : Action τ Nat).run t = .ok h.data.toNat t := by
      simp [Handler.vreg, ht, hlt]
    rw [hvs, hvt]
    exact .ok hstate (Later.refl s t) ⟨rfl, hlt⟩
  · have hvs : (h.vreg position : Action σ Nat).run s
        = .error (.failed (.registerOutOfRange h.data position)) s := by
      simp [Handler.vreg, hs, hlt]
    have hvt : (h.vreg position : Action τ Nat).run t
        = .error (.failed (.registerOutOfRange h.data position)) t := by
      simp [Handler.vreg, ht, hlt]
    rw [hvs, hvt]
    exact .error

/-- The register is checked first, so a handler that names no register leaves the stack alone on
both machines. -/
theorem performPopVreg_joint (h : Handler) {w : Width} (hw : w ≠ .bit) (position : Nat)
    (hstate : C.State (n + 2) s t) :
    C.Joint n s t C.SameOutcome ((h.performPopVreg w position).run s)
      ((h.performPopVreg w position).run t) := by
  refine (C.vreg_joint h position hstate).bind ?_
  rintro index _ s₁ t₁ hstate₁ _ ⟨rfl, hindex⟩
  refine (C.pop hw hstate₁).bind ?_
  intro value value' s₂ t₂ hstate₂ _ hvalue
  refine (C.setVreg hw hstate₂ hindex (C.now_of_held hvalue)).bind ?_
  intro _ _ s₃ t₃ hstate₃ _ _
  exact Joint.pure hstate₃ .next

/-- A register is read and pushed. No operation comes between, which is all that `Now` asks for. -/
theorem performPushVreg_joint (h : Handler) {w : Width} (hw : w ≠ .bit) (position : Nat)
    (hstate : C.State (n + 2) s t) :
    C.Joint n s t C.SameOutcome ((h.performPushVreg w position).run s)
      ((h.performPushVreg w position).run t) := by
  refine (C.vreg_joint h position hstate).bind ?_
  rintro index _ s₁ t₁ hstate₁ _ ⟨rfl, hindex⟩
  refine (C.getVreg hw hstate₁ hindex).bind ?_
  intro value value' s₂ t₂ hstate₂ _ hvalue
  -- The register may only be read now, and the push is the next operation.
  refine (C.push hw hstate₂ hvalue).bind ?_
  intro _ _ s₃ t₃ hstate₃ _ _
  exact Joint.pure hstate₃ .next

/-- The address is popped as a whole word, whatever the width of what is loaded. -/
theorem performLoad_joint {w : Width} (hw : w ≠ .bit) (hstate : C.State (n + 3) s t) :
    C.Joint n s t C.SameOutcome ((Handler.performLoad w).run s)
      ((Handler.performLoad w).run t) := by
  refine (C.pop (by decide) hstate).bind ?_
  intro address address' s₁ t₁ hstate₁ _ haddress
  refine (C.load hw hstate₁ haddress).bind ?_
  intro value value' s₂ t₂ hstate₂ _ hvalue
  refine (C.push hw hstate₂ (C.now_of_held hvalue)).bind ?_
  intro _ _ s₃ t₃ hstate₃ _ _
  exact Joint.pure hstate₃ .next

/-- **Every handler does the same on both machines.** They succeed in corresponding states with the
same outcome, or halt for the same reason. No handler takes more than eight operations, so that much
room is enough for any of them. -/
theorem perform_joint (h : Handler) (position : Nat) (hstate : C.State (n + 8) s t) :
    C.Joint n s t C.SameOutcome ((h.perform position : Action σ (Outcome V)).run s)
      ((h.perform position : Action τ (Outcome W)).run t) := by
  -- Arithmetic takes all eight operations; the other cases give up what they do not need.
  unfold Handler.perform
  cases h.opcode with
  | unknown => exact .error
  | vmInit =>
    refine (C.saveRegisters (weaken_add (k := 7) hstate)).bind ?_
    intro _ _ s₁ t₁ hstate₁ _ _
    exact Joint.pure hstate₁ .next
  | vmExit =>
    refine (C.restoreRegisters (weaken_add (k := 7) hstate)).bind ?_
    intro _ _ s₁ t₁ hstate₁ _ _
    exact Joint.pure hstate₁ .exit
  | popVr64 => exact C.performPopVreg_joint h (by decide) position (weaken_add (k := 6) hstate)
  | popVr32 => exact C.performPopVreg_joint h (by decide) position (weaken_add (k := 6) hstate)
  | pushVr64 => exact C.performPushVreg_joint h (by decide) position (weaken_add (k := 6) hstate)
  | pushVr32 => exact C.performPushVreg_joint h (by decide) position (weaken_add (k := 6) hstate)
  | pushVsp =>
    refine (C.getVsp (n := n + 1) (weaken_add (k := 6) hstate)).bind ?_
    intro vsp vsp' s₁ t₁ hstate₁ _ hvsp
    refine (C.push (by decide) hstate₁ hvsp).bind ?_
    intro _ _ s₂ t₂ hstate₂ _ _
    exact Joint.pure hstate₂ .next
  | popVsp =>
    refine (C.pop (n := n + 1) (by decide) (weaken_add (k := 6) hstate)).bind ?_
    intro vsp vsp' s₁ t₁ hstate₁ _ hvsp
    refine (C.setVsp hstate₁ (C.now_of_held hvsp)).bind ?_
    intro _ _ s₂ t₂ hstate₂ _ _
    exact Joint.pure hstate₂ .next
  | push64 =>
    refine (C.constant (n := n + 1) .qword _ (weaken_add (k := 6) hstate)).bind ?_
    intro value value' s₁ t₁ hstate₁ _ hvalue
    refine (C.push (by decide) hstate₁ (C.now_of_held hvalue)).bind ?_
    intro _ _ s₂ t₂ hstate₂ _ _
    exact Joint.pure hstate₂ .next
  | push32 =>
    refine (C.constant (n := n + 1) .dword _ (weaken_add (k := 6) hstate)).bind ?_
    intro value value' s₁ t₁ hstate₁ _ hvalue
    refine (C.push (by decide) hstate₁ (C.now_of_held hvalue)).bind ?_
    intro _ _ s₂ t₂ hstate₂ _ _
    exact Joint.pure hstate₂ .next
  | sub64 => exact C.performArithmetic_joint .sub (by decide) hstate
  | sub32 => exact C.performArithmetic_joint .sub (by decide) hstate
  | add64 => exact C.performArithmetic_joint .add (by decide) hstate
  | add32 => exact C.performArithmetic_joint .add (by decide) hstate
  | write32 =>
    refine (C.pop (n := n + 2) (by decide) (weaken_add (k := 5) hstate)).bind ?_
    intro address address' s₁ t₁ hstate₁ _ haddress
    refine (C.pop (by decide) hstate₁).bind ?_
    intro value value' s₂ t₂ hstate₂ hlater₂ hvalue
    refine (C.store (by decide) hstate₂ (hlater₂ _ _ _ haddress) hvalue).bind ?_
    intro _ _ s₃ t₃ hstate₃ _ _
    exact Joint.pure hstate₃ .next
  | load32 => exact C.performLoad_joint (by decide) (weaken_add (k := 5) hstate)
  | load64 => exact C.performLoad_joint (by decide) (weaken_add (k := 5) hstate)
  | or32 => exact C.performArithmetic_joint .or (by decide) hstate
  | and32 => exact C.performArithmetic_joint .and (by decide) hstate
  | xor32 => exact C.performArithmetic_joint .xor (by decide) hstate
  | jnz =>
    refine (C.pop (n := n + 1) (by decide) (weaken_add (k := 6) hstate)).bind ?_
    intro flag flag' s₁ t₁ hstate₁ _ hflag
    refine (C.testNonzero hstate₁ hflag).bind ?_
    intro condition condition' s₂ t₂ hstate₂ _ hcondition
    exact Joint.pure hstate₂ (.branch hcondition)

end Coupling

end CodeRecovery
