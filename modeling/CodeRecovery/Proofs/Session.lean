/-
What any use of a machine or of a compiler keeps.

A session is a list of calls in any order, each with the program it is made for. A call may halt
half-way, and the session goes on with the state it left. `Within R` is said of an action that moves
the state along `R`, halted or not; if every operation of a machine does, so does every handler, and
if every operation of a compiler does, so does every call and every session. Starting over is the
one operation that need not.
-/
import CodeRecovery.Proofs.Action
import CodeRecovery.Session

set_option autoImplicit false

namespace CodeRecovery

namespace Action

variable {σ α β : Type}

/-- The state that a result leaves, whether it is a success or not. -/
def finalState : EStateM.Result Halt σ α → σ
  | .ok _ s => s
  | .error _ s => s

/-- Wherever it starts, the action moves the state along `R`, whether it succeeds or halts. A
session goes on after a failure, so the state that is left by one counts as well. -/
def Within (R : σ → σ → Prop) (x : Action σ α) : Prop :=
  ∀ s, R s (finalState (x.run s))

section

variable {R : σ → σ → Prop} {x : Action σ α} {s s' : σ}

/-- What an action that succeeds does to the state. -/
theorem Within.of_run (hx : Within R x) {a : α} (hrun : x.run s = .ok a s') : R s s' := by
  have hmove := hx s
  rw [hrun] at hmove
  exact hmove

/-- What an action that halts has done to the state up to there. -/
theorem Within.of_error (hx : Within R x) {e : Halt} (hrun : x.run s = .error e s') : R s s' := by
  have hmove := hx s
  rw [hrun] at hmove
  exact hmove

end

/-- Staying is a move along `R`, and two moves are one. That is all it takes for a sequence to move
along `R` when its parts do. -/
structure Composes (R : σ → σ → Prop) : Prop where
  refl : ∀ s, R s s
  trans : ∀ {s₁ s₂ s₃}, R s₁ s₂ → R s₂ s₃ → R s₁ s₃

namespace Composes

/-- Staying alone composes. An action within equality leaves the state as it is. -/
theorem eq : Composes (Eq : σ → σ → Prop) where
  refl _ := rfl
  trans := Eq.trans

variable {R : σ → σ → Prop} (hR : Composes R)

include hR

theorem pure (a : α) : Within R (Pure.pure a : Action σ α) :=
  hR.refl

theorem throw (e : Halt) : Within R (MonadExcept.throw e : Action σ α) :=
  hR.refl

theorem get : Within R (MonadState.get : Action σ σ) :=
  hR.refl

theorem ofIndex (o : Option α) : Within R (Action.ofIndex o : Action σ α) := by
  cases o with
  | none => exact hR.throw _
  | some a => exact hR.pure a

theorem ofExcept (result : Except Failure α) : Within R (Action.ofExcept result : Action σ α) := by
  cases result with
  | error cause => exact hR.throw _
  | ok a => exact hR.pure a

/-- A sequence moves the state twice, or once if its first part halts. The second part may count on
what the first one gave. -/
theorem bind_at {x : Action σ α} {f : α → Action σ β} {s : σ} (hx : R s (finalState (x.run s)))
    (hf : ∀ a s₁, x.run s = .ok a s₁ → R s₁ (finalState ((f a).run s₁))) :
    R s (finalState ((x >>= f).run s)) := by
  cases hrun : x.run s with
  | ok a s₁ =>
    rw [hrun] at hx
    rw [Action.run_bind_of_ok hrun]
    exact hR.trans hx (hf a s₁ hrun)
  | error e s₁ =>
    rw [hrun] at hx
    rw [Action.run_bind_of_error hrun]
    exact hx

/-- A sequence moves along `R` if both parts do. -/
theorem bind {x : Action σ α} {f : α → Action σ β} (hx : Within R x) (hf : ∀ a, Within R (f a)) :
    Within R (x >>= f) :=
  fun s => hR.bind_at (hx s) fun a s₁ _ => hf a s₁

theorem map {x : Action σ α} (f : α → β) (hx : Within R x) : Within R (f <$> x) :=
  hR.bind hx fun a => hR.pure (f a)

/-- A row of actions moves along `R` if each of them does. -/
theorem forM {x : α → Action σ PUnit} (hx : ∀ a, Within R (x a)) (l : List α) :
    Within R (l.forM x) := by
  induction l with
  | nil => exact hR.pure _
  | cons a rest ih => exact hR.bind (hx a) fun _ => ih

end Composes

end Action

open CodeRecovery.Action (Within finalState)

/-! ## Handlers -/

/-- Finding the register that a handler names is no operation of the machine, and moves nothing. -/
theorem Handler.within_vreg {σ V : Type} [StackOps σ V] {R : σ → σ → Prop} (hR : Action.Composes R)
    (h : Handler) (position : Nat) : Within R (h.vreg position : Action σ Nat) := by
  refine hR.bind hR.get fun s => ?_
  by_cases hindex : h.data.toNat < StackOps.virtualRegisters s
  · rw [if_pos hindex]
    exact hR.pure _
  · rw [if_neg hindex]
    exact hR.throw _

/-- **Every operation of the machine moves its state along `R`.** There is one field for each
operation; handlers and calls are made of these and of nothing else. -/
structure StackOps.Kept {σ V : Type} [StackOps σ V] (R : σ → σ → Prop) : Prop
    extends Action.Composes R where
  constant : ∀ w c, Within R (StackOps.constant w c : Action σ V)
  push : ∀ w (v : V), Within R (StackOps.push w v : Action σ Unit)
  pop : ∀ w, Within R (StackOps.pop w : Action σ V)
  getVreg : ∀ w index, Within R (StackOps.getVreg w index : Action σ V)
  setVreg : ∀ w index (v : V), Within R (StackOps.setVreg w index v : Action σ Unit)
  getVsp : Within R (StackOps.getVsp : Action σ V)
  setVsp : ∀ v : V, Within R (StackOps.setVsp v : Action σ Unit)
  getRegister : ∀ r, Within R (StackOps.getRegister r : Action σ V)
  setRegister : ∀ r (v : V), Within R (StackOps.setRegister r v : Action σ Unit)
  binary : ∀ op w (lhs rhs : V), Within R (StackOps.binary op w lhs rhs : Action σ V)
  signExtend : ∀ w (v : V), Within R (StackOps.signExtend w v : Action σ V)
  testZero : ∀ w (v : V), Within R (StackOps.testZero w v : Action σ V)
  testNonzero : ∀ w (v : V), Within R (StackOps.testNonzero w v : Action σ V)
  load : ∀ w (address : V), Within R (StackOps.load w address : Action σ V)
  store : ∀ w (address v : V), Within R (StackOps.store w address v : Action σ Unit)
  saveRegisters : Within R (StackOps.saveRegisters : Action σ Unit)
  restoreRegisters : Within R (StackOps.restoreRegisters : Action σ Unit)

namespace StackOps.Kept

variable {σ V : Type} [StackOps σ V] {R : σ → σ → Prop} (hR : Kept R)

include hR

/-- A word needs no widening, so the two other widths take one operation more. -/
theorem zeroFlag (w : Width) (v : V) : Within R (CodeRecovery.zeroFlag w v : Action σ V) := by
  have htail : ∀ wide : V, Within R (do
      let zero ← StackOps.testZero .qword wide
      StackOps.signExtend .bit zero : Action σ V) :=
    fun wide => hR.bind (hR.testZero .qword wide) fun zero => hR.signExtend .bit zero
  cases w with
  | qword => exact hR.bind (hR.pure v) htail
  | bit => exact hR.bind (hR.signExtend .bit v) htail
  | dword => exact hR.bind (hR.signExtend .dword v) htail

/-- Arithmetic is two pops, an operation and two pushes. -/
theorem performArithmetic (op : BinaryOp) (w : Width) :
    Within R (Handler.performArithmetic op w : Action σ (Outcome V)) := by
  refine hR.bind (hR.pop w) fun rhs => ?_
  refine hR.bind (hR.pop w) fun lhs => ?_
  refine hR.bind (hR.binary op w lhs rhs) fun result => ?_
  refine hR.bind (hR.push w result) fun _ => ?_
  refine hR.bind (hR.zeroFlag w result) fun flag => ?_
  exact hR.bind (hR.push .qword flag) fun _ => hR.pure _

/-- Popping into a register moves the state at most twice; the check of the register is no
operation. -/
theorem performPopVreg (h : Handler) (w : Width) (position : Nat) :
    Within R (h.performPopVreg w position : Action σ (Outcome V)) := by
  refine hR.bind (h.within_vreg hR.toComposes position) fun index => ?_
  refine hR.bind (hR.pop w) fun value => ?_
  exact hR.bind (hR.setVreg w index value) fun _ => hR.pure _

/-- The same for pushing a register. -/
theorem performPushVreg (h : Handler) (w : Width) (position : Nat) :
    Within R (h.performPushVreg w position : Action σ (Outcome V)) := by
  refine hR.bind (h.within_vreg hR.toComposes position) fun index => ?_
  refine hR.bind (hR.getVreg w index) fun value => ?_
  exact hR.bind (hR.push w value) fun _ => hR.pure _

/-- A load pops its address and pushes what it finds. -/
theorem performLoad (w : Width) : Within R (Handler.performLoad w : Action σ (Outcome V)) := by
  refine hR.bind (hR.pop .qword) fun address => ?_
  refine hR.bind (hR.load w address) fun value => ?_
  exact hR.bind (hR.push w value) fun _ => hR.pure _

/-- **A handler moves the state as its operations do**, whether it is carried out or halts
half-way. -/
theorem perform (h : Handler) (position : Nat) :
    Within R (h.perform position : Action σ (Outcome V)) := by
  unfold Handler.perform
  cases h.opcode with
  | unknown => exact hR.throw _
  | vmInit => exact hR.bind hR.saveRegisters fun _ => hR.pure _
  | vmExit => exact hR.bind hR.restoreRegisters fun _ => hR.pure _
  | popVr64 => exact hR.performPopVreg h .qword position
  | popVr32 => exact hR.performPopVreg h .dword position
  | pushVr64 => exact hR.performPushVreg h .qword position
  | pushVr32 => exact hR.performPushVreg h .dword position
  | pushVsp =>
    refine hR.bind hR.getVsp fun vsp => ?_
    exact hR.bind (hR.push .qword vsp) fun _ => hR.pure _
  | popVsp =>
    refine hR.bind (hR.pop .qword) fun vsp => ?_
    exact hR.bind (hR.setVsp vsp) fun _ => hR.pure _
  | push64 =>
    refine hR.bind (hR.constant .qword _) fun value => ?_
    exact hR.bind (hR.push .qword value) fun _ => hR.pure _
  | push32 =>
    refine hR.bind (hR.constant .dword _) fun value => ?_
    exact hR.bind (hR.push .dword value) fun _ => hR.pure _
  | sub64 => exact hR.performArithmetic .sub .qword
  | sub32 => exact hR.performArithmetic .sub .dword
  | add64 => exact hR.performArithmetic .add .qword
  | add32 => exact hR.performArithmetic .add .dword
  | or32 => exact hR.performArithmetic .or .dword
  | and32 => exact hR.performArithmetic .and .dword
  | xor32 => exact hR.performArithmetic .xor .dword
  | write32 =>
    refine hR.bind (hR.pop .qword) fun address => ?_
    refine hR.bind (hR.pop .dword) fun value => ?_
    exact hR.bind (hR.store .dword address value) fun _ => hR.pure _
  | load32 => exact hR.performLoad .dword
  | load64 => exact hR.performLoad .qword
  | jnz =>
    refine hR.bind (hR.pop .qword) fun flag => ?_
    exact hR.bind (hR.testNonzero .qword flag) fun _ => hR.pure _

/-- So does a call to the machine, be it one operation or a handler. Calls come with values from
outside, and nothing was assumed of those. -/
theorem call (p : Program) (c : StackCall V) : Within R (c.run p : Action σ (StackReply V)) := by
  cases c with
  | constant w n => exact hR.map _ (hR.constant w n)
  | push w v => exact hR.bind (hR.push w v) fun _ => hR.pure _
  | pop w => exact hR.map _ (hR.pop w)
  | getVreg w index => exact hR.map _ (hR.getVreg w index)
  | setVreg w index v => exact hR.bind (hR.setVreg w index v) fun _ => hR.pure _
  | getVsp => exact hR.map _ hR.getVsp
  | setVsp v => exact hR.bind (hR.setVsp v) fun _ => hR.pure _
  | getRegister r => exact hR.map _ (hR.getRegister r)
  | setRegister r v => exact hR.bind (hR.setRegister r v) fun _ => hR.pure _
  | binary op w lhs rhs => exact hR.map _ (hR.binary op w lhs rhs)
  | signExtend w v => exact hR.map _ (hR.signExtend w v)
  | testZero w v => exact hR.map _ (hR.testZero w v)
  | testNonzero w v => exact hR.map _ (hR.testNonzero w v)
  | zeroFlag w v => exact hR.map _ (hR.zeroFlag w v)
  | load w address => exact hR.map _ (hR.load w address)
  | store w address v => exact hR.bind (hR.store w address v) fun _ => hR.pure _
  | saveRegisters => exact hR.bind hR.saveRegisters fun _ => hR.pure _
  | restoreRegisters => exact hR.bind hR.restoreRegisters fun _ => hR.pure _
  | virtualRegisters => exact hR.bind hR.get fun _ => hR.pure _
  | perform position =>
    refine hR.bind (hR.ofIndex _) fun h => ?_
    exact hR.map _ (hR.perform h position)

end StackOps.Kept

/-! ## Compilers -/

/-- Every operation of the compiler but starting over moves its state along `R`. Starting over
replaces most of the state and has to be dealt with by itself. -/
structure FlowOps.Kept {σ V : Type} [FlowOps σ V] (R : σ → σ → Prop) : Prop
    extends StackOps.Kept R where
  enter : ∀ p position, Within R (FlowOps.enter p position : Action σ Visit)
  jump : ∀ p next, Within R (FlowOps.jump p next : Action σ Unit)
  branch : ∀ p (condition : V) taken otherwise,
    Within R (FlowOps.branch p condition taken otherwise : Action σ Unit)
  ret : Within R (FlowOps.ret : Action σ Unit)
  report : ∀ event, Within R (FlowOps.report event : Action σ Unit)

/-- The calls that start over. -/
def FlowCall.restarts {V : Type} : FlowCall V → Bool
  | start | compile => true
  | _ => false

namespace FlowOps.Kept

variable {σ V : Type} [FlowOps σ V] {R : σ → σ → Prop} (hR : Kept R)

include hR

/-- Falling through is a jump, or behind the last handler the end of the routine. -/
theorem fallThrough (p : Program) (position : Nat) :
    Within R (p.fallThrough position : Action σ Unit) := by
  unfold Program.fallThrough
  cases p.successor position with
  | handler next => exact hR.jump p _
  | exit => exact hR.bind hR.restoreRegisters fun _ => hR.ret

/-- A handler is compiled by entering it, carrying it out, and leading on to where its outcome
says. -/
theorem compileAt (p : Program) (position : Nat) :
    Within R (p.compileAt position : Action σ Unit) := by
  refine hR.bind (hR.ofIndex _) fun h => ?_
  refine hR.bind (hR.enter p position) fun visit => ?_
  cases visit with
  | skip => exact hR.report _
  | lower =>
    refine hR.bind (hR.perform h position) fun outcome => ?_
    cases outcome with
    | next => exact hR.fallThrough p position
    | branch condition target =>
      refine hR.bind (hR.ofExcept _) fun taken => ?_
      exact hR.branch p condition taken _
    | exit => exact hR.ret

/-- Pending handlers are compiled one after the other, for as long as there is fuel. -/
theorem drain (p : Program) (fuel : Nat) : Within R (p.drain fuel : Action σ Unit) := by
  induction fuel with
  | zero => exact hR.pure _
  | succ fuel ih =>
    refine hR.bind hR.get fun s => ?_
    cases pending p s with
    | none => exact hR.pure _
    | some position => exact hR.bind (hR.compileAt p position) fun _ => ih

/-- Compiling a program that is not empty moves the state along `R` from where starting leaves it.
An empty program is refused before anything is done. -/
theorem compile (p : Program) (s : σ) :
    R s (finalState ((p.compile : Action σ Unit).run s)) ∨
      R (finalState ((start p : Action σ Unit).run s))
        (finalState ((p.compile : Action σ Unit).run s)) := by
  unfold Program.compile
  by_cases hempty : p.isEmpty
  · rw [if_pos hempty]
    exact .inl (hR.refl s)
  · rw [if_neg hempty]
    refine .inr ?_
    -- Starting may halt too, and then its state is the final one.
    cases hstart : (start p : Action σ Unit).run s with
    | ok u s₁ =>
      rw [Action.run_bind_of_ok hstart]
      exact hR.bind (hR.forM (hR.compileAt p) _) (fun _ => hR.drain p _) s₁
    | error e s₁ =>
      rw [Action.run_bind_of_error hstart]
      exact hR.refl s₁

/-- A call moves the state along `R`, unless it starts over. -/
theorem call (p : Program) {c : FlowCall V} (hc : c.restarts = false) :
    Within R (c.run p : Action σ (FlowReply V)) := by
  cases c with
  | stack c => exact hR.map _ (hR.toKept.call p c)
  | start => cases hc
  | enter position => exact hR.map _ (hR.enter p position)
  | jump next => exact hR.bind (hR.jump p next) fun _ => hR.pure _
  | branch condition taken otherwise =>
    exact hR.bind (hR.branch p condition taken otherwise) fun _ => hR.pure _
  | ret => exact hR.bind hR.ret fun _ => hR.pure _
  | pending => exact hR.bind hR.get fun _ => hR.pure _
  | compile => cases hc

end FlowOps.Kept

/-! ## Sessions -/

section

variable {σ V : Type} [FlowOps σ V]

/-- The state after a call, whether it succeeded or not. -/
def FlowCall.after (p : Program) (s : σ) (c : FlowCall V) : σ :=
  finalState ((c.run p : Action σ (FlowReply V)).run s)

/-- The state after some calls, each made for a program of its own. Nothing relates the programs: a
call may go on with what a call for another program left. -/
def play (s : σ) (calls : List (Program × FlowCall V)) : σ :=
  calls.foldl (fun s c => c.2.after c.1 s) s

/-- A session may be cut in two. -/
theorem play_append (s : σ) (calls calls' : List (Program × FlowCall V)) :
    play s (calls ++ calls') = play (play s calls) calls' :=
  List.foldl_append

namespace FlowOps.Kept

variable {R : σ → σ → Prop} (hR : Kept R)

include hR

/-- A call that starts over goes on from the state it finds or from the one that starting leaves.
Which of the two it is depends on the call, and no proof needs to know. -/
theorem after (p : Program) (s : σ) (c : FlowCall V) :
    R s (c.after p s) ∨ R (finalState ((start p : Action σ Unit).run s)) (c.after p s) := by
  cases c with
  | start =>
    have hafter : (FlowCall.start : FlowCall V).after p s
        = finalState ((start p : Action σ Unit).run s) := by
      cases hstart : (start p : Action σ Unit).run s with
      | ok u s₁ => exact congrArg finalState (Action.run_bind_of_ok hstart)
      | error e s₁ => exact congrArg finalState (Action.run_bind_of_error hstart)
    rw [hafter]
    exact .inr (hR.refl _)
  | compile =>
    have hafter : (FlowCall.compile : FlowCall V).after p s
        = finalState ((p.compile : Action σ Unit).run s) := by
      cases hcompile : (p.compile : Action σ Unit).run s with
      | ok u s₁ => exact congrArg finalState (Action.run_bind_of_ok hcompile)
      | error e s₁ => exact congrArg finalState (Action.run_bind_of_error hcompile)
    rw [hafter]
    exact hR.compile p s
  | _ => exact .inl (hR.call p rfl s)

/-- A session in which nothing starts over moves the state along `R`, however long it is. -/
theorem play (s : σ) {calls : List (Program × FlowCall V)}
    (hcalls : ∀ c ∈ calls, c.2.restarts = false) : R s (CodeRecovery.play s calls) := by
  induction calls generalizing s with
  | nil => exact hR.refl s
  | cons c rest ih =>
    have hfirst : R s (c.2.after c.1 s) := hR.call c.1 (hcalls c List.mem_cons_self) s
    exact hR.trans hfirst (ih _ fun c' hc' => hcalls c' (List.mem_cons_of_mem c hc'))

/-- **What moving along `R` keeps, and starting over too, every session keeps.** It is how all
properties of arbitrary sessions are proved: one step lemma for the operations, one for the
start. -/
theorem invariant {I : σ → Prop} (hI : ∀ {s s'}, R s s' → I s → I s')
    (hstart : ∀ p {s}, I s → I (finalState ((start p : Action σ Unit).run s))) {s : σ} (hs : I s)
    (calls : List (Program × FlowCall V)) : I (CodeRecovery.play s calls) := by
  induction calls generalizing s with
  | nil => exact hs
  | cons c rest ih =>
    refine ih ?_
    -- A call that starts over is covered by both assumptions together: first the start, then the
    -- rest.
    rcases hR.after c.1 s c.2 with hkept | hkept
    · exact hI hkept hs
    · exact hI hkept (hstart c.1 hs)

end FlowOps.Kept

end

end CodeRecovery
