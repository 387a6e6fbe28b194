/-
Actions, run to their result.

An action is a function from a state to a result, so a statement about what it does is an equation
between results. This file has the equations for the ways of halting that are special to the
library, and the one inversion the later files lean on: a sequence of two actions that succeeds is
two actions that succeed.
-/
import CodeRecovery.Failure

set_option autoImplicit false

namespace CodeRecovery.Action

variable {σ α β : Type}

/-- Failing is the one way to halt that carries a cause. The state is the one it was called in:
nothing is rolled back. -/
@[simp] theorem run_fail (cause : Failure) (s : σ) :
    (fail cause : Action σ α).run s = .error (.failed cause) s := rfl

@[simp] theorem run_ofExcept_ok (a : α) (s : σ) :
    (ofExcept (.ok a) : Action σ α).run s = .ok a s := rfl

@[simp] theorem run_ofExcept_error (cause : Failure) (s : σ) :
    (ofExcept (.error cause) : Action σ α).run s = .error (.failed cause) s := rfl

@[simp] theorem run_ofIndex_some (a : α) (s : σ) :
    (ofIndex (some a) : Action σ α).run s = .ok a s := rfl

/-- **A sequence that succeeds is made of two actions that succeed.** Every statement about a
finished run starts here: the run is taken apart from its end, one action at a time. -/
theorem exists_of_run_bind_ok {x : Action σ α} {f : α → Action σ β} {s s' : σ} {b : β}
    (h : (x >>= f).run s = .ok b s') :
    ∃ a s₁, x.run s = .ok a s₁ ∧ (f a).run s₁ = .ok b s' := by
  rw [EStateM.run_bind] at h
  cases hx : x.run s with
  | ok a s₁ =>
    rw [hx] at h
    exact ⟨a, s₁, rfl, h⟩
  | error e s₁ =>
    rw [hx] at h
    exact absurd h (by simp)

/-- The first action succeeds, so the sequence goes on with the second, in the state that the first
has left. -/
theorem run_bind_of_ok {x : Action σ α} {f : α → Action σ β} {s s₁ : σ} {a : α}
    (h : x.run s = .ok a s₁) : (x >>= f).run s = (f a).run s₁ := by
  rw [EStateM.run_bind, h]

/-- The first action halts, and the sequence with it: the second is never looked at, which is why a
backend that stops at a handler has no trace of later ones. -/
theorem run_bind_of_error {x : Action σ α} {f : α → Action σ β} {s s₁ : σ} {e : Halt}
    (h : x.run s = .error e s₁) : (x >>= f).run s = .error e s₁ := by
  rw [EStateM.run_bind, h]

/-- **What each action of a row keeps, the whole row keeps**, if it succeeds. The induction is on
the row, so that only the actions in it have to keep the invariant. -/
theorem invariant_of_forM {I : σ → Prop} {f : α → Action σ PUnit} {l : List α}
    (hkeeps : ∀ a ∈ l, ∀ s s', I s → (f a).run s = .ok ⟨⟩ s' → I s') {s s' : σ} (hI : I s)
    (hrun : (l.forM f).run s = .ok ⟨⟩ s') : I s' := by
  induction l generalizing s with
  | nil =>
    cases hrun
    exact hI
  | cons a rest ih =>
    obtain ⟨u, s₁, hfirst, hrest⟩ := exists_of_run_bind_ok hrun
    refine ih (fun a' ha' => hkeeps a' (List.mem_cons_of_mem a ha')) ?_ hrest
    exact hkeeps a List.mem_cons_self s s₁ hI hfirst

/-- Whatever state it starts in, the action gives a result with the property if it succeeds. Nothing
is said of the state it leaves, so such facts pass through a sequence unharmed. -/
def Gives (P : α → Prop) (x : Action σ α) : Prop :=
  ∀ s a s', x.run s = .ok a s' → P a

/-- Giving a value back gives that value. -/
theorem Gives.pure {P : α → Prop} {a : α} (h : P a) : Gives P (Pure.pure a : Action σ α) := by
  intro s a' s' hrun
  cases hrun
  exact h

/-- The result of a sequence is that of its second part. The first part matters only for the value
it hands on, and here the second part has the property for each such value. -/
theorem Gives.bind {P : β → Prop} {x : Action σ α} {f : α → Action σ β} (h : ∀ a, Gives P (f a)) :
    Gives P (x >>= f) := by
  intro s b s' hrun
  obtain ⟨a, s₁, -, hrest⟩ := exists_of_run_bind_ok hrun
  exact h a s₁ b s' hrest

/-- What a result answers, if it is a success. It forgets the state, which makes the answers of two
machines comparable. -/
def answer? : EStateM.Result Halt σ α → Option α
  | .ok a _ => some a
  | .error .. => none

/-- An answer comes with a state. This is how a run on a fixed input is brought into the form that
the general theorems ask for. -/
theorem exists_of_answer {result : EStateM.Result Halt σ α} {a : α} (h : answer? result = some a) :
    ∃ s, result = .ok a s := by
  cases result with
  | ok a' s =>
    cases h
    exact ⟨s, rfl⟩
  | error _ _ => cases h

/-- Whether a result is a success. -/
def succeeds : EStateM.Result Halt σ α → Bool
  | .ok .. => true
  | .error .. => false

/-- A run that succeeds leaves a state; there is no more to know of an action without a value. -/
theorem exists_of_succeeds {result : EStateM.Result Halt σ Unit} (h : succeeds result = true) :
    ∃ s, result = .ok () s := by
  cases result with
  | ok _ s => exact ⟨s, rfl⟩
  | error _ _ => cases h

end CodeRecovery.Action
