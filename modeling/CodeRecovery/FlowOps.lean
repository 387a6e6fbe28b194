/-
Compiling a program.

A compiler is a virtual machine that emits code and also records how control flows between handlers.
`FlowOps` adds that to `StackOps`. `Program.compile` visits the handlers in order; a compiler may
skip one that nothing leads to yet, and asks for it again as pending once a later branch reaches it.
-/
import CodeRecovery.Journal
import CodeRecovery.StackOps

set_option autoImplicit false

namespace CodeRecovery

/-- Where control goes from a handler. -/
inductive Destination where
  | handler (position : Nat)
  /-- Behind the last handler, where the native context is restored. -/
  | exit
deriving DecidableEq, Repr

/-- Whether a handler is to be compiled now. -/
inductive Visit where
  | lower
  | skip
deriving DecidableEq, Repr

/-- The operations of a compiler with state `σ` whose operands are `V`. -/
class FlowOps (σ : Type) (V : outParam Type) extends StackOps σ V where
  /-- Prepares for a program. -/
  start : Program → Action σ Unit
  /-- Turns to the handler at a position. -/
  enter : Program → (position : Nat) → Action σ Visit
  /-- Ends the current code by going on elsewhere. -/
  jump : Program → Destination → Action σ Unit
  /-- Ends the current code by going on at `taken` if the condition holds. -/
  branch : Program → (condition : V) → (taken : Nat) → (otherwise : Destination) → Action σ Unit
  /-- Ends the current code by leaving the routine; the native context is already restored. -/
  ret : Action σ Unit
  /-- A handler that was skipped and has become reachable since. -/
  pending : Program → σ → Option Nat := fun _ _ => none
  report : Journal.Event → Action σ Unit

namespace Program

variable {σ V : Type} [FlowOps σ V]

open StackOps FlowOps

/-- What follows the handler at a position. -/
def successor (p : Program) (position : Nat) : Destination :=
  if position + 1 < p.length then .handler (position + 1) else .exit

/-- Goes on behind the handler at a position. Behind the last one the routine is left. -/
def fallThrough (p : Program) (position : Nat) : Action σ Unit :=
  match p.successor position with
  | .handler next => jump p (.handler next)
  | .exit => do
    restoreRegisters
    ret

/-- The note on a handler that is skipped. -/
def skipEvent (opcode : Opcode) (position : Nat) : Journal.Event :=
  .debug s!"Skipping {opcode.name}_{position}"

/-- Compiles the handler at a position. -/
def compileAt (p : Program) (position : Nat) : Action σ Unit := do
  let h ← p.fetch position
  match ← enter p position with
  | .skip => report (skipEvent h.opcode position)
  | .lower =>
    match ← h.perform position with
    | .next => p.fallThrough position
    | .branch condition target => do
      let taken ← Action.ofExcept (p.branchTarget target position)
      branch p condition taken (p.successor position)
    | .exit => ret

/-- Compiles pending handlers until there are none, at most `fuel` of them. -/
def drain (p : Program) : (fuel : Nat) → Action σ Unit
  | 0 => return
  | fuel + 1 => do
    match pending p (← get) with
    | none => return
    | some position => do
      p.compileAt position
      p.drain fuel

/-- Compiles a program. A pending handler is compiled at most once, so there are no more rounds of
them than handlers. -/
def compile (p : Program) : Action σ Unit := do
  if p.isEmpty then return
  start p
  (List.range p.length).forM p.compileAt
  p.drain p.length

end Program

end CodeRecovery
