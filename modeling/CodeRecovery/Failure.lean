/-
Why recovering a routine can fail, and the actions that may fail.

A failure is fatal to the recovery that met it. Its cause is kept as data and its wording is in one
function, `Failure.message`. An action over a state may also meet an index outside of its range;
that is `Halt.outOfRange`, apart from the failures because no wording belongs to it. The state an
action has reached is kept when it halts, so a caller still sees what was done before.
-/
import CodeRecovery.Opcode
import CodeRecovery.Text.Layout

set_option autoImplicit false

namespace CodeRecovery

/-- The causes of a failed recovery. -/
inductive Failure where
  /-- The input is not what a protected routine starts with. -/
  | precondition (reason : String)
  /-- A branch leads to an address where no handler starts. -/
  | unresolvedBranch (target : Word) (position : Nat)
  /-- A handler's meaning is not known. -/
  | unknownOpcode (address : UInt32) (position : Nat)
  /-- A handler is to be compiled before anything leads to it. -/
  | missingBlock (opcode : Opcode) (position : Nat)
  /-- A handler names a virtual register that does not exist. -/
  | registerOutOfRange (index : Word) (position : Nat)
  /-- The compiled code breaks a structural rule. -/
  | malformed (reason : String)
  /-- The settings or an opcode map cannot be used. -/
  | invalidConfig (reason : String)
  /-- A file cannot be read or written. -/
  | io (reason : String)
deriving DecidableEq, Repr

namespace Failure

/-- A coarse sorting of failures for callers that only branch on it. -/
inductive Kind where
  | precondition
  | unresolvedBranch
  | unknownOpcode
  | internalInvariant
  | config
  | io
deriving DecidableEq, Repr

def Kind.name : Kind → String
  | precondition => "Precondition"
  | unresolvedBranch => "UnresolvedBranch"
  | unknownOpcode => "UnknownOpcode"
  | internalInvariant => "InternalInvariant"
  | config => "Config"
  | io => "Io"

def kind : Failure → Kind
  | precondition _ => .precondition
  | unresolvedBranch .. => .unresolvedBranch
  | unknownOpcode .. => .unknownOpcode
  | missingBlock .. | registerOutOfRange .. | malformed _ => .internalInvariant
  | invalidConfig _ => .config
  | io _ => .io

/-- What the user reads. -/
def message : Failure → String
  | precondition reason => s!"vm entry precondition failed: {reason}"
  | unresolvedBranch target position =>
    s!"couldn't resolve jnz target {Text.address target.toNat} (handler {position})"
  | unknownOpcode address position =>
    s!"encountered an unknown opcode at {Text.address address.toNat} (handler {position})"
  | missingBlock opcode position => s!"block is not created for {opcode.name}:{position}"
  | registerOutOfRange index position =>
    s!"virtual register {index.toNat} is out of range (handler {position})"
  | malformed reason => s!"malformed output: {reason}"
  | invalidConfig reason => s!"invalid configuration: {reason}"
  | io reason => reason

/-- There is no handler to compile. -/
def emptyProgram : Failure :=
  precondition "handler table is empty"

end Failure

/-- How an action can end early. -/
inductive Halt where
  | failed (cause : Failure)
  /-- A position, a block or a virtual register lies outside of its range. -/
  | outOfRange
deriving DecidableEq, Repr

/-- An action over the state `σ`. The state is kept when it halts. -/
abbrev Action (σ α : Type) := EStateM Halt σ α

namespace Action

/-- Ends the action with a failure. -/
def fail {σ α : Type} (cause : Failure) : Action σ α :=
  throw (.failed cause)

/-- Continues with the result of a computation that may fail and touches no state. -/
def ofExcept {σ α : Type} : Except Failure α → Action σ α
  | .ok a => pure a
  | .error cause => fail cause

/-- Continues with an element that an index was to find. -/
def ofIndex {σ α : Type} : Option α → Action σ α
  | some a => pure a
  | none => throw .outOfRange

end Action

end CodeRecovery
