/-
Handlers and programs.

A handler is one recovered instruction of the virtual machine: what it does, its immediate, and
where its slot lies in the bytecode. A program is the list of handlers in bytecode order; the first
one is the entry, which has no slot of its own beyond the pointer to the first real handler.
-/
import CodeRecovery.Failure

set_option autoImplicit false

namespace CodeRecovery

/-- One instruction of the virtual machine. -/
structure Handler where
  opcode : Opcode
  /-- The immediate: a register index, a constant or a branch target. -/
  data : Word
  /-- Where the slot starts in the bytecode, relative to the image base. -/
  address : UInt32
  /-- Where the native code of the next handler starts, relative to the image base. -/
  dispatch : UInt32
  /-- The size of the slot in bytes, with the pointer at its end. -/
  width : Nat
deriving DecidableEq, Repr

namespace Handler

/-- The handler that stands for entering the virtual machine. -/
def entry (address dispatch : UInt32) : Handler :=
  { opcode := .vmInit, data := 0, address, dispatch, width := 4 }

/-- The address just behind the slot. -/
def endAddress (h : Handler) : Word :=
  h.address.toUInt64 + UInt64.ofNat h.width

/-- One row of a program listing. -/
def text (h : Handler) : String :=
  let address := Text.padStart 8 '0' (Text.hexUpper h.address.toNat)
  let opcode := Text.padEnd 10 h.opcode.name
  let data := Text.address h.data.toNat
  let dispatch := Text.address h.dispatch.toNat
  s!"{address}  {opcode} data: {data}, width: {h.width}, next: {dispatch}"

end Handler

/-- The handlers of one routine in bytecode order. -/
abbrev Program := List Handler

namespace Program

/-- The first position whose handler starts at `target`. -/
def positionAt? (p : Program) (target : Word) : Option Nat :=
  p.findIdx? (fun h => h.address.toUInt64 == target)

/-- The position a branch at `position` leads to. -/
def branchTarget (p : Program) (target : Word) (position : Nat) : Except Failure Nat :=
  match p.positionAt? target with
  | some found => .ok found
  | none => .error (.unresolvedBranch target position)

/-- The address just behind the last handler, where a routine that runs off its end goes on. -/
def exitAddress (p : Program) : Word :=
  match p.getLast? with
  | some h => h.endAddress
  | none => 0

/-- How many different handlers the slots point to. -/
def dispatchTargets (p : Program) : Nat :=
  (p.map (·.dispatch)).eraseDups.length

/-- The handler at a position, as a step of an action. -/
def fetch {σ : Type} (p : Program) (position : Nat) : Action σ Handler :=
  Action.ofIndex p[position]?

/-- A numbered row for a handler. -/
def row (position : Nat) (h : Handler) : String :=
  let number := Text.padStart 5 ' ' (toString position)
  s!"{number}  {h.text}"

/-- The listing of a program, one numbered row per handler. -/
def text (p : Program) : String :=
  String.join (p.zipIdx.map fun (h, position) => row position h ++ "\n")

end Program

end CodeRecovery
