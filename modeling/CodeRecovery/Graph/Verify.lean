/-
The structural rules of a function: labels differ, every block ends, branches lead to blocks, every
value is assigned once, and a value that a block assigns is not used earlier in that block.
-/
import CodeRecovery.Graph.Function
import Std.Data.TreeMap

set_option autoImplicit false

namespace CodeRecovery.Graph

/-- A broken rule. -/
inductive Defect where
  | duplicateLabel (label : String)
  | unterminated (label : String)
  | missingTarget (label : String) (target : BlockIndex)
  | redefined (value : ValueName)
  | undefined (value : ValueName) (label : String)
  | usedEarly (value : ValueName) (label : String)
deriving DecidableEq, Repr

def Defect.message : Defect → String
  | duplicateLabel label => s!"duplicate label {label}"
  | unterminated label => s!"{label} has no terminator"
  | missingTarget label target => s!"{label} branches to missing block {target}"
  | redefined value => s!"%{value} is defined twice"
  | undefined value label => s!"%{value} is used in {label} but never defined"
  | usedEarly value label => s!"%{value} is used in {label} before its definition"

/-- Where each value is assigned: the block and the place in it. -/
abbrev Definitions := Std.TreeMap ValueName (BlockIndex × Nat)

/-- What has been seen of a function. -/
structure Census where
  labels : List String := []
  definitions : Definitions := ∅

namespace Census

/-- Takes in the assignment, if any, of an instruction. -/
def takeInstruction (block : BlockIndex) (definitions : Definitions) (entry : Instruction × Nat) :
    Except Defect Definitions :=
  match entry.1.assigned? with
  | none => .ok definitions
  | some dst =>
    if definitions.contains dst then .error (.redefined dst)
    else .ok (definitions.insert dst (block, entry.2))

/-- Takes in a block; `count` is the number of blocks there are. -/
def takeBlock (count : Nat) (c : Census) (entry : Block × BlockIndex) : Except Defect Census := do
  let b := entry.1
  if c.labels.contains b.name then throw (.duplicateLabel b.name)
  let some terminator := b.terminator | throw (.unterminated b.name)
  match terminator.successors.find? (count ≤ ·) with
  | some target => throw (.missingTarget b.name target)
  | none => do
    let definitions ← b.instructions.toList.zipIdx.foldlM (takeInstruction entry.2) c.definitions
    return { labels := b.name :: c.labels, definitions }

/-- Checks one use of an operand, at a place in a block. -/
def checkUse (definitions : Definitions) (block : BlockIndex) (label : String)
    (use : Operand × Nat) : Except Defect Unit :=
  match use.1.value? with
  | none => .ok ()
  | some value =>
    match definitions[value]? with
    | none => .error (.undefined value label)
    | some (home, place) =>
      if home = block ∧ use.2 ≤ place then .error (.usedEarly value label) else .ok ()

end Census

/-- The operands that a block uses, with their places; the terminator's place is behind all
instructions. -/
def Block.uses (b : Block) : List (Operand × Nat) :=
  (b.instructions.toList.zipIdx.flatMap fun (i, place) => i.operands.map (·, place)) ++
    (b.terminator.toList.flatMap Terminator.operands).map (·, b.instructions.size)

/-- Checks the rules; the first broken one is the result. -/
def Function.verify (f : Function) : Except Defect Unit := do
  let blocks := f.blocks.toList.zipIdx
  let census ← blocks.foldlM (Census.takeBlock f.blocks.size) {}
  blocks.forM fun (b, id) => b.uses.forM (Census.checkUse census.definitions id b.name)

end CodeRecovery.Graph
