/-
Blocks, functions and modules of the graph, and their text.
-/
import CodeRecovery.Graph.Instruction

set_option autoImplicit false

namespace CodeRecovery.Graph

structure Block where
  name : String
  instructions : Array Instruction := #[]
  terminator : Option Terminator := none
deriving DecidableEq, Repr

namespace Block

def successors (b : Block) : List BlockIndex :=
  (b.terminator.map Terminator.successors).getD []

end Block

structure Function where
  name : String
  returnType : Ty
  blocks : Array Block := #[]
  /-- The next value to be assigned. -/
  nextValue : ValueName := 0
deriving DecidableEq, Repr

namespace Function

/-- Adds an empty block and gives its name in the function. -/
def appendBlock (f : Function) (name : String) : BlockIndex × Function :=
  (f.blocks.size, { f with blocks := f.blocks.push { name } })

/-- A value that nothing assigns yet. -/
def fresh (f : Function) : ValueName × Function :=
  (f.nextValue, { f with nextValue := f.nextValue + 1 })

/-- Changes a block, if there is one with this name. -/
def modifyBlock (f : Function) (id : BlockIndex) (change : Block → Block) : Function :=
  { f with blocks := f.blocks.modify id change }

/-- The first block with a label. -/
def find? (f : Function) (label : String) : Option BlockIndex :=
  f.blocks.findIdx? (·.name == label)

/-- The blocks that a block leads to. -/
def successors? (f : Function) (id : BlockIndex) : Option (List BlockIndex) :=
  f.blocks[id]?.map Block.successors

/-- The blocks that lead to a block, in their own order. -/
def predecessors (f : Function) (id : BlockIndex) : List BlockIndex :=
  (f.blocks.toList.zipIdx.filter fun (b, _) => b.successors.contains id).map (·.2)

/-! ## Text -/

/-- The label of a block. -/
def label? (f : Function) (id : BlockIndex) : Option String :=
  f.blocks[id]?.map (·.name)

/-- The last line of a block. There is none if a branch leads to no block. -/
def terminatorText? (f : Function) : Option Terminator → Option String
  | some (.br target) => do
    let label ← f.label? target
    return s!"br label %{label}"
  | some (.brIf condition yes no) => do
    let yes ← f.label? yes
    let no ← f.label? no
    return s!"br i1 {condition.text}, label %{yes}, label %{no}"
  | some (.ret (some value)) => some s!"ret {value.typedText}"
  | some (.ret none) => some "ret void"
  | none => some "unreachable"

def blockText? (f : Function) (b : Block) : Option String := do
  let last ← f.terminatorText? b.terminator
  let lines := b.instructions.toList.map Instruction.text ++ [last]
  return s!"{b.name}:\n" ++ String.join (lines.map fun line => s!"  {line}\n")

/-- The text of a function. There is none if a branch leads to no block. -/
def text? (f : Function) : Option String := do
  let blocks ← f.blocks.toList.mapM f.blockText?
  return s!"define {f.returnType.name} @{f.name}() \x7b\n" ++ "\n".intercalate blocks ++ "\x7d\n"

end Function

structure Module where
  name : String
  functions : Array Function := #[]
deriving DecidableEq, Repr

namespace Module

/-- The first function with a name. -/
def function? (m : Module) (name : String) : Option Function :=
  m.functions.find? (·.name == name)

/-- The native registers that the module uses, in the order of their first use. -/
def registers (m : Module) : List SavedRegister :=
  let blocks := m.functions.toList.flatMap (·.blocks.toList)
  let instructions := blocks.flatMap (·.instructions.toList)
  (instructions.filterMap Instruction.register?).eraseDups

/-- The text of a module. There is none if a branch leads to no block. -/
def text? (m : Module) : Option String := do
  let globals := m.registers.map fun r => s!"@{r.name} = external global i64\n"
  let functions ← m.functions.toList.mapM Function.text?
  let header := s!"; ModuleID = '{m.name}'\nsource_filename = \"{m.name}\"\n"
  let globalText := if globals.isEmpty then "" else "\n" ++ String.join globals
  return header ++ globalText ++ String.join (functions.map ("\n" ++ ·))

end Module

end CodeRecovery.Graph
