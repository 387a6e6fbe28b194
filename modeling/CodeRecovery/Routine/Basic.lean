/-
Routines: blocks of register-transfer code, each under the bytecode address it comes from.

Two blocks that are linked know of each other, and no link is kept twice.
-/
import CodeRecovery.Routine.Instruction
import Std.Data.TreeMap

set_option autoImplicit false

namespace CodeRecovery

namespace Routine

/-- A bytecode address relative to the image base. -/
abbrev BytecodeAddress := Word

structure Block where
  address : BytecodeAddress
  instructions : Array Instruction := #[]
  /-- The blocks that lead here, in the order they were linked. -/
  prev : List BytecodeAddress := []
  /-- The blocks this one leads to, in the order they were linked. -/
  next : List BytecodeAddress := []
  /-- How far the stack pointer has moved since the start of the block. -/
  stackOffset : Int64 := 0
  /-- The next temporary to be handed out. -/
  nextTemporary : UInt32 := 0
deriving DecidableEq, Repr

namespace Block

/-- A temporary that the block does not use yet. -/
def freshTemporary (b : Block) (bits : UInt32) : Operand × Block :=
  (.register (.temporary b.nextTemporary) bits, { b with nextTemporary := b.nextTemporary + 1 })

/-- Adds an instruction at the end. -/
def emit (b : Block) (op : Operation) (operands : List Operand) : Block :=
  { b with
    instructions := b.instructions.push { op, operands, stackOffset := b.stackOffset }
    stackOffset := b.stackOffset + Instruction.stackChange op operands }

/-- Whether control leaves the block at its end. -/
def isEnded (b : Block) : Bool :=
  b.instructions.back?.any (·.op.endsBlock)

/-- Adds a block that leads here, unless it is known. -/
def addPrev (b : Block) (address : BytecodeAddress) : Block :=
  if address ∈ b.prev then b else { b with prev := b.prev ++ [address] }

/-- Adds a block that this one leads to, unless it is known. -/
def addNext (b : Block) (address : BytecodeAddress) : Block :=
  if address ∈ b.next then b else { b with next := b.next ++ [address] }

end Block

end Routine

structure Routine where
  entry : Routine.BytecodeAddress
  blocks : Std.TreeMap Routine.BytecodeAddress Routine.Block

namespace Routine

/-- A routine with an empty block at its entry. -/
def new (entry : BytecodeAddress) : Routine :=
  { entry, blocks := (∅ : Std.TreeMap BytecodeAddress Block).insert entry { address := entry } }

/-- Whether there is a block at an address. -/
def hasBlock (r : Routine) (address : BytecodeAddress) : Bool :=
  r.blocks.contains address

/-- Makes an empty block at an address, unless there is one. -/
def create (r : Routine) (address : BytecodeAddress) : Routine :=
  { r with blocks := r.blocks.insertIfNew address { address } }

/-- Changes the block at an address, if there is one. -/
def modifyBlock (r : Routine) (address : BytecodeAddress) (change : Block → Block) : Routine :=
  { r with blocks := r.blocks.modify address change }

/-- Links two addresses. The block at the second is made if it is missing. -/
def addEdge (r : Routine) (source target : BytecodeAddress) : Routine :=
  ((r.create target).modifyBlock target (·.addPrev source)).modifyBlock source (·.addNext target)

def block? (r : Routine) (address : BytecodeAddress) : Option Block :=
  r.blocks[address]?

/-- The blocks by increasing address. -/
def blockList (r : Routine) : List Block :=
  r.blocks.values

def size (r : Routine) : Nat :=
  r.blocks.size

def totalInstructions (r : Routine) : Nat :=
  (r.blockList.map (·.instructions.size)).foldr (· + ·) 0

/-! ## Text -/

/-- The addresses of linked blocks. -/
def addressesText (addresses : List BytecodeAddress) : String :=
  ", ".intercalate (addresses.map fun address => Text.address address.toNat)

def Block.text (b : Block) : String :=
  let address := Text.address b.address.toNat
  let prev := if b.prev.isEmpty then "" else s!" <- [{addressesText b.prev}]"
  let next := if b.next.isEmpty then "" else s!" -> [{addressesText b.next}]"
  let lines := b.instructions.toList.map fun i => s!"  {i.text}\n"
  s!"vip {address}{prev}{next}\n" ++ String.join lines

def text (r : Routine) : String :=
  String.join (r.blockList.map Block.text)

end Routine

end CodeRecovery
