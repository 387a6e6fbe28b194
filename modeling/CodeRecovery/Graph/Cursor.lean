/-
A function with a place to write: instructions are added at the end of the current block.
-/
import CodeRecovery.Failure
import CodeRecovery.Graph.Function

set_option autoImplicit false

namespace CodeRecovery.Graph

/-- A function and the block that is being written. -/
structure Cursor where
  function : Function
  current : BlockIndex
deriving DecidableEq, Repr

namespace Cursor

/-- Starts a function with its first block. -/
def new (f : Function) (entry : String) : Cursor :=
  let (current, function) := f.appendBlock entry
  { function, current }

/-- Changes a cursor and gives a result. -/
abbrev Write := StateM Cursor

def newBlock (name : String) : Write BlockIndex :=
  modifyGet fun c =>
    let (id, function) := c.function.appendBlock name
    (id, { c with function })

/-- Goes on at another block. -/
def moveTo (block : BlockIndex) : Write Unit :=
  modify fun c => { c with current := block }

/-- Adds an instruction to the current block. -/
def insert (instruction : Instruction) : Write Unit :=
  modify fun c =>
    { c with
      function := c.function.modifyBlock c.current fun b =>
        { b with instructions := b.instructions.push instruction } }

/-- Adds an instruction that assigns a fresh value, and gives that value. -/
def assign (type : Ty) (instruction : ValueName → Instruction) : Write Operand := do
  let dst ← modifyGet fun c =>
    let (dst, function) := c.function.fresh
    (dst, { c with function })
  insert (instruction dst)
  return .value dst type

/-- Ends the current block. -/
def terminate (t : Terminator) : Write Unit :=
  modify fun c =>
    { c with function := c.function.modifyBlock c.current fun b => { b with terminator := some t } }

def alloca (bytes : Word) : Write Operand :=
  assign .ptr fun dst => .alloca dst bytes

def movePtr (base : Operand) (offset : Int64) : Write Operand :=
  assign .ptr fun dst => .movePtr dst base offset

def load (type : Ty) (ptr : Operand) : Write Operand :=
  assign type fun dst => .load dst type ptr

def store (value ptr : Operand) : Write Unit :=
  insert (.store value ptr)

def binary (op : BinaryOp) (lhs rhs : Operand) : Write Operand :=
  assign lhs.type fun dst => .binary dst op lhs rhs

def icmp (comparison : Comparison) (lhs rhs : Operand) : Write Operand :=
  assign .i1 fun dst => .icmp dst comparison lhs rhs

def cast (op : Cast) (value : Operand) (type : Ty) : Write Operand :=
  assign type fun dst => .cast dst op value type

def loadRegister (register : SavedRegister) : Write Operand :=
  assign .i64 fun dst => .loadRegister dst register

def storeRegister (register : SavedRegister) (value : Operand) : Write Unit :=
  insert (.storeRegister register value)

def br (target : BlockIndex) : Write Unit :=
  terminate (.br target)

def brIf (condition : Operand) (yes no : BlockIndex) : Write Unit :=
  terminate (.brIf condition yes no)

def ret (value : Option Operand) : Write Unit :=
  terminate (.ret value)

/-! ## Calls as data -/

/-- One use of a cursor. -/
inductive Call where
  | alloca (bytes : Word)
  | movePtr (base : Operand) (offset : Int64)
  | load (type : Ty) (ptr : Operand)
  | store (value ptr : Operand)
  | binary (op : BinaryOp) (lhs rhs : Operand)
  | icmp (comparison : Comparison) (lhs rhs : Operand)
  | cast (op : Cast) (value : Operand) (type : Ty)
  | loadRegister (register : SavedRegister)
  | storeRegister (register : SavedRegister) (value : Operand)
  | br (target : BlockIndex)
  | brIf (condition : Operand) (yes no : BlockIndex)
  | ret (value : Option Operand)
  | newBlock (name : String)
  | moveTo (block : BlockIndex)
  /-- Asks for the current block. -/
  | current
deriving DecidableEq, Repr

/-- What a call gives back. -/
inductive Reply where
  | done
  | operand (o : Operand)
  | block (id : BlockIndex)
deriving DecidableEq, Repr

namespace Call

/-- Whether the call writes to the current block. -/
def writes : Call → Bool
  | newBlock _ | moveTo _ | current => false
  | _ => true

def write : Call → Write Reply
  | alloca bytes => .operand <$> Cursor.alloca bytes
  | movePtr base offset => .operand <$> Cursor.movePtr base offset
  | load type ptr => .operand <$> Cursor.load type ptr
  | store value ptr => do Cursor.store value ptr; return .done
  | binary op lhs rhs => .operand <$> Cursor.binary op lhs rhs
  | icmp comparison lhs rhs => .operand <$> Cursor.icmp comparison lhs rhs
  | cast op value type => .operand <$> Cursor.cast op value type
  | loadRegister register => .operand <$> Cursor.loadRegister register
  | storeRegister register value => do Cursor.storeRegister register value; return .done
  | br target => do Cursor.br target; return .done
  | brIf condition yes no => do Cursor.brIf condition yes no; return .done
  | ret value => do Cursor.ret value; return .done
  | newBlock name => .block <$> Cursor.newBlock name
  | moveTo block => do Cursor.moveTo block; return .done
  | current => modifyGet fun c => (.block c.current, c)

/-- Makes a call. Writing is out of range when the current block does not exist. -/
def perform (call : Call) : Action Cursor Reply := do
  let c ← get
  if call.writes ∧ c.function.blocks.size ≤ c.current then throw .outOfRange
  else modifyGet call.write.run

end Call

end Cursor

end CodeRecovery.Graph
