/-
Opcode maps: which instruction of the virtual machine the native code at an address implements.

The map belongs to one build of the virtual machine. There is a built-in one, and others can be read
from a TOML document with a table `handlers` of addresses and instruction names.
-/
import CodeRecovery.Address
import CodeRecovery.Toml.Reader
import Std.Data.TreeMap

set_option autoImplicit false

namespace CodeRecovery

/-- The instruction behind each known handler address. -/
structure HandlerMap where
  opcodes : Std.TreeMap Word Opcode

namespace HandlerMap

def empty : HandlerMap :=
  ⟨∅⟩

/-- Says what the handler at an address implements; an earlier word on it no longer counts. -/
def insert (m : HandlerMap) (address : Word) (opcode : Opcode) : HandlerMap :=
  ⟨m.opcodes.insert address opcode⟩

/-- The map with these entries, of which a later one wins over an earlier. -/
def ofList (entries : List (Word × Opcode)) : HandlerMap :=
  entries.foldl (fun m (address, opcode) => m.insert address opcode) empty

def size (m : HandlerMap) : Nat :=
  m.opcodes.size

/-- The entries by increasing address. -/
def toList (m : HandlerMap) : List (Word × Opcode) :=
  m.opcodes.toList

/-- The instruction at an address, `unknown` where the map has none. -/
def lookup (m : HandlerMap) (address : Word) : Opcode :=
  m.opcodes.getD address .unknown

/-- The lowest address that implements an instruction. -/
def firstAddress? (m : HandlerMap) (opcode : Opcode) : Option Word :=
  (m.toList.find? (·.2 == opcode)).map (·.1)

/-- The handlers of the build this library knows without being told. -/
def builtin : HandlerMap :=
  ofList
    [(0x140016101, .popVr64), (0x14001606A, .pushVr64), (0x14001620A, .pushVsp),
      (0x140016194, .push64), (0x14001631F, .sub64), (0x14001626C, .popVsp),
      (0x1400162B1, .add64), (0x140016090, .pushVr32), (0x140016707, .write32),
      (0x1400161B1, .push32), (0x14001669F, .load32), (0x140016689, .load64),
      (0x140016481, .or32), (0x140016413, .and32), (0x1400162C9, .add32),
      (0x140016337, .sub32), (0x1400163A5, .xor32), (0x140016126, .popVr32),
      (0x14001676B, .jnz)]

/-! ## Maps as documents -/

/-- The text is no document with a table of handlers. -/
def unreadable : Failure :=
  .invalidConfig "failed to parse opcode map"

/-- No instruction has this name. -/
def unknownName (name : String) : Failure :=
  .invalidConfig s!"unknown opcode name '{name}'"

/-- The address and instruction that an entry of a document names. -/
def readEntry (entry : String × String) : Except Failure (Word × Opcode) := do
  let address ← Address.parse entry.1
  match Opcode.ofName? entry.2 with
  | some opcode => return (address, opcode)
  | none => throw (unknownName entry.2)

/-- The map of a document's entries, each a written address and an instruction's name. -/
def ofEntries (entries : List (String × String)) : Except Failure HandlerMap := do
  let parsed ← entries.mapM readEntry
  return ofList parsed

/-- The entries of the table `handlers`, all of which must be strings. -/
def tomlEntries? (root : Toml.Entries) : Option (List (String × String)) := do
  let handlers ← match root.lookup "handlers" with
    | some (.table _ entries) => some entries
    | some (.inline entries) => some entries
    | _ => none
  handlers.mapM fun (key, value) =>
    match value with
    | .string name => some (key, name)
    | _ => none

/-- Reads a map from a TOML document. -/
def ofToml (text : String) : Except Failure HandlerMap :=
  match (Toml.parse? text).bind tomlEntries? with
  | some entries => ofEntries entries
  | none => .error unreadable

end HandlerMap

end CodeRecovery
