/-
Extracting a program from bytecode.

The bytecode is a chain of slots. Each ends in a pointer to the native code of the next handler, and
that code tells how long the next slot is and what it does. The walk follows the chain until the
bytes run out or a slot is impossible: shorter than its own pointer, or longer than what is left.
-/
import CodeRecovery.AddressSpace
import CodeRecovery.Handler
import CodeRecovery.Journal
import CodeRecovery.Settings
import CodeRecovery.Stub

set_option autoImplicit false

namespace CodeRecovery

/-- The size of the pointer at the end of every slot. -/
def dispatchSize : Nat := 4

/-- The slot at which a walk gave up. -/
structure Stop where
  offset : Nat
  opcode : Opcode
  width : Nat
deriving DecidableEq, Repr

/-- What a walk through bytecode found. -/
structure Extraction where
  program : Program
  /-- The impossible slot behind the last handler, if that is why the walk ended. -/
  stop : Option Stop
deriving DecidableEq, Repr

namespace Extraction

/-- What was found, with a handler in front of it. -/
def behind (first : Handler) (e : Extraction) : Extraction :=
  ⟨first :: e.program, e.stop⟩

/-- The native code at a dispatch pointer, decoded up to its first jump. There is none where the
pointer leads to no address or the read breaks off. -/
def stubAt (isa : Native.InstructionSet) (space : AddressSpace) (s : Settings) (dispatch : UInt32) :
    Option Stub := do
  let address ← s.address? dispatch
  let code ← space.read address s.handlerWindow
  return isa.decodeRun .jmp s.scanLimit address code

/-- What the native code at a dispatch pointer tells about the slot it handles. -/
def classifyAt (isa : Native.InstructionSet) (space : AddressSpace) (s : Settings)
    (dispatch : UInt32) : Option (Opcode × Nat) :=
  (stubAt isa space s dispatch).map (Stub.classify s.handlers s.pointer)

/-- The handler in a slot at `offset` in the bytecode. At most eight bytes of its immediate
count. -/
def handlerOf (stream : UInt32) (offset : Nat) (opcode : Opcode) (slot : List UInt8) : Handler :=
  let immediate := slot.take (slot.length - dispatchSize)
  { opcode
    data := UInt64.ofNat (LittleEndian.decode (immediate.take 8))
    address := stream + UInt32.ofNat offset
    dispatch := UInt32.ofNat (LittleEndian.decode (slot.drop (slot.length - dispatchSize)))
    width := slot.length }

/-- Walks the slots in `rest`, which lies at `offset` in the bytecode; `dispatch` points to the
handler of the first. The walk breaks off where it does not get at native code. -/
def walk (isa : Native.InstructionSet) (space : AddressSpace) (s : Settings) (stream : UInt32)
    (offset : Nat) (dispatch : UInt32) (rest : List UInt8) : Option Extraction :=
  if rest = [] then some ⟨[], none⟩
  else
    match classifyAt isa space s dispatch with
    | none => none
    | some (opcode, width) =>
      if width < dispatchSize ∨ rest.length < width then some ⟨[], some ⟨offset, opcode, width⟩⟩
      else
        let handler := handlerOf stream offset opcode (rest.take width)
        let others := walk isa space s stream (offset + width) handler.dispatch (rest.drop width)
        others.map (behind handler)
termination_by rest.length
decreasing_by
  simp +zetaDelta only [dispatchSize, List.length_drop] at *
  omega

/-- The program in `bytes`, which are the bytecode at `stream`. Fewer bytes than a pointer hold
nothing. -/
def ofBytes (isa : Native.InstructionSet) (space : AddressSpace) (s : Settings) (stream : UInt32)
    (bytes : List UInt8) : Option Extraction :=
  if bytes.length < dispatchSize then some ⟨[], none⟩
  else
    let dispatch := UInt32.ofNat (LittleEndian.decode (bytes.take dispatchSize))
    let others := walk isa space s stream dispatchSize dispatch (bytes.drop dispatchSize)
    others.map (behind (.entry stream dispatch))

/-- The program whose bytecode the image holds at `stream`. -/
def ofImage (isa : Native.InstructionSet) (space : AddressSpace) (s : Settings) (stream : UInt32) :
    Option Extraction := do
  let address ← s.address? stream
  let bytes ← space.read address s.streamLimit
  ofBytes isa space s stream bytes

/-! ## What is reported -/

/-- The note on the slot at which the walk gave up. -/
def stopEvent (stop : Stop) : Journal.Event :=
  .debug s!"Stopped at stream offset {Text.address stop.offset} ({stop.opcode.name} width {stop.width})"

/-- The summary of a program. -/
def summary (p : Program) : Journal.Event :=
  .info s!"Extracted {p.length} handlers ({p.dispatchTargets} unique dispatch targets)"

/-- The report on a walk: each slot behind the entry, why it ended, and a summary. -/
def journal (e : Extraction) : Journal :=
  if e.program.isEmpty then #[]
  else
    let slots :=
      (e.program.zipIdx.drop 1).map fun (h, position) =>
        Journal.Event.debug (Program.row position h)
    (slots ++ e.stop.toList.map stopEvent ++ [summary e.program]).toArray

end Extraction

end CodeRecovery
