/-
The binary form of a routine.

A header with a mark, a version, the entry and the number of blocks is followed by the blocks by
increasing address; each has its instructions, then the addresses that lead to it, then those it
leads to. All lists are preceded by their length and all numbers are little-endian. Operand counts
and operand sizes have one byte each.
-/
import CodeRecovery.Routine.Basic

set_option autoImplicit false

namespace CodeRecovery.Routine

open LittleEndian (encode)

/-- What an encoded routine starts with: the letters `VRTN`. -/
def mark : List UInt8 :=
  [0x56, 0x52, 0x54, 0x4E]

def version : Nat := 1

/-- The kind of a register and its number within that kind. -/
def Place.code : Place → Nat × Nat
  | native register => (1, register.code.toNat)
  | flags => (2, 0)
  | stackPointer => (3, 0)
  | virtual index => (4, index.toNat)
  | temporary index => (5, index.toNat)

def Operand.encoded : Operand → List UInt8
  | immediate value bits => encode 1 0 ++ encode 8 value.toNat ++ encode 1 bits.toNat
  | register place bits =>
    encode 1 place.code.1 ++ encode 4 place.code.2 ++ encode 1 bits.toNat

def Instruction.encoded (i : Instruction) : List UInt8 :=
  encode 1 i.op.code ++ encode 8 i.stackOffset.toUInt64.toNat ++ encode 1 i.operands.length ++
    i.operands.flatMap Operand.encoded

/-- A list of addresses behind its length. -/
def encodedAddresses (addresses : List BytecodeAddress) : List UInt8 :=
  encode 4 addresses.length ++ addresses.flatMap fun address => encode 8 address.toNat

def Block.encoded (b : Block) : List UInt8 :=
  encode 8 b.address.toNat ++ encode 4 b.instructions.size ++
    b.instructions.toList.flatMap Instruction.encoded ++ encodedAddresses b.prev ++
      encodedAddresses b.next

/-- The binary form of a routine. -/
def encoded (r : Routine) : List UInt8 :=
  mark ++ encode 2 version ++ encode 8 r.entry.toNat ++ encode 4 r.size ++
    r.blockList.flatMap Block.encoded

end CodeRecovery.Routine
