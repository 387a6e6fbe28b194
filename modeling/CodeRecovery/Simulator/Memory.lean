/-
Byte memory with 64-bit addresses. Every byte is zero until it is written, and addresses wrap, so a
value may lie across the end of the address space.
-/
import CodeRecovery.Width
import Std.Data.TreeMap

set_option autoImplicit false

namespace CodeRecovery

/-- The bytes that have been written. -/
structure Memory where
  cells : Std.TreeMap Word UInt8

namespace Memory

def empty : Memory :=
  ⟨∅⟩

/-- The byte at an address. -/
def byte (m : Memory) (address : Word) : UInt8 :=
  m.cells.getD address 0

/-- Writes one byte. -/
def setByte (m : Memory) (address : Word) (value : UInt8) : Memory :=
  ⟨m.cells.insert address value⟩

@[simp] theorem byte_empty (address : Word) : empty.byte address = 0 := by
  simp [empty, byte]

@[simp] theorem byte_setByte (m : Memory) (address a : Word) (value : UInt8) :
    (m.setByte address value).byte a = if address = a then value else m.byte a := by
  simp [byte, setByte, Std.TreeMap.getD_insert]

/-- The number that `count` bytes from `address` on spell. -/
def readBytes (m : Memory) : (count : Nat) → (address : Word) → Nat
  | 0, _ => 0
  | count + 1, address => (m.byte address).toNat + 256 * m.readBytes count (address + 1)

/-- Writes the `count` low bytes of a word from `address` on. -/
def writeBytes (m : Memory) : (count : Nat) → (address value : Word) → Memory
  | 0, _, _ => m
  | count + 1, address, value =>
    (m.setByte address value.toUInt8).writeBytes count (address + 1) (value >>> 8)

/-- Reads a value. -/
def read (m : Memory) (w : Width) (address : Word) : Word :=
  UInt64.ofNat (m.readBytes w.bytes address)

/-- Writes a value. -/
def write (m : Memory) (w : Width) (address value : Word) : Memory :=
  m.writeBytes w.bytes address value

end Memory

end CodeRecovery
