/-
Bytes by address: anything an image can be read through.
-/
import CodeRecovery.LittleEndian

set_option autoImplicit false

namespace CodeRecovery

/-- A source of bytes. A read may give fewer bytes than asked for, and it may break off, in which
case it gives nothing and whatever asked for the bytes breaks off too. -/
structure AddressSpace where
  read : (address : Word) → (length : Nat) → Option (List UInt8)

/-- Separate runs of bytes, each at an address of its own. -/
structure Regions where
  runs : List (Word × List UInt8) := []

namespace Regions

/-- Puts bytes at an address, in place of an earlier run there. -/
def map (r : Regions) (base : Word) (bytes : List UInt8) : Regions :=
  ⟨(base, bytes) :: r.runs.filter (·.1 ≠ base)⟩

/-- Whether an address lies in a run. -/
def covers (address : Word) (run : Word × List UInt8) : Bool :=
  run.1 ≤ address && address.toNat < run.1.toNat + run.2.length

/-- Reads from the run around an address, at most to the end of that run. Where the run ends and
where the read would end, counted from the start of the run, are numbers of 64 bits; the read breaks
off if one of them is too large for that. -/
def read (r : Regions) (address : Word) (length : Nat) : Option (List UInt8) :=
  match r.runs.find? (covers address) with
  | some (base, bytes) =>
    let start := address.toNat - base.toNat
    if base.toNat + bytes.length < UInt64.size ∧ start + length < UInt64.size then
      some ((bytes.drop start).take length)
    else none
  | none => some []

def space (r : Regions) : AddressSpace :=
  ⟨r.read⟩

end Regions

end CodeRecovery
