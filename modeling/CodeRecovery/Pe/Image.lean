/-
Images in the portable executable format, 64-bit only.

An image is a file, its base, and a translation of relative addresses to places in the file,
whichever way that was found; reading needs no more. For a file, the translation is read from its
headers, of which only the image base, the size of the image and the section table count. A relative
address inside a section lies in the file where the section's data does; any other one is taken as
an offset into the file itself, which is where the headers are.
-/
import CodeRecovery.AddressSpace
import CodeRecovery.Failure
import CodeRecovery.Journal
import CodeRecovery.Text.Rounded

set_option autoImplicit false

namespace CodeRecovery.Pe

/-! ## Fields of the headers -/

/-- The number in `count` bytes of a file; bytes behind its end count as zero. -/
def field (file : ByteArray) (offset count : Nat) : Nat :=
  LittleEndian.decode (file.extract offset (offset + count)).toList

/-- Where the headers start. -/
def headerOffset (file : ByteArray) : Nat :=
  field file 0x3C 4

/-- Whether the file looks like a 64-bit image. -/
def is64Bit (file : ByteArray) : Bool :=
  let start := headerOffset file
  64 ≤ file.size && field file 0 2 == 0x5A4D && start + 120 ≤ file.size &&
    field file (start + 24) 2 == 0x20B

/-- What is wrong with the headers. -/
inductive HeaderFault where
  | misaligned
  | truncated (size needed : Nat)
  | badSignature (found : Nat)
deriving DecidableEq, Repr

def HeaderFault.message : HeaderFault → String
  | misaligned => "BadAlignment"
  | truncated size needed => s!"PKBufferError(OutOfBounds({size}, {needed}))"
  | badSignature found => s!"InvalidPESignature({found})"

/-- The image base that the headers state. -/
def statedBase (file : ByteArray) : Except HeaderFault Word :=
  let start := headerOffset file
  if start % 4 ≠ 0 then .error .misaligned
  else if file.size < start + 136 then .error (.truncated file.size (start + 136))
  else if field file start 4 ≠ 0x4550 then .error (.badSignature (field file start 4))
  else .ok (UInt64.ofNat (field file (start + 48) 8))

/-- A part of the image and where the file holds it. -/
structure Section where
  address : Nat
  size : Nat
  rawOffset : Nat
  rawSize : Nat
deriving DecidableEq, Repr

/-- The section described at an offset. -/
def sectionAt (file : ByteArray) (offset : Nat) : Section where
  size := field file (offset + 8) 4
  address := field file (offset + 12) 4
  rawSize := field file (offset + 16) 4
  rawOffset := field file (offset + 20) 4

/-- The section table, if the file holds it all. -/
def sections? (file : ByteArray) : Option (List Section) :=
  let start := headerOffset file
  let count := field file (start + 6) 2
  let table := start + 24 + field file (start + 20) 2
  if file.size ≤ table ∨ file.size < table + 40 * count then none
  else some ((List.range count).map fun k => sectionAt file (table + 40 * k))

/-- The file offset of a relative address, as the headers have it. -/
def fileOffset? (file : ByteArray) (rva : UInt32) : Option Nat := do
  let rva := rva.toNat
  if field file (headerOffset file + 80) 4 ≤ rva then none
  let sections ← sections? file
  match sections.find? fun s => s.address ≤ rva && rva < s.address + s.size with
  | some s =>
    let offset := rva - s.address + s.rawOffset
    if offset < file.size ∧ offset < s.rawOffset + s.rawSize then some offset else none
  | none => if rva < file.size then some rva else none

/-! ## Images -/

structure Image where
  file : ByteArray
  base : Word
  /-- Where the file holds the byte at a relative address, if it does. -/
  translate? : (rva : UInt32) → Option Nat

namespace Image

/-- Reads from an address on, at most to the end of the file. Only 32 bits of a relative address
count. -/
def read (i : Image) (address : Word) (length : Nat) : List UInt8 :=
  if address < i.base then []
  else
    match i.translate? (address - i.base).toUInt32 with
    | none => []
    | some offset => (i.file.extract offset (offset + length)).toList

/-- The image as a source of bytes; no read of it breaks off. -/
def space (i : Image) : AddressSpace :=
  ⟨fun address length => some (i.read address length)⟩

/-- The note on an image that was loaded. -/
def loadedEvent (i : Image) : Journal.Event :=
  let megabytes := Text.twoPlaces i.file.size 1000000
  .info s!"Loaded 64-bit binary ({megabytes} MB, image base {Text.address i.base.toNat})"

/-- Takes a file as an image. -/
def ofFile (file : ByteArray) : Except Failure Image :=
  if is64Bit file then
    match statedBase file with
    | .ok base => .ok { file, base, translate? := fileOffset? file }
    | .error fault => .error (.precondition s!"couldn't read image base: {fault.message}")
  else .error (.precondition "only 64-bit binaries are supported")

end Image

end CodeRecovery.Pe
