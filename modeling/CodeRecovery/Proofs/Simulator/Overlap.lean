/-
Reads and writes that overlap.

A read looks at one byte after the other, and `Memory.byte_writeBytes` says of every byte what it is
after a write. So a read after a write is known whatever the widths of the two and however far apart
they are: it is the number of the bytes it finds, some of them from the written value and the others
from before. The distance of an address from the write is taken around the end of the address space,
which makes an access there no different from any other.
-/
import Mathlib.Algebra.Ring.Nat
import CodeRecovery.Proofs.Memory
import CodeRecovery.Simulator.Basic

set_option autoImplicit false

namespace CodeRecovery

namespace Memory

/-- A read is the number of the bytes at its addresses, the first of which is the lowest. -/
theorem readBytes_eq_decode (m : Memory) (count : Nat) (address : Word) :
    m.readBytes count address
      = LittleEndian.decode ((List.range count).map fun j => m.byte (address + .ofNat j)) := by
  induction count generalizing address with
  | zero => rfl
  | succ count ih =>
    rw [readBytes, ih, List.range_succ_eq_map, List.map_cons, List.map_map, LittleEndian.decode,
      add_ofNat_zero]
    simp only [add_one_add]
    rfl

/-- A word that was written splits into its halves, the lower one first. -/
theorem read_halves (m : Memory) (address value : Word) :
    ((m.write .qword address value).read .dword address).toNat = value.toNat % 2 ^ 32 ∧
      ((m.write .qword address value).read .dword (address + 4)).toNat = value.toNat / 2 ^ 32 := by
  obtain ⟨m', hm'⟩ : ∃ m', m' = m.write .qword address value := ⟨_, rfl⟩
  have hwhole : value.toNat = m'.readBytes (4 + 4) address := by
    have hread := toNat_read m' .qword address
    rwa [hm', read_write_qword, ← hm'] at hread
  have hsplit : value.toNat = m'.readBytes 4 address + 2 ^ 32 * m'.readBytes 4 (address + 4) :=
    hwhole.trans (m'.readBytes_add 4 4 address)
  have hlow : m'.readBytes 4 address < 2 ^ 32 := m'.readBytes_lt 4 address
  rw [← hm', toNat_read, toNat_read, Width.bytes]
  omega

end Memory

namespace Simulator

/-- Nothing of a push is left after a pop of the same width but the bytes in memory. A single bit
takes no bytes, so it is left out. -/
theorem pop_push (s : Simulator) {w : Width} (hw : w ≠ .bit) (value : Word) :
    (((s.push w value).pop w).1).toNat = value.toNat % 2 ^ w.bits ∧
      ((s.push w value).pop w).2
        = { s with memory := s.memory.write w (s.vsp - .ofNat w.bytes) value } := by
  constructor
  · have hread := s.memory.toNat_read_write w (s.vsp - .ofNat w.bytes) value
    cases w with
    | bit => exact absurd rfl hw
    | dword => exact hread
    | qword => exact hread
  · rw [pop, push]
    dsimp only
    rw [UInt64.sub_add_cancel]

end Simulator

/-- **What a read finds after a write.** Byte `j` of the value read is taken from the value written
if the address `j` behind the read lies, around the end of the address space, in the bytes of the
write; otherwise it is the byte that was there before. Therefore a pop undoes a push of the same
width wherever the stack is, and two short reads split a written word. -/
theorem Memory.read_after_write :
    (∀ (m : Memory) (w w' : Width) (a a' value : Word),
      ((m.write w' a' value).read w a).toNat
        = LittleEndian.decode ((List.range w.bytes).map fun j =>
            if (a + .ofNat j - a').toNat < w'.bytes then Word.byteAt value (a + .ofNat j - a').toNat
            else m.byte (a + .ofNat j))) ∧
    (∀ (s : Simulator) (w : Width) (value : Word), w ≠ .bit →
      (((s.push w value).pop w).1).toNat = value.toNat % 2 ^ w.bits ∧
        ((s.push w value).pop w).2
          = { s with memory := s.memory.write w (s.vsp - .ofNat w.bytes) value }) ∧
    ∀ (m : Memory) (a value : Word),
      ((m.write .qword a value).read .dword a).toNat = value.toNat % 2 ^ 32 ∧
        ((m.write .qword a value).read .dword (a + 4)).toNat = value.toNat / 2 ^ 32 := by
  refine ⟨?bytes, ?stack, ?halves⟩
  case bytes =>
    intro m w w' a a' value
    rw [toNat_read, readBytes_eq_decode]
    congr 1
    refine List.map_congr_left fun j _ => ?_
    rw [write, byte_writeBytes _ _ _ _ _ (bytes_lt_size w')]
    rfl
  case stack =>
    intro s w value hw
    exact s.pop_push hw value
  case halves => exact read_halves

/-- A machine whose stack pointer is two bytes behind the beginning of the address space. -/
def nearWrap : Simulator :=
  { Simulator.new 2048 32 with vsp := 2 }

/-- Four bytes from the second last address on, read over eight that start at the last one. -/
theorem Memory.read_after_write_wrapped :
    ((Memory.empty.write .qword 0xFFFFFFFFFFFFFFFF 0x8877665544332211).read
        .dword 0xFFFFFFFFFFFFFFFE).toNat = 0x33221100 ∧
      Width.dword ≠ .bit ∧ (((nearWrap.push .dword 0x80000007).pop .dword).1).toNat = 0x80000007 ∧
      ((nearWrap.push .dword 0x80000007).pop .dword).2.vsp = 2 := by
  obtain ⟨hbytes, hstack, -⟩ := Memory.read_after_write
  obtain ⟨hvalue, hstate⟩ := hstack nearWrap .dword 0x80000007 (by decide)
  refine ⟨?_, by decide, hvalue, ?_⟩
  · rw [hbytes]
    decide +kernel
  · rw [hstate]
    rfl

end CodeRecovery
