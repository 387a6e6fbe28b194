/-
What a read finds after a write.

A value of some bytes is written one byte at a time and read back the same way, at addresses that
wrap. The law everything here follows from is `byte_writeBytes`: it says of every address, by its
distance from the start of the write, which byte it holds afterwards. Reads only look at single
bytes, so a read after a write is settled by the distances of its addresses.
-/
import CodeRecovery.Simulator.Memory

set_option autoImplicit false

namespace CodeRecovery

/-- Byte `k` of a word, the least significant first. It is zero behind the word, so that `k` needs
no bound. -/
def Word.byteAt (v : Word) (k : Nat) : UInt8 :=
  UInt8.ofNat (v.toNat >>> (8 * k))

theorem Word.byteAt_zero (v : Word) : Word.byteAt v 0 = v.toUInt8 := by
  apply UInt8.toNat_inj.mp
  simp [Word.byteAt]

/-- Shifting down by a byte drops the first one. A write goes on with the shifted word, so this is
its step. -/
theorem Word.byteAt_shiftRight (v : Word) (k : Nat) :
    Word.byteAt (v >>> 8) k = Word.byteAt v (k + 1) := by
  have hshift : (v >>> 8).toNat = v.toNat >>> 8 := UInt64.toNat_shiftRight v 8
  rw [Word.byteAt, Word.byteAt, hshift, ← Nat.shiftRight_add, Nat.mul_succ, Nat.add_comm 8]

namespace Width

/-- Cutting to a width is taking a remainder. The masks of the widths are all of the form that makes
it so. -/
theorem toNat_cut (w : Width) (v : Word) : (w.cut v).toNat = v.toNat % Nat.pow 2 w.bits := by
  cases w with
  | bit => exact (UInt64.toNat_and v 1).trans (Nat.and_two_pow_sub_one_eq_mod v.toNat 1)
  | dword => exact (UInt64.toNat_and v _).trans (Nat.and_two_pow_sub_one_eq_mod v.toNat 32)
  | qword => exact (UInt64.toNat_and v _).trans (Nat.and_two_pow_sub_one_eq_mod v.toNat 64)

theorem cut_of_lt {w : Width} {v : Word} (h : v.toNat < Nat.pow 2 w.bits) : w.cut v = v := by
  apply UInt64.toNat_inj.mp
  rw [toNat_cut, Nat.mod_eq_of_lt h]

@[simp] theorem cut_cut (w : Width) (v : Word) : w.cut (w.cut v) = w.cut v := by
  apply cut_of_lt
  rw [toNat_cut]
  exact Nat.mod_lt _ (Nat.two_pow_pos _)

@[simp] theorem cut_qword (v : Word) : qword.cut v = v :=
  cut_of_lt v.toNat_lt

end Width

namespace Memory

/-- The distance from `address` to `a`, going up and around the end of the address space. It turns
the question whether an address lies in a range that may wrap into a comparison of numbers. -/
def distance (address a : Word) : Nat :=
  (a - address).toNat

theorem distance_self (a : Word) : distance a a = 0 := by
  simp [distance]

/-- Going up by less than the whole space gives back the distance. -/
theorem distance_add {a : Word} {k : Nat} (hk : k < UInt64.size) :
    distance a (a + UInt64.ofNat k) = k := by
  have hsub : a + UInt64.ofNat k - a = UInt64.ofNat k := by
    rw [UInt64.add_comm, UInt64.add_sub_cancel]
  rw [distance, hsub, UInt64.toNat_ofNat_of_lt' hk]

/-- The distance as a remainder, for arithmetic in the natural numbers. -/
theorem distance_eq (address a : Word) :
    distance address a = (UInt64.size - address.toNat + a.toNat) % UInt64.size := by
  rw [distance, UInt64.toNat_sub]

/-- Seen from the next address, everything but the address itself is one nearer. This is the step of
every induction over the bytes of a write. -/
theorem distance_succ {address a : Word} (hne : address ≠ a) :
    distance (address + 1) a + 1 = distance address a := by
  -- The next address may be past the end of the space, so this is about remainders.
  have hnat : address.toNat ≠ a.toNat := fun h => hne (UInt64.toNat_inj.mp h)
  have haddress := address.toNat_lt
  have ha := a.toNat_lt
  have hone : (1 : Word).toNat = 1 := rfl
  rw [distance_eq, distance_eq, UInt64.toNat_add, hone, UInt64.size]
  omega

/-- Seen from the next address, the address itself is the farthest of all. -/
theorem distance_succ_self (address : Word) : distance (address + 1) address = UInt64.size - 1 := by
  have haddress := address.toNat_lt
  have hone : (1 : Word).toNat = 1 := rfl
  rw [distance_eq, UInt64.toNat_add, hone, UInt64.size]
  omega

/-- **The byte at an address after a write.** It is decided by the distance from where the write
starts; the write must not be so long that it comes around to its own start. -/
theorem byte_writeBytes (m : Memory) (count : Nat) (address value a : Word)
    (hcount : count < UInt64.size) :
    (m.writeBytes count address value).byte a
      = if distance address a < count then Word.byteAt value (distance address a)
        else m.byte a := by
  induction count generalizing m address value with
  | zero => simp [writeBytes]
  | succ count ih =>
    -- The first byte is written first. The rest of the write starts one further on, from where the
    -- address itself is the farthest of all, so it is not written again.
    rw [writeBytes, ih _ _ _ (by omega), Word.byteAt_shiftRight]
    by_cases hself : address = a
    · subst hself
      rw [distance_succ_self, distance_self, if_neg (by omega), if_pos (by omega), byte_setByte,
        if_pos rfl, Word.byteAt_zero]
    · have hdist := distance_succ hself
      rw [byte_setByte, if_neg hself, hdist]
      by_cases hlt : distance address a < count + 1
      · rw [if_pos hlt, if_pos (by omega)]
      · rw [if_neg hlt, if_neg (by omega)]

/-! ## Reads

A read of `count` bytes looks at the addresses up to `count` behind its own. -/

/-- One byte further on and `k` more is `k + 1` further on. -/
theorem add_one_add (a : Word) (k : Nat) :
    a + 1 + UInt64.ofNat k = a + UInt64.ofNat (k + 1) := by
  rw [UInt64.add_assoc, UInt64.add_comm 1, UInt64.ofNat_add]
  rfl

theorem add_ofNat_zero (a : Word) : a + UInt64.ofNat 0 = a :=
  UInt64.add_zero a

/-- Reads agree when the bytes they look at do, and so a read cannot tell two memories apart that
differ elsewhere. -/
theorem readBytes_congr {m m' : Memory} {count : Nat} {address : Word}
    (h : ∀ k < count, m.byte (address + UInt64.ofNat k) = m'.byte (address + UInt64.ofNat k)) :
    m.readBytes count address = m'.readBytes count address := by
  induction count generalizing address with
  | zero => rfl
  | succ count ih =>
    have hfirst := h 0 (by omega)
    rw [add_ofNat_zero] at hfirst
    have hrest : m.readBytes count (address + 1) = m'.readBytes count (address + 1) := by
      refine ih fun k hk => ?_
      rw [add_one_add]
      exact h (k + 1) (by omega)
    rw [readBytes, readBytes, hrest, hfirst]

/-- A read over the bytes of a word gives the low part of the word. The bytes behind the first are
those of the word shifted down, which is what the induction goes by. -/
theorem readBytes_of_byteAt {m : Memory} {count : Nat} {address v : Word}
    (h : ∀ k < count, m.byte (address + UInt64.ofNat k) = Word.byteAt v k) :
    m.readBytes count address = v.toNat % Nat.pow 256 count := by
  induction count generalizing address v with
  | zero => simp [readBytes, Nat.mod_one]
  | succ count ih =>
    have hfirst := h 0 (by omega)
    rw [add_ofNat_zero] at hfirst
    -- The bytes behind the first are those of the word shifted down.
    have hrest : m.readBytes count (address + 1) = (v >>> 8).toNat % Nat.pow 256 count := by
      refine ih fun k hk => ?_
      rw [add_one_add, Word.byteAt_shiftRight]
      exact h (k + 1) (by omega)
    have hshift : (v >>> 8).toNat = v.toNat / 256 := by
      simp [Nat.shiftRight_eq_div_pow]
    have hpow : Nat.pow 256 (count + 1) = 256 * Nat.pow 256 count := Nat.mul_comm ..
    rw [readBytes, hfirst, hrest, hshift, Word.byteAt_zero, hpow, Nat.mod_mul]
    simp

/-- A read gives no more than its bytes can hold. -/
theorem readBytes_lt (m : Memory) (count : Nat) (address : Word) :
    m.readBytes count address < Nat.pow 256 count := by
  induction count generalizing address with
  | zero => simp [readBytes]
  | succ count ih =>
    have hbyte := (m.byte address).toNat_lt
    have hrest := ih (address + 1)
    have hpow : Nat.pow 256 (count + 1) = 256 * Nat.pow 256 count := Nat.mul_comm ..
    rw [readBytes, hpow]
    omega

/-- No width comes around the whole space. -/
theorem bytes_lt_size (w : Width) : w.bytes < UInt64.size := by
  cases w <;> decide

/-- A read where a write of the same width went gives the written value, cut to the width's bytes. A
single bit takes a whole byte in memory, so it is cut to eight bits here and not to one. -/
theorem toNat_read_write (m : Memory) (w : Width) (address value : Word) :
    ((m.write w address value).read w address).toNat = value.toNat % Nat.pow 256 w.bytes := by
  have hbytes := bytes_lt_size w
  have hread : (m.write w address value).readBytes w.bytes address
      = value.toNat % Nat.pow 256 w.bytes := by
    refine readBytes_of_byteAt fun k hk => ?_
    rw [write, byte_writeBytes _ _ _ _ _ hbytes, distance_add (Nat.lt_trans hk hbytes), if_pos hk]
  have hlt : value.toNat % Nat.pow 256 w.bytes < UInt64.size :=
    Nat.lt_of_le_of_lt (Nat.mod_le _ _) value.toNat_lt
  rw [read, hread, UInt64.toNat_ofNat_of_lt' hlt]

/-- **A read that keeps clear of a write** finds what it would have found before. Keeping clear is
said byte by byte, since both ranges may wrap. -/
theorem read_write_of_distance (m : Memory) (w w' : Width) (address address' value : Word)
    (h : ∀ k < w.bytes, w'.bytes ≤ distance address' (address + UInt64.ofNat k)) :
    (m.write w' address' value).read w address = m.read w address := by
  have hread : (m.write w' address' value).readBytes w.bytes address
      = m.readBytes w.bytes address := by
    refine readBytes_congr fun k hk => ?_
    have hfar := h k hk
    rw [write, byte_writeBytes _ _ _ _ _ (bytes_lt_size w'), if_neg (by omega)]
  rw [read, read, hread]

/-- A word that was written is read back whole, wherever it is. -/
theorem read_write_qword (m : Memory) (address value : Word) :
    (m.write .qword address value).read .qword address = value := by
  apply UInt64.toNat_inj.mp
  rw [toNat_read_write]
  exact Nat.mod_eq_of_lt value.toNat_lt

/-! ## Reads at a width

A read of a width that is a whole number of bytes needs no cutting, and a short read is the low part
of a longer one at the same address. -/

/-- A read is made of a read of its first bytes and one of the others, behind them. -/
theorem readBytes_add (m : Memory) (count count' : Nat) (address : Word) :
    m.readBytes (count + count') address
      = m.readBytes count address
        + Nat.pow 256 count * m.readBytes count' (address + UInt64.ofNat count) := by
  induction count generalizing address with
  | zero => simp [readBytes]
  | succ count ih =>
    have hpow : Nat.pow 256 (count + 1) = 256 * Nat.pow 256 count := Nat.mul_comm ..
    rw [Nat.add_right_comm, readBytes, readBytes, ih, add_one_add, hpow, Nat.mul_add, Nat.mul_assoc,
      Nat.add_assoc]

/-- A read of a width fits into a word, so nothing is lost in making it one. -/
theorem toNat_read (m : Memory) (w : Width) (address : Word) :
    (m.read w address).toNat = m.readBytes w.bytes address := by
  have hlt := m.readBytes_lt w.bytes address
  have hle : Nat.pow 256 w.bytes ≤ UInt64.size := by cases w <;> decide
  rw [read, UInt64.toNat_ofNat_of_lt' (Nat.lt_of_lt_of_le hlt hle)]

/-- What is read at a width of whole bytes is of that width already. A single bit is read from a
byte and need not be. -/
theorem cut_read (m : Memory) {w : Width} (hw : w ≠ .bit) (address : Word) :
    w.cut (m.read w address) = m.read w address := by
  have hlt := m.readBytes_lt w.bytes address
  rw [← toNat_read] at hlt
  cases w with
  | bit => exact absurd rfl hw
  | dword => exact Width.cut_of_lt hlt
  | qword => exact Width.cut_of_lt hlt

/-- A narrow read is the low half of the whole word at the same address. -/
theorem read_dword (m : Memory) (address : Word) :
    m.read .dword address = Width.dword.cut (m.read .qword address) := by
  apply UInt64.toNat_inj.mp
  have hsplit : m.readBytes 8 address = _ := m.readBytes_add 4 4 address
  have hlt := m.readBytes_lt 4 address
  rw [Width.toNat_cut, toNat_read, toNat_read]
  show m.readBytes 4 address = m.readBytes 8 address % Nat.pow 256 4
  rw [hsplit, Nat.add_mul_mod_self_left, Nat.mod_eq_of_lt hlt]

end Memory

end CodeRecovery
