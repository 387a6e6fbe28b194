/-
Machine words and their little-endian bytes.

Every multi-byte field the library reads or writes, in bytecode slots, image headers, simulated
memory or the encoded routine, stores its least significant byte first. The two functions here are
the only place that order is spelled out: `decode` reads a number of any length, `encode` writes one
of a chosen length and drops what does not fit.
-/

set_option autoImplicit false

namespace CodeRecovery

/-- A 64-bit machine word. Its arithmetic wraps. -/
abbrev Word := UInt64

namespace LittleEndian

/-- The number whose bytes, least significant first, are `bytes`. -/
def decode : List UInt8 → Nat
  | [] => 0
  | byte :: rest => byte.toNat + 256 * decode rest

/-- The `count` low bytes of `n`, least significant first. -/
def encode : (count : Nat) → (n : Nat) → List UInt8
  | 0, _ => []
  | count + 1, n => UInt8.ofNat n :: encode count (n / 256)

theorem decode_lt (bytes : List UInt8) : decode bytes < Nat.pow 256 bytes.length := by
  induction bytes with
  | nil => exact Nat.one_pos
  | cons byte rest ih =>
    have hbyte := byte.toNat_lt
    have hpow : Nat.pow 256 (rest.length + 1) = 256 * Nat.pow 256 rest.length := Nat.mul_comm ..
    rw [decode, List.length_cons, hpow]
    omega

@[simp] theorem length_encode (count n : Nat) : (encode count n).length = count := by
  induction count generalizing n with
  | zero => rfl
  | succ count ih => simp [encode, ih]

/-- Writing and then reading keeps the number modulo the size of the field. -/
theorem decode_encode (count n : Nat) : decode (encode count n) = n % Nat.pow 256 count := by
  induction count generalizing n with
  | zero => simp [encode, decode, Nat.mod_one]
  | succ count ih =>
    have hbyte : (UInt8.ofNat n).toNat = n % 256 := by simp
    have hpow : Nat.pow 256 (count + 1) = 256 * Nat.pow 256 count := Nat.mul_comm ..
    rw [encode, decode, ih, hbyte, hpow, Nat.mod_mul]

end LittleEndian

end CodeRecovery
