/-
The registers that native instructions name, and their names.

A register is known by its code, the number that stands for it in encoded routines. The codes of the
processor's registers go family by family, each family in the order of the registers' own numbers;
which codes are in use matters for names and for nothing else.
-/
import CodeRecovery.Register

set_option autoImplicit false

namespace CodeRecovery.Native

/-- How much of a general purpose register an instruction uses. -/
inductive Size where
  | byte
  | word
  | dword
  | qword
deriving DecidableEq, Repr

/-- A native register. -/
structure Register where
  /-- The number that stands for the register. -/
  code : UInt32
deriving DecidableEq, Repr

namespace Register

/-- No register at all. -/
def none : Register := ⟨0⟩

/-- The code of the first general purpose register of a size. -/
def firstCode : Size → UInt32
  | .byte => 1
  | .word => 21
  | .dword => 37
  | .qword => 53

/-- A general purpose register at a size. The second bytes of the first four registers have their
codes among the byte registers, behind the first four. -/
def gpr (size : Size) (register : Gpr) : Register :=
  let gap : UInt32 := if size = .byte ∧ 4 ≤ register.number then 4 else 0
  ⟨firstCode size + UInt32.ofNat register.number + gap⟩

/-- The second byte of one of the first four general purpose registers. -/
def high (number : Fin 4) : Register :=
  ⟨firstCode .byte + 4 + UInt32.ofNat number.val⟩

/-- A whole general purpose register. -/
def whole (register : Gpr) : Register :=
  gpr .qword register

/-- The general purpose register that this is the whole of. -/
def gpr? (r : Register) : Option Gpr :=
  if firstCode .qword ≤ r.code ∧ r.code < firstCode .qword + 16 then
    some (.ofNumber (r.code - firstCode .qword).toNat)
  else Option.none

/-- A whole register is found again. -/
@[simp] theorem gpr?_whole (register : Gpr) : (whole register).gpr? = some register := by
  cases register <;> rfl

/-! ## Names -/

/-- The names of a family whose registers are numbered. -/
def numbered (start count : Nat) (front back : String) : List String :=
  (List.range' start count).map fun n => front ++ toString n ++ back

/-- The names of all registers, by their codes. -/
def names : List String :=
  ["none"] ++
    ["al", "cl", "dl", "bl", "ah", "ch", "dh", "bh", "spl", "bpl", "sil", "dil"] ++
    numbered 8 8 "r" "l" ++
    ["ax", "cx", "dx", "bx", "sp", "bp", "si", "di"] ++ numbered 8 8 "r" "w" ++
    ["eax", "ecx", "edx", "ebx", "esp", "ebp", "esi", "edi"] ++ numbered 8 8 "r" "d" ++
    ["rax", "rcx", "rdx", "rbx", "rsp", "rbp", "rsi", "rdi"] ++ numbered 8 8 "r" "" ++
    ["eip", "rip"] ++ ["es", "cs", "ss", "ds", "fs", "gs"] ++
    numbered 0 32 "xmm" "" ++ numbered 0 32 "ymm" "" ++ numbered 0 32 "zmm" "" ++
    numbered 0 8 "k" "" ++ numbered 0 4 "bnd" "" ++ numbered 0 16 "cr" "" ++
    numbered 0 16 "dr" "" ++ numbered 0 8 "st" "" ++ numbered 0 8 "mm" "" ++
    numbered 0 8 "tr" "" ++ numbered 0 8 "tmm" ""

/-- The name of a register; one that has none is shown by its code. -/
def name (r : Register) : String :=
  (names[r.code.toNat]?).getD s!"register {r.code.toNat}"

/-- The register with a name. -/
def ofName? (name : String) : Option Register :=
  (names.idxOf? name).map fun code => ⟨UInt32.ofNat code⟩

/-- Whether the register is a whole general purpose register. -/
def isWhole (r : Register) : Bool :=
  r.gpr?.isSome

end Register

end CodeRecovery.Native
