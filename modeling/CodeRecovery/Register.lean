/-
The native registers a protected routine shares with the virtual machine.

On entry the machine pushes all sixteen general purpose registers and the flags onto its own stack;
on exit it pops them again. `pushOrder` fixes the one order both sides use, and `popOrder` is its
reverse by definition.
-/

set_option autoImplicit false

namespace CodeRecovery

/-- The sixteen general purpose registers, in the order of their encoding. -/
inductive Gpr where
  | rax | rcx | rdx | rbx | rsp | rbp | rsi | rdi
  | r8 | r9 | r10 | r11 | r12 | r13 | r14 | r15
deriving DecidableEq, Repr

namespace Gpr

/-- All registers by increasing number. -/
def all : List Gpr :=
  [rax, rcx, rdx, rbx, rsp, rbp, rsi, rdi, r8, r9, r10, r11, r12, r13, r14, r15]

/-- The number that stands for the register in machine code. -/
def number : Gpr → Nat
  | rax => 0 | rcx => 1 | rdx => 2 | rbx => 3 | rsp => 4 | rbp => 5 | rsi => 6 | rdi => 7
  | r8 => 8 | r9 => 9 | r10 => 10 | r11 => 11 | r12 => 12 | r13 => 13 | r14 => 14 | r15 => 15

/-- The register with a number; only the low four bits of the number count. -/
def ofNumber (n : Nat) : Gpr :=
  (all[n % 16]?).getD rax

theorem ofNumber_number (r : Gpr) : ofNumber r.number = r := by
  cases r <;> rfl

/-- The name of the whole 64-bit register. -/
def name : Gpr → String
  | rax => "rax" | rcx => "rcx" | rdx => "rdx" | rbx => "rbx"
  | rsp => "rsp" | rbp => "rbp" | rsi => "rsi" | rdi => "rdi"
  | r8 => "r8" | r9 => "r9" | r10 => "r10" | r11 => "r11"
  | r12 => "r12" | r13 => "r13" | r14 => "r14" | r15 => "r15"

/-- The register with a name. -/
def ofName? (name : String) : Option Gpr :=
  all.find? (·.name == name)

end Gpr

/-- A piece of native state that survives the virtual machine. -/
inductive SavedRegister where
  | gpr (register : Gpr)
  | flags
deriving DecidableEq, Repr

namespace SavedRegister

def name : SavedRegister → String
  | gpr register => register.name
  | flags => "rflags"

/-- The order in which the native context is pushed on entry. -/
def pushOrder : List SavedRegister :=
  [gpr .r15, gpr .r14, gpr .r13, gpr .r12, gpr .r11, gpr .r10, gpr .r9, gpr .r8,
    gpr .rsp, gpr .rbp, gpr .rdi, gpr .rsi, gpr .rdx, gpr .rcx, gpr .rbx, gpr .rax, flags]

/-- The order in which the native context is popped on exit. -/
def popOrder : List SavedRegister :=
  pushOrder.reverse

/-- The saved register with a name. -/
def ofName? (name : String) : Option SavedRegister :=
  pushOrder.find? (·.name == name)

end SavedRegister

/-- The register that carries a routine's result. -/
def returnRegister : Gpr := .rax

end CodeRecovery
