/-
Decoded native instructions, as far as recognising handler stubs needs them, and runs of them.

How instructions are read from code is left open: an `InstructionSet` is any way to do it. What the
library finds out about stubs depends on the mnemonics, the registers and the immediates that an
instruction set gives, so these are open too; those that the library itself names come first.
-/
import CodeRecovery.LittleEndian
import CodeRecovery.Native.Register
import CodeRecovery.Text.Layout

set_option autoImplicit false

namespace CodeRecovery.Native

inductive Mnemonic where
  | add | or | adc | sbb | and | sub | xor | cmp
  | mov | lea | inc | dec | push | pop | xchg
  | jmp | call | je | jne | ret
  | nop | int3 | ud2
  /-- Any other one, by its name. -/
  | other (name : String)
deriving DecidableEq, Repr

namespace Mnemonic

/-- The mnemonics that the library itself names. -/
def all : List Mnemonic :=
  [add, or, adc, sbb, and, sub, xor, cmp, mov, lea, inc, dec, push, pop, xchg, jmp, call, je, jne,
    ret, nop, int3, ud2]

def name : Mnemonic → String
  | add => "add" | or => "or" | adc => "adc" | sbb => "sbb"
  | and => "and" | sub => "sub" | xor => "xor" | cmp => "cmp"
  | mov => "mov" | lea => "lea" | inc => "inc" | dec => "dec"
  | push => "push" | pop => "pop" | xchg => "xchg"
  | jmp => "jmp" | call => "call" | je => "je" | jne => "jne" | ret => "ret"
  | nop => "nop" | int3 => "int3" | ud2 => "ud2"
  | other name => name

/-- The mnemonic with a name. -/
def ofName? (name : String) : Option Mnemonic :=
  all.find? (·.name == name)

/-- The eight operations that share one opcode, by the field that tells them apart. -/
def ofGroup (n : Nat) : Mnemonic :=
  ([add, or, adc, sbb, and, sub, xor, cmp][n]?).getD add

end Mnemonic

/-- How an immediate is stored and to what size it is widened. -/
inductive ImmediateKind where
  | imm8 | imm16 | imm32 | imm64
  | imm8to16 | imm8to32 | imm8to64 | imm32to64
deriving DecidableEq, Repr

namespace ImmediateKind

def name : ImmediateKind → String
  | imm8 => "Immediate8"
  | imm16 => "Immediate16"
  | imm32 => "Immediate32"
  | imm64 => "Immediate64"
  | imm8to16 => "Immediate8to16"
  | imm8to32 => "Immediate8to32"
  | imm8to64 => "Immediate8to64"
  | imm32to64 => "Immediate32to64"

/-- Bytes of code the immediate takes. -/
def bytes : ImmediateKind → Nat
  | imm8 | imm8to16 | imm8to32 | imm8to64 => 1
  | imm16 => 2
  | imm32 | imm32to64 => 4
  | imm64 => 8

/-- The word that stored bits stand for: kinds that widen are read as signed, the others are not. -/
def widen (kind : ImmediateKind) (stored : Nat) : Word :=
  match kind with
  | imm8 | imm16 | imm32 | imm64 => UInt64.ofNat stored
  | imm8to16 | imm8to32 | imm8to64 => (UInt8.ofNat stored).toInt8.toInt64.toUInt64
  | imm32to64 => (UInt32.ofNat stored).toInt32.toInt64.toUInt64

end ImmediateKind

inductive Operand where
  | register (r : Register)
  /-- A place in memory; where it lies does not matter here. -/
  | memory
  | immediate (kind : ImmediateKind) (value : Word)
  /-- The target of a relative branch. -/
  | branch (target : Word)
  /-- Anything else, which does not matter here either. -/
  | other
deriving DecidableEq, Repr

def Operand.text : Operand → String
  | register r => s!"reg {r.name}"
  | memory => "mem"
  | immediate kind value => s!"{kind.name} 0x{Text.hexLower value.toNat}"
  | branch target => s!"NearBranch64 0x{Text.hexLower target.toNat}"
  | other => "other"

structure Instruction where
  /-- Where the instruction lies. -/
  ip : Word
  /-- How many bytes it takes. -/
  length : Nat
  mnemonic : Mnemonic
  operands : List Operand
deriving DecidableEq, Repr

/-! ## Runs of instructions -/

/-- A way to read instructions from code. -/
structure InstructionSet where
  /-- The instruction at the front of `code`, which lies at `ip`, if there is one. -/
  decode? : (ip : Word) → (code : List UInt8) → Option Instruction

/-- Decodes at most `limit` instructions, up to and with the first `stop`, or up to code that is no
instruction or to the end of the code. -/
def InstructionSet.decodeRun (isa : InstructionSet) (stop : Mnemonic) :
    (limit : Nat) → Word → List UInt8 → List Instruction
  | 0, _, _ => []
  | limit + 1, ip, code =>
    if code = [] then []
    else
      match isa.decode? ip code with
      | none => []
      | some i =>
        if i.mnemonic = stop then [i]
        else i :: isa.decodeRun stop limit (ip + UInt64.ofNat i.length) (code.drop i.length)

end CodeRecovery.Native
