/-
Decoding native code: the part of the 64-bit instruction set that handler stubs are written in.

A decoder reads from the front of the code and either takes some bytes or fails; it never looks past
the bytes it takes. An instruction that runs past the code at hand fails, and so does one of more
than fifteen bytes, which no processor accepts.
-/
import CodeRecovery.Native.Instruction

set_option autoImplicit false

namespace CodeRecovery.Native

/-- Reads from the front of the code. -/
abbrev Decoder := StateT (List UInt8) Option

namespace Decoder

/-- The next byte. -/
def byte : Decoder Nat := fun code =>
  match code with
  | [] => none
  | b :: rest => some (b.toNat, rest)

/-- A little-endian number of `count` bytes. -/
def number : (count : Nat) → Decoder Nat
  | 0 => pure 0
  | count + 1 => do
    let low ← byte
    let high ← number count
    return low + 256 * high

end Decoder

open Decoder

/-! ## What stands before the opcode -/

/-- The bytes in front of an opcode that change its operands. -/
structure Modifiers where
  /-- The operand size byte was there. -/
  narrow : Bool := false
  /-- The register extension byte right in front of the opcode. -/
  rex : Option Nat := none

namespace Modifiers

/-- One of the four bits of the register extension byte. -/
def bit (m : Modifiers) (i : Nat) : Bool :=
  m.rex.any (·.testBit i)

/-- The operands are 64 bits wide. -/
def wide (m : Modifiers) : Bool := m.bit 3

/-- Adds eight to the register field of the byte behind the opcode. -/
def registerBase (m : Modifiers) : Nat := if m.bit 2 then 8 else 0

/-- Adds eight to the register that the operand or the opcode names. -/
def operandBase (m : Modifiers) : Nat := if m.bit 0 then 8 else 0

/-- The operand size of most instructions. -/
def size (m : Modifiers) : Size :=
  if m.wide then .qword else if m.narrow then .word else .dword

/-- The operand size of instructions that use the stack. -/
def stackSize (m : Modifiers) : Size :=
  if m.narrow && !m.wide then .word else .qword

/-- The register with a number at a size. Without an extension byte the byte registers four to seven
are the second bytes of the first four registers. -/
def register (m : Modifiers) (size : Size) (number : Nat) : Register :=
  if size = .byte ∧ m.rex.isNone ∧ 4 ≤ number ∧ number < 8 then .high (Fin.ofNat 4 number)
  else .gpr size (.ofNumber number)

end Modifiers

/-- Reads the modifiers and the opcode behind them. An extension byte counts only right in front of
the opcode, so each further modifier cancels it. -/
def modifiers : Modifiers → List UInt8 → Option ((Modifiers × Nat) × List UInt8)
  | _, [] => none
  | m, b :: rest =>
    if b = 0x66 then modifiers { narrow := true, rex := none } rest
    else if 0x40 ≤ b ∧ b ≤ 0x4F then modifiers { m with rex := some b.toNat } rest
    else some ((m, b.toNat), rest)

/-! ## Operands -/

/-- The byte behind an opcode that names a register and an operand. -/
structure ModRm where
  mode : Nat
  /-- The register, or a part of the opcode. -/
  field : Nat
  operand : Nat

/-- Reads that byte, and the bytes of a memory operand behind it. -/
def modRm : Decoder ModRm := do
  let b ← byte
  let m : ModRm := { mode := b / 64, field := b / 8 % 8, operand := b % 8 }
  if m.mode ≠ 3 then
    let base ← if m.operand = 4 then (· % 8) <$> byte else pure m.operand
    let displacement :=
      if m.mode = 1 then 1
      else if m.mode = 2 then 4
      else if base = 5 then 4
      else 0
    let _ ← number displacement
  return m

namespace ModRm

/-- The register or place in memory that the byte names. -/
def target (b : ModRm) (m : Modifiers) (size : Size) : Operand :=
  if b.mode = 3 then .register (m.register size (b.operand + m.operandBase)) else .memory

/-- The register that the byte's field names. -/
def source (b : ModRm) (m : Modifiers) (size : Size) : Operand :=
  .register (m.register size (b.field + m.registerBase))

end ModRm

/-- Reads an immediate. -/
def immediate (kind : ImmediateKind) : Decoder Operand := do
  return .immediate kind (kind.widen (← number kind.bytes))

/-- The immediate of an instruction at an operand size, at most four bytes long. -/
def fullImmediate : Size → ImmediateKind
  | .byte => .imm8
  | .word => .imm16
  | .dword => .imm32
  | .qword => .imm32to64

/-- The one-byte immediate of an instruction at an operand size. -/
def shortImmediate : Size → ImmediateKind
  | .byte => .imm8
  | .word => .imm8to16
  | .dword => .imm8to32
  | .qword => .imm8to64

/-! ## Instructions -/

/-- An instruction without its place. A relative branch holds its distance from its own end. -/
structure Shape where
  mnemonic : Mnemonic
  operands : List Operand := []

/-- An operand and a register, in this order. -/
def toTarget (mnemonic : Mnemonic) (m : Modifiers) (size : Size) : Decoder Shape := do
  let b ← modRm
  return ⟨mnemonic, [b.target m size, b.source m size]⟩

/-- A register and an operand, in this order. -/
def fromTarget (mnemonic : Mnemonic) (m : Modifiers) (size : Size) : Decoder Shape := do
  let b ← modRm
  return ⟨mnemonic, [b.source m size, b.target m size]⟩

/-- One of the eight operations on an operand and an immediate. -/
def groupImmediate (m : Modifiers) (size : Size) (kind : ImmediateKind) : Decoder Shape := do
  let b ← modRm
  return ⟨.ofGroup b.field, [b.target m size, ← immediate kind]⟩

/-- A relative branch. -/
def branch (mnemonic : Mnemonic) (kind : ImmediateKind) : Decoder Shape := do
  return ⟨mnemonic, [.branch (kind.widen (← number kind.bytes))]⟩

/-- Reads the rest of an instruction behind its opcode. -/
def shape (m : Modifiers) (opcode : Nat) : Decoder Shape :=
  match opcode with
  | 0x00 => toTarget .add m .byte
  | 0x01 => toTarget .add m m.size
  | 0x03 => fromTarget .add m m.size
  | 0x04 => do return ⟨.add, [.register (m.register .byte 0), ← immediate .imm8]⟩
  | 0x05 => do return ⟨.add, [.register (m.register m.size 0), ← immediate (fullImmediate m.size)]⟩
  | 0x0F => do
    let second ← byte
    if second = 0x0B then return ⟨.ud2, []⟩ else failure
  | 0x29 => toTarget .sub m m.size
  | 0x31 => toTarget .xor m m.size
  | 0x68 => do return ⟨.push, [← immediate (fullImmediate m.stackSize)]⟩
  | 0x6A => do return ⟨.push, [← immediate (shortImmediate m.stackSize)]⟩
  | 0x74 => branch .je .imm8to64
  | 0x75 => branch .jne .imm8to64
  | 0x80 => groupImmediate m .byte .imm8
  | 0x81 => groupImmediate m m.size (fullImmediate m.size)
  | 0x83 => groupImmediate m m.size (shortImmediate m.size)
  | 0x89 => toTarget .mov m m.size
  | 0x8B => fromTarget .mov m m.size
  | 0x8D => do
    let b ← modRm
    if b.mode = 3 then failure else return ⟨.lea, [b.source m m.size, .memory]⟩
  | 0x8F => do
    let b ← modRm
    if b.field = 0 then return ⟨.pop, [b.target m m.stackSize]⟩ else failure
  | 0x90 =>
    if m.bit 0 then
      return ⟨.xchg, [.register (m.register m.size 8), .register (m.register m.size 0)]⟩
    else return ⟨.nop, []⟩
  | 0xC3 => return ⟨.ret, []⟩
  | 0xC7 => do
    let b ← modRm
    if b.field = 0 then return ⟨.mov, [b.target m m.size, ← immediate (fullImmediate m.size)]⟩
    else failure
  | 0xCC => return ⟨.int3, []⟩
  | 0xE8 => branch .call .imm32to64
  | 0xE9 => branch .jmp .imm32to64
  | 0xEB => branch .jmp .imm8to64
  | 0xFE => do
    let b ← modRm
    match b.field with
    | 0 => return ⟨.inc, [b.target m .byte]⟩
    | 1 => return ⟨.dec, [b.target m .byte]⟩
    | _ => failure
  | 0xFF => do
    let b ← modRm
    match b.field with
    | 0 => return ⟨.inc, [b.target m m.size]⟩
    | 1 => return ⟨.dec, [b.target m m.size]⟩
    | 2 => return ⟨.call, [b.target m .qword]⟩
    | 4 => return ⟨.jmp, [b.target m .qword]⟩
    | 6 => return ⟨.push, [b.target m m.stackSize]⟩
    | _ => failure
  | _ =>
    let number := opcode % 8 + m.operandBase
    if 0x50 ≤ opcode ∧ opcode < 0x58 then
      return ⟨.push, [.register (m.register m.stackSize number)]⟩
    else if 0x58 ≤ opcode ∧ opcode < 0x60 then
      return ⟨.pop, [.register (m.register m.stackSize number)]⟩
    else if 0xB8 ≤ opcode ∧ opcode < 0xC0 then do
      let kind := if m.wide then .imm64 else fullImmediate m.size
      return ⟨.mov, [.register (m.register m.size number), ← immediate kind]⟩
    else failure

/-- Turns the distance of a relative branch into its target. -/
def Operand.place (finish : Word) : Operand → Operand
  | .branch distance => .branch (finish + distance)
  | operand => operand

/-- The longest instruction a processor accepts. -/
def longest : Nat := 15

/-- Decodes the instruction at the front of `code`, which lies at `ip`. -/
def decode? (ip : Word) (code : List UInt8) : Option Instruction := do
  let window := code.take longest
  let ((m, opcode), rest) ← modifiers {} window
  let (s, rest) ← shape m opcode rest
  let length := window.length - rest.length
  let finish := ip + UInt64.ofNat length
  return { ip, length, mnemonic := s.mnemonic, operands := s.operands.map (Operand.place finish) }

/-- The instructions that handler stubs are written in. -/
def InstructionSet.stubs : InstructionSet :=
  ⟨Native.decode?⟩

end CodeRecovery.Native
