/-
The settings of a recovery, and the checks they have to pass.
-/
import CodeRecovery.HandlerMap
import CodeRecovery.Native.Register

set_option autoImplicit false

namespace CodeRecovery

structure Settings where
  /-- Where the image lies; bytecode and handlers are addressed relative to it. -/
  imageBase : Word := 0x140000000
  /-- The native register that points into the bytecode. -/
  pointer : Native.Register := .whole .r13
  /-- How many bytes of a handler's code are looked at. -/
  handlerWindow : Nat := 0x100
  /-- How many instructions of a handler are looked at. -/
  scanLimit : Nat := 64
  /-- How many bytes of bytecode are looked at. -/
  streamLimit : Nat := 100000
  /-- The size of the virtual stack in bytes. -/
  stackSize : Nat := 2048
  /-- The number of virtual registers. -/
  virtualRegisters : Nat := 32
  handlers : HandlerMap := .builtin

namespace Settings

/-- The address of a place given relative to the image. Addresses have 64 bits; there is none for a
place beyond them. -/
def address? (s : Settings) (offset : UInt32) : Option Word :=
  if s.imageBase.toNat + offset.toNat < UInt64.size then some (s.imageBase + offset.toUInt64)
  else none

/-- The fewest instructions of a handler that must be looked at. -/
def leastScanLimit : Nat := 50

/-- The fewest virtual registers there must be. -/
def leastVirtualRegisters : Nat := 32

/-- What a bad pointer register is called in the complaint about it. -/
def pointerName (r : Native.Register) : String :=
  if r = .none then "None" else r.name.toUpper

/-- Checks the settings; the first one that fails is the failure. -/
def validate (s : Settings) : Except Failure Unit :=
  if s.scanLimit < leastScanLimit then
    .error (.invalidConfig s!"handler scan limit {s.scanLimit} is below {leastScanLimit}")
  else if s.virtualRegisters < leastVirtualRegisters then
    .error (.invalidConfig
      s!"register file of {s.virtualRegisters} slots is below {leastVirtualRegisters}")
  else if s.stackSize = 0 ∨ s.stackSize % 8 ≠ 0 then
    .error (.invalidConfig
      s!"virtual stack size {s.stackSize} is not a non-zero multiple of 8")
  else if !s.pointer.isWhole then
    .error (.invalidConfig
      s!"{pointerName s.pointer} is not a 64-bit general purpose register")
  else .ok ()

end Settings

end CodeRecovery
