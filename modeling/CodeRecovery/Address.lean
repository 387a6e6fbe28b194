/-
Addresses as users write them: decimal, or hexadecimal behind `0x` or `0X`, with blanks around and
an optional plus sign.
-/
import CodeRecovery.Failure
import CodeRecovery.Text.Blank

set_option autoImplicit false

namespace CodeRecovery.Address

/-- The value of a digit in a base up to sixteen; letters count in either case. -/
def digit? (base : Nat) (c : Char) : Option Nat :=
  let value? :=
    if '0' ≤ c ∧ c ≤ '9' then some (c.toNat - '0'.toNat)
    else if 'a' ≤ c ∧ c ≤ 'f' then some (c.toNat - 'a'.toNat + 10)
    else if 'A' ≤ c ∧ c ≤ 'F' then some (c.toNat - 'A'.toNat + 10)
    else none
  value?.filter (· < base)

/-- The number that a non-empty run of digits spells. -/
def magnitude? (base : Nat) : List Char → Option Nat
  | [] => none
  | digits => digits.foldlM (fun n c => (digit? base c).map (n * base + ·)) 0

/-- Digits behind at most one plus sign, below `2 ^ 64`. -/
def unsigned? (base : Nat) (text : List Char) : Option Word :=
  let digits := match text with
    | '+' :: rest => rest
    | _ => text
  ((magnitude? base digits).filter (· < UInt64.size)).map UInt64.ofNat

/-- An address without blanks around it. -/
def ofTrimmed? : List Char → Option Word
  | '0' :: 'x' :: rest | '0' :: 'X' :: rest => unsigned? 16 rest
  | text => unsigned? 10 text

/-- The text is no address. -/
def invalid (text : String) : Failure :=
  .invalidConfig s!"invalid address '{text}'"

/-- Reads an address. The failure quotes the text without the blanks around it. -/
def parse (text : String) : Except Failure Word :=
  let trimmed := Text.trim text.toList
  match ofTrimmed? trimmed with
  | some address => .ok address
  | none => .error (invalid (String.ofList trimmed))

end CodeRecovery.Address
