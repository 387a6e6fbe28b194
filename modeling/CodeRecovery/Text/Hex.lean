/-
Bytes as text: two lower-case hexadecimal digits for each.
-/
import CodeRecovery.Address
import CodeRecovery.Text.Layout

set_option autoImplicit false

namespace CodeRecovery.Text.Hex

/-- The two digits of a byte. -/
def ofByte (b : UInt8) : String :=
  padStart 2 '0' (hexLower b.toNat)

def encode (bytes : List UInt8) : String :=
  String.join (bytes.map ofByte)

/-- Reads bytes; letters count in either case. -/
def decode? : List Char → Option (List UInt8)
  | [] => some []
  | [_] => none
  | a :: b :: rest => do
    let high ← Address.digit? 16 a
    let low ← Address.digit? 16 b
    let others ← decode? rest
    return UInt8.ofNat (16 * high + low) :: others

end CodeRecovery.Text.Hex
