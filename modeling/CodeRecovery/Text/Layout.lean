/-
The layout of numbers and columns in the library's texts: hexadecimal in either case, decimal with
an explicit sign, and columns filled with blanks on one side.
-/

set_option autoImplicit false

namespace CodeRecovery.Text

/-- Lower-case hexadecimal digits without leading zeros. -/
def hexLower (n : Nat) : String :=
  String.ofList (Nat.toDigits 16 n)

/-- Upper-case hexadecimal digits without leading zeros. -/
def hexUpper (n : Nat) : String :=
  String.ofList ((Nat.toDigits 16 n).map Char.toUpper)

/-- `0x` and upper-case digits: how addresses and constants stand in texts. -/
def address (n : Nat) : String :=
  "0x" ++ hexUpper n

/-- Fills `text` on the left with `fill` up to `width` characters; longer texts are kept whole. -/
def padStart (width : Nat) (fill : Char) (text : String) : String :=
  String.ofList (List.replicate (width - text.length) fill) ++ text

/-- Fills `text` on the right with blanks up to `width` characters. -/
def padEnd (width : Nat) (text : String) : String :=
  text ++ String.ofList (List.replicate (width - text.length) ' ')

/-- Decimal digits behind a sign that is written for zero and above as well. -/
def signed (n : Int) : String :=
  match n with
  | .ofNat k => "+" ++ toString k
  | .negSucc k => "-" ++ toString (k + 1)

/-- The lines of `text`; a line feed at the very end starts no further line. -/
def lines (text : String) : List String :=
  let pieces := splitLines text.toList
  match pieces.getLast? with
  | some [] => pieces.dropLast.map String.ofList
  | _ => pieces.map String.ofList
where
  splitLines : List Char → List (List Char)
    | [] => [[]]
    | '\n' :: rest => [] :: splitLines rest
    | c :: rest =>
      match splitLines rest with
      | [] => [[c]]
      | line :: others => (c :: line) :: others

end CodeRecovery.Text
