/-
Reading a TOML document.

Each function takes the characters that are left and gives back what it read with the characters
behind it. The functions that repeat or nest take a bound on their steps; every step uses up at
least one character, so the length of the text is bound enough and `parse?` supplies it. Apart from
that, documents are refused whose values nest, or whose keys go, 80 levels deep.
-/
import CodeRecovery.Address
import CodeRecovery.Toml.Value

set_option autoImplicit false

namespace CodeRecovery.Toml

/-- Values nest less deep than this, and keys have fewer parts. -/
def depthLimit : Nat := 80

/-! ## Blanks, comments and line ends -/

def skipBlanks (cs : List Char) : List Char :=
  cs.dropWhile fun c => c == ' ' || c == '\t'

/-- A line feed, alone or behind a carriage return. -/
def newline? : List Char → Option (List Char)
  | '\n' :: rest => some rest
  | '\r' :: '\n' :: rest => some rest
  | _ => none

/-- The characters that may stand in comments: all but the control characters, and the tab. -/
def isPlain (c : Char) : Bool :=
  c == '\t' || (0x20 ≤ c.toNat && c.toNat ≠ 0x7F)

/-- Skips a comment, if one starts here. -/
def skipComment : List Char → List Char
  | '#' :: rest => rest.dropWhile isPlain
  | cs => cs

/-- The rest of a line behind its statement: blanks, a comment, and the end of the line or text. -/
def lineEnd? (cs : List Char) : Option (List Char) :=
  match skipComment (skipBlanks cs) with
  | [] => some []
  | rest => newline? rest

/-- Skips blanks, comments and line ends. -/
def skipSpace : Nat → List Char → List Char
  | 0, cs => cs
  | fuel + 1, cs =>
    let rest := skipComment (skipBlanks cs)
    match newline? rest with
    | some rest => skipSpace fuel rest
    | none => rest

/-! ## Strings -/

/-- The character with a code written in hexadecimal digits. -/
def scalar? (digits : List Char) : Option Char := do
  let n ← Address.magnitude? 16 digits
  if n.isValidChar then some (Char.ofNat n) else none

/-- The character that an escape stands for; the backslash is already read. -/
def escape? : List Char → Option (Char × List Char)
  | 'b' :: rest => some ('\x08', rest)
  | 't' :: rest => some ('\t', rest)
  | 'n' :: rest => some ('\n', rest)
  | 'f' :: rest => some ('\x0c', rest)
  | 'r' :: rest => some ('\r', rest)
  | '\x22' :: rest => some ('\x22', rest)
  | '\\' :: rest => some ('\\', rest)
  | 'u' :: rest => exactly 4 rest
  | 'U' :: rest => exactly 8 rest
  | _ => none
where
  exactly (count : Nat) (cs : List Char) : Option (Char × List Char) :=
    if (cs.take count).length = count then do
      let c ← scalar? (cs.take count)
      some (c, cs.drop count)
    else none

/-- A basic string behind its opening quote. -/
def basic? : Nat → List Char → Option (List Char × List Char)
  | 0, _ => none
  | fuel + 1, cs =>
    match cs with
    | '\x22' :: rest => some ([], rest)
    | '\\' :: rest => do
      let (c, rest) ← escape? rest
      let (text, rest) ← basic? fuel rest
      some (c :: text, rest)
    | c :: rest =>
      if isPlain c then do
        let (text, rest) ← basic? fuel rest
        some (c :: text, rest)
      else none
    | [] => none

/-- A literal string behind its opening quote. -/
def literal? (cs : List Char) : Option (List Char × List Char) :=
  let isInner := fun c => isPlain c && c != '\x27'
  match cs.dropWhile isInner with
  | '\x27' :: rest => some (cs.takeWhile isInner, rest)
  | _ => none

/-- The quotes at the front: fewer than three belong to the text; of three to five, the last three
close the string. -/
def closing? (quote : Char) (cs : List Char) : Option (Nat × List Char) :=
  let count := (cs.takeWhile (· == quote)).length
  if count < 3 then none else some (min count 5 - 3, cs.drop (min count 5))

/-- Skips what a backslash at the end of a line hides: the line end and all blank space behind
it. -/
def lineContinuation? (fuel : Nat) (cs : List Char) : Option (List Char) := do
  let rest ← newline? (skipBlanks cs)
  return skipAll fuel rest
where
  skipAll : Nat → List Char → List Char
    | 0, cs => cs
    | fuel + 1, cs =>
      match newline? (skipBlanks cs) with
      | some rest => skipAll fuel rest
      | none => skipBlanks cs

/-- A multi-line string behind its opening quotes. Escapes count when `escapes` is set. -/
def multiline? (quote : Char) (escapes : Bool) : Nat → List Char → Option (List Char × List Char)
  | 0, _ => none
  | fuel + 1, cs =>
    match closing? quote cs with
    | some (inner, rest) => some (List.replicate inner quote, rest)
    | none =>
      match newline? cs with
      | some rest => do
        let (text, rest) ← multiline? quote escapes fuel rest
        some ('\n' :: text, rest)
      | none =>
        match cs with
        | [] => none
        | c :: rest =>
          if escapes && c == '\\' then
            match lineContinuation? fuel rest with
            | some rest => multiline? quote escapes fuel rest
            | none => do
              let (c, rest) ← escape? rest
              let (text, rest) ← multiline? quote escapes fuel rest
              some (c :: text, rest)
          else if isPlain c then do
            let (text, rest) ← multiline? quote escapes fuel rest
            some (c :: text, rest)
          else none

/-- A line end right behind the opening quotes is not part of a multi-line string. -/
def skipFirstNewline (cs : List Char) : List Char :=
  (newline? cs).getD cs

/-- A string value in any of the four notations. -/
def string? (fuel : Nat) (cs : List Char) : Option (String × List Char) := do
  let (text, rest) ← match cs with
    | '\x22' :: '\x22' :: '\x22' :: rest => multiline? '\x22' true fuel (skipFirstNewline rest)
    | '\x27' :: '\x27' :: '\x27' :: rest => multiline? '\x27' false fuel (skipFirstNewline rest)
    | '\x22' :: rest => basic? fuel rest
    | '\x27' :: rest => literal? rest
    | _ => none
  some (String.ofList text, rest)

/-! ## Keys -/

/-- The characters of a key without quotes. -/
def isBare (c : Char) : Bool :=
  ('a' ≤ c && c ≤ 'z') || ('A' ≤ c && c ≤ 'Z') || ('0' ≤ c && c ≤ '9') || c == '_' || c == '-'

/-- One part of a key. -/
def keyPart? (fuel : Nat) (cs : List Char) : Option (String × List Char) :=
  match cs with
  | '\x22' :: rest => (basic? fuel rest).map fun (text, rest) => (String.ofList text, rest)
  | '\x27' :: rest => (literal? rest).map fun (text, rest) => (String.ofList text, rest)
  | _ =>
    match cs.takeWhile isBare with
    | [] => none
    | text => some (String.ofList text, cs.dropWhile isBare)

/-- Parts of a key with dots between them. Blanks may stand around the dots. -/
def keyParts? : Nat → List Char → Option (List String × List Char)
  | 0, _ => none
  | fuel + 1, cs => do
    let (part, rest) ← keyPart? fuel cs
    match skipBlanks rest with
    | '.' :: rest => do
      let (parts, rest) ← keyParts? fuel (skipBlanks rest)
      some (part :: parts, rest)
    | _ => some ([part], rest)

/-- A key of a length that is allowed. -/
def key? (fuel : Nat) (cs : List Char) : Option (List String × List Char) := do
  let (parts, rest) ← keyParts? fuel cs
  if parts.length < depthLimit then some (parts, rest) else none

/-! ## Numbers -/

/-- Digits with single underscores between them. -/
def digits? (base : Nat) (cs : List Char) : Option Nat :=
  if cs.head? == some '_' || cs.getLast? == some '_' || hasDouble cs then none
  else Address.magnitude? base (cs.filter (· != '_'))
where
  hasDouble : List Char → Bool
    | '_' :: '_' :: _ => true
    | _ :: rest => hasDouble rest
    | [] => false

/-- Decimal digits without a needless zero at the front. -/
def decimal? (cs : List Char) : Option Nat :=
  match cs with
  | '0' :: _ :: _ => none
  | _ => digits? 10 cs

/-- An integer of 64 bits. -/
def integer? (cs : List Char) : Option (Value × List Char) :=
  let isInner := fun c => isBare c || c == '+'
  let n? : Option Int := match cs.takeWhile isInner with
    | '0' :: 'x' :: digits => (digits? 16 digits).map Int.ofNat
    | '0' :: 'o' :: digits => (digits? 8 digits).map Int.ofNat
    | '0' :: 'b' :: digits => (digits? 2 digits).map Int.ofNat
    | '+' :: digits => (decimal? digits).map Int.ofNat
    | '-' :: digits => (decimal? digits).map fun n => -Int.ofNat n
    | digits => (decimal? digits).map Int.ofNat
  match n? with
  | some n =>
    if Int64.minValue.toInt ≤ n ∧ n ≤ Int64.maxValue.toInt then
      some (.integer n, cs.dropWhile isInner)
    else none
  | none => none

/-! ## Values

`depth` counts the brackets and braces that are open around a value. -/

mutual

/-- A value of any kind. -/
def value? : (fuel depth : Nat) → List Char → Option (Value × List Char)
  | 0, _, _ => none
  | fuel + 1, depth, cs =>
    match cs with
    | '\x22' :: _ | '\x27' :: _ => (string? fuel cs).map fun (text, rest) => (.string text, rest)
    | '[' :: rest =>
      if depth + 1 < depthLimit then
        (items? fuel (depth + 1) rest).map fun (items, rest) => (.array items, rest)
      else none
    | '\x7b' :: rest =>
      if depth + 1 < depthLimit then
        (braces? fuel (depth + 1) (skipBlanks rest)).map fun (entries, rest) =>
          (.inline entries, rest)
      else none
    | 't' :: 'r' :: 'u' :: 'e' :: rest => some (.boolean true, rest)
    | 'f' :: 'a' :: 'l' :: 's' :: 'e' :: rest => some (.boolean false, rest)
    | _ => integer? cs

/-- The items of an array behind its opening bracket or a comma, and the closing bracket. -/
def items? : (fuel depth : Nat) → List Char → Option (List Value × List Char)
  | 0, _, _ => none
  | fuel + 1, depth, cs =>
    match skipSpace fuel cs with
    | ']' :: rest => some ([], rest)
    | rest => do
      let (item, rest) ← value? fuel depth rest
      match skipSpace fuel rest with
      | ',' :: rest => do
        let (items, rest) ← items? fuel depth rest
        some (item :: items, rest)
      | ']' :: rest => some ([item], rest)
      | _ => none

/-- An inline table behind its opening brace. -/
def braces? : (fuel depth : Nat) → List Char → Option (Entries × List Char)
  | 0, _, _ => none
  | fuel + 1, depth, cs =>
    match cs with
    | '\x7d' :: rest => some ([], rest)
    | _ => pairs? fuel depth [] cs

/-- The pairs of an inline table and its closing brace, added to `entries`. -/
def pairs? : (fuel depth : Nat) → Entries → List Char → Option (Entries × List Char)
  | 0, _, _, _ => none
  | fuel + 1, depth, entries, cs => do
    let ((key, value), rest) ← pair? fuel depth cs
    let last ← key.getLast?
    let entries ← Entries.addPair key.dropLast last value .header entries
    match skipBlanks rest with
    | ',' :: rest => pairs? fuel depth entries (skipBlanks rest)
    | '\x7d' :: rest => some (entries, rest)
    | _ => none

/-- A key, an equals sign and a value. -/
def pair? : (fuel depth : Nat) → List Char → Option ((List String × Value) × List Char)
  | 0, _, _ => none
  | fuel + 1, depth, cs => do
    let (key, rest) ← key? fuel cs
    match skipBlanks rest with
    | '=' :: rest => do
      let (value, rest) ← value? fuel depth (skipBlanks rest)
      some ((key, value), rest)
    | _ => none

end

/-! ## Documents -/

/-- The next statement of a document with the rest of its line; there is none at the end. -/
def statement? (fuel : Nat) (cs : List Char) : Option (Option Statement × List Char) :=
  match cs with
  | [] => some (none, [])
  | '[' :: '[' :: rest => do
    let (key, rest) ← key? fuel (skipBlanks rest)
    match skipBlanks rest with
    | ']' :: ']' :: rest => do
      let rest ← lineEnd? rest
      some (some (.element key), rest)
    | _ => none
  | '[' :: rest => do
    let (key, rest) ← key? fuel (skipBlanks rest)
    match skipBlanks rest with
    | ']' :: rest => do
      let rest ← lineEnd? rest
      some (some (.header key), rest)
    | _ => none
  | _ => do
    let ((key, value), rest) ← pair? fuel 0 cs
    let rest ← lineEnd? rest
    some (some (.pair key value), rest)

/-- The statements of a document. -/
def statements? : Nat → List Char → Option (List Statement)
  | 0, _ => none
  | fuel + 1, cs => do
    let (next, rest) ← statement? fuel (skipSpace fuel cs)
    match next with
    | none => some []
    | some statement => do
      let others ← statements? fuel rest
      some (statement :: others)

/-- Skips a byte order mark. -/
def skipMark : List Char → List Char
  | '\uFEFF' :: rest => rest
  | cs => cs

/-- Reads a document into its root table. -/
def parse? (text : String) : Option Entries := do
  let cs := skipMark text.toList
  let lines ← statements? (2 * cs.length + 8) cs
  Document.ofStatements? lines

end CodeRecovery.Toml
