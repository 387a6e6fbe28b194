/-
The options of the command line.

Arguments are taken from left to right and the first one that decides wins: a faulty argument
refuses the command line, and a request for the help or the version is answered without a look at
what follows it. What is missing is noticed last.
-/
import CodeRecovery.Address
import CodeRecovery.Text.Layout

set_option autoImplicit false

namespace CodeRecovery.CommandLine

structure Options where
  /-- The protected image. -/
  input : String
  /-- The address of the routine's entry. -/
  routine : Word
  /-- Used instead of the image base that the image states. -/
  imageBase : Option Word
  /-- A document with an opcode map. -/
  opcodeMap : Option String
  graphOutput : String
  routineOutput : String
  stackSize : Nat
  verbose : Bool
deriving DecidableEq, Repr

/-- Why a command line leads to no recovery. -/
inductive Stop where
  /-- An argument is faulty or missing. -/
  | refused
  | help
  | version
deriving DecidableEq, Repr

/-- What has been given on the command line so far. -/
structure Given where
  input : Option String := none
  routine : Option Word := none
  imageBase : Option Word := none
  opcodeMap : Option String := none
  graphOutput : Option String := none
  routineOutput : Option String := none
  stackSize : Option Nat := none
  verbose : Bool := false

namespace Given

/-- What is needed but not there refuses the command line. -/
def require {α : Type} : Option α → Except Stop α
  | some a => .ok a
  | none => .error .refused

/-- Sets what may be given once. -/
def once {α : Type} (earlier : Option α) (value : Option α) : Except Stop (Option α) :=
  match earlier with
  | none => some <$> require value
  | some _ => .error .refused

/-- A path, which is not empty. -/
def path? (text : String) : Option String :=
  if text.isEmpty then none else some text

def address? (text : String) : Option Word :=
  (Address.parse text).toOption

/-- A number of bytes: decimal, without blanks. -/
def bytes? (text : String) : Option Nat :=
  (Address.unsigned? 10 text.toList).map UInt64.toNat

/-- Takes an option that has a value. -/
def option (g : Given) (name value : String) : Except Stop Given :=
  match name with
  | "routine" => return { g with routine := ← once g.routine (address? value) }
  | "image-base" => return { g with imageBase := ← once g.imageBase (address? value) }
  | "opcode-map" => return { g with opcodeMap := ← once g.opcodeMap (path? value) }
  | "graph-output" => return { g with graphOutput := ← once g.graphOutput (path? value) }
  | "routine-output" => return { g with routineOutput := ← once g.routineOutput (path? value) }
  | "vstack-size" => return { g with stackSize := ← once g.stackSize (bytes? value) }
  | _ => .error .refused

/-- Takes the switch for verbose output, which may be given once. -/
def switch (g : Given) : Except Stop Given :=
  if g.verbose then .error .refused else .ok { g with verbose := true }

/-- Takes an argument that belongs to no option. -/
def positional (g : Given) (text : String) : Except Stop Given :=
  return { g with input := ← once g.input (path? text) }

/-- Takes the letters behind a single dash. -/
def letters (g : Given) : List Char → Except Stop Given
  | [] => .ok g
  | 'v' :: rest => do (← g.switch).letters rest
  | 'h' :: _ => .error .help
  | 'V' :: _ => .error .version
  | _ => .error .refused

/-- Whether an argument starts an option rather than being a value. -/
def isOption (text : String) : Bool :=
  match text.toList with
  | ['-'] => false
  | '-' :: _ => true
  | _ => false

/-- The name in a long option and the value behind an equals sign, if there is one. -/
def splitOption (text : List Char) : String × Option String :=
  let name := String.ofList (text.takeWhile (· ≠ '='))
  match text.dropWhile (· ≠ '=') with
  | _ :: value => (name, some (String.ofList value))
  | [] => (name, none)

/-- Takes all arguments. Behind two dashes alone no argument is an option. -/
def take (g : Given) : List String → Except Stop Given
  | [] => .ok g
  | argument :: rest =>
    match argument.toList with
    | ['-', '-'] => rest.foldlM positional g
    | '-' :: '-' :: text =>
      match splitOption text with
      | ("verbose", none) => do (← g.switch).take rest
      | ("help", none) => .error .help
      | ("version", none) => .error .version
      | (name, some value) => do (← g.option name value).take rest
      | (name, none) =>
        match rest with
        | value :: rest =>
          if isOption value then .error .refused else do (← g.option name value).take rest
        | [] => .error .refused
    | '-' :: c :: cs => do (← g.letters (c :: cs)).take rest
    | _ => do (← g.positional argument).take rest

end Given

/-- Where the graph is written unless the command line says otherwise. -/
def defaultGraphOutput : String := "output.ll"

/-- Where the routine is written unless the command line says otherwise. -/
def defaultRoutineOutput : String := "output.vrtn"

/-- The bytes of the virtual stack unless the command line says otherwise. -/
def defaultStackSize : Nat := 2048

/-- Reads a command line. -/
def Options.parse (arguments : List String) : Except Stop Options := do
  let g ← ({} : Given).take arguments
  return {
    input := ← Given.require g.input
    routine := ← Given.require g.routine
    imageBase := g.imageBase
    opcodeMap := g.opcodeMap
    graphOutput := g.graphOutput.getD defaultGraphOutput
    routineOutput := g.routineOutput.getD defaultRoutineOutput
    stackSize := g.stackSize.getD defaultStackSize
    verbose := g.verbose }

/-! ## Help and version -/

def programName : String := "devirtualizer"

def versionText : String := s!"{programName} 0.1.0\n"

def usage : String := s!"Usage: {programName} [OPTIONS] --routine <ROUTINE> <INPUT>\n"

/-- The note on what an option is when it is not given. -/
def defaultNote (value : String) : String := s!"[default: {value}]"

/-- How each option is written, and what it is for. -/
def optionRows : List (String × String) :=
  [("    --routine <ROUTINE>", "Virtual address of the routine\x27s VM entry stub"),
    ("    --image-base <IMAGE_BASE>", "Overrides the image base from the PE header"),
    ("    --opcode-map <OPCODE_MAP>", "TOML file mapping handler addresses to opcode names"),
    ("    --graph-output <GRAPH_OUTPUT>", defaultNote defaultGraphOutput),
    ("    --routine-output <ROUTINE_OUTPUT>", defaultNote defaultRoutineOutput),
    ("    --vstack-size <VSTACK_SIZE>", defaultNote (toString defaultStackSize)),
    ("-v, --verbose", ""),
    ("-h, --help", "Print help"),
    ("-V, --version", "Print version")]

/-- Rows of two columns. The second column starts two blanks behind the longest entry of the first,
and the blanks are written in front of an empty entry too. -/
def columns (rows : List (String × String)) : String :=
  let width := (rows.map (·.1.length)).foldl max 0
  String.join (rows.map fun (left, right) => s!"  {Text.padEnd (width + 2) left}{right}\n")

def helpText : String :=
  "Lifts VM-protected routines back into analyzable IR\n\n" ++ usage ++
    "\nArguments:\n" ++ columns [("<INPUT>", "Protected PE image")] ++
    "\nOptions:\n" ++ columns optionRows

namespace Stop

/-- What is printed; a refused command line has nothing to print. -/
def text : Stop → String
  | refused => ""
  | help => helpText
  | version => versionText

/-- The exit status. -/
def status : Stop → UInt32
  | refused => 2
  | help | version => 0

end Stop

end CodeRecovery.CommandLine
