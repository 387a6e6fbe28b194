/-
What the program does with its options.

The program touches the outside only through `World`, so that it can be run on real files as well as
on files that are held in memory.
-/
import CodeRecovery.CommandLine.Options
import CodeRecovery.Native.Decode
import CodeRecovery.Pe.Image
import CodeRecovery.Recovery
import CodeRecovery.Routine.Encode

set_option autoImplicit false

namespace CodeRecovery.CommandLine

/-! ## Files -/

/-- The faults of paths that the operating system tells apart. -/
inductive PathFault where
  | notFound
  | notADirectory
  | isADirectory
  | nameTooLong
deriving DecidableEq, Repr

namespace PathFault

def all : List PathFault :=
  [notFound, notADirectory, isADirectory, nameTooLong]

/-- The number by which the operating system knows the fault. -/
def code : PathFault → Nat
  | notFound => 2
  | notADirectory => 20
  | isADirectory => 21
  | nameTooLong => 36

def kind : PathFault → String
  | notFound => "NotFound"
  | notADirectory => "NotADirectory"
  | isADirectory => "IsADirectory"
  | nameTooLong => "InvalidFilename"

def text : PathFault → String
  | notFound => "No such file or directory"
  | notADirectory => "Not a directory"
  | isADirectory => "Is a directory"
  | nameTooLong => "File name too long"

/-- The fault with a number. -/
def ofCode? (code : Nat) : Option PathFault :=
  all.find? (·.code == code)

end PathFault

/-- Why a file cannot be read or written. -/
inductive FileFault where
  | path (fault : PathFault)
  | other (text : String)
deriving DecidableEq, Repr

namespace FileFault

def message : FileFault → String
  | path fault => s!"{fault.text} (os error {fault.code})"
  | other text => text

/-- The fault in the words of the image loader. -/
def detail : FileFault → String
  | path fault =>
    s!"Os \x7b code: {fault.code}, kind: {fault.kind}, message: \"{fault.text}\" \x7d"
  | other text => text

end FileFault

/-- What the program needs from the outside. -/
structure World (m : Type → Type) where
  read : String → m (Except FileFault ByteArray)
  write : String → ByteArray → m (Except FileFault Unit)
  report : Journal.Event → m Unit

/-! ## The program -/

section

variable {m : Type → Type} [Monad m]

/-- A step of the program. -/
abbrev Run (m : Type → Type) := ExceptT Halt m

def fail {α : Type} (cause : Failure) : Run m α :=
  throw (.failed cause)

def report (w : World m) (event : Journal.Event) : Run m Unit :=
  ExceptT.lift (w.report event)

/-- Reads the image. -/
def loadImage (w : World m) (name : String) : Run m Pe.Image := do
  match ← ExceptT.lift (w.read name) with
  | .error fault =>
    fail (.precondition s!"couldn't load '{name}': PKBufferError(IoError({fault.detail}))")
  | .ok file =>
    match Pe.Image.ofFile file with
    | .error cause => fail cause
    | .ok image => do
      report w image.loadedEvent
      return image

/-- Reads an opcode map. -/
def loadMap (w : World m) (name : String) : Run m HandlerMap := do
  match ← ExceptT.lift (w.read name) with
  | .error fault => fail (.io fault.message)
  | .ok file =>
    match String.fromUTF8? file with
    | none => fail (.io "stream did not contain valid UTF-8")
    | some text =>
      match HandlerMap.ofToml text with
      | .error cause => fail cause
      | .ok handlers => do
        report w (.info s!"Loaded {handlers.size} handler addresses from '{name}'")
        return handlers

/-- Writes a result. -/
def save (w : World m) (name : String) (content : ByteArray) (event : Journal.Event) :
    Run m Unit := do
  match ← ExceptT.lift (w.write name content) with
  | .error fault => fail (.io fault.message)
  | .ok () => report w event

/-- Recovers the routine and reports what happened on the way. -/
def recover (w : World m) (image : Pe.Image) (s : Settings) (routine : Word) :
    Run m Recovered := do
  let result := (Recovered.ofRoutine .stubs image.space s routine).run #[]
  match result with
  | .ok recovered journal => do
    journal.forM (report w)
    return recovered
  | .error halt journal => do
    journal.forM (report w)
    throw halt

/-- Does what the options ask for. -/
def execute (w : World m) (o : Options) : Run m Unit := do
  let image ← loadImage w o.input
  let handlers ← match o.opcodeMap with
    | some name => loadMap w name
    | none => pure .builtin
  let settings : Settings :=
    { imageBase := o.imageBase.getD image.base, stackSize := o.stackSize, handlers }
  match settings.validate with
  | .error cause => fail cause
  | .ok () => do
    let recovered ← recover w image settings o.routine
    match recovered.graph.text? with
    | none => throw .outOfRange
    | some text => do
      report w (.print text)
      save w o.graphOutput text.toUTF8 (.info s!"Wrote graph to '{o.graphOutput}'")
      save w o.routineOutput ⟨recovered.routine.encoded.toArray⟩
        (.info s!"Wrote {recovered.routine.size} routine blocks to '{o.routineOutput}'")

/-- Runs the program and gives its exit status. A failure is reported last. -/
def run (w : World m) (o : Options) : m UInt32 := do
  match ← (execute w o).run with
  | .ok () => return 0
  | .error (.failed cause) => do
    w.report (.error cause.message)
    return 1
  | .error .outOfRange => return 101

/-- Does what a command line asks for and gives the exit status. -/
def perform (w : World m) : Except Stop Options → m UInt32
  | .ok options => run w options
  | .error stop => do
    w.report (.print stop.text)
    return stop.status

end

/-- Whether a command line asks for verbose output. -/
def isVerbose : Except Stop Options → Bool
  | .ok options => options.verbose
  | .error _ => false

end CodeRecovery.CommandLine
