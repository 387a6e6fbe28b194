/-
The command-line program on real files.
-/
import CodeRecovery.CommandLine
import Std.Time.DateTime.Timestamp

set_option autoImplicit false

namespace CodeRecovery.CommandLine

/-- Two decimal digits. -/
def twoDigits (n : Nat) : String :=
  Text.padStart 2 '0' (toString n)

/-- The time of day in front of a journal line. -/
def stamp : IO String := do
  let now ← Std.Time.Timestamp.now
  let seconds := now.toSecondsSinceUnixEpoch.val.toNat
  let hours := twoDigits (seconds / 3600 % 24)
  let minutes := twoDigits (seconds / 60 % 60)
  let rest := twoDigits (seconds % 60)
  return s!"[{hours}:{minutes}:{rest}] "

/-- Why the operating system refused a file. -/
def faultOf (e : IO.Error) : FileFault :=
  let known : Option PathFault := match e with
    | .noFileOrDirectory _ code _ | .inappropriateType _ code _ | .invalidArgument _ code _ =>
      PathFault.ofCode? code.toNat
    | _ => none
  match known with
  | some fault => .path fault
  | none => .other (toString e)

/-- The files of the machine the program runs on. -/
def world (verbose : Bool) : World IO where
  read name := do
    try return .ok (← IO.FS.readBinFile name)
    catch e => return .error (faultOf e)
  write name content := do
    try
      IO.FS.writeBinFile name content
      return .ok ()
    catch e => return .error (faultOf e)
  report event := do
    let stamp ← stamp
    IO.print (event.output stamp verbose)
    IO.eprint (event.errors stamp)

end CodeRecovery.CommandLine

open CodeRecovery.CommandLine in
def main (arguments : List String) : IO UInt32 := do
  let request := Options.parse arguments
  if request matches .error .refused then IO.eprint usage
  perform (world (isVerbose request)) request
