/-
Recovering a protected routine: from its entry in an image to the two compiled forms.
-/
import CodeRecovery.Extraction
import CodeRecovery.Graph.Backend
import CodeRecovery.Routine.Backend

set_option autoImplicit false

namespace CodeRecovery

/-- A recovered routine. -/
structure Recovered where
  program : Program
  graph : Graph.Module
  routine : Routine

namespace Recovered

/-- A recovery under way; its state is the journal. -/
abbrev Progress := Action Journal

def report (event : Journal.Event) : Progress Unit :=
  modify (·.push event)

/-- Runs a compiler on a state of its own. What it reported is kept even if it halts. -/
def compileWith {σ : Type} (start : σ) (journal : σ → Journal) (compiler : Action σ Unit) :
    Progress σ := do
  match compiler.run start with
  | .ok () reached =>
    modify (· ++ journal reached)
    return reached
  | .error halt reached =>
    modify (· ++ journal reached)
    throw halt

/-- The note on where a routine's bytecode lies. -/
def enteredEvent (routine bytecode : Word) : Journal.Event :=
  let entry := Text.address routine.toNat
  .info s!"Routine {entry} enters the VM with bytecode at {Text.address bytecode.toNat}"

/-- Recovers the routine whose entry lies at an address of an image. -/
def ofRoutine (isa : Native.InstructionSet) (space : AddressSpace) (s : Settings) (routine : Word) :
    Progress Recovered := do
  let code ← Action.ofIndex (space.read routine Stub.entryWindow)
  let stub := isa.decodeRun .jmp 2 routine code
  let stream ← Action.ofExcept (Stub.bytecodeOffset stub)
  let bytecode ← Action.ofIndex (s.address? stream)
  report (enteredEvent routine bytecode)
  let extraction ← Action.ofIndex (Extraction.ofImage isa space s stream)
  let program := extraction.program
  modify (· ++ extraction.journal)
  if program.isEmpty then
    Action.fail (.precondition s!"no bytecode at offset {Text.address stream.toNat}")
  report (.listing program.text)
  let graph ← compileWith (Graph.Backend.new s) (·.journal) (Graph.Backend.run program)
  let routine ← compileWith (Routine.Backend.new s) (·.journal) (Routine.Backend.run program)
  report (.debug routine.routine.text)
  return { program, graph := graph.toModule, routine := routine.routine }

end Recovered

end CodeRecovery
