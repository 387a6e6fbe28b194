/-
One table for four stacks.

How an instruction uses the stack is written down once, as a table, and carried out four times: by
the simulator on memory, by the routine compiler in the offsets it records, by the graph compiler in
the code that moves the stack pointer, and by a run of the simulator as a whole. None of the four
reads the table. They agree with it.
-/
import CodeRecovery.Proofs.Graph.Balance
import CodeRecovery.Proofs.Routine.Balance
import CodeRecovery.Proofs.Simulator.Balance

set_option autoImplicit false

namespace CodeRecovery

open CodeRecovery.Action (finalState)

/-- Wherever a handler is carried out, it uses the stack as the table says for its instruction. -/
structure Handler.Balanced (h : Handler) (position : Nat) : Prop where
  /-- On any machine, unless the instruction replaces the stack pointer. -/
  machine : ∀ (m m' : Simulator) (outcome : Outcome Word),
    (h.perform position : Action Simulator (Outcome Word)).run m = .ok outcome m' →
      h.opcode ≠ .popVsp → m'.vsp = m.vsp - UInt64.ofInt h.opcode.growth
  /-- In any state of the routine compiler, in the offset of the block that is being written. -/
  routine : ∀ (b b' : Routine.Backend) (outcome : Outcome Routine.Operand),
    (h.perform position : Action Routine.Backend (Outcome Routine.Operand)).run b = .ok outcome b' →
      b'.current = b.current ∧
        b'.block.stackOffset = b.block.stackOffset - Int64.ofInt h.opcode.growth
  /-- After any session of the graph compiler, in the code that is added to the current block. -/
  graph : ∀ (s : Settings) (calls : List (Program × FlowCall Graph.Operand)) (b b' : Graph.Backend)
      (outcome : Outcome Graph.Operand), b = play (.new s) calls →
    (h.perform position : Action Graph.Backend (Outcome Graph.Operand)).run b = .ok outcome b' →
      ∃ code count, b' = b.emitted code count ∧ b'.written = b.written ++ code ∧
        Graph.stackShift b.vspSlot code = -h.opcode.growth

/-- Each machine was shown to keep to the table by itself; here they are put together. -/
theorem Handler.balanced (h : Handler) (position : Nat) : h.Balanced position where
  machine _ _ _ hrun hop := Simulator.vsp_of_perform hrun hop
  routine _ _ _ hrun := Routine.Backend.stackOffset_of_perform hrun
  graph s calls _ _ _ hb hrun :=
    Graph.Backend.stackShift_of_perform (hb ▸ Graph.Backend.ready_play s calls) hrun

/-- **The table of stack uses is kept to.** Every handler uses the stack of every machine as the
table says; after any session, every instruction of a routine carries the offset that the code in
front of it in its block adds up to; and a run that does not replace the stack pointer moves it by
the handlers that it carries out, and by the native context if it comes behind the last handler. -/
theorem stackUse_agrees :
    (∀ (h : Handler) (position : Nat), h.Balanced position) ∧
      (∀ (s : Settings) (calls : List (Program × FlowCall Routine.Operand)),
        (play (Routine.Backend.new s) calls).Recorded) ∧
      ∀ (p : Program) (limit : Nat) (m : Simulator),
        (∀ h ∈ Simulator.carriedOut p limit 0 m, h.opcode ≠ .popVsp) →
          (finalState ((Simulator.run p limit).run m)).vsp
            = m.vsp - UInt64.ofInt (growthOf (Simulator.carriedOut p limit 0 m))
              + if Simulator.runsOff p limit 0 m then 136 else 0 :=
  ⟨Handler.balanced, fun s calls => (Routine.Backend.reached_play s calls).recorded,
    fun _ _ _ hkeeps => Simulator.vsp_run hkeeps⟩

/-- Takes two narrow values and leaves one, and a whole flag word. -/
def exclusiveOr : Handler :=
  { opcode := .xor32, data := 0, address := 0x21, dispatch := 0, width := 4 }

/-- Saves the native context, leaves four bytes on the stack and runs off its end. -/
def lopsided : Program :=
  [.entry 0x10 0,
    { opcode := .push32, data := 7, address := 0x14, dispatch := 0, width := 8 },
    { opcode := .pushVr32, data := 3, address := 0x1C, dispatch := 0, width := 5 },
    exclusiveOr,
    { opcode := .popVr64, data := 0, address := 0x25, dispatch := 0, width := 5 }]

/-- Bring the graph compiler in front of the exclusive or. -/
def lopsidedCalls : List (Program × FlowCall Graph.Operand) :=
  [(lopsided, .start), (lopsided, .enter 3)]

/-- The graph compiler in front of the exclusive or, after a session that is not a whole
compilation. -/
def poised : Graph.Backend :=
  play (.new {}) lopsidedCalls

/-- Four bytes more are on the stack after the exclusive or, in all four accounts; the run is behind
by the four bytes that it leaves there. -/
theorem stackUse_agrees_lopsided :
    (∃ b', (exclusiveOr.perform 3 : Action Routine.Backend (Outcome Routine.Operand)).run (.new {})
        = .ok .next b' ∧ b'.block.stackOffset = -4) ∧
      (∃ b' code count,
        (exclusiveOr.perform 3 : Action Graph.Backend (Outcome Graph.Operand)).run poised
          = .ok .next b' ∧ b' = poised.emitted code count ∧
        Graph.stackShift poised.vspSlot code = -4) ∧
      (∀ h ∈ Simulator.carriedOut lopsided 9 0 .distinctive, h.opcode ≠ .popVsp) ∧
      growthOf (Simulator.carriedOut lopsided 9 0 .distinctive) = 140 ∧
      (finalState ((Simulator.run lopsided 9).run .distinctive)).vsp
        = Simulator.distinctive.vsp - 140 + 136 := by
  obtain ⟨hbalanced, -, hruns⟩ := stackUse_agrees
  have hkeeps : ∀ h ∈ Simulator.carriedOut lopsided 9 0 .distinctive, h.opcode ≠ .popVsp := by
    decide +kernel
  have hgrowth : growthOf (Simulator.carriedOut lopsided 9 0 .distinctive) = 140 := by
    decide +kernel
  have hoff : Simulator.runsOff lopsided 9 0 .distinctive = true := by decide +kernel
  have hvsp := hruns lopsided 9 .distinctive hkeeps
  rw [hgrowth, if_pos hoff] at hvsp
  have hfour : exclusiveOr.opcode.growth = 4 := rfl
  refine ⟨?_, ?_, hkeeps, hgrowth, hvsp⟩
  · obtain ⟨b', hrun⟩ : ∃ b', (exclusiveOr.perform 3 : Action Routine.Backend
        (Outcome Routine.Operand)).run (.new {}) = .ok .next b' :=
      Action.exists_of_answer (by decide +kernel)
    have hoffset := ((hbalanced exclusiveOr 3).routine _ _ _ hrun).2
    rw [hfour] at hoffset
    exact ⟨b', hrun, hoffset⟩
  · obtain ⟨b', hrun⟩ : ∃ b', (exclusiveOr.perform 3 : Action Graph.Backend
        (Outcome Graph.Operand)).run poised = .ok .next b' :=
      Action.exists_of_answer (by decide +kernel)
    obtain ⟨code, count, hemitted, -, hshift⟩ :=
      (hbalanced exclusiveOr 3).graph {} lopsidedCalls poised b' .next rfl hrun
    rw [hfour] at hshift
    exact ⟨b', code, count, hrun, hemitted, hshift⟩

end CodeRecovery
