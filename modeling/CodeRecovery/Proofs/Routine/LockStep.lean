/-
The routine compiler preserves meaning.

A compiled routine, run from its entry, goes in lock step with the simulator: `lockStep_of_run` is
that for every separate program that the compiler accepts, every start of the native registers and
any number of steps. Only reachable handlers have blocks, so what is carried along is that the
simulator stays at reachable positions. There is one lemma for each way in which a block ends.
-/
import CodeRecovery.Proofs.Routine.Exploration
import CodeRecovery.Proofs.Routine.Refinement

set_option autoImplicit false

namespace CodeRecovery.Routine

open Backend State

/-- A run's result is the word that the simulator leaves in the result register, when it has
restored the native context. -/
def ReturnsResult (result : Word) (m : Simulator) : Prop :=
  result = m.registers (.gpr returnRegister)

/-- Agreement, for a machine with a number of virtual registers. The number does not change, but the
steps have to know it. -/
def Aligned (registers : Nat) (st : State) (m : Simulator) : Prop :=
  Agrees st m ∧ m.vregs.size = registers

variable {st st' : State} {m : Simulator} {r : Routine} {p : Program} {registers position : Nat}
  {block : Block} {h : Handler} {code : List Code}

/-- Temporaries do not matter at the entry of a block. -/
theorem Agrees.atEntry (hagrees : Agrees st m) : Agrees st.atEntry m :=
  ⟨hagrees.memory, hagrees.sp, hagrees.registers, hagrees.vregs⟩

/-- A block that is there is run from its first instruction. -/
theorem runBlock_eq {address : BytecodeAddress} (hblock : r.block? address = some block)
    (st : State) :
    r.runBlock address st = st.atEntry.runCode block.code := by
  rw [runBlock, hblock]

/-! ## Ends of blocks -/

/-- The ends of blocks, when their operands are known: a jump leads to its target, and a branch to
one of its two. -/
theorem follow_jmp (target : Word) : st.follow (.jmp, [.word target]) = .entering target st := by
  rw [follow, word_word]

theorem follow_js {condition : Operand} {bit : Word} (yes no : Word)
    (hcondition : st.eval condition = some (.bit, bit)) :
    st.follow (.js, [condition, .word yes, .word no])
      = .entering (if bit = 0 then no else yes) st := by
  rw [follow, hcondition, word_word, word_word]

/-- Leaving gives what is in the result register, on which the two sides agree. -/
theorem follow_leaveCode (hagrees : Agrees st m) :
    ∃ result, st.follow leaveCode = .left result st ∧ ReturnsResult result m := by
  refine ⟨st.registers (.gpr returnRegister), ?_, ?_⟩
  · rw [leaveCode, follow, word_eq (eval_native returnRegister)]
  · rw [ReturnsResult, hagrees.registers]

/-- The code that leaves behind the native context, on both sides. -/
theorem runCode_closing (hexec : st.execAll code = some st') (hagrees : Agrees st' m) :
    ∃ result st'' m', st.runCode (code ++ closing) = .left result st'' ∧
      (StackOps.restoreRegisters : Action Simulator Unit).run m = .ok () m' ∧
      ReturnsResult result m' ∧ Agrees st'' m' ∧ m'.vregs = m.vregs := by
  obtain ⟨st'', m', hrestore, hsim, hagrees', hvregs, -⟩ :=
    exec_restoreCode SavedRegister.popOrder hagrees
  obtain ⟨result, hfollow, hresult⟩ := follow_leaveCode hagrees'
  refine ⟨result, st'', m', ?_, hsim, hresult, hagrees', hvregs⟩
  have hall : st.execAll (code ++ SavedRegister.popOrder.map restoreCode) = some st'' := by
    rw [execAll_append, hexec, Option.bind_some, hrestore]
  rw [closing, ← List.append_assoc, runCode_append hall rfl, hfollow]

/-! ## One handler -/

/-- **What the block of a handler does**: where the simulator goes on, so does the routine, and
where it ends the routine is left. The four cases of a block are proved one by one below. -/
def Steps (registers : Nat) (p : Program) (r : Routine) (position : Nat) (st : State)
    (m : Simulator) (start : State) : Prop :=
  ∃ progress m', (Simulator.step p position).run m = .ok progress m' ∧
    match progress with
    | .advance next _ => p.Reachable next ∧ ∃ st',
        r.runBlock (p.site (.handler position)) st = .entering (p.site (.handler next)) st' ∧
        Aligned registers st' m'
    | .exit => ∃ result st',
        (r.execution p start).LeadsOut (p.site (.handler position)) st result st' ∧
        ReturnsResult result m' ∧ Aligned registers st' m'

variable {start : State}

/-- A handler that goes on jumps to the block of the next. -/
theorem steps_next (hblock : r.block? (p.site (.handler position)) = some block)
    (hcode : block.code = code ++ [(.jmp, [.word (p.site (.handler (position + 1)))])])
    (hh : p[position]? = some h) (hbody : Body registers h position .next code)
    (hnext : position + 1 < p.length) (hreach : p.Reachable position)
    (hfits : registers ≤ UInt32.size) (haligned : Aligned registers st m) :
    Steps registers p r position st m start := by
  obtain ⟨st', outcome, m', hexec, hperform, hagrees', hsize', hsame⟩ :=
    hbody.exec hfits haligned.1.atEntry haligned.2
  cases hsame
  refine ⟨.advance (position + 1) false, m', ?_, ?_, st', ?_, hagrees', hsize'⟩
  · rw [Simulator.run_step hh hperform]
    exact Simulator.run_goTo_inside hnext false m'
  · exact hreach.step (.next hh hbody.opcode.1 hnext)
  · rw [runBlock_eq hblock, hcode, runCode_append hexec rfl, follow_jmp]

/-- The last handler leaves behind its own code, as the simulator does when it runs off the
program. -/
theorem steps_last (hblock : r.block? (p.site (.handler position)) = some block)
    (hcode : block.code = code ++ closing) (hh : p[position]? = some h)
    (hbody : Body registers h position .next code) (hlast : position + 1 = p.length)
    (hfits : registers ≤ UInt32.size) (haligned : Aligned registers st m) :
    Steps registers p r position st m start := by
  obtain ⟨st₁, outcome, m₁, hexec, hperform, hagrees₁, hsize₁, hsame⟩ :=
    hbody.exec hfits haligned.1.atEntry haligned.2
  cases hsame
  obtain ⟨result, st', m', hrun, hrestore, hresult, hagrees', hvregs⟩ :=
    runCode_closing hexec hagrees₁
  refine ⟨.exit, m', ?_, result, st', .inl ?_, hresult, hagrees', hvregs ▸ hsize₁⟩
  · rw [Simulator.run_step hh hperform]
    exact Simulator.run_goTo_outside (by omega) false hrestore
  · refine (runBlock_eq hblock st).trans ?_
    rw [hcode, hrun]

/-- A handler that leaves has restored the registers itself. -/
theorem steps_exit (hblock : r.block? (p.site (.handler position)) = some block)
    (hcode : block.code = code ++ [leaveCode]) (hh : p[position]? = some h)
    (hbody : Body registers h position .exit code) (hfits : registers ≤ UInt32.size)
    (haligned : Aligned registers st m) : Steps registers p r position st m start := by
  obtain ⟨st', outcome, m', hexec, hperform, hagrees', hsize', hsame⟩ :=
    hbody.exec hfits haligned.1.atEntry haligned.2
  cases hsame
  obtain ⟨result, hfollow, hresult⟩ := follow_leaveCode hagrees'
  refine ⟨.exit, m', ?_, result, st', .inl ?_, hresult, hagrees', hsize'⟩
  · rw [Simulator.run_step hh hperform]
    rfl
  · refine (runBlock_eq hblock st).trans ?_
    rw [hcode, runCode_append hexec rfl, hfollow]

/-- A branch goes to one of two blocks. If it falls through behind the last handler, the routine is
left by way of the shared block, which the simulator does not have. -/
theorem steps_branch {condition : Operand} {taken : Nat} (hfinished : Finished registers p r)
    (hseparate : p.Separate) (hblock : r.block? (p.site (.handler position)) = some block)
    (hcode : block.code = code ++ [(.js, [condition, .word (p.site (.handler taken)),
      .word (p.site (p.successor position))])])
    (hh : p[position]? = some h) (hbody : Body registers h position (.branch condition h.data) code)
    (htaken : p.positionAt? h.data = some taken) (hreach : p.Reachable position)
    (hfits : registers ≤ UInt32.size) (haligned : Aligned registers st m) :
    Steps registers p r position st m start := by
  obtain ⟨st', outcome, m₁, hexec, hperform, hagrees₁, hsize₁, hsame⟩ :=
    hbody.exec hfits haligned.1.atEntry haligned.2
  have hjnz := hbody.opcode.1
  cases hsame with
  | @branch _ bit _ hcondition =>
    -- Both sides look at the same bit.
    have hrun : r.runBlock (p.site (.handler position)) st = .entering
        (if bit = 0 then p.site (p.successor position) else p.site (.handler taken)) st' := by
      rw [runBlock_eq hblock, hcode, runCode_append hexec rfl, follow_js _ _ hcondition]
    by_cases hbit : bit = 0
    · rw [if_pos hbit] at hrun
      by_cases hnext : position + 1 < p.length
      · rw [Program.successor, if_pos hnext] at hrun
        refine ⟨.advance (position + 1) false, m₁, ?_, ?_, st', hrun, hagrees₁, hsize₁⟩
        · rw [Simulator.run_step hh hperform, Simulator.run_proceed_fallThrough hbit,
            Simulator.run_goTo_inside hnext]
        · exact hreach.step (.next hh (by simp [hjnz]) hnext)
      · have hexit : p.Comes .exit := by
          refine .exit hreach ?_
          rw [Program.nexts_of_branch hh hjnz htaken, Program.successor, if_neg hnext]
          simp
        rw [Program.successor, if_neg hnext] at hrun
        obtain ⟨closingBlock, hclosing, hcode', -⟩ := hfinished.exit hexit
        have hnothing : st'.atEntry.execAll [] = some st'.atEntry := rfl
        obtain ⟨result, st'', m', hleave, hrestore, hresult, hagrees', hvregs⟩ :=
          runCode_closing hnothing hagrees₁.atEntry
        have houtside : (r.execution p start).isHandler (p.site .exit) = false := by
          refine List.any_eq_false.2 fun h' hmem => ?_
          rw [beq_iff_eq]
          exact hseparate.exit h' hmem
        refine ⟨.exit, m', ?_, result, st'', .inr ⟨p.site .exit, st', houtside, hrun, ?_⟩, hresult,
          hagrees', hvregs ▸ hsize₁⟩
        · rw [Simulator.run_step hh hperform, Simulator.run_proceed_fallThrough hbit,
            Simulator.run_goTo_outside hnext false hrestore]
        · refine (runBlock_eq hclosing st').trans ?_
          rw [hcode']
          exact hleave
    · rw [if_neg hbit] at hrun
      have hlt := Program.lt_of_positionAt? htaken
      refine ⟨.advance taken true, m₁, ?_, hreach.step (.taken hh hjnz htaken), st', hrun, hagrees₁,
        hsize₁⟩
      rw [Simulator.run_step hh hperform,
        Simulator.run_proceed_taken hbit (Program.branchTarget_of_some htaken) hlt]

/-- **The block of a reachable handler does one step of the simulator**, whichever of the four cases
it is. What the simulator goes on with is reachable again. -/
theorem Backend.Finished.steps (hfinished : Finished registers p r) (hseparate : p.Separate)
    (hreach : p.Reachable position) (hfits : registers ≤ UInt32.size)
    (haligned : Aligned registers st m) :
    Steps registers p r position st m start := by
  obtain ⟨-, block, hblock, hlowered, -⟩ := hfinished.handler hreach
  generalize hcode : block.code = code at hlowered
  cases hlowered with
  | next hh hbody hnext => exact steps_next hblock hcode hh hbody hnext hreach hfits haligned
  | last hh hbody hlast => exact steps_last hblock hcode hh hbody hlast hfits haligned
  | exit hh hbody => exact steps_exit hblock hcode hh hbody hfits haligned
  | branch hh hbody htaken =>
    exact steps_branch hfinished hseparate hblock hcode hh hbody htaken hreach hfits haligned

/-- The address that the handler at a position is compiled to. -/
abbrev addressAt (p : Program) (position : Nat) : Option BytecodeAddress :=
  p[position]?.map (·.address.toUInt64)

/-- The positions of a program are those that have an address. -/
theorem addressAt_eq (hlt : position < p.length) :
    addressAt p position = some (p.site (.handler position)) := by
  have hh : p[position]? = some p[position] := List.getElem?_eq_getElem hlt
  rw [addressAt, Program.site_handler hh, hh]
  rfl

theorem of_addressAt {address : BytecodeAddress} (haddress : addressAt p position = some address) :
    position < p.length ∧ address = p.site (.handler position) := by
  obtain ⟨h, hh, rfl⟩ := Option.map_eq_some_iff.1 haddress
  exact ⟨(List.getElem?_eq_some_iff.1 hh).1, (Program.site_handler hh).symm⟩

/-- The start of a routine is that of the simulator. -/
theorem aligned_initial (s : Settings) (registers : SavedRegister → Word) :
    Aligned s.virtualRegisters (State.initial s registers)
      { Simulator.ofSettings s with registers } := by
  refine ⟨⟨rfl, rfl, rfl, ?_⟩, by simp [Simulator.ofSettings, Simulator.new]⟩
  intro i hi
  simp [State.initial, Simulator.ofSettings, Simulator.new]

/-- A finished routine in lock step with the simulator. Addresses are separate, so a block that is
entered tells the position. -/
theorem Backend.Finished.simulation {s : Settings} (hfinished : Finished s.virtualRegisters p r)
    (hp : 0 < p.length) (hseparate : p.Separate) (hfits : s.virtualRegisters ≤ UInt32.size)
    (registers : SavedRegister → Word) :
    Simulation (r.execution p (State.initial s registers)) p
      { Simulator.ofSettings s with registers }
      (addressAt p) p.Reachable (Aligned s.virtualRegisters) ReturnsResult where
  isHandler := by
    intro position address haddress
    obtain ⟨h, hh, rfl⟩ := Option.map_eq_some_iff.1 haddress
    exact List.any_eq_true.2 ⟨h, List.mem_of_getElem? hh, beq_self_eq_true _⟩
  injective := by
    intro position position' address haddress haddress'
    obtain ⟨hlt, rfl⟩ := of_addressAt haddress
    obtain ⟨hlt', hsite⟩ := of_addressAt haddress'
    have heq : Destination.handler position = .handler position' :=
      hseparate.injective hlt hlt' hsite
    cases heq
    rfl
  live_zero := .zero hp
  start := by
    refine ⟨p.site (.handler 0), _, addressAt_eq hp, aligned_initial s registers, .inl ?_⟩
    rw [execution, hfinished.entry]
  step := by
    intro position address st m hreach haddress haligned
    obtain ⟨-, rfl⟩ := of_addressAt haddress
    obtain ⟨progress, m', hstep, hprogress⟩ := hfinished.steps hseparate hreach hfits haligned
    refine ⟨progress, m', hstep, ?_⟩
    cases progress with
    | exit => exact hprogress
    | advance next taken =>
      obtain ⟨hnext, st', hrun, haligned'⟩ := hprogress
      exact ⟨hnext, p.site (.handler next), st', addressAt_eq hnext.lt_length, hrun, haligned'⟩

/-- A run that never gets stuck enters blocks only, and these are where compiled code comes to. A
block that is not there would have stopped the run. -/
theorem Backend.Finished.entered (hfinished : Finished registers p r)
    (hsafe : ∀ n, (r.execution p start).after n ≠ .stuck) {n : Nat} {address : BytecodeAddress}
    (hafter : (r.execution p start).after n = .entering address st) :
    ∃ d, p.Comes d ∧ p.site d = address := by
  refine hfinished.known address ?_
  cases hblock : r.block? address with
  | some block => rfl
  | none =>
    refine absurd ?_ (hsafe (n + 1))
    rw [BlockRun.after, hafter]
    change r.runBlock address st = .stuck
    rw [runBlock, hblock]

/-- A program without handlers is refused. -/
theorem Backend.run_nil (b : Backend) :
    (Backend.run []).run b = .error (.failed .emptyProgram) b := rfl

/-- **The routine compiler preserves meaning.** Run from its entry with any native registers, the
routine compiled for a separate program is in lock step with the simulator: the block at a handler's
address is entered exactly when the simulator comes to that handler, with the same memory, registers
and stack pointer, and the routine is left exactly when the simulator ends, with the word in the
result register. No other block is entered but the one behind the program. The compiler may have
been used before. Virtual registers are numbered in 32 bits. -/
theorem lockStep_of_run {s : Settings} {p : Program} {b b' : Backend}
    (hregisters : b.virtualRegisters = s.virtualRegisters)
    (hfits : s.virtualRegisters ≤ UInt32.size) (hseparate : p.Separate)
    (hrun : (Backend.run p).run b = .ok () b') (registers : SavedRegister → Word) :
    LockStep (b'.routine.execution p (State.initial s registers)) p
        { Simulator.ofSettings s with registers } (addressAt p) Agrees ReturnsResult ∧
      ∀ n address st, (b'.routine.execution p (State.initial s registers)).after n
          = .entering address st →
        (∃ position, addressAt p position = some address) ∨ address = p.exitAddress := by
  have hp : p ≠ [] := by
    rintro rfl
    rw [run_nil] at hrun
    cases hrun
  rcases run_cases hp hseparate b with ⟨b'', hrun', hfinished⟩ | ⟨_, _, _, _, _, hrun'⟩
  · rw [hrun] at hrun'
    cases hrun'
    rw [hregisters] at hfinished
    have hlock : LockStep _ p _ (addressAt p) Agrees ReturnsResult :=
      (hfinished.simulation (List.length_pos_iff.2 hp) hseparate hfits registers).lockStep
        fun haligned => haligned.1
    refine ⟨hlock, fun n address st hafter => ?_⟩
    obtain ⟨d, hcomes, rfl⟩ := hfinished.entered hlock.safe hafter
    cases hcomes with
    | @handler position hreach => exact .inl ⟨position, addressAt_eq hreach.lt_length⟩
    | exit => exact .inr rfl
  · rw [hrun] at hrun'
    cases hrun'

/-- Branches over an exit, and from behind it back to the start or off the program's end. -/
def winding : Program :=
  [{ opcode := .pushVr64, data := 3, address := 0x10, dispatch := 0, width := 5 },
    { opcode := .jnz, data := 0x22, address := 0x15, dispatch := 0, width := 12 },
    { opcode := .vmExit, data := 0, address := 0x21, dispatch := 0, width := 1 },
    { opcode := .jnz, data := 0x10, address := 0x22, dispatch := 0, width := 12 }]

theorem separate_winding : winding.Separate :=
  ⟨by decide, by decide⟩

/-- Here the exit is skipped by a branch, and the last branch may fall off the end of the
program. -/
theorem lockStep_of_run_winding :
    ∃ b : Backend, (Backend.run winding).run (Backend.new {}) = .ok () b ∧ winding.Separate ∧
      LockStep (b.routine.execution winding (State.initial {} fun _ => 7)) winding
        { Simulator.ofSettings {} with registers := fun _ => 7 } (addressAt winding) Agrees
        ReturnsResult := by
  obtain ⟨b, hrun⟩ : ∃ b, (Backend.run winding).run (Backend.new {}) = .ok () b :=
    Action.exists_of_succeeds (by decide +kernel)
  exact ⟨b, hrun, separate_winding,
    (lockStep_of_run rfl (by decide) separate_winding hrun fun _ => 7).1⟩

end CodeRecovery.Routine
