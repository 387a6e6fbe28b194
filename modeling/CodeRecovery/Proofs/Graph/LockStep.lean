/-
The graph compiler preserves meaning.

The compiled function, run from its entry block, and the simulator, run from the first handler, go
in lock step: `compiled_lockStep` is that for every program the compiler accepts, every start of the
native registers and any number of steps. The layout of the function says what the block of each
handler is made of, and the code of a handler does what the handler does; what is left here is how
blocks end.
-/
import CodeRecovery.Proofs.Graph.Layout
import CodeRecovery.Proofs.Graph.Refinement

set_option autoImplicit false

namespace CodeRecovery

/-- Memory is zero at first, wherever it is read. -/
theorem Memory.read_empty (w : Width) (address : Word) : Memory.empty.read w address = 0 := by
  have hbytes : ∀ (count : Nat) (a : Word), Memory.empty.readBytes count a = 0 := by
    intro count
    induction count with
    | zero => exact fun _ => rfl
    | succ count ih => intro a; simp [readBytes, ih]
  rw [read, hbytes]
  rfl

namespace Graph

/-! ## Running a block -/

/-- A block whose code has a meaning follows its end. -/
theorem Block.run_eq {block : Block} {st st' : State} {t : Terminator}
    (hexec : st.execAll block.instructions.toList = some st') (ht : block.terminator = some t) :
    block.run st = st'.follow t := by
  rw [run, hexec, ht]

/-- A block that is there is run. -/
theorem Function.runBlock_eq {f : Function} {id : BlockIndex} {block : Block}
    (hblock : f.blocks[id]? = some block) (st : State) : f.runBlock id st = block.run st := by
  rw [runBlock, hblock]

/-- A run's result is the word that the simulator leaves in the result register, as an integer of a
whole word. -/
def ReturnsResult (result : Option Value) (m : Simulator) : Prop :=
  result = some (.int .qword (m.registers (.gpr returnRegister)))

namespace Backend

open State

/-- Reading the result register and returning. It assigns one value and changes nothing else, so the
states are related as before. -/
theorem run_resultCode {st : State} {m : Simulator} (hrel : Related st m) {n : Nat} (hn : 3 ≤ n) :
    ∃ st' result, st.execAll (resultCode n) = some st' ∧
      st'.follow (.ret (some (.value n .i64))) = .left result st' ∧ Related st' m ∧
      ReturnsResult result m := by
  let v : Value := .int .qword (m.registers (.gpr returnRegister))
  have hexec : st.execAll (resultCode n) = some (st.assign n v) := by
    rw [resultCode, execAll, exec, hrel.registers]
    rfl
  have heval : (st.assign n v).eval (.value n .i64) = some v := eval_assign_int st n .qword _
  exact ⟨st.assign n v, some v, hexec, by rw [follow, heval], hrel.assign hn v, rfl⟩

/-- Where the stack pointer starts: at the end of the stack, which grows down from there. -/
def startVsp (s : Settings) : Word :=
  Simulator.stackBase + UInt64.ofNat s.stackSize

/-- The state behind the entry block. It has made four values, which are the start of the stack, the
cell of the stack pointer, the register file and the end of the stack, and has stored the last of
them in the cell. -/
def entered (s : Settings) (registers : SavedRegister → Word) : State where
  values id :=
    if id = 3 then some (.ptr ⟨.flat, startVsp s⟩)
    else if id = 2 then some (.ptr ⟨fileCell, 0⟩)
    else if id = 1 then some (.ptr ⟨slotCell, 0⟩)
    else if id = 0 then some (.ptr ⟨.flat, Simulator.stackBase⟩)
    else none
  memory region :=
    if region = slotCell then Memory.empty.write .qword 0 (startVsp s) else Memory.empty
  registers
  allocas := 3

/-- The entry block has no operands but its own values, so what it does is a matter of computing. -/
theorem run_entryBlock (s : Settings) (registers : SavedRegister → Word) :
    (entryBlock s).run (State.initial registers) = .entering 1 (entered s registers) :=
  rfl

/-- That state is related to the one that the simulator starts in. The bound on the register file
keeps the offsets of its registers apart; all registers are zero on both sides. -/
theorem related_entered (s : Settings) (registers : SavedRegister → Word)
    (hfits : s.virtualRegisters * 8 ≤ UInt64.size) :
    Related (entered s registers) { Simulator.ofSettings s with registers } where
  memory := rfl
  registers := rfl
  vsp := Memory.read_write_qword _ _ _
  vregs := by
    intro i hi
    have hzero : ((entered s registers).memory fileCell).read .qword (UInt64.ofNat (i * 8)) = 0 :=
      Memory.read_empty _ _
    rw [hzero]
    simp [Simulator.ofSettings, Simulator.new]
  slot := rfl
  file := rfl
  fits := by simpa [Simulator.ofSettings, Simulator.new] using hfits

/-- The code that leaves, on both sides: the native registers are restored from the stack, and one
of them is the result. -/
theorem run_epilogue {st : State} {m : Simulator} (hrel : Related st m) {n : Nat} (hn : 3 ≤ n) :
    ∃ st' m' result, st.execAll (epilogue slotOperand n ++ resultCode (n + 51)) = some st' ∧
      st'.follow (.ret (some (.value (n + 51) .i64))) = .left result st' ∧
      (StackOps.restoreRegisters : Action Simulator Unit).run m = .ok () m' ∧
      Related st' m' ∧ m'.vregs = m.vregs ∧ ReturnsResult result m' := by
  obtain ⟨st₁, m', hexec₁, hrestore, hrel₁, hvregs⟩ := exec_epilogue hrel hn
  obtain ⟨st', result, hexec, hfollow, hrel', hresult⟩ :=
    run_resultCode hrel₁ (n := n + 51) (by omega)
  exact ⟨st', m', result, execAll_append_some hexec₁ hexec, hfollow, hrestore, hrel', hvregs,
    hresult⟩

variable {s : Settings} {p : Program} {b : Backend} {registers : SavedRegister → Word}

/-- What the blocks of a finished function look like from outside. -/
abbrev Finished.execution (b : Backend) (registers : SavedRegister → Word) :
    BlockRun BlockIndex State (Option Value) :=
  b.cursor.function.execution b.handlers (State.initial registers)

/-- Agreement, for a machine with as many virtual registers as were set aside. The number does not
change, but the steps have to know it to tell which registers exist. -/
def Aligned (s : Settings) (st : State) (m : Simulator) : Prop :=
  Related st m ∧ m.vregs.size = s.virtualRegisters

/-! ## One handler -/

/-- **What the block of a handler does**: where the simulator goes on, so does the function, and
where it ends the function returns. The four cases of a block are proved one by one below. -/
def Steps (s : Settings) (p : Program) (b : Backend) (registers : SavedRegister → Word)
    (position : Nat) (st : State) (m : Simulator) : Prop :=
  ∃ progress m', (Simulator.step p position).run m = .ok progress m' ∧
    match progress with
    | .advance next _ => next < p.length ∧ ∃ st',
        b.cursor.function.runBlock (position + 1) st = .entering (next + 1) st' ∧ Aligned s st' m'
    | .exit => ∃ result st',
        (Finished.execution b registers).LeadsOut (position + 1) st result st' ∧
        ReturnsResult result m' ∧ Aligned s st' m'

variable {h : Handler} {position n n' : Nat} {code : List Instruction} {name : String} {st : State}
  {m : Simulator}

/-- A handler that goes on ends its block by a branch to the next. -/
theorem steps_next
    (hblock : b.cursor.function.blocks[position + 1]?
      = some ⟨name, code.toArray, some (.br (position + 2))⟩)
    (hh : p[position]? = some h) (hbody : Body s.virtualRegisters n h position .next code n')
    (hlt : position + 1 < p.length) (haligned : Aligned s st m) :
    Steps s p b registers position st m := by
  obtain ⟨st', outcome, m', hexec, hperform, hrel', hsize', hsame⟩ :=
    hbody.exec haligned.1 haligned.2
  cases hsame
  refine ⟨.advance (position + 1) false, m', ?_, hlt, st', ?_, hrel', hsize'⟩
  · rw [Simulator.run_step hh hperform]
    exact Simulator.run_goTo_inside hlt false m'
  · rw [Function.runBlock_eq hblock, Block.run_eq hexec rfl]
    rfl

/-- The last handler leaves behind its own code, as the simulator does when it runs off the
program. -/
theorem steps_last
    (hblock : b.cursor.function.blocks[position + 1]?
      = some ⟨name, (code ++ epilogue slotOperand n' ++ resultCode (n' + 51)).toArray,
        some (.ret (some (.value (n' + 51) .i64)))⟩)
    (hh : p[position]? = some h) (hbody : Body s.virtualRegisters n h position .next code n')
    (hn : 4 ≤ n) (hlast : position + 1 = p.length) (haligned : Aligned s st m) :
    Steps s p b registers position st m := by
  obtain ⟨st₁, outcome, m₁, hexec₁, hperform, hrel₁, hsize₁, hsame⟩ :=
    hbody.exec haligned.1 haligned.2
  cases hsame
  have hn' := Nat.le_trans hn hbody.le
  obtain ⟨st', m', result, hexec, hfollow, hrestore, hrel', hvregs, hresult⟩ :=
    run_epilogue hrel₁ (Nat.le_of_succ_le hn')
  refine ⟨.exit, m', ?_, result, st', .inl ?_, hresult, hrel', hvregs ▸ hsize₁⟩
  · rw [Simulator.run_step hh hperform]
    exact Simulator.run_goTo_outside (by omega) false hrestore
  · refine ((Function.runBlock_eq hblock st).trans (Block.run_eq ?_ rfl)).trans hfollow
    rw [List.append_assoc]
    exact execAll_append_some hexec₁ hexec

/-- A handler that leaves has restored the registers itself, so the block only returns. -/
theorem steps_exit
    (hblock : b.cursor.function.blocks[position + 1]?
      = some ⟨name, (code ++ resultCode n').toArray, some (.ret (some (.value n' .i64)))⟩)
    (hh : p[position]? = some h) (hbody : Body s.virtualRegisters n h position .exit code n')
    (hn : 4 ≤ n) (haligned : Aligned s st m) : Steps s p b registers position st m := by
  obtain ⟨st₁, outcome, m', hexec₁, hperform, hrel₁, hsize', hsame⟩ :=
    hbody.exec haligned.1 haligned.2
  cases hsame
  have hn' := Nat.le_trans hn hbody.le
  obtain ⟨st', result, hexec, hfollow, hrel', hresult⟩ :=
    run_resultCode hrel₁ (Nat.le_of_succ_le hn')
  refine ⟨.exit, m', ?_, result, st', .inl ?_, hresult, hrel', hsize'⟩
  · rw [Simulator.run_step hh hperform]
    rfl
  · refine ((Function.runBlock_eq hblock st).trans (Block.run_eq ?_ rfl)).trans hfollow
    exact execAll_append_some hexec₁ hexec

/-- A branch goes to one of two blocks. Behind a branch at the end of the program the function
returns through the shared block, which the simulator does not have. -/
theorem steps_branch {condition : Operand} {taken : Nat} (hfinished : Finished s p b)
    (hblock : b.cursor.function.blocks[position + 1]?
      = some ⟨name, code.toArray, some (.brIf condition (taken + 1) (position + 2))⟩)
    (hh : p[position]? = some h)
    (hbody : Body s.virtualRegisters n h position (.branch condition h.data) code n')
    (htaken : p.positionAt? h.data = some taken) (haligned : Aligned s st m) :
    Steps s p b registers position st m := by
  obtain ⟨st', outcome, m₁, hexec, hperform, hrel₁, hsize₁, hsame⟩ :=
    hbody.exec haligned.1 haligned.2
  cases hsame with
  | @branch _ bits _ heval =>
    -- Both sides look at the same bit; the block goes to the block of where the simulator goes.
    have hrun : b.cursor.function.runBlock (position + 1) st
        = .entering (if bits = 0 then position + 2 else taken + 1) st' := by
      rw [Function.runBlock_eq hblock, Block.run_eq hexec rfl, follow, integer, heval]
    by_cases hbits : bits = 0
    · rw [if_pos hbits] at hrun
      by_cases hlt : position + 1 < p.length
      · refine ⟨.advance (position + 1) false, m₁, ?_, hlt, st', hrun, hrel₁, hsize₁⟩
        rw [Simulator.run_step hh hperform, Simulator.run_proceed_fallThrough hbits,
          Simulator.run_goTo_inside hlt]
      · -- Behind the last handler the shared block restores the context, as the simulator does.
        obtain ⟨hposition, -⟩ := List.getElem?_eq_some_iff.1 hh
        have hlast : position + 1 = p.length := by omega
        have hends : p.endsInBranch = true := by
          rw [Program.endsInBranch_eq hh hlast]
          simpa using hbody.opcode.1
        obtain ⟨n, hexit, hn⟩ := hfinished.exit hends
        obtain ⟨st'', m', result, hexec', hfollow, hrestore, hrel', hvregs, hresult⟩ :=
          run_epilogue hrel₁ (Nat.le_of_succ_le hn)
        have hclosing : (Finished.execution b registers).isHandler (position + 2) = false := by
          have hcontains := hfinished.contains_handlers (position + 2)
          rw [decide_eq_false (by omega)] at hcontains
          exact hcontains
        refine ⟨.exit, m', ?_, result, st'', .inr ⟨position + 2, st', hclosing, hrun, ?_⟩, hresult,
          hrel', hvregs ▸ hsize₁⟩
        · rw [Simulator.run_step hh hperform, Simulator.run_proceed_fallThrough hbits,
            Simulator.run_goTo_outside hlt false hrestore]
        · rw [← hlast] at hexit
          exact ((Function.runBlock_eq hexit st').trans (Block.run_eq hexec' rfl)).trans hfollow
    · rw [if_neg hbits] at hrun
      have hlt := Program.lt_of_positionAt? htaken
      refine ⟨.advance taken true, m₁, ?_, hlt, st', hrun, hrel₁, hsize₁⟩
      rw [Simulator.run_step hh hperform,
        Simulator.run_proceed_taken hbits (Program.branchTarget_of_some htaken) hlt]

/-- **The block of a handler does one step of the simulator**, whichever of the four cases it is. -/
theorem Finished.steps (hfinished : Finished s p b) (registers : SavedRegister → Word)
    (hposition : position < p.length) (haligned : Aligned s st m) :
    Steps s p b registers position st m := by
  obtain ⟨block, n₀, n₁, hblock, hn₀, hlowered⟩ := hfinished.lowered hposition
  cases hlowered with
  | next hh hbody hlt => exact steps_next hblock hh hbody hlt haligned
  | last hh hbody hlast => exact steps_last hblock hh hbody hn₀ hlast haligned
  | exit hh hbody => exact steps_exit hblock hh hbody hn₀ haligned
  | branch hh hbody htaken =>
    obtain ⟨-, rfl⟩ := hbody.opcode
    exact steps_branch hfinished hblock hh hbody htaken haligned

/-- The finished function in lock step with the simulator. The entry block comes in front of the
handlers and belongs to none of them. -/
theorem Finished.simulation (hfinished : Finished s p b) (hp : p ≠ [])
    (hfits : s.virtualRegisters * 8 ≤ UInt64.size) (registers : SavedRegister → Word) :
    Simulation (Finished.execution b registers) p { Simulator.ofSettings s with registers }
      (b.handlers[·]?) (· < p.length) (Aligned s) ReturnsResult where
  isHandler := by
    intro position id hid
    rw [hfinished.handler?] at hid
    obtain ⟨hlt, hid⟩ := Option.ite_none_right_eq_some.1 hid
    cases hid
    exact (hfinished.contains_handlers _).trans (decide_eq_true (by omega))
  injective := by
    intro position position' id hid hid'
    rw [hfinished.handler?] at hid hid'
    obtain ⟨-, hid⟩ := Option.ite_none_right_eq_some.1 hid
    obtain ⟨-, hid'⟩ := Option.ite_none_right_eq_some.1 hid'
    cases hid
    cases hid'
    rfl
  live_zero := List.length_pos_iff.2 hp
  start := by
    refine ⟨1, entered s registers, ?_,
      ⟨related_entered s registers hfits, by simp [Simulator.ofSettings, Simulator.new]⟩,
      .inr ⟨0, _, ?_, rfl, ?_⟩⟩
    · rw [hfinished.handler?, if_pos (List.length_pos_iff.2 hp)]
    · exact (hfinished.contains_handlers 0).trans (decide_eq_false (by omega))
    · exact (Function.runBlock_eq hfinished.entry _).trans (run_entryBlock s registers)
  step := by
    intro position id st m hposition hid haligned
    rw [hfinished.handler?, if_pos hposition] at hid
    cases hid
    obtain ⟨progress, m', hstep, hprogress⟩ := hfinished.steps registers hposition haligned
    refine ⟨progress, m', hstep, ?_⟩
    cases progress with
    | exit => exact hprogress
    | advance next taken =>
      obtain ⟨hnext, st', hrun, haligned'⟩ := hprogress
      exact ⟨hnext, next + 1, st', by rw [hfinished.handler?, if_pos hnext], hrun, haligned'⟩

end Backend

/-- **The graph compiler preserves meaning.** Run from its entry block with any native registers,
the function compiled for a program is in lock step with the simulator: the block of a handler is
entered exactly when the simulator comes to that handler, with the same memory, registers and stack
pointer, and the function returns exactly when the simulator ends, with the word in the result
register. The register file has to fit the address space; a machine with a larger one does not
exist. -/
theorem compiled_lockStep {s : Settings} {p : Program} {b : Backend}
    (hfits : s.virtualRegisters * 8 ≤ UInt64.size)
    (hrun : (Backend.run p).run (Backend.new s) = .ok () b) (registers : SavedRegister → Word) :
    LockStep (b.cursor.function.execution b.handlers (State.initial registers)) p
      { Simulator.ofSettings s with registers } (b.handlers[·]?) Agrees ReturnsResult := by
  obtain ⟨hp, hfinished⟩ := Backend.finished_of_run hrun
  exact (hfinished.simulation hp hfits registers).lockStep fun haligned => haligned.1.toAgrees

/-- Pushes a virtual register again and again until it is zero, and then runs off the program's
end. -/
def polling : Program :=
  [{ opcode := .pushVr64, data := 3, address := 0x10, dispatch := 0, width := 5 },
    { opcode := .jnz, data := 0x10, address := 0x15, dispatch := 0, width := 12 }]

/-- The native registers start with a value of their own, so that the result is not zero by
chance. -/
theorem compiled_lockStep_polling :
    ∃ b : Backend, (Backend.run polling).run (Backend.new {}) = .ok () b ∧
      LockStep (b.cursor.function.execution b.handlers (State.initial fun _ => 7)) polling
        { Simulator.ofSettings {} with registers := fun _ => 7 } (b.handlers[·]?) Agrees
        ReturnsResult := by
  obtain ⟨b, hrun⟩ : ∃ b, (Backend.run polling).run (Backend.new {}) = .ok () b :=
    Action.exists_of_succeeds (by decide +kernel)
  exact ⟨b, hrun, compiled_lockStep (by decide) hrun fun _ => 7⟩

end Graph

end CodeRecovery
