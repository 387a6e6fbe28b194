/-
Every block of a routine is well formed.

`Block.WellFormed` is what a reader of a block may count on: a temporary is written before it is
read, it has one size throughout, the operands of an instruction are of sizes that fit, and a
virtual register is one that there is. All of this is true of a block at any time, not only when it
is complete, so the compiler keeps it with everything it does, and nothing need be known of the
order in which blocks are written or of the addresses that handlers have. Only one fact beside it is
carried along: a block that counts as not written is empty, since the numbers of temporaries start
over with each handler.
-/
import CodeRecovery.Proofs.Routine.Scoping
import CodeRecovery.Proofs.Routine.Sealing

set_option autoImplicit false

namespace CodeRecovery.Routine

/-- What a reader of a block may count on. Operands keep to the sizes that their operations ask for,
and virtual registers to the file. -/
structure Block.WellFormed (registers : Nat) (block : Block) : Prop where
  /-- A temporary that is read was written further up, at the same size. -/
  defined : ∀ (place : Nat) (c : Code), block.code[place]? = some c →
    ∀ index bits, Operand.register (.temporary index) bits ∈ c.reads →
      ∃ earlier < place, ∃ c' : Code, block.code[earlier]? = some c' ∧
        Operand.register (.temporary index) bits ∈ c'.writes
  sized : ∀ c ∈ block.code, ∀ c' ∈ block.code, ∀ index bits bits',
    Operand.register (.temporary index) bits ∈ c.2 →
    Operand.register (.temporary index) bits' ∈ c'.2 → bits = bits'
  fits : ∀ c ∈ block.code, c.Fits
  file : ∀ c ∈ block.code, ∀ index bits, Operand.register (.virtual index) bits ∈ c.2 →
    index.toNat < registers

/-! ## Tame code -/

/-- Sound code whose temporaries have one size each. This is kept when code is added, which is why
it is used in place of `Block.WellFormed`. -/
structure Tame (registers : Nat) (code : List Code) : Prop where
  sound : Sound registers [] code
  sized : ∀ index bits bits', (index, bits) ∈ scopeOf code → (index, bits') ∈ scopeOf code →
    bits = bits'

section

variable {registers : Nat} {code code' : List Code} {c : Code} {index bits : UInt32}

/-- The temporaries that an instruction brings into scope are those it writes. -/
theorem Code.mem_defines :
    (index, bits) ∈ c.defines ↔ Operand.register (.temporary index) bits ∈ c.writes := by
  unfold Code.defines
  rw [List.mem_filterMap]
  constructor
  · rintro ⟨o, ho, htemporary⟩
    unfold Operand.temporary? at htemporary
    split at htemporary
    · cases htemporary
      exact ho
    · cases htemporary
  · intro ho
    exact ⟨_, ho, rfl⟩

/-- What an instruction writes is in scope behind the code. -/
theorem mem_scopeOf_of_defines (hc : c ∈ code) (hdefines : (index, bits) ∈ c.defines) :
    (index, bits) ∈ scopeOf code :=
  List.mem_flatMap.2 ⟨c, hc, hdefines⟩

/-- What is in scope at a place was written in front of it. -/
theorem exists_of_mem_scopeOf_take {place : Nat} (h : (index, bits) ∈ scopeOf (code.take place)) :
    ∃ earlier < place, ∃ c', code[earlier]? = some c' ∧ (index, bits) ∈ c'.defines := by
  obtain ⟨c', hc', hdefines⟩ := List.mem_flatMap.1 h
  obtain ⟨earlier, hearlier⟩ := List.mem_iff_getElem?.1 hc'
  rw [List.getElem?_take] at hearlier
  split at hearlier
  · exact ⟨earlier, ‹_›, c', hearlier, hdefines⟩
  · cases hearlier

/-- Every temporary that sound code names is written by it: it is written where it is named, or read
and therefore written in front. -/
theorem Sound.mem_scopeOf (h : Sound registers [] code) (hc : c ∈ code)
    (ho : Operand.register (.temporary index) bits ∈ c.2) : (index, bits) ∈ scopeOf code := by
  rcases Code.mem_reads_or_writes ho with hreads | hwrites
  · obtain ⟨place, hplace⟩ := List.mem_iff_getElem?.1 hc
    have hscope := ((h.at hplace).reads _ hreads).temporary (index, bits) rfl
    obtain ⟨earlier, -, c', hc', hdefines⟩ := exists_of_mem_scopeOf_take hscope
    exact mem_scopeOf_of_defines (List.mem_of_getElem? hc') hdefines
  · exact mem_scopeOf_of_defines hc (Code.mem_defines.2 hwrites)

/-- Tame code is what a reader may count on. -/
theorem Tame.wellFormed {block : Block} (h : Tame registers block.code) :
    block.WellFormed registers where
  defined place c hc index bits hreads := by
    have hscope := ((h.sound.at hc).reads _ hreads).temporary (index, bits) rfl
    obtain ⟨earlier, hlt, c', hc', hdefines⟩ := exists_of_mem_scopeOf_take hscope
    exact ⟨earlier, hlt, c', hc', Code.mem_defines.1 hdefines⟩
  sized c hc c' hc' index bits bits' ho ho' :=
    h.sized index bits bits' (h.sound.mem_scopeOf hc ho) (h.sound.mem_scopeOf hc' ho')
  fits c hc := by
    obtain ⟨place, hplace⟩ := List.mem_iff_getElem?.1 hc
    exact (h.sound.at hplace).fits
  file c hc index bits ho := by
    obtain ⟨place, hplace⟩ := List.mem_iff_getElem?.1 hc
    have hsound := h.sound.at hplace
    rcases Code.mem_reads_or_writes ho with hreads | hwrites
    · exact (hsound.reads _ hreads).vreg index rfl
    · exact hsound.writes _ hwrites index rfl

/-- Empty code is tame. -/
theorem tame_nil : Tame registers [] where
  sound := trivial
  sized _ _ _ h := nomatch h

/-- More code, without temporaries of its own. What ends a block is of this kind. -/
theorem Tame.append (h : Tame registers code) (hsound : Sound registers (scopeOf code) code')
    (hscope : scopeOf code' = []) : Tame registers (code ++ code') where
  sound := h.sound.append hsound
  sized := by
    rw [scopeOf_append, hscope, List.append_nil]
    exact h.sized

end

namespace Backend

variable {registers n : Nat} {p : Program} {b b₁ b' : Backend} {code : List Code}
  {count position : Nat} {d : Destination}

/-- The code of a handler is tame, since the list of sizes has one size for each number. -/
theorem Draft.tame {sizes : List UInt32} {block : Block} (h : Draft registers n sizes block) :
    Tame registers block.code where
  sound := h.sound
  sized index bits bits' hbits hbits' := by
    have hsize : some bits = some bits' := (h.sized _ hbits).symm.trans (h.sized _ hbits')
    exact Option.some.inj hsize

/-! ## What ends a block -/

section

variable {scope : Scope}

/-- What ends a block reads a bit at most, which is in scope. -/
theorem sound_jmp {target : Word} : Code.Sound registers scope (.jmp, [.word target]) where
  fits := rfl
  reads := List.forall_mem_singleton.2 (named_anywhere rfl rfl)
  writes := List.forall_mem_nil _

theorem sound_js {condition : Operand} {yes no : Word}
    (hcondition : condition.Known registers scope .bit) :
    Code.Sound registers scope (.js, [condition, .word yes, .word no]) where
  fits := ⟨hcondition.bits, rfl, rfl⟩
  reads := List.forall_mem_cons.2 ⟨hcondition.toNamed,
    List.forall_mem_cons.2
      ⟨named_anywhere rfl rfl, List.forall_mem_singleton.2 (named_anywhere rfl rfl)⟩⟩
  writes := List.forall_mem_nil _

theorem sound_leaveCode : leaveCode.Sound registers scope where
  fits := rfl
  reads := List.forall_mem_singleton.2 (named_anywhere rfl rfl)
  writes := List.forall_mem_nil _

/-- The code behind the program uses no temporaries, so it is sound anywhere. -/
theorem sound_closing : Sound registers scope closing :=
  (sound_map (fun r _ => sound_restoreCode r) _ _).append (sound_singleton sound_leaveCode)

theorem scopeOf_closing : scopeOf closing = [] := by
  rw [closing, scopeOf_append, scopeOf_map defines_restoreCode]
  rfl

end

/-! ## What the compiler keeps -/

/-- Every block is tame, and empty as long as it counts as not written. The second is what allows a
handler to number its temporaries from zero. -/
structure Proper (registers : Nat) (b : Backend) : Prop where
  virtualRegisters : b.virtualRegisters = registers
  tame : ∀ a block, b.routine.block? a = some block → Tame registers block.code
  blank : ∀ a block, b.routine.block? a = some block → b.written.contains a = false →
    block.Holds none

namespace Proper

/-- The current block is tame, also if it is not there yet. -/
theorem block (h : Proper registers b) : Tame registers b.block.code := by
  unfold Backend.block
  cases hblock : b.routine.block? b.current with
  | none => exact tame_nil
  | some block => exact h.tame b.current block hblock

/-- More code in the current block, which counts as written. -/
theorem emits (h : Proper registers b) (hwritten : b.written.contains b.current = true)
    (hemits : b.Emits b' code count) (htame : Tame registers b'.block.code) :
    Proper registers b' where
  virtualRegisters := hemits.virtualRegisters.trans h.virtualRegisters
  tame a block hblock := by
    rcases hemits.block?_cases hblock with ⟨-, rfl⟩ | ⟨-, hold⟩
    · exact htame
    · exact h.tame a block hold
  blank a block hblock hnew := by
    rw [hemits.written] at hnew
    rcases hemits.block?_cases hblock with ⟨rfl, -⟩ | ⟨-, hold⟩
    · rw [hwritten] at hnew
      cases hnew
    · exact h.blank a block hold hnew

theorem append (h : Proper registers b) (hwritten : b.written.contains b.current = true)
    (hemits : b.Emits b' code count) (hsound : Sound registers (scopeOf b.block.code) code)
    (hscope : scopeOf code = []) : Proper registers b' := by
  apply h.emits hwritten hemits
  rw [hemits.block.code]
  exact h.block.append hsound hscope

/-- A link changes no code, and makes empty blocks only. -/
theorem addEdge (h : Proper registers b) (source target : BytecodeAddress) :
    Proper registers { b with routine := b.routine.addEdge source target } := by
  have hcases : ∀ {a block'}, (b.routine.addEdge source target).block? a = some block' →
      ∃ block : Block, block' = block.linked source target a ∧
        (b.routine.block? a = some block ∨ block = { address := a }) := by
    intro a block' hblock'
    obtain ⟨block, hblock, rfl⟩ := exists_of_block?_addEdge hblock'
    exact ⟨block, rfl, (block?_create_cases hblock).imp_right And.right⟩
  refine ⟨h.virtualRegisters, fun a block' hblock' => ?_, fun a block' hblock' hnew => ?_⟩
  · obtain ⟨block, rfl, hold | rfl⟩ := hcases hblock'
    · rw [Block.code_linked]
      exact h.tame a block hold
    · rw [Block.code_linked]
      exact tame_nil
  · obtain ⟨block, rfl, hold | rfl⟩ := hcases hblock'
    · exact Block.holds_linked _ _ _ _ (h.blank a block hold hnew)
    · exact Block.holds_linked _ _ _ _ ⟨rfl, rfl⟩

/-- Turning to another block, which counts as written from now on. -/
theorem turn (h : Proper registers b) {a : BytecodeAddress} (hroutine : b'.routine = b.routine)
    (hregisters : b'.virtualRegisters = b.virtualRegisters)
    (hwritten : b'.written = b.written.insert a) : Proper registers b' := by
  refine ⟨hregisters.trans h.virtualRegisters, fun x block hblock => ?_,
    fun x block hblock hnew => ?_⟩
  · rw [hroutine] at hblock
    exact h.tame x block hblock
  · rw [hroutine] at hblock
    rw [hwritten, Std.TreeSet.contains_insert, Bool.or_eq_false_iff] at hnew
    exact h.blank x block hblock hnew.2

/-- Leading on to a destination. The code behind the program is written to its block on the way, and
that block was empty. -/
theorem leadTo (h : Proper registers b) (hd : p.Valid d) (hrun : (leadTo p d).run b = .ok () b') :
    Proper registers b' := by
  by_cases hfirst : d = .exit ∧ b.written.contains (p.site .exit) = false
  · obtain ⟨rfl, hnew⟩ := hfirst
    obtain ⟨b₁, hrun', hemits⟩ := run_leadTo_exit b hnew
    rw [hrun'] at hrun
    cases hrun
    have hturned : Proper registers { b with
        routine := b.routine.addEdge b.current (p.site .exit)
        written := b.written.insert (p.site .exit)
        current := p.site .exit } :=
      (h.addEdge b.current (p.site .exit)).turn rfl rfl rfl
    have hclosed :=
      hturned.append Std.TreeSet.contains_insert_self hemits sound_closing scopeOf_closing
    exact ⟨hclosed.virtualRegisters, hclosed.tame, hclosed.blank⟩
  · have hlink := run_leadTo_link b hd fun heq => by
      rw [← Bool.not_eq_false]
      exact fun hnew => hfirst ⟨heq, hnew⟩
    rw [hlink] at hrun
    cases hrun
    exact h.addEdge b.current (p.site d)

theorem jump (h : Proper registers b) (hwritten : b.written.contains b.current = true)
    (hd : p.Valid d) (hrun : (FlowOps.jump p d : Action Backend Unit).run b = .ok () b') :
    Proper registers b' := by
  obtain ⟨b₁, hemit, hemits⟩ := Writes.emit b .jmp [.word (p.site d)]
  have hlead : (FlowOps.jump p d : Action Backend Unit).run b = (Backend.leadTo p d).run b₁ :=
    (Action.run_bind_of_ok (run_addressFor b hd)).trans (Action.run_bind_of_ok hemit)
  rw [hlead] at hrun
  exact (h.append hwritten hemits (sound_singleton sound_jmp) rfl).leadTo hd hrun

/-- Branching by a bit in scope. -/
theorem branch (h : Proper registers b) (hwritten : b.written.contains b.current = true)
    {condition : Operand} (hcondition : condition.Known registers (scopeOf b.block.code) .bit)
    {taken : Nat} (htaken : p.Valid (.handler taken)) (hd : p.Valid d)
    (hrun : (FlowOps.branch p condition taken d : Action Backend Unit).run b = .ok () b') :
    Proper registers b' := by
  obtain ⟨b₁, hemit, hemits⟩ :=
    Writes.emit b .js [condition, .word (p.site (.handler taken)), .word (p.site d)]
  have hleads : (FlowOps.branch p condition taken d : Action Backend Unit).run b
      = (do Backend.leadTo p (.handler taken); Backend.leadTo p d).run b₁ := by
    refine (Action.run_bind_of_ok (run_addressFor b htaken)).trans ?_
    rw [Action.run_bind_of_ok (run_addressFor b hd), Action.run_bind_of_ok hemit]
  rw [hleads] at hrun
  obtain ⟨u, b₂, hfirst, hsecond⟩ := Action.exists_of_run_bind_ok hrun
  have hended := h.append hwritten hemits (sound_singleton (sound_js hcondition)) rfl
  exact (hended.leadTo htaken hfirst).leadTo hd hsecond

theorem ret (h : Proper registers b) (hwritten : b.written.contains b.current = true)
    (hrun : (FlowOps.ret : Action Backend Unit).run b = .ok () b') : Proper registers b' := by
  obtain ⟨b₁, hemit, hemits⟩ := Writes.emit b .vexit [.native returnRegister]
  have hleft := h.append hwritten hemits (sound_singleton sound_leaveCode) rfl
  have hrun' : (FlowOps.ret : Action Backend Unit).run b = .ok () { b₁ with afterExit := true } :=
    Action.run_bind_of_ok hemit
  rw [hrun'] at hrun
  cases hrun
  exact ⟨hleft.virtualRegisters, hleft.tame, hleft.blank⟩

/-- Whatever a handler comes to. Its block was tame before, and nothing that follows uses a
temporary but the condition of a branch. -/
theorem conclude {outcome : Outcome Operand} (h : Proper registers b)
    (hwritten : b.written.contains b.current = true)
    (hcondition : ∀ condition target, outcome = .branch condition target →
      condition.Known registers (scopeOf b.block.code) .bit)
    (hrun : (conclude p position outcome).run b = .ok () b') : Proper registers b' := by
  have hvalid : p.Valid (p.successor position) := by
    rw [Program.successor]
    split
    · assumption
    · trivial
  cases outcome with
  | exit => exact h.ret hwritten hrun
  | next =>
    rw [Backend.conclude, Program.fallThrough] at hrun
    cases hnext : p.successor position with
    | handler next =>
      rw [hnext] at hvalid hrun
      exact h.jump hwritten hvalid hrun
    | exit =>
      rw [hnext] at hrun
      obtain ⟨b₁, hrestore, hemits⟩ := writes_restoreRegisters b
      rw [Action.run_bind_of_ok hrestore] at hrun
      have hrestored := h.append hwritten hemits (sound_map (fun r _ => sound_restoreCode r) _ _)
        (scopeOf_map defines_restoreCode _)
      exact hrestored.ret (by rwa [hemits.written, hemits.current]) hrun
  | branch condition target =>
    obtain ⟨taken, b₁, htarget, hbranch⟩ := Action.exists_of_run_bind_ok hrun
    cases hat : p.positionAt? target with
    | none =>
      rw [Program.branchTarget_of_none hat] at htarget
      cases htarget
    | some found =>
      rw [Program.branchTarget_of_some hat] at htarget
      cases htarget
      exact h.branch hwritten (hcondition condition target rfl)
        (Program.lt_of_positionAt? hat) hvalid hbranch

/-- **Compiling a handler keeps every block tame.** A handler is compiled into an empty block or not
at all. -/
theorem compileAt (h : Proper registers b) (hlt : position < p.length)
    (hrun : (p.compileAt position : Action Backend Unit).run b = .ok () b') :
    Proper registers b' := by
  have hh : p[position]? = some p[position] := List.getElem?_eq_getElem hlt
  generalize p[position] = handler at hh
  cases henter : (FlowOps.enter p position : Action Backend Visit).run b with
  | error cause b₁ =>
    rw [Program.compileAt, Action.run_bind_of_ok (run_fetch b hh), Action.run_bind_of_error henter]
      at hrun
    cases hrun
  | ok visit b₁ =>
    rcases enter_cases hh henter with ⟨rfl, rfl, -⟩ | ⟨rfl, rfl, hhas, hnew⟩
    · rw [run_compileAt_skip hh henter] at hrun
      cases hrun
      exact ⟨h.virtualRegisters, h.tame, h.blank⟩
    · rw [run_compileAt_lower hh henter] at hrun
      obtain ⟨outcome, b₂, hperform, hconclude⟩ := Action.exists_of_run_bind_ok hrun
      obtain ⟨block, hblock⟩ := Option.isSome_iff_exists.1 hhas
      obtain ⟨hcode, htemporary⟩ := h.blank _ block hblock hnew
      -- The handler starts in an empty block, so its temporaries are numbered from zero.
      have hcurrent : (b.entered handler).block = block := by
        have hat : (b.entered handler).routine.block? (b.entered handler).current = some block :=
          hblock
        rw [Backend.block, hat]
        rfl
      have hwritten : (b.entered handler).written.contains (b.entered handler).current = true :=
        Std.TreeSet.contains_insert_self
      have hentered : Proper registers (b.entered handler) := h.turn rfl rfl rfl
      obtain ⟨code, count, hemits, -⟩ := plain_of_perform hperform
      obtain ⟨⟨sizes, hdraft⟩, hcondition⟩ :=
        draft_of_perform (hcurrent ▸ hcode) (hcurrent ▸ htemporary) hperform
      rw [hentered.virtualRegisters] at hdraft hcondition
      refine (hentered.emits hwritten hemits hdraft.tame).conclude ?_ hcondition hconclude
      rwa [hemits.written, hemits.current]

end Proper

/-! ## Whole programs -/

/-- What compiling each handler keeps, the loop of pending handlers keeps. By the fuel. -/
theorem invariant_of_drain {I : Backend → Prop} {fuel : Nat}
    (hkeeps : ∀ position < p.length, ∀ b b', I b →
      (p.compileAt position : Action Backend Unit).run b = .ok () b' → I b')
    (hI : I b) (hrun : (p.drain fuel : Action Backend Unit).run b = .ok () b') : I b' := by
  induction fuel generalizing b with
  | zero =>
    cases hrun
    exact hI
  | succ fuel ih =>
    cases hpending : pending p b with
    | none =>
      rw [run_drain_none hpending] at hrun
      cases hrun
      exact hI
    | some position =>
      rw [run_drain_some hpending] at hrun
      obtain ⟨u, b₁, hfirst, hrest⟩ := Action.exists_of_run_bind_ok hrun
      exact ih (hkeeps position (pending_eq_some hpending).1 b b₁ hI hfirst) hrest

/-- **What compiling each handler keeps, compiling keeps.** It has to hold of a compiler that has
just started. -/
theorem invariant_of_compile {I : Backend → Prop} (hp : p ≠ [])
    (hkeeps : ∀ position < p.length, ∀ b b', I b →
      (p.compileAt position : Action Backend Unit).run b = .ok () b' → I b')
    (hI : I (b.started p)) (hrun : (p.compile : Action Backend Unit).run b = .ok () b') : I b' := by
  rw [run_compile_eq hp, Program.firstPass] at hrun
  obtain ⟨u, b₁, hfirst, hdrain⟩ := Action.exists_of_run_bind_ok hrun
  rw [Action.run_bind_of_ok (run_start (List.length_pos_iff.2 hp) b)] at hfirst
  refine invariant_of_drain hkeeps ?_ hdrain
  exact Action.invariant_of_forM (fun q hq => hkeeps q (List.mem_range.1 hq)) hI hfirst

/-- At first the only block is empty. -/
theorem proper_started (p : Program) (b : Backend) : Proper b.virtualRegisters (b.started p) := by
  have hempty : ∀ {a block}, (b.started p).routine.block? a = some block →
      block = { address := p.site (.handler 0) } := by
    intro a block hblock
    rw [started, block?_new] at hblock
    split at hblock
    · exact (Option.some.inj hblock).symm
    · cases hblock
  refine ⟨rfl, fun a block hblock => ?_, fun a block hblock _ => ?_⟩
  · rw [hempty hblock]
    exact tame_nil
  · rw [hempty hblock]
    exact ⟨rfl, rfl⟩

/-- **Routine code is well formed block by block**, whatever the program is. Handlers may share
addresses, and the compiler may have been used before. -/
theorem wellFormed_of_run {p : Program} (hp : p ≠ []) {b b' : Backend}
    (hrun : (run p).run b = .ok () b') (a : BytecodeAddress) (block : Block)
    (hblock : b'.routine.block? a = some block) : block.WellFormed b.virtualRegisters := by
  have hempty : ¬ p.isEmpty = true := by simpa using hp
  rw [run, if_neg hempty] at hrun
  obtain ⟨u, b₁, hcompile, hreport⟩ := Action.exists_of_run_bind_ok hrun
  have hproper : Proper b.virtualRegisters b₁ := by
    refine invariant_of_compile hp (fun position hlt b b' hb => ?_) (proper_started p b) hcompile
    exact hb.compileAt hlt
  cases hreport
  exact (hproper.tame a block hblock).wellFormed

/-- Subtracts from the last virtual register; both ways of the branch lead on to the next handler.
The handler that subtracts shares its address with one behind the exit. -/
def subtracting : Program :=
  [.entry 0x10 0,
    { opcode := .pushVr32, data := 31, address := 0x14, dispatch := 0, width := 12 },
    { opcode := .push32, data := 5, address := 0x20, dispatch := 0, width := 8 },
    { opcode := .sub32, data := 0, address := 0x28, dispatch := 0, width := 4 },
    { opcode := .jnz, data := 0x34, address := 0x2c, dispatch := 0, width := 8 },
    { opcode := .popVr32, data := 31, address := 0x34, dispatch := 0, width := 12 },
    { opcode := .vmExit, data := 0, address := 0x40, dispatch := 0, width := 4 },
    { opcode := .load64, data := 0, address := 0x28, dispatch := 0, width := 4 }]

/-- The block that two handlers share holds the code of the first one only. -/
theorem wellFormed_of_run_subtracting :
    ∃ b' block, subtracting ≠ [] ∧ (run subtracting).run (.new {}) = .ok () b' ∧
      b'.routine.block? 0x28 = some block ∧ block.code.length = 10 ∧ block.WellFormed 32 := by
  have hne : subtracting ≠ [] := by decide
  obtain ⟨b', hrun⟩ : ∃ b', (run subtracting).run (.new {}) = .ok () b' :=
    Action.exists_of_succeeds (by decide +kernel)
  have hblock : ((Action.finalState ((run subtracting).run (.new {}))).routine.block? 0x28).map
      (·.code.length) = some 10 := by decide +kernel
  rw [hrun] at hblock
  obtain ⟨block, hblock, hlength⟩ := Option.map_eq_some_iff.1 hblock
  exact ⟨b', block, hne, hrun, hblock, hlength, wellFormed_of_run hne hrun 0x28 block hblock⟩

end Backend

end CodeRecovery.Routine
