/-
Which handlers the routine compiler comes to.

The compiler passes over the handlers once, skipping those behind an exit, and then takes up skipped
ones that a branch has reached. Nothing is compiled before something leads to it, so every block
belongs to a reachable handler or lies behind the program; and at the end no block is left empty, so
every reachable handler has its block. On the way, a handler that is neither compiled nor reached is
always one behind an exit: the one before it would have made its block.

`run_cases` is the outcome: a finished routine, or the flaw of a reachable handler.
-/
import CodeRecovery.Proofs.Routine.Layout

set_option autoImplicit false

namespace CodeRecovery.Routine

open Backend

/-! ## One handler -/

/-- The code of the handler at a position, in the four ways in which a handler ends. The last
handler of a program leaves in its own block; only a branch shares code for that. -/
inductive Lowered (registers : Nat) (p : Program) (position : Nat) : List Code → Prop
  | next {h : Handler} {code : List Code} : p[position]? = some h →
      Body registers h position .next code → position + 1 < p.length →
      Lowered registers p position (code ++ [(.jmp, [.word (p.site (.handler (position + 1)))])])
  | last {h : Handler} {code : List Code} : p[position]? = some h →
      Body registers h position .next code → position + 1 = p.length →
      Lowered registers p position (code ++ closing)
  | exit {h : Handler} {code : List Code} : p[position]? = some h →
      Body registers h position .exit code → Lowered registers p position (code ++ [leaveCode])
  | branch {h : Handler} {code : List Code} {condition : Operand} {taken : Nat} :
      p[position]? = some h → Body registers h position (.branch condition h.data) code →
      p.positionAt? h.data = some taken →
      Lowered registers p position (code ++ [(.js, [condition, .word (p.site (.handler taken)),
        .word (p.site (p.successor position))])])

/-- A sketch with the code and the links of one more handler. The code behind the program may have
come with it. -/
structure Sketch.Adds (g g' : Sketch) (position : Nat) (code : List Code) (ds : List Destination) :
    Prop where
  text : g'.text (.handler position) = some code
  links : g'.links (.handler position) = ds
  otherText : ∀ d, d ≠ .handler position → d ≠ .exit → g'.text d = g.text d
  otherLinks : ∀ d, d ≠ .handler position → g'.links d = g.links d
  exitText : g'.text .exit = g.text .exit ∨ g'.text .exit = some closing
  exitWritten : .exit ∈ ds → (g'.text .exit).isSome

namespace Sketch.Adds

variable {g g' : Sketch} {position : Nat} {code : List Code} {ds : List Destination}

/-- A handler that was just begun, without code and links. -/
theorem begin (hlinks : g.links (.handler position) = []) :
    g.Adds (g.write (.handler position) []) position [] [] where
  text := by simp
  links := hlinks
  otherText := by
    intro d hd _
    rw [text_write, if_neg hd]
  otherLinks := fun _ _ => rfl
  exitText := by simp
  exitWritten := by simp

/-- Code is added by writing the whole of it anew. -/
theorem write (h : g.Adds g' position code ds) (code' : List Code) :
    g.Adds (g'.write (.handler position) code') position code' ds where
  text := by simp
  links := h.links
  otherText := by
    intro d hd hexit
    rw [text_write, if_neg hd]
    exact h.otherText d hd hexit
  otherLinks := h.otherLinks
  exitText := by simpa using h.exitText
  exitWritten := by simpa using h.exitWritten

/-- A link is added behind the others. -/
theorem link (h : g.Adds g' position code ds) {d : Destination}
    (hd : d = .exit → (g'.text .exit).isSome) :
    g.Adds (g'.link (.handler position) d) position code (ds ++ [d]) where
  text := h.text
  links := by simp [h.links]
  otherText := h.otherText
  otherLinks := by
    intro x hx
    rw [links_link, if_neg hx]
    exact h.otherLinks x hx
  exitText := h.exitText
  exitWritten := by
    intro hmem
    rcases List.mem_append.1 hmem with hmem | hmem
    · exact h.exitWritten hmem
    · exact hd (List.mem_singleton.1 hmem).symm

/-- Leading on links, and may bring the code behind the program with it. -/
theorem lead (h : g.Adds g' position code ds) (d : Destination) :
    g.Adds (Backend.lead g' (.handler position) d) position code (ds ++ [d]) := by
  rw [Backend.lead]
  by_cases hfirst : d = .exit ∧ g'.text .exit = none
  · rw [if_pos hfirst]
    exact
      { text := by simpa using h.text
        links := by simp [h.links]
        otherText := by
          intro x hx hexit
          rw [text_write, if_neg hexit]
          exact h.otherText x hx hexit
        otherLinks := by
          intro x hx
          rw [links_write, links_link, if_neg hx]
          exact h.otherLinks x hx
        exitText := .inr (by simp)
        exitWritten := by simp }
  · rw [if_neg hfirst]
    refine h.link fun hexit => ?_
    rw [Option.isSome_iff_ne_none]
    exact fun hnone => hfirst ⟨hexit, hnone⟩

end Sketch.Adds

namespace Backend

variable {p : Program} {g : Sketch} {b b' : Backend} {position : Nat} {code : List Code}
  {ds : List Destination} {h : Handler}

/-- The compiler is in the middle of a handler, of which it has written `code` and linked `ds`. -/
def Under (p : Program) (g : Sketch) (position : Nat) (code : List Code) (ds : List Destination)
    (b : Backend) : Prop :=
  ∃ g', At p g' (.handler position) b ∧ g.Adds g' position code ds

/-- Code that is written goes to the handler. -/
theorem Under.emits {code' : List Code} {count : Nat} (hunder : Under p g position code ds b)
    (hseparate : p.Separate) (hemits : b.Emits b' code' count) :
    Under p g position (code ++ code') ds b' := by
  obtain ⟨g', hat, hadds⟩ := hunder
  exact ⟨_, hat.emits hseparate hadds.text hemits, hadds.write _⟩

/-- Leading on from it adds a successor. -/
theorem Under.leadTo {d : Destination} (hunder : Under p g position code ds b)
    (hseparate : p.Separate) (hcomes : p.Comes d) :
    ∃ b', (leadTo p d).run b = .ok () b' ∧ Under p g position code (ds ++ [d]) b' ∧ b.Keeps b' ∧
      b'.afterExit = b.afterExit := by
  obtain ⟨g', hat, hadds⟩ := hunder
  obtain ⟨b', hrun, hat', hkeeps, hafter⟩ := hat.leadTo hseparate hcomes
  exact ⟨b', hrun, ⟨_, hat', hadds.lead d⟩, hkeeps, hafter⟩

/-- Going on with the next handler. -/
theorem Under.jump (hunder : Under p g position code [] b) (hseparate : p.Separate)
    {next : Nat} (hcomes : p.Comes (.handler next)) :
    ∃ b', (FlowOps.jump p (.handler next) : Action Backend Unit).run b = .ok () b' ∧
      Under p g position (code ++ [(.jmp, [.word (p.site (.handler next))])]) [.handler next] b' ∧
      b.Keeps b' ∧ b'.afterExit = b.afterExit := by
  obtain ⟨b₁, hemit, hemits⟩ := Writes.emit b .jmp [.word (p.site (.handler next))]
  obtain ⟨b', hlead, hunder', hkeeps, hafter⟩ :=
    (hunder.emits hseparate hemits).leadTo hseparate hcomes
  refine ⟨b', ?_, hunder', hemits.keeps.trans hkeeps, hafter.trans hemits.afterExit⟩
  refine (Action.run_bind_of_ok (run_addressFor b hcomes.valid)).trans ?_
  rw [Action.run_bind_of_ok hemit, hlead]

/-- Branching. The way that is taken is linked first. -/
theorem Under.branch (hunder : Under p g position code [] b) (hseparate : p.Separate)
    (condition : Operand) {taken : Nat} {d : Destination} (htaken : p.Comes (.handler taken))
    (hcomes : p.Comes d) :
    ∃ b', (FlowOps.branch p condition taken d : Action Backend Unit).run b = .ok () b' ∧
      Under p g position (code ++ [(.js, [condition, .word (p.site (.handler taken)),
        .word (p.site d)])]) [.handler taken, d] b' ∧
      b.Keeps b' ∧ b'.afterExit = b.afterExit := by
  obtain ⟨b₁, hemit, hemits⟩ :=
    Writes.emit b .js [condition, .word (p.site (.handler taken)), .word (p.site d)]
  obtain ⟨b₂, hlead₂, hunder₂, hkeeps₂, hafter₂⟩ :=
    (hunder.emits hseparate hemits).leadTo hseparate htaken
  obtain ⟨b', hlead, hunder', hkeeps, hafter⟩ := hunder₂.leadTo hseparate hcomes
  refine ⟨b', ?_, hunder', (hemits.keeps.trans hkeeps₂).trans hkeeps,
    (hafter.trans hafter₂).trans hemits.afterExit⟩
  refine (Action.run_bind_of_ok (run_addressFor b htaken.valid)).trans ?_
  rw [Action.run_bind_of_ok (run_addressFor b hcomes.valid), Action.run_bind_of_ok hemit,
    Action.run_bind_of_ok hlead₂, hlead]

/-- Leaving, which is noted for the next handler. -/
theorem Under.ret (hunder : Under p g position code ds b) (hseparate : p.Separate) :
    ∃ b', (FlowOps.ret : Action Backend Unit).run b = .ok () b' ∧
      Under p g position (code ++ [leaveCode]) ds b' ∧ b.Keeps b' ∧ b'.afterExit = true := by
  obtain ⟨b₁, hemit, hemits⟩ := Writes.emit b .vexit [.native returnRegister]
  obtain ⟨g', hat, hadds⟩ := hunder.emits hseparate hemits
  refine ⟨{ b₁ with afterExit := true }, ?_,
    ⟨g', ⟨hat.drawn, hat.valid, hat.current, hat.text⟩, hadds⟩,
    ⟨hemits.entry, hemits.virtualRegisters, hemits.keeps.blocks⟩, rfl⟩
  exact Action.run_bind_of_ok hemit

/-! ### Turning to a handler -/

/-- The compiler in front of a handler that it is going to compile. -/
def entered (b : Backend) (h : Handler) : Backend :=
  { b with
    journal := b.journal.push (enterEvent h)
    current := h.address.toUInt64
    written := b.written.insert h.address.toUInt64
    afterExit := false }

/-- A handler that something leads to and that is not written is compiled, also behind an exit. -/
theorem run_enter_lower (hdrawn : Drawn p g b.routine b.written) (hh : p[position]? = some h)
    (htext : g.text (.handler position) = none)
    (hpresent : (b.routine.block? (p.site (.handler position))).isSome) :
    (FlowOps.enter p position : Action Backend Visit).run b = .ok .lower (b.entered h) := by
  have hlt : position < p.length := (List.getElem?_eq_some_iff.1 hh).1
  have hwritten := hdrawn.written (.handler position) hlt
  rw [htext, Program.site_handler hh] at hwritten
  rw [Program.site_handler hh, ← hasBlock_eq] at hpresent
  refine (Action.run_bind_of_ok (run_fetch b hh)).trans ?_
  refine (Action.run_bind_of_ok (EStateM.run_get b)).trans ?_
  rw [if_neg (by rw [hwritten]; exact Bool.false_ne_true), if_pos hpresent]
  rfl

/-- Behind an exit, a handler that nothing leads to is skipped. -/
theorem run_enter_skipped (hh : p[position]? = some h)
    (hwritten : b.written.contains h.address.toUInt64 = false)
    (hblock : b.routine.hasBlock h.address.toUInt64 = false) (hafter : b.afterExit = true) :
    (FlowOps.enter p position : Action Backend Visit).run b = .ok .skip b := by
  refine (Action.run_bind_of_ok (run_fetch b hh)).trans ?_
  refine (Action.run_bind_of_ok (EStateM.run_get b)).trans ?_
  rw [if_neg (by rw [hwritten]; exact Bool.false_ne_true),
    if_neg (by rw [hblock]; exact Bool.false_ne_true), if_pos hafter]
  rfl

/-- Skipping a handler leaves a note. -/
theorem run_compileAt_skip (hh : p[position]? = some h)
    (henter : (FlowOps.enter p position : Action Backend Visit).run b = .ok .skip b) :
    (p.compileAt position : Action Backend Unit).run b
      = .ok () { b with journal := b.journal.push (Program.skipEvent h.opcode position) } := by
  rw [Program.compileAt, Action.run_bind_of_ok (run_fetch b hh), Action.run_bind_of_ok henter]
  rfl

/-- What is left to do once a handler is carried out. -/
def conclude (p : Program) (position : Nat) : Outcome Operand → Action Backend Unit
  | .next => p.fallThrough position
  | .branch condition target => do
    let taken ← Action.ofExcept (p.branchTarget target position)
    FlowOps.branch p condition taken (p.successor position)
  | .exit => FlowOps.ret

/-- Compiling a handler, once the compiler has turned to it. -/
theorem run_compileAt_lower (hh : p[position]? = some h)
    (henter : (FlowOps.enter p position : Action Backend Visit).run b = .ok .lower b') :
    (p.compileAt position : Action Backend Unit).run b
      = ((h.perform position : Action Backend (Outcome Operand)) >>=
        conclude p position).run b' := by
  rw [Program.compileAt, Action.run_bind_of_ok (run_fetch b hh), Action.run_bind_of_ok henter]
  dsimp only
  congr 2
  funext outcome
  cases outcome <;> rfl

/-- The block of a handler that is about to be compiled is empty. -/
theorem block_entered (hdrawn : Drawn p g b.routine b.written) (hh : p[position]? = some h)
    (htext : g.text (.handler position) = none)
    (hpresent : (b.routine.block? (p.site (.handler position))).isSome) :
    (b.entered h).block.code = [] ∧ (b.entered h).block.nextTemporary = 0 := by
  have hlt : position < p.length := (List.getElem?_eq_some_iff.1 hh).1
  have hsite := Program.site_handler hh
  have hblock : b.routine.block? (p.site (.handler position)) = some (b.entered h).block := by
    rw [hsite] at hpresent ⊢
    exact block?_current (b := b.entered h) hpresent
  have hholds := hdrawn.holds (.handler position) _ hlt hblock
  rw [htext] at hholds
  exact hholds

/-- The compiler at the beginning of a handler. -/
theorem under_entered (hdrawn : Drawn p g b.routine b.written) (hseparate : p.Separate)
    (hh : p[position]? = some h) (htext : g.text (.handler position) = none)
    (hlinks : g.links (.handler position) = [])
    (hpresent : (b.routine.block? (p.site (.handler position))).isSome) :
    Under p g position [] [] (b.entered h) := by
  have hlt : position < p.length := (List.getElem?_eq_some_iff.1 hh).1
  have hbegin := hdrawn.begin (d := .handler position) hseparate hlt hpresent htext
  rw [Program.site_handler hh] at hbegin
  exact ⟨_, ⟨hbegin, hlt, (Program.site_handler hh).symm, by simp⟩, .begin hlinks⟩

/-! ### From the outcome to the end of the block -/

/-- What compiling a handler comes to: its code, its successors, and nothing else. If the compiler
is not behind an exit now, the next handler is one of the successors. -/
def Concludes (registers : Nat) (p : Program) (g : Sketch) (position : Nat) (b b' : Backend) :
    Prop :=
  ∃ code, Under p g position code (p.nexts position) b' ∧ Lowered registers p position code ∧
    b.Keeps b' ∧ (b'.afterExit = false → position + 1 < p.length →
      .handler (position + 1) ∈ p.nexts position)

/-- Where a body leads is told by its instruction, because it is told by the fate. -/
theorem Body.opcode {registers : Nat} {outcome : Outcome Operand}
    (hbody : Body registers h position outcome code) : h.Yields outcome := by
  obtain ⟨fate, hfate, hsame⟩ := hbody.fate
  exact Handler.yields_of_fate hfate hsame

variable {registers : Nat}

/-- The handler before another one leads on to it, and the last one leaves. -/
theorem concludes_next (hunder : Under p g position code [] b) (hseparate : p.Separate)
    (hh : p[position]? = some h) (hbody : Body registers h position .next code)
    (hreach : p.Reachable position) :
    ∃ b', (conclude p position .next).run b = .ok () b' ∧
      Concludes registers p g position b b' := by
  obtain ⟨hexit, hjnz⟩ := hbody.opcode
  have hlt := hreach.lt_length
  have hnexts := Program.nexts_of_next hh hexit hjnz
  -- The last handler of a program leaves in its own block and shares no code.
  by_cases hnext : position + 1 < p.length
  · rw [if_pos hnext] at hnexts
    have hcomes : p.Comes (.handler (position + 1)) := .handler (hreach.step (.next hh hexit hnext))
    obtain ⟨b', hrun, hunder', hkeeps, -⟩ := hunder.jump hseparate hcomes
    refine ⟨b', ?_, _, hnexts ▸ hunder', .next hh hbody hnext, hkeeps, ?_⟩
    · rw [conclude, Program.fallThrough, Program.successor, if_pos hnext]
      exact hrun
    · intro _ _
      rw [hnexts]
      exact List.mem_singleton_self _
  · rw [if_neg hnext] at hnexts
    obtain ⟨b₁, hrestore, hemits⟩ := writes_restoreRegisters b
    obtain ⟨b', hret, hunder', hkeeps, hafter⟩ := (hunder.emits hseparate hemits).ret hseparate
    rw [List.append_assoc] at hunder'
    refine ⟨b', ?_, _, hnexts ▸ hunder', .last hh hbody (by omega), hemits.keeps.trans hkeeps, ?_⟩
    · rw [conclude, Program.fallThrough, Program.successor, if_neg hnext]
      exact (Action.run_bind_of_ok hrestore).trans hret
    · intro hfalse
      rw [hafter] at hfalse
      cases hfalse

/-- A handler that leaves has no successors. -/
theorem concludes_exit (hunder : Under p g position code [] b) (hseparate : p.Separate)
    (hh : p[position]? = some h) (hbody : Body registers h position .exit code) :
    ∃ b', (conclude p position .exit).run b = .ok () b' ∧
      Concludes registers p g position b b' := by
  have hnexts := Program.nexts_of_exit hh hbody.opcode
  obtain ⟨b', hret, hunder', hkeeps, hafter⟩ := hunder.ret hseparate
  refine ⟨b', hret, _, hnexts ▸ hunder', .exit hh hbody, hkeeps, ?_⟩
  intro hfalse
  rw [hafter] at hfalse
  cases hfalse

/-- A branch has two, of which one may be the end of the program. -/
theorem concludes_branch {condition : Operand} {taken : Nat}
    (hunder : Under p g position code [] b) (hseparate : p.Separate) (hh : p[position]? = some h)
    (hbody : Body registers h position (.branch condition h.data) code)
    (hreach : p.Reachable position) (hat : p.positionAt? h.data = some taken) :
    ∃ b', (conclude p position (.branch condition h.data)).run b = .ok () b' ∧
      Concludes registers p g position b b' := by
  have hnexts := Program.nexts_of_branch hh hbody.opcode.1 hat
  have htaken : p.Comes (.handler taken) :=
    Program.comes_of_mem_nexts hreach (by rw [hnexts]; simp)
  have hcomes : p.Comes (p.successor position) :=
    Program.comes_of_mem_nexts hreach (by rw [hnexts]; simp)
  obtain ⟨b', hrun, hunder', hkeeps, -⟩ := hunder.branch hseparate condition htaken hcomes
  refine ⟨b', ?_, _, hnexts ▸ hunder', .branch hh hbody hat, hkeeps, ?_⟩
  · rw [conclude, Program.branchTarget_of_some hat,
      Action.run_bind_of_ok (Action.run_ofExcept_ok _ _)]
    exact hrun
  · intro _ hnext
    rw [hnexts, Program.successor, if_pos hnext]
    simp

/-- **Compiling a handler without a flaw.** By its fate the handler is carried out, and each outcome
has been dealt with. -/
theorem compileAt_lower (hdrawn : Drawn p g b.routine b.written) (hseparate : p.Separate)
    (hreach : p.Reachable position) (htext : g.text (.handler position) = none)
    (hlinks : g.links (.handler position) = [])
    (hpresent : (b.routine.block? (p.site (.handler position))).isSome)
    (hnone : p.flaw? b.virtualRegisters position = none) :
    ∃ b', (p.compileAt position : Action Backend Unit).run b = .ok () b' ∧
      Concludes b.virtualRegisters p g position b b' := by
  have hlt := hreach.lt_length
  have hh : p[position]? = some p[position] := List.getElem?_eq_getElem hlt
  generalize p[position] = h at hh
  have henter := run_enter_lower hdrawn hh htext hpresent
  obtain ⟨hcode, htemporary⟩ := block_entered hdrawn hh htext hpresent
  have hunder := under_entered hdrawn hseparate hh htext hlinks hpresent
  obtain ⟨fate, hfate⟩ : ∃ fate, h.fate b.virtualRegisters position = .ok fate := by
    cases hfate : h.fate b.virtualRegisters position with
    | ok fate => exact ⟨fate, rfl⟩
    | error cause => simp [Program.flaw?, hh, hfate] at hnone
  obtain ⟨outcome, code, count, b₂, hperform, hemits, hbody⟩ :=
    body_of_fate (b := b.entered h) hcode htemporary hfate
  have hunder₂ := hunder.emits hseparate hemits
  rw [List.nil_append] at hunder₂
  obtain ⟨b', hconclude, code', hunder', hlowered, hkeeps, hafter⟩ :
      ∃ b', (conclude p position outcome).run b₂ = .ok () b' ∧
        Concludes b.virtualRegisters p g position b₂ b' := by
    cases outcome with
    | next => exact concludes_next hunder₂ hseparate hh hbody hreach
    | exit => exact concludes_exit hunder₂ hseparate hh hbody
    | branch condition target =>
      obtain ⟨hop, rfl⟩ := hbody.opcode
      obtain ⟨taken, hat⟩ :=
        Program.exists_positionAt?_of_good (Program.good_of_flaw?_eq_none hh hnone) hop
      exact concludes_branch hunder₂ hseparate hh hbody hreach hat
  have hentered : b.Keeps (b.entered h) := ⟨rfl, rfl, fun _ ha => ha⟩
  refine ⟨b', ?_, code', hunder', hlowered, (hentered.trans hemits.keeps).trans hkeeps, hafter⟩
  rw [run_compileAt_lower hh henter, Action.run_bind_of_ok hperform, hconclude]

/-- Compiling a handler with a flaw fails for that reason: in carrying it out, or in looking for the
target of its branch. -/
theorem compileAt_flawed {cause : Failure} (hdrawn : Drawn p g b.routine b.written)
    (hlt : position < p.length) (htext : g.text (.handler position) = none)
    (hpresent : (b.routine.block? (p.site (.handler position))).isSome)
    (hflaw : p.flaw? b.virtualRegisters position = some cause) :
    ∃ b', (p.compileAt position : Action Backend Unit).run b = .error (.failed cause) b' := by
  have hh : p[position]? = some p[position] := List.getElem?_eq_getElem hlt
  generalize p[position] = h at hh
  have henter := run_enter_lower hdrawn hh htext hpresent
  rw [run_compileAt_lower hh henter]
  rcases Program.flaw?_cases hh hflaw with hfate | ⟨hop, hfate, hat, rfl⟩
  · obtain ⟨b', hperform⟩ := perform_of_fate_error (b := b.entered h) hfate
    exact ⟨b', Action.run_bind_of_error hperform⟩
  · obtain ⟨hcode, htemporary⟩ := block_entered hdrawn hh htext hpresent
    obtain ⟨outcome, code, count, b₂, hperform, -, hbody⟩ :=
      body_of_fate (b := b.entered h) hcode htemporary hfate
    obtain ⟨fate, hfate', hsame⟩ := hbody.fate
    have hfates : fate = .branch () h.data := (Except.ok.inj (hfate.symm.trans hfate')).symm
    subst hfates
    cases hsame with
    | branch _ =>
      refine ⟨b₂, ?_⟩
      rw [Action.run_bind_of_ok hperform, conclude, Program.branchTarget_of_none hat]
      exact Action.run_bind_of_error (Action.run_ofExcept_error _ _)

end Backend

/-! ## Between two handlers -/

/-- Every handler is compiled to its end or not begun. The code behind the program is there as soon
as something leads to it. -/
structure Sketch.AtRest (registers : Nat) (p : Program) (g : Sketch) : Prop where
  fresh : ∀ position, g.text (.handler position) = none → g.links (.handler position) = []
  lowered : ∀ position code, g.text (.handler position) = some code →
    Lowered registers p position code ∧ p.flaw? registers position = none ∧
      g.links (.handler position) = p.nexts position
  exitText : ∀ code, g.text .exit = some code → code = closing
  exitLinks : g.links .exit = []
  exitWritten : ∀ position, .exit ∈ g.links (.handler position) → (g.text .exit).isSome

/-- In the beginning nothing is begun. -/
theorem Sketch.AtRest.blank (registers : Nat) (p : Program) : Sketch.blank.AtRest registers p where
  fresh _ _ := rfl
  lowered _ _ htext := nomatch htext
  exitText _ htext := nomatch htext
  exitLinks := rfl
  exitWritten _ hmem := absurd hmem List.not_mem_nil

/-- One more handler that was compiled to its end. -/
theorem Sketch.AtRest.adds {registers position : Nat} {p : Program} {g g' : Sketch}
    {code : List Code} (h : g.AtRest registers p)
    (hadds : g.Adds g' position code (p.nexts position))
    (hlowered : Lowered registers p position code) (hnone : p.flaw? registers position = none) :
    g'.AtRest registers p := by
  have htext : ∀ {q}, q ≠ position → g'.text (.handler q) = g.text (.handler q) :=
    fun hq => hadds.otherText _ (by simpa using hq) (by simp)
  have hlinks : ∀ {q}, q ≠ position → g'.links (.handler q) = g.links (.handler q) :=
    fun hq => hadds.otherLinks _ (by simpa using hq)
  refine
    { fresh := ?fresh, lowered := ?lowered, exitText := ?exitText, exitLinks := ?exitLinks
      exitWritten := ?exitWritten }
  case fresh =>
    intro q hq
    by_cases heq : q = position
    · rw [heq, hadds.text] at hq
      cases hq
    · rw [htext heq] at hq
      rw [hlinks heq]
      exact h.fresh q hq
  case lowered =>
    intro q code' hq
    by_cases heq : q = position
    · subst heq
      rw [hadds.text] at hq
      cases hq
      exact ⟨hlowered, hnone, hadds.links⟩
    · rw [htext heq] at hq
      rw [hlinks heq]
      exact h.lowered q code' hq
  case exitText =>
    intro code' hcode'
    rcases hadds.exitText with hsame | hclosing
    · exact h.exitText code' (hsame ▸ hcode')
    · rw [hclosing] at hcode'
      exact (Option.some.inj hcode').symm
  case exitLinks =>
    rw [hadds.otherLinks .exit (by simp)]
    exact h.exitLinks
  case exitWritten =>
    intro q hq
    by_cases heq : q = position
    · rw [heq, hadds.links] at hq
      exact hadds.exitWritten hq
    · rw [hlinks heq] at hq
      rcases hadds.exitText with hsame | hclosing
      · rw [hsame]
        exact h.exitWritten q hq
      · rw [hclosing]
        rfl

namespace Backend

variable {registers : Nat} {p : Program} {b b' : Backend} {position : Nat} {h : Handler}

/-- **The compiler between two handlers.** Which handlers it has compiled is told by the sketch. -/
structure Explored (registers : Nat) (p : Program) (b : Backend) : Prop where
  virtualRegisters : b.virtualRegisters = registers
  entry : b.routine.entry = p.site (.handler 0)
  first : (b.routine.block? (p.site (.handler 0))).isSome
  sketch : ∃ g, Drawn p g b.routine b.written ∧ g.AtRest registers p

/-- Whether the handler at a position is compiled. -/
def isWritten (p : Program) (b : Backend) (position : Nat) : Bool :=
  b.written.contains (p.site (.handler position))

/-- A stretch of compiling ends in some state, or with the flaw of a reachable handler. -/
def Goes (registers : Nat) (p : Program) (P : Backend → Prop)
    (result : EStateM.Result Halt Backend PUnit) : Prop :=
  (∃ b', result = .ok ⟨⟩ b' ∧ P b') ∨
    ∃ position cause b', p.Reachable position ∧ p.flaw? registers position = some cause ∧
      result = .error (.failed cause) b'

/-- One stretch after another: a flaw in the first is one of the whole. -/
theorem Goes.bind {P Q : Backend → Prop} {x : Action Backend PUnit}
    {f : PUnit → Action Backend PUnit} (hx : Goes registers p P (x.run b))
    (hf : ∀ b', P b' → Goes registers p Q ((f ⟨⟩).run b')) :
    Goes registers p Q ((x >>= f).run b) := by
  rcases hx with ⟨b', hrun, hP⟩ | ⟨position, cause, b', hreach, hflaw, hrun⟩
  · rw [Action.run_bind_of_ok hrun]
    exact hf b' hP
  · exact .inr ⟨position, cause, b', hreach, hflaw, Action.run_bind_of_error hrun⟩

/-- A block that is not written belongs to a handler that control may come to. Addresses are
separate, so the block cannot be there for another one's sake. -/
theorem Explored.reachable (hexplored : Explored registers p b) (hseparate : p.Separate)
    (hlt : position < p.length)
    (hpresent : (b.routine.block? (p.site (.handler position))).isSome) : p.Reachable position := by
  obtain ⟨g, hdrawn, -⟩ := hexplored.sketch
  obtain ⟨d, hcomes, hsite⟩ := hdrawn.known _ hpresent
  have heq : d = .handler position := hseparate.injective hcomes.valid hlt hsite
  subst heq
  cases hcomes with
  | handler hreach => exact hreach

/-- One more handler. If it does not leave, the next one has a block. -/
structure Advances (p : Program) (position : Nat) (b b' : Backend) : Prop where
  here : isWritten p b' position = true
  others : ∀ q, q < p.length → q ≠ position → isWritten p b' q = isWritten p b q
  reached : b'.afterExit = false → position + 1 < p.length →
    (b'.routine.block? (p.site (.handler (position + 1)))).isSome

/-- **Compiling a handler that something leads to.** It is reachable, so a flaw that it has is one
to report. -/
theorem Explored.compileAt (hexplored : Explored registers p b) (hseparate : p.Separate)
    (hlt : position < p.length) (hwritten : isWritten p b position = false)
    (hpresent : (b.routine.block? (p.site (.handler position))).isSome) :
    Goes registers p (fun b' => Explored registers p b' ∧ Advances p position b b')
      ((p.compileAt position : Action Backend Unit).run b) := by
  have hreach := hexplored.reachable hseparate hlt hpresent
  obtain ⟨g, hdrawn, hrest⟩ := hexplored.sketch
  have hregisters := hexplored.virtualRegisters
  have htext : g.text (.handler position) = none := by
    have hsome := hdrawn.written (.handler position) hlt
    rw [isWritten] at hwritten
    rw [hwritten] at hsome
    exact Option.isSome_eq_false_iff.1 hsome.symm |> Option.isNone_iff_eq_none.1
  cases hflaw : p.flaw? registers position with
  | some cause =>
    rw [← hregisters] at hflaw
    obtain ⟨b', hrun⟩ := compileAt_flawed hdrawn hlt htext hpresent hflaw
    exact .inr ⟨position, cause, b', hreach, hregisters ▸ hflaw, hrun⟩
  | none =>
    rw [← hregisters] at hflaw
    obtain ⟨b', hrun, code, ⟨g', hat, hadds⟩, hlowered, hkeeps, hafter⟩ :=
      compileAt_lower hdrawn hseparate hreach htext (hrest.fresh position htext) hpresent hflaw
    rw [hregisters] at hflaw hlowered
    refine .inl ⟨b', hrun, ⟨hkeeps.virtualRegisters.trans hregisters,
      hkeeps.entry.trans hexplored.entry, hkeeps.blocks _ hexplored.first, g', hat.drawn,
      hrest.adds hadds hlowered hflaw⟩, ?_, ?_, ?_⟩
    · rw [isWritten, hat.drawn.written (.handler position) hlt, hadds.text]
      rfl
    · intro q hq hne
      rw [isWritten, isWritten, hat.drawn.written (.handler q) hq, hdrawn.written (.handler q) hq,
        hadds.otherText _ (by simpa using hne) (by simp)]
    · intro hfalse hnext
      have hmem := hafter hfalse hnext
      rw [← hadds.links] at hmem
      exact hat.drawn.target (.handler position) _ hlt hmem

/-! ## Whole programs -/

/-- The first pass is in front of the handler at position `k`. Unless that is behind an exit, its
block is there. -/
structure Passed (registers : Nat) (p : Program) (k : Nat) (b : Backend) : Prop extends
    Explored registers p b where
  ahead : ∀ q, k ≤ q → q < p.length → isWritten p b q = false
  reached : b.afterExit = false → k < p.length → (b.routine.block? (p.site (.handler k))).isSome

/-- Notes do not matter. -/
theorem Explored.noted (hexplored : Explored registers p b) (journal : Journal) :
    Explored registers p { b with journal } :=
  ⟨hexplored.virtualRegisters, hexplored.entry, hexplored.first, hexplored.sketch⟩

/-- The first pass compiles a handler or skips it. A handler without a block is behind an exit, so
it is skipped and no block is missed. -/
theorem Passed.compileAt {k : Nat} (hpassed : Passed registers p k b) (hseparate : p.Separate)
    (hlt : k < p.length) :
    Goes registers p (Passed registers p (k + 1))
      ((p.compileAt k : Action Backend Unit).run b) := by
  have hwritten := hpassed.ahead k (Nat.le_refl k) hlt
  cases hblock : b.routine.block? (p.site (.handler k)) with
  | some block =>
    rcases hpassed.toExplored.compileAt hseparate hlt hwritten (by rw [hblock]; rfl) with
      ⟨b', hrun, hexplored, hadvances⟩ | hflawed
    · refine .inl ⟨b', hrun, hexplored, ?_, hadvances.reached⟩
      intro q hq hq'
      rw [hadvances.others q hq' (by omega)]
      exact hpassed.ahead q (by omega) hq'
    · exact .inr hflawed
  | none =>
    -- Without an exit before it, the handler would have a block by now.
    have hafter : b.afterExit = true := by
      cases hafter : b.afterExit with
      | true => rfl
      | false =>
        have hsome := hpassed.reached hafter hlt
        rw [hblock] at hsome
        cases hsome
    have hh : p[k]? = some p[k] := List.getElem?_eq_getElem hlt
    have hsite := Program.site_handler hh
    have henter := run_enter_skipped hh (b := b) (hsite ▸ hwritten)
      (by rw [← hsite, hasBlock_eq, hblock]; rfl) hafter
    refine .inl ⟨_, run_compileAt_skip hh henter, hpassed.toExplored.noted _, ?_, ?_⟩
    · exact fun q hq hq' => hpassed.ahead q (by omega) hq'
    · intro hfalse
      rw [show b.afterExit = false from hfalse] at hafter
      cases hafter

/-- The first pass, to its end. By the number of handlers that are left. -/
theorem Passed.forM_compileAt (hseparate : p.Separate) (n : Nat) {k : Nat}
    (hpassed : Passed registers p k b) (hn : k + n = p.length) :
    Goes registers p (Passed registers p p.length)
      (((List.range' k n).forM p.compileAt : Action Backend PUnit).run b) := by
  induction n generalizing k b with
  | zero =>
    rw [Nat.add_zero] at hn
    exact .inl ⟨b, rfl, hn ▸ hpassed⟩
  | succ n ih =>
    refine (hpassed.compileAt hseparate (by omega)).bind fun b' hpassed' => ?_
    exact ih hpassed' (by omega)

/-- How many handlers are not compiled, which bounds the rounds of the loop. -/
def unwritten (p : Program) (b : Backend) : Nat :=
  (List.range p.length).countP fun q => !isWritten p b q

/-- Fewer members of a list have a property that is stronger, and fails of a member that had the
weaker one. -/
theorem countP_lt_countP {α : Type} {f f' : α → Bool} {x : α} {l : List α} (hx : x ∈ l)
    (hle : ∀ y ∈ l, f' y = true → f y = true) (hf : f x = true) (hf' : f' x = false) :
    l.countP f' < l.countP f := by
  induction l with
  | nil => cases hx
  | cons y rest ih =>
    have hrest : rest.countP f' ≤ rest.countP f :=
      List.countP_mono_left fun z hz => hle z (List.mem_cons_of_mem y hz)
    rw [List.countP_cons, List.countP_cons]
    rcases List.mem_cons.1 hx with rfl | hx
    · rw [if_pos hf, if_neg (by rw [hf']; exact Bool.false_ne_true)]
      omega
    · have hlt := ih hx fun z hz => hle z (List.mem_cons_of_mem y hz)
      have hy := hle y List.mem_cons_self
      cases hfy' : f' y with
      | false =>
        rw [if_neg Bool.false_ne_true]
        omega
      | true =>
        rw [if_pos rfl, if_pos (hy hfy')]
        omega

/-- Compiling a handler leaves fewer. -/
theorem Advances.unwritten_lt (hadvances : Advances p position b b') (hlt : position < p.length)
    (hwritten : isWritten p b position = false) : unwritten p b' < unwritten p b := by
  refine countP_lt_countP (List.mem_range.2 hlt) ?_ (by simp [hwritten]) (by simp [hadvances.here])
  intro q hq hq'
  by_cases heq : q = position
  · simp [heq, hwritten]
  · rwa [hadvances.others q (List.mem_range.1 hq) heq] at hq'

/-- A pending handler has a block and is not compiled. -/
theorem pending_eq_some (hpending : pending p b = some position) :
    position < p.length ∧ isWritten p b position = false ∧
      (b.routine.block? (p.site (.handler position))).isSome := by
  obtain ⟨hlt, hfound, -⟩ := List.findIdx?_eq_some_iff_getElem.1 hpending
  have hsite := Program.site_handler (List.getElem?_eq_getElem hlt)
  simp only [Bool.and_eq_true, Bool.not_eq_true', ← hsite] at hfound
  exact ⟨hlt, hfound.2, by rw [← hasBlock_eq]; exact hfound.1⟩

/-- Nothing is pending once every handler with a block is compiled. -/
theorem pending_eq_none (hpending : pending p b = none) (hlt : position < p.length)
    (hpresent : (b.routine.block? (p.site (.handler position))).isSome) :
    isWritten p b position = true := by
  have hfalse := List.findIdx?_eq_none_iff.1 hpending p[position] (List.getElem_mem hlt)
  have hsite := Program.site_handler (List.getElem?_eq_getElem hlt)
  rw [← hasBlock_eq] at hpresent
  simp only [← hsite, hpresent, Bool.true_and, Bool.not_eq_false'] at hfalse
  exact hfalse

/-- **The pending handlers are compiled until there are none.** Each round compiles one, so as many
rounds as there are handlers left are enough. -/
theorem Explored.drain (hseparate : p.Separate) (fuel : Nat) (hexplored : Explored registers p b)
    (hfuel : unwritten p b ≤ fuel) :
    Goes registers p (fun b' => Explored registers p b' ∧ pending p b' = none)
      ((p.drain fuel : Action Backend Unit).run b) := by
  -- Every round writes one handler more, so the count of the others bounds the rounds.
  induction fuel generalizing b with
  | zero =>
    refine .inl ⟨b, rfl, hexplored, ?_⟩
    cases hpending : pending p b with
    | none => rfl
    | some position =>
      obtain ⟨hlt, hwritten, -⟩ := pending_eq_some hpending
      have hzero := List.countP_eq_zero.1 (Nat.le_zero.1 hfuel) position (List.mem_range.2 hlt)
      simp [hwritten] at hzero
  | succ fuel ih =>
    rw [Program.drain, Action.run_bind_of_ok (EStateM.run_get b)]
    cases hpending : pending p b with
    | none =>
      refine .inl ⟨b, ?_, hexplored, hpending⟩
      have hnone : (FlowOps.pending p b : Option Nat) = none := hpending
      rw [hnone]
      rfl
    | some position =>
      obtain ⟨hlt, hwritten, hpresent⟩ := pending_eq_some hpending
      have hsome : (FlowOps.pending p b : Option Nat) = some position := hpending
      rw [hsome]
      refine (hexplored.compileAt hseparate hlt hwritten hpresent).bind fun b' hb' => ?_
      have hless := hb'.2.unwritten_lt hlt hwritten
      exact ih hb'.1 (by omega)

/-- The compiler in front of a program's first handler. What it was used for before is forgotten,
all but the notes. -/
def started (p : Program) (b : Backend) : Backend :=
  { b with
    routine := .new (p.site (.handler 0))
    current := p.site (.handler 0)
    written := ∅
    afterExit := false }

/-- At first nothing is written, and the first handler has its block. -/
theorem passed_started (hp : 0 < p.length) (b : Backend) :
    Passed b.virtualRegisters p 0 (b.started p) := by
  have hfirst : ((b.started p).routine.block? (p.site (.handler 0))).isSome := by
    rw [started, block?_new, if_pos rfl]
    rfl
  exact ⟨⟨rfl, rfl, hfirst, .blank, .new (.handler (.zero hp)), .blank ..⟩, fun _ _ _ => rfl,
    fun _ _ => hfirst⟩

/-- Starting makes the routine anew. -/
theorem run_start (hp : 0 < p.length) (b : Backend) :
    (FlowOps.start p : Action Backend Unit).run b = .ok () (b.started p) := by
  have hh : p[0]? = some p[0] := List.getElem?_eq_getElem hp
  refine (Action.run_bind_of_ok (run_fetch b hh)).trans ?_
  rw [started, Program.site_handler hh]
  rfl

/-- The first pass and the loop behind it. There are as many rounds as handlers, which is enough. -/
theorem goes_compile (hp : p ≠ []) (hseparate : p.Separate) (b : Backend) :
    Goes b.virtualRegisters p (fun b' => Explored b.virtualRegisters p b' ∧ pending p b' = none)
      ((p.compile : Action Backend Unit).run b) := by
  have hlength : 0 < p.length := List.length_pos_iff.2 hp
  have hempty : ¬ p.isEmpty = true := by simpa using hp
  rw [Program.compile, if_neg hempty]
  refine Eq.mpr (congrArg _ (Action.run_bind_of_ok (run_start hlength b))) ?_
  have hpassed := (passed_started hlength b).forM_compileAt hseparate p.length (Nat.zero_add _)
  rw [← List.range_eq_range'] at hpassed
  refine hpassed.bind fun b' hpassed' => ?_
  refine hpassed'.toExplored.drain hseparate p.length ?_
  exact Nat.le_trans List.countP_le_length (Nat.le_of_eq List.length_range)

/-- **A finished routine.** Its blocks are those of the reachable handlers and the one behind the
program, if compiled code comes there; each has its code and its links. -/
structure Finished (registers : Nat) (p : Program) (r : Routine) : Prop where
  entry : r.entry = p.site (.handler 0)
  known : ∀ a, (r.block? a).isSome → ∃ d, p.Comes d ∧ p.site d = a
  handler : ∀ {position}, p.Reachable position → p.flaw? registers position = none ∧
    ∃ block, r.block? (p.site (.handler position)) = some block ∧
      Lowered registers p position block.code ∧
      block.next = ((p.nexts position).map p.site).eraseDups
  exit : p.Comes .exit → ∃ block, r.block? (p.site .exit) = some block ∧ block.code = closing ∧
    block.next = []
  prev : ∀ {d block}, p.Comes d → r.block? (p.site d) = some block → block.prev.Nodup ∧
    ∀ a, a ∈ block.prev ↔
      ∃ position, p.Reachable position ∧ a = p.site (.handler position) ∧ d ∈ p.nexts position

/-- With nothing pending, every reachable handler is compiled. By the way control comes to it: the
handler before it is compiled, so it has linked to this one, which therefore has a block. -/
theorem Explored.text {g : Sketch} (hexplored : Explored registers p b)
    (hdrawn : Drawn p g b.routine b.written) (hrest : g.AtRest registers p)
    (hpending : pending p b = none) (hreach : p.Reachable position) :
    ∃ code, g.text (.handler position) = some code := by
  have hwritten : ∀ {q}, q < p.length → (b.routine.block? (p.site (.handler q))).isSome →
      ∃ code, g.text (.handler q) = some code := by
    intro q hq hpresent
    have hsome := pending_eq_none hpending hq hpresent
    rw [isWritten, hdrawn.written (.handler q) hq] at hsome
    exact Option.isSome_iff_exists.1 hsome
  -- By the way that control takes. A compiled handler is linked to all its successors, which gives
  -- them blocks; and with nothing pending a handler with a block is compiled.
  induction hreach with
  | zero hlt => exact hwritten hlt hexplored.first
  | @step position' _ hreach' hleads ih =>
    obtain ⟨code, htext⟩ := ih
    obtain ⟨-, hnone, hlinks⟩ := hrest.lowered _ code htext
    have hmem := Program.mem_nexts_of_leads hnone hleads
    rw [← hlinks] at hmem
    exact hwritten hleads.lt_length (hdrawn.target (.handler position') _ hreach'.lt_length hmem)

/-- With nothing pending, the sketch is that of the reachable handlers. -/
theorem Explored.finished (hexplored : Explored registers p b) (hpending : pending p b = none)
    (hseparate : p.Separate) : Finished registers p b.routine := by
  obtain ⟨g, hdrawn, hrest⟩ := hexplored.sketch
  have htext : ∀ {position}, p.Reachable position →
      ∃ code, g.text (.handler position) = some code :=
    fun hreach => hexplored.text hdrawn hrest hpending hreach
  refine
    { entry := hexplored.entry, known := hdrawn.known, handler := ?handler, exit := ?exit
      prev := ?prev }
  case handler =>
    intro position hreach
    obtain ⟨code, hcode⟩ := htext hreach
    obtain ⟨hlowered, hnone, hlinks⟩ := hrest.lowered position code hcode
    obtain ⟨block, hblock⟩ := Option.isSome_iff_exists.1
      (hdrawn.present (.handler position) hreach.lt_length (by rw [hcode]; rfl))
    have hholds := hdrawn.holds (.handler position) block hreach.lt_length hblock
    rw [hcode] at hholds
    refine ⟨hnone, block, hblock, ?_, ?_⟩
    · rw [show block.code = code from hholds]
      exact hlowered
    · rw [hdrawn.next (.handler position) block hreach.lt_length hblock, hlinks]
  case exit =>
    intro hcomes
    cases hcomes with
    | @exit position hreach hmem =>
      obtain ⟨code, hcode⟩ := htext hreach
      obtain ⟨-, -, hlinks⟩ := hrest.lowered position code hcode
      rw [← hlinks] at hmem
      obtain ⟨code', hcode'⟩ := Option.isSome_iff_exists.1 (hrest.exitWritten position hmem)
      obtain ⟨block, hblock⟩ := Option.isSome_iff_exists.1
        (hdrawn.present .exit trivial (by rw [hcode']; rfl))
      have hholds := hdrawn.holds .exit block trivial hblock
      rw [hcode', hrest.exitText code' hcode'] at hholds
      refine ⟨block, hblock, hholds, ?_⟩
      rw [hdrawn.next .exit block trivial hblock, hrest.exitLinks]
      rfl
  case prev =>
    intro d block hcomes hblock
    refine ⟨hdrawn.nodup d block hcomes.valid hblock, fun a => ?_⟩
    rw [hdrawn.prev d block hcomes.valid hblock a]
    constructor
    · rintro ⟨d', hd', rfl, hmem⟩
      cases d' with
      | exit =>
        rw [hrest.exitLinks] at hmem
        cases hmem
      | handler position =>
        have hpresent := hdrawn.source (.handler position) hd' (List.ne_nil_of_mem hmem)
        have hreach := hexplored.reachable hseparate hd' hpresent
        obtain ⟨code, hcode⟩ := htext hreach
        rw [(hrest.lowered position code hcode).2.2] at hmem
        exact ⟨position, hreach, rfl, hmem⟩
    · rintro ⟨position, hreach, rfl, hmem⟩
      obtain ⟨code, hcode⟩ := htext hreach
      rw [← (hrest.lowered position code hcode).2.2] at hmem
      exact ⟨.handler position, hreach.lt_length, rfl, hmem⟩

/-- **A run of the routine compiler**, from whatever state an earlier one left it in: a finished
routine, or the flaw of a handler that control may come to. -/
theorem run_cases (hp : p ≠ []) (hseparate : p.Separate) (b : Backend) :
    (∃ b', (run p).run b = .ok () b' ∧ Finished b.virtualRegisters p b'.routine) ∨
      ∃ position cause b', p.Reachable position ∧ p.flaw? b.virtualRegisters position = some cause ∧
        (run p).run b = .error (.failed cause) b' := by
  have hempty : ¬ p.isEmpty = true := by simpa using hp
  rw [run, if_neg hempty]
  rcases goes_compile hp hseparate b with ⟨b', hrun, hexplored, hpending⟩ | hflawed
  · refine .inl ⟨{ b' with journal := b'.journal.push (summary b'.routine) }, ?_,
      hexplored.finished hpending hseparate⟩
    exact (Action.run_bind_of_ok hrun).trans rfl
  · obtain ⟨position, cause, b', hreach, hflaw, hrun⟩ := hflawed
    exact .inr ⟨position, cause, b', hreach, hflaw, Action.run_bind_of_error hrun⟩

end Backend

end CodeRecovery.Routine
