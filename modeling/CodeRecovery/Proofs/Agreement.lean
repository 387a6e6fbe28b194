/-
What the two compilers agree on.

A place in a program has two names: the graph compiler knows it by the index of a block, the routine
compiler by a bytecode address. `sameFlow_of_run` says that under these names the routine has the
same control flow as the function, cut down to what control may come to; `exact_acceptance` says
which programs the compilers accept and how they refuse the others. Each compiler has been described
by the program alone before, so here the two descriptions are put side by side.
-/
import CodeRecovery.Proofs.Graph.Acceptance
import CodeRecovery.Proofs.Routine.Exploration

set_option autoImplicit false

namespace CodeRecovery

variable {p : Program} {registers position : Nat} {d d' : Destination}

/-! ## Links in the graph -/

namespace Graph

/-- Predecessors are successors seen from the other end: the function keeps the forward links only,
and looks through all blocks for the ones that lead to a given block. -/
theorem Function.mem_predecessors {f : Function} {id id' : BlockIndex} :
    id' ∈ f.predecessors id ↔ ∃ targets, f.successors? id' = some targets ∧ id ∈ targets := by
  rw [predecessors, List.mem_map]
  constructor
  · rintro ⟨⟨block, i⟩, hmem, rfl⟩
    obtain ⟨hget, hcontains⟩ := List.mem_filter.1 hmem
    refine ⟨block.successors, ?_, by simpa using hcontains⟩
    rw [List.mem_zipIdx_iff_getElem?, Array.getElem?_toList] at hget
    rw [successors?, hget]
    rfl
  · rintro ⟨targets, htargets, hid⟩
    obtain ⟨block, hget, rfl⟩ := Option.map_eq_some_iff.1 htargets
    refine ⟨(block, id'), List.mem_filter.2 ⟨?_, by simpa using hid⟩, rfl⟩
    rw [List.mem_zipIdx_iff_getElem?, Array.getElem?_toList]
    exact hget

namespace Backend

/-- The block of a place in the program: that of a handler, or the one that all ways out share. A
finished compiler still knows its blocks by these two means, so this is read off its state. -/
def place? (b : Backend) : Destination → Option BlockIndex
  | .handler position => b.handlers[position]?
  | .exit => b.cursor.function.find? exitLabel

/-- Where that block is laid out: the handlers follow the opening block in order, and the shared
block is made last. -/
def placeOf (p : Program) : Destination → BlockIndex
  | .handler position => position + 1
  | .exit => p.length + 1

/-- Different places have different blocks. The shared block comes behind those of all handlers,
which is the only case that could clash. -/
theorem placeOf_injective (hd : p.Valid d) (hd' : p.Valid d') (heq : placeOf p d = placeOf p d') :
    d = d' := by
  cases d with
  | handler position =>
    have hlt : position < p.length := hd
    cases d' with
    | handler position' => rw [Nat.succ.inj heq]
    | exit => exact absurd (Nat.succ.inj heq) (Nat.ne_of_lt hlt)
  | exit =>
    cases d' with
    | handler position' =>
      have hlt : position' < p.length := hd'
      exact absurd (Nat.succ.inj heq) (Nat.ne_of_gt hlt)
    | exit => rfl

variable {s : Settings} {b : Backend} {n n' : Nat} {block : Block}

/-- **The block of a handler leads where the handler's code goes on.** There is one case for each
way a block can be closed, and `nexts` was made to have the same cases. -/
theorem Lowered.successors (hlowered : Lowered registers p position n block n') :
    block.successors = (p.nexts position).map (placeOf p) := by
  cases hlowered with
  | next hh hbody hlt =>
    rw [Program.nexts_of_next hh hbody.opcode.1 hbody.opcode.2, if_pos hlt]
    rfl
  | last hh hbody hlast =>
    rw [Program.nexts_of_next hh hbody.opcode.1 hbody.opcode.2, if_neg (by omega)]
    rfl
  | exit hh hbody =>
    rw [Program.nexts_of_exit hh hbody.opcode]
    rfl
  | branch hh hbody htaken =>
    obtain ⟨hop, rfl⟩ := hbody.opcode
    rw [Program.nexts_of_branch hh hop htaken, Program.successor]
    -- What follows a branch is the next block, be it a handler's or the one behind the program.
    split
    · rfl
    · obtain ⟨hlt, -⟩ := List.getElem?_eq_some_iff.1 hh
      have hlast : p.length = position + 1 := by omega
      simp [Block.successors, Terminator.successors, placeOf, hlast]

namespace Finished

/-- The same for the block that the finished function has at the place of a handler. -/
theorem successors?_handler (hfinished : Finished s p b) (hlt : position < p.length) :
    b.cursor.function.successors? (placeOf p (.handler position))
      = some ((p.nexts position).map (placeOf p)) := by
  obtain ⟨block, n₀, n₁, hblock, -, hlowered⟩ := hfinished.lowered hlt
  rw [Function.successors?, placeOf, hblock, Option.map_some, hlowered.successors]

/-- The shared block leaves, so it leads nowhere. -/
theorem successors?_exit (hfinished : Finished s p b) (hends : p.endsInBranch = true) :
    b.cursor.function.successors? (placeOf p .exit) = some [] := by
  obtain ⟨n, hblock, -⟩ := hfinished.exit hends
  rw [Function.successors?, placeOf, hblock]
  rfl

/-- Once a program is compiled, every handler has its block, whether control may come to it or
not. -/
theorem place?_handler (hfinished : Finished s p b) (hlt : position < p.length) :
    b.place? (.handler position) = some (placeOf p (.handler position)) := by
  rw [place?, hfinished.handler?, if_pos hlt, placeOf]

/-- The shared block is there if the program ends in a branch. It is found by its name, and names
are distinct. -/
theorem place?_exit (hfinished : Finished s p b) (hends : p.endsInBranch = true) :
    b.place? .exit = some (placeOf p .exit) := by
  obtain ⟨n, hblock, -⟩ := hfinished.exit hends
  exact Function.find?_name hfinished.nodup_names hblock

/-- Among the blocks of handlers, those that lead to a place are the ones whose code goes on there.
The opening block leads to the first handler too, and is left out because no routine has such a
block. -/
theorem mem_predecessors (hfinished : Finished s p b) (hd : p.Valid d) (hlt : position < p.length) :
    placeOf p (.handler position) ∈ b.cursor.function.predecessors (placeOf p d) ↔
      d ∈ p.nexts position := by
  rw [Function.mem_predecessors, hfinished.successors?_handler hlt]
  constructor
  · rintro ⟨targets, htargets, hmem⟩
    cases htargets
    obtain ⟨d', hd', hplace⟩ := List.mem_map.1 hmem
    rwa [← placeOf_injective (Program.valid_of_mem_nexts hd') hd hplace]
  · exact fun hmem => ⟨_, rfl, List.mem_map_of_mem hmem⟩

end Finished

end Backend

end Graph

/-! ## The same control flow -/

/-- The links of a routine's block are those of a block of the graph. They go to the same places in
the same order, once each; of the blocks that lead there, those of the handlers count that control
may come to. -/
structure SameLinks (p : Program) (g : Graph.Backend) (id : Graph.BlockIndex)
    (block : Routine.Block) : Prop where
  next : ∃ (targets : List Destination) (ids : List Graph.BlockIndex),
    g.cursor.function.successors? id = some ids ∧ targets.map g.place? = ids.map some ∧
      block.next = (targets.map p.site).eraseDups
  prev_nodup : block.prev.Nodup
  prev : ∀ a, a ∈ block.prev ↔
    ∃ position id', p.Reachable position ∧ a = p.site (.handler position) ∧
      g.place? (.handler position) = some id' ∧ id' ∈ g.cursor.function.predecessors id

/-- A routine has the control flow of a graph. It has the blocks of the handlers that control may
come to, and the one behind the program if a branch there may be come to; each of them is linked as
the block of the graph is. -/
structure SameFlow (p : Program) (g : Graph.Backend) (r : Routine) : Prop where
  blocks : ∀ a, (r.block? a).isSome ↔
    (∃ position, p.Reachable position ∧ a = p.site (.handler position)) ∨
      a = p.exitAddress ∧ p.Reachable (p.length - 1) ∧ p.endsInBranch = true
  links : ∀ a block, r.block? a = some block →
    ∃ d id, p.site d = a ∧ g.place? d = some id ∧ SameLinks p g id block

variable {s : Settings} {g : Graph.Backend} {r : Routine}

section

variable (hgraph : Graph.Backend.Finished s p g)
  (hroutine : Routine.Backend.Finished s.virtualRegisters p r)

include hroutine in
/-- Control comes behind a program only by a branch at its end. -/
theorem endsInBranch_of_comes (hcomes : p.Comes .exit) : p.endsInBranch = true :=
  ((Program.comes_exit_iff fun hreach => (hroutine.handler hreach).1).1 hcomes).2

include hgraph hroutine in
/-- What control may come to has a block in the graph: all handlers have one, and the shared block
is made for programs that end in a branch. -/
theorem place?_of_comes (hcomes : p.Comes d) : g.place? d = some (Graph.Backend.placeOf p d) := by
  cases d with
  | handler position => exact hgraph.place?_handler hcomes.valid
  | exit => exact hgraph.place?_exit (endsInBranch_of_comes hroutine hcomes)

include hgraph hroutine in
/-- Where the code of a handler goes on, the graph has blocks, and in the same order. -/
theorem map_place?_nexts (hreach : p.Reachable position) :
    (p.nexts position).map g.place?
      = ((p.nexts position).map (Graph.Backend.placeOf p)).map some := by
  rw [List.map_map]
  refine List.map_congr_left fun d hmem => ?_
  exact place?_of_comes hgraph hroutine (Program.comes_of_mem_nexts hreach hmem)

include hgraph hroutine in
/-- **The two blocks of a place have the same links.** Both sides are described by `nexts`: the
graph's block leads to the places of these, the routine's block to their sites, and the predecessors
on either side are the handlers whose `nexts` has the place in it. -/
theorem sameLinks_of_comes {block : Routine.Block} (hcomes : p.Comes d)
    (hblock : r.block? (p.site d) = some block) :
    SameLinks p g (Graph.Backend.placeOf p d) block := by
  obtain ⟨hnodup, hprev⟩ := hroutine.prev hcomes hblock
  refine ⟨?_, hnodup, fun a => (hprev a).trans ?_⟩
  · cases hcomes with
    | @handler position hreach =>
      obtain ⟨-, block', hblock', -, hnext⟩ := hroutine.handler hreach
      obtain rfl := Option.some.inj (hblock'.symm.trans hblock)
      exact ⟨_, _, hgraph.successors?_handler hreach.lt_length,
        map_place?_nexts hgraph hroutine hreach, hnext⟩
    | exit hreach hmem =>
      have hcomes := Program.Comes.exit hreach hmem
      obtain ⟨block', hblock', -, hnext⟩ := hroutine.exit hcomes
      obtain rfl := Option.some.inj (hblock'.symm.trans hblock)
      exact ⟨[], [], hgraph.successors?_exit (endsInBranch_of_comes hroutine hcomes), rfl, hnext⟩
  · constructor
    · rintro ⟨position, hreach, rfl, hmem⟩
      exact ⟨position, _, hreach, rfl, hgraph.place?_handler hreach.lt_length,
        (hgraph.mem_predecessors hcomes.valid hreach.lt_length).2 hmem⟩
    · rintro ⟨position, id, hreach, rfl, hplace, hmem⟩
      cases (hgraph.place?_handler hreach.lt_length).symm.trans hplace
      exact ⟨position, hreach, rfl, (hgraph.mem_predecessors hcomes.valid hreach.lt_length).1 hmem⟩

include hroutine in
/-- What control may come to has a block in the routine. -/
theorem isSome_block?_of_comes (hcomes : p.Comes d) : (r.block? (p.site d)).isSome := by
  cases d with
  | handler position =>
    cases hcomes with
    | handler hreach =>
      obtain ⟨-, block, hblock, -⟩ := hroutine.handler hreach
      rw [hblock]
      rfl
  | exit =>
    obtain ⟨block, hblock, -⟩ := hroutine.exit hcomes
    rw [hblock]
    rfl

include hgraph hroutine in
/-- A finished graph and a finished routine of one program have the same flow. The routine has no
blocks besides those that control may come to, so the two conditions on its addresses are
equivalent. -/
theorem sameFlow_of_finished : SameFlow p g r where
  blocks a := by
    rw [← Program.comes_exit_iff fun hreach => (hroutine.handler hreach).1]
    constructor
    · intro hpresent
      obtain ⟨d, hcomes, rfl⟩ := hroutine.known a hpresent
      cases d with
      | handler position =>
        cases hcomes with
        | handler hreach => exact .inl ⟨position, hreach, rfl⟩
      | exit => exact .inr ⟨rfl, hcomes⟩
    · rintro (⟨position, hreach, rfl⟩ | ⟨rfl, hcomes⟩)
      · exact isSome_block?_of_comes hroutine (.handler hreach)
      · exact isSome_block?_of_comes hroutine hcomes
  links a block hblock := by
    obtain ⟨d, hcomes, rfl⟩ := hroutine.known a (by rw [hblock]; rfl)
    exact ⟨d, _, rfl, place?_of_comes hgraph hroutine hcomes,
      sameLinks_of_comes hgraph hroutine hcomes hblock⟩

end

/-- The graph compiler accepts no program with a flaw; it visits every handler, so it would have
come upon it. -/
theorem Graph.Backend.flaw?_of_run {g : Backend} (hrun : (run p).run (new s) = .ok () g)
    (hlt : position < p.length) : p.flaw? s.virtualRegisters position = none := by
  rcases run_cases s (finished_of_run hrun).1 with ⟨hnone, -⟩ | ⟨_, _, _, _, _, herror⟩
  · exact hnone position hlt
  · rw [hrun] at herror
    cases herror

/-- **The compilers reconstruct the same control flow.** If the graph compiler accepts a separate
program, then so does the routine compiler, whatever it was used for before, and the routine has the
control flow of the function: its blocks are those of the handlers that control may come to, with
the one behind the program if that is come to, and their links are those of the function's
blocks. -/
theorem sameFlow_of_run {b : Routine.Backend} (hrun : (Graph.Backend.run p).run (.new s) = .ok () g)
    (hseparate : p.Separate) (hregisters : b.virtualRegisters = s.virtualRegisters) :
    ∃ b', (Routine.Backend.run p).run b = .ok () b' ∧ SameFlow p g b'.routine := by
  obtain ⟨hp, hgraph⟩ := Graph.Backend.finished_of_run hrun
  rcases Routine.Backend.run_cases hp hseparate b with
    ⟨b', hrun', hroutine⟩ | ⟨position, cause, _, hreach, hflaw, -⟩
  · rw [hregisters] at hroutine
    exact ⟨b', hrun', sameFlow_of_finished hgraph hroutine⟩
  -- A flaw at a reachable handler is one that the graph compiler would have found.
  · rw [hregisters, Graph.Backend.flaw?_of_run hrun hreach.lt_length] at hflaw
    cases hflaw

/-- A branch to itself, a branch whose two ways lead to the same handler, and a tail that control
never comes to. -/
def knotted : Program :=
  [{ opcode := .pushVr64, data := 3, address := 0x10, dispatch := 0, width := 5 },
    { opcode := .jnz, data := 0x15, address := 0x15, dispatch := 0, width := 12 },
    { opcode := .jnz, data := 0x2d, address := 0x21, dispatch := 0, width := 12 },
    { opcode := .vmExit, data := 0, address := 0x2d, dispatch := 0, width := 1 },
    { opcode := .jnz, data := 0x10, address := 0x2e, dispatch := 0, width := 12 }]

/-- The two ways of the second branch lead to one block, which the routine lists once and the graph
twice; the tail has blocks in the graph only. -/
theorem sameFlow_of_run_knotted :
    knotted.Separate ∧ ∃ g b', (Graph.Backend.run knotted).run (.new {}) = .ok () g ∧
      (Routine.Backend.run knotted).run { Routine.Backend.new {} with afterExit := true }
        = .ok () b' ∧
      SameFlow knotted g b'.routine := by
  have hseparate : knotted.Separate := ⟨by decide, by decide⟩
  obtain ⟨g, hrun⟩ : ∃ g, (Graph.Backend.run knotted).run (.new {}) = .ok () g :=
    Action.exists_of_succeeds (by decide +kernel)
  obtain ⟨b', hrun', hsame⟩ : ∃ b',
      (Routine.Backend.run knotted).run { Routine.Backend.new {} with afterExit := true }
        = .ok () b' ∧
        SameFlow knotted g b'.routine :=
    sameFlow_of_run hrun hseparate rfl
  exact ⟨hseparate, g, b', hrun, hrun', hsame⟩

/-! ## Acceptance -/

/-- The graph compiler accepts a program whose handlers are all good, and reports what is wrong with
the first one that is not. -/
structure Graph.Backend.Decides (s : Settings) (p : Program) : Prop where
  accepts : (∃ g, (run p).run (new s) = .ok () g) ↔ ∀ h ∈ p, h.Good s.virtualRegisters p
  refuses : (∃ h ∈ p, ¬ h.Good s.virtualRegisters p) → ∃ position cause g,
    p.Fault s.virtualRegisters position cause ∧
      (∀ q < position, ∀ h, p[q]? = some h → h.Good s.virtualRegisters p) ∧
      (run p).run (new s) = .error (.failed cause) g

/-- The routine compiler accepts a program if the handlers are good that control may come to, and
reports what is wrong with one of these if they are not. -/
structure Routine.Backend.Decides (b : Backend) (p : Program) : Prop where
  accepts : (∃ b', (run p).run b = .ok () b') ↔
    ∀ position h, p.Reachable position → p[position]? = some h → h.Good b.virtualRegisters p
  refuses : (∃ position h, p.Reachable position ∧ p[position]? = some h ∧
      ¬ h.Good b.virtualRegisters p) → ∃ position cause b',
    p.Reachable position ∧ p.Fault b.virtualRegisters position cause ∧
      (run p).run b = .error (.failed cause) b'
  noMissingBlock : ∀ opcode position b',
    (run p).run b ≠ .error (.failed (.missingBlock opcode position)) b'

/-- Whoever is at fault is not good, and is a handler of the program. -/
theorem Program.Fault.exists_not_good {cause : Failure}
    (hfault : p.Fault registers position cause) :
    ∃ h, p[position]? = some h ∧ ¬ h.Good registers p := by
  cases hh : p[position]? with
  | some h => exact ⟨h, rfl, fun hgood => not_fault_of_good hh hgood hfault⟩
  | none => cases hfault <;> simp_all

/-- Handlers are compiled in order, so the first flaw is the one that is met, and what is in front
of it is good. -/
theorem Graph.Backend.decides (s : Settings) (hp : p ≠ []) : Decides s p := by
  rcases run_cases s hp with ⟨hnone, haccepted⟩ | ⟨position, cause, g, hflaw, hnone, hrun⟩
  · have hgood : ∀ h ∈ p, h.Good s.virtualRegisters p := by
      intro h hmem
      obtain ⟨position, hh⟩ := List.mem_iff_getElem?.1 hmem
      exact Program.good_of_flaw?_eq_none hh (hnone position (List.getElem?_eq_some_iff.1 hh).1)
    exact ⟨⟨fun _ => hgood, fun _ => haccepted⟩,
      fun ⟨h, hmem, hbad⟩ => absurd (hgood h hmem) hbad⟩
  · have hfault := Program.fault_of_flaw? hflaw
    obtain ⟨h, hh, hbad⟩ := hfault.exists_not_good
    refine ⟨⟨?_, fun hgood => absurd (hgood h (List.mem_of_getElem? hh)) hbad⟩, fun _ => ?_⟩
    · rintro ⟨g', hrun'⟩
      rw [hrun] at hrun'
      cases hrun'
    · exact ⟨position, cause, g, hfault,
        fun q hq h hh => Program.good_of_flaw?_eq_none hh (hnone q hq), hrun⟩

/-- Blocks are compiled as control comes to them, so a flaw that is met is one that control may come
to; it need not be the first. A missing block is no flaw of a handler, and nothing else is ever
reported. -/
theorem Routine.Backend.decides (hp : p ≠ []) (hseparate : p.Separate) (b : Backend) :
    Decides b p := by
  rcases run_cases hp hseparate b with
    ⟨b', hrun, hfinished⟩ | ⟨position, cause, b', hreach, hflaw, hrun⟩
  · have hgood : ∀ position h, p.Reachable position → p[position]? = some h →
        h.Good b.virtualRegisters p :=
      fun position h hreach hh => Program.good_of_flaw?_eq_none hh (hfinished.handler hreach).1
    refine ⟨⟨fun _ => hgood, fun _ => ⟨b', hrun⟩⟩, ?_, ?_⟩
    · rintro ⟨position, h, hreach, hh, hbad⟩
      exact absurd (hgood position h hreach hh) hbad
    · intro opcode position b'' hrun'
      rw [hrun] at hrun'
      cases hrun'
  · have hfault := Program.fault_of_flaw? hflaw
    obtain ⟨h, hh, hbad⟩ := hfault.exists_not_good
    refine ⟨⟨?_, fun hgood => absurd (hgood position h hreach hh) hbad⟩,
      fun _ => ⟨position, cause, b', hreach, hfault, hrun⟩, ?_⟩
    · rintro ⟨b'', hrun'⟩
      rw [hrun] at hrun'
      cases hrun'
    · intro opcode position' b'' hrun'
      rw [hrun] at hrun'
      cases hrun'
      cases hfault

/-- **Which programs the compilers accept.** The graph compiler asks that every handler is good and
reports the first that is not. The routine compiler, for a separate program, asks it only of the
handlers that control may come to and reports one of these; it never looks for a block in vain. So
it accepts whatever the graph compiler accepts. -/
theorem exact_acceptance (s : Settings) (p : Program) (hp : p ≠ []) :
    Graph.Backend.Decides s p ∧
      (p.Separate → ∀ b : Routine.Backend, b.virtualRegisters = s.virtualRegisters →
        b.Decides p ∧
          ((∃ g, (Graph.Backend.run p).run (.new s) = .ok () g) →
            ∃ b', (Routine.Backend.run p).run b = .ok () b')) := by
  have hgraph := Graph.Backend.decides s hp
  refine ⟨hgraph, fun hseparate b hregisters => ?_⟩
  have hroutine := Routine.Backend.decides hp hseparate b
  refine ⟨hroutine, fun haccepted => hroutine.accepts.2 fun position h _ hh => ?_⟩
  rw [hregisters]
  exact hgraph.accepts.1 haccepted h (List.mem_of_getElem? hh)

/-- Leaves at once; what stands behind is not known. -/
def trailing : Program :=
  [{ opcode := .vmExit, data := 0, address := 0x10, dispatch := 0, width := 1 },
    { opcode := .unknown, data := 0, address := 0x11, dispatch := 0, width := 1 }]

/-- Control never comes behind the exit. It is by induction on how control comes to a position, as
for any program. -/
theorem reachable_trailing (hreach : trailing.Reachable position) : position = 0 := by
  induction hreach with
  | zero => rfl
  | step _ hleads ih =>
    subst ih
    cases hleads with
    | next hh hexit =>
      cases hh
      exact absurd rfl hexit
    | taken hh hjnz =>
      cases hh
      cases hjnz

/-- One compiler refuses what the other accepts: the unknown handler stands where control does not
come. -/
theorem exact_acceptance_trailing :
    trailing ≠ [] ∧ trailing.Separate ∧
      (∃ position cause g, trailing.Fault 32 position cause ∧
        (Graph.Backend.run trailing).run (.new {}) = .error (.failed cause) g) ∧
      ∃ b', (Routine.Backend.run trailing).run (.new {}) = .ok () b' := by
  have hseparate : trailing.Separate := ⟨by decide, by decide⟩
  obtain ⟨hgraph, hroutine⟩ := exact_acceptance {} trailing (by decide)
  have hbad : ∃ h ∈ trailing, ¬ h.Good 32 trailing :=
    ⟨_, List.mem_cons_of_mem _ (List.mem_singleton_self _), fun hgood => hgood.known rfl⟩
  obtain ⟨position, cause, g, hfault, -, hrun⟩ := hgraph.refuses hbad
  refine ⟨by decide, hseparate, ⟨position, cause, g, hfault, hrun⟩, ?_⟩
  refine (hroutine hseparate _ rfl).1.accepts.2 fun position h hreach hh => ?_
  cases reachable_trailing hreach
  cases hh
  exact ⟨nofun, nofun, nofun⟩

end CodeRecovery
