/-
The links of a routine under any session.

A link is kept twice, at the block it starts from and at the block it leads to, and the two lists
are updated one after the other. `Paired` says that they tell the same story: no link is lost,
repeated, or ends where there is no block. It survives because the compiler only ever links from its
current block, and the current block is always there. `Consistent` adds what ties the compiler's own
records to the blocks; every session on any programs keeps it, whatever the calls and their order,
and blocks only go away when the compiler starts over.
-/
import CodeRecovery.Proofs.Routine.Moves

set_option autoImplicit false

namespace CodeRecovery.Routine

/-- The links are kept at both ends, once each, and lead from block to block. Nothing is said of
what blocks do. -/
structure Paired (r : Routine) : Prop where
  address : ∀ {a block}, r.block? a = some block → block.address = a
  mirrored : ∀ {a a' block block'}, r.block? a = some block → r.block? a' = some block' →
    (a' ∈ block.next ↔ a ∈ block'.prev)
  next : ∀ {a block}, r.block? a = some block → ∀ a' ∈ block.next, (r.block? a').isSome
  prev : ∀ {a block}, r.block? a = some block → ∀ a' ∈ block.prev, (r.block? a').isSome
  nodup_next : ∀ {a block}, r.block? a = some block → block.next.Nodup
  nodup_prev : ∀ {a block}, r.block? a = some block → block.prev.Nodup

namespace Paired

variable {r r' : Routine}

theorem new (entry : BytecodeAddress) : Paired (.new entry) := by
  have hnew : ∀ {a block}, (Routine.new entry).block? a = some block →
      block = { address := a } := by
    intro a block hblock
    rw [block?_new] at hblock
    split at hblock
    · rename_i ha
      rw [ha]
      exact (Option.some.inj hblock).symm
    · cases hblock
  refine ⟨?named, ?mirrored, ?next, ?prev, ?nodup_next, ?nodup_prev⟩
  case named =>
    intro a block hblock
    rw [hnew hblock]
  case mirrored =>
    intro a a' block block' hblock hblock'
    rw [hnew hblock, hnew hblock']
    exact ⟨fun ha => absurd ha List.not_mem_nil, fun ha => absurd ha List.not_mem_nil⟩
  case next =>
    intro a block hblock a' ha'
    rw [hnew hblock] at ha'
    exact absurd ha' List.not_mem_nil
  case prev =>
    intro a block hblock a' ha'
    rw [hnew hblock] at ha'
    exact absurd ha' List.not_mem_nil
  case nodup_next =>
    intro a block hblock
    rw [hnew hblock]
    exact List.nodup_nil
  case nodup_prev =>
    intro a block hblock
    rw [hnew hblock]
    exact List.nodup_nil

/-- Changes to the blocks that leave their links alone. -/
theorem of_same (h : Paired r) (hsome : ∀ a, (r.block? a).isSome → (r'.block? a).isSome)
    (hsame : ∀ {a block'}, r'.block? a = some block' → ∃ block, r.block? a = some block ∧
      block'.address = block.address ∧ block'.next = block.next ∧ block'.prev = block.prev) :
    Paired r' where
  address hblock' := by
    obtain ⟨block, hblock, haddress, -, -⟩ := hsame hblock'
    rw [haddress]
    exact h.address hblock
  mirrored hblock₁' hblock₂' := by
    obtain ⟨block₁, hblock₁, -, hnext, -⟩ := hsame hblock₁'
    obtain ⟨block₂, hblock₂, -, -, hprev⟩ := hsame hblock₂'
    rw [hnext, hprev]
    exact h.mirrored hblock₁ hblock₂
  next hblock' a ha := by
    obtain ⟨block, hblock, -, hnext, -⟩ := hsame hblock'
    rw [hnext] at ha
    exact hsome a (h.next hblock a ha)
  prev hblock' a ha := by
    obtain ⟨block, hblock, -, -, hprev⟩ := hsame hblock'
    rw [hprev] at ha
    exact hsome a (h.prev hblock a ha)
  nodup_next hblock' := by
    obtain ⟨block, hblock, -, hnext, -⟩ := hsame hblock'
    rw [hnext]
    exact h.nodup_next hblock
  nodup_prev hblock' := by
    obtain ⟨block, hblock, -, -, hprev⟩ := hsame hblock'
    rw [hprev]
    exact h.nodup_prev hblock

/-- A block that was not there has no links, and nothing was linked to it, since links lead to
blocks. -/
theorem create (h : Paired r) (target : BytecodeAddress) : Paired (r.create target) where
  address hblock := by
    rcases block?_create_cases hblock with hold | ⟨-, rfl⟩
    · exact h.address hold
    · rfl
  mirrored hblock₁ hblock₂ := by
    rcases block?_create_cases hblock₁ with hold₁ | ⟨hnone₁, rfl⟩
    · rcases block?_create_cases hblock₂ with hold₂ | ⟨hnone₂, rfl⟩
      · exact h.mirrored hold₁ hold₂
      -- A link between an old block and the new one would have led to a block that was not there.
      · refine ⟨fun hmem => ?_, fun hmem => absurd hmem List.not_mem_nil⟩
        have hsome := h.next hold₁ _ hmem
        rw [hnone₂] at hsome
        cases hsome
    · rcases block?_create_cases hblock₂ with hold₂ | ⟨hnone₂, rfl⟩
      · refine ⟨fun hmem => absurd hmem List.not_mem_nil, fun hmem => ?_⟩
        have hsome := h.prev hold₂ _ hmem
        rw [hnone₁] at hsome
        cases hsome
      · exact ⟨fun hmem => absurd hmem List.not_mem_nil, fun hmem => absurd hmem List.not_mem_nil⟩
  next hblock a ha := by
    rcases block?_create_cases hblock with hold | ⟨-, rfl⟩
    · exact isSome_block?_create _ _ (h.next hold a ha)
    · exact absurd ha List.not_mem_nil
  prev hblock a ha := by
    rcases block?_create_cases hblock with hold | ⟨-, rfl⟩
    · exact isSome_block?_create _ _ (h.prev hold a ha)
    · exact absurd ha List.not_mem_nil
  nodup_next hblock := by
    rcases block?_create_cases hblock with hold | ⟨-, rfl⟩
    · exact h.nodup_next hold
    · exact List.nodup_nil
  nodup_prev hblock := by
    rcases block?_create_cases hblock with hold | ⟨-, rfl⟩
    · exact h.nodup_prev hold
    · exact List.nodup_nil

end Paired

/-- The entry at the source, said as that at the target. -/
theorem Block.mem_next_linked_iff (source target a : BytecodeAddress) (b : Block)
    {x : BytecodeAddress} :
    x ∈ (b.linked source target a).next ↔ x ∈ b.next ∨ a = source ∧ x = target := by
  rw [next_linked, next_addNext]
  by_cases ha : a = source
  · rw [if_pos ha]
    by_cases hmem : target ∈ b.next
    · rw [if_pos hmem]
      exact ⟨.inl, fun hx => hx.elim id fun heq => heq.2 ▸ hmem⟩
    · rw [if_neg hmem, List.mem_append, List.mem_singleton]
      simp only [ha, true_and]
  · rw [if_neg ha]
    simp only [ha, false_and, or_false]

/-- Linking two blocks, of which the first is there, makes the same entry at both ends. If the first
were not there, only one would be made. -/
theorem Paired.addEdge {r : Routine} (h : Paired r) {source target : BytecodeAddress}
    (hsource : (r.block? source).isSome) : Paired (r.addEdge source target) := by
  have hcreate := h.create target
  have hsome : ∀ {a}, ((r.create target).block? a).isSome →
      ((r.addEdge source target).block? a).isSome := by
    intro a ha
    rwa [block?_addEdge, Option.isSome_map]
  have htarget : ((r.create target).block? target).isSome := by
    rw [block?_create, if_pos rfl]
    rfl
  refine ⟨?named, ?mirrored, ?next, ?prev, ?nodup_next, ?nodup_prev⟩
  case named =>
    intro a block' hblock'
    obtain ⟨block, hblock, rfl⟩ := exists_of_block?_addEdge hblock'
    rw [Block.address_linked]
    exact hcreate.address hblock
  case mirrored =>
    intro a a' block₁' block₂' hblock₁' hblock₂'
    obtain ⟨block₁, hblock₁, rfl⟩ := exists_of_block?_addEdge hblock₁'
    obtain ⟨block₂, hblock₂, rfl⟩ := exists_of_block?_addEdge hblock₂'
    rw [Block.mem_next_linked_iff, Block.mem_prev_linked, hcreate.mirrored hblock₁ hblock₂,
      and_comm (a := a = source)]
  case next =>
    intro a block' hblock' x hx
    obtain ⟨block, hblock, rfl⟩ := exists_of_block?_addEdge hblock'
    rcases (Block.mem_next_linked_iff _ _ _ _).1 hx with hold | ⟨-, rfl⟩
    · exact hsome (hcreate.next hblock x hold)
    · exact hsome htarget
  case prev =>
    intro a block' hblock' x hx
    obtain ⟨block, hblock, rfl⟩ := exists_of_block?_addEdge hblock'
    rcases (Block.mem_prev_linked _ _ _ _).1 hx with hold | ⟨-, rfl⟩
    · exact hsome (hcreate.prev hblock x hold)
    · exact hsome (isSome_block?_create _ _ hsource)
  case nodup_next =>
    intro a block' hblock'
    obtain ⟨block, hblock, rfl⟩ := exists_of_block?_addEdge hblock'
    exact Block.nodup_next_linked _ _ _ block (hcreate.nodup_next hblock)
  case nodup_prev =>
    intro a block' hblock'
    obtain ⟨block, hblock, rfl⟩ := exists_of_block?_addEdge hblock'
    exact Block.nodup_prev_linked _ _ _ block (hcreate.nodup_prev hblock)

namespace Backend

/-- The compiler's records agree with the blocks, and the links with each other. What is current or
written is a block. -/
structure Consistent (b : Backend) : Prop extends Paired b.routine where
  current : b.Has b.current
  entry : b.Has b.routine.entry
  /-- Something leads to every block but the entry. -/
  reached : ∀ {a block}, b.routine.block? a = some block → a ≠ b.routine.entry → block.prev ≠ []
  written : ∀ {a}, b.written.contains a = true → b.Has a

variable {b b' : Backend}

/-- A compiler that has just started. -/
theorem Blank.consistent (h : b.Blank) : b.Consistent where
  toPaired := by
    rw [h.routine]
    exact .new _
  current := h.has_iff.2 rfl
  entry := by
    rw [h.has_iff, h.routine]
    rfl
  reached := by
    intro a block hblock hne
    have hcurrent : a = b.current := h.has_iff.1 (Option.isSome_iff_exists.2 ⟨block, hblock⟩)
    refine absurd ?_ hne
    rw [hcurrent, h.routine]
    rfl
  written hwritten := by
    rw [h.written] at hwritten
    exact absurd hwritten (by simp)

/-- A change of the current block that leaves its links alone, such as adding code. -/
theorem Consistent.onBlock (h : b.Consistent) {change : Block → Block}
    (hchange : ∀ block, (change block).address = block.address ∧
      (change block).next = block.next ∧ (change block).prev = block.prev) :
    (b.onBlock change).Consistent := by
  have hsame : ∀ {a block'}, (b.onBlock change).routine.block? a = some block' →
      ∃ block, b.routine.block? a = some block ∧ block'.address = block.address ∧
        block'.next = block.next ∧ block'.prev = block.prev := by
    intro a block' hblock'
    rw [block?_onBlock] at hblock'
    by_cases ha : a = b.current
    · rw [if_pos ha] at hblock'
      cases hblock'
      exact ⟨b.block, ha ▸ block?_current h.current, hchange b.block⟩
    · rw [if_neg ha] at hblock'
      exact ⟨block', hblock', rfl, rfl, rfl⟩
  exact
    { toPaired := h.toPaired.of_same (fun a => has_onBlock b change) hsame
      current := has_current_onBlock b change
      entry := has_onBlock b change h.entry
      reached := by
        intro a block' hblock' hne
        obtain ⟨block, hblock, -, -, hprev⟩ := hsame hblock'
        rw [hprev]
        exact h.reached hblock hne
      written := fun ha => has_onBlock b change (h.written ha) }

/-- A link from the current block, which is there. If the link makes a block, something leads to
that block. -/
theorem Consistent.link (h : b.Consistent) (target : BytecodeAddress) :
    Consistent { b with routine := b.routine.addEdge b.current target } where
  toPaired := h.toPaired.addEdge h.current
  current := has_addEdge_of_has _ _ h.current
  entry := has_addEdge_of_has _ _ h.entry
  reached := by
    intro a block' hblock' hne
    obtain ⟨block, hblock, rfl⟩ := exists_of_block?_addEdge hblock'
    -- The only block that may be new is the target, and the link leads to it.
    by_cases ha : a = target
    · exact List.ne_nil_of_mem ((Block.mem_prev_linked _ _ _ _).2 (.inr ⟨ha, rfl⟩))
    · rw [block?_create, if_neg ha] at hblock
      obtain ⟨x, hx⟩ := List.exists_mem_of_ne_nil _ (h.reached hblock hne)
      exact List.ne_nil_of_mem ((Block.mem_prev_linked _ _ _ _).2 (.inl hx))
  written ha := has_addEdge_of_has _ _ (h.written ha)

/-- One move keeps the records consistent. -/
theorem Move.consistent (h : b.Move b') (hb : b.Consistent) : b'.Consistent := by
  cases h with
  | emit _ => exact hb.onBlock fun _ => ⟨rfl, rfl, rfl⟩
  | number bits => exact hb.onBlock fun _ => ⟨rfl, rfl, rfl⟩
  | link target => exact hb.link target
  | turn hroutine hcurrent hwritten =>
    refine ⟨hroutine ▸ hb.toPaired, ?_, ?_, ?_, ?_⟩
    · rw [Has, hroutine]
      exact hcurrent
    · rw [Has, hroutine]
      exact hb.entry
    · rw [hroutine]
      exact hb.reached
    · intro a ha
      rw [Has, hroutine]
      exact (hwritten a ha).elim hb.written id

/-- Any number of moves keeps them consistent. -/
theorem Moves.consistent (h : b.Moves b') (hb : b.Consistent) : b'.Consistent := by
  induction h with
  | refl => exact hb
  | tail _ hmove ih => exact hmove.consistent ih

/-- The records of every reached state, by its moves. -/
theorem Reached.consistent (h : b.Reached) : b.Consistent := by
  obtain ⟨b₀, hblank, hmoves⟩ := h
  exact hmoves.consistent hblank.consistent

/-- **The records are consistent after every session.** The calls may come in any order and number,
and each may be made for a program of its own; a call that halts half-way leaves consistent records
too. As long as nothing starts over, no block goes away. -/
theorem consistent_play (s : Settings) (calls : List (Program × FlowCall Operand)) :
    (play (new s) calls).Consistent ∧
      ∀ later : List (Program × FlowCall Operand), (∀ c ∈ later, c.2.restarts = false) →
        ∀ a, (play (new s) calls).Has a → (play (new s) (calls ++ later)).Has a := by
  have hreached := reached_play s calls
  refine ⟨hreached.consistent, fun later hlater a ha => ?_⟩
  rw [play_append]
  have hmoves := kept_onward.play (play (new s) calls) hlater hreached.has_current
  exact hmoves.has ha

/-- Calls before anything is started, then a handler that leads to itself and behind the program,
where the address of another handler is. -/
def circling : List (Program × FlowCall Operand) :=
  [(tangled, .jump (.handler 1)), (tangled, .ret), (tangled, .start), (tangled, .enter 0),
    (tangled, .branch (.word 1) 0 .exit)]

/-- That other handler, which is written already, and one more link to it. -/
def circlingOn : List (Program × FlowCall Operand) :=
  [(tangled, .enter 3), (tangled, .stack (.perform 3)), (tangled, .jump (.handler 3))]

/-- One link is made twice and a block is linked to itself; both are in the lists once. -/
theorem consistent_play_circling :
    (play (new {}) circling).Consistent ∧ (∀ c ∈ circlingOn, c.2.restarts = false) ∧
      (play (new {}) circling).Has 0x20 ∧ (play (new {}) (circling ++ circlingOn)).Has 0x20 ∧
      ((play (new {}) (circling ++ circlingOn)).routine.block? 0x10).map (fun b => (b.prev, b.next))
        = some ([0x10], [0x10, 0x20]) := by
  obtain ⟨hconsistent, hgrows⟩ := consistent_play {} circling
  have hlater : ∀ c ∈ circlingOn, c.2.restarts = false := by decide
  have hhas : (play (new {}) circling).Has 0x20 := by
    unfold Has
    decide +kernel
  exact ⟨hconsistent, hlater, hhas, hgrows circlingOn hlater 0x20 hhas, by decide +kernel⟩

end Backend

end CodeRecovery.Routine
