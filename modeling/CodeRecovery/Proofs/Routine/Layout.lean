/-
The blocks of a routine while it is being compiled.

Blocks are keyed by address, made on first mention and written in any order, so what a half-compiled
routine looks like is not a function of how far the compiler got. A `Sketch` records it instead: for
every destination the code written there, if any was, and where it was linked to, in order. `Drawn`
ties a sketch to the blocks, and says of their links both ways what the sketch says once. Each thing
the compiler does is then a small change to the sketch, and a whole handler adds its code and its
successors.

Addresses tell destinations apart here, which is where separate programs are needed.
-/
import CodeRecovery.Proofs.ControlFlow
import CodeRecovery.Proofs.Routine.Emission

set_option autoImplicit false

/-! ## Lists without repetition -/

namespace List

variable {α : Type} [BEq α] [LawfulBEq α]

/-- An element at the end is kept if it is new. This is how the compiler adds a link. -/
theorem eraseDups_concat (l : List α) (x : α) :
    (l ++ [x]).eraseDups = if x ∈ l then l.eraseDups else l.eraseDups ++ [x] := by
  rw [eraseDups_append]
  by_cases hx : x ∈ l
  · simp [removeAll, hx]
  · simp [removeAll, hx, eraseDups_cons]

omit [LawfulBEq α] in
/-- There are not more elements without repetition. -/
theorem length_eraseDups_le (l : List α) : l.eraseDups.length ≤ l.length := by
  cases l with
  | nil => exact Nat.le_refl 0
  | cons a rest =>
    have hfilter := length_filter_le (fun x => !x == a) rest
    have hrest := length_eraseDups_le (rest.filter fun x => !x == a)
    rw [eraseDups_cons, length_cons, length_cons]
    omega
termination_by l.length
decreasing_by exact Nat.lt_succ_of_le hfilter

end List

namespace CodeRecovery.Routine

/-! ## Sketches -/

/-- What has been written, and what has been linked, by destination and not by address. -/
structure Sketch where
  /-- The code of a destination; none if nothing was written there yet. -/
  text : Destination → Option (List Code)
  links : Destination → List Destination

namespace Sketch

/-- Nothing yet. -/
def blank : Sketch :=
  { text := fun _ => none, links := fun _ => [] }

/-- Adds a link. -/
def link (g : Sketch) (d d' : Destination) : Sketch :=
  { g with links := fun x => if x = d then g.links x ++ [d'] else g.links x }

/-- Replaces the code of a destination. -/
def write (g : Sketch) (d : Destination) (code : List Code) : Sketch :=
  { g with text := fun x => if x = d then some code else g.text x }

@[simp] theorem text_link (g : Sketch) (d d' x : Destination) :
    (g.link d d').text x = g.text x := rfl

@[simp] theorem links_link (g : Sketch) (d d' x : Destination) :
    (g.link d d').links x = if x = d then g.links x ++ [d'] else g.links x := rfl

/-- Afterwards there are the old links and the new one. -/
theorem mem_links_link {g : Sketch} {d d' x y : Destination} :
    x ∈ (g.link d d').links y ↔ x ∈ g.links y ∨ y = d ∧ x = d' := by
  by_cases hyd : y = d <;> simp [hyd]

@[simp] theorem text_write (g : Sketch) (d x : Destination) (code : List Code) :
    (g.write d code).text x = if x = d then some code else g.text x := rfl

@[simp] theorem links_write (g : Sketch) (d x : Destination) (code : List Code) :
    (g.write d code).links x = g.links x := rfl

end Sketch

/-- The block is as a sketch has it. Where nothing was written, no temporaries were handed out
either. -/
def Block.Holds (b : Block) : Option (List Code) → Prop
  | none => b.code = [] ∧ b.nextTemporary = 0
  | some code => b.code = code

/-- The blocks are those of the sketch, and the written addresses those with code. Links from a
block stand in the order in which they were made, each once; those to a block are the same ones seen
from the other end. -/
structure Drawn (p : Program) (g : Sketch) (r : Routine) (written : Std.TreeSet BytecodeAddress) :
    Prop where
  /-- Every block is where compiled code may come to. -/
  known : ∀ a, (r.block? a).isSome → ∃ d, p.Comes d ∧ p.site d = a
  source : ∀ d, p.Valid d → g.links d ≠ [] → (r.block? (p.site d)).isSome
  target : ∀ d d', p.Valid d → d' ∈ g.links d → (r.block? (p.site d')).isSome
  present : ∀ d, p.Valid d → (g.text d).isSome → (r.block? (p.site d)).isSome
  holds : ∀ d block, p.Valid d → r.block? (p.site d) = some block → block.Holds (g.text d)
  next : ∀ d block, p.Valid d → r.block? (p.site d) = some block →
    block.next = ((g.links d).map p.site).eraseDups
  nodup : ∀ d block, p.Valid d → r.block? (p.site d) = some block → block.prev.Nodup
  prev : ∀ d block, p.Valid d → r.block? (p.site d) = some block →
    ∀ a, a ∈ block.prev ↔ ∃ d', p.Valid d' ∧ a = p.site d' ∧ d ∈ g.links d'
  written : ∀ d, p.Valid d → written.contains (p.site d) = (g.text d).isSome

variable {p : Program} {g : Sketch} {r : Routine} {written : Std.TreeSet BytecodeAddress}
  {d d' : Destination}

/-! ## Links -/

/-- What linking two addresses does to the block at a third. The block may be the source, the
target, both or neither. -/
def Block.linked (source target a : BytecodeAddress) (b : Block) : Block :=
  let b := if a = target then b.addPrev source else b
  if a = source then b.addNext target else b

/-- Linking makes the target, if it was not there, and enters the link at both ends. -/
theorem block?_addEdge (r : Routine) (source target a : BytecodeAddress) :
    (r.addEdge source target).block? a
      = ((r.create target).block? a).map (Block.linked source target a) := by
  rw [addEdge, block?_modifyBlock, block?_modifyBlock, block?_modifyBlock]
  -- A block may be linked to itself, so being the source does not rule out being the target.
  by_cases hsource : a = source
  · subst hsource
    cases hblock : (r.create target).block? a with
    | none => by_cases htarget : a = target <;> simp_all
    | some block => by_cases htarget : a = target <;> simp_all [Block.linked]
  · cases hblock : (r.create target).block? a with
    | none => by_cases htarget : a = target <;> simp_all
    | some block => by_cases htarget : a = target <;> simp_all [Block.linked]

/-- A block of a routine with one more link is a block of the routine with the link entered. -/
theorem exists_of_block?_addEdge {r : Routine} {source target a : BytecodeAddress} {block' : Block}
    (h : (r.addEdge source target).block? a = some block') :
    ∃ block, (r.create target).block? a = some block ∧ block' = block.linked source target a := by
  rw [block?_addEdge] at h
  obtain ⟨block, hblock, heq⟩ := Option.map_eq_some_iff.1 h
  exact ⟨block, hblock, heq.symm⟩

/-- A new address at the end of a list repeats nothing. -/
theorem nodup_concat {l : List Word} {x : Word} (h : l.Nodup) (hx : x ∉ l) : (l ++ [x]).Nodup := by
  refine List.nodup_append.2 ⟨h, by simp, fun y hy y' hy' heq => hx ?_⟩
  rwa [heq, List.mem_singleton.1 hy'] at hy

namespace Block

section

variable (b : Block) (a : BytecodeAddress)

@[simp] theorem address_addPrev : (b.addPrev a).address = b.address := by
  rw [addPrev]
  split <;> rfl

@[simp] theorem address_addNext : (b.addNext a).address = b.address := by
  rw [addNext]
  split <;> rfl

@[simp] theorem code_addPrev : (b.addPrev a).code = b.code := by
  rw [addPrev]
  split <;> rfl

@[simp] theorem nextTemporary_addPrev : (b.addPrev a).nextTemporary = b.nextTemporary := by
  rw [addPrev]
  split <;> rfl

@[simp] theorem next_addPrev : (b.addPrev a).next = b.next := by
  rw [addPrev]
  split <;> rfl

@[simp] theorem code_addNext : (b.addNext a).code = b.code := by
  rw [addNext]
  split <;> rfl

@[simp] theorem nextTemporary_addNext : (b.addNext a).nextTemporary = b.nextTemporary := by
  rw [addNext]
  split <;> rfl

@[simp] theorem prev_addNext : (b.addNext a).prev = b.prev := by
  rw [addNext]
  split <;> rfl

/-- A link that is there is not entered again. -/
theorem mem_prev_addPrev {x : BytecodeAddress} : x ∈ (b.addPrev a).prev ↔ x ∈ b.prev ∨ x = a := by
  rw [addPrev]
  split
  · rename_i hmem
    exact ⟨.inl, fun hx => hx.elim id fun heq => heq ▸ hmem⟩
  · simp

theorem nodup_prev_addPrev (h : b.prev.Nodup) : (b.addPrev a).prev.Nodup := by
  rw [addPrev]
  split
  · exact h
  · exact nodup_concat h ‹_›

/-- A link that leads on goes to the end of the list, unless it is there already. -/
theorem next_addNext : (b.addNext a).next = if a ∈ b.next then b.next else b.next ++ [a] := by
  rw [addNext]
  split <;> rfl

theorem nodup_next_addNext (h : b.next.Nodup) : (b.addNext a).next.Nodup := by
  rw [next_addNext]
  split
  · exact h
  · exact nodup_concat h ‹_›

end

variable (source target a : BytecodeAddress) (b : Block)

/-- Linking leaves alone what a block is and what it does. -/
theorem address_linked : (b.linked source target a).address = b.address := by
  simp only [linked]
  split <;> split <;> simp

theorem code_linked : (b.linked source target a).code = b.code := by
  simp only [linked]
  split <;> split <;> simp

/-- A link does not change what a block holds. -/
theorem holds_linked {text : Option (List Code)} (h : b.Holds text) :
    (b.linked source target a).Holds text := by
  have hcode := code_linked source target a b
  have htemporary : (b.linked source target a).nextTemporary = b.nextTemporary := by
    simp only [linked]
    split <;> split <;> simp
  cases text with
  | none => exact ⟨hcode.trans h.1, htemporary.trans h.2⟩
  | some code => exact hcode.trans h

/-- Links to others change at the source only, where the target is new. -/
theorem next_linked :
    (b.linked source target a).next = if a = source then (b.addNext target).next else b.next := by
  simp only [linked]
  split <;> split <;> simp [next_addNext]

theorem nodup_next_linked (h : b.next.Nodup) : (b.linked source target a).next.Nodup := by
  rw [next_linked]
  split
  · exact nodup_next_addNext b target h
  · exact h

theorem mem_next_linked {x : BytecodeAddress} (hx : x ∈ (b.linked source target a).next) :
    x ∈ b.next ∨ x = target := by
  rw [next_linked, next_addNext] at hx
  split at hx
  · split at hx
    · exact .inl hx
    · simpa using hx
  · exact .inl hx

/-- Links from others change at the target only, where the source is new. -/
theorem mem_prev_linked {x : BytecodeAddress} :
    x ∈ (b.linked source target a).prev ↔ x ∈ b.prev ∨ a = target ∧ x = source := by
  have hprev : (b.linked source target a).prev
      = if a = target then (b.addPrev source).prev else b.prev := by
    simp only [linked]
    split <;> split <;> simp
  rw [hprev]
  by_cases htarget : a = target
  · rw [if_pos htarget, mem_prev_addPrev]
    simp [htarget]
  · rw [if_neg htarget]
    simp [htarget]

/-- No link is entered twice. -/
theorem nodup_prev_linked (h : b.prev.Nodup) : (b.linked source target a).prev.Nodup := by
  simp only [linked]
  split <;> split <;> simp [nodup_prev_addPrev, h]

end Block

namespace Drawn

/-- A routine with nothing but an empty block, which a sketch without anything describes. -/
theorem new (hcomes : p.Comes d) : Drawn p .blank (.new (p.site d)) ∅ := by
  have hnew : ∀ {a block}, (Routine.new (p.site d)).block? a = some block →
      a = p.site d ∧ block = { address := p.site d } := by
    intro a block ha
    rw [block?_new] at ha
    split at ha
    · exact ⟨‹_›, (Option.some.inj ha).symm⟩
    · cases ha
  refine
    { known := ?known, holds := ?holds, next := ?next, nodup := ?nodup, prev := ?prev
      source := fun _ _ hlinks => absurd rfl hlinks
      target := fun _ _ _ hmem => absurd hmem List.not_mem_nil
      present := fun _ _ htext => nomatch htext
      written := fun _ _ => rfl }
  case known =>
    intro a ha
    obtain ⟨block, hblock⟩ := Option.isSome_iff_exists.1 ha
    exact ⟨d, hcomes, (hnew hblock).1.symm⟩
  case holds =>
    intro x block _ hblock
    rw [(hnew hblock).2]
    exact ⟨rfl, rfl⟩
  case next =>
    intro x block _ hblock
    rw [(hnew hblock).2]
    rfl
  case nodup =>
    intro x block _ hblock
    rw [(hnew hblock).2]
    exact List.nodup_nil
  case prev =>
    intro x block _ hblock a
    rw [(hnew hblock).2]
    simp [Sketch.blank]

/-- Nothing was written where there is no block. -/
theorem text_eq_none (h : Drawn p g r written) (hd : p.Valid d)
    (hnone : r.block? (p.site d) = none) : g.text d = none := by
  cases htext : g.text d with
  | none => rfl
  | some code =>
    have hpresent := h.present d hd (by rw [htext]; rfl)
    rw [hnone] at hpresent
    cases hpresent

/-- Nothing was linked from where there is no block. -/
theorem links_eq_nil (h : Drawn p g r written) (hd : p.Valid d)
    (hnone : r.block? (p.site d) = none) : g.links d = [] := by
  cases hlinks : g.links d with
  | nil => rfl
  | cons x rest =>
    have hpresent := h.source d hd (by simp [hlinks])
    rw [hnone] at hpresent
    cases hpresent

/-- Making a block where there is none changes nothing that the sketch tells: a block that was there
is still there, and a new one is empty, as is what the sketch has of it. -/
theorem create (h : Drawn p g r written) (hcomes : p.Comes d') :
    Drawn p g (r.create (p.site d')) written where
  known a ha := by
    rw [block?_create] at ha
    split at ha
    · exact ⟨d', hcomes, (‹a = p.site d'›).symm⟩
    · exact h.known a ha
  source d hd hlinks := isSome_block?_create _ _ (h.source d hd hlinks)
  target d x hd hx := isSome_block?_create _ _ (h.target d x hd hx)
  present d hd htext := isSome_block?_create _ _ (h.present d hd htext)
  holds d block hd hblock := by
    rcases block?_create_cases hblock with hold | ⟨hnone, rfl⟩
    · exact h.holds d block hd hold
    · rw [h.text_eq_none hd hnone]
      exact ⟨rfl, rfl⟩
  next d block hd hblock := by
    rcases block?_create_cases hblock with hold | ⟨hnone, rfl⟩
    · exact h.next d block hd hold
    · rw [h.links_eq_nil hd hnone]
      rfl
  nodup d block hd hblock := by
    rcases block?_create_cases hblock with hold | ⟨hnone, rfl⟩
    · exact h.nodup d block hd hold
    · exact List.nodup_nil
  prev d block hd hblock a := by
    rcases block?_create_cases hblock with hold | ⟨hnone, rfl⟩
    · exact h.prev d block hd hold a
    · refine ⟨fun ha => absurd ha (List.not_mem_nil), ?_⟩
      rintro ⟨x, hx, -, hmem⟩
      have hpresent := h.target x d hx hmem
      rw [hnone] at hpresent
      cases hpresent
  written := h.written

/-- Linking two destinations. Addresses tell them apart, so the two ends of the link are those that
the sketch has, and no other block is touched. A destination may be linked to itself. -/
theorem link (h : Drawn p g r written) (hseparate : p.Separate) (hd : p.Valid d)
    (hsource : (r.block? (p.site d)).isSome) (hcomes : p.Comes d') :
    Drawn p (g.link d d') (r.addEdge (p.site d) (p.site d')) written := by
  have hcreate := h.create hcomes
  have hsome : ∀ a, ((r.addEdge (p.site d) (p.site d')).block? a).isSome
      = ((r.create (p.site d')).block? a).isSome := by
    intro a
    rw [block?_addEdge, Option.isSome_map]
  have hsite : ∀ {x y}, p.Valid x → p.Valid y → (p.site x = p.site y ↔ x = y) :=
    fun hx hy => ⟨hseparate.injective hx hy, congrArg p.site⟩
  refine
    { known := ?known, source := ?sources, target := ?targets, present := ?present, holds := ?holds
      next := ?next, nodup := ?nodup, prev := ?prev, written := h.written }
  case known =>
    intro a ha
    rw [hsome] at ha
    exact hcreate.known a ha
  case sources =>
    intro x hx hlinks
    rw [hsome]
    by_cases hxd : x = d
    · rw [hxd]
      exact isSome_block?_create _ _ hsource
    · rw [Sketch.links_link, if_neg hxd] at hlinks
      exact hcreate.source x hx hlinks
  case targets =>
    intro x y hx hy
    rw [hsome]
    rcases Sketch.mem_links_link.1 hy with hy | ⟨-, rfl⟩
    · exact hcreate.target x y hx hy
    · rw [block?_create, if_pos rfl]
      rfl
  case present =>
    intro x hx htext
    rw [hsome]
    exact hcreate.present x hx htext
  case holds =>
    intro x block' hx hblock'
    obtain ⟨block, hblock, rfl⟩ := exists_of_block?_addEdge hblock'
    exact Block.holds_linked _ _ _ block (hcreate.holds x block hx hblock)
  case next =>
    intro x block' hx hblock'
    obtain ⟨block, hblock, rfl⟩ := exists_of_block?_addEdge hblock'
    have hnext := hcreate.next x block hx hblock
    rw [Block.next_linked, Block.next_addNext, Sketch.links_link]
    by_cases hxd : x = d
    · rw [if_pos (congrArg p.site hxd), if_pos hxd, List.map_append, List.map_singleton,
        List.eraseDups_concat, hnext]
      simp only [List.mem_eraseDups]
    · rw [if_neg (fun heq => hxd ((hsite hx hd).1 heq)), if_neg hxd, hnext]
  case nodup =>
    intro x block' hx hblock'
    obtain ⟨block, hblock, rfl⟩ := exists_of_block?_addEdge hblock'
    exact Block.nodup_prev_linked _ _ _ block (hcreate.nodup x block hx hblock)
  case prev =>
    intro x block' hx hblock' a
    obtain ⟨block, hblock, rfl⟩ := exists_of_block?_addEdge hblock'
    rw [Block.mem_prev_linked, hcreate.prev x block hx hblock, hsite hx hcomes.valid]
    constructor
    · rintro (⟨y, hy, rfl, hxy⟩ | ⟨hxd, rfl⟩)
      · exact ⟨y, hy, rfl, Sketch.mem_links_link.2 (.inl hxy)⟩
      · exact ⟨d, hd, rfl, Sketch.mem_links_link.2 (.inr ⟨rfl, hxd⟩)⟩
    · rintro ⟨y, hy, rfl, hxy⟩
      rcases Sketch.mem_links_link.1 hxy with hxy | ⟨rfl, hxd⟩
      · exact .inl ⟨y, hy, rfl, hxy⟩
      · exact .inr ⟨hxd, rfl⟩

/-- Replacing the code of a destination whose block is there. What links there are is the same
before and after, so only what blocks hold and which addresses are written is left to see to. -/
theorem write {r' : Routine} {written' : Std.TreeSet BytecodeAddress} {code : List Code}
    (h : Drawn p g r written) (hpresent : (r.block? (p.site d)).isSome)
    (hsome : ∀ a, (r'.block? a).isSome = (r.block? a).isSome)
    (hsame : ∀ {a block'}, r'.block? a = some block' → ∃ block, r.block? a = some block ∧
      block'.next = block.next ∧ block'.prev = block.prev)
    (hholds : ∀ x block, p.Valid x → r'.block? (p.site x) = some block →
      block.Holds ((g.write d code).text x))
    (hwritten : ∀ x, p.Valid x → written'.contains (p.site x) = ((g.write d code).text x).isSome) :
    Drawn p (g.write d code) r' written' where
  known a ha := h.known a (hsome a ▸ ha)
  source x hx hlinks := by
    rw [hsome]
    exact h.source x hx hlinks
  target x y hx hy := by
    rw [hsome]
    exact h.target x y hx hy
  present x hx htext := by
    rw [hsome]
    by_cases hxd : x = d
    · rw [hxd]
      exact hpresent
    · rw [Sketch.text_write, if_neg hxd] at htext
      exact h.present x hx htext
  holds := hholds
  next x block' hx hblock' := by
    obtain ⟨block, hblock, hnext, -⟩ := hsame hblock'
    rw [hnext]
    exact h.next x block hx hblock
  nodup x block' hx hblock' := by
    obtain ⟨block, hblock, -, hprev⟩ := hsame hblock'
    rw [hprev]
    exact h.nodup x block hx hblock
  prev x block' hx hblock' a := by
    obtain ⟨block, hblock, -, hprev⟩ := hsame hblock'
    rw [hprev]
    exact h.prev x block hx hblock a
  written := hwritten

/-- Writing more code where some was written before. The current block is that of one destination
only, because addresses are separate. -/
theorem emits {b b' : Backend} {code code' : List Code} {count : Nat}
    (h : Drawn p g b.routine b.written) (hseparate : p.Separate) (hd : p.Valid d)
    (hcurrent : b.current = p.site d) (htext : g.text d = some code)
    (hemits : b.Emits b' code' count) :
    Drawn p (g.write d (code ++ code')) b'.routine b'.written := by
  have hpresent : (b.routine.block? (p.site d)).isSome := h.present d hd (by rw [htext]; rfl)
  have hblock : b.routine.block? b.current = some b.block :=
    Backend.block?_current (hcurrent.symm ▸ hpresent)
  refine h.write hpresent (hemits.isSome_block? (hcurrent.symm ▸ hpresent)) ?links ?holds ?written
  case links =>
    intro a block' ha'
    rcases hemits.block?_cases ha' with ⟨rfl, rfl⟩ | ⟨-, ha⟩
    · exact ⟨b.block, hblock, hemits.block.next, hemits.block.prev⟩
    · exact ⟨block', ha, rfl, rfl⟩
  case holds =>
    intro x block hx hx'
    rw [Sketch.text_write]
    rcases hemits.block?_cases hx' with ⟨hsite, rfl⟩ | ⟨hsite, hx'⟩
    · have hholds := h.holds d b.block hd (hcurrent ▸ hblock)
      rw [htext] at hholds
      rw [if_pos (hseparate.injective hx hd (hsite.trans hcurrent))]
      exact hemits.block.code.trans (congrArg (· ++ code') hholds)
    · rw [if_neg fun hxd => hsite ((congrArg p.site hxd).trans hcurrent.symm)]
      exact h.holds x block hx hx'
  case written =>
    intro x hx
    rw [hemits.written, h.written x hx, Sketch.text_write]
    by_cases hxd : x = d
    · rw [if_pos hxd, hxd, htext]
      rfl
    · rw [if_neg hxd]

/-- Turning to a destination that nothing was written for. Its block is there and empty, and from
now on it counts as written. -/
theorem begin (h : Drawn p g r written) (hseparate : p.Separate) (hd : p.Valid d)
    (hpresent : (r.block? (p.site d)).isSome) (htext : g.text d = none) :
    Drawn p (g.write d []) r (written.insert (p.site d)) := by
  refine h.write hpresent (fun _ => rfl) (fun ha => ⟨_, ha, rfl, rfl⟩) ?holds ?written
  case holds =>
    intro x block hx hblock
    have hholds := h.holds x block hx hblock
    rw [Sketch.text_write]
    by_cases hxd : x = d
    · rw [hxd, htext] at hholds
      rw [if_pos hxd]
      exact hholds.1
    · rw [if_neg hxd]
      exact hholds
  case written =>
    intro x hx
    rw [Std.TreeSet.contains_insert, h.written x hx, Sketch.text_write]
    by_cases hxd : x = d
    · simp [hxd]
    · have hsite : p.site d ≠ p.site x := fun heq => hxd (hseparate.injective hd hx heq).symm
      simp [hxd, hsite]

end Drawn

/-! ## Leading on -/

namespace Backend

/-- The instruction that leaves the routine. -/
def leaveCode : Code :=
  (.vexit, [.native returnRegister])

/-- The code that leaves behind the native context: what the simulator does at the end of a
program. -/
def closing : List Code :=
  SavedRegister.popOrder.map restoreCode ++ [leaveCode]

/-- The compiler is in the middle of a destination, whose block is the current one. -/
structure At (p : Program) (g : Sketch) (d : Destination) (b : Backend) : Prop where
  drawn : Drawn p g b.routine b.written
  valid : p.Valid d
  current : b.current = p.site d
  text : (g.text d).isSome

/-- What stays the same all through a program: the entry, the number of registers, and blocks that
are there. -/
structure Keeps (b b' : Backend) : Prop where
  entry : b'.routine.entry = b.routine.entry
  virtualRegisters : b'.virtualRegisters = b.virtualRegisters
  blocks : ∀ a, (b.routine.block? a).isSome → (b'.routine.block? a).isSome

variable {b b' b'' : Backend} {code : List Code} {position : Nat}

theorem Keeps.trans (h : b.Keeps b') (h' : b'.Keeps b'') : b.Keeps b'' :=
  ⟨h'.entry.trans h.entry, h'.virtualRegisters.trans h.virtualRegisters,
    fun a ha => h'.blocks a (h.blocks a ha)⟩

theorem Emits.keeps {count : Nat} (h : b.Emits b' code count) : b.Keeps b' where
  entry := h.entry
  virtualRegisters := h.virtualRegisters
  blocks := by
    intro a ha
    by_cases hcurrent : a = b.current
    · subst hcurrent
      exact h.present ha
    · rw [h.others a hcurrent]
      exact ha

/-- A link makes blocks at most. -/
theorem keeps_addEdge (b : Backend) (source target : BytecodeAddress) :
    b.Keeps { b with routine := b.routine.addEdge source target } where
  entry := rfl
  virtualRegisters := rfl
  blocks := by
    intro a ha
    rw [block?_addEdge, Option.isSome_map, block?_create]
    split
    · rfl
    · exact ha

/-- The block of a destination in the middle of which the compiler is, is there. -/
theorem At.present (h : At p g d b) : (b.routine.block? (p.site d)).isSome :=
  h.drawn.present d h.valid h.text

/-- Writing more code, behind what the destination has. -/
theorem At.emits {code' : List Code} {count : Nat} (h : At p g d b) (hseparate : p.Separate)
    (htext : g.text d = some code) (hemits : b.Emits b' code' count) :
    At p (g.write d (code ++ code')) d b' where
  drawn := h.drawn.emits hseparate h.valid h.current htext hemits
  valid := h.valid
  current := hemits.current.trans h.current
  text := by
    rw [Sketch.text_write, if_pos rfl]
    rfl

/-- The handler at a position is found, and nothing is changed. -/
theorem run_fetch {σ : Type} {h : Handler} (s : σ) (hh : p[position]? = some h) :
    (p.fetch position : Action σ Handler).run s = .ok h s := by
  rw [Program.fetch, hh]
  rfl

/-- A destination has an address: that of its handler, or the one behind the program. -/
theorem run_addressFor (b : Backend) (hd : p.Valid d) :
    (addressFor p d).run b = .ok (p.site d) b := by
  cases d with
  | exit => rfl
  | handler position =>
    have hh : p[position]? = some p[position] := List.getElem?_eq_getElem hd
    rw [addressFor, Action.run_bind_of_ok (run_fetch b hh), Program.site_handler hh]
    rfl

/-- The blocks linked, and the code behind the program written if this is its first use. The code is
written once, however many handlers lead there. -/
def lead (g : Sketch) (d d' : Destination) : Sketch :=
  if d' = .exit ∧ g.text .exit = none then (g.link d d').write .exit closing else g.link d d'

/-- The closing code, as it is written. -/
theorem writes_closing (b : Backend) :
    Writes (do StackOps.restoreRegisters; leave) b () closing 0 :=
  (writes_restoreRegisters b).bind fun b' => .emit b' .vexit _

/-- Leading on to a destination whose code is somebody else's only links the two blocks. -/
theorem run_leadTo_link (b : Backend) (hd : p.Valid d)
    (hwritten : d = .exit → b.written.contains (p.site .exit) = true) :
    (leadTo p d).run b
      = .ok () { b with routine := b.routine.addEdge b.current (p.site d) } := by
  have hcondition : ¬ (d = .exit ∧ ¬ b.written.contains (p.site d)) := by
    rintro ⟨rfl, hnot⟩
    exact hnot (hwritten rfl)
  rw [leadTo, Action.run_bind_of_ok (run_addressFor b hd),
    Action.run_bind_of_ok (EStateM.run_modify _ b), Action.run_bind_of_ok (EStateM.run_get _)]
  exact congrArg (EStateM.run · _) (if_neg hcondition)

/-- The first time something leads behind the program, the closing code goes to a block of its own,
and the compiler comes back to where it was. -/
theorem run_leadTo_exit (b : Backend) (hwritten : b.written.contains (p.site .exit) = false) :
    ∃ b', (leadTo p .exit).run b = .ok () { b' with current := b.current } ∧
      Emits { b with
          routine := b.routine.addEdge b.current (p.site .exit)
          written := b.written.insert (p.site .exit)
          current := p.site .exit } b' closing 0 := by
  obtain ⟨b', hrun, hemits⟩ := writes_closing
    { b with
      routine := b.routine.addEdge b.current (p.site .exit)
      written := b.written.insert (p.site .exit)
      current := p.site .exit }
  refine ⟨b', ?_, hemits⟩
  have hcondition : Destination.exit = .exit ∧ ¬ b.written.contains (p.site .exit) := by
    rw [hwritten]
    exact ⟨rfl, Bool.false_ne_true⟩
  obtain ⟨u, b₁, hrestore, hleave⟩ := Action.exists_of_run_bind_ok hrun
  rw [leadTo, Action.run_bind_of_ok (run_addressFor (d := .exit) b trivial),
    Action.run_bind_of_ok (EStateM.run_modify _ b), Action.run_bind_of_ok (EStateM.run_get _)]
  refine (congrArg (EStateM.run · _) (if_pos hcondition)).trans ?_
  refine (Action.run_bind_of_ok (EStateM.run_set _ _)).trans ?_
  rw [Action.run_bind_of_ok hrestore, Action.run_bind_of_ok hleave]
  rfl

/-- Linking to a destination whose code is somebody else's: a handler, or the end of the program
when its code is there. -/
theorem At.leadTo_link (h : At p g d b) (hseparate : p.Separate) (hcomes : p.Comes d')
    (hwritten : d' = .exit → (g.text .exit).isSome) :
    ∃ b', (leadTo p d').run b = .ok () b' ∧ At p (g.link d d') d b' ∧ b.Keeps b' ∧
      b'.afterExit = b.afterExit := by
  have hdrawn := h.drawn.link hseparate h.valid h.present hcomes
  rw [← h.current] at hdrawn
  have hrun := run_leadTo_link b hcomes.valid fun heq =>
    (h.drawn.written .exit trivial).trans (hwritten heq)
  exact ⟨_, hrun, ⟨hdrawn, h.valid, h.current, h.text⟩, keeps_addEdge b _ _, rfl⟩

/-- Linking to the code behind the program for the first time. The compiler makes a detour over that
block and comes back, and the current block has nothing but a link more. -/
theorem At.leadTo_exit (h : At p g d b) (hd : d ≠ .exit) (hseparate : p.Separate)
    (hcomes : p.Comes .exit) (hnone : g.text .exit = none) :
    ∃ b', (leadTo p .exit).run b = .ok () b' ∧ At p ((g.link d .exit).write .exit closing) d b' ∧
      b.Keeps b' ∧ b'.afterExit = b.afterExit := by
  have hdrawn₁ := h.drawn.link hseparate h.valid h.present hcomes
  rw [← h.current] at hdrawn₁
  have htarget := hdrawn₁.target d .exit h.valid (by simp)
  have hwritten : b.written.contains (p.site .exit) = false := by
    rw [h.drawn.written .exit trivial, hnone]
    rfl
  obtain ⟨b₃, hrun, hemits⟩ := run_leadTo_exit b hwritten
  have hempty : ((g.link d .exit).write .exit []).text .exit = some [] := by simp
  have hdrawn₂ := hdrawn₁.begin (d := .exit) hseparate trivial htarget hnone
  have hdrawn₃ := hdrawn₂.emits (d := .exit) hseparate trivial rfl hempty hemits
  have hsketch : ((g.link d .exit).write .exit []).write .exit ([] ++ closing)
      = (g.link d .exit).write .exit closing := by
    simp only [Sketch.write, Sketch.mk.injEq, and_true]
    funext x
    by_cases hx : x = .exit
    · rw [if_pos hx, if_pos hx, List.nil_append]
    · rw [if_neg hx, if_neg hx, if_neg hx]
  rw [hsketch] at hdrawn₃
  have hblocks : ∀ a, (b.routine.block? a).isSome → (b₃.routine.block? a).isSome :=
    fun a ha => hemits.keeps.blocks a ((keeps_addEdge b _ _).blocks a ha)
  have htext : (((g.link d .exit).write .exit closing).text d).isSome := by
    rw [Sketch.text_write, if_neg hd]
    exact h.text
  exact ⟨_, hrun, ⟨hdrawn₃, h.valid, h.current, htext⟩,
    ⟨hemits.entry, hemits.virtualRegisters, hblocks⟩, hemits.afterExit⟩

/-- **Leading on to a destination**, from a handler. The sketch knows which of the two cases it
is. -/
theorem At.leadTo (h : At p g (.handler position) b) (hseparate : p.Separate)
    (hcomes : p.Comes d') :
    ∃ b', (leadTo p d').run b = .ok () b' ∧
      At p (lead g (.handler position) d') (.handler position) b' ∧
      b.Keeps b' ∧ b'.afterExit = b.afterExit := by
  rw [lead]
  by_cases hfirst : d' = .exit ∧ g.text .exit = none
  · rw [if_pos hfirst]
    obtain ⟨rfl, hnone⟩ := hfirst
    exact h.leadTo_exit (by simp) hseparate hcomes hnone
  · rw [if_neg hfirst]
    refine h.leadTo_link hseparate hcomes fun heq => ?_
    rw [Option.isSome_iff_ne_none]
    exact fun hnone => hfirst ⟨heq, hnone⟩

end Backend

end CodeRecovery.Routine
