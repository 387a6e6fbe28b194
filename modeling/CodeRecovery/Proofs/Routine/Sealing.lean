/-
Compiling any table at all.

Nothing is asked of the addresses here: handlers may share one, and one may lie where control leaves
the program. Blocks are then shared by destinations, so what a block holds cannot be said by
destination; it is said by address. Between two handlers a block is either written and ends in its
only branch, or it is empty and waits for a handler. `Orderly` is that, with a list of addresses at
which it need not hold because the compiler is in the middle of them: the block of the handler that
is being compiled, and for a moment the block behind the program as well. Each thing the compiler
does keeps it, whatever the two addresses are.

The compiler takes up pending handlers until there are none. `Program.Rounds` is that loop without a
bound; it ends since each round writes an address that was not written before.
-/
import CodeRecovery.Proofs.Routine.Exploration
import CodeRecovery.Proofs.Routine.Shape

set_option autoImplicit false

namespace CodeRecovery

/-! ## The compiler's loop -/

namespace Program

variable {σ V : Type} [FlowOps σ V]

/-- Compiling up to the point where handlers may be pending, which is one pass over the whole
table. -/
def firstPass (p : Program) : Action σ Unit := do
  FlowOps.start p
  (List.range p.length).forM p.compileAt

/-- Pending handlers are taken up for as long as there are any: which ones, and how it ends. -/
inductive Rounds (p : Program) : σ → List Nat → EStateM.Result Halt σ Unit → Prop
  | done {s : σ} : FlowOps.pending p s = none → Rounds p s [] (.ok () s)
  | halted {s s' : σ} {position : Nat} {cause : Halt} : FlowOps.pending p s = some position →
      (p.compileAt position).run s = .error cause s' → Rounds p s [position] (.error cause s')
  | next {s s' : σ} {position : Nat} {visited : List Nat} {result : EStateM.Result Halt σ Unit} :
      FlowOps.pending p s = some position → (p.compileAt position).run s = .ok () s' →
      Rounds p s' visited result → Rounds p s (position :: visited) result

end Program

namespace Routine

variable {p : Program}

/-! ## Blocks -/

/-- An instruction that ends a block. Where it may go on there is a block; it may also leave. -/
inductive Code.Ends (present : BytecodeAddress → Prop) : Code → Prop
  | js {condition : Operand} {yes no : BytecodeAddress} : condition.bits ≤ 64 → present yes →
      present no → Ends present (.js, [condition, .word yes, .word no])
  | jmp {target : BytecodeAddress} : present target → Ends present (.jmp, [.word target])
  | vexit : Ends present Backend.leaveCode

/-- The code of a block that was compiled to its end: plain code, not too much of it, and the one
instruction that ends it. -/
structure Closed (present : BytecodeAddress → Prop) (code : List Code) : Prop where
  split : ∃ body last, code = body ++ [last] ∧ (∀ c ∈ body, c.Plain) ∧ body.length ≤ 153 ∧
    last.Ends present

/-- More blocks do no harm, neither to an end nor to the block it closes. -/
theorem Code.Ends.mono {present present' : BytecodeAddress → Prop} {c : Code} (h : c.Ends present)
    (hle : ∀ a, present a → present' a) : c.Ends present' := by
  cases h with
  | js hbits hyes hno => exact .js hbits (hle _ hyes) (hle _ hno)
  | jmp htarget => exact .jmp (hle _ htarget)
  | vexit => exact .vexit

theorem Closed.mono {present present' : BytecodeAddress → Prop} {code : List Code}
    (h : Closed present code) (hle : ∀ a, present a → present' a) : Closed present' code := by
  obtain ⟨body, last, hcode, hplain, hlength, hends⟩ := h.split
  exact ⟨body, last, hcode, hplain, hlength, hends.mono hle⟩

/-- The links of a block are what they were, apart from new ones to blocks that are there. Nothing
is said of its code. -/
structure Block.Edited (present : BytecodeAddress → Prop) (block block' : Block) : Prop where
  address : block'.address = block.address
  prev : block.prev.Nodup → block'.prev.Nodup
  mem_prev : ∀ y ∈ block'.prev, y ∈ block.prev ∨ present y
  next : block.next.Nodup → block'.next.Nodup
  mem_next : ∀ y ∈ block'.next, y ∈ block.next ∨ present y

theorem Block.Edited.of_eq {present : BytecodeAddress → Prop} {block block' : Block}
    (haddress : block'.address = block.address) (hprev : block'.prev = block.prev)
    (hnext : block'.next = block.next) : block.Edited present block' :=
  ⟨haddress, fun h => hprev ▸ h, fun _ hy => .inl (hprev ▸ hy), fun h => hnext ▸ h,
    fun _ hy => .inl (hnext ▸ hy)⟩

/-- A handler starts at the address. -/
def Occupied (p : Program) (a : BytecodeAddress) : Prop :=
  ∃ position, position < p.length ∧ p.site (.handler position) = a

/-- Every block is compiled to its end or empty, except at the addresses that are busy. An empty
block is waiting for a handler. The blocks are given as a function, since they are changed at one
address at a time. -/
structure Orderly (p : Program) (busy : List BytecodeAddress)
    (blocks : BytecodeAddress → Option Block) (written : Std.TreeSet BytecodeAddress) : Prop where
  known : ∀ a, (blocks a).isSome → ∃ d, p.Valid d ∧ p.site d = a
  present : ∀ a, written.contains a = true → (blocks a).isSome
  address : ∀ a block, blocks a = some block → block.address = a
  prev : ∀ a block, blocks a = some block → block.prev.Nodup ∧ ∀ x ∈ block.prev, (blocks x).isSome
  next : ∀ a block, blocks a = some block → block.next.Nodup ∧ ∀ x ∈ block.next, (blocks x).isSome
  blank : ∀ a block, blocks a = some block → written.contains a = false →
    block.code = [] ∧ (a ∈ busy ∨ Occupied p a)
  closed : ∀ a block, blocks a = some block → written.contains a = true → a ∉ busy →
    Closed (fun x => (blocks x).isSome) block.code

namespace Orderly

variable {busy : List BytecodeAddress} {blocks : BytecodeAddress → Option Block}
  {written : Std.TreeSet BytecodeAddress} {r : Routine} {a : BytecodeAddress} {d : Destination}

/-- Where there is no block, nothing was written. -/
theorem contains_eq_false (h : Orderly p busy blocks written) (hnone : blocks a = none) :
    written.contains a = false := by
  cases hwritten : written.contains a with
  | false => rfl
  | true =>
    have hpresent := h.present a hwritten
    rw [hnone] at hpresent
    cases hpresent

/-- A routine with nothing but an empty block for a handler. The handler has its address, so the
block will be written. -/
theorem new (ha : Occupied p a) : Orderly p [] (Routine.new a).block? ∅ := by
  have hnew : ∀ {x block}, (Routine.new a).block? x = some block →
      x = a ∧ block = { address := a } := by
    intro x block hx
    rw [block?_new] at hx
    split at hx
    · exact ⟨‹_›, (Option.some.inj hx).symm⟩
    · cases hx
  refine
    { known := ?known, present := ?present, address := ?own, prev := ?prev, next := ?next
      blank := ?blank, closed := ?closed }
  case known =>
    intro x hx
    obtain ⟨block, hblock⟩ := Option.isSome_iff_exists.1 hx
    obtain ⟨position, hlt, hsite⟩ := ha
    exact ⟨.handler position, hlt, hsite.trans (hnew hblock).1.symm⟩
  case present =>
    intro x hx
    rw [Std.TreeSet.contains_emptyc] at hx
    cases hx
  case own =>
    intro x block hblock
    obtain ⟨rfl, rfl⟩ := hnew hblock
    rfl
  case prev =>
    intro x block hblock
    rw [(hnew hblock).2]
    exact ⟨List.nodup_nil, fun _ hmem => nomatch hmem⟩
  case next =>
    intro x block hblock
    rw [(hnew hblock).2]
    exact ⟨List.nodup_nil, fun _ hmem => nomatch hmem⟩
  case blank =>
    intro x block hblock _
    obtain ⟨rfl, rfl⟩ := hnew hblock
    exact ⟨rfl, .inr ha⟩
  case closed =>
    intro x block _ hx
    rw [Std.TreeSet.contains_emptyc] at hx
    cases hx

/-- More addresses may be busy, of which less is asked. -/
theorem widen (h : Orderly p busy blocks written) (a : BytecodeAddress) :
    Orderly p (a :: busy) blocks written where
  known := h.known
  present := h.present
  address := h.address
  prev := h.prev
  next := h.next
  blank := by
    intro x block hblock hx
    obtain ⟨hcode, hplace⟩ := h.blank x block hblock hx
    exact ⟨hcode, hplace.imp_left (List.mem_cons_of_mem a)⟩
  closed := by
    intro x block hblock hx hfree
    exact h.closed x block hblock hx fun hmem => hfree (List.mem_cons_of_mem a hmem)

/-- An address is no longer busy once its block is compiled to its end. -/
theorem release (h : Orderly p (a :: busy) blocks written) (hwritten : written.contains a = true)
    (hclosed : ∀ block, blocks a = some block → Closed (fun x => (blocks x).isSome) block.code) :
    Orderly p busy blocks written where
  known := h.known
  present := h.present
  address := h.address
  prev := h.prev
  next := h.next
  blank := by
    intro x block hblock hx
    obtain ⟨hcode, hplace⟩ := h.blank x block hblock hx
    refine ⟨hcode, hplace.imp_left fun hmem => ?_⟩
    refine (List.mem_cons.1 hmem).resolve_left fun heq => ?_
    rw [heq, hwritten] at hx
    cases hx
  closed := by
    intro x block hblock hx hfree
    by_cases heq : x = a
    · subst heq
      exact hclosed block hblock
    · refine h.closed x block hblock hx fun hmem => hfree ?_
      exact (List.mem_cons.1 hmem).resolve_left heq

/-- Turning to a block that is there and counts as written from now on. The address is busy, so its
block may be empty for the moment. -/
theorem insert (h : Orderly p (a :: busy) blocks written) (ha : (blocks a).isSome) :
    Orderly p (a :: busy) blocks (written.insert a) := by
  have hcontains : ∀ x, (written.insert a).contains x = true ↔
      x = a ∨ written.contains x = true := by
    intro x
    simp [Std.TreeSet.contains_insert, eq_comm (a := x)]
  refine { known := h.known, address := h.address, prev := h.prev, next := h.next
           present := ?present, blank := ?blank, closed := ?closed }
  case present =>
    intro x hx
    rcases (hcontains x).1 hx with rfl | hx
    · exact ha
    · exact h.present x hx
  case blank =>
    intro x block hblock hx
    refine h.blank x block hblock ?_
    cases hold : written.contains x with
    | false => rfl
    | true =>
      rw [(hcontains x).2 (.inr hold)] at hx
      cases hx
  case closed =>
    intro x block hblock hx hfree
    rcases (hcontains x).1 hx with rfl | hx
    · exact absurd List.mem_cons_self hfree
    · exact h.closed x block hblock hx hfree

/-- Making a block where there is none. The block is empty, so some handler must be waiting at its
address, or it must be busy. -/
theorem create (h : Orderly p busy r.block? written) (hd : p.Valid d)
    (hplace : written.contains (p.site d) = false → p.site d ∈ busy ∨ Occupied p (p.site d)) :
    Orderly p busy (r.create (p.site d)).block? written := by
  have hmono : ∀ x, (r.block? x).isSome → ((r.create (p.site d)).block? x).isSome :=
    fun x hx => isSome_block?_create r (p.site d) hx
  have hsite : ∀ {x block}, (r.create (p.site d)).block? x = some block → r.block? x = none →
      x = p.site d := by
    intro x block hblock hnone
    rw [block?_create] at hblock
    split at hblock
    · assumption
    · rw [hnone] at hblock
      cases hblock
  refine
    { known := ?known, present := fun x hx => hmono x (h.present x hx), address := ?own
      prev := ?prev, next := ?next, blank := ?blank, closed := ?closed }
  case known =>
    intro x hx
    obtain ⟨block, hblock⟩ := Option.isSome_iff_exists.1 hx
    rcases block?_create_cases hblock with hold | ⟨hnone, -⟩
    · exact h.known x (by rw [hold]; rfl)
    · exact ⟨d, hd, (hsite hblock hnone).symm⟩
  case own =>
    intro x block hblock
    rcases block?_create_cases hblock with hold | ⟨-, rfl⟩
    · exact h.address x block hold
    · rfl
  case prev =>
    intro x block hblock
    rcases block?_create_cases hblock with hold | ⟨-, rfl⟩
    · obtain ⟨hnodup, hsome⟩ := h.prev x block hold
      exact ⟨hnodup, fun y hy => hmono y (hsome y hy)⟩
    · exact ⟨List.nodup_nil, fun _ hmem => nomatch hmem⟩
  case next =>
    intro x block hblock
    rcases block?_create_cases hblock with hold | ⟨-, rfl⟩
    · obtain ⟨hnodup, hsome⟩ := h.next x block hold
      exact ⟨hnodup, fun y hy => hmono y (hsome y hy)⟩
    · exact ⟨List.nodup_nil, fun _ hmem => nomatch hmem⟩
  case blank =>
    intro x block hblock hx
    rcases block?_create_cases hblock with hold | ⟨hnone, rfl⟩
    · exact h.blank x block hold hx
    · rw [hsite hblock hnone] at hx ⊢
      exact ⟨rfl, hplace hx⟩
  case closed =>
    intro x block hblock hx hfree
    rcases block?_create_cases hblock with hold | ⟨hnone, -⟩
    · exact (h.closed x block hold hx hfree).mono hmono
    · -- Nothing is written where there was no block.
      rw [h.contains_eq_false hnone] at hx
      cases hx

/-- Changing blocks that are there: links to blocks are added, and code where it is written and
busy. Every change that makes no block is of this kind. -/
theorem edit {blocks' : BytecodeAddress → Option Block} (h : Orderly p busy blocks written)
    (hsome : ∀ x, (blocks' x).isSome = (blocks x).isSome)
    (hedited : ∀ x block', blocks' x = some block' → ∃ block, blocks x = some block ∧
      block.Edited (fun y => (blocks y).isSome) block' ∧
      (block'.code = block.code ∨ x ∈ busy ∧ written.contains x = true)) :
    Orderly p busy blocks' written := by
  refine
    { known := ?known, present := ?present, address := ?own, prev := ?prev, next := ?next
      blank := ?blank, closed := ?closed }
  case known =>
    intro x hx
    exact h.known x (hsome x ▸ hx)
  case present =>
    intro x hx
    exact (hsome x).trans (h.present x hx)
  case own =>
    intro x block' hblock'
    obtain ⟨block, hblock, hlinks, -⟩ := hedited x block' hblock'
    exact hlinks.address.trans (h.address x block hblock)
  case prev =>
    intro x block' hblock'
    obtain ⟨block, hblock, hlinks, -⟩ := hedited x block' hblock'
    obtain ⟨hnodup, hprev⟩ := h.prev x block hblock
    exact ⟨hlinks.prev hnodup, fun y hy =>
      (hsome y).trans ((hlinks.mem_prev y hy).elim (hprev y) id)⟩
  case next =>
    intro x block' hblock'
    obtain ⟨block, hblock, hlinks, -⟩ := hedited x block' hblock'
    obtain ⟨hnodup, hnext⟩ := h.next x block hblock
    exact ⟨hlinks.next hnodup, fun y hy =>
      (hsome y).trans ((hlinks.mem_next y hy).elim (hnext y) id)⟩
  case blank =>
    intro x block' hblock' hx
    obtain ⟨block, hblock, -, hcode | ⟨-, hwritten⟩⟩ := hedited x block' hblock'
    · rw [hcode]
      exact h.blank x block hblock hx
    · rw [hwritten] at hx
      cases hx
  case closed =>
    intro x block' hblock' hx hfree
    obtain ⟨block, hblock, -, hcode | ⟨hbusy, -⟩⟩ := hedited x block' hblock'
    · rw [hcode]
      exact (h.closed x block hblock hx hfree).mono fun y hy => (hsome y).trans hy
    · exact absurd hbusy hfree

/-- Linking two blocks that are there. They may be the same one. -/
theorem link {source target : BytecodeAddress} (h : Orderly p busy blocks written)
    (hsource : (blocks source).isSome) (htarget : (blocks target).isSome) :
    Orderly p busy (fun a => (blocks a).map (Block.linked source target a)) written := by
  refine h.edit (fun x => Option.isSome_map) fun x block' hblock' => ?_
  obtain ⟨block, hblock, rfl⟩ := Option.map_eq_some_iff.1 hblock'
  refine ⟨block, hblock, ?_, .inl (Block.code_linked source target x block)⟩
  refine ⟨Block.address_linked source target x block, Block.nodup_prev_linked _ _ _ _, ?_,
    Block.nodup_next_linked _ _ _ _, ?_⟩
  · intro y hy
    rcases (Block.mem_prev_linked _ _ _ _).1 hy with hy | ⟨-, rfl⟩
    · exact .inl hy
    · exact .inr hsource
  · intro y hy
    rcases Block.mem_next_linked _ _ _ _ hy with hy | rfl
    · exact .inl hy
    · exact .inr htarget

/-- Leading on to a block that is written, or else busy or waiting for a handler. The block is made
if it is not there. -/
theorem addEdge {source : BytecodeAddress} (h : Orderly p busy r.block? written)
    (hsource : (r.block? source).isSome) (hd : p.Valid d)
    (hplace : written.contains (p.site d) = false → p.site d ∈ busy ∨ Occupied p (p.site d)) :
    Orderly p busy (r.addEdge source (p.site d)).block? written := by
  have htarget : ((r.create (p.site d)).block? (p.site d)).isSome := by
    rw [block?_create, if_pos rfl]
    rfl
  have hlink := (h.create hd hplace).link (isSome_block?_create r (p.site d) hsource) htarget
  have hblocks : (r.addEdge source (p.site d)).block?
      = fun a => ((r.create (p.site d)).block? a).map (Block.linked source (p.site d) a) :=
    funext fun a => block?_addEdge r source (p.site d) a
  rw [hblocks]
  exact hlink

/-- Adding code to a block that is busy, and to no other. -/
theorem emits {b b' : Backend} {code : List Code} {count : Nat}
    (h : Orderly p busy b.routine.block? b.written) (hbusy : b.current ∈ busy)
    (hwritten : b.written.contains b.current = true) (hemits : b.Emits b' code count) :
    Orderly p busy b'.routine.block? b'.written := by
  have hpresent := h.present _ hwritten
  rw [hemits.written]
  refine h.edit (hemits.isSome_block? hpresent) fun x block' hx' => ?_
  rcases hemits.block?_cases hx' with ⟨rfl, rfl⟩ | ⟨-, hold⟩
  · exact ⟨b.block, Backend.block?_current hpresent,
      .of_eq hemits.block.address hemits.block.prev hemits.block.next, .inr ⟨hbusy, hwritten⟩⟩
  · exact ⟨block', hold, .of_eq rfl rfl rfl, .inl rfl⟩

end Orderly

namespace Backend

variable {b b₁ b' : Backend} {busy : List BytecodeAddress} {code code' : List Code}
  {count position : Nat} {d : Destination}

/-! ## One handler -/

/-- Blocks stay, and what is written stays written. -/
structure Extends (b b' : Backend) : Prop where
  blocks : ∀ a, (b.routine.block? a).isSome → (b'.routine.block? a).isSome
  written : ∀ a, b.written.contains a = true → b'.written.contains a = true

theorem Extends.trans (h : b.Extends b₁) (h' : b₁.Extends b') : b.Extends b' :=
  ⟨fun a ha => h'.blocks a (h.blocks a ha), fun a ha => h'.written a (h.written a ha)⟩

/-- Code makes no block go away. -/
theorem Emits.extends (h : b.Emits b' code count) : b.Extends b' :=
  ⟨h.keeps.blocks, fun _ ha => h.written ▸ ha⟩

/-- The address has a block. -/
def Has (b : Backend) (a : BytecodeAddress) : Prop :=
  (b.routine.block? a).isSome

/-- The compiler is between two handlers, and no address is busy. -/
def Intact (p : Program) (b : Backend) : Prop :=
  Orderly p [] b.routine.block? b.written

/-- The compiler is in the middle of a block, of which it has written `code`. Others may be busy
too. -/
structure Underway (p : Program) (busy : List BytecodeAddress) (code : List Code) (b : Backend) :
    Prop where
  orderly : Orderly p (b.current :: busy) b.routine.block? b.written
  written : b.written.contains b.current = true
  code : ∃ block, b.routine.block? b.current = some block ∧ block.code = code

/-- Turning to a block that nothing was written to. -/
theorem underway_begin {written : Std.TreeSet BytecodeAddress}
    (h : Orderly p (b.current :: busy) b.routine.block? written)
    (hpresent : (b.routine.block? b.current).isSome) (hnew : written.contains b.current = false)
    (hwritten : b.written = written.insert b.current) : Underway p busy [] b := by
  obtain ⟨block, hblock⟩ := Option.isSome_iff_exists.1 hpresent
  refine ⟨?_, ?_, block, hblock, (h.blank b.current block hblock hnew).1⟩
  · rw [hwritten]
    exact h.insert hpresent
  · rw [hwritten]
    exact Std.TreeSet.contains_insert_self

/-- Writing more code to the block. -/
theorem Underway.emits (h : Underway p busy code b) (hemits : b.Emits b' code' count) :
    Underway p busy (code ++ code') b' where
  orderly := by
    rw [hemits.current]
    exact h.orderly.emits List.mem_cons_self h.written hemits
  written := by
    rw [hemits.current, hemits.written]
    exact h.written
  code := by
    obtain ⟨block, hblock, rfl⟩ := h.code
    have hpresent : (b'.routine.block? b'.current).isSome := by
      rw [hemits.current]
      exact hemits.present (by rw [hblock]; rfl)
    have hold : b.block = block := by
      rw [Backend.block, hblock]
      rfl
    exact ⟨b'.block, block?_current hpresent, by rw [hemits.block.code, hold]⟩

/-- The block is compiled to its end, and its address no longer busy. -/
theorem Underway.finish (h : Underway p busy code b) (hclosed : Closed b.Has code) :
    Orderly p busy b.routine.block? b.written := by
  refine h.orderly.release h.written fun block hblock => ?_
  obtain ⟨block', hblock', rfl⟩ := h.code
  rw [hblock] at hblock'
  cases hblock'
  exact hclosed

/-- A link leaves the code of every block as it was. -/
theorem exists_block?_addEdge {r : Routine} {a : BytecodeAddress} {block : Block}
    (h : r.block? a = some block) (source target : BytecodeAddress) :
    ∃ block', (r.addEdge source target).block? a = some block' ∧ block'.code = block.code := by
  refine ⟨block.linked source target a, ?_, Block.code_linked source target a block⟩
  have hcreate : (r.create target).block? a = some block := by
    rw [block?_create]
    split
    · rename_i ha
      rw [← ha, h]
      rfl
    · exact h
  rw [block?_addEdge, hcreate]
  rfl

theorem has_addEdge (b : Backend) (source target : BytecodeAddress) :
    Has { b with routine := b.routine.addEdge source target } target := by
  rw [Has, block?_addEdge, Option.isSome_map, block?_create, if_pos rfl]
  rfl

/-- The code behind the program is that of a closed block. -/
theorem closed_closing (present : BytecodeAddress → Prop) : Closed present closing :=
  ⟨_, leaveCode, rfl, plain_map plain_restoreCode _, by rw [List.length_map]; decide, .vexit⟩

/-- Linking to a block that is written or waits for a handler. The current block itself may be the
target. -/
theorem Underway.leadTo_link (h : Underway p [] code b) (hd : p.Valid d)
    (hwritten : d = .exit → b.written.contains (p.site .exit) = true) :
    ∃ b', (leadTo p d).run b = .ok () b' ∧ Underway p [] code b' ∧ b'.Has (p.site d) ∧
      b.Extends b' := by
  obtain ⟨block, hblock, hcode⟩ := h.code
  obtain ⟨block', hblock', hcode'⟩ := exists_block?_addEdge hblock b.current (p.site d)
  have horderly := h.orderly.addEdge (h.orderly.present _ h.written) hd fun hnew => by
    cases d with
    | handler position => exact .inr ⟨position, hd, rfl⟩
    | exit =>
      rw [hwritten rfl] at hnew
      cases hnew
  exact ⟨_, run_leadTo_link b hd hwritten,
    ⟨horderly, h.written, block', hblock', hcode'.trans hcode⟩, has_addEdge b _ _,
    (keeps_addEdge b _ _).blocks, fun _ ha => ha⟩

/-- The first time something leads behind the program, the block there is written on the way. A
handler may start there; that handler is then taken to be written. Both addresses are busy for the
time of the detour. -/
theorem Underway.leadTo_exit (h : Underway p [] code b)
    (hnew : b.written.contains (p.site .exit) = false) :
    ∃ b', (leadTo p .exit).run b = .ok () b' ∧ Underway p [] code b' ∧ b'.Has (p.site .exit) ∧
      b.Extends b' := by
  obtain ⟨block, hblock, hcode⟩ := h.code
  obtain ⟨block', hblock', hcode'⟩ := exists_block?_addEdge hblock b.current (p.site .exit)
  obtain ⟨b₂, hrun, hemits⟩ := run_leadTo_exit b hnew
  -- The block behind the program is another one: that of the compiler is written already.
  have hne : b.current ≠ p.site .exit := by
    intro heq
    have hwritten := h.written
    rw [heq, hnew] at hwritten
    cases hwritten
  have horderly := (h.orderly.widen (p.site .exit)).addEdge (d := .exit)
    (h.orderly.present _ h.written) trivial fun _ => .inl List.mem_cons_self
  have hclosing := (underway_begin (b := { b with
      routine := b.routine.addEdge b.current (p.site .exit)
      written := b.written.insert (p.site .exit)
      current := p.site .exit }) horderly (has_addEdge b _ _) hnew rfl).emits hemits
  have hblock₂ : b₂.routine.block? b.current = some block' :=
    (hemits.others b.current hne).trans hblock'
  have hwritten₂ : ∀ a, b.written.contains a = true → b₂.written.contains a = true := by
    intro a ha
    rw [hemits.written, Std.TreeSet.contains_insert, ha, Bool.or_true]
  exact ⟨_, hrun, ⟨hclosing.finish (closed_closing _), hwritten₂ _ h.written, block', hblock₂,
      hcode'.trans hcode⟩, hemits.keeps.blocks _ (has_addEdge b _ _),
    fun a ha => hemits.keeps.blocks a ((keeps_addEdge b _ _).blocks a ha), hwritten₂⟩

/-- **Leading on to a destination**, whatever its address is. -/
theorem Underway.leadTo (h : Underway p [] code b) (hd : p.Valid d) :
    ∃ b', (leadTo p d).run b = .ok () b' ∧ Underway p [] code b' ∧ b'.Has (p.site d) ∧
      b.Extends b' := by
  by_cases hfirst : d = .exit ∧ b.written.contains (p.site .exit) = false
  · obtain ⟨rfl, hnew⟩ := hfirst
    exact h.leadTo_exit hnew
  · refine h.leadTo_link hd fun heq => ?_
    rw [← Bool.not_eq_false]
    exact fun hnew => hfirst ⟨heq, hnew⟩

/-! ### From the outcome to the end of the block -/

/-- What one more handler comes to: the compiler is between handlers again, and has not lost
anything. -/
structure Settles (p : Program) (b b' : Backend) : Prop where
  intact : Intact p b'
  extend : b.Extends b'

/-- Going on with another handler. Its block is there behind the link, so the jump leads to a
block. -/
theorem Underway.jump (h : Underway p [] code b) (hplain : ∀ c ∈ code, c.Plain)
    (hlength : code.length ≤ 136) (hd : p.Valid d) :
    ∃ b', (FlowOps.jump p d : Action Backend Unit).run b = .ok () b' ∧ Settles p b b' := by
  obtain ⟨b₁, hemit, hemits⟩ := Writes.emit b .jmp [.word (p.site d)]
  obtain ⟨b', hlead, hunder, hhas, hextends⟩ := (h.emits hemits).leadTo hd
  have hclosed : Closed b'.Has (code ++ [(.jmp, [.word (p.site d)])]) :=
    ⟨code, _, rfl, hplain, by omega, .jmp hhas⟩
  refine ⟨b', ?_, hunder.finish hclosed, hemits.extends.trans hextends⟩
  refine (Action.run_bind_of_ok (run_addressFor b hd)).trans ?_
  rw [Action.run_bind_of_ok hemit, hlead]

/-- Branching. The second link makes no block go away, so both ways lead to blocks. -/
theorem Underway.branch (h : Underway p [] code b) (hplain : ∀ c ∈ code, c.Plain)
    (hlength : code.length ≤ 136) {condition : Operand} (hbits : condition.bits ≤ 64) {taken : Nat}
    (htaken : taken < p.length) (hd : p.Valid d) :
    ∃ b', (FlowOps.branch p condition taken d : Action Backend Unit).run b = .ok () b' ∧
      Settles p b b' := by
  have hvalid : p.Valid (.handler taken) := htaken
  obtain ⟨b₁, hemit, hemits⟩ :=
    Writes.emit b .js [condition, .word (p.site (.handler taken)), .word (p.site d)]
  obtain ⟨b₂, hlead₂, hunder₂, hhas₂, hextends₂⟩ := (h.emits hemits).leadTo hvalid
  obtain ⟨b', hlead, hunder, hhas, hextends⟩ := hunder₂.leadTo hd
  have hclosed : Closed b'.Has
      (code ++ [(.js, [condition, .word (p.site (.handler taken)), .word (p.site d)])]) :=
    ⟨code, _, rfl, hplain, by omega, .js hbits (hextends.blocks _ hhas₂) hhas⟩
  refine ⟨b', ?_, hunder.finish hclosed, (hemits.extends.trans hextends₂).trans hextends⟩
  refine (Action.run_bind_of_ok (run_addressFor b hvalid)).trans ?_
  rw [Action.run_bind_of_ok (run_addressFor b hd), Action.run_bind_of_ok hemit,
    Action.run_bind_of_ok hlead₂, hlead]

/-- Leaving, for which no other block is needed. -/
theorem Underway.ret (h : Underway p [] code b) (hplain : ∀ c ∈ code, c.Plain)
    (hlength : code.length ≤ 153) :
    ∃ b', (FlowOps.ret : Action Backend Unit).run b = .ok () b' ∧ Settles p b b' := by
  obtain ⟨b₁, hemit, hemits⟩ := Writes.emit b .vexit [.native returnRegister]
  have hclosed : Closed b₁.Has (code ++ [leaveCode]) := ⟨code, _, rfl, hplain, hlength, .vexit⟩
  exact ⟨{ b₁ with afterExit := true }, Action.run_bind_of_ok hemit,
    (h.emits hemits).finish hclosed, hemits.extends.blocks, hemits.extends.written⟩

/-- Whatever a handler comes to, its block is closed if the compiler does not stop. The last handler
leaves behind its own code, which makes its block longer by the native context. -/
theorem Underway.conclude {outcome : Outcome Operand} (h : Underway p [] code b)
    (hplain : ∀ c ∈ code, c.Plain) (hlength : code.length ≤ 136)
    (hbits : ∀ condition target, outcome = .branch condition target → condition.bits ≤ 64)
    (hrun : (conclude p position outcome).run b = .ok () b') : Settles p b b' := by
  have hvalid : p.Valid (p.successor position) := by
    rw [Program.successor]
    split
    · assumption
    · trivial
  cases outcome with
  | next =>
    rw [Backend.conclude, Program.fallThrough] at hrun
    cases hnext : p.successor position with
    | handler next =>
      rw [hnext] at hvalid hrun
      obtain ⟨b₁, hjump, hsettles⟩ := h.jump hplain hlength hvalid
      rw [hjump] at hrun
      cases hrun
      exact hsettles
    | exit =>
      -- The last handler restores the native context in its own block.
      rw [hnext] at hrun
      obtain ⟨b₁, hrestore, hemits⟩ := writes_restoreRegisters b
      have hplain' : ∀ c ∈ code ++ SavedRegister.popOrder.map restoreCode, c.Plain := fun c hc =>
        (List.mem_append.1 hc).elim (hplain c) (plain_map plain_restoreCode _ c)
      have hlength' : (code ++ SavedRegister.popOrder.map restoreCode).length ≤ 153 := by
        have hsaved : SavedRegister.popOrder.length = 17 := rfl
        rw [List.length_append, List.length_map, hsaved]
        omega
      obtain ⟨b₂, hret, hsettles⟩ := (h.emits hemits).ret hplain' hlength'
      rw [Action.run_bind_of_ok hrestore, hret] at hrun
      cases hrun
      exact ⟨hsettles.intact, hemits.extends.trans hsettles.extend⟩
  | branch condition target =>
    obtain ⟨taken, b₁, htarget, hbranch⟩ := Action.exists_of_run_bind_ok hrun
    cases hat : p.positionAt? target with
    | none =>
      rw [Program.branchTarget_of_none hat] at htarget
      cases htarget
    | some found =>
      rw [Program.branchTarget_of_some hat] at htarget
      cases htarget
      obtain ⟨b₂, hrun', hsettles⟩ := h.branch hplain hlength (hbits condition target rfl)
        (Program.lt_of_positionAt? hat) hvalid
      rw [hrun'] at hbranch
      cases hbranch
      exact hsettles
  | exit =>
    obtain ⟨b₁, hret, hsettles⟩ := h.ret hplain (by omega)
    rw [Backend.conclude, hret] at hrun
    cases hrun
    exact hsettles

/-- A handler is skipped, or the compiler turns to a block that is there and not written. It does
not look at which handler a block was made for. -/
theorem enter_cases {h : Handler} {visit : Visit} (hh : p[position]? = some h)
    (hrun : (FlowOps.enter p position : Action Backend Visit).run b = .ok visit b') :
    (visit = .skip ∧ b' = b ∧ (b.Has h.address.toUInt64 → b.written.contains h.address.toUInt64)) ∨
      visit = .lower ∧ b' = b.entered h ∧ b.Has h.address.toUInt64 ∧
        b.written.contains h.address.toUInt64 = false := by
  obtain ⟨h', b₁, hfetch, hrun⟩ := Action.exists_of_run_bind_ok hrun
  rw [run_fetch b hh] at hfetch
  cases hfetch
  obtain ⟨b₂, b₃, hget, hrun⟩ := Action.exists_of_run_bind_ok hrun
  cases hget
  rw [Has, ← hasBlock_eq]
  cases hwritten : b.written.contains h.address.toUInt64 with
  | true =>
    rw [if_pos hwritten] at hrun
    cases hrun
    exact .inl ⟨rfl, rfl, fun _ => rfl⟩
  | false =>
    rw [if_neg (by rw [hwritten]; exact Bool.false_ne_true)] at hrun
    cases hblock : b.routine.hasBlock h.address.toUInt64 with
    | true =>
      rw [if_pos hblock] at hrun
      cases hrun
      exact .inr ⟨rfl, rfl, rfl, rfl⟩
    | false =>
      rw [if_neg (by rw [hblock]; exact Bool.false_ne_true)] at hrun
      split at hrun
      · cases hrun
        exact .inl ⟨rfl, rfl, fun hfalse => nomatch hfalse⟩
      · cases hrun

/-- **Compiling a handler keeps every block closed or empty.** A handler that has a block is written
behind it. -/
theorem Intact.compileAt (hintact : Intact p b) (hlt : position < p.length)
    (hrun : (p.compileAt position : Action Backend Unit).run b = .ok () b') :
    Settles p b b' ∧ (b.Has (p.site (.handler position)) → isWritten p b' position = true) := by
  have hh : p[position]? = some p[position] := List.getElem?_eq_getElem hlt
  generalize p[position] = h at hh
  have hsite := Program.site_handler hh
  cases henter : (FlowOps.enter p position : Action Backend Visit).run b with
  | error cause b₁ =>
    rw [Program.compileAt, Action.run_bind_of_ok (run_fetch b hh), Action.run_bind_of_error henter]
      at hrun
    cases hrun
  | ok visit b₁ =>
    rcases enter_cases hh henter with ⟨rfl, rfl, hwritten⟩ | ⟨rfl, rfl, hhas, hnew⟩
    · rw [run_compileAt_skip hh henter] at hrun
      cases hrun
      rw [isWritten, hsite]
      exact ⟨⟨hintact, fun _ ha => ha, fun _ ha => ha⟩, hwritten⟩
    · rw [run_compileAt_lower hh henter] at hrun
      obtain ⟨outcome, b₂, hperform, hconclude⟩ := Action.exists_of_run_bind_ok hrun
      obtain ⟨code, count, hemits, hplain, hlength, hbits⟩ := plain_of_perform hperform
      have hentered : Underway p [] [] (b.entered h) :=
        underway_begin (hintact.widen h.address.toUInt64) hhas hnew rfl
      have hsettles := (hentered.emits hemits).conclude hplain hlength hbits hconclude
      have hextends : b.Extends (b.entered h) := by
        refine ⟨fun _ ha => ha, fun a ha => ?_⟩
        rw [entered, Std.TreeSet.contains_insert, ha, Bool.or_true]
      refine ⟨⟨hsettles.intact, (hextends.trans hemits.extends).trans hsettles.extend⟩, fun _ => ?_⟩
      rw [isWritten, hsite]
      exact hsettles.extend.written _ (hemits.extends.written _ hentered.written)

/-! ## Whole tables -/

/-- How many of the handlers' addresses are not written, each counted once. This is what gets less
with each round. -/
def openAddresses (p : Program) (b : Backend) : Nat :=
  (p.map (·.address)).eraseDups.countP fun a => !b.written.contains a.toUInt64

/-- Writing one of them leaves fewer, since none that is written is forgotten. -/
theorem Extends.openAddresses_lt (hextends : b.Extends b') (hlt : position < p.length)
    (hopen : isWritten p b position = false) (hwritten : isWritten p b' position = true) :
    openAddresses p b' < openAddresses p b := by
  have hsite := Program.site_handler (List.getElem?_eq_getElem hlt)
  rw [isWritten, hsite] at hopen hwritten
  refine countP_lt_countP (x := p[position].address) ?_ ?_ ?_ ?_
  · rw [List.mem_eraseDups]
    exact List.mem_map_of_mem (List.getElem_mem hlt)
  · intro a _ ha
    cases hold : b.written.contains a.toUInt64 with
    | false => rfl
    | true =>
      rw [hextends.written _ hold] at ha
      cases ha
  · rw [hopen]
    rfl
  · rw [hwritten]
    rfl

/-- While a handler is pending, an address is left. -/
theorem openAddresses_pos (hlt : position < p.length) (hopen : isWritten p b position = false) :
    0 < openAddresses p b := by
  have hsite := Program.site_handler (List.getElem?_eq_getElem hlt)
  rw [isWritten, hsite] at hopen
  refine List.countP_pos_iff.2 ⟨p[position].address, ?_, by rw [hopen]; rfl⟩
  rw [List.mem_eraseDups]
  exact List.mem_map_of_mem (List.getElem_mem hlt)

/-- The rounds of the compiler: each takes up an address that was not written before, so there are
no more of them than such addresses. -/
structure Drains (p : Program) (b : Backend) (visited : List Nat)
    (result : EStateM.Result Halt Backend Unit) : Prop where
  rounds : p.Rounds b visited result
  fresh : ∀ position ∈ visited, isWritten p b position = false
  distinct : (visited.map fun position => p.site (.handler position)).Nodup
  bounded : visited.length ≤ openAddresses p b
  finished : ∀ b', result = .ok () b' → Intact p b' ∧ pending p b' = none

/-- The loop stops when nothing is pending, whatever fuel is left. -/
theorem run_drain_none (hpending : pending p b = none) (fuel : Nat) :
    (p.drain fuel : Action Backend Unit).run b = .ok () b := by
  cases fuel with
  | zero => rfl
  | succ fuel =>
    have hnone : (FlowOps.pending p b : Option Nat) = none := hpending
    rw [Program.drain, Action.run_bind_of_ok (EStateM.run_get b), hnone]
    rfl

/-- Otherwise it compiles a handler and goes on with less. -/
theorem run_drain_some (hpending : pending p b = some position) (fuel : Nat) :
    (p.drain (fuel + 1) : Action Backend Unit).run b
      = (do p.compileAt position; p.drain fuel : Action Backend Unit).run b := by
  have hsome : (FlowOps.pending p b : Option Nat) = some position := hpending
  rw [Program.drain, Action.run_bind_of_ok (EStateM.run_get b), hsome]

theorem drains_none (hintact : Intact p b) (hpending : pending p b = none) :
    Drains p b [] (.ok () b) where
  rounds := .done hpending
  fresh := fun _ hmem => nomatch hmem
  distinct := List.nodup_nil
  bounded := Nat.zero_le _
  finished := by
    rintro b' ⟨⟩
    exact ⟨hintact, hpending⟩

/-- One more round in front. The address that it writes is written in all later ones, so none of
them takes it up again. -/
theorem Drains.cons {visited : List Nat} {result : EStateM.Result Halt Backend Unit}
    (hpending : pending p b = some position)
    (hrun : (p.compileAt position : Action Backend Unit).run b = .ok () b₁)
    (hextends : b.Extends b₁) (hwritten : isWritten p b₁ position = true)
    (h : Drains p b₁ visited result) :
    Drains p b (position :: visited) result := by
  obtain ⟨hlt, hopen, -⟩ := pending_eq_some hpending
  refine
    { rounds := .next hpending hrun h.rounds, fresh := ?fresh, distinct := ?distinct
      bounded := ?bounded, finished := h.finished }
  case fresh =>
    intro q hq
    rcases List.mem_cons.1 hq with rfl | hq
    · exact hopen
    · -- What is not written later is not written now.
      cases hold : isWritten p b q with
      | false => rfl
      | true =>
        have hlater := h.fresh q hq
        rw [isWritten, hextends.written _ hold] at hlater
        cases hlater
  case distinct =>
    refine List.nodup_cons.2 ⟨fun hmem => ?_, h.distinct⟩
    obtain ⟨q, hq, hsite⟩ := List.mem_map.1 hmem
    have hlater := h.fresh q hq
    rw [isWritten, hsite] at hlater
    rw [isWritten, hlater] at hwritten
    cases hwritten
  case bounded =>
    have hless := hextends.openAddresses_lt hlt hopen hwritten
    have hbounded := h.bounded
    rw [List.length_cons]
    omega

/-- **The loop ends by itself**, within as many rounds as there are addresses that are not
written. -/
theorem Intact.drain (fuel : Nat) (hintact : Intact p b) (hfuel : openAddresses p b ≤ fuel) :
    ∃ visited, Drains p b visited ((p.drain fuel : Action Backend Unit).run b) := by
  -- By the fuel, which is never less than the number of open addresses; a round leaves fewer of
  -- both.
  induction fuel generalizing b with
  | zero =>
    have hnone : pending p b = none := by
      cases hpending : pending p b with
      | none => rfl
      | some position =>
        obtain ⟨hlt, hopen, -⟩ := pending_eq_some hpending
        have hpos := openAddresses_pos hlt hopen
        omega
    rw [run_drain_none hnone]
    exact ⟨[], drains_none hintact hnone⟩
  | succ fuel ih =>
    cases hpending : pending p b with
    | none =>
      rw [run_drain_none hpending]
      exact ⟨[], drains_none hintact hpending⟩
    | some position =>
      obtain ⟨hlt, hopen, hhas⟩ := pending_eq_some hpending
      rw [run_drain_some hpending]
      cases hrun : (p.compileAt position : Action Backend Unit).run b with
      | error cause b₁ =>
        rw [Action.run_bind_of_error hrun]
        exact ⟨[position],
          { rounds := .halted hpending hrun
            fresh := List.forall_mem_singleton.2 hopen
            distinct := List.nodup_cons.2 ⟨List.not_mem_nil, List.nodup_nil⟩
            bounded := openAddresses_pos hlt hopen
            finished := fun _ herror => nomatch herror }⟩
      | ok u b₁ =>
        obtain ⟨hsettles, hwritten⟩ := hintact.compileAt hlt hrun
        have hless := hsettles.extend.openAddresses_lt hlt hopen (hwritten hhas)
        obtain ⟨visited, hdrains⟩ := ih hsettles.intact (by omega)
        rw [Action.run_bind_of_ok hrun]
        exact ⟨position :: visited, hdrains.cons hpending hrun hsettles.extend (hwritten hhas)⟩

/-- At first there is one empty block, for the first handler. -/
theorem intact_started (hp : 0 < p.length) (b : Backend) : Intact p (b.started p) :=
  Orderly.new ⟨0, hp, rfl⟩

/-- Compiling is the first pass and then the loop, with as much fuel as there are handlers. -/
theorem run_compile_eq (hp : p ≠ []) (b : Backend) :
    (p.compile : Action Backend Unit).run b
      = (do p.firstPass; p.drain p.length : Action Backend Unit).run b := by
  have hempty : ¬ p.isEmpty = true := by simpa using hp
  rw [Program.compile, if_neg hempty, Program.firstPass, bind_assoc]

/-- The first pass leaves every block closed or empty, because each handler does. -/
theorem intact_of_firstPass (hp : 0 < p.length)
    (hrun : (p.firstPass : Action Backend Unit).run b = .ok () b') : Intact p b' := by
  rw [Program.firstPass, Action.run_bind_of_ok (run_start hp b)] at hrun
  refine Action.invariant_of_forM (fun q hq b₁ b₂ hintact hcompile => ?_) (intact_started hp b) hrun
  exact (hintact.compileAt (List.mem_range.1 hq) hcompile).1.intact

/-- The first pass stops, and the compiler with it, or the rounds follow. -/
theorem compile_cases (hp : p ≠ []) (b : Backend) :
    (∃ cause b', (p.firstPass : Action Backend Unit).run b = .error cause b' ∧
        (p.compile : Action Backend Unit).run b = .error cause b') ∨
      ∃ b₁ visited, (p.firstPass : Action Backend Unit).run b = .ok () b₁ ∧
        Drains p b₁ visited ((p.compile : Action Backend Unit).run b) := by
  rw [run_compile_eq hp]
  cases hfirst : (p.firstPass : Action Backend Unit).run b with
  | error cause b' => exact .inl ⟨cause, b', rfl, Action.run_bind_of_error hfirst⟩
  | ok u b₁ =>
    have hintact := intact_of_firstPass (List.length_pos_iff.2 hp) hfirst
    have hfuel : openAddresses p b₁ ≤ p.length := by
      refine Nat.le_trans List.countP_le_length (Nat.le_trans (List.length_eraseDups_le _) ?_)
      exact Nat.le_of_eq (List.length_map _)
    obtain ⟨visited, hdrains⟩ := hintact.drain p.length hfuel
    rw [Action.run_bind_of_ok hfirst]
    exact .inr ⟨b₁, visited, rfl, hdrains⟩

/-- A table that is compiled leaves every block closed or empty, and nothing pending. -/
theorem intact_of_compile (hp : p ≠ [])
    (hrun : (p.compile : Action Backend Unit).run b = .ok () b') :
    Intact p b' ∧ pending p b' = none := by
  rcases compile_cases hp b with ⟨cause, b₁, -, herror⟩ | ⟨b₁, visited, -, hdrains⟩
  · rw [hrun] at herror
    cases herror
  · exact hdrains.finished b' hrun

/-- With nothing pending, every block is closed. An empty one would wait for a handler, which would
be pending. -/
theorem Intact.closed_of_pending (hintact : Intact p b) (hpending : pending p b = none)
    {a : BytecodeAddress} {block : Block} (hblock : b.routine.block? a = some block) :
    Closed b.Has block.code := by
  have hhas : (b.routine.block? a).isSome := by
    rw [hblock]
    rfl
  refine Orderly.closed hintact a block hblock ?_ List.not_mem_nil
  cases hwritten : b.written.contains a with
  | true => rfl
  | false =>
    obtain ⟨-, hbusy | ⟨position, hlt, rfl⟩⟩ := hintact.blank a block hblock hwritten
    · cases hbusy
    · have hcompiled := pending_eq_none hpending hlt hhas
      rw [isWritten, hwritten] at hcompiled
      cases hcompiled

/-- Every block is where a handler starts or behind the program. -/
theorem Intact.place (hintact : Intact p b) {a : BytecodeAddress} {block : Block}
    (hblock : b.routine.block? a = some block) :
    block.address = a ∧ ((∃ h ∈ p, h.address.toUInt64 = a) ∨ a = p.exitAddress) := by
  refine ⟨Orderly.address hintact a block hblock, ?_⟩
  obtain ⟨d, hd, rfl⟩ := hintact.known a (by rw [hblock]; rfl)
  cases d with
  | handler position =>
    have hh : p[position]? = some p[position] := List.getElem?_eq_getElem hd
    exact .inl ⟨p[position], List.getElem_mem hd, (Program.site_handler hh).symm⟩
  | exit => exact .inr rfl

/-- **Every table is compiled or refused, and what is compiled is closed.** If the first pass goes
through, the loop of pending handlers ends by itself and visits no address twice. If the whole goes
through, every block has one branch, at its end, that leads to blocks, and lies where a handler
starts or behind the program. Nothing is asked of the addresses. -/
theorem sealed_compile (hp : p ≠ []) (b : Backend) :
    ((∃ cause b', (p.firstPass : Action Backend Unit).run b = .error cause b' ∧
        (p.compile : Action Backend Unit).run b = .error cause b') ∨
      ∃ b₁ visited, (p.firstPass : Action Backend Unit).run b = .ok () b₁ ∧
        p.Rounds b₁ visited ((p.compile : Action Backend Unit).run b) ∧
        (visited.map fun position => p.site (.handler position)).Nodup ∧
        visited.length ≤ (p.map (·.address)).eraseDups.length) ∧
    ∀ b', (p.compile : Action Backend Unit).run b = .ok () b' →
      ∀ a block, b'.routine.block? a = some block →
        Closed b'.Has block.code ∧ block.address = a ∧
          ((∃ h ∈ p, h.address.toUInt64 = a) ∨ a = p.exitAddress) := by
  constructor
  · rcases compile_cases hp b with hstopped | ⟨b₁, visited, hfirst, hdrains⟩
    · exact .inl hstopped
    · exact .inr ⟨b₁, visited, hfirst, hdrains.rounds, hdrains.distinct,
        Nat.le_trans hdrains.bounded List.countP_le_length⟩
  · intro b' hrun a block hblock
    obtain ⟨hintact, hpending⟩ := intact_of_compile hp hrun
    exact ⟨hintact.closed_of_pending hpending hblock, hintact.place hblock⟩

/-- The first handler shares its address with the sixth, and the program ends where the fourth one
starts. The fifth is passed over at first and pending at the end of the first pass. -/
def tangled : Program :=
  [.entry 0x10 0,
    { opcode := .jnz, data := 0x1c, address := 0x14, dispatch := 0, width := 4 },
    { opcode := .vmExit, data := 0, address := 0x18, dispatch := 0, width := 4 },
    { opcode := .pushVsp, data := 0, address := 0x20, dispatch := 0, width := 4 },
    { opcode := .vmExit, data := 0, address := 0x24, dispatch := 0, width := 4 },
    { opcode := .pushVsp, data := 0, address := 0x10, dispatch := 0, width := 4 },
    { opcode := .jnz, data := 0x24, address := 0x1c, dispatch := 0, width := 4 }]

/-- A block is shared by two handlers and another by a handler and the end of the program, and there
is one round of pending handlers. -/
theorem sealed_compile_tangled :
    ∃ b', tangled ≠ [] ∧ (tangled.compile : Action Backend Unit).run (.new {}) = .ok () b' ∧
      ∀ a block, b'.routine.block? a = some block →
        Closed b'.Has block.code ∧ block.address = a ∧
          ((∃ h ∈ tangled, h.address.toUInt64 = a) ∨ a = tangled.exitAddress) := by
  have hne : tangled ≠ [] := by decide
  obtain ⟨b', hrun⟩ : ∃ b', (tangled.compile : Action Backend Unit).run (.new {}) = .ok () b' :=
    Action.exists_of_succeeds (by decide +kernel)
  exact ⟨b', hne, hrun, (sealed_compile hne (.new {})).2 b' hrun⟩

end Backend

end Routine

end CodeRecovery
