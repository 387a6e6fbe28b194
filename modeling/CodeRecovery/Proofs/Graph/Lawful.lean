/-
What the check of a function decides.

`Function.Lawful` states the structural rules of a function without the order in which they are
checked. The check takes a census of all blocks first, of their labels and of where each value is
assigned, and then looks every use up in it; the two halves are characterised one after the other,
and `Function.verify_iff_lawful` puts them together.
-/
import CodeRecovery.Graph.Verify
import CodeRecovery.Proofs.Action

set_option autoImplicit false

namespace CodeRecovery.Graph

/-- A value and where it is assigned: the block and the place in it. The census keeps these by
value, so a value with two of them is noticed when the second comes. -/
abbrev Assignment := ValueName × BlockIndex × Nat

/-- What instructions at their places assign. Instructions that assign nothing leave no trace. -/
def assignmentsAt (id : BlockIndex) (code : List (Instruction × Nat)) : List Assignment :=
  code.filterMap fun (i, place) => i.assigned?.map (·, id, place)

/-- What the instructions of blocks assign, block after block. -/
def assignmentsOf (blocks : List (Block × BlockIndex)) : List Assignment :=
  blocks.flatMap fun (b, id) => assignmentsAt id b.instructions.toList.zipIdx

/-- What the instructions of a function assign, in the order in which the census meets them. -/
def Function.assignments (f : Function) : List Assignment :=
  assignmentsOf f.blocks.toList.zipIdx

/-- An assignment by its place: the block, the instruction in it, and that it assigns the value. -/
theorem mem_assignmentsOf {blocks : List Block} {value home place : Nat} :
    (value, home, place) ∈ assignmentsOf blocks.zipIdx ↔
      ∃ b i, blocks[home]? = some b ∧ b.instructions.toList[place]? = some i ∧
        i.assigned? = some value := by
  unfold assignmentsOf assignmentsAt
  rw [List.mem_flatMap]
  constructor
  · rintro ⟨⟨b, id⟩, hblock, hmem⟩
    obtain ⟨⟨i, place'⟩, hentry, hi⟩ := List.mem_filterMap.1 hmem
    obtain ⟨value', hassigned, heq⟩ := Option.map_eq_some_iff.1 hi
    cases heq
    exact ⟨b, i, List.mk_mem_zipIdx_iff_getElem?.1 hblock,
      List.mk_mem_zipIdx_iff_getElem?.1 hentry, hassigned⟩
  · rintro ⟨b, i, hblock, hi, hassigned⟩
    refine ⟨(b, home), List.mk_mem_zipIdx_iff_getElem?.2 hblock, List.mem_filterMap.2 ?_⟩
    exact ⟨(i, place), List.mk_mem_zipIdx_iff_getElem?.2 hi, by simp [hassigned]⟩

/-- A use stands in an instruction or in the end of the block. The end counts as the place behind
all instructions, which is what lets a value of the block be used there. -/
theorem Block.mem_uses {b : Block} {use : Operand × Nat} :
    use ∈ b.uses ↔ (∃ i, b.instructions.toList[use.2]? = some i ∧ use.1 ∈ i.operands) ∨
      use.2 = b.instructions.toList.length ∧ ∃ t ∈ b.terminator, use.1 ∈ t.operands := by
  obtain ⟨o, place⟩ := use
  rw [Block.uses, List.mem_append, List.mem_flatMap, List.mem_map]
  constructor
  · rintro (⟨⟨i, place'⟩, hentry, huse⟩ | ⟨o', ho', heq⟩)
    · obtain ⟨o', ho', heq⟩ := List.mem_map.1 huse
      cases heq
      exact .inl ⟨i, List.mk_mem_zipIdx_iff_getElem?.1 hentry, ho'⟩
    · cases heq
      obtain ⟨t, ht, ho⟩ := List.mem_flatMap.1 ho'
      exact .inr ⟨by simp, t, by simpa using ht, ho⟩
  · rintro (⟨i, hi, ho⟩ | ⟨hplace, t, ht, ho⟩)
    · exact .inl ⟨(i, place), List.mk_mem_zipIdx_iff_getElem?.2 hi, List.mem_map.2 ⟨o, ho, rfl⟩⟩
    · dsimp only at hplace
      subst hplace
      exact .inr ⟨o, List.mem_flatMap.2 ⟨t, by simpa using ht, ho⟩, by simp⟩

/-- A block has an end, and leads to some of the first `count` blocks only. The two are checked
together because a block without an end has no targets to be checked. -/
def Block.Ends (count : Nat) (b : Block) : Prop :=
  ∃ t, b.terminator = some t ∧ ∀ target : Nat, target ∈ t.successors → target < count

/-- **The structural rules**, each about the function as a whole. Nothing is said of the order in
which a check comes upon a breach. -/
structure Function.Lawful (f : Function) : Prop where
  labels : (f.blocks.toList.map (·.name)).Nodup
  ends : ∀ b ∈ f.blocks.toList, b.Ends f.blocks.size
  assignedOnce : (f.assignments.map (·.1)).Nodup
  /-- A value is used where it is assigned, but not earlier in the block that assigns it. -/
  assignedBefore : ∀ entry ∈ f.blocks.toList.zipIdx, ∀ use ∈ entry.1.uses, ∀ value : Nat,
    value ∈ use.1.value? → ∃ home place, (value, home, place) ∈ f.assignments ∧
      (home = entry.2 → place < use.2)

/-! ## The census -/

namespace Census

variable {D D' : Definitions} {l l' : List Assignment} {id : BlockIndex}

/-- The definitions with more assignments taken in. Nothing is taken in twice here; that is what
`Fresh` is for. -/
def record (D : Definitions) (l : List Assignment) : Definitions :=
  l.foldl (fun D a => D.insert a.1 a.2) D

/-- No value is assigned twice, nor was before. The check refuses an assignment by looking the value
up, so this is the condition under which none is refused. -/
def Fresh (D : Definitions) (l : List Assignment) : Prop :=
  (l.map (·.1)).Nodup ∧ ∀ a ∈ l, D.contains a.1 = false

/-- Nothing assigned is nothing assigned twice. -/
theorem fresh_nil (D : Definitions) : Fresh D [] :=
  ⟨List.nodup_nil, fun _ ha => absurd ha List.not_mem_nil⟩

/-- What is recorded after one more assignment, as a condition on the value. -/
theorem contains_insert (D : Definitions) (v v' : Nat) (x : BlockIndex × Nat) :
    (D.insert v x).contains v' = (decide (v' = v) || D.contains v') := by
  rw [Std.TreeMap.contains_insert]
  by_cases h : v' = v
  · simp [h]
  · simp [h, Ne.symm h]

/-- **The first assignment has to be new, and the others new with it recorded.** This is how the
check sees it, one assignment at a time; the definition of `Fresh` looks at all of them at once. -/
theorem fresh_cons {a : Assignment} :
    Fresh D (a :: l) ↔ D.contains a.1 = false ∧ Fresh (D.insert a.1 a.2) l := by
  constructor
  · rintro ⟨hnodup, hnone⟩
    rw [List.map_cons, List.nodup_cons] at hnodup
    refine ⟨hnone a List.mem_cons_self, hnodup.2, fun a' ha' => ?_⟩
    have hne : a'.1 ≠ a.1 := fun heq => hnodup.1 (heq ▸ List.mem_map_of_mem ha')
    rw [contains_insert, decide_eq_false hne, hnone a' (List.mem_cons_of_mem a ha')]
    rfl
  · rintro ⟨hhead, hnodup, hnone⟩
    have htail : ∀ a' ∈ l, a'.1 ≠ a.1 ∧ D.contains a'.1 = false := by
      intro a' ha'
      have hfalse := hnone a' ha'
      rw [contains_insert, Bool.or_eq_false_iff, decide_eq_false_iff_not] at hfalse
      exact hfalse
    refine ⟨?_, ?_⟩
    · rw [List.map_cons, List.nodup_cons]
      refine ⟨fun hmem => ?_, hnodup⟩
      obtain ⟨a', ha', heq⟩ := List.mem_map.1 hmem
      exact (htail a' ha').1 heq
    · intro a' ha'
      rcases List.mem_cons.1 ha' with rfl | ha'
      · exact hhead
      · exact (htail a' ha').2

/-- The same for a part of the assignments, which is what one block is. -/
theorem fresh_append : Fresh D (l ++ l') ↔ Fresh D l ∧ Fresh (record D l) l' := by
  -- What is taken in first is recorded by the time the rest is looked at.
  induction l generalizing D with
  | nil => exact ⟨fun h => ⟨fresh_nil D, h⟩, fun h => h.2⟩
  | cons a l ih =>
    rw [List.cons_append, fresh_cons, fresh_cons, ih, and_assoc]
    rfl

/-- Where the census has a value assigned. Being fresh, an assignment hides none that was there
before, so a lookup finds the only one. -/
theorem getElem?_record (hfresh : Fresh D l) {v : Nat} {x : BlockIndex × Nat} :
    (record D l)[v]? = some x ↔ D[v]? = some x ∨ (v, x) ∈ l := by
  induction l generalizing D with
  | nil => simp [record]
  | cons a l ih =>
    obtain ⟨hhead, htail⟩ := fresh_cons.1 hfresh
    have hstep : record D (a :: l) = record (D.insert a.1 a.2) l := rfl
    rw [hstep, ih htail, Std.TreeMap.getElem?_insert, List.mem_cons]
    -- An assignment that is fresh hides none that was there before.
    by_cases hv : a.1 = v
    · subst hv
      have hnone : D[a.1]? = none := Std.TreeMap.getElem?_eq_none_of_contains_eq_false hhead
      simp [hnone, Prod.ext_iff, eq_comm]
    · have hne : compare a.1 v ≠ .eq := by simpa using hv
      simp [hne, Prod.ext_iff, Ne.symm hv]

/-- **Taking in the instructions of a block** succeeds if all that they assign is new, and then
records just that. The induction is on the code; an instruction that assigns nothing changes
nothing. -/
theorem foldlM_takeInstruction (code : List (Instruction × Nat)) :
    code.foldlM (takeInstruction id) D = .ok D' ↔
      Fresh D (assignmentsAt id code) ∧ D' = record D (assignmentsAt id code) := by
  induction code generalizing D with
  | nil =>
    simp [assignmentsAt, fresh_nil, record, pure, Except.pure, eq_comm]
  | cons entry code ih =>
    rw [List.foldlM_cons]
    cases hassigned : entry.1.assigned? with
    | none =>
      have htake : takeInstruction id D entry = .ok D := by rw [takeInstruction, hassigned]
      have hat : assignmentsAt id (entry :: code) = assignmentsAt id code := by
        simp [assignmentsAt, hassigned]
      rw [htake, hat]
      exact ih
    | some dst =>
      have hat : assignmentsAt id (entry :: code)
          = (dst, id, entry.2) :: assignmentsAt id code := by
        simp [assignmentsAt, hassigned]
      rw [hat, fresh_cons]
      cases hcontains : D.contains dst with
      | true =>
        have htake : takeInstruction id D entry = .error (.redefined dst) := by
          simp [takeInstruction, hassigned, hcontains]
        rw [htake]
        exact ⟨nofun, fun h => absurd h.1.1 (by simp)⟩
      | false =>
        have htake : takeInstruction id D entry = .ok (D.insert dst (id, entry.2)) := by
          simp [takeInstruction, hassigned, hcontains]
        rw [htake]
        simp only [true_and]
        exact ih

variable {c c' : Census} {count : Nat}

/-- The census once blocks are taken in. Labels are kept in the order in which they would be
searched, the last one first. -/
def after (c : Census) (blocks : List (Block × BlockIndex)) : Census where
  labels := (blocks.map (·.1.name)).reverse ++ c.labels
  definitions := record c.definitions (assignmentsOf blocks)

/-- What the census asks of blocks. Labels have to differ among themselves and from those taken in
before, and so do values. -/
structure Accepts (count : Nat) (c : Census) (blocks : List (Block × BlockIndex)) : Prop where
  labels : (blocks.map (·.1.name)).Nodup
  newLabels : ∀ entry ∈ blocks, entry.1.name ∉ c.labels
  ends : ∀ entry ∈ blocks, entry.1.Ends count
  fresh : Fresh c.definitions (assignmentsOf blocks)

/-- With the label new and the end in order, a block comes down to its instructions. These are the
first two checks, in the order in which they are made. -/
theorem takeBlock_eq {b : Block} {t : Terminator} (hlabel : b.name ∉ c.labels)
    (ht : b.terminator = some t)
    (htargets : ∀ target : Nat, target ∈ t.successors → target < count) :
    takeBlock count c (b, id) = (b.instructions.toList.zipIdx.foldlM (takeInstruction id)
      c.definitions).map fun definitions => { labels := b.name :: c.labels, definitions } := by
  have hfind : t.successors.find? (count ≤ ·) = none := by
    rw [List.find?_eq_none]
    intro target htarget
    simpa using htargets target htarget
  have hcontains : c.labels.contains b.name = false := by simpa using hlabel
  simp only [takeBlock, hcontains, ht, hfind]
  cases b.instructions.toList.zipIdx.foldlM (takeInstruction id) c.definitions <;> rfl

/-- A block that was taken in has passed these two checks. Each of them would have been a failure of
its own. -/
theorem ends_of_takeBlock {b : Block} (htake : takeBlock count c (b, id) = .ok c') :
    b.name ∉ c.labels ∧ b.Ends count := by
  cases hlabel : c.labels.contains b.name with
  | true =>
    simp only [takeBlock, hlabel] at htake
    cases htake
  | false =>
    cases ht : b.terminator with
    | none =>
      simp only [takeBlock, hlabel, ht] at htake
      cases htake
    | some t =>
      cases hfind : t.successors.find? (count ≤ ·) with
      | some target =>
        simp only [takeBlock, hlabel, ht, hfind] at htake
        cases htake
      | none =>
        refine ⟨by simpa using hlabel, t, ht, fun target htarget => ?_⟩
        simpa using List.find?_eq_none.1 hfind target htarget

/-- **Taking in one block** succeeds exactly if the census accepts it, and leaves the census with
it. -/
theorem takeBlock_eq_ok {entry : Block × BlockIndex} :
    takeBlock count c entry = .ok c' ↔ Accepts count c [entry] ∧ c' = c.after [entry] := by
  obtain ⟨b, id⟩ := entry
  have hassignments : assignmentsOf [(b, id)] = assignmentsAt id b.instructions.toList.zipIdx := by
    simp [assignmentsOf]
  -- With the label and the end in order, what is left to fail are the assignments.
  have hmap : b.name ∉ c.labels → b.Ends count → (takeBlock count c (b, id) = .ok c' ↔
      Fresh c.definitions (assignmentsOf [(b, id)]) ∧ c' = c.after [(b, id)]) := by
    rintro hlabel ⟨t, ht, htargets⟩
    rw [takeBlock_eq hlabel ht htargets, after, hassignments]
    cases hfold : b.instructions.toList.zipIdx.foldlM (takeInstruction id) c.definitions with
    | error defect =>
      refine ⟨nofun, fun h => ?_⟩
      rw [(foldlM_takeInstruction _).2 ⟨h.1, rfl⟩] at hfold
      cases hfold
    | ok definitions =>
      obtain ⟨hfresh, rfl⟩ := (foldlM_takeInstruction _).1 hfold
      exact ⟨fun h => ⟨hfresh, (Except.ok.inj h).symm⟩, fun h => congrArg Except.ok h.2.symm⟩
  constructor
  · intro htake
    obtain ⟨hlabel, hends⟩ := ends_of_takeBlock htake
    obtain ⟨hfresh, hc'⟩ := (hmap hlabel hends).1 htake
    exact ⟨⟨by simp, by simpa using hlabel, by simpa using hends, hfresh⟩, hc'⟩
  · rintro ⟨haccepts, hc'⟩
    have hlabel := haccepts.newLabels _ (List.mem_singleton_self _)
    have hends := haccepts.ends _ (List.mem_singleton_self _)
    exact (hmap hlabel hends).2 ⟨haccepts.fresh, hc'⟩

/-- Blocks may be taken in one by one. -/
theorem after_cons (c : Census) (entry : Block × BlockIndex) (blocks : List (Block × BlockIndex)) :
    c.after (entry :: blocks) = (c.after [entry]).after blocks := by
  simp [after, assignmentsOf, record]

/-- The others are accepted by the census that has the first one in it. Here the two ways of looking
at labels meet: all at once, and one after the other. -/
theorem accepts_cons {entry : Block × BlockIndex} {blocks : List (Block × BlockIndex)} :
    Accepts count c (entry :: blocks) ↔
      Accepts count c [entry] ∧ Accepts count (c.after [entry]) blocks := by
  have hassignments : assignmentsOf (entry :: blocks)
      = assignmentsOf [entry] ++ assignmentsOf blocks := by
    simp [assignmentsOf]
  have hlabels : (c.after [entry]).labels = entry.1.name :: c.labels := by simp [after]
  constructor
  · rintro ⟨hnodup, hnew, hends, hfresh⟩
    rw [hassignments, fresh_append] at hfresh
    rw [List.map_cons, List.nodup_cons] at hnodup
    refine ⟨⟨by simp, ?_, ?_, hfresh.1⟩, ⟨hnodup.2, ?_, ?_, hfresh.2⟩⟩
    · exact fun e he => hnew e (List.mem_cons.2 (.inl (List.mem_singleton.1 he)))
    · exact fun e he => hends e (List.mem_cons.2 (.inl (List.mem_singleton.1 he)))
    · intro e he
      rw [hlabels, List.mem_cons, not_or]
      exact ⟨fun heq => hnodup.1 (List.mem_map.2 ⟨e, he, heq⟩), hnew e (List.mem_cons_of_mem _ he)⟩
    · exact fun e he => hends e (List.mem_cons_of_mem _ he)
  · rintro ⟨⟨-, hnew, hends, hfresh⟩, ⟨hnodup', hnew', hends', hfresh'⟩⟩
    have hnew'' : ∀ e ∈ blocks, e.1.name ≠ entry.1.name ∧ e.1.name ∉ c.labels := by
      intro e he
      simpa [hlabels] using hnew' e he
    refine ⟨?_, ?_, ?_, ?_⟩
    · rw [List.map_cons, List.nodup_cons]
      refine ⟨fun hmem => ?_, hnodup'⟩
      obtain ⟨e, he, heq⟩ := List.mem_map.1 hmem
      exact (hnew'' e he).1 heq
    · intro e he
      rcases List.mem_cons.1 he with rfl | he
      · exact hnew e (List.mem_singleton_self e)
      · exact (hnew'' e he).2
    · intro e he
      rcases List.mem_cons.1 he with rfl | he
      · exact hends e (List.mem_singleton_self e)
      · exact hends' e he
    · rw [hassignments, fresh_append]
      exact ⟨hfresh, hfresh'⟩

/-- **Taking in all blocks**, by induction on them with the census that is left each time. -/
theorem foldlM_takeBlock (blocks : List (Block × BlockIndex)) :
    blocks.foldlM (takeBlock count) c = .ok c' ↔ Accepts count c blocks ∧ c' = c.after blocks := by
  induction blocks generalizing c with
  | nil =>
    have hafter : c.after [] = c := rfl
    have haccepts : Accepts count c [] := ⟨List.nodup_nil, nofun, nofun, fresh_nil _⟩
    rw [hafter]
    exact ⟨fun h => ⟨haccepts, (Except.ok.inj h).symm⟩, fun h => congrArg Except.ok h.2.symm⟩
  | cons entry blocks ih =>
    rw [List.foldlM_cons, accepts_cons, after_cons c entry blocks]
    cases htake : takeBlock count c entry with
    | error defect =>
      refine ⟨nofun, fun h => ?_⟩
      rw [takeBlock_eq_ok.2 ⟨h.1.1, rfl⟩] at htake
      cases htake
    | ok c₁ =>
      obtain ⟨haccepts, rfl⟩ := takeBlock_eq_ok.1 htake
      rw [and_iff_right haccepts]
      exact ih

/-! ## The uses -/

/-- A use is in order if its value is assigned, and if it is assigned in the same block, then in
front. In another block the place does not matter, for nothing is known of the order of blocks. -/
theorem checkUse_eq_ok {label : String} {use : Operand × Nat} :
    checkUse D id label use = .ok () ↔ ∀ value : Nat, value ∈ use.1.value? →
      ∃ home place, D[value]? = some (home, place) ∧ (home = id → place < use.2) := by
  rw [checkUse]
  cases hvalue : use.1.value? with
  | none => simp
  | some value =>
    dsimp only
    cases hhome : D[value]? with
    | none => simp [hhome]
    | some x =>
      obtain ⟨home, place⟩ := x
      by_cases hearly : home = id ∧ use.2 ≤ place
      · simp [hearly, hhome]
      · have hlate : home = id → place < use.2 :=
          fun heq => Nat.lt_of_not_le fun hle => hearly ⟨heq, hle⟩
        dsimp only
        rw [if_neg hearly]
        refine ⟨fun _ value' hvalue' => ?_, fun _ => rfl⟩
        cases hvalue'
        exact ⟨home, place, hhome, hlate⟩

end Census

/-- A row of checks passes if each of them does. -/
theorem forM_eq_ok {ε α : Type} {f : α → Except ε PUnit} {l : List α} :
    l.forM f = .ok () ↔ ∀ a ∈ l, f a = .ok () := by
  induction l with
  | nil => exact ⟨fun _ => nofun, fun _ => rfl⟩
  | cons a l ih =>
    rw [List.forM, List.forall_mem_cons]
    cases ha : f a with
    | error e => exact ⟨nofun, fun h => nomatch h.1⟩
    | ok u => exact ⟨fun h => ⟨rfl, ih.1 h⟩, fun h => ih.2 h.2⟩

/-- Numbering the blocks does not change their names. -/
theorem map_name_zipIdx (blocks : List Block) :
    blocks.zipIdx.map (·.1.name) = blocks.map (·.name) := by
  have hcomp : (fun entry : Block × Nat => entry.1.name) = Block.name ∘ Prod.fst := rfl
  rw [hcomp, ← List.map_map, List.zipIdx_map_fst]

/-- What the empty census asks of the blocks of a function. With nothing taken in before, only the
blocks themselves can clash. -/
theorem Census.accepts_empty_iff (count : Nat) (blocks : List Block) :
    Accepts count {} blocks.zipIdx ↔ (blocks.map (·.name)).Nodup ∧ (∀ b ∈ blocks, b.Ends count) ∧
      ((assignmentsOf blocks.zipIdx).map (·.1)).Nodup := by
  constructor
  · rintro ⟨hlabels, -, hends, hfresh⟩
    refine ⟨map_name_zipIdx blocks ▸ hlabels, fun b hb => ?_, hfresh.1⟩
    obtain ⟨id, hid⟩ := List.mem_iff_getElem?.1 hb
    exact hends (b, id) (List.mk_mem_zipIdx_iff_getElem?.2 hid)
  · rintro ⟨hlabels, hends, hnodup⟩
    refine ⟨(map_name_zipIdx blocks).symm ▸ hlabels, fun _ _ => List.not_mem_nil,
      fun entry hentry => ?_, hnodup, fun _ _ => Std.TreeMap.contains_emptyc⟩
    exact hends entry.1 (List.mem_of_getElem? (List.mk_mem_zipIdx_iff_getElem?.1 hentry))

/-- The finished census has every assignment of a function and no other, so looking a use up in it
is looking it up in the function. -/
theorem Census.getElem?_definitions {f : Function} {count v : Nat} {x : BlockIndex × Nat}
    (haccepts : Accepts count {} f.blocks.toList.zipIdx) :
    (after {} f.blocks.toList.zipIdx).definitions[v]? = some x ↔ (v, x) ∈ f.assignments := by
  rw [after, getElem?_record haccepts.fresh]
  simp [Function.assignments]

/-- **The check accepts a function exactly when the rules hold.** The census covers the first three,
and the uses are checked against the finished census for the last. -/
theorem Function.verify_iff_lawful (f : Function) : f.verify = .ok () ↔ f.Lawful := by
  have haccepts := Census.accepts_empty_iff f.blocks.size f.blocks.toList
  rw [Function.verify]
  cases hfold : f.blocks.toList.zipIdx.foldlM (Census.takeBlock f.blocks.size) {} with
  | error defect =>
    refine ⟨nofun, fun h => ?_⟩
    rw [(Census.foldlM_takeBlock _).2 ⟨haccepts.2 ⟨h.labels, h.ends, h.assignedOnce⟩, rfl⟩] at hfold
    cases hfold
  | ok census =>
    obtain ⟨hall, rfl⟩ := (Census.foldlM_takeBlock _).1 hfold
    obtain ⟨hlabels, hends, honce⟩ := haccepts.1 hall
    have huses : (f.blocks.toList.zipIdx.forM fun entry => entry.1.uses.forM
        (Census.checkUse (Census.after {} f.blocks.toList.zipIdx).definitions entry.2 entry.1.name))
          = .ok () ↔ ∀ entry ∈ f.blocks.toList.zipIdx, ∀ use ∈ entry.1.uses, ∀ value : Nat,
      value ∈ use.1.value? → ∃ home place, (value, home, place) ∈ f.assignments ∧
        (home = entry.2 → place < use.2) := by
      simp only [forM_eq_ok, Census.checkUse_eq_ok, Census.getElem?_definitions hall]
    exact huses.trans ⟨fun h => ⟨hlabels, hends, honce, h⟩, fun h => h.assignedBefore⟩

/-! ## Labels -/

/-- If no two blocks share a label, a block is found by its own. The search gives the first block
with the label. -/
theorem Function.find?_name {f : Function} {id : BlockIndex} {block : Block}
    (hnodup : (f.blocks.toList.map (·.name)).Nodup) (hblock : f.blocks[id]? = some block) :
    f.find? block.name = some id := by
  obtain ⟨hlt, hget⟩ := Array.getElem?_eq_some_iff.1 hblock
  refine Array.findIdx?_eq_some_iff_getElem.2 ⟨hlt, by simp [hget], fun j hj => ?_⟩
  -- An earlier block with the same label would be the same block.
  intro hname
  have hsame : (f.blocks.toList.map (·.name))[j]? = (f.blocks.toList.map (·.name))[id]? := by
    rw [List.getElem?_map, List.getElem?_map, Array.getElem?_toList, Array.getElem?_toList, hblock,
      Array.getElem?_eq_getElem (Nat.lt_trans hj hlt)]
    exact congrArg some (beq_iff_eq.1 hname)
  have hlt' : j < (f.blocks.toList.map (·.name)).length := by
    simpa using Nat.lt_trans hj hlt
  exact absurd ((List.getElem?_inj hlt' hnodup).1 hsame) (Nat.ne_of_lt hj)

end CodeRecovery.Graph
