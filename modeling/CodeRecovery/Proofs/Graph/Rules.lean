/-
The rules of a function by place, and what the check reports.

`Function.WellFormed` says the rules by blocks and places in them: which instruction assigns a
value, and where a value is used. `Function.verify_eq_ok_iff` is that the check accepts exactly
these functions. When it does not, it names a defect, and `Function.Shows` says what each defect
stands for; `shows_of_verify` is that the function really has the one that is named.

Both are about a check in two passes. The first one stops at the first block or instruction that
breaks a rule, so a failure splits the blocks, or the instructions of a block, into what was taken
in before and what was never looked at. The second one looks uses up in the census of all blocks.
-/
import CodeRecovery.Proofs.Graph.Lawful
import Mathlib.Data.List.Nodup

set_option autoImplicit false

namespace CodeRecovery.Graph

/-! ## The rules -/

namespace Function

/-- The instruction at a place of a block assigns the value. Places are counted from zero in each
block. -/
def Assigns (f : Function) (id : BlockIndex) (place : Nat) (value : ValueName) : Prop :=
  ∃ b i, f.blocks[id]? = some b ∧ b.instructions[place]? = some i ∧ i.assigned? = some value

/-- The value is an operand at a place of a block: of the instruction there or, behind all
instructions, of the end of the block. -/
inductive Uses (f : Function) (id : BlockIndex) : (place : Nat) → (value : ValueName) → Prop
  | instruction {b : Block} {i : Instruction} {place : Nat} {value : ValueName} {type : Ty} :
      f.blocks[id]? = some b → b.instructions[place]? = some i → .value value type ∈ i.operands →
      Uses f id place value
  | condition {b : Block} {value : ValueName} {type : Ty} {yes no : BlockIndex} :
      f.blocks[id]? = some b → b.terminator = some (.brIf (.value value type) yes no) →
      Uses f id b.instructions.size value
  | result {b : Block} {value : ValueName} {type : Ty} :
      f.blocks[id]? = some b → b.terminator = some (.ret (some (.value value type))) →
      Uses f id b.instructions.size value

/-- **The structural rules, by place.** -/
structure WellFormed (f : Function) : Prop where
  labels : (f.blocks.toList.map (·.name)).Nodup
  ends : ∀ b ∈ f.blocks, b.terminator ≠ none
  targets : ∀ b ∈ f.blocks, ∀ target : Nat, target ∈ b.successors → target < f.blocks.size
  assignedOnce : ∀ id place id' place' value, f.Assigns id place value →
    f.Assigns id' place' value → id = id' ∧ place = place'
  /-- A value that is used is assigned somewhere and, if in the same block, in front of its use. -/
  assignedBefore : ∀ id place value, f.Uses id place value →
    ∃ home origin, f.Assigns home origin value ∧ (home = id → origin < place)

/-! ## Places and the lists of the check -/

variable {f : Function} {id place value home origin : Nat}

/-- The list of the check, as places. -/
theorem mem_assignments : (value, id, place) ∈ f.assignments ↔ f.Assigns id place value := by
  unfold assignments Assigns
  simp only [mem_assignmentsOf, Array.getElem?_toList]

theorem pairwise_zipIdx {α : Type} (l : List α) : l.zipIdx.Pairwise fun x y => x.2 ≠ y.2 := by
  rw [← List.pairwise_map, List.zipIdx_map_snd]
  exact List.nodup_range'

/-- No place is listed twice: in one block places differ, and blocks have different indices. -/
theorem nodup_assignments (f : Function) : f.assignments.Nodup := by
  unfold assignments assignmentsOf List.Nodup
  rw [List.pairwise_flatMap]
  constructor
  · rintro ⟨b, id⟩ -
    unfold assignmentsAt
    rw [List.pairwise_filterMap]
    apply (pairwise_zipIdx b.instructions.toList).imp
    rintro ⟨i, place⟩ ⟨i', place'⟩ hne a ha a' ha' rfl
    obtain ⟨value, -, rfl⟩ := Option.map_eq_some_iff.1 ha
    obtain ⟨value', -, heq⟩ := Option.map_eq_some_iff.1 ha'
    simp only [Prod.mk.injEq] at heq
    exact hne heq.2.2.symm
  · apply (pairwise_zipIdx f.blocks.toList).imp
    rintro ⟨b, id⟩ ⟨b', id'⟩ hne a ha a' ha' rfl
    obtain ⟨⟨i, place⟩, -, hi⟩ := List.mem_filterMap.1 ha
    obtain ⟨⟨i', place'⟩, -, hi'⟩ := List.mem_filterMap.1 ha'
    obtain ⟨value, -, rfl⟩ := Option.map_eq_some_iff.1 hi
    obtain ⟨value', -, heq⟩ := Option.map_eq_some_iff.1 hi'
    simp only [Prod.mk.injEq] at heq
    exact hne heq.2.1.symm

end Function

theorem Operand.value?_eq_some {o : Operand} {value : Nat} :
    value ∈ o.value? ↔ ∃ type, o = .value value type := by
  cases o <;> simp [value?]

/-- Two kinds of ends use a value. -/
theorem Terminator.value_mem_operands {t : Terminator} {value : Nat} {type : Ty} :
    .value value type ∈ t.operands ↔
      (∃ yes no, t = .brIf (.value value type) yes no) ∨ t = .ret (some (.value value type)) := by
  cases t <;> simp [operands, eq_comm]

/-- The uses of the check, as places. -/
theorem Function.uses_iff {f : Function} {id place value : Nat} :
    f.Uses id place value ↔ ∃ b, f.blocks[id]? = some b ∧
      ∃ o, (o, place) ∈ b.uses ∧ value ∈ o.value? := by
  simp only [Block.mem_uses, Array.getElem?_toList, Operand.value?_eq_some]
  constructor
  · intro huse
    cases huse with
    | instruction hb hi ho => exact ⟨_, hb, _, .inl ⟨_, hi, ho⟩, _, rfl⟩
    | @condition b value type yes no hb ht =>
      refine ⟨b, hb, .value value type, .inr ⟨by simp, _, ht, ?_⟩, type, rfl⟩
      exact Terminator.value_mem_operands.2 (.inl ⟨yes, no, rfl⟩)
    | @result b value type hb ht =>
      refine ⟨b, hb, .value value type, .inr ⟨by simp, _, ht, ?_⟩, type, rfl⟩
      exact Terminator.value_mem_operands.2 (.inr rfl)
  · rintro ⟨b, hb, o, ⟨i, hi, ho⟩ | ⟨hplace, t, ht, ho⟩, type, rfl⟩
    · exact .instruction hb hi ho
    · obtain rfl : place = b.instructions.size := by simpa using hplace
      rcases Terminator.value_mem_operands.1 ho with ⟨yes, no, rfl⟩ | rfl
      · exact .condition hb ht
      · exact .result hb ht

/-- An end that leads to blocks, as two rules. -/
theorem Block.ends_iff {b : Block} {count : Nat} :
    b.Ends count ↔ b.terminator ≠ none ∧
      ∀ target : Nat, target ∈ b.successors → target < count := by
  unfold Ends successors
  cases b.terminator <;> simp

namespace Function

/-- **The two ways of stating the rules are the same.** A value is listed once if it has one place,
because no place is listed twice. -/
theorem lawful_iff_wellFormed (f : Function) : f.Lawful ↔ f.WellFormed := by
  have honce : (f.assignments.map (·.1)).Nodup ↔ ∀ id place id' place' value,
      f.Assigns id place value → f.Assigns id' place' value → id = id' ∧ place = place' := by
    rw [List.nodup_map_iff_inj_on f.nodup_assignments]
    simp only [← mem_assignments]
    constructor
    · intro h id place id' place' value hmem hmem'
      simpa using h _ hmem _ hmem' rfl
    · rintro h ⟨value, id, place⟩ hmem ⟨value', id', place'⟩ hmem' rfl
      simpa using h _ _ _ _ _ hmem hmem'
  constructor
  · intro h
    exact
      { labels := h.labels
        ends := fun b hb => (Block.ends_iff.1 (h.ends b hb.val)).1
        targets := fun b hb => (Block.ends_iff.1 (h.ends b hb.val)).2
        assignedOnce := honce.1 h.assignedOnce
        assignedBefore := by
          intro id place value huse
          obtain ⟨b, hb, o, ho, hvalue⟩ := uses_iff.1 huse
          rw [← Array.getElem?_toList] at hb
          simpa only [mem_assignments] using
            h.assignedBefore (b, id) (List.mk_mem_zipIdx_iff_getElem?.2 hb)
              (o, place) ho value hvalue }
  · intro h
    exact
      { labels := h.labels
        ends := fun b hb => Block.ends_iff.2 ⟨h.ends b ⟨hb⟩, h.targets b ⟨hb⟩⟩
        assignedOnce := honce.2 h.assignedOnce
        assignedBefore := by
          rintro ⟨b, id⟩ hentry ⟨o, place⟩ huse value hvalue
          have hb := List.mk_mem_zipIdx_iff_getElem?.1 hentry
          rw [Array.getElem?_toList] at hb
          simpa only [mem_assignments] using
            h.assignedBefore id place value (uses_iff.2 ⟨b, hb, o, huse, hvalue⟩) }

/-- **The check decides the structural rules.** It accepts a function if and only if labels differ,
every block ends and leads to blocks that are there, no value is assigned at two places, and a value
is used only where it is assigned, in its own block only behind that place. -/
theorem verify_eq_ok_iff (f : Function) : f.verify = .ok () ↔ f.WellFormed :=
  f.verify_iff_lawful.trans f.lawful_iff_wellFormed

/-! ## What is reported -/

/-- **The function has the defect.** Each case names what the message names: a label, or a value and
the block that uses it. -/
inductive Shows (f : Function) : Defect → Prop
  | duplicateLabel {id id' : BlockIndex} {b b' : Block} : f.blocks[id]? = some b →
      f.blocks[id']? = some b' → id ≠ id' → b.name = b'.name → Shows f (.duplicateLabel b.name)
  | unterminated {b : Block} : b ∈ f.blocks → b.terminator = none → Shows f (.unterminated b.name)
  | missingTarget {b : Block} {target : BlockIndex} : b ∈ f.blocks → target ∈ b.successors →
      f.blocks.size ≤ target → Shows f (.missingTarget b.name target)
  | redefined {id id' : BlockIndex} {place place' : Nat} {value : ValueName} :
      f.Assigns id place value → f.Assigns id' place' value → (id, place) ≠ (id', place') →
      Shows f (.redefined value)
  | undefined {id : BlockIndex} {b : Block} {place : Nat} {value : ValueName} :
      f.blocks[id]? = some b → f.Uses id place value →
        (∀ home origin, ¬ f.Assigns home origin value) →
      Shows f (.undefined value b.name)
  | usedEarly {id : BlockIndex} {b : Block} {place origin : Nat} {value : ValueName} :
      f.blocks[id]? = some b → f.Uses id place value → f.Assigns id origin value → place ≤ origin →
      Shows f (.usedEarly value b.name)

end Function

section

variable {ε α β : Type} {e : ε} {l : List α}

/-- A pass that fails has taken in what stands before some element, and fails at that element. What
stands behind was never looked at. -/
theorem exists_of_foldlM_error {f : β → α → Except ε β} {b : β} (h : l.foldlM f b = .error e) :
    ∃ before a behind b', l = before ++ a :: behind ∧ before.foldlM f b = .ok b' ∧
      f b' a = .error e := by
  induction l generalizing b with
  | nil => cases h
  | cons a l ih =>
    rw [List.foldlM_cons] at h
    cases ha : f b a with
    | error e' =>
      rw [ha] at h
      cases h
      exact ⟨[], a, l, b, rfl, rfl, ha⟩
    | ok b₁ =>
      rw [ha] at h
      obtain ⟨before, a', behind, b', rfl, hbefore, ha'⟩ := ih h
      refine ⟨a :: before, a', behind, b', rfl, ?_, ha'⟩
      rw [List.foldlM_cons, ha]
      exact hbefore

/-- A row of checks that fails has one that does. -/
theorem exists_of_forM_error {f : α → Except ε PUnit} (h : l.forM f = .error e) :
    ∃ a ∈ l, f a = .error e := by
  induction l with
  | nil => cases h
  | cons a l ih =>
    rw [List.forM] at h
    cases ha : f a with
    | error e' =>
      rw [ha] at h
      cases h
      exact ⟨a, List.mem_cons_self, ha⟩
    | ok u =>
      rw [ha] at h
      obtain ⟨a', hmem, ha'⟩ := ih h
      exact ⟨a', List.mem_cons_of_mem a hmem, ha'⟩

end

namespace Census

variable {D : Definitions} {c : Census} {id count : Nat} {d : Defect}

/-- An instruction is refused for a value that is recorded already. -/
theorem takeInstruction_error {entry : Instruction × Nat}
    (h : takeInstruction id D entry = .error d) :
    ∃ value, entry.1.assigned? = some value ∧ D.contains value = true ∧ d = .redefined value := by
  unfold takeInstruction at h
  split at h
  · cases h
  · next value hvalue =>
    split at h
    · next hcontains =>
      cases h
      exact ⟨value, hvalue, hcontains, rfl⟩
    · cases h

/-- The ways in which a block is refused, in the order in which they are tried. -/
theorem takeBlock_error {b : Block} (h : takeBlock count c (b, id) = .error d) :
    b.name ∈ c.labels ∧ d = .duplicateLabel b.name ∨
      b.terminator = none ∧ d = .unterminated b.name ∨
      (∃ target : Nat, target ∈ b.successors ∧ count ≤ target ∧ d = .missingTarget b.name target) ∨
      b.instructions.toList.zipIdx.foldlM (takeInstruction id) c.definitions = .error d := by
  by_cases hlabel : b.name ∈ c.labels
  · have hcontains : c.labels.contains b.name = true := by simpa using hlabel
    simp only [takeBlock, hcontains] at h
    cases h
    exact .inl ⟨hlabel, rfl⟩
  · have hcontains : c.labels.contains b.name = false := by simpa using hlabel
    cases ht : b.terminator with
    | none =>
      simp only [takeBlock, hcontains, ht] at h
      cases h
      exact .inr (.inl ⟨rfl, rfl⟩)
    | some t =>
      have hsuccessors : b.successors = t.successors := by simp [Block.successors, ht]
      cases hfind : t.successors.find? (count ≤ ·) with
      | some target =>
        simp only [takeBlock, hcontains, ht, hfind] at h
        cases h
        have hmissing : count ≤ target := by simpa using List.find?_some hfind
        refine .inr (.inr (.inl ⟨target, ?_, hmissing, rfl⟩))
        rw [hsuccessors]
        exact List.mem_of_find?_eq_some hfind
      | none =>
        have htargets : ∀ target : Nat, target ∈ t.successors → target < count := by
          intro target htarget
          simpa using List.find?_eq_none.1 hfind target htarget
        rw [takeBlock_eq hlabel ht htargets] at h
        refine .inr (.inr (.inr ?_))
        cases hfold : b.instructions.toList.zipIdx.foldlM (takeInstruction id) c.definitions with
        | ok D =>
          rw [hfold] at h
          cases h
        | error d' =>
          rw [hfold] at h
          cases h
          rfl

/-- The ways in which a use is refused: its value is recorded nowhere, or in this block at a place
that is not in front. -/
theorem checkUse_error {label : String} {use : Operand × Nat}
    (h : checkUse D id label use = .error d) : ∃ value : Nat, value ∈ use.1.value? ∧
      (D[value]? = none ∧ d = .undefined value label ∨
        ∃ origin, D[value]? = some (id, origin) ∧ use.2 ≤ origin ∧ d = .usedEarly value label) := by
  unfold checkUse at h
  split at h
  · cases h
  · next value hvalue =>
    refine ⟨value, hvalue, ?_⟩
    split at h
    · next hnone =>
      cases h
      exact .inl ⟨hnone, rfl⟩
    · next home origin hsome =>
      split at h
      · next hearly =>
        cases h
        obtain ⟨rfl, hle⟩ := hearly
        exact .inr ⟨origin, hsome, hle, rfl⟩
      · cases h

end Census

namespace Function

variable {f : Function} {d : Defect}

/-- A value that the census meets again is assigned at two places: at the instruction that is
refused, and at one that was taken in, in this block or in one before. -/
theorem shows_redefined {before behind : List (Block × BlockIndex)} {b : Block} {id : BlockIndex}
    {c : Census} (hblocks : f.blocks.toList.zipIdx = before ++ (b, id) :: behind)
    (hc : before.foldlM (Census.takeBlock f.blocks.size) {} = .ok c)
    (hfold : b.instructions.toList.zipIdx.foldlM (Census.takeInstruction id) c.definitions
      = .error d) :
    f.Shows d := by
  obtain ⟨haccepts, rfl⟩ := (Census.foldlM_takeBlock _).1 hc
  obtain ⟨code, ⟨i, place⟩, code', D, hcode, hD, htake⟩ := exists_of_foldlM_error hfold
  obtain ⟨hfresh, rfl⟩ := (Census.foldlM_takeInstruction _).1 hD
  obtain ⟨value, hvalue, hcontains, rfl⟩ := Census.takeInstruction_error htake
  -- All assignments in order: the earlier one of this value stands in front of this one.
  have hall : f.assignments = (assignmentsOf before ++ assignmentsAt id code) ++
      (value, id, place) :: (assignmentsAt id code' ++ assignmentsOf behind) := by
    dsimp only at hvalue
    simp [assignments, assignmentsOf, assignmentsAt, hblocks, hcode, hvalue]
  have hearlier : ∃ x, (value, x) ∈ assignmentsOf before ++ assignmentsAt id code := by
    rw [Std.TreeMap.contains_eq_isSome_getElem?] at hcontains
    obtain ⟨x, hx⟩ := Option.isSome_iff_exists.1 hcontains
    refine ⟨x, List.mem_append.2 ?_⟩
    rw [Census.getElem?_record hfresh, Census.after, Census.getElem?_record haccepts.fresh] at hx
    simpa using hx
  obtain ⟨⟨id', place'⟩, hmem⟩ := hearlier
  have hhere : f.Assigns id place value := by
    rw [← mem_assignments, hall]
    exact List.mem_append_right _ List.mem_cons_self
  have hthere : f.Assigns id' place' value := by
    rw [← mem_assignments, hall]
    exact List.mem_append_left _ hmem
  have hnodup := f.nodup_assignments
  rw [hall, List.nodup_append] at hnodup
  apply Shows.redefined hthere hhere
  intro heq
  exact hnodup.2.2 _ hmem _ List.mem_cons_self (congrArg (value, ·) heq)

/-- What the census reports is so. It knows of the blocks in front only, so each defect has to be
found again in the function as a whole. -/
theorem shows_of_census
    (h : f.blocks.toList.zipIdx.foldlM (Census.takeBlock f.blocks.size) {} = .error d) :
    f.Shows d := by
  obtain ⟨before, ⟨b, id⟩, behind, c, hblocks, hc, htake⟩ := exists_of_foldlM_error h
  have hat : ∀ {b' : Block} {id' : Nat}, (b', id') ∈ before ++ (b, id) :: behind →
      f.blocks[id']? = some b' := by
    intro b' id' hmem
    rw [← hblocks, List.mk_mem_zipIdx_iff_getElem?, Array.getElem?_toList] at hmem
    exact hmem
  have hb : f.blocks[id]? = some b := hat (List.mem_append_right _ List.mem_cons_self)
  have hmem : b ∈ f.blocks := Array.mem_of_getElem? hb
  rcases Census.takeBlock_error htake with
    ⟨hlabel, rfl⟩ | ⟨ht, rfl⟩ | ⟨target, htarget, hle, rfl⟩ | hcode
  · obtain ⟨-, rfl⟩ := (Census.foldlM_takeBlock _).1 hc
    obtain ⟨⟨b', id'⟩, hbefore, hname⟩ : ∃ entry ∈ before, entry.1.name = b.name := by
      simpa [Census.after] using hlabel
    have hb' := hat (List.mem_append_left _ hbefore)
    have hdiffer := pairwise_zipIdx f.blocks.toList
    rw [hblocks, List.pairwise_append] at hdiffer
    have hne : id' ≠ id := hdiffer.2.2 _ hbefore _ List.mem_cons_self
    rw [← hname]
    exact .duplicateLabel hb' hb hne hname
  · exact .unterminated hmem ht
  · exact .missingTarget hmem htarget hle
  · exact shows_redefined hblocks hc hcode

/-- **What the check reports is so.** A use is checked against the finished census, which has the
assignments of all blocks. -/
theorem shows_of_verify (h : f.verify = .error d) : f.Shows d := by
  rw [verify] at h
  cases hfold : f.blocks.toList.zipIdx.foldlM (Census.takeBlock f.blocks.size) {} with
  | error d' =>
    rw [hfold] at h
    cases h
    exact shows_of_census hfold
  | ok c =>
    rw [hfold] at h
    obtain ⟨haccepts, rfl⟩ := (Census.foldlM_takeBlock _).1 hfold
    obtain ⟨⟨b, id⟩, hentry, hblock⟩ := exists_of_forM_error h
    obtain ⟨⟨o, place⟩, huse, hcheck⟩ := exists_of_forM_error hblock
    have hb : f.blocks[id]? = some b := by
      simpa using List.mk_mem_zipIdx_iff_getElem?.1 hentry
    obtain ⟨value, hvalue, hcase⟩ := Census.checkUse_error hcheck
    have huses : f.Uses id place value := uses_iff.2 ⟨b, hb, o, huse, hvalue⟩
    rcases hcase with ⟨hnone, rfl⟩ | ⟨origin, hsome, hle, rfl⟩
    · apply Shows.undefined hb huses
      intro home origin hassigns
      rw [← mem_assignments, ← Census.getElem?_definitions haccepts, hnone] at hassigns
      cases hassigns
    · rw [Census.getElem?_definitions haccepts, mem_assignments] at hsome
      exact .usedEarly hb huses hsome hle

end Function

end CodeRecovery.Graph
