/-
Functions that are written through a cursor.

A cursor may be moved to any block and back, also to one that has its end, so code is added to the
blocks in any order. Whoever makes the calls holds what earlier calls gave: values and blocks.
`Call.Honest` is said of calls that name nothing else, and `verify_of_honest` is that such calls
never run into a missing block, and that the function they write breaks no rule but those on labels
and on blocks without an end.

A call does one of six things to a cursor, listed in `Moves`. Three of them write to a block, and
have in common what `Block.Grows` says: at most one assignment is added, behind all others, and what
is used was used before, no further back, or is an operand of the call. That is all the invariant
`Function.Settled` needs: the values that exist are those below the next one, each is assigned at
one place, and what is used exists. An assignment in the block of the use is then in front of it,
because every place in the block is.
-/
import CodeRecovery.Proofs.Graph.Emission
import CodeRecovery.Proofs.Graph.Rules

set_option autoImplicit false

namespace CodeRecovery.Graph

/-! ## Calls that name what they were given -/

namespace Cursor.Call

/-- The operands of a call. -/
def operands : Call → List Operand
  | movePtr base _ => [base]
  | load _ ptr => [ptr]
  | store value ptr => [value, ptr]
  | binary _ lhs rhs | icmp _ lhs rhs => [lhs, rhs]
  | cast _ value _ | storeRegister _ value => [value]
  | brIf condition .. => [condition]
  | ret value => value.toList
  | alloca _ | loadRegister _ | br _ | newBlock _ | moveTo _ | current => []

/-- The blocks that a call names. -/
def blocks : Call → List BlockIndex
  | br target => [target]
  | brIf _ yes no => [yes, no]
  | moveTo block => [block]
  | _ => []

/-- Every operand of the call is a constant or was given, and so was every block. Types are not
looked at: an operand may be named with another type than it was given. -/
def Allowed (given : List Reply) (call : Call) : Prop :=
  (∀ o ∈ call.operands, o.value? = none ∨ .operand o ∈ given) ∧
    ∀ id ∈ call.blocks, .block id ∈ given

/-- Calls that are made one after another, each of which names only constants and what the calls
before it gave. What they give depends on the cursor, so the calls are followed as they are carried
out. -/
def Honest : (given : List Reply) → Cursor → List Call → Prop
  | _, _, [] => True
  | given, c, call :: rest => call.Allowed given ∧
    match call.perform.run c with
    | .ok reply c' => Honest (reply :: given) c' rest
    | .error .. => True

instance (given : List Reply) (call : Call) : Decidable (call.Allowed given) :=
  inferInstanceAs (Decidable (_ ∧ _))

instance Honest.decidable : (given : List Reply) → (c : Cursor) → (calls : List Call) →
    Decidable (Honest given c calls)
  | _, _, [] => inferInstanceAs (Decidable True)
  | given, c, call :: rest =>
    match hrun : call.perform.run c with
    | .ok reply c' =>
      have := Honest.decidable (reply :: given) c' rest
      decidable_of_iff (call.Allowed given ∧ Honest (reply :: given) c' rest) (by rw [Honest, hrun])
    | .error .. => decidable_of_iff (call.Allowed given) (by rw [Honest, hrun]; simp)

end Cursor.Call

/-! ## Blocks that grow -/

/-- The block may have got one assignment behind all others, and uses in front of which all old
places are: of operands it used before, or of the given ones. -/
structure Block.Grows (new? : Option ValueName) (operands : List Operand)
    (targets : List BlockIndex) (b b' : Block) : Prop where
  assigned : ∀ place (value : Nat),
    (∃ i, b'.instructions[place]? = some i ∧ i.assigned? = some value) ↔
      (∃ i, b.instructions[place]? = some i ∧ i.assigned? = some value) ∨
        place = b.instructions.size ∧ new? = some value
  uses : ∀ o place, (o, place) ∈ b'.uses → (∃ place' ≤ place, (o, place') ∈ b.uses) ∨
    b.instructions.size ≤ place ∧ o ∈ operands
  successors : ∀ target : Nat, target ∈ b'.successors → target ∈ b.successors ∨ target ∈ targets

/-- An instruction at the end of the code. The end of the block moves back by one place, so what it
uses is used later than before. -/
theorem Block.grows_extended (b : Block) (i : Instruction) :
    b.Grows i.assigned? i.operands [] (b.extended [i]) where
  assigned place value := by
    simp only [extended, Array.getElem?_append]
    by_cases hlt : place < b.instructions.size
    · simp [hlt, Nat.ne_of_lt hlt]
    · by_cases hplace : place = b.instructions.size
      · simp [hplace]
      · have hnone : ([i].toArray)[place - b.instructions.size]? = none := by
          rw [Array.getElem?_eq_none_iff, List.size_toArray, List.length_singleton]
          omega
        simp [hlt, hplace, hnone]
  uses o place huse := by
    rw [mem_uses] at huse
    simp only [extended, Array.toList_append, List.getElem?_append, List.length_append] at huse
    rcases huse with ⟨i', hi', ho⟩ | ⟨hplace, t, ht, ho⟩
    · by_cases hlt : place < b.instructions.toList.length
      · rw [if_pos hlt] at hi'
        exact .inl ⟨place, Nat.le_refl _, mem_uses.2 (.inl ⟨i', hi', ho⟩)⟩
      · rw [if_neg hlt] at hi'
        obtain rfl : i' = i := by
          simpa using List.mem_of_getElem? hi'
        exact .inr ⟨by simpa using hlt, ho⟩
    · refine .inl ⟨b.instructions.toList.length, ?_, mem_uses.2 (.inr ⟨rfl, t, ht, ho⟩)⟩
      omega
  successors _ h := .inl h

/-- An end, in place of an earlier one if there is one. What the earlier end used is not used there
any more. -/
theorem Block.grows_ended (b : Block) (t : Terminator) :
    b.Grows none t.operands t.successors (b.ended t) where
  assigned place value := by simp [ended]
  uses o place huse := by
    rcases mem_uses.1 huse with ⟨i, hi, ho⟩ | ⟨hplace, t', ht', ho⟩
    · exact .inl ⟨place, Nat.le_refl _, mem_uses.2 (.inl ⟨i, hi, ho⟩)⟩
    · obtain rfl : t = t' := Option.some.inj ht'
      exact .inr ⟨Nat.le_of_eq (by simpa [ended] using hplace.symm), ho⟩
  successors _ h := .inr h

/-! ## What every function keeps -/

namespace Function

/-- **What every function keeps.** The values that exist are those below the next one. Each of them
is assigned at one place, used only where it is assigned, and in its own block behind that place;
and blocks lead to blocks that are there. -/
structure Settled (f : Function) : Prop where
  assigned : ∀ value : Nat, value < f.nextValue ↔ ∃ id place, f.Assigns id place value
  assignedOnce : ∀ id place id' place' value, f.Assigns id place value →
    f.Assigns id' place' value → id = id' ∧ place = place'
  assignedBefore : ∀ id place value, f.Uses id place value →
    ∃ home origin, f.Assigns home origin value ∧ (home = id → origin < place)
  targets : ∀ b ∈ f.blocks, ∀ target : Nat, target ∈ b.successors → target < f.blocks.size

variable {f : Function} {b b' : Block} {id place value count : Nat} {new? : Option ValueName}
  {operands : List Operand} {targets : List BlockIndex} {change : Block → Block}

/-- Values are assigned by instructions, never by the end of a block. -/
theorem Assigns.lt_size (h : f.Assigns id place value) (hb : f.blocks[id]? = some b) :
    place < b.instructions.size := by
  obtain ⟨b', i, hb', hi, -⟩ := h
  obtain rfl : b' = b := Option.some.inj (hb'.symm.trans hb)
  exact (Array.getElem?_eq_some_iff.1 hi).1

/-- The function with one of its blocks changed and some more values. Every call that writes is of
this form. -/
def changed (f : Function) (id : BlockIndex) (change : Block → Block) (count : Nat) : Function :=
  { f.modifyBlock id change with nextValue := f.nextValue + count }

/-- The other blocks are as they were. -/
theorem getElem?_changed (id' : BlockIndex) : (f.changed id change count).blocks[id']?
    = if id = id' then f.blocks[id']?.map change else f.blocks[id']? :=
  Array.getElem?_modify

@[simp] theorem size_changed : (f.changed id change count).blocks.size = f.blocks.size :=
  Array.size_modify

section

variable (hb : f.blocks[id]? = some b) (hgrows : b.Grows new? operands targets (change b))

include hb hgrows

/-- What is assigned then: all that was, and the new value at the end of the block that grew. -/
theorem assigns_changed (id' place value : Nat) :
    (f.changed id change count).Assigns id' place value ↔
    f.Assigns id' place value ∨ id' = id ∧ place = b.instructions.size ∧ new? = some value := by
  unfold Assigns
  rw [getElem?_changed]
  by_cases hid : id = id'
  · subst hid
    have hassigned := hgrows.assigned place value
    rw [if_pos rfl, hb]
    simpa using hassigned
  · simp [hid, Ne.symm hid]

/-- What is used then was used before, no further back, or is an operand of the call and stands
behind all old instructions. -/
theorem uses_changed {id' place value : Nat}
    (huse : (f.changed id change count).Uses id' place value) :
    (∃ place' ≤ place, f.Uses id' place' value) ∨
      id' = id ∧ b.instructions.size ≤ place ∧ ∃ o ∈ operands, value ∈ o.value? := by
  obtain ⟨b', hb', o, ho, hvalue⟩ := uses_iff.1 huse
  rw [getElem?_changed] at hb'
  by_cases hid : id = id'
  · subst hid
    rw [if_pos rfl, hb] at hb'
    obtain rfl : change b = b' := Option.some.inj hb'
    rcases hgrows.uses o place ho with ⟨place', hle, ho'⟩ | ⟨hle, ho'⟩
    · exact .inl ⟨place', hle, uses_iff.2 ⟨b, hb, o, ho', hvalue⟩⟩
    · exact .inr ⟨rfl, hle, o, ho', hvalue⟩
  · rw [if_neg hid] at hb'
    exact .inl ⟨place, Nat.le_refl _, uses_iff.2 ⟨b', hb', o, ho, hvalue⟩⟩

/-- **A block may grow** by operands that exist, and by one assignment for each value that is added.
An operand that is assigned in the same block is assigned in front, because everything in the block
is. -/
theorem Settled.changed (h : f.Settled) (hnew : ∀ value : Nat, new? = some value ↔
      ¬ value < f.nextValue ∧ value < f.nextValue + count)
    (hoperands : ∀ o ∈ operands, o.Below f.nextValue)
    (htargets : ∀ target : Nat, target ∈ targets → target < f.blocks.size) :
    (f.changed id change count).Settled where
  assigned value := by
    simp only [assigns_changed hb hgrows, hnew]
    change value < f.nextValue + count ↔ _
    constructor
    · intro hlt
      by_cases hold : value < f.nextValue
      · obtain ⟨home, origin, hassigns⟩ := (h.assigned value).1 hold
        exact ⟨home, origin, .inl hassigns⟩
      · exact ⟨id, b.instructions.size, .inr ⟨rfl, rfl, hold, hlt⟩⟩
    · rintro ⟨home, origin, hassigns | ⟨-, -, -, hlt⟩⟩
      · have hold := (h.assigned value).2 ⟨home, origin, hassigns⟩
        omega
      · exact hlt
  assignedOnce id₁ place₁ id₂ place₂ value h₁ h₂ := by
    rw [assigns_changed hb hgrows] at h₁ h₂
    -- A value that is added was not assigned before.
    have hfresh : ∀ {home origin}, f.Assigns home origin value → new? ≠ some value := by
      intro home origin hassigns hvalue
      exact ((hnew value).1 hvalue).1 ((h.assigned value).2 ⟨home, origin, hassigns⟩)
    rcases h₁ with h₁ | ⟨rfl, rfl, hvalue₁⟩
    · rcases h₂ with h₂ | ⟨-, -, hvalue₂⟩
      · exact h.assignedOnce _ _ _ _ _ h₁ h₂
      · exact absurd hvalue₂ (hfresh h₁)
    · rcases h₂ with h₂ | ⟨rfl, rfl, -⟩
      · exact absurd hvalue₁ (hfresh h₂)
      · exact ⟨rfl, rfl⟩
  assignedBefore id' place value huse := by
    rcases uses_changed hb hgrows huse with ⟨place', hle, huse'⟩ | ⟨rfl, hle, o, ho, hvalue⟩
    · obtain ⟨home, origin, hassigns, hbefore⟩ := h.assignedBefore id' place' value huse'
      refine ⟨home, origin, (assigns_changed hb hgrows _ _ _).2 (.inl hassigns), fun hhome => ?_⟩
      have hlt := hbefore hhome
      omega
    · obtain ⟨home, origin, hassigns⟩ := (h.assigned value).1 (hoperands o ho value hvalue)
      refine ⟨home, origin, (assigns_changed hb hgrows _ _ _).2 (.inl hassigns), ?_⟩
      rintro rfl
      have hlt := hassigns.lt_size hb
      omega
  targets b' hb' target htarget := by
    rw [size_changed]
    obtain ⟨id', hid'⟩ := Array.mem_iff_getElem?.1 hb'
    rw [getElem?_changed] at hid'
    by_cases hid : id = id'
    · subst hid
      rw [if_pos rfl, hb] at hid'
      obtain rfl : change b = b' := Option.some.inj hid'
      rcases hgrows.successors target htarget with hold | hgiven
      · exact h.targets b (Array.mem_of_getElem? hb) target hold
      · exact htargets target hgiven
    · rw [if_neg hid] at hid'
      exact h.targets b' (Array.mem_of_getElem? hid') target htarget

end

/-- A new block is behind all others and is empty. -/
theorem getElem?_appendBlock {name : String} : (f.appendBlock name).2.blocks[id]? = some b ↔
    f.blocks[id]? = some b ∨ id = f.blocks.size ∧ b = { name } := by
  show (f.blocks.push { name })[id]? = some b ↔ _
  rw [Array.getElem?_push]
  by_cases hid : id = f.blocks.size
  · simp [hid, eq_comm]
  · simp [hid]

/-- An empty block assigns nothing. -/
theorem assigns_appendBlock (name : String) :
    (f.appendBlock name).2.Assigns id place value ↔ f.Assigns id place value := by
  unfold Assigns
  simp only [getElem?_appendBlock]
  constructor
  · rintro ⟨b, i, hb | ⟨-, rfl⟩, hi, hassigned⟩
    · exact ⟨b, i, hb, hi, hassigned⟩
    · simp at hi
  · rintro ⟨b, i, hb, hi, hassigned⟩
    exact ⟨b, i, .inl hb, hi, hassigned⟩

theorem uses_appendBlock {name : String} (huse : (f.appendBlock name).2.Uses id place value) :
    f.Uses id place value := by
  obtain ⟨b, hb, o, ho, hvalue⟩ := uses_iff.1 huse
  rcases getElem?_appendBlock.1 hb with hb | ⟨-, rfl⟩
  · exact uses_iff.2 ⟨b, hb, o, ho, hvalue⟩
  · simp [Block.uses] at ho

/-- **A block may be added.** It has no code and no end. -/
theorem Settled.appendBlock (h : f.Settled) (name : String) : (f.appendBlock name).2.Settled where
  assigned value := by
    simp only [assigns_appendBlock]
    exact h.assigned value
  assignedOnce id place id' place' value h₁ h₂ := by
    rw [assigns_appendBlock] at h₁ h₂
    exact h.assignedOnce id place id' place' value h₁ h₂
  assignedBefore id place value huse := by
    simp only [assigns_appendBlock]
    exact h.assignedBefore id place value (uses_appendBlock huse)
  targets b hb target htarget := by
    obtain ⟨id, hid⟩ := Array.mem_iff_getElem?.1 hb
    have hsize : (f.appendBlock name).2.blocks.size = f.blocks.size + 1 := Array.size_push _
    rcases getElem?_appendBlock.1 hid with hid | ⟨-, rfl⟩
    · have hlt := h.targets b (Array.mem_of_getElem? hid) target htarget
      omega
    · simp [Block.successors] at htarget

/-- Without blocks there is nothing to be settled. -/
theorem settled_empty (name : String) (returnType : Ty) : Settled { name, returnType } where
  assigned value := by simp [Assigns]
  assignedOnce _ _ _ _ _ h := by simp [Assigns] at h
  assignedBefore _ _ _ huse := by simp [uses_iff] at huse
  targets _ hb := by simp at hb

/-- In a settled function only labels and ends are left to be checked. These two are up to whoever
makes the calls. -/
theorem Settled.wellFormed_iff (h : f.Settled) : f.WellFormed ↔
    (∀ b ∈ f.blocks, b.terminator ≠ none) ∧ (f.blocks.toList.map (·.name)).Nodup :=
  ⟨fun hf => ⟨hf.ends, hf.labels⟩,
    fun hf => ⟨hf.2, hf.1, h.targets, h.assignedOnce, h.assignedBefore⟩⟩

/-- The defects that a settled function can have: the other four would contradict it, each in one of
its parts. -/
theorem Settled.defect {d : Defect} (h : f.Settled) (hshows : f.Shows d) :
    (∃ label, d = .duplicateLabel label) ∨ ∃ label, d = .unterminated label := by
  cases hshows with
  | duplicateLabel => exact .inl ⟨_, rfl⟩
  | unterminated => exact .inr ⟨_, rfl⟩
  | missingTarget hb htarget hle =>
    have hlt := h.targets _ hb _ htarget
    omega
  | redefined h₁ h₂ hne =>
    obtain ⟨hid, hplace⟩ := h.assignedOnce _ _ _ _ _ h₁ h₂
    exact absurd (Prod.ext hid hplace) hne
  | undefined _ huse hnone =>
    obtain ⟨home, origin, hassigns, -⟩ := h.assignedBefore _ _ _ huse
    exact absurd hassigns (hnone home origin)
  | usedEarly _ huse hassigns hle =>
    -- The one place that assigns the value is in front of the use.
    obtain ⟨home, origin, hassigns', hbefore⟩ := h.assignedBefore _ _ _ huse
    obtain ⟨hid, hplace⟩ := h.assignedOnce _ _ _ _ _ hassigns' hassigns
    have hlt := hbefore hid
    omega

end Function

/-! ## Calls -/

namespace Cursor

/-- What a call does to a cursor, and what it gives. -/
inductive Moves (call : Call) (c : Cursor) : Reply → Cursor → Prop
  | insert {i : Instruction} : i.assigned? = none → i.operands = call.operands →
      Moves call c .done { c with function := c.function.changed c.current (·.extended [i]) 0 }
  | assign {i : Instruction} {type : Ty} : i.assigned? = some c.function.nextValue →
      i.operands = call.operands → Moves call c (.operand (.value c.function.nextValue type))
        { c with function := c.function.changed c.current (·.extended [i]) 1 }
  | finish {t : Terminator} : t.operands = call.operands → t.successors = call.blocks →
      Moves call c .done { c with function := c.function.changed c.current (·.ended t) 0 }
  | newBlock {name : String} : Moves call c (.block c.function.blocks.size)
      { c with function := (c.function.appendBlock name).2 }
  | moveTo {id : BlockIndex} : id ∈ call.blocks → Moves call c .done { c with current := id }
  | current : Moves call c (.block c.current) c

/-- Writing an instruction that assigns nothing. -/
theorem moves_insert {call : Call} (i : Instruction) (c : Cursor) (hnone : i.assigned? = none)
    (hoperands : i.operands = call.operands) : Moves call c .done ((insert i).run c).2 := by
  rw [run_insert]
  exact .insert hnone hoperands

/-- **Each call is one of the six moves.** It is the only place where the calls are gone through one
by one. -/
theorem moves_write (call : Call) (c : Cursor) :
    Moves call c (call.write.run c).1 (call.write.run c).2 := by
  cases call with
  | alloca | movePtr | load | binary | icmp | cast | loadRegister => exact .assign rfl rfl
  | store value ptr => exact moves_insert (.store value ptr) c rfl rfl
  | storeRegister register value => exact moves_insert (.storeRegister register value) c rfl rfl
  | br target => exact .finish (t := .br target) rfl rfl
  | brIf condition yes no => exact .finish (t := .brIf condition yes no) rfl rfl
  | ret value => exact .finish (t := .ret value) rfl rfl
  | newBlock => exact .newBlock
  | moveTo => exact .moveTo List.mem_cons_self
  | current => exact .current

/-- With a block to write to, every call is carried out. The only thing that can be missing is the
current block. -/
theorem run_perform (call : Call) {c : Cursor} (hcurrent : c.current < c.function.blocks.size) :
    call.perform.run c = .ok (call.write.run c).1 (call.write.run c).2 := by
  have hinside : ¬ (call.writes ∧ c.function.blocks.size ≤ c.current) :=
    fun h => Nat.not_le_of_lt hcurrent h.2
  have hget : (get : Action Cursor Cursor).run c = .ok c c := rfl
  rw [Call.perform, Action.run_bind_of_ok hget, if_neg hinside]
  rfl

/-- What is so after any calls that name what they were given: the function is settled, there is a
current block, and everything that was given exists. -/
structure Held (given : List Reply) (c : Cursor) : Prop where
  settled : c.function.Settled
  current : c.current < c.function.blocks.size
  operands : ∀ o, .operand o ∈ given → o.Below c.function.nextValue
  blocks : ∀ id : Nat, .block id ∈ given → id < c.function.blocks.size

variable {given : List Reply} {reply : Reply} {c c' : Cursor} {call : Call}

/-- What was given stays, and so does what is given now if it exists. Neither values nor blocks ever
go away. -/
theorem Held.next (h : Held given c) (hsettled : c'.function.Settled)
    (hcurrent : c'.current < c'.function.blocks.size)
    (hvalues : c.function.nextValue ≤ c'.function.nextValue)
    (hsize : c.function.blocks.size ≤ c'.function.blocks.size)
    (hoperand : ∀ o, .operand o = reply → o.Below c'.function.nextValue)
    (hblock : ∀ id : Nat, .block id = reply → id < c'.function.blocks.size) :
    Held (reply :: given) c' where
  settled := hsettled
  current := hcurrent
  operands o ho := by
    rcases List.mem_cons.1 ho with ho | ho
    · exact hoperand o ho
    · exact (h.operands o ho).mono hvalues
  blocks id hid := by
    rcases List.mem_cons.1 hid with hid | hid
    · exact hblock id hid
    · exact Nat.lt_of_lt_of_le (h.blocks id hid) hsize

/-- An allowed call names values that exist: constants name none, and what was given stays. -/
theorem Held.below_operands (h : Held given c) (hallowed : call.Allowed given) :
    ∀ o ∈ call.operands, o.Below c.function.nextValue := by
  intro o ho
  rcases hallowed.1 o ho with hconstant | hgiven
  · intro value hvalue
    rw [hconstant] at hvalue
    cases hvalue
  · exact h.operands o hgiven

/-- **A call that names what it was given leaves everything in order.** One case for each move; the
three that write to a block are all growth of a block. -/
theorem Held.moves (h : Held given c) (hallowed : call.Allowed given)
    (hmoves : Moves call c reply c') : Held (reply :: given) c' := by
  have hbelow := h.below_operands hallowed
  have htargets : ∀ id : Nat, id ∈ call.blocks → id < c.function.blocks.size :=
    fun id hid => h.blocks id (hallowed.2 id hid)
  obtain ⟨b, hb⟩ : ∃ b, c.function.blocks[c.current]? = some b :=
    ⟨_, Array.getElem?_eq_getElem h.current⟩
  cases hmoves with
  | @insert i hnone hoperands =>
    have hsettled : (c.function.changed c.current (·.extended [i]) 0).Settled := by
      refine h.settled.changed hb (b.grows_extended i) ?_ (hoperands ▸ hbelow) nofun
      intro value
      rw [hnone]
      simp
    exact h.next hsettled (by simpa using h.current) (Nat.le_refl _) (by simp) nofun nofun
  | @assign i type hassigned hoperands =>
    have hsettled : (c.function.changed c.current (·.extended [i]) 1).Settled := by
      refine h.settled.changed hb (b.grows_extended i) ?_ (hoperands ▸ hbelow) nofun
      intro value
      rw [hassigned, Option.some.injEq]
      constructor
      · rintro rfl
        exact ⟨Nat.lt_irrefl _, Nat.lt_succ_self _⟩
      · rintro ⟨hge, hlt⟩
        exact Nat.le_antisymm (Nat.le_of_not_lt hge) (Nat.le_of_lt_succ hlt)
    refine h.next hsettled (by simpa using h.current) (Nat.le_succ _) (by simp) ?_ nofun
    rintro o ⟨⟩
    exact Operand.below_value.2 (Nat.lt_succ_self _)
  | @finish t hoperands hsuccessors =>
    have hsettled : (c.function.changed c.current (·.ended t) 0).Settled := by
      refine h.settled.changed hb (b.grows_ended t) ?_ (hoperands ▸ hbelow) (hsuccessors ▸ htargets)
      intro value
      simp
    exact h.next hsettled (by simpa using h.current) (Nat.le_refl _) (by simp) nofun nofun
  | @newBlock name =>
    have hsize : c.function.blocks.size < (c.function.appendBlock name).2.blocks.size := by
      simp [Function.appendBlock]
    refine h.next (h.settled.appendBlock name) (Nat.lt_trans h.current hsize) (Nat.le_refl _)
      (Nat.le_of_lt hsize) nofun ?_
    rintro id ⟨⟩
    exact hsize
  | moveTo hid =>
    exact h.next h.settled (htargets _ hid) (Nat.le_refl _) (Nat.le_refl _) nofun nofun
  | current =>
    refine h.next h.settled h.current (Nat.le_refl _) (Nat.le_refl _) nofun ?_
    rintro id ⟨⟩
    exact h.current

/-- A new cursor has an empty block, and nothing has been given. -/
theorem held_new (name : String) (returnType : Ty) (entry : String) :
    Held [] (new { name, returnType } entry) where
  settled := (Function.settled_empty name returnType).appendBlock entry
  current := Nat.zero_lt_one
  operands _ ho := by cases ho
  blocks _ hid := by cases hid

/-- Honest calls are all carried out, by induction on the calls with what they have given so far. -/
theorem Held.run {calls : List Call} (h : Held given c) (hhonest : Call.Honest given c calls) :
    ∃ replies c', (calls.mapM Call.perform).run c = .ok replies c' ∧ c'.function.Settled := by
  induction calls generalizing given c with
  | nil => exact ⟨[], c, rfl, h.settled⟩
  | cons call rest ih =>
    have hrun := run_perform call h.current
    obtain ⟨hallowed, hrest⟩ := hhonest
    rw [hrun] at hrest
    obtain ⟨replies, c', hreplies, hsettled⟩ := ih (h.moves hallowed (moves_write call c)) hrest
    refine ⟨(call.write.run c).1 :: replies, c', ?_, hsettled⟩
    rw [List.mapM_cons, Action.run_bind_of_ok hrun, Action.run_bind_of_ok hreplies]
    rfl

/-- **Functions written through a cursor break no rule but two.** Calls that name constants and what
earlier calls gave are all carried out, in whatever order blocks are visited and left, and whether
or not they had their end by then. The check accepts the function exactly when every block has an
end and no two blocks share a label; otherwise it reports one of these, and never a value or a
target. -/
theorem verify_of_honest (name : String) (returnType : Ty) (entry : String) (calls : List Call)
    (hhonest : Call.Honest [] (new { name, returnType } entry) calls) :
    ∃ replies c, (calls.mapM Call.perform).run (new { name, returnType } entry) = .ok replies c ∧
      (c.function.verify = .ok () ↔ (∀ b ∈ c.function.blocks, b.terminator ≠ none) ∧
        (c.function.blocks.toList.map (·.name)).Nodup) ∧
      ∀ d, c.function.verify = .error d →
        (∃ label, d = .duplicateLabel label) ∨ ∃ label, d = .unterminated label := by
  obtain ⟨replies, c, hrun, hsettled⟩ := (held_new name returnType entry).run hhonest
  refine ⟨replies, c, hrun, ?_, fun d hd => hsettled.defect (Function.shows_of_verify hd)⟩
  rw [c.function.verify_iff_lawful, c.function.lawful_iff_wellFormed, hsettled.wellFormed_iff]

/-- A loop whose blocks are added to again when they have their ends: the first block gets another
value and the second one uses it, behind its own branch in the order of the calls. -/
def revisiting : List Call :=
  [.current, .alloca 8, .newBlock "loop", .newBlock "done", .br 1,
    .moveTo 1, .load .i64 (.value 0 .ptr), .icmp .eq (.value 1 .i64) (.const .i64 0),
    .brIf (.value 2 .i1) 1 2,
    .moveTo 0, .loadRegister (.gpr .rax), .store (.value 3 .i64) (.value 0 .ptr),
    .moveTo 1, .binary .add (.value 1 .i64) (.value 3 .i64),
    .moveTo 2, .ret (some (.value 4 .i64))]

/-- Seen by places in blocks, the value that is added last stands in the first block, in front of
everything in the second. -/
theorem verify_of_honest_revisiting :
    Call.Honest [] (new { name := "f", returnType := .i64 } "entry") revisiting ∧
      ∃ replies c, (revisiting.mapM Call.perform).run
          (new { name := "f", returnType := .i64 } "entry") = .ok replies c ∧
        c.function.verify = .ok () := by
  have hhonest : Call.Honest [] (new { name := "f", returnType := .i64 } "entry") revisiting := by
    decide +kernel
  obtain ⟨replies, c, hrun, hiff, -⟩ := verify_of_honest "f" .i64 "entry" revisiting hhonest
  refine ⟨hhonest, replies, c, hrun, hiff.2 ?_⟩
  have hblocks : (match (revisiting.mapM Call.perform).run
      (new { name := "f", returnType := .i64 } "entry") with
      | .ok _ c => decide ((∀ b ∈ c.function.blocks, b.terminator ≠ none) ∧
        (c.function.blocks.toList.map (·.name)).Nodup)
      | .error .. => false) = true := by
    decide +kernel
  rw [hrun] at hblocks
  exact of_decide_eq_true hblocks

end Cursor

end CodeRecovery.Graph
