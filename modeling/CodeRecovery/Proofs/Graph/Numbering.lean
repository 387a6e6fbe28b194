/-
Values are numbered through the blocks of a function.

A compiled function assigns its values in the order of its text, without a gap: `Numbered` says so
of a list of blocks, each of which goes on where the one before stopped. It follows that no value is
assigned twice and that no use comes before the assignment, which are the rules on values that the
check asks for.
-/
import CodeRecovery.Proofs.Graph.Layout
import CodeRecovery.Proofs.Graph.Lawful

set_option autoImplicit false

namespace CodeRecovery.Graph

/-! ## Numbering inside a block -/

section

variable {n n' : Nat} {code : List Instruction} {i : Instruction}

/-- Tidy code assigns nothing that exists already. The first value it assigns is `n`, and every
later one is greater. -/
theorem Tidy.le_assigned (htidy : Tidy n code n') {place value : Nat} (hi : code[place]? = some i)
    (hvalue : i.assigned? = some value) : n ≤ value := by
  induction code generalizing n place with
  | nil => cases hi
  | cons i₀ rest ih =>
    have htail := htidy.2
    cases hassigned : i₀.assigned? with
    | none =>
      rw [hassigned] at htail
      cases place with
      | zero =>
        obtain rfl := Option.some.inj hi
        rw [hassigned] at hvalue
        cases hvalue
      | succ place => exact ih htail hi
    | some dst =>
      rw [hassigned] at htail
      obtain ⟨rfl, htail⟩ := htail
      cases place with
      | zero =>
        obtain rfl := Option.some.inj hi
        rw [hassigned] at hvalue
        exact Nat.le_of_eq (Option.some.inj hvalue)
      | succ place => exact Nat.le_of_succ_le (ih htail hi)

/-- **Tidy code uses a value only behind its assignment.** What an instruction uses exists in front
of it, and what is assigned from there on does not. -/
theorem Tidy.assigned_before (htidy : Tidy n code n') {place use value : Nat} {i' : Instruction}
    {o : Operand} (hi : code[use]? = some i) (ho : o ∈ i.operands) (hvalue : value ∈ o.value?)
    (hi' : code[place]? = some i') (hassigned' : i'.assigned? = some value) : place < use := by
  induction code generalizing n place use with
  | nil => cases hi
  | cons i₀ rest ih =>
    -- The first instruction uses old values only, and none of those is assigned from here on.
    cases use with
    | zero =>
      obtain rfl := Option.some.inj hi
      have hlt := htidy.1 o ho value hvalue
      have hle := htidy.le_assigned hi' hassigned'
      omega
    | succ use =>
      cases place with
      | zero => exact Nat.succ_pos use
      | succ place =>
        have htail := htidy.2
        cases hassigned : i₀.assigned? with
        | none =>
          rw [hassigned] at htail
          exact Nat.succ_lt_succ (ih htail hi hi')
        | some dst =>
          rw [hassigned] at htail
          exact Nat.succ_lt_succ (ih htail.2 hi hi')

/-- Whatever tidy code uses exists by its end, be it old or its own. -/
theorem Tidy.use_lt (htidy : Tidy n code n') {use value : Nat} {o : Operand}
    (hi : code[use]? = some i) (ho : o ∈ i.operands) (hvalue : value ∈ o.value?) : value < n' := by
  induction code generalizing n use with
  | nil => cases hi
  | cons i₀ rest ih =>
    have htail := htidy.2
    cases use with
    | zero =>
      obtain rfl := Option.some.inj hi
      exact Nat.lt_of_lt_of_le (htidy.1 o ho value hvalue) htidy.le
    | succ use =>
      cases hassigned : i₀.assigned? with
      | none =>
        rw [hassigned] at htail
        exact ih htail hi
      | some dst =>
        rw [hassigned] at htail
        exact ih htail.2 hi

/-- The values that tidy code assigns, in order and without a gap. -/
theorem Tidy.map_assignmentsAt (htidy : Tidy n code n') (id : BlockIndex) (k : Nat) :
    (assignmentsAt id (code.zipIdx k)).map (·.1) = List.range' n (n' - n) := by
  induction code generalizing n k with
  | nil =>
    obtain rfl : n = n' := htidy
    simp [assignmentsAt]
  | cons i₀ rest ih =>
    have htail := htidy.2
    cases hassigned : i₀.assigned? with
    | none =>
      rw [hassigned] at htail
      rw [← ih htail (k + 1)]
      simp [assignmentsAt, List.zipIdx_cons, hassigned]
    | some dst =>
      rw [hassigned] at htail
      obtain ⟨rfl, htail⟩ := htail
      have hsub : n' - dst = n' - (dst + 1) + 1 := by
        have hle := htail.le
        omega
      rw [hsub, List.range'_succ, ← ih htail (k + 1)]
      simp [assignmentsAt, List.zipIdx_cons, hassigned]

end

/-! ## Numbering through blocks -/

/-- A block whose code goes from `n` values to `n'`, all of which its end may use. The end stands
behind the code, so nothing it uses can be assigned too late. -/
structure Block.Numbered (n : Nat) (b : Block) (n' : Nat) : Prop where
  code : Tidy n b.instructions.toList n'
  ending : ∀ t ∈ b.terminator, ∀ o ∈ t.operands, o.Below n'

/-- Blocks that go from `n` values to `n'`, each from where the one before stopped. -/
def Numbered : (n : Nat) → List Block → (n' : Nat) → Prop
  | n, [], n' => n = n'
  | n, b :: rest, n' => ∃ mid, b.Numbered n mid ∧ Numbered mid rest n'

/-- Blocks behind blocks take up the numbering where the first ones left off. -/
theorem Numbered.append {n n' n'' : Nat} {blocks blocks' : List Block} (h : Numbered n blocks n')
    (h' : Numbered n' blocks' n'') : Numbered n (blocks ++ blocks') n'' := by
  induction blocks generalizing n with
  | nil => exact h.symm ▸ h'
  | cons b rest ih =>
    obtain ⟨mid, hb, hrest⟩ := h
    exact ⟨mid, hb, ih hrest⟩

/-- The numbering does not go back. -/
theorem Numbered.le {n n' : Nat} {blocks : List Block} (h : Numbered n blocks n') : n ≤ n' := by
  induction blocks generalizing n with
  | nil => exact Nat.le_of_eq h
  | cons b rest ih =>
    obtain ⟨mid, hb, hrest⟩ := h
    exact Nat.le_trans hb.code.le (ih hrest)

/-- The values that numbered blocks assign, in order and without a gap. -/
theorem Numbered.map_assignmentsOf {n n' : Nat} {blocks : List Block} (h : Numbered n blocks n')
    (k : Nat) : (assignmentsOf (blocks.zipIdx k)).map (·.1) = List.range' n (n' - n) := by
  induction blocks generalizing n k with
  | nil =>
    obtain rfl : n = n' := h
    simp [assignmentsOf]
  | cons b rest ih =>
    obtain ⟨mid, hb, hrest⟩ := h
    have hsplit : assignmentsOf ((b :: rest).zipIdx k)
        = assignmentsAt k b.instructions.toList.zipIdx ++ assignmentsOf (rest.zipIdx (k + 1)) := by
      simp [assignmentsOf, List.zipIdx_cons]
    have hle := hb.code.le
    have hle' := hrest.le
    have hsum : n' - n = (mid - n) + (n' - mid) := by omega
    have hmid : mid = n + 1 * (mid - n) := by omega
    rw [hsplit, List.map_append, hb.code.map_assignmentsAt, ih hrest, hsum, ← List.range'_append,
      ← hmid]

/-- Each block is numbered up to some value that exists in the end. -/
theorem Numbered.block {n n' : Nat} {blocks : List Block} (h : Numbered n blocks n') {b : Block}
    (hb : b ∈ blocks) : ∃ m m', b.Numbered m m' ∧ m' ≤ n' := by
  induction blocks generalizing n with
  | nil => cases hb
  | cons b₀ rest ih =>
    obtain ⟨mid, hb₀, hrest⟩ := h
    rcases List.mem_cons.1 hb with rfl | hb
    · exact ⟨n, mid, hb₀, hrest.le⟩
    · exact ih hrest hb

/-! ## Uses -/

/-- A value used in a numbered block exists by the block's end, and is not assigned in it later. It
may have been assigned in another block, in front or behind. -/
theorem Block.Numbered.use {n n' : Nat} {b : Block} (hb : b.Numbered n n') {use : Operand × Nat}
    (huse : use ∈ b.uses) {value : Nat} (hvalue : value ∈ use.1.value?) :
    value < n' ∧ ∀ place i, b.instructions.toList[place]? = some i → i.assigned? = some value →
      place < use.2 := by
  rcases Block.mem_uses.1 huse with ⟨i, hi, ho⟩ | ⟨hend, t, ht, ho⟩
  · exact ⟨hb.code.use_lt hi ho hvalue, fun place i' hi' hassigned =>
      hb.code.assigned_before hi ho hvalue hi' hassigned⟩
  · refine ⟨hb.ending t ht use.1 ho value hvalue, fun place i hi _ => ?_⟩
    rw [hend]
    exact (List.getElem?_eq_some_iff.1 hi).1

/-- **Numbered blocks obey the rules on values.** No value is in the row twice, so none is assigned
twice; and all values in the row are assigned somewhere, so a value that is used is. -/
theorem Numbered.lawful {f : Function} {n' : Nat} (h : Numbered 0 f.blocks.toList n')
    (hlabels : (f.blocks.toList.map (·.name)).Nodup)
    (hends : ∀ b ∈ f.blocks.toList, b.Ends f.blocks.size) : f.Lawful where
  labels := hlabels
  ends := hends
  assignedOnce := by
    rw [Function.assignments, h.map_assignmentsOf]
    exact List.nodup_range'
  assignedBefore := by
    rintro ⟨b, id⟩ hentry use huse value hvalue
    have hblock := List.mk_mem_zipIdx_iff_getElem?.1 hentry
    obtain ⟨m, m', hb, hle⟩ := h.block (List.mem_of_getElem? hblock)
    obtain ⟨hlt, hbefore⟩ := hb.use huse hvalue
    have hmem : value ∈ (f.assignments).map (·.1) := by
      rw [Function.assignments, h.map_assignmentsOf, List.mem_range'_1]
      omega
    -- All numbers up to the last are assigned somewhere, so a value that is used is. If that is in
    -- the same block, the order within the block settles it.
    obtain ⟨⟨value', home, place⟩, hassignment, heq⟩ := List.mem_map.1 hmem
    obtain rfl : value' = value := heq
    refine ⟨home, place, hassignment, fun hhome => ?_⟩
    obtain ⟨b', i, hb', hi, hassigned⟩ := mem_assignmentsOf.1 hassignment
    have hsame : b' = b := by
      rw [hhome] at hb'
      exact Option.some.inj (hb'.symm.trans hblock)
    exact hbefore place i (hsame ▸ hi) hassigned

/-! ## Compiled functions -/

namespace Backend

variable {s : Settings} {p : Program} {b : Backend} {registers k n n' : Nat} {block : Block}
  {done : List Block}

theorem tidy_resultCode (n : Nat) : Tidy n (resultCode n) (n + 1) :=
  tidy_singleton rfl (by simp [Instruction.operands])

theorem tidy_epilogue (hn : 3 ≤ n) : Tidy n (epilogue slotOperand n) (n + 51) :=
  tidy_restoreCode SavedRegister.popOrder (below_slot hn)

/-- The code of a handler is tidy. -/
theorem Body.tidy {h : Handler} {outcome : Outcome Operand} {code : List Instruction}
    (hbody : Body registers n h k outcome code n') : Tidy n code n' := by
  obtain ⟨_, _, _, _, _, _, _, htidy, _⟩ := hbody
  exact htidy

/-- The condition of a branch is a value of the block, or an older one. -/
theorem Body.below_condition {h : Handler} {condition : Operand} {target : Word}
    {code : List Instruction} (hbody : Body registers n h k (.branch condition target) code n') :
    condition.Below n' := by
  obtain ⟨_, _, _, _, _, _, _, _, _, _, hsame⟩ := hbody
  cases hsame with
  | branch hcondition => exact hcondition.1

/-- The entry block has the values up to four. -/
theorem numbered_entryBlock (s : Settings) : (entryBlock s).Numbered 0 4 where
  code := by
    simp [entryBlock, Tidy, Instruction.operands, Instruction.assigned?, slotOperand]
  ending := by simp [entryBlock, Terminator.operands]

/-- The shared block goes on where the last handler's block stopped, though it was written before
that block had its end. -/
theorem numbered_exitBlock (hn : 4 ≤ n) : (exitBlock n).Numbered n (n + 52) where
  code := (tidy_epilogue (Nat.le_of_succ_le hn)).append (tidy_resultCode (n + 51))
  ending := by simp [exitBlock, Terminator.operands]

/-- The block of a handler, whichever way it ends. -/
theorem Lowered.numbered (hlowered : Lowered registers p k n block n') (hn : 4 ≤ n) :
    block.Numbered n n' := by
  cases hlowered with
  | next _ hbody _ => exact ⟨hbody.tidy, by simp [Terminator.operands]⟩
  | last _ hbody _ =>
    have hn' : 3 ≤ _ := Nat.le_of_succ_le (Nat.le_trans hn hbody.le)
    exact ⟨(hbody.tidy.append (tidy_epilogue hn')).append (tidy_resultCode _),
      by simp [Terminator.operands]⟩
  | exit _ hbody => exact ⟨hbody.tidy.append (tidy_resultCode _), by simp [Terminator.operands]⟩
  | branch _ hbody _ => exact ⟨hbody.tidy, by simp [Terminator.operands, hbody.below_condition]⟩

/-- The blocks of handlers, one behind the other. -/
theorem Laid.numbered (hlaid : Laid registers p k n done) : Numbered 4 done n := by
  induction hlaid with
  | nil => rfl
  | snoc hlaid hlowered ih => exact ih.append ⟨_, hlowered.numbered hlaid.le, rfl⟩

/-- **A compiled function numbers its values through its text, without a gap.** -/
theorem Finished.numbered (hfinished : Finished s p b) : Numbered 0 b.blocks b.nextValue := by
  obtain ⟨done, n, hlaid, hblocks, hnext⟩ := hfinished.laid
  have hentry : Numbered 0 (entryBlock s :: done) n := ⟨4, numbered_entryBlock s, hlaid.numbered⟩
  rw [hblocks, hnext]
  cases p.endsInBranch with
  | true => exact hentry.append ⟨_, numbered_exitBlock hlaid.le, rfl⟩
  | false => exact hentry.append rfl

/-! ## How many values there are

Values are counted without an upper limit here. A counter of 32 bits would do as well for any
program that is not absurdly long. -/

/-- A block takes the values of its handler and, if it leaves, those of the code that leaves. -/
theorem Lowered.le_add (hlowered : Lowered registers p k n block n') :
    n' ≤ n + (handlerValues + 52) := by
  cases hlowered with
  | next _ hbody _ =>
    have hle := hbody.le_add
    omega
  | last _ hbody _ =>
    have hle := hbody.le_add
    omega
  | exit _ hbody =>
    have hle := hbody.le_add
    omega
  | branch _ hbody _ =>
    have hle := hbody.le_add
    omega

/-- This holds of the first handlers of a program, so also where the compiler has come to so far. -/
theorem Laid.le_add (hlaid : Laid registers p k n done) : n ≤ 4 + k * (handlerValues + 52) := by
  induction hlaid with
  | nil => exact Nat.le_refl 4
  | snoc _ hlowered ih =>
    have hle := hlowered.le_add
    rw [Nat.succ_mul]
    omega

/-- The entry block and the shared block take at most fifty-six, and each handler at most 460. -/
theorem Finished.nextValue_le (hfinished : Finished s p b) :
    b.nextValue ≤ 56 + p.length * (handlerValues + 52) := by
  obtain ⟨done, n, hlaid, -, hnext⟩ := hfinished.laid
  have hle := hlaid.le_add
  rw [hnext]
  split
  · omega
  · omega

/-- **The names of values fit into 32 bits** if a program has no more than nine million handlers.
The bound is far from sharp: hardly any handler takes a tenth of what is allowed for here. -/
theorem nextValue_lt_of_run (hrun : (run p).run (new s) = .ok () b) (hlength : p.length ≤ 9000000) :
    b.nextValue < UInt32.size := by
  have hvalues : p.length * (handlerValues + 52) ≤ 9000000 * 460 := Nat.mul_le_mul_right 460 hlength
  calc b.nextValue
      ≤ 56 + p.length * (handlerValues + 52) := (finished_of_run hrun).2.nextValue_le
    _ ≤ 56 + 9000000 * 460 := Nat.add_le_add_left hvalues 56
    _ < UInt32.size := by decide

end Backend

end CodeRecovery.Graph
