/-
Which programs the graph compiler accepts.

A compiled function always passes the check: its labels differ because they end in the positions of
their handlers, its blocks end and lead to blocks, and its values are numbered. So a run of the
compiler fails only where the compilation itself does, which is at the first handler with a flaw.
-/
import CodeRecovery.Proofs.Graph.Numbering

set_option autoImplicit false

namespace CodeRecovery.Graph.Backend

/-! ## Labels -/

/-- A label is a name, a mark and a number. -/
theorem toList_handlerLabel (h : Handler) (position : Nat) :
    (handlerLabel h position).toList = h.opcode.name.toList ++ '_' :: Nat.toDigits 10 position := by
  simp only [handlerLabel, String.toList_append, Nat.toString_eq_ofList_toDigits,
    String.toList_ofList, List.append_assoc]
  rfl

/-- What stands behind the last mark is told by the whole. Names of instructions have marks in them
too, so the first mark would not do. -/
theorem eq_of_append_cons_eq {α : Type} {a : α} {l l' d d' : List α}
    (h : l ++ a :: d = l' ++ a :: d') (hd : a ∉ d) (hd' : a ∉ d') : d = d' := by
  rcases List.append_eq_append_iff.1 h with ⟨as, -, has⟩ | ⟨as, -, has⟩
  · cases as with
    | nil => exact (List.cons.inj has).2
    | cons x as =>
      exact absurd ((List.cons.inj has).2 ▸ List.mem_append_right as List.mem_cons_self) hd
  · cases as with
    | nil => exact (List.cons.inj has).2.symm
    | cons x as =>
      exact absurd ((List.cons.inj has).2 ▸ List.mem_append_right as List.mem_cons_self) hd'

/-- **A label tells the position of its handler**: a number has no mark in it, so it is what stands
behind the last one. -/
theorem handlerLabel_position {h h' : Handler} {position position' : Nat}
    (heq : handlerLabel h position = handlerLabel h' position') : position = position' := by
  have hlist := congrArg String.toList heq
  rw [toList_handlerLabel, toList_handlerLabel] at hlist
  have hdigits := eq_of_append_cons_eq hlist Nat.underscore_not_in_toDigits
    Nat.underscore_not_in_toDigits
  rw [← Nat.ofDigitChars_ten_toDigits (n := position), hdigits, Nat.ofDigitChars_ten_toDigits]

/-- The opening block is named without a mark. -/
theorem handlerLabel_ne_entry (h : Handler) (position : Nat) :
    handlerLabel h position ≠ "entry" := by
  intro heq
  have hmem : '_' ∈ (handlerLabel h position).toList := by
    rw [toList_handlerLabel]
    exact List.mem_append_right _ List.mem_cons_self
  rw [heq] at hmem
  exact absurd hmem (by decide)

/-- The shared block is named with one, but not with a number. -/
theorem handlerLabel_ne_exit (h : Handler) (position : Nat) :
    handlerLabel h position ≠ exitLabel := by
  intro heq
  have hlist := congrArg String.toList heq
  rw [toList_handlerLabel] at hlist
  -- The exit's label has a mark too, but what stands behind it is no number.
  have hexit : exitLabel.toList = ['v', 'm'] ++ '_' :: ['e', 'x', 'i', 't'] := by decide
  rw [hexit] at hlist
  have hdigits := eq_of_append_cons_eq hlist Nat.underscore_not_in_toDigits (by decide)
  have hdigit : 'e'.isDigit = true :=
    Nat.isDigit_of_mem_toDigits (b := 10) (n := position) (by decide) (by decide)
      (hdigits ▸ List.mem_cons_self)
  exact absurd hdigit (by decide)

variable {s : Settings} {p : Program} {b : Backend} {registers k n n' : Nat} {block : Block}
  {done : List Block}

/-- A block that was laid for a handler is named after it. -/
theorem Lowered.name (hlowered : Lowered registers p k n block n') :
    ∃ h, block.name = handlerLabel h k := by
  cases hlowered <;> exact ⟨_, rfl⟩

/-- The blocks laid so far are named after handlers at earlier positions. -/
theorem Laid.names (hlaid : Laid registers p k n done) :
    ∀ block ∈ done, ∃ h, ∃ position < k, block.name = handlerLabel h position := by
  induction hlaid with
  | nil => exact nofun
  | @snoc k n n' done last hlaid hlowered ih =>
    intro block hblock
    rcases List.mem_append.1 hblock with hblock | hblock
    · obtain ⟨h, position, hlt, hname⟩ := ih block hblock
      exact ⟨h, position, Nat.lt_succ_of_lt hlt, hname⟩
    · obtain rfl := List.mem_singleton.1 hblock
      obtain ⟨h, hname⟩ := hlowered.name
      exact ⟨h, k, Nat.lt_succ_self k, hname⟩

/-- Labels carry positions, so the blocks of different handlers have different names. -/
theorem Laid.nodup_names (hlaid : Laid registers p k n done) : (done.map (·.name)).Nodup := by
  induction hlaid with
  | nil => exact List.nodup_nil
  | @snoc k n n' done last hlaid hlowered ih =>
    obtain ⟨h, hname⟩ := hlowered.name
    rw [List.map_append, List.nodup_append]
    refine ⟨ih, by simp, fun label hlabel label' hlabel' heq => ?_⟩
    obtain ⟨block, hblock, rfl⟩ := List.mem_map.1 hlabel
    obtain ⟨h', position, hlt, hname'⟩ := hlaid.names block hblock
    have hlast : label' = handlerLabel h k := by simpa [hname] using hlabel'
    rw [hname', hlast] at heq
    exact absurd (handlerLabel_position heq) (Nat.ne_of_lt hlt)

/-- **The labels of a compiled function differ.** The opening block and the shared one are told
apart from the others by the shape of their names, whether or not there is a shared one. -/
theorem Finished.nodup_names (hfinished : Finished s p b) : (b.blocks.map (·.name)).Nodup := by
  obtain ⟨done, n, hlaid, hblocks, -⟩ := hfinished.laid
  have hdone := hlaid.nodup_names
  have hentry : "entry" ∉ done.map (·.name) := by
    intro hmem
    obtain ⟨block, hblock, hname⟩ := List.mem_map.1 hmem
    obtain ⟨h, position, -, hlabel⟩ := hlaid.names block hblock
    exact handlerLabel_ne_entry h position (hlabel.symm.trans hname)
  have hexit : exitLabel ∉ done.map (·.name) := by
    intro hmem
    obtain ⟨block, hblock, hname⟩ := List.mem_map.1 hmem
    obtain ⟨h, position, -, hlabel⟩ := hlaid.names block hblock
    exact handlerLabel_ne_exit h position (hlabel.symm.trans hname)
  have hcons : ((entryBlock s :: done).map (·.name)).Nodup := List.nodup_cons.2 ⟨hentry, hdone⟩
  rw [hblocks]
  cases p.endsInBranch with
  | false => simpa using hcons
  | true =>
    rw [if_pos rfl, List.map_append, List.nodup_append]
    refine ⟨hcons, by simp, fun label hlabel label' hlabel' heq => ?_⟩
    obtain rfl : label' = exitLabel := List.mem_singleton.1 hlabel'
    rw [heq, List.map_cons, List.mem_cons] at hlabel
    rcases hlabel with hlabel | hlabel
    · have hne : exitLabel ≠ "entry" := by decide
      exact hne hlabel
    · exact hexit hlabel

/-- The end of a handler's block leads to the block of a handler or, behind a branch at the end of
the program, to the block there. -/
theorem Lowered.ends (hlowered : Lowered registers p k n block n') {count : Nat}
    (hcount : p.length < count) (hexit : p.endsInBranch = true → p.length + 1 < count) :
    block.Ends count := by
  cases hlowered with
  | next hh hbody hlt =>
    refine ⟨_, rfl, fun target htarget => ?_⟩
    obtain rfl : target = k + 2 := List.mem_singleton.1 htarget
    omega
  | last | exit => exact ⟨_, rfl, nofun⟩
  | @branch h _ _ condition target taken hh hbody htaken =>
    have hlt := Program.lt_of_positionAt? htaken
    obtain ⟨hk, -⟩ := List.getElem?_eq_some_iff.1 hh
    refine ⟨_, rfl, fun target htarget => ?_⟩
    rcases List.mem_cons.1 htarget with rfl | htarget
    · omega
    · obtain rfl : target = k + 2 := List.mem_singleton.1 htarget
      -- Behind the last handler is the shared exit, one block more than there are handlers.
      by_cases hlast : k + 1 = p.length
      · have hends : p.endsInBranch = true := by
          rw [Program.endsInBranch_eq hh hlast]
          simpa using hbody.opcode.1
        have := hexit hends
        omega
      · omega

/-- Every block that was laid is that of some position. -/
theorem Laid.exists_lowered (hlaid : Laid registers p k n done) (hblock : block ∈ done) :
    ∃ position n₀ n₁, Lowered registers p position n₀ block n₁ := by
  obtain ⟨position, hget⟩ := List.mem_iff_getElem?.1 hblock
  obtain ⟨hlt, -⟩ := List.getElem?_eq_some_iff.1 hget
  obtain ⟨block', n₀, n₁, hget', -, hlowered⟩ := hlaid.lowered (hlaid.length ▸ hlt)
  obtain rfl : block' = block := Option.some.inj (hget'.symm.trans hget)
  exact ⟨position, n₀, n₁, hlowered⟩

/-- **What holds of the entry block, of the blocks of handlers and of the block behind them holds of
every block of a compiled function.** There are no others, and properties of compiled functions are
proved by these three. -/
theorem Finished.forall_blocks (hfinished : Finished s p b) {P : Block → Prop}
    (hentry : P (entryBlock s))
    (hhandler : ∀ position n block n', Lowered s.virtualRegisters p position n block n' → P block)
    (hexit : ∀ n, P (exitBlock n)) : ∀ block ∈ b.blocks, P block := by
  obtain ⟨done, n, hlaid, hblocks, -⟩ := hfinished.laid
  intro block hblock
  rw [hblocks, List.mem_append, List.mem_cons] at hblock
  rcases hblock with (rfl | hblock) | hblock
  · exact hentry
  · obtain ⟨position, n₀, n₁, hlowered⟩ := hlaid.exists_lowered hblock
    exact hhandler _ _ _ _ hlowered
  · split at hblock
    · obtain rfl := List.mem_singleton.1 hblock
      exact hexit n
    · cases hblock

/-- The blocks of a compiled function end, and lead to blocks. A branch at the end of the program
leads to the shared block, which is there then. -/
theorem Finished.ends (hfinished : Finished s p b) (hp : p ≠ []) :
    ∀ block ∈ b.blocks, block.Ends b.blocks.length := by
  obtain ⟨done, n, hlaid, hblocks, -⟩ := hfinished.laid
  have hlength := hlaid.length
  have hpos := List.length_pos_iff.2 hp
  have hcount : p.length < b.blocks.length := by
    rw [hblocks, List.length_append, List.length_cons, hlength]
    omega
  have hexit : p.endsInBranch = true → p.length + 1 < b.blocks.length := by
    intro hends
    rw [hblocks, hends, if_pos rfl, List.length_append, List.length_cons, hlength]
    exact Nat.lt_succ_self _
  have hentry : (entryBlock s).Ends b.blocks.length := by
    refine ⟨_, rfl, fun target htarget => ?_⟩
    obtain rfl : target = 1 := List.mem_singleton.1 htarget
    omega
  exact hfinished.forall_blocks hentry (fun _ _ _ _ hlowered => hlowered.ends hcount hexit)
    fun _ => ⟨_, rfl, nofun⟩

/-- **A compiled function passes the check.** The check asks for labels that differ, blocks that
end, and values that are assigned once and before they are used. -/
theorem Finished.verify (hfinished : Finished s p b) (hp : p ≠ []) :
    b.cursor.function.verify = .ok () :=
  (Function.verify_iff_lawful _).2
    (hfinished.numbered.lawful hfinished.nodup_names (hfinished.ends hp))

/-! ## Runs of the compiler -/

/-- **What a run of the graph compiler comes to.** It succeeds if no handler has a flaw, and
otherwise fails by the first one. There is no third case: the check at the end never fails. -/
theorem run_cases (s : Settings) (hp : p ≠ []) :
    ((∀ position < p.length, p.flaw? s.virtualRegisters position = none) ∧
        ∃ b, (run p).run (new s) = .ok () b) ∨
      ∃ position cause b, p.flaw? s.virtualRegisters position = some cause ∧
        (∀ q < position, p.flaw? s.virtualRegisters q = none) ∧
        (run p).run (new s) = .error (.failed cause) b := by
  rcases run_compile s hp with ⟨hnone, b, hcompile, hfinished⟩ |
    ⟨position, cause, b, hflaw, hnone, hcompile⟩
  · have hrun := run_of_compile_ok hp hcompile
    rw [hfinished.verify hp] at hrun
    exact .inl ⟨hnone, _, hrun⟩
  · exact .inr ⟨position, cause, b, hflaw, hnone, run_of_compile_error hp hcompile⟩

end CodeRecovery.Graph.Backend
