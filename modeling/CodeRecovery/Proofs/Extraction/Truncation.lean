/-
Bytecode that is cut short.

The walk looks at how many bytes there are before every slot, so a program from the first part of
some bytecode and one from all of it are two runs of a loop with different stop conditions. They
agree for as long as the slots lie in the first part. `Program.Cut` says what is left of a program
by the ends of its slots alone, wherever the cut falls: between two slots, in an immediate, in a
pointer or in front of the first slot.

The argument is about chains and not about the walk. A slot inside the first part reads the same
bytes in both, so it is a slot of both chains; and a pointer and an offset have no more than one
slot.
-/
import CodeRecovery.Proofs.Extraction.Encoding

set_option autoImplicit false

namespace CodeRecovery

/-! ## Programs up to a limit -/

/-- What is left of a program when its bytes end at a limit: the leading handlers whose slots end
there or before, and no others. It mentions neither the bytes nor the walk. -/
structure Program.Cut (limit : Nat) (whole p : Program) : Prop where
  leading : p <+: whole
  kept : ∀ position < whole.length, position < p.length ↔ whole.offset (position + 1) ≤ limit

namespace Program.Cut

variable {limit : Nat} {h : Handler} {whole p : Program}

/-- Nothing is left if the first slot does not fit, since all the others end behind it. -/
theorem of_short (hshort : ∀ h ∈ whole.head?, limit < h.width) : Cut limit whole [] where
  leading := List.nil_prefix
  kept position hlt := by
    cases whole with
    | nil => exact absurd hlt (Nat.not_lt_zero _)
    | cons h rest =>
      have hfirst : limit < h.width := hshort h rfl
      rw [offset_cons]
      simp only [List.length_nil, Nat.not_lt_zero, false_iff]
      omega

/-- A slot that fits is left, and the rest of the bytes are for the others. -/
theorem cons (hcut : Cut (limit - h.width) whole p) (hfits : h.width ≤ limit) :
    Cut limit (h :: whole) (h :: p) where
  leading := List.cons_prefix_cons.2 ⟨rfl, hcut.leading⟩
  kept position hlt := by
    rw [offset_cons]
    cases position with
    | zero =>
      have hzero : whole.offset 0 = 0 := rfl
      simp only [List.length_cons, Nat.zero_lt_succ, true_iff, hzero]
      omega
    | succ position =>
      have hkept := hcut.kept position (Nat.lt_of_succ_lt_succ hlt)
      rw [List.length_cons, Nat.succ_lt_succ_iff, hkept]
      omega

/-- The handlers that are left are those of the whole program, with nothing changed in them. -/
theorem getElem?_eq (hcut : Cut limit whole p) {position : Nat} (hh : whole[position]? = some h)
    (hend : whole.offset (position + 1) ≤ limit) : p[position]? = some h := by
  have hlt := (hcut.kept position (List.getElem?_eq_some_iff.1 hh).1).2 hend
  obtain ⟨rest, rfl⟩ := hcut.leading
  rwa [List.getElem?_append_left hlt] at hh

/-- And the other way round: a handler that is left stands in the whole program where it stood. -/
theorem getElem?_whole (hcut : Cut limit whole p) {position : Nat} (hh : p[position]? = some h) :
    whole[position]? = some h := by
  obtain ⟨rest, rfl⟩ := hcut.leading
  rwa [List.getElem?_append_left (List.getElem?_eq_some_iff.1 hh).1]

/-- So are the offsets of their slots. -/
theorem offset_eq (hcut : Cut limit whole p) {position : Nat} (hle : position ≤ p.length) :
    p.offset position = whole.offset position := by
  obtain ⟨rest, rfl⟩ := hcut.leading
  rw [offset, offset, List.take_append_of_le_length hle]

end Program.Cut

namespace Extraction

variable {isa : Native.InstructionSet} {space : AddressSpace} {s : Settings} {stream : UInt32}
  {bytes bytes' : List UInt8} {offset : Nat} {dispatch : UInt32} {h h' : Handler} {p p' : Program}
  {e e' : Extraction}

/-! ## Slots in both -/

/-- A number within the first part is the same in the whole. -/
theorem numberAt_extended (hmore : bytes <+: bytes') {count : Nat}
    (hinside : offset + count ≤ bytes.length) :
    numberAt bytes' offset count = numberAt bytes offset count := by
  obtain ⟨more, rfl⟩ := hmore
  have hdrop : offset ≤ bytes.length := by omega
  have htake : count ≤ (bytes.drop offset).length := by
    rw [List.length_drop]
    omega
  rw [numberAt, numberAt, List.drop_append_of_le_length hdrop, List.take_append_of_le_length htake]

/-- More bytes behind a slot do not change it. A slot reads its own bytes only, and the code that it
is for does not depend on the bytecode. -/
theorem Slot.extended (hmore : bytes <+: bytes')
    (hslot : Slot isa space s stream bytes offset dispatch h) :
    Slot isa space s stream bytes' offset dispatch h where
  classified := hslot.classified
  wide := hslot.wide
  inside := Nat.le_trans hslot.inside hmore.length_le
  address := hslot.address
  data := by
    have hinside := hslot.inside
    rw [hslot.data, numberAt_extended hmore (by omega)]
  pointer := by
    have hinside := hslot.inside
    have hwide := hslot.wide
    rw [hslot.pointer, numberAt_extended hmore (by omega)]

/-- There is no more than one slot at an offset for a pointer, because the code tells its width and
the bytes tell the rest. -/
theorem Slot.unique (hslot : Slot isa space s stream bytes offset dispatch h)
    (hslot' : Slot isa space s stream bytes offset dispatch h') : h = h' := by
  have hclassified := hslot.classified.symm.trans hslot'.classified
  obtain ⟨hopcode, hwidth⟩ := Prod.mk.inj (Option.some.inj hclassified)
  have haddress : h.address = h'.address :=
    UInt32.toNat.inj (hslot.address.trans hslot'.address.symm)
  have hdata : h.data = h'.data :=
    UInt64.toNat.inj (by rw [hslot.data, hslot'.data, hwidth])
  have hdispatch : h.dispatch = h'.dispatch :=
    UInt32.toNat.inj (by rw [hslot.pointer, hslot'.pointer, hwidth])
  cases h
  cases h'
  simp_all only

/-! ## Chains in both -/

/-- Where a chain in the first part ends, the next slot of the whole does not fit into that part.
There may be such a slot: the chain ended for want of bytes. -/
theorem Final.limit_lt (hfinal : Final isa space s bytes offset dispatch)
    (hslot : Slot isa space s stream bytes' offset dispatch h) :
    bytes.length - offset < h.width := by
  have hwide := hslot.wide
  rcases hfinal with rfl | ⟨opcode, width, hclassified, hstop⟩
  · omega
  · have hsame := hslot.classified.symm.trans hclassified
    obtain ⟨-, rfl⟩ := Prod.mk.inj (Option.some.inj hsame)
    exact hstop.resolve_left (Nat.not_lt_of_le hwide)

/-- Where a chain in the whole ends, there is no slot in the first part either, for fewer bytes make
no slot possible. -/
theorem Final.not_slot (hfinal : Final isa space s bytes' offset dispatch)
    (hmore : bytes <+: bytes') :
    ¬ Slot isa space s stream bytes offset dispatch h := by
  intro hslot
  have hinside := hslot.inside
  have hlength := hmore.length_le
  have hlt := hfinal.limit_lt hslot
  omega

/-- **A chain in the first part of some bytecode is one in all of it, cut off.** Both are given;
nothing is said here of whether there are such chains. -/
theorem Chain.cut (hmore : bytes <+: bytes')
    (hchain : Chain isa space s stream bytes offset dispatch p)
    (hchain' : Chain isa space s stream bytes' offset dispatch p') :
    p'.Cut (bytes.length - offset) p := by
  -- By the chain in the first part: both chains have its slots, and where it ends the other goes on
  -- with a slot that is too long, if at all.
  induction hchain generalizing p' with
  | done hfinal =>
    cases hchain' with
    | done => exact .of_short (fun _ hh => nomatch hh)
    | slot hslot' _ =>
      refine .of_short fun h hh => ?_
      cases hh
      exact hfinal.limit_lt hslot'
  | slot hslot _ ih =>
    cases hchain' with
    | done hfinal' => exact absurd hslot (hfinal'.not_slot hmore)
    | slot hslot' hrest' =>
      cases (hslot.extended hmore).unique hslot'
      have hinside := hslot.inside
      have hcut := ih hrest'
      rw [Nat.sub_add_eq] at hcut
      exact hcut.cons (by omega)

/-! ## Programs in both -/

/-- If a walk through all of some bytecode does not break off, then neither does one through its
first part, which follows no other pointers. It may follow fewer, and so it may succeed where the
longer one breaks off. -/
theorem exists_walk_of_prefix {offset : Nat} {dispatch : UInt32} {rest rest' : List UInt8}
    {e' : Extraction} (hmore : rest <+: rest')
    (hwalk' : walk isa space s stream offset dispatch rest' = some e') :
    ∃ e, walk isa space s stream offset dispatch rest = some e := by
  by_cases hrest : rest = []
  · rw [hrest]
    exact ⟨_, walk_nil⟩
  rcases walk_cases hwalk' with ⟨rfl, -⟩ | ⟨-, opcode, width, hclassified, hstep⟩
  · exact absurd (List.prefix_nil.1 hmore) hrest
  by_cases hstop : width < 4 ∨ rest.length < width
  · exact ⟨_, walk_stop hrest hclassified hstop⟩
  -- The slot lies in the first part, so both walks take it.
  obtain ⟨hnot, -⟩ | ⟨-, h, others', hhandler, hothers', -⟩ := hstep
  · have hle := hmore.length_le
    omega
  obtain ⟨more, rfl⟩ := hmore
  have hfits : width ≤ rest.length := by omega
  rw [List.take_append_of_le_length hfits] at hhandler
  rw [List.drop_append_of_le_length hfits] at hothers'
  obtain ⟨others, hothers⟩ := exists_walk_of_prefix (List.prefix_append _ _) hothers'
  rw [walk_slot hclassified (by omega) hfits hhandler, hothers]
  exact ⟨_, rfl⟩
termination_by rest.length
decreasing_by
  rw [List.length_drop]
  omega

/-- The same for whole extractions. If not even the first pointer is left, there is nothing to break
off. -/
theorem exists_ofBytes_of_prefix (hmore : bytes <+: bytes')
    (hwhole : ofBytes isa space s stream bytes' = some e') :
    ∃ e, ofBytes isa space s stream bytes = some e := by
  by_cases hshort : bytes.length < 4
  · exact ⟨_, ofBytes_short hshort⟩
  · have hlength : 4 ≤ bytes.length := Nat.le_of_not_lt hshort
    have hnumber : numberAt bytes' 0 4 = numberAt bytes 0 4 := numberAt_extended hmore hlength
    rw [ofBytes_long (Nat.le_trans hlength hmore.length_le) rfl, hnumber,
      Option.map_eq_some_iff] at hwhole
    obtain ⟨others', hothers', -⟩ := hwhole
    obtain ⟨more, rfl⟩ := hmore
    rw [List.drop_append_of_le_length hlength] at hothers'
    obtain ⟨others, hothers⟩ := exists_walk_of_prefix (List.prefix_append _ _) hothers'
    rw [ofBytes_long hlength rfl, hothers]
    exact ⟨_, rfl⟩

/-- The program in the first part of some bytecode is that in all of it, cut off. The entry counts
as the first four bytes, so it is cut off with its pointer. -/
theorem cut_ofBytes (hmore : bytes <+: bytes') (hpart : ofBytes isa space s stream bytes = some e)
    (hwhole : ofBytes isa space s stream bytes' = some e') :
    e'.program.Cut bytes.length e.program := by
  have hle := hmore.length_le
  by_cases hshort : bytes.length < 4
  · -- Even the first pointer is cut off then, whether or not the whole has it.
    rw [program_eq_nil hpart hshort]
    refine .of_short fun h hh => ?_
    by_cases hshort' : bytes'.length < 4
    · rw [program_eq_nil hwhole hshort'] at hh
      cases hh
    · obtain ⟨dispatch, p, -, hprogram, -⟩ := exists_chain hwhole (Nat.le_of_not_lt hshort')
      rw [hprogram] at hh
      cases hh
      exact hshort
  · have hlength : 4 ≤ bytes.length := Nat.le_of_not_lt hshort
    obtain ⟨dispatch, p, hdispatch, hprogram, hchain⟩ := exists_chain hpart hlength
    obtain ⟨dispatch', p', hdispatch', hprogram', hchain'⟩ :=
      exists_chain hwhole (Nat.le_trans hlength hle)
    rw [numberAt_extended hmore hlength, ← hdispatch] at hdispatch'
    subst hdispatch'
    rw [hprogram, hprogram']
    exact (hchain.cut hmore hchain').cons hlength

/-- **Cutting bytecode short drops whole handlers from the end of its program, and changes nothing
else.** What is left are the handlers whose slots end at or before the cut; there is none if not
even the first pointer is left, and otherwise the first handler at least. Whatever bytes stand
behind the cut, these handlers are the same. -/
theorem ofBytes_truncated (hmore : bytes <+: bytes')
    (hwhole : ofBytes isa space s stream bytes' = some e') :
    ∃ e, ofBytes isa space s stream bytes = some e ∧ e'.program.Cut bytes.length e.program ∧
      (e.program = [] ↔ bytes.length < 4) ∧
      ∀ bytes'' e'', bytes <+: bytes'' → ofBytes isa space s stream bytes'' = some e'' →
        ∀ position h, e'.program[position]? = some h →
          e'.program.offset (position + 1) ≤ bytes.length →
            e''.program[position]? = some h ∧
              e''.program.offset (position + 1) ≤ bytes.length := by
  obtain ⟨e, hpart⟩ := exists_ofBytes_of_prefix hmore hwhole
  have hcut := cut_ofBytes hmore hpart hwhole
  refine ⟨e, hpart, hcut, (tiles_of_ofBytes hpart).empty, ?_⟩
  intro bytes'' e'' hmore'' hother position h hh hend
  have hcut'' := cut_ofBytes hmore'' hpart hother
  have hleft := hcut.getElem?_eq hh hend
  have hlt := (List.getElem?_eq_some_iff.1 hleft).1
  refine ⟨hcut''.getElem?_whole hleft, ?_⟩
  rw [← hcut''.offset_eq hlt, hcut.offset_eq hlt]
  exact hend

/-- Four slots, cut off in the pointer of the second, of which the immediate is still there. The
second handler goes all the same. -/
theorem ofBytes_truncated_fourCells :
    (bytecode fourCells 0x7000).take 20 <+: bytecode fourCells 0x7000 ∧
      (∃ e', ofBytes .stubs threeStubs.space {} 0x1000 (bytecode fourCells 0x7000) = some e') ∧
      (ofBytes .stubs threeStubs.space {} 0x1000 ((bytecode fourCells 0x7000).take 20)).map
          (·.program)
        = some [.entry 0x1000 0x16194, ⟨.push64, 0x1122334455667788, 0x1004, 0x16101, 12⟩] := by
  have hmore : (bytecode fourCells 0x7000).take 20 <+: bytecode fourCells 0x7000 :=
    List.take_prefix 20 _
  have hwhole : ofBytes .stubs threeStubs.space {} 0x1000 (bytecode fourCells 0x7000)
      = some ⟨[.entry 0x1000 0x16194, ⟨.push64, 0x1122334455667788, 0x1004, 0x16101, 12⟩,
        ⟨.popVr64, 7, 0x1010, 0x20000, 5⟩, ⟨.unknown, 1, 0x1015, 0x16194, 14⟩,
        ⟨.push64, 5, 0x1023, 0x7000, 12⟩], none⟩ := by
    decide +kernel
  obtain ⟨e, hpart, hcut, -⟩ := ofBytes_truncated hmore hwhole
  have hlength : ((bytecode fourCells 0x7000).take 20).length = 20 := by decide +kernel
  rw [hlength] at hcut
  -- The slot at position 1 ends at offset 16, the one at position 2 at offset 21.
  have hone := (hcut.kept 1 (by decide)).2 (by decide)
  have htwo := mt (hcut.kept 2 (by decide)).1 (by decide)
  refine ⟨hmore, ⟨_, hwhole⟩, ?_⟩
  rw [hpart, Option.map_some, List.prefix_iff_eq_take.1 hcut.leading,
    Nat.le_antisymm (Nat.le_of_not_lt htwo) hone]
  rfl

end Extraction

end CodeRecovery
