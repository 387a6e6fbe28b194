/-
How an extracted program lies in its bytecode.

The slots of a program follow each other without a gap, from the pointer in front of the first one
to where the walk ended. How long a slot is can only be learned from native code that the slot
before it points to, so a slot is described together with that pointer: `Slot` says everything about
one handler, and `Chain` puts slots behind each other. A chain can only end where the bytecode ends
or where no slot is possible. That makes it a description of the walk without its loop: the walk
gives a chain, and positions in a chain are places in the bytecode.
-/
import Mathlib.Algebra.Ring.Nat
import CodeRecovery.Extraction
import CodeRecovery.Native.Decode

set_option autoImplicit false

namespace CodeRecovery

/-- Where the slot of the handler at a position starts: behind the slots in front of it. It is a sum
over the program alone; that the slots lie there in the bytecode is what has to be shown. -/
def Program.offset (p : Program) (position : Nat) : Nat :=
  ((p.take position).map (·.width)).sum

/-- A handler in front moves all the others by its width. -/
theorem Program.offset_cons (h : Handler) (p : Program) (position : Nat) :
    offset (h :: p) (position + 1) = h.width + p.offset position := by
  rw [offset, List.take_succ_cons, List.map_cons, List.sum_cons, offset]

/-- The next slot starts where this one ends. -/
theorem Program.offset_succ {p : Program} {position : Nat} {h : Handler}
    (hh : p[position]? = some h) : p.offset (position + 1) = p.offset position + h.width := by
  rw [offset, List.take_add_one, hh, offset, Option.toList_some, List.map_append, List.sum_append,
    List.map_singleton, List.sum_singleton]

namespace Extraction

/-! ## One slot -/

/-- The number in some bytes of the bytecode. -/
def numberAt (bytes : List UInt8) (offset count : Nat) : Nat :=
  LittleEndian.decode ((bytes.drop offset).take count)

/-- A number in some bytes is as small as the bytes are few, also where the bytecode ends before. -/
theorem numberAt_lt (bytes : List UInt8) (offset : Nat) {count size : Nat} (h : count ≤ size) :
    numberAt bytes offset count < 256 ^ size := by
  have hlength : ((bytes.drop offset).take count).length ≤ size :=
    Nat.le_trans (List.length_take_le _ _) h
  exact Nat.lt_of_lt_of_le (LittleEndian.decode_lt _) (Nat.pow_le_pow_right (by decide) hlength)

section

variable (isa : Native.InstructionSet) (space : AddressSpace) (s : Settings) (stream : UInt32)
  (bytes : List UInt8)

/-- **The handler is what the bytecode holds at an offset**, in a slot of the kind that the code at
`dispatch` is for. Nothing of it is left open: whatever fits here is the handler. -/
structure Slot (offset : Nat) (dispatch : UInt32) (h : Handler) : Prop where
  classified : classifyAt isa space s dispatch = some (h.opcode, h.width)
  wide : 4 ≤ h.width
  inside : offset + h.width ≤ bytes.length
  address : h.address.toNat = (stream.toNat + offset) % 2 ^ 32
  /-- At most eight bytes in front of the pointer count. -/
  data : h.data.toNat = numberAt bytes offset (min 8 (h.width - 4))
  /-- The last four bytes point to the code of the next handler. -/
  pointer : h.dispatch.toNat = numberAt bytes (offset + h.width - 4) 4

/-- No slot starts at an offset: the bytecode ends there, or the code at `dispatch` is for a slot
that has no room for its own pointer or does not fit into what is left. -/
def Final (offset : Nat) (dispatch : UInt32) : Prop :=
  offset = bytes.length ∨ ∃ opcode width, classifyAt isa space s dispatch = some (opcode, width) ∧
    (width < 4 ∨ bytes.length - offset < width)

/-- The handlers lie one behind the other from an offset on, up to where no further slot is. Each
slot has the pointer that tells the next one how long it is. -/
inductive Chain : (offset : Nat) → (dispatch : UInt32) → Program → Prop
  | done {offset : Nat} {dispatch : UInt32} : Final isa space s bytes offset dispatch →
      Chain offset dispatch []
  | slot {offset : Nat} {dispatch : UInt32} {h : Handler} {rest : Program} :
      Slot isa space s stream bytes offset dispatch h → Chain (offset + h.width) h.dispatch rest →
      Chain offset dispatch (h :: rest)

end

variable {isa : Native.InstructionSet} {space : AddressSpace} {s : Settings} {stream : UInt32}
  {bytes rest : List UInt8} {offset width : Nat} {dispatch : UInt32} {opcode : Opcode} {p : Program}
  {e : Extraction}

/-- What is read from the bytes of a slot is what the bytecode holds there. The walk has only the
bytes of the slot at hand, so the places within it have to be counted from its start. -/
theorem slot_handlerOf
    (hclassified : classifyAt isa space s dispatch = some (opcode, width))
    (hwide : 4 ≤ width) (hinside : offset + width ≤ bytes.length) :
    Slot isa space s stream bytes offset dispatch
      (handlerOf stream offset opcode ((bytes.drop offset).take width)) := by
  have hlength : ((bytes.drop offset).take width).length = width := by
    rw [List.length_take, List.length_drop]
    omega
  have hdata : (((bytes.drop offset).take width).take (width - 4)).take 8
      = (bytes.drop offset).take (min 8 (width - 4)) := by
    rw [List.take_take, List.take_take]
    congr 1
    omega
  have hpointer : ((bytes.drop offset).take width).drop (width - 4)
      = (bytes.drop (offset + width - 4)).take 4 := by
    rw [List.drop_take, List.drop_drop]
    congr 2
    · omega
    · omega
  -- Eight bytes fit into a word and four into half a word, so neither number is cut.
  have hdata_lt : numberAt bytes offset (min 8 (width - 4)) < 256 ^ 8 :=
    numberAt_lt bytes offset (Nat.min_le_left _ _)
  have hpointer_lt : numberAt bytes (offset + width - 4) 4 < 256 ^ 4 :=
    numberAt_lt bytes (offset + width - 4) (Nat.le_refl 4)
  refine
    { classified := ?classified, wide := ?wide, inside := ?inside, address := ?address
      data := ?data, pointer := ?pointer }
  case classified => simpa only [handlerOf, hlength] using hclassified
  case wide => simpa only [handlerOf, hlength] using hwide
  case inside => simpa only [handlerOf, hlength] using hinside
  case address =>
    rw [handlerOf, UInt32.toNat_add, UInt32.toNat_ofNat', Nat.add_mod_mod]
  case data =>
    simp only [handlerOf, hlength, dispatchSize, hdata]
    exact UInt64.toNat_ofNat_of_lt' hdata_lt
  case pointer =>
    simp only [handlerOf, hlength, dispatchSize, hpointer]
    exact UInt32.toNat_ofNat_of_lt' hpointer_lt

/-! ## The walk -/

/-- The walk is at the end where the bytes are. -/
theorem walk_nil : walk isa space s stream offset dispatch [] = some ⟨[], none⟩ := by
  rw [walk, if_pos rfl]

/-- The walk breaks off where the code of a slot is out of reach. It does not end there: no program
comes out of it. -/
theorem walk_broken (hrest : rest ≠ []) (hclassified : classifyAt isa space s dispatch = none) :
    walk isa space s stream offset dispatch rest = none := by
  rw [walk, if_neg hrest, hclassified]

/-- The walk gives up at a slot that is not possible, and tells which. The handlers in front of it
stand. -/
theorem walk_stop (hrest : rest ≠ [])
    (hclassified : classifyAt isa space s dispatch = some (opcode, width))
    (hstop : width < 4 ∨ rest.length < width) :
    walk isa space s stream offset dispatch rest = some ⟨[], some ⟨offset, opcode, width⟩⟩ := by
  rw [walk, if_neg hrest, hclassified]
  exact if_pos hstop

/-- The walk takes a slot and goes on behind it, with the pointer that the slot ends with. -/
theorem walk_slot {h : Handler}
    (hclassified : classifyAt isa space s dispatch = some (opcode, width)) (hwide : 4 ≤ width)
    (hfits : width ≤ rest.length)
    (hhandler : handlerOf stream offset opcode (rest.take width) = h) :
    walk isa space s stream offset dispatch rest
      = (walk isa space s stream (offset + width) h.dispatch (rest.drop width)).map (behind h) := by
  subst hhandler
  have hrest : rest ≠ [] := by
    rintro rfl
    rw [List.length_nil] at hfits
    omega
  have hgo : ¬ (width < dispatchSize ∨ rest.length < width) := by
    unfold dispatchSize
    omega
  rw [walk, if_neg hrest, hclassified]
  exact if_neg hgo

/-- **All that a walk can do**: it is at the end, it gives up, or it takes a slot and goes on. What
is true of all walks is proved by these three cases, and the loop is not opened again. -/
theorem walk_cases (hwalk : walk isa space s stream offset dispatch rest = some e) :
    rest = [] ∧ e = ⟨[], none⟩ ∨
      rest ≠ [] ∧ ∃ opcode width, classifyAt isa space s dispatch = some (opcode, width) ∧
        ((width < 4 ∨ rest.length < width) ∧ e = ⟨[], some ⟨offset, opcode, width⟩⟩ ∨
          (4 ≤ width ∧ width ≤ rest.length) ∧ ∃ h others,
            handlerOf stream offset opcode (rest.take width) = h ∧
            walk isa space s stream (offset + width) h.dispatch (rest.drop width) = some others ∧
            e = behind h others) := by
  by_cases hrest : rest = []
  · subst hrest
    rw [walk_nil] at hwalk
    exact .inl ⟨rfl, (Option.some.inj hwalk).symm⟩
  refine .inr ⟨hrest, ?_⟩
  cases hclassified : classifyAt isa space s dispatch with
  | none =>
    rw [walk_broken hrest hclassified] at hwalk
    cases hwalk
  | some classified =>
    obtain ⟨opcode, width⟩ := classified
    refine ⟨opcode, width, rfl, ?_⟩
    by_cases hstop : width < 4 ∨ rest.length < width
    · rw [walk_stop hrest hclassified hstop] at hwalk
      exact .inl ⟨hstop, (Option.some.inj hwalk).symm⟩
    · have hroom : 4 ≤ width ∧ width ≤ rest.length := by omega
      rw [walk_slot hclassified hroom.1 hroom.2 rfl, Option.map_eq_some_iff] at hwalk
      obtain ⟨others, hothers, rfl⟩ := hwalk
      exact .inr ⟨hroom, _, others, rfl, hothers, rfl⟩

/-- **The walk finds a chain.** The recursion is that of the walk: behind each slot it is a walk
over what is left of the same bytecode. -/
theorem chain_walk {offset : Nat} {dispatch : UInt32} {e : Extraction}
    (hoffset : offset ≤ bytes.length)
    (hwalk : walk isa space s stream offset dispatch (bytes.drop offset) = some e) :
    Chain isa space s stream bytes offset dispatch e.program := by
  rcases walk_cases hwalk with ⟨hend, rfl⟩ | ⟨-, opcode, width, hclassified, hstep⟩
  · rw [List.drop_eq_nil_iff] at hend
    exact .done (.inl (Nat.le_antisymm hoffset hend))
  · rw [List.length_drop] at hstep
    rcases hstep with ⟨hstop, rfl⟩ | ⟨⟨hwide, hfits⟩, h, others, rfl, hothers, rfl⟩
    · exact .done (.inr ⟨opcode, width, hclassified, hstop⟩)
    · have hslot : Slot isa space s stream bytes offset dispatch
          (handlerOf stream offset opcode ((bytes.drop offset).take width)) :=
        slot_handlerOf hclassified hwide (by omega)
      have hwidth : (handlerOf stream offset opcode ((bytes.drop offset).take width)).width
          = width := by
        have heq := hslot.classified.symm.trans hclassified
        exact (Prod.mk.inj (Option.some.inj heq)).2
      rw [List.drop_drop] at hothers
      refine .slot hslot ?_
      rw [hwidth]
      exact chain_walk (by omega) hothers
termination_by bytes.length - offset

/-- The slot of a handler that stands behind another one in a chain. The other one need not have a
slot itself: it is the entry for the first slot. -/
theorem Chain.slot_at {first previous h : Handler} {position : Nat}
    (hchain : Chain isa space s stream bytes (offset + first.width) first.dispatch p)
    (hprevious : (first :: p)[position]? = some previous)
    (hh : (first :: p)[position + 1]? = some h) :
    Slot isa space s stream bytes (offset + Program.offset (first :: p) (position + 1))
      previous.dispatch h := by
  -- By the chain: behind its first slot it is a chain again, whose first handler was the second.
  induction p generalizing first offset position with
  | nil => cases hh
  | cons second rest ih =>
    cases hchain with
    | slot hslot hrest =>
      cases position with
      | zero =>
        obtain rfl : first = previous := Option.some.inj hprevious
        obtain rfl : second = h := Option.some.inj hh
        rw [Program.offset_cons]
        exact hslot
      | succ position =>
        rw [Program.offset_cons, ← Nat.add_assoc]
        exact ih hrest hprevious hh

/-- Behind the last handler of a chain there is no slot, so the chain is as long as it can be. -/
theorem Chain.final {first last : Handler}
    (hchain : Chain isa space s stream bytes (offset + first.width) first.dispatch p)
    (hlast : (first :: p).getLast? = some last) :
    Final isa space s bytes
      (offset + Program.offset (first :: p) (first :: p).length) last.dispatch := by
  induction p generalizing first offset with
  | nil =>
    cases hchain with
    | done hfinal =>
      obtain rfl : first = last := Option.some.inj hlast
      rw [List.length_cons, Program.offset_cons]
      exact hfinal
  | cons second rest ih =>
    cases hchain with
    | slot _ hrest =>
      rw [List.length_cons, Program.offset_cons, ← Nat.add_assoc]
      rw [List.getLast?_cons_cons] at hlast
      exact ih hrest hlast

/-! ## Whole programs -/

/-- **A program tiles its bytecode and cannot be continued.** Positions in the program are places in
the bytecode, with no gap between them and none in front. -/
structure Tiles (isa : Native.InstructionSet) (space : AddressSpace) (s : Settings)
    (stream : UInt32) (bytes : List UInt8) (p : Program) : Prop where
  empty : p = [] ↔ bytes.length < 4
  /-- The first handler is the pointer in front of the first slot. -/
  entry : p ≠ [] → ∃ dispatch : UInt32, dispatch.toNat = numberAt bytes 0 4 ∧
    p[0]? = some (.entry stream dispatch) ∧ p.offset 1 = 4
  slot : ∀ position previous h, p[position]? = some previous → p[position + 1]? = some h →
    p.offset (position + 2) = p.offset (position + 1) + h.width ∧
      Slot isa space s stream bytes (p.offset (position + 1)) previous.dispatch h
  final : ∀ last, p.getLast? = some last → Final isa space s bytes (p.offset p.length) last.dispatch

/-- The pointer in front of a chain makes it a program, whose slots start four bytes in. -/
theorem tiles_of_chain (hlength : 4 ≤ bytes.length) (hpointer : dispatch.toNat = numberAt bytes 0 4)
    (hchain : Chain isa space s stream bytes 4 dispatch p) :
    Tiles isa space s stream bytes (.entry stream dispatch :: p) where
  empty := ⟨fun hnil => (nomatch hnil), fun hshort => absurd hlength (Nat.not_le_of_lt hshort)⟩
  entry _ := ⟨dispatch, hpointer, rfl, Program.offset_cons (.entry stream dispatch) p 0⟩
  slot position previous h hprevious hh := by
    have hslot : Slot isa space s stream bytes
        (0 + Program.offset (.entry stream dispatch :: p) (position + 1)) previous.dispatch h :=
      hchain.slot_at hprevious hh
    rw [Nat.zero_add] at hslot
    exact ⟨Program.offset_succ hh, hslot⟩
  final last hlast := by
    have hfinal : Final isa space s bytes
        (0 + Program.offset (.entry stream dispatch :: p) (p.length + 1)) last.dispatch :=
      hchain.final hlast
    rwa [Nat.zero_add] at hfinal

/-- There is no pointer in fewer than four bytes, and so no program. -/
theorem ofBytes_short (hshort : bytes.length < 4) :
    ofBytes isa space s stream bytes = some ⟨[], none⟩ :=
  if_pos hshort

/-- The first pointer is the entry, and the walk starts behind it. -/
theorem ofBytes_long (hlength : 4 ≤ bytes.length)
    (hdispatch : dispatch = UInt32.ofNat (numberAt bytes 0 4)) :
    ofBytes isa space s stream bytes
      = (walk isa space s stream 4 dispatch (bytes.drop 4)).map
        (behind (.entry stream dispatch)) := by
  subst hdispatch
  exact if_neg (Nat.not_lt_of_le hlength)

/-- A program from at least four bytes is the pointer in front of a chain. -/
theorem exists_chain (hextracted : ofBytes isa space s stream bytes = some e)
    (hlength : 4 ≤ bytes.length) :
    ∃ dispatch p, dispatch = UInt32.ofNat (numberAt bytes 0 4) ∧
      e.program = .entry stream dispatch :: p ∧ Chain isa space s stream bytes 4 dispatch p := by
  rw [ofBytes_long hlength rfl, Option.map_eq_some_iff] at hextracted
  obtain ⟨others, hothers, rfl⟩ := hextracted
  exact ⟨_, _, rfl, rfl, chain_walk hlength hothers⟩

/-- A program from less is empty. -/
theorem program_eq_nil (hextracted : ofBytes isa space s stream bytes = some e)
    (hshort : bytes.length < 4) : e.program = [] := by
  rw [ofBytes_short hshort, Option.some.injEq] at hextracted
  rw [← hextracted]

/-- Both cases of extraction: nothing to tile, or a chain behind a pointer. -/
theorem tiles_of_ofBytes (hextracted : ofBytes isa space s stream bytes = some e) :
    Tiles isa space s stream bytes e.program := by
  by_cases hshort : bytes.length < 4
  · rw [program_eq_nil hextracted hshort]
    exact
      { empty := ⟨fun _ => hshort, fun _ => rfl⟩
        entry := fun hne => absurd rfl hne
        slot := fun _ _ _ hprevious => nomatch hprevious
        final := fun _ hlast => nomatch hlast }
  · have hlength : 4 ≤ bytes.length := Nat.le_of_not_lt hshort
    have hlt : numberAt bytes 0 4 < 256 ^ 4 := numberAt_lt bytes 0 (Nat.le_refl 4)
    obtain ⟨dispatch, p, hdispatch, hprogram, hchain⟩ := exists_chain hextracted hlength
    rw [hprogram]
    refine tiles_of_chain hlength ?_ hchain
    rw [hdispatch, UInt32.toNat_ofNat_of_lt' hlt]

/-- Native code for three kinds of slots: of twelve bytes, of five in two steps, and of fourteen by
code that is in no map. -/
def threeStubs : Regions :=
  ((({} : Regions).map 0x140016194 [0x4C, 0x89, 0xE8, 0x49, 0x83, 0xC5, 0x0C, 0xFF, 0xE0]).map
      0x140016101 [0x49, 0x83, 0xC5, 0x04, 0x49, 0xFF, 0xC5, 0xFF, 0xE0]).map
    0x140020000 [0x49, 0x83, 0xC5, 0x0E, 0xFF, 0xE0]

end Extraction

end CodeRecovery
