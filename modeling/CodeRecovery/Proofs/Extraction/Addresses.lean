/-
Addresses name the handlers of an extracted program.

A handler's address is computed in 32 bits and wraps, while the address behind the last handler, and
all that the routine compiler does with addresses, is in 64. So it is not obvious that two handlers
never share an address, or that the place behind the program is never taken for a handler. Both hold
for bytecode of less than 2^32 bytes: offsets of slots grow, and none is as far behind another as it
takes to come back to the same address. `Aligned` is all that is needed of extraction for this; the
routine compiler's own results only ask for `Separate`.
-/
import CodeRecovery.Proofs.Agreement
import CodeRecovery.Proofs.Extraction.Encoding

set_option autoImplicit false

namespace CodeRecovery

/-- The address behind a slot is kept in 64 bits and does not wrap, as long as slots are no wider
than the addresses of their starts can count. -/
theorem Handler.toNat_endAddress {h : Handler} (hwidth : h.width ≤ 2 ^ 32) :
    h.endAddress.toNat = h.address.toNat + h.width := by
  have haddress := h.address.toNat_lt
  rw [endAddress, UInt64.toNat_add, UInt32.toNat_toUInt64, UInt64.toNat_ofNat']
  omega

namespace Program

variable {stream : UInt32} {limit : Nat} {p : Program} {h h' : Handler} {position position' : Nat}

/-! ## Slots in a row -/

/-- The slot of a handler ends where a later one starts, or before. Slots do not overlap, so their
starts are at least a slot apart. -/
theorem offset_add_width_le (hh : p[position]? = some h) (hlt : position < position') :
    p.offset position + h.width ≤ p.offset position' := by
  -- By the later position: a further slot only adds to the sum.
  induction position' with
  | zero => exact absurd hlt (Nat.not_lt_zero _)
  | succ position' ih =>
    rcases Nat.lt_or_eq_of_le (Nat.le_of_lt_succ hlt) with hlt' | rfl
    · have hstep : p.offset position' ≤ p.offset (position' + 1) := by
        rw [offset, offset, List.take_add_one, List.map_append, List.sum_append]
        exact Nat.le_add_right _ _
      exact Nat.le_trans (ih hlt') hstep
    · exact Nat.le_of_eq (offset_succ hh).symm

/-- The slots lie one behind the other from `stream` on, in no more than `limit` bytes, and each
handler has the address of its slot in 32 bits. -/
structure Aligned (stream : UInt32) (limit : Nat) (p : Program) : Prop where
  wide : ∀ h ∈ p, 4 ≤ h.width
  inside : p.offset p.length ≤ limit
  address : ∀ position h, p[position]? = some h →
    h.address.toNat = (stream.toNat + p.offset position) % 2 ^ 32

namespace Aligned

/-- There is nothing to be out of line in an empty program. -/
theorem nil (stream : UInt32) (limit : Nat) : Aligned stream limit [] where
  wide := nofun
  inside := Nat.zero_le limit
  address := nofun

section

variable (haligned : p.Aligned stream limit)

include haligned

/-- A slot lies within the limit, since the last one does. -/
theorem end_le (hh : p[position]? = some h) : p.offset position + h.width ≤ limit :=
  Nat.le_trans (offset_add_width_le hh (List.getElem?_eq_some_iff.1 hh).1) haligned.inside

/-- No slot is empty; each has at least a pointer in it. -/
theorem wide_at (hh : p[position]? = some h) : 4 ≤ h.width :=
  haligned.wide h (List.mem_of_getElem? hh)

/-! ## Addresses that wrap -/

/-- **Two handlers have different addresses**: their slots are less than 2^32 bytes apart, and at
least four. -/
theorem address_ne (hlimit : limit < 2 ^ 32) (hh : p[position]? = some h)
    (hh' : p[position']? = some h') (hlt : position < position') : h.address ≠ h'.address := by
  intro heq
  have haddress := haligned.address position h hh
  have haddress' := haligned.address position' h' hh'
  rw [← heq, haddress] at haddress'
  have hstart := offset_add_width_le hh hlt
  have hwide := haligned.wide_at hh
  have hend := haligned.end_le hh'
  omega

/-- So no address occurs twice among those of the program. -/
theorem nodup_addresses (hlimit : limit < 2 ^ 32) : (p.map (·.address)).Nodup := by
  rw [List.nodup_iff_pairwise_ne, List.pairwise_map, List.pairwise_iff_getElem]
  intro position position' hlt hlt' hbefore
  exact haligned.address_ne hlimit (List.getElem?_eq_getElem hlt)
    (List.getElem?_eq_getElem hlt') hbefore

/-- The place behind the program is no handler's. Either it is beyond 32 bits, or it is less than
2^32 bytes behind all of them like a further slot would be. -/
theorem exitAddress_ne (hlimit : limit < 2 ^ 32) (hmem : h ∈ p) :
    h.address.toUInt64 ≠ p.exitAddress := by
  obtain ⟨position, hh⟩ := List.mem_iff_getElem?.1 hmem
  obtain ⟨hlt, -⟩ := List.getElem?_eq_some_iff.1 hh
  have hlast : p[p.length - 1]? = some p[p.length - 1] := List.getElem?_eq_getElem (by omega)
  have hexit : p.exitAddress = p[p.length - 1].endAddress := by
    rw [exitAddress, List.getLast?_eq_getElem?, hlast]
  have hend := haligned.end_le hlast
  have hwidth : p[p.length - 1].width ≤ 2 ^ 32 := by omega
  intro heq
  have hsum := congrArg UInt64.toNat (heq.trans hexit)
  rw [UInt32.toNat_toUInt64, Handler.toNat_endAddress hwidth, haligned.address position h hh,
    haligned.address _ _ hlast] at hsum
  have hstart : p.offset position ≤ p.offset (p.length - 1) := by
    rcases Nat.lt_or_eq_of_le (Nat.le_sub_one_of_lt hlt) with hbefore | rfl
    · exact Nat.le_trans (Nat.le_add_right _ _) (offset_add_width_le hh hbefore)
    · exact Nat.le_refl _
  have hwide := haligned.wide_at hlast
  omega

/-- What the routine compiler asks of a program follows from where its slots lie. -/
theorem separate (hlimit : limit < 2 ^ 32) : p.Separate where
  addresses := haligned.nodup_addresses hlimit
  exit _ hmem := haligned.exitAddress_ne hlimit hmem

/-! ## Addresses that do not wrap -/

/-- If the bytecode ends within 32 bits, an address is that of the bytecode and an offset, with
nothing to wrap. -/
theorem toNat_address (hfits : stream.toNat + limit ≤ 2 ^ 32) (hh : p[position]? = some h) :
    h.address.toNat = stream.toNat + p.offset position := by
  have hend := haligned.end_le hh
  have hwide := haligned.wide_at hh
  rw [haligned.address position h hh]
  exact Nat.mod_eq_of_lt (by omega)

/-- Then the addresses are in the order of the slots. -/
theorem increasing (hfits : stream.toNat + limit ≤ 2 ^ 32) :
    p.Pairwise fun h h' => h.address < h'.address := by
  rw [List.pairwise_iff_getElem]
  intro position position' hlt hlt' hbefore
  have hh := List.getElem?_eq_getElem hlt
  have hstart := offset_add_width_le hh hbefore
  have hwide := haligned.wide_at hh
  rw [UInt32.lt_iff_toNat_lt, haligned.toNat_address hfits hh,
    haligned.toNat_address hfits (List.getElem?_eq_getElem hlt')]
  omega

/-- The next handler starts where a slot ends, and the two agree although one is counted in 64 bits
and the other in 32. -/
theorem endAddress_eq (hfits : stream.toNat + limit ≤ 2 ^ 32) (hh : p[position]? = some h)
    (hh' : p[position + 1]? = some h') : h.endAddress = h'.address.toUInt64 := by
  have hend := haligned.end_le hh
  apply UInt64.toNat.inj
  rw [Handler.toNat_endAddress (by omega), UInt32.toNat_toUInt64, haligned.toNat_address hfits hh,
    haligned.toNat_address hfits hh', offset_succ hh, Nat.add_assoc]

end

end Aligned

/-! ## Separate programs -/

/-- In a separate program a handler is found by its address. The search stops at the first handler
with that address, and there is only one. -/
theorem Separate.positionAt?_address (hseparate : p.Separate) (hh : p[position]? = some h) :
    p.positionAt? h.address.toUInt64 = some position := by
  cases hat : p.positionAt? h.address.toUInt64 with
  | none => exact absurd rfl (positionAt?_eq_none hat h (List.mem_of_getElem? hh))
  | some found =>
    obtain ⟨h', hh', haddress⟩ := positionAt?_eq_some hat
    have hsite : p.site (.handler found) = p.site (.handler position) := by
      rw [site_handler hh', site_handler hh, haddress]
    have hfound : p.Valid (.handler found) := lt_of_positionAt? hat
    have hposition : p.Valid (.handler position) := (List.getElem?_eq_some_iff.1 hh).1
    rw [Destination.handler.inj (hseparate.injective hfound hposition hsite)]

end Program

/-- The routine compiler finds the blocks of a separate program, be it empty or not; an empty one is
refused before blocks are looked for. -/
theorem Routine.Backend.run_ne_missingBlock {p : Program} (hseparate : p.Separate) (b b' : Backend)
    (opcode : Opcode) (position : Nat) :
    (run p).run b ≠ .error (.failed (.missingBlock opcode position)) b' := by
  by_cases hp : p = []
  · subst hp
    intro hrun
    cases hrun
  · exact (decides hp hseparate b).noMissingBlock opcode position b'

namespace Extraction

variable {isa : Native.InstructionSet} {space : AddressSpace} {s : Settings} {stream : UInt32}
  {bytes : List UInt8} {e : Extraction}

/-! ## Extracted programs -/

/-- Every handler of a chain behind the entry has a slot, which says all there is to say of it. -/
theorem Chain.exists_slot {dispatch : UInt32} {p : Program}
    (hchain : Chain isa space s stream bytes 4 dispatch p) {position : Nat} {h : Handler}
    (hh : p[position]? = some h) :
    ∃ previous, Slot isa space s stream bytes
      (Program.offset (.entry stream dispatch :: p) (position + 1)) previous h := by
  have hlt : position < (Handler.entry stream dispatch :: p).length :=
    Nat.lt_succ_of_lt (List.getElem?_eq_some_iff.1 hh).1
  have hslot : Slot isa space s stream bytes
      (0 + Program.offset (.entry stream dispatch :: p) (position + 1)) _ h :=
    hchain.slot_at (List.getElem?_eq_getElem hlt) hh
  rw [Nat.zero_add] at hslot
  exact ⟨_, hslot⟩

/-- A chain behind the entry is aligned with it. The entry is the one handler without a slot of its
own, and it is as wide as a pointer. -/
theorem Chain.aligned {dispatch : UInt32} {p : Program} (hlength : 4 ≤ bytes.length)
    (hchain : Chain isa space s stream bytes 4 dispatch p) :
    Program.Aligned stream bytes.length (.entry stream dispatch :: p) := by
  have hzero : Program.offset (.entry stream dispatch :: p) 0 = 0 := rfl
  refine { wide := ?wide, inside := ?inside, address := ?address }
  case wide =>
    rw [List.forall_mem_cons]
    refine ⟨Nat.le_refl 4, fun h hmem => ?_⟩
    obtain ⟨position, hh⟩ := List.mem_iff_getElem?.1 hmem
    obtain ⟨previous, hslot⟩ := hchain.exists_slot hh
    exact hslot.wide
  case inside =>
    cases hlast : p.getLast? with
    | none =>
      obtain rfl := List.getLast?_eq_none_iff.1 hlast
      exact hlength
    | some last =>
      rw [List.getLast?_eq_getElem?] at hlast
      obtain ⟨previous, hslot⟩ := hchain.exists_slot hlast
      have hsize : p.length - 1 + 1 = p.length := by
        have hlt := (List.getElem?_eq_some_iff.1 hlast).1
        omega
      rw [hsize] at hslot
      rw [List.length_cons, Program.offset_succ (by rwa [← hsize, List.getElem?_cons_succ])]
      exact hslot.inside
  case address =>
    intro position h hh
    cases position with
    | zero =>
      obtain rfl : Handler.entry stream dispatch = h := Option.some.inj hh
      rw [hzero, Nat.add_zero, Nat.mod_eq_of_lt stream.toNat_lt]
      rfl
    | succ position =>
      obtain ⟨previous, hslot⟩ := hchain.exists_slot hh
      exact hslot.address

/-- Every extracted program is aligned, the empty one included. -/
theorem aligned_ofBytes (hextracted : ofBytes isa space s stream bytes = some e) :
    e.program.Aligned stream bytes.length := by
  by_cases hshort : bytes.length < 4
  · rw [program_eq_nil hextracted hshort]
    exact .nil stream _
  · have hlength : 4 ≤ bytes.length := Nat.le_of_not_lt hshort
    obtain ⟨dispatch, p, -, hprogram, hchain⟩ := exists_chain hextracted hlength
    rw [hprogram]
    exact hchain.aligned hlength

/-- **Addresses tell the handlers of an extracted program apart**, and from the place behind it,
even if they wrap: a handler is found at its own position by its address, and the routine compiler,
whatever it was used for before, never looks for a block in vain. If they do not wrap, they
increase, and every slot ends at the next handler's address. -/
theorem ofBytes_addresses {p : Program}
    (hextracted : (ofBytes isa space s stream bytes).map (·.program) = some p) :
    (bytes.length < 2 ^ 32 →
      p.Separate ∧
        (∀ position h, p[position]? = some h → p.positionAt? h.address.toUInt64 = some position) ∧
        ∀ b b' opcode position,
          (Routine.Backend.run p).run b ≠ .error (.failed (.missingBlock opcode position)) b') ∧
      (stream.toNat + bytes.length ≤ 2 ^ 32 →
        (p.Pairwise fun h h' => h.address < h'.address) ∧
          ∀ position h h', p[position]? = some h → p[position + 1]? = some h' →
            h.endAddress = h'.address.toUInt64) := by
  obtain ⟨e, hofBytes, rfl⟩ := Option.map_eq_some_iff.1 hextracted
  have haligned := aligned_ofBytes hofBytes
  refine ⟨fun hlimit => ?_, fun hfits => ?_⟩
  · have hseparate := haligned.separate hlimit
    exact ⟨hseparate, fun _ _ hh => hseparate.positionAt?_address hh,
      fun b b' opcode position =>
        Routine.Backend.run_ne_missingBlock hseparate b b' opcode position⟩
  · exact ⟨haligned.increasing hfits, fun _ _ _ hh hh' => haligned.endAddress_eq hfits hh hh'⟩

/-- One bytecode at two places: at the first the addresses wrap behind the second handler. -/
theorem ofBytes_addresses_fourCells :
    (∃ p, (ofBytes .stubs threeStubs.space {} 0xFFFFFFF8 (bytecode fourCells 0x7000)).map
          (·.program) = some p ∧
        p.map (·.address) = [0xFFFFFFF8, 0xFFFFFFFC, 8, 13, 27] ∧ p.Separate) ∧
      ∃ p, (ofBytes .stubs threeStubs.space {} 0x1000 (bytecode fourCells 0x7000)).map (·.program)
          = some p ∧
        p.map (·.address) = [0x1000, 0x1004, 0x1010, 0x1015, 0x1023] ∧
        p.Pairwise fun h h' => h.address < h'.address := by
  have hlength : (bytecode fourCells 0x7000).length = 47 := by decide +kernel
  have hwraps : (ofBytes .stubs threeStubs.space {} 0xFFFFFFF8 (bytecode fourCells 0x7000)).map
      (·.program)
        = some (.entry 0xFFFFFFF8 0x16194 :: handlersOf 0xFFFFFFF8 4 fourCells 0x7000) := by
    decide +kernel
  have hstays : (ofBytes .stubs threeStubs.space {} 0x1000 (bytecode fourCells 0x7000)).map
      (·.program) = some (.entry 0x1000 0x16194 :: handlersOf 0x1000 4 fourCells 0x7000) := by
    decide +kernel
  refine ⟨⟨_, hwraps, by decide +kernel, ?_⟩, ⟨_, hstays, by decide +kernel, ?_⟩⟩
  · exact ((ofBytes_addresses hwraps).1 (by rw [hlength]; decide)).1
  · exact ((ofBytes_addresses hstays).2 (by rw [hlength]; decide)).1

end Extraction

end CodeRecovery
