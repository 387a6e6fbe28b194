/-
Reading an encoded routine back.

The encoder writes fields one after the other, lists behind their length and operands behind a tag,
and cuts every number down to the size of its field. A reader takes bytes off the front of a list;
`Reads` says which bytes it takes off, whatever follows them, and what it finds in them. Readers in
a row read what was written in a row, so the round trip of a routine is put together from those of
its parts in the way the format is.

What is read back is everything but two caches of each block: where the stack pointer is at its end,
and the number of its next temporary. Nothing is lost as long as every number fits its field, and
every routine that comes from the compiler is of that kind.
-/
import Mathlib.Algebra.Ring.Nat
import CodeRecovery.Proofs.Routine.Sealing
import CodeRecovery.Routine.Encode

set_option autoImplicit false

namespace CodeRecovery.Routine

open LittleEndian (encode)

/-! ## Readers -/

/-- Takes bytes off the front of a list, or fails. -/
abbrev Reader := StateT (List UInt8) Option

namespace Reader

variable {α β : Type}

/-- A number of some bytes, the lowest first. It fails if there are not as many. -/
def number (count : Nat) : Reader Nat := fun bytes =>
  if count ≤ bytes.length then
    some (LittleEndian.decode (bytes.take count), bytes.drop count)
  else none

/-- Goes on if there is a value, and takes no bytes. -/
def given (value : Option α) : Reader α := fun bytes =>
  value.map fun a => (a, bytes)

/-- The same over and over, as often as it is told. -/
def many (reader : Reader α) : Nat → Reader (List α)
  | 0 => pure []
  | n + 1 => do
    let first ← reader
    let rest ← many reader n
    return first :: rest

/-- A list behind its length. -/
def counted (count : Nat) (reader : Reader α) : Reader (List α) := do
  many reader (← number count)

/-- The reader takes off these bytes and finds the value in them, whatever bytes follow. -/
def Reads (reader : Reader α) (bytes : List UInt8) (a : α) : Prop :=
  ∀ rest, reader.run (bytes ++ rest) = some (a, rest)

theorem Reads.pure (a : α) : Reads (Pure.pure a) [] a :=
  fun _ => rfl

/-- Readers in a row read what was written in a row. -/
theorem Reads.bind {reader : Reader α} {next : α → Reader β} {bytes bytes' : List UInt8} {a : α}
    {c : β} (h : Reads reader bytes a) (hnext : Reads (next a) bytes' c) :
    Reads (reader >>= next) (bytes ++ bytes') c := by
  intro rest
  rw [StateT.run_bind, List.append_assoc, h]
  exact hnext rest

/-- The last field of a value, behind which nothing else is read. -/
theorem Reads.map {reader : Reader α} {bytes : List UInt8} {a : α} (h : Reads reader bytes a)
    (f : α → β) : Reads (do return f (← reader)) bytes (f a) := by
  have hbind : Reads (do return f (← reader)) (bytes ++ []) (f a) := h.bind (.pure (f a))
  rwa [List.append_nil] at hbind

/-- A value that is there takes no bytes. -/
theorem reads_given {value : Option α} {a : α} (h : value = some a) : Reads (given value) [] a := by
  intro rest
  rw [h]
  rfl

/-- A number that fits its field is read back; a larger one would have been cut down. -/
theorem reads_number {k n : Nat} (hn : n < 2 ^ (8 * k)) :
    Reads (number k) (encode k n) n := by
  intro rest
  have hlength : (encode k n).length = k := LittleEndian.length_encode k n
  have hle : k ≤ (encode k n ++ rest).length := by
    rw [List.length_append, hlength]
    exact Nat.le_add_right k rest.length
  have hpow : Nat.pow 256 k = 2 ^ (8 * k) := (Nat.pow_mul 2 8 k).symm
  have hvalue : LittleEndian.decode (encode k n) = n := by
    rw [LittleEndian.decode_encode, hpow, Nat.mod_eq_of_lt hn]
  have hrun : (number k).run (encode k n ++ rest)
      = some (LittleEndian.decode ((encode k n ++ rest).take k),
        (encode k n ++ rest).drop k) := if_pos hle
  rw [hrun, List.take_left' hlength, List.drop_left' hlength, hvalue]

/-- What was written for the members of a list is read back member by member. -/
theorem reads_many {reader : Reader β} {f : α → List UInt8} {g : α → β} {l : List α}
    (h : ∀ a ∈ l, Reads reader (f a) (g a)) :
    Reads (many reader l.length) (l.flatMap f) (l.map g) := by
  induction l with
  | nil => exact .pure []
  | cons a rest ih =>
    have hrest := ih fun x hx => h x (List.mem_cons_of_mem a hx)
    exact (h a List.mem_cons_self).bind (hrest.map (g a :: ·))

/-- A list behind its length, if the length fits its field. -/
theorem reads_counted {k : Nat} {reader : Reader β} {f : α → List UInt8} {g : α → β} {l : List α}
    (hlength : l.length < 2 ^ (8 * k)) (h : ∀ a ∈ l, Reads reader (f a) (g a)) :
    Reads (counted k reader) (encode k l.length ++ l.flatMap f) (l.map g) :=
  (reads_number hlength).bind (reads_many h)

end Reader

open Reader

/-! ## Operands and instructions -/

/-- The register with a kind and a number. -/
def Place.ofCode? (kind index : Nat) : Option Place :=
  match kind with
  | 1 => some (.native ⟨UInt32.ofNat index⟩)
  | 2 => some .flags
  | 3 => some .stackPointer
  | 4 => some (.virtual (UInt32.ofNat index))
  | 5 => some (.temporary (UInt32.ofNat index))
  | _ => none

/-- A register is found again by its kind and number. -/
theorem Place.ofCode?_code (place : Place) : ofCode? place.code.1 place.code.2 = some place := by
  cases place with
  | native register => simp only [code, ofCode?, UInt32.ofNat_toNat]
  | flags => rfl
  | stackPointer => rfl
  | virtual index => simp only [code, ofCode?, UInt32.ofNat_toNat]
  | temporary index => simp only [code, ofCode?, UInt32.ofNat_toNat]

/-- The kind is not that of a constant and fits its field, and so does the number. The kind is what
tells the two kinds of operands apart. -/
theorem Place.code_bounds (place : Place) :
    place.code.1 ≠ 0 ∧ place.code.1 < 2 ^ 8 ∧ place.code.2 < 2 ^ 32 := by
  cases place with
  | native register => exact ⟨by simp [code], by simp [code], register.code.toNat_lt⟩
  | flags => decide
  | stackPointer => decide
  | virtual index => exact ⟨by simp [code], by simp [code], index.toNat_lt⟩
  | temporary index => exact ⟨by simp [code], by simp [code], index.toNat_lt⟩

/-- The size of an operand. -/
def Reader.bits : Reader UInt32 := do
  return UInt32.ofNat (← number 1)

def Reader.word : Reader Word := do
  return UInt64.ofNat (← number 8)

/-- An operand. Its first byte is the kind of a register, or zero for a constant. -/
def Reader.operand : Reader Operand := do
  let kind ← number 1
  if kind = 0 then
    let value ← word
    return .immediate value (← bits)
  else
    let index ← number 4
    let place ← given (Place.ofCode? kind index)
    return .register place (← bits)

/-- A stack offset, which is written as a word. -/
def Reader.stackOffset : Reader Int64 := do
  return (← word).toInt64

/-- An instruction. Operations are numbered in the order in which they are listed. -/
def Reader.instruction : Reader Instruction := do
  let code ← number 1
  let op ← given (Operation.all[code]?)
  let stackOffset ← stackOffset
  return { op, operands := ← counted 1 operand, stackOffset }

/-- Sizes have one byte. -/
theorem reads_bits {size : UInt32} (hsize : size < 256) :
    Reads bits (encode 1 size.toNat) size := by
  have hmap := (reads_number (k := 1) (UInt32.lt_iff_toNat_lt.1 hsize)).map UInt32.ofNat
  rwa [UInt32.ofNat_toNat] at hmap

theorem reads_word (n : Word) : Reads word (encode 8 n.toNat) n := by
  have hmap := (reads_number (k := 8) n.toNat_lt).map UInt64.ofNat
  rwa [UInt64.ofNat_toNat] at hmap

theorem reads_stackOffset (n : Int64) : Reads stackOffset (encode 8 n.toUInt64.toNat) n := by
  have hmap := (reads_word n.toUInt64).map UInt64.toInt64
  rwa [Int64.toInt64_toUInt64] at hmap

/-- An operand whose size fits is read back. -/
theorem reads_operand {o : Operand} (hbits : o.bits < 256) : Reads operand o.encoded o := by
  cases o with
  | immediate value size =>
    rw [Operand.encoded, List.append_assoc]
    refine (reads_number (by decide)).bind ?_
    rw [if_pos rfl]
    exact (reads_word value).bind ((reads_bits hbits).map (Operand.immediate value))
  | register place size =>
    obtain ⟨hkind, hkind', hindex⟩ := place.code_bounds
    rw [Operand.encoded, List.append_assoc]
    refine (reads_number hkind').bind ?_
    rw [if_neg hkind]
    refine (reads_number hindex).bind ?_
    exact (reads_given place.ofCode?_code).bind ((reads_bits hbits).map (Operand.register place))

/-- The number of an operation fits its field. -/
theorem Operation.code_lt (op : Operation) : op.code < 2 ^ 8 := by
  cases op <;> decide

/-- An operation is found at its number. -/
theorem Operation.getElem?_code (op : Operation) : Operation.all[op.code]? = some op := by
  cases op <;> rfl

/-- An instruction whose operands fit their fields: there are not too many, and none is too
large. -/
structure Instruction.Fits (i : Instruction) : Prop where
  operands : i.operands.length ≤ 255
  bits : ∀ o ∈ i.operands, o.bits < 256

/-- Such an instruction is read back as it is. -/
theorem reads_instruction {i : Instruction} (h : i.Fits) : Reads instruction i.encoded i := by
  have hoperands := reads_counted (k := 1) (g := id) (Nat.lt_succ_of_le h.operands) fun o ho =>
    reads_operand (h.bits o ho)
  rw [List.map_id] at hoperands
  rw [Instruction.encoded, List.append_assoc, List.append_assoc]
  refine (reads_number i.op.code_lt).bind ?_
  refine (reads_given i.op.getElem?_code).bind ?_
  exact (reads_stackOffset i.stackOffset).bind (hoperands.map fun operands => { i with operands })

/-! ## Blocks and routines -/

/-- A block without its caches, which are not written. -/
def Block.bare (b : Block) : Block :=
  { b with stackOffset := 0, nextTemporary := 0 }

/-- A block: its address, its instructions and its links both ways. -/
def Reader.block : Reader Block := do
  let address ← word
  let instructions ← counted 4 instruction
  let prev ← counted 4 word
  return { address, instructions := instructions.toArray, prev, next := ← counted 4 word }

/-- A block whose parts fit their fields. -/
structure Block.Fits (b : Block) : Prop where
  size : b.instructions.size < 2 ^ 32
  prev : b.prev.length < 2 ^ 32
  next : b.next.length < 2 ^ 32
  instructions : ∀ i ∈ b.instructions, i.Fits

theorem reads_addresses {addresses : List BytecodeAddress} (h : addresses.length < 2 ^ 32) :
    Reads (counted 4 word) (encodedAddresses addresses) addresses := by
  have hcounted := reads_counted (k := 4) (g := id) h fun a _ => reads_word a
  rwa [List.map_id] at hcounted

/-- A block is read back without its caches. -/
theorem reads_block {b : Block} (h : b.Fits) : Reads block b.encoded b.bare := by
  have hinstructions := reads_counted (k := 4) (g := id) (l := b.instructions.toList) h.size
    fun i hi => reads_instruction (h.instructions i (Array.mem_toList_iff.1 hi))
  rw [List.map_id] at hinstructions
  have hlast := (reads_addresses h.next).map fun next =>
    { address := b.address, instructions := b.instructions.toList.toArray,
      prev := b.prev, next : Block }
  rw [Block.encoded, List.append_assoc, List.append_assoc, List.append_assoc]
  refine (reads_word b.address).bind ?_
  -- The instructions and their number are read as one.
  rw [← List.append_assoc (encode 4 b.instructions.size)]
  refine hinstructions.bind ?_
  exact (reads_addresses h.prev).bind hlast

/-- The bytes that every encoded routine starts with. -/
def Reader.expect (bytes : List UInt8) : Reader Unit := fun input =>
  if bytes.isPrefixOf input then some ((), input.drop bytes.length) else none

/-- A routine behind the mark and the version of the format. -/
def Reader.routine : Reader (BytecodeAddress × List Block) := do
  expect mark
  let found ← number 2
  given (if found = version then some () else none)
  let entry ← word
  return (entry, ← counted 4 block)

/-- What the bytes of an encoded routine say: its entry and its blocks, without their caches. No
bytes may be left over. -/
def decode? (bytes : List UInt8) : Option (BytecodeAddress × List Block) :=
  match routine.run bytes with
  | some (found, []) => some found
  | _ => none

/-- A routine that has room in its binary form, with each block kept at its own address. -/
structure Fits (r : Routine) : Prop where
  address : ∀ a block, r.block? a = some block → block.address = a
  size : r.size < 2 ^ 32
  blocks : ∀ a block, r.block? a = some block → block.Fits

/-! ### Blocks in order -/

/-- Blocks are written in the order of the map that holds them. -/
theorem blockList_eq (r : Routine) : r.blockList = r.blocks.toList.map Prod.snd := by
  have hfold : r.blockList = r.blocks.foldr (fun _ block rest => block :: rest) [] := rfl
  rw [hfold, Std.TreeMap.foldr_eq_foldr_toList]
  induction r.blocks.toList with
  | nil => rfl
  | cons entry rest ih => rw [List.foldr_cons, ih, List.map_cons]

theorem length_blockList (r : Routine) : r.blockList.length = r.size := by
  rw [blockList_eq, List.length_map, Std.TreeMap.length_toList, size]

/-- The blocks in the list are those at some address. -/
theorem mem_blockList {r : Routine} {block : Block} :
    block ∈ r.blockList ↔ ∃ a, r.block? a = some block := by
  rw [blockList_eq, List.mem_map]
  constructor
  · rintro ⟨⟨a, _⟩, hmem, rfl⟩
    exact ⟨a, Std.TreeMap.mem_toList_iff_getElem?_eq_some.1 hmem⟩
  · rintro ⟨a, hblock⟩
    exact ⟨(a, block), Std.TreeMap.mem_toList_iff_getElem?_eq_some.2 hblock, rfl⟩

variable {r r' : Routine}

/-- In a routine that fits, that address is the block's own. -/
theorem Fits.mem_blockList (h : r.Fits) {block : Block} :
    block ∈ r.blockList ↔ r.block? block.address = some block := by
  rw [Routine.mem_blockList]
  constructor
  · rintro ⟨a, hblock⟩
    rw [h.address a block hblock]
    exact hblock
  · exact fun hblock => ⟨_, hblock⟩

/-- The list goes by increasing address, as the map does. -/
theorem Fits.increasing (h : r.Fits) : (r.blockList.map (·.address)).Pairwise (· < ·) := by
  have hkeys : r.blockList.map (·.address) = r.blocks.keys := by
    rw [blockList_eq, List.map_map, ← Std.TreeMap.map_fst_toList_eq_keys]
    refine List.map_congr_left fun ⟨a, block⟩ hmem => ?_
    exact h.address a block (Std.TreeMap.mem_toList_iff_getElem?_eq_some.1 hmem)
  have hordered : r.blocks.keys.Pairwise fun a a' => compare a a' = .lt := Std.TreeMap.ordered_keys
  rw [hkeys]
  exact hordered.imp fun hlt => compareOfLessAndEq_eq_lt.1 hlt

/-! ### The round trip -/

/-- The mark is found where it was written. -/
theorem reads_expect (bytes : List UInt8) : Reads (expect bytes) bytes () := by
  intro rest
  have hprefix : bytes.isPrefixOf (bytes ++ rest) = true :=
    List.isPrefixOf_iff_prefix.2 (List.prefix_append bytes rest)
  have hrun : (expect bytes).run (bytes ++ rest) = some ((), (bytes ++ rest).drop bytes.length) :=
    if_pos hprefix
  rw [hrun, List.drop_left]

/-- A routine is read back, block by block. -/
theorem reads_routine (h : r.Fits) :
    Reads routine r.encoded (r.entry, r.blockList.map Block.bare) := by
  have hsize : r.blockList.length < 2 ^ 32 := by
    rw [length_blockList]
    exact h.size
  have hblocks := reads_counted (k := 4) (g := Block.bare) hsize fun block hblock =>
    reads_block (h.blocks _ block (h.mem_blockList.1 hblock))
  rw [length_blockList] at hblocks
  rw [encoded, List.append_assoc, List.append_assoc, List.append_assoc]
  refine (reads_expect mark).bind ?_
  refine (reads_number (by decide)).bind ?_
  refine (reads_given (if_pos rfl)).bind ?_
  exact (reads_word r.entry).bind (hblocks.map fun blocks => (r.entry, blocks))

/-- What was encoded is decoded, and no bytes are left over. -/
theorem Fits.decode?_encoded (h : r.Fits) :
    decode? r.encoded = some (r.entry, r.blockList.map Block.bare) := by
  have hrun := reads_routine h []
  rw [List.append_nil] at hrun
  rw [decode?, hrun]

/-- Blocks of the one routine are blocks of the other. A block says where it is, so the lists
decide. -/
theorem Fits.exists_block? (h : r.Fits) (h' : r'.Fits)
    (hlist : r.blockList.map Block.bare = r'.blockList.map Block.bare) {a : BytecodeAddress}
    {block : Block} (hblock : r.block? a = some block) :
    ∃ block', r'.block? a = some block' ∧ block'.bare = block.bare := by
  have hmem : block.bare ∈ r'.blockList.map Block.bare := by
    rw [← hlist]
    exact List.mem_map_of_mem (Routine.mem_blockList.2 ⟨a, hblock⟩)
  obtain ⟨block', hmem', hbare⟩ := List.mem_map.1 hmem
  -- A block tells its address without its caches too, and it is kept there.
  have haddress : block'.address = a := by
    have hsame : block'.bare.address = block.bare.address := by rw [hbare]
    exact hsame.trans (h.address a block hblock)
  refine ⟨block', ?_, hbare⟩
  rw [← haddress]
  exact h'.mem_blockList.1 hmem'

/-- Routines with the same blocks in order have the same blocks by address. -/
theorem Fits.block?_eq (h : r.Fits) (h' : r'.Fits)
    (hlist : r.blockList.map Block.bare = r'.blockList.map Block.bare) (a : BytecodeAddress) :
    (r.block? a).map Block.bare = (r'.block? a).map Block.bare := by
  cases hblock : r.block? a with
  | some block =>
    obtain ⟨block', hblock', hbare⟩ := h.exists_block? h' hlist hblock
    rw [hblock', Option.map_some, Option.map_some, hbare]
  | none =>
    cases hblock' : r'.block? a with
    | none => rfl
    | some block' =>
      obtain ⟨block, hsome, -⟩ := h'.exists_block? h hlist.symm hblock'
      rw [hblock] at hsome
      cases hsome

/-! ## Compiled routines -/

/-- A list of different addresses with a block each is no longer than the routine is large. -/
theorem length_le_size {addresses : List BytecodeAddress} (hnodup : addresses.Nodup)
    (h : ∀ a ∈ addresses, (r.block? a).isSome) : addresses.length ≤ r.size := by
  rw [size, ← Std.TreeMap.length_keys]
  refine hnodup.length_le_of_subset fun a ha => Std.TreeMap.mem_keys.2 ?_
  exact Std.TreeMap.mem_iff_isSome_getElem?.2 (h a ha)

/-- There is one block for each handler at most, and one behind the program. Handlers may share
their address, and then their block. -/
theorem size_le_of_known {p : Program}
    (h : ∀ a, (r.block? a).isSome → ∃ d, p.Valid d ∧ p.site d = a) : r.size ≤ p.length + 1 := by
  have hsites : r.blocks.keys ⊆
      (List.range p.length).map (fun position => p.site (.handler position)) ++ [p.site .exit] := by
    intro a ha
    obtain ⟨d, hd, rfl⟩ := h a (Std.TreeMap.mem_iff_isSome_getElem?.1 (Std.TreeMap.mem_keys.1 ha))
    cases d with
    | handler position =>
      exact List.mem_append_left _ (List.mem_map.2 ⟨position, List.mem_range.2 hd, rfl⟩)
    | exit => exact List.mem_append_right _ (List.mem_singleton_self _)
  have hlength := Std.TreeMap.nodup_keys.length_le_of_subset hsites
  rw [Std.TreeMap.length_keys, List.length_append, List.length_map, List.length_range,
    List.length_singleton] at hlength
  exact hlength

/-- The instructions of a closed block are few, and so are their operands. No field of the format is
too small for them. -/
theorem Closed.small {present : BytecodeAddress → Prop} {code : List Code}
    (h : Closed present code) :
    code.length ≤ 154 ∧ ∀ c ∈ code, c.2.length ≤ 3 ∧ ∀ o ∈ c.2, o.bits ≤ 64 := by
  obtain ⟨body, last, rfl, hplain, hlength, hends⟩ := h.split
  refine ⟨by rw [List.length_append, List.length_singleton]; omega, fun c hc => ?_⟩
  rcases List.mem_append.1 hc with hc | hc
  · exact ⟨(hplain c hc).operands, (hplain c hc).bits⟩
  · rw [List.mem_singleton.1 hc]
    cases hends with
    | js hbits _ _ =>
      exact ⟨Nat.le_refl 3,
        Backend.bits_three hbits (Backend.bits_word _) (Backend.bits_word _)⟩
    | jmp _ => exact ⟨Nat.le_add_left 1 2, Backend.bits_one (Backend.bits_word _)⟩
    | vexit => exact ⟨by decide, by decide⟩

/-- A closed block fits, if its links do. -/
theorem Block.fits_of_closed {block : Block} {present : BytecodeAddress → Prop}
    (hclosed : Closed present block.code) (hprev : block.prev.length < 2 ^ 32)
    (hnext : block.next.length < 2 ^ 32) : block.Fits := by
  obtain ⟨hlength, hsmall⟩ := hclosed.small
  have hsize : block.code.length = block.instructions.size := by
    rw [Block.code, List.length_map, Array.length_toList]
  refine ⟨by omega, hprev, hnext, fun i hi => ?_⟩
  have hmem : (i.op, i.operands) ∈ block.code :=
    List.mem_map.2 ⟨i, Array.mem_toList_iff.2 hi, rfl⟩
  obtain ⟨hoperands, hbits⟩ := hsmall _ hmem
  refine ⟨Nat.le_trans hoperands (by decide), fun o ho => ?_⟩
  exact UInt32.lt_of_le_of_lt (hbits o ho) (by decide)

/-- A routine from the compiler has room in its binary form, unless it has too many blocks to count.
A block is linked to blocks, each once, so its links are not more than there are blocks. -/
theorem fits_of_compile {p : Program} {b b' : Backend} (hp : p ≠ [])
    (hrun : (p.compile : Action Backend Unit).run b = .ok () b') :
    b'.routine.size ≤ p.length + 1 ∧ (b'.routine.size < 2 ^ 32 → b'.routine.Fits) := by
  obtain ⟨hintact, hpending⟩ := Backend.intact_of_compile hp hrun
  refine ⟨size_le_of_known (Orderly.known hintact), fun hsize =>
    ⟨Orderly.address hintact, hsize, fun a block hblock => ?_⟩⟩
  obtain ⟨hprev, hprev'⟩ := Orderly.prev hintact a block hblock
  obtain ⟨hnext, hnext'⟩ := Orderly.next hintact a block hblock
  exact Block.fits_of_closed (hintact.closed_of_pending hpending hblock)
    (Nat.lt_of_le_of_lt (length_le_size hprev hprev') hsize)
    (Nat.lt_of_le_of_lt (length_le_size hnext hnext') hsize)

/-- **The binary form of a routine is unambiguous.** One decoder finds everything in it but the
caches of the blocks, which therefore is all that routines with the same binary form can differ in.
The compiler makes only routines of that kind, and none with more blocks than its table has handlers
but one. -/
theorem unambiguous_encoded :
    (∀ r : Routine, r.Fits → decode? r.encoded = some (r.entry, r.blockList.map Block.bare) ∧
      (r.blockList.map (·.address)).Pairwise (· < ·)) ∧
    (∀ r r' : Routine, r.Fits → r'.Fits → r.encoded = r'.encoded →
      r.entry = r'.entry ∧ ∀ a, (r.block? a).map Block.bare = (r'.block? a).map Block.bare) ∧
    ∀ (p : Program) (b b' : Backend), (Backend.run p).run b = .ok () b' →
      b'.routine.size ≤ p.length + 1 ∧ (b'.routine.size < 2 ^ 32 → b'.routine.Fits) := by
  refine ⟨fun r h => ⟨h.decode?_encoded, h.increasing⟩, ?_, ?_⟩
  · intro r r' h h' heq
    have hread := h.decode?_encoded
    rw [heq, h'.decode?_encoded] at hread
    obtain ⟨hentry, hlist⟩ := Prod.mk.inj (Option.some.inj hread)
    exact ⟨hentry.symm, h.block?_eq h' hlist.symm⟩
  · intro p b b' hrun
    rw [Backend.run] at hrun
    split at hrun
    · cases hrun
    · rename_i hempty
      obtain ⟨u, b₁, hcompile, hreport⟩ := Action.exists_of_run_bind_ok hrun
      have hfits := fits_of_compile (by simpa using hempty) hcompile
      cases hreport
      exact hfits

/-- A routine with one block that has handed out temporaries and written nothing. How many is not in
the binary form. -/
def counting (temporaries : UInt32) : Routine where
  entry := 0x10
  blocks := (∅ : Std.TreeMap BytecodeAddress Block).insert 0x10
    { address := 0x10, prev := [0x10], next := [0x10], nextTemporary := temporaries }

theorem fits_counting (temporaries : UInt32) : (counting temporaries).Fits := by
  have hblock : ∀ a block, (counting temporaries).block? a = some block →
      a = 0x10 ∧ block =
        { address := 0x10, prev := [0x10], next := [0x10], nextTemporary := temporaries } := by
    intro a block hblock
    simp only [block?, counting, Std.TreeMap.getElem?_insert, Std.compare_eq_iff_eq] at hblock
    split at hblock
    · exact ⟨(‹_› : 0x10 = a).symm, (Option.some.inj hblock).symm⟩
    · simp at hblock
  refine ⟨?_, ?_, ?_⟩
  · intro a block ha
    obtain ⟨rfl, rfl⟩ := hblock a block ha
    rfl
  · simp [size, counting, Std.TreeMap.size_insert]
  · intro a block ha
    obtain ⟨rfl, rfl⟩ := hblock a block ha
    exact ⟨by simp, by simp, by simp, by simp⟩

/-- Two routines with one binary form, and a compiled one that is read back. -/
theorem unambiguous_encoded_tangled :
    (counting 0).Fits ∧ (counting 3).Fits ∧ (counting 0).encoded = (counting 3).encoded ∧
    (∀ a, ((counting 0).block? a).map Block.bare = ((counting 3).block? a).map Block.bare) ∧
    ∃ b' : Backend, (Backend.run Backend.tangled).run (.new {}) = .ok () b' ∧ b'.routine.Fits ∧
      decode? b'.routine.encoded
        = some (b'.routine.entry, b'.routine.blockList.map Block.bare) := by
  obtain ⟨hread, hsame, hcompiled⟩ := unambiguous_encoded
  have heq : (counting 0).encoded = (counting 3).encoded := by decide +kernel
  obtain ⟨b', hrun⟩ : ∃ b', (Backend.run Backend.tangled).run (.new {}) = .ok () b' :=
    Action.exists_of_succeeds (by decide +kernel)
  obtain ⟨hsize, hfits⟩ := hcompiled _ _ b' hrun
  have hlength : Backend.tangled.length = 7 := rfl
  have hfits' : b'.routine.Fits := hfits (by omega)
  exact ⟨fits_counting 0, fits_counting 3, heq,
    (hsame _ _ (fits_counting 0) (fits_counting 3) heq).2, b', hrun, hfits', (hread _ hfits').1⟩

end CodeRecovery.Routine
