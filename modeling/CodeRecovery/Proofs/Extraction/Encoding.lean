/-
Programs written as bytecode, and read back.

Bytecode says nothing of where its slots begin: a slot is as long as the native code behind the
pointer in front of it has it. A `Cell` is a slot together with that pointer, and writing cells puts
pointers and immediates in a row. If the image holds code for each cell, extraction finds every cell
again, whatever the last pointer leads to, since there are no bytes behind it.

The walk starts behind the first pointer, and behind each slot it is again behind the first pointer
of what is left. That is the induction: `tailOf` is what the walk still has to read.
-/
import CodeRecovery.Proofs.Extraction.Tiling

set_option autoImplicit false

namespace CodeRecovery.Extraction

/-! ## Writing -/

/-- A slot and the pointer in front of it. The pointer comes with the slot because it is what tells
how long the slot is. -/
structure Cell where
  opcode : Opcode
  width : Nat
  immediate : List UInt8
  /-- Leads to the native code that the slot is for. -/
  dispatch : UInt32
deriving DecidableEq, Repr

/-- A pointer as bytes. -/
def pointerBytes (dispatch : UInt32) : List UInt8 :=
  LittleEndian.encode 4 dispatch.toNat

/-- The bytecode of cells. `last` is the pointer at the end of the last slot; a slot ends with the
pointer of the next one, so there is one more pointer than there are slots. -/
def bytecode (cells : List Cell) (last : UInt32) : List UInt8 :=
  cells.flatMap (fun c => pointerBytes c.dispatch ++ c.immediate) ++ pointerBytes last

/-- The pointer in front of the cell at an index, or the last one behind all cells. -/
def pointerAt (cells : List Cell) (last : UInt32) (index : Nat) : UInt32 :=
  (cells[index]?.map (·.dispatch)).getD last

/-- The handler in the slot of a cell; `next` is the pointer at the end of the slot. No more than
eight bytes of the immediate count. -/
def Cell.handler (c : Cell) (address next : UInt32) : Handler where
  opcode := c.opcode
  data := UInt64.ofNat (LittleEndian.decode (c.immediate.take 8))
  address := address
  dispatch := next
  width := c.width

/-- The handlers of cells whose first slot starts at an offset. Addresses are those of the slots, in
32 bits, so they may wrap. -/
def handlersOf (stream : UInt32) (offset : Nat) (cells : List Cell) (last : UInt32) : Program :=
  cells.mapIdx fun index c =>
    c.handler (stream + UInt32.ofNat (offset + ((cells.take index).map (·.width)).sum))
      (pointerAt cells last (index + 1))

/-- The immediate leaves room for just the pointer, and the image holds code for such a slot. -/
structure Cell.Supported (isa : Native.InstructionSet) (space : AddressSpace) (s : Settings)
    (c : Cell) : Prop where
  length : c.immediate.length + 4 = c.width
  code : classifyAt isa space s c.dispatch = some (c.opcode, c.width)

/-! ## Reading back -/

theorem length_pointerBytes (dispatch : UInt32) : (pointerBytes dispatch).length = 4 :=
  LittleEndian.length_encode 4 dispatch.toNat

/-- A pointer is read back from its bytes. -/
theorem decode_pointerBytes (dispatch : UInt32) :
    UInt32.ofNat (LittleEndian.decode (pointerBytes dispatch)) = dispatch := by
  have hlt : dispatch.toNat < Nat.pow 256 4 := dispatch.toNat_lt
  rw [pointerBytes, LittleEndian.decode_encode, Nat.mod_eq_of_lt hlt, UInt32.ofNat_toNat]

/-- What follows the first pointer: the bytes that a walk has still to read when it has just taken a
pointer. -/
def tailOf : List Cell → UInt32 → List UInt8
  | [], _ => []
  | c :: rest, last => c.immediate ++ bytecode rest last

/-- Bytecode starts with a pointer. Cutting it there is how the walk sees it, whereas it was made by
cutting in front of each pointer. -/
theorem bytecode_eq (cells : List Cell) (last : UInt32) :
    bytecode cells last = pointerBytes (pointerAt cells last 0) ++ tailOf cells last := by
  cases cells with
  | nil => exact (List.append_nil _).symm
  | cons c rest =>
    unfold bytecode tailOf
    rw [List.flatMap_cons, List.append_assoc, List.append_assoc]
    rfl

variable {isa : Native.InstructionSet} {space : AddressSpace} {s : Settings} {stream : UInt32}
  {cells : List Cell}

/-- A slot that holds an immediate and a pointer is read as the handler of its cell. -/
theorem handlerOf_append (stream : UInt32) (offset : Nat) (c : Cell) (next : UInt32)
    (hlength : c.immediate.length + 4 = c.width) :
    handlerOf stream offset c.opcode (c.immediate ++ pointerBytes next)
      = c.handler (stream + UInt32.ofNat offset) next := by
  have hwidth : (c.immediate ++ pointerBytes next).length = c.width := by
    rw [List.length_append, length_pointerBytes, hlength]
  have hsize : c.width - dispatchSize = c.immediate.length := by
    rw [← hlength]
    exact Nat.add_sub_cancel _ 4
  unfold handlerOf Cell.handler
  rw [hwidth, hsize, List.take_left, List.drop_left, decode_pointerBytes]

/-- The first slot is where the row starts, and the others start behind it. -/
theorem handlersOf_cons (stream : UInt32) (offset : Nat) (c : Cell) (rest : List Cell)
    (last : UInt32) :
    handlersOf stream offset (c :: rest) last
      = c.handler (stream + UInt32.ofNat offset) (pointerAt rest last 0) ::
        handlersOf stream (offset + c.width) rest last := by
  unfold handlersOf
  rw [List.mapIdx_cons]
  congr 1
  refine congrArg (List.mapIdx · rest) (funext fun index => funext fun c' => ?_)
  rw [List.take_succ_cons, List.map_cons, List.sum_cons, ← Nat.add_assoc offset]
  rfl

/-- **The walk finds the cells again**, and then nothing is left. -/
theorem walk_tailOf (offset : Nat) (last : UInt32) (hcells : ∀ c ∈ cells, c.Supported isa space s) :
    walk isa space s stream offset (pointerAt cells last 0) (tailOf cells last)
      = some ⟨handlersOf stream offset cells last, none⟩ := by
  induction cells generalizing offset with
  | nil => exact walk_nil
  | cons c rest ih =>
    obtain ⟨hlength, hcode⟩ := hcells c List.mem_cons_self
    -- The slot is the immediate and the pointer behind it; what follows belongs to the other cells.
    have hslot : (c.immediate ++ pointerBytes (pointerAt rest last 0)).length = c.width := by
      rw [List.length_append, length_pointerBytes, hlength]
    have htail : tailOf (c :: rest) last
        = c.immediate ++ pointerBytes (pointerAt rest last 0) ++ tailOf rest last := by
      rw [tailOf, bytecode_eq, List.append_assoc]
    have hwide : 4 ≤ c.width := hlength ▸ Nat.le_add_left 4 _
    have hfits : c.width ≤ (tailOf (c :: rest) last).length := by
      rw [htail, List.length_append, hslot]
      exact Nat.le_add_right _ _
    have hhandler : handlerOf stream offset c.opcode ((tailOf (c :: rest) last).take c.width)
        = c.handler (stream + UInt32.ofNat offset) (pointerAt rest last 0) := by
      rw [htail, List.take_left' hslot, handlerOf_append stream offset c _ hlength]
    have hothers : walk isa space s stream (offset + c.width) (pointerAt rest last 0)
        ((tailOf (c :: rest) last).drop c.width)
          = some ⟨handlersOf stream (offset + c.width) rest last, none⟩ := by
      rw [htail, List.drop_left' hslot]
      exact ih (offset + c.width) fun c' hc' => hcells c' (List.mem_cons_of_mem c hc')
    calc walk isa space s stream offset c.dispatch (tailOf (c :: rest) last)
        = (walk isa space s stream (offset + c.width) (pointerAt rest last 0)
            ((tailOf (c :: rest) last).drop c.width)).map
            (behind (c.handler (stream + UInt32.ofNat offset) (pointerAt rest last 0))) :=
          walk_slot hcode hwide hfits hhandler
      _ = some ⟨handlersOf stream offset (c :: rest) last, none⟩ := by
          rw [hothers, handlersOf_cons]
          rfl

/-- **Every program that is written as bytecode is extracted from it.** The code of each cell is all
that has to be known of the image; where the last pointer leads does not matter, since the walk is
at the end behind it. -/
theorem ofBytes_bytecode (last : UInt32) (hcells : ∀ c ∈ cells, c.Supported isa space s) :
    ofBytes isa space s stream (bytecode cells last)
      = some ⟨.entry stream (pointerAt cells last 0) :: handlersOf stream 4 cells last, none⟩ := by
  have hlength := length_pointerBytes (pointerAt cells last 0)
  have hlong : 4 ≤ (bytecode cells last).length := by
    rw [bytecode_eq, List.length_append, hlength]
    exact Nat.le_add_right 4 _
  have hpointer : pointerAt cells last 0
      = UInt32.ofNat (numberAt (bytecode cells last) 0 4) := by
    rw [numberAt, List.drop_zero, bytecode_eq, List.take_left' hlength, decode_pointerBytes]
  rw [ofBytes_long hlong hpointer, bytecode_eq, List.drop_left' hlength, walk_tailOf 4 last hcells]
  rfl

/-- One slot of each kind, and the first kind again. -/
def fourCells : List Cell :=
  [⟨.push64, 12, [0x88, 0x77, 0x66, 0x55, 0x44, 0x33, 0x22, 0x11], 0x16194⟩,
    ⟨.popVr64, 5, [7], 0x16101⟩,
    ⟨.unknown, 14, [1, 0, 0, 0, 0, 0, 0, 0, 2, 3], 0x20000⟩,
    ⟨.push64, 12, [5, 0, 0, 0, 0, 0, 0, 0], 0x16194⟩]

/-- The third cell is of a kind that no map knows, and it has an immediate of more than eight bytes;
the addresses wrap behind the first slot. -/
theorem ofBytes_bytecode_fourCells :
    (∀ c ∈ fourCells, c.Supported .stubs threeStubs.space {}) ∧
      ofBytes .stubs threeStubs.space {} 0xFFFFFFF8 (bytecode fourCells 0x7000)
        = some ⟨[.entry 0xFFFFFFF8 0x16194,
            ⟨.push64, 0x1122334455667788, 0xFFFFFFFC, 0x16101, 12⟩,
            ⟨.popVr64, 7, 8, 0x20000, 5⟩,
            ⟨.unknown, 1, 13, 0x16194, 14⟩,
            ⟨.push64, 5, 27, 0x7000, 12⟩], none⟩ := by
  have hcells : ∀ c ∈ fourCells, c.Supported .stubs threeStubs.space {} := by
    simp only [fourCells, List.forall_mem_cons]
    refine ⟨⟨rfl, ?_⟩, ⟨rfl, ?_⟩, ⟨rfl, ?_⟩, ⟨rfl, ?_⟩, nofun⟩
    all_goals decide +kernel
  refine ⟨hcells, ?_⟩
  rw [ofBytes_bytecode 0x7000 hcells]
  decide +kernel

end CodeRecovery.Extraction
