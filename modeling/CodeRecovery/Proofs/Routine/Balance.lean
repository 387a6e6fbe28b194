/-
The stack offsets of a routine.

Every instruction carries how far the stack pointer has moved since the start of its block. The
compiler works this out from the sizes of operands as it goes along and never looks at the
instruction of the virtual machine that it compiles. Here the offsets are compared with two things
they do not depend on: with the code in front of an instruction, push by push and pop by pop, in
every block after any session; and with the table of stack uses, for every handler, from any state
of the compiler.

The second comparison is where the sizes matter. A value that is pushed has as many bits as the
width it is pushed at only because it was made at that width, so the coupling with the counting
machine carries the sizes of all operands.
-/
import Mathlib.Algebra.Ring.Int.Defs
import CodeRecovery.Proofs.Routine.Moves
import CodeRecovery.Proofs.Tally

set_option autoImplicit false

namespace CodeRecovery.Routine

/-! ## How far code moves the stack -/

/-- By how many bytes an instruction moves the stack pointer. An operand counts with the bytes that
its bits fill. -/
def displacement : Code → Int
  | (.push, [operand]) => -(operand.bits.toNat / 8 : Nat)
  | (.pop, [operand]) => (operand.bits.toNat / 8 : Nat)
  | (.pushf, _) => -8
  | (.popf, _) => 8
  | _ => 0

/-- By how many bytes code moves the stack pointer, down if it is negative. -/
def drift (code : List Code) : Int :=
  (code.map displacement).sum

theorem drift_append (code code' : List Code) :
    drift (code ++ code') = drift code + drift code' := by
  rw [drift, List.map_append, List.sum_append, drift, drift]

theorem drift_singleton (c : Code) : drift [c] = displacement c :=
  Int.add_zero _

/-- A number of bits as a number of bytes, worked out on machine integers or not. No number of bits
is so large that the two could differ. -/
theorem bytes_eq (bits : UInt32) :
    bits.toUInt64.toInt64 / 8 = Int64.ofInt (bits.toNat / 8 : Nat) := by
  have hlt := bits.toNat_lt
  have hwide : bits.toUInt64.toInt64 = Int64.ofNat bits.toNat := by
    rw [← UInt64.toInt64_ofNat']
    simp
  rw [hwide, Int64.ofInt_eq_ofNat, Int64.ofNat_div (by omega) (by omega)]
  rfl

/-- What the compiler adds to the offset of a block is what the instruction moves, provided that it
has the operands its operation takes. -/
theorem stackChange_eq {op : Operation} {operands : List Operand} (h : op.Takes operands) :
    Instruction.stackChange op operands = Int64.ofInt (displacement (op, operands)) := by
  cases op with
  | push =>
    obtain ⟨operand, rfl⟩ := List.length_eq_one_iff.1 h
    rw [displacement, Int64.ofInt_neg, ← bytes_eq]
    rfl
  | pop =>
    obtain ⟨operand, rfl⟩ := List.length_eq_one_iff.1 h
    rw [displacement, ← bytes_eq]
    rfl
  | _ => rfl

/-! ## Recorded offsets -/

/-- The offsets of the instructions, and of the block as a whole, are those of the code before
them. -/
structure Block.Recorded (b : Block) : Prop where
  instructions : ∀ {k : Nat} {i : Instruction}, b.instructions[k]? = some i →
    i.stackOffset = Int64.ofInt (drift (b.code.take k))
  block : b.stackOffset = Int64.ofInt (drift b.code)

namespace Block.Recorded

variable {b : Block}

/-- A block without code has offset zero. -/
theorem empty (address : BytecodeAddress) : Recorded { address } where
  instructions h := nomatch h
  block := rfl

/-- An instruction takes down the offset in front of it, and moves that of the block. -/
theorem emit (h : b.Recorded) {op : Operation} {operands : List Operand}
    (htakes : op.Takes operands) :
    (b.emit op operands).Recorded := by
  have hcode : (b.emit op operands).code = b.code ++ [(op, operands)] :=
    (Grows.emit b op operands).code
  have hlength : b.code.length = b.instructions.size := by simp [code]
  refine ⟨?_, ?_⟩
  · intro k i hi
    rw [hcode]
    simp only [Block.emit, Array.getElem?_push] at hi
    -- The new instruction carries the offset from before itself, that of the whole block so far.
    by_cases hk : k = b.instructions.size
    · rw [if_pos hk] at hi
      cases hi
      rw [hk, ← hlength, List.take_left, h.block]
    · rw [if_neg hk] at hi
      have hlt : k < b.instructions.size := (Array.getElem?_eq_some_iff.1 hi).1
      rw [List.take_append_of_le_length (by omega)]
      exact h.instructions hi
  · rw [hcode, drift_append, drift_singleton, Int64.ofInt_add, ← h.block, ← stackChange_eq htakes]
    rfl

/-- Links and temporaries have nothing to do with offsets. -/
theorem of_same {b' : Block} (h : b.Recorded) (hinstructions : b'.instructions = b.instructions)
    (hoffset : b'.stackOffset = b.stackOffset) : b'.Recorded := by
  have hcode : b'.code = b.code := by rw [code, code, hinstructions]
  refine ⟨?_, ?_⟩
  · intro k i hi
    rw [hinstructions] at hi
    rw [hcode]
    exact h.instructions hi
  · rw [hoffset, hcode]
    exact h.block

theorem addPrev (h : b.Recorded) (a : BytecodeAddress) : (b.addPrev a).Recorded := by
  unfold Block.addPrev
  split
  · exact h
  · exact h.of_same rfl rfl

theorem addNext (h : b.Recorded) (a : BytecodeAddress) : (b.addNext a).Recorded := by
  unfold Block.addNext
  split
  · exact h
  · exact h.of_same rfl rfl

/-- A link changes at most the two blocks it joins. -/
theorem linked (h : b.Recorded) (source target a : BytecodeAddress) :
    (b.linked source target a).Recorded := by
  unfold Block.linked
  by_cases htarget : a = target
  · rw [if_pos htarget]
    split
    · exact (h.addPrev source).addNext target
    · exact h.addPrev source
  · rw [if_neg htarget]
    split
    · exact h.addNext target
    · exact h

end Block.Recorded

namespace Backend

/-- The offsets are right in every block. -/
def Recorded (b : Backend) : Prop :=
  ∀ a block, b.routine.block? a = some block → block.Recorded

variable {b b' : Backend}

/-- A change to the current block that keeps its offsets right. -/
theorem Recorded.onBlock (h : b.Recorded) (hb : b.Has b.current) {change : Block → Block}
    (hchange : ∀ block : Block, block.Recorded → (change block).Recorded) :
    (b.onBlock change).Recorded := by
  intro a block hblock
  rw [block?_onBlock] at hblock
  split at hblock
  · cases hblock
    exact hchange _ (h _ _ (block?_current hb))
  · exact h a block hblock

/-- One move keeps the offsets right. Only emitting an instruction has anything to do with them. -/
theorem Move.recorded (h : b.Move b') (hb : b.Has b.current) (hrecorded : b.Recorded) :
    b'.Recorded := by
  cases h with
  | emit htakes => exact hrecorded.onBlock hb fun _ hblock => hblock.emit htakes
  | number bits => exact hrecorded.onBlock hb fun _ hblock => hblock.of_same rfl rfl
  | link target =>
    intro a block' hblock'
    obtain ⟨block, hblock, rfl⟩ := exists_of_block?_addEdge hblock'
    refine Block.Recorded.linked ?_ _ _ _
    rcases block?_create_cases hblock with hold | ⟨-, rfl⟩
    · exact hrecorded a block hold
    · exact .empty a
  | turn hroutine _ _ =>
    intro a block hblock
    rw [hroutine] at hblock
    exact hrecorded a block hblock

/-- **The offsets are right wherever moves lead to**, hence after every session. At first there is
one block, which is empty. -/
theorem Reached.recorded (h : b.Reached) : b.Recorded := by
  obtain ⟨b₀, hblank, hmoves⟩ := h
  induction hmoves with
  | refl =>
    intro a block hblock
    rw [hblank.routine, block?_new] at hblock
    split at hblock
    · cases hblock
      exact .empty _
    · cases hblock
  | tail hmoves hmove ih =>
    exact hmove.recorded (Moves.has_current hmoves (hblank.has_iff.2 rfl)) ih

/-! ## The offset behind a handler -/

/-- Code was added to the current block, and its offset moved as far as the code moves the stack. -/
def Drifts (b b' : Backend) : Prop :=
  b'.current = b.current ∧ ∃ code, b'.block.code = b.block.code ++ code ∧
    b'.block.stackOffset = b.block.stackOffset + Int64.ofInt (drift code)

/-- Every move that stays in the block drifts, and so does any number of them. -/
theorem covers_drifts : Covers Drifts where
  refl b := ⟨rfl, [], (List.append_nil _).symm, (Int64.add_zero _).symm⟩
  trans := by
    rintro b₁ b₂ b₃ ⟨hcurrent, code, hcode, hoffset⟩ ⟨hcurrent', code', hcode', hoffset'⟩
    refine ⟨hcurrent'.trans hcurrent, code ++ code', ?_, ?_⟩
    · rw [hcode', hcode, List.append_assoc]
    · rw [hoffset', hoffset, drift_append, Int64.ofInt_add, Int64.add_assoc]
  emit b op operands htakes := by
    refine ⟨rfl, [(op, operands)], ?_, ?_⟩
    · rw [block_onBlock]
      exact (Block.Grows.emit b.block op operands).code
    · rw [block_onBlock, drift_singleton, ← stackChange_eq htakes]
      rfl
  number b bits := by
    refine ⟨rfl, [], ?_, ?_⟩
    · rw [block_onBlock]
      exact (Block.Grows.freshTemporary b.block bits).code
    · rw [block_onBlock]
      exact (Int64.add_zero _).symm

/-- The code written since `b₀` moves the stack against the count, and operands have the size of
their width. The count is of bytes on the stack, which grows downwards. -/
def countedOf (b₀ : Backend) : Correspondence Backend Operand Tally Unit where
  State _ b t := (∃ code count, b₀.Emits b code count ∧ drift code = -t.depth) ∧
    t.virtualRegisters = b₀.virtualRegisters
  Now _ _ w v _ := v.bits = UInt32.ofNat w.bits
  Held _ _ w v _ := v.bits = UInt32.ofNat w.bits

section

variable {α β : Type} {n n' count : Nat} {b₀ : Backend} {t t' : Tally} {code : List Code}
  {R : Backend → Tally → α → β → Prop} {a : α} {a' : β} {x : Action Backend α} {y : Action Tally β}

/-- Code that moves the stack by as much as the counting machine counts. All code that operations
write has this form. -/
theorem counted_joint (bytes : Int) (hstate : (countedOf b₀).State n b t)
    (hwrites : Writes x b a code count) (htally : y.run t = .ok a' (t.grow bytes))
    (hdrift : drift code = -bytes) (hR : ∀ b', R b' (t.grow bytes) a a') :
    (countedOf b₀).Joint n' b t R (x.run b) (y.run t) := by
  obtain ⟨⟨code₀, count₀, hemits, hdrift₀⟩, hregisters⟩ := hstate
  obtain ⟨b', hrun, hemits'⟩ := hwrites
  rw [hrun, htally]
  refine .ok ⟨⟨_, _, hemits.trans hemits', ?_⟩, hregisters⟩ (fun _ _ _ hheld => hheld) (hR b')
  rw [drift_append, hdrift₀, hdrift, ← Int.neg_add]
  rfl

/-- Code that leaves the stack where it is. -/
theorem counted_still (hstate : (countedOf b₀).State n b t) (hwrites : Writes x b a code count)
    (htally : y.run t = .ok a' t) (hdrift : drift code = 0) (hR : ∀ b', R b' t a a') :
    (countedOf b₀).Joint n' b t R (x.run b) (y.run t) := by
  exact counted_joint 0 hstate hwrites (t.grow_zero.symm ▸ htally) hdrift (t.grow_zero.symm ▸ hR)

end

/-- Values of a width take as many bytes as the width has; a single bit is never pushed. -/
theorem bytes_of_bits {v : Operand} {w : Width} (hw : w ≠ .bit)
    (hv : v.bits = UInt32.ofNat w.bits) :
    v.bits.toNat / 8 = w.bytes := by
  rw [hv]
  cases w with
  | bit => exact absurd rfl hw
  | dword => rfl
  | qword => rfl

/-- A push at a width moves the stack by its bytes, and a pop moves it back. -/
theorem drift_push {v : Operand} {w : Width} (hw : w ≠ .bit) (hv : v.bits = UInt32.ofNat w.bits) :
    drift [(.push, [v])] = -(w.bytes : Int) := by
  rw [drift_singleton, displacement, bytes_of_bits hw hv]

theorem drift_pop {v : Operand} {w : Width} (hw : w ≠ .bit) (hv : v.bits = UInt32.ofNat w.bits) :
    drift [(.pop, [v])] = -(-(w.bytes : Int)) := by
  rw [drift_singleton, displacement, bytes_of_bits hw hv, Int.neg_neg]

/-- Arithmetic is between registers. -/
theorem drift_binary (op : BinaryOp) (operands operands' : List Operand) :
    drift [(.mov, operands), (.ofBinary op, operands')] = 0 := by
  cases op <;> rfl

/-- The routine compiler, coupled with the counting machine. Saving and restoring move the stack by
seventeen words. -/
def counted (b₀ : Backend) : Coupling Backend Operand Tally Unit where
  toCorrespondence := countedOf b₀
  now_of_held h := h
  weaken h := h
  registers := b₀.virtualRegisters
  virtualRegisters {_ _ _} h := by
    obtain ⟨⟨_, _, hemits, _⟩, hregisters⟩ := h
    exact ⟨hemits.virtualRegisters, hregisters⟩
  constant w c hstate := counted_still hstate (.pure _ _) rfl rfl fun _ => rfl
  push {_ _ _ w _ _} hw hstate hv :=
    counted_joint w.bytes hstate (writes_push _ _ _) rfl (drift_push hw hv) fun _ => trivial
  pop {_ _ _ w} hw hstate :=
    counted_joint (-w.bytes) hstate (writes_pop _ _) rfl (drift_pop hw rfl) fun _ => rfl
  getVreg _ hstate _ := counted_still hstate (.pure _ _) rfl rfl fun _ => rfl
  setVreg _ hstate _ _ := counted_still hstate (writes_setVreg _ _ _ _) rfl rfl fun _ => trivial
  getVsp hstate := counted_still hstate (.pure _ _) rfl rfl fun _ => rfl
  setVsp hstate _ := counted_still hstate (writes_setVsp _ _) rfl rfl fun _ => trivial
  binary {_ _ _} op {_ _ _ _ _} hstate _ _ :=
    counted_still hstate (writes_binary _ _ _ _ op) rfl (drift_binary op _ _) fun _ => rfl
  signExtend _ hstate _ := counted_still hstate (writes_signExtend _ _ _) rfl rfl fun _ => rfl
  testZero hstate _ := counted_still hstate (writes_testZero _ _ _) rfl rfl fun _ => rfl
  testNonzero hstate _ := counted_still hstate (writes_testNonzero _ _ _) rfl rfl fun _ => rfl
  load _ hstate _ := counted_still hstate (writes_load _ _ _) rfl rfl fun _ => rfl
  store _ hstate _ _ := counted_still hstate (writes_store _ _ _ _) rfl rfl fun _ => trivial
  saveRegisters hstate :=
    counted_joint 136 hstate (writes_saveRegisters _) rfl (by decide) fun _ => trivial
  restoreRegisters hstate :=
    counted_joint (-136) hstate (writes_restoreRegisters _) rfl (by decide) fun _ => trivial

/-- **A handler moves the offset of the current block as the table of stack uses says**, from any
state of the compiler. The code it added is one and the same in both correspondences, so the way its
offset moved and the way the count moved can be compared. -/
theorem stackOffset_of_perform {h : Handler} {position : Nat} {outcome : Outcome Operand}
    (hrun : (h.perform position : Action Backend (Outcome Operand)).run b = .ok outcome b') :
    b'.current = b.current ∧
      b'.block.stackOffset = b.block.stackOffset - Int64.ofInt h.opcode.growth := by
  obtain ⟨hcurrent, code, hcode, hoffset⟩ := (covers_drifts.kept.perform h position).of_run hrun
  have hstate : (counted b).State 8 b ⟨b.virtualRegisters, 0⟩ := ⟨⟨[], 0, .refl b, rfl⟩, rfl⟩
  obtain ⟨⟨code', count, hemits, hdrift⟩, -⟩ := (counted b).state_of_perform (n := 0) hstate hrun
  -- Both speak of the code that the handler added.
  obtain rfl : code = code' := List.append_cancel_left (hcode.symm.trans hemits.block.code)
  have hgrowth : drift code = -h.opcode.growth := by
    rw [hdrift, Tally.grow, Int.zero_add]
  refine ⟨hcurrent, ?_⟩
  rw [hoffset, hgrowth, Int64.ofInt_neg, Int64.sub_eq_add_neg]

end Backend

end CodeRecovery.Routine
