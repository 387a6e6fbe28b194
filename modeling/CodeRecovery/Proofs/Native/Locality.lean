/-
What decoding looks at.

An instruction set is local if an instruction depends on its own bytes only, so that it does not
matter what stands behind them (`InstructionSet.Local`). A run of instructions that came to its stop
is then the same with more code behind it and with a higher limit; one that did not come to its stop
need not be, since the last instruction may have been cut off by the end of the code.

The instructions that handler stubs are written in are local. A decoder takes some bytes from the
front of the code and looks at no others. `Decoder.Local` says so by what may stand behind the bytes
it takes: anything. It is kept when decoders are put together, so the decoder of an instruction has
it, cut to the longest instruction though the code is.
-/
import CodeRecovery.Native.Decode

set_option autoImplicit false

namespace CodeRecovery.Native

/-! ## Runs of a local instruction set -/

/-- The instructions end in one with the mnemonic, so that the run was ended by it and not by the
limit or by the code. -/
def EndsIn (stop : Mnemonic) (l : List Instruction) : Prop :=
  l.getLast?.map (·.mnemonic) = some stop

instance (stop : Mnemonic) (l : List Instruction) : Decidable (EndsIn stop l) :=
  inferInstanceAs (Decidable (_ = _))

/-- A run without instructions was not ended by one. -/
theorem not_endsIn_nil (stop : Mnemonic) : ¬ EndsIn stop [] := by
  simp [EndsIn]

/-- An instruction that is not the stop does not end the run, so the others have to. -/
theorem EndsIn.of_cons {stop : Mnemonic} {i : Instruction} {l : List Instruction}
    (h : EndsIn stop (i :: l)) (hne : i.mnemonic ≠ stop) : EndsIn stop l := by
  cases l with
  | nil => simp [EndsIn, hne] at h
  | cons i' l => simpa [EndsIn] using h

namespace InstructionSet

/-- Decoding depends on the place and on the bytes of the instruction that it gives: code that
begins with these bytes gives the same instruction at the same place, whatever stands behind
them. -/
def Local (isa : InstructionSet) : Prop :=
  ∀ ip code code' i, isa.decode? ip code = some i → code.take i.length <+: code' →
    isa.decode? ip code' = some i

variable {isa : InstructionSet} {stop : Mnemonic} {limit limit' : Nat} {ip : Word}
  {code code' : List UInt8} {i : Instruction}

/-- A run ends with the instruction that it was to stop at. -/
theorem decodeRun_stop (hcode : code ≠ []) (hdecode : isa.decode? ip code = some i)
    (hstop : i.mnemonic = stop) : isa.decodeRun stop (limit + 1) ip code = [i] := by
  rw [decodeRun, if_neg hcode, hdecode]
  exact if_pos hstop

/-- Any other instruction is followed by a run over the rest of the code, which may decode one
instruction less. -/
theorem decodeRun_step (hcode : code ≠ []) (hdecode : isa.decode? ip code = some i)
    (hstop : i.mnemonic ≠ stop) :
    isa.decodeRun stop (limit + 1) ip code
      = i :: isa.decodeRun stop limit (ip + UInt64.ofNat i.length) (code.drop i.length) := by
  rw [decodeRun, if_neg hcode, hdecode]
  exact if_neg hstop

/-- A run that came to its stop had an instruction to decode, which is the stop or is followed by a
run that came to its stop. -/
theorem exists_of_endsIn (h : EndsIn stop (isa.decodeRun stop (limit + 1) ip code)) :
    code ≠ [] ∧ ∃ i, isa.decode? ip code = some i ∧
      (i.mnemonic ≠ stop →
        EndsIn stop (isa.decodeRun stop limit (ip + UInt64.ofNat i.length)
          (code.drop i.length))) := by
  by_cases hcode : code = []
  · rw [decodeRun, if_pos hcode] at h
    exact absurd h (not_endsIn_nil stop)
  · refine ⟨hcode, ?_⟩
    cases hdecode : isa.decode? ip code with
    | none =>
      rw [decodeRun, if_neg hcode, hdecode] at h
      exact absurd h (not_endsIn_nil stop)
    | some i =>
      refine ⟨i, rfl, fun hne => ?_⟩
      rw [decodeRun_step hcode hdecode hne] at h
      exact h.of_cons hne

/-- There is no run over no code, so none that came to its stop. -/
theorem ne_nil_of_endsIn (h : EndsIn stop (isa.decodeRun stop limit ip code)) : code ≠ [] := by
  cases limit with
  | zero => exact absurd h (not_endsIn_nil stop)
  | succ limit => exact (exists_of_endsIn h).1

/-- **A run that came to its stop does not change** when there is more code behind it, nor when more
instructions may be decoded. Each instruction of the run lies in the code at hand, since another one
follows it there, and so it is decoded alike from the longer code. -/
theorem Local.decodeRun_extended (hlocal : isa.Local) (hlimit : limit ≤ limit')
    (hcode : code <+: code') (hstop : EndsIn stop (isa.decodeRun stop limit ip code)) :
    isa.decodeRun stop limit' ip code' = isa.decodeRun stop limit ip code := by
  induction limit generalizing limit' ip code code' with
  | zero => exact absurd hstop (not_endsIn_nil stop)
  | succ limit ih =>
    obtain ⟨limit', rfl⟩ : ∃ n, limit' = n + 1 := ⟨limit' - 1, by omega⟩
    obtain ⟨hne, i, hdecode, hrest⟩ := exists_of_endsIn hstop
    obtain ⟨more, rfl⟩ := hcode
    have hne' : code ++ more ≠ [] := by simp [hne]
    have hown : code.take i.length <+: code ++ more :=
      (List.take_prefix i.length code).trans (List.prefix_append code more)
    have hdecode' := hlocal ip code (code ++ more) i hdecode hown
    by_cases hmnemonic : i.mnemonic = stop
    · rw [decodeRun_stop hne hdecode hmnemonic, decodeRun_stop hne' hdecode' hmnemonic]
    · have hinside : i.length ≤ code.length := by
        have hdrop := ne_nil_of_endsIn (hrest hmnemonic)
        rw [Ne, List.drop_eq_nil_iff] at hdrop
        omega
      have hdrop : code.drop i.length <+: (code ++ more).drop i.length := by
        rw [List.drop_append_of_le_length hinside]
        exact List.prefix_append _ _
      rw [decodeRun_step hne hdecode hmnemonic, decodeRun_step hne' hdecode' hmnemonic,
        ih (Nat.le_of_succ_le_succ hlimit) hdrop (hrest hmnemonic)]

end InstructionSet

/-! ## Decoders -/

/-- Wherever the decoder succeeds it takes some bytes, and it does the same on them whatever stands
behind them. -/
def Decoder.Local {α : Type} (x : Decoder α) : Prop :=
  ∀ code a rest, x.run code = some (a, rest) →
    ∃ taken, code = taken ++ rest ∧ ∀ rest', x.run (taken ++ rest') = some (a, rest')

namespace Decoder.Local

variable {α β : Type} {x : Decoder α} {f : α → Decoder β}

@[simp] theorem pure (a : α) : Local (Pure.pure a : Decoder α) := by
  intro code a' rest hrun
  cases hrun
  exact ⟨[], rfl, fun _ => rfl⟩

@[simp] theorem failure : Local (Alternative.failure : Decoder α) := by
  intro code a rest hrun
  cases hrun

/-- One decoder after another takes the bytes of both. The second one sees what the first one left,
with anything behind it. -/
@[simp] theorem bind (hx : Local x) (hf : ∀ a, Local (f a)) : Local (x >>= f) := by
  intro code b rest hrun
  rw [StateT.run_bind, Option.bind_eq_bind, Option.bind_eq_some_iff] at hrun
  obtain ⟨⟨a, middle⟩, hfirst, hsecond⟩ := hrun
  obtain ⟨taken, rfl, hrest⟩ := hx code a middle hfirst
  obtain ⟨taken', rfl, hrest'⟩ := hf a middle b rest hsecond
  refine ⟨taken ++ taken', (List.append_assoc _ _ _).symm, fun rest' => ?_⟩
  rw [List.append_assoc, StateT.run_bind, hrest]
  exact hrest' rest'

/-- A choice that does not look at the code. -/
@[simp] theorem ite {condition : Prop} [Decidable condition] {y : Decoder α} (hx : Local x)
    (hy : Local y) : Local (if condition then x else y) := by
  split
  · exact hx
  · exact hy

@[simp] theorem map (g : α → β) (hx : Local x) : Local (g <$> x) := by
  rw [map_eq_pure_bind]
  exact hx.bind fun a => .pure (g a)

@[simp] theorem byte : Local Decoder.byte := by
  intro code n rest hrun
  cases code with
  | nil => cases hrun
  | cons b code =>
    cases hrun
    exact ⟨[b], rfl, fun _ => rfl⟩

/-- Numbers are read byte by byte. -/
@[simp] theorem number (count : Nat) : Local (Decoder.number count) := by
  induction count with
  | zero => exact .pure 0
  | succ count ih => exact byte.bind fun low => ih.bind fun high => .pure _

end Decoder.Local

open Decoder (Local)

/-! ## Parts of an instruction -/

/-- **The bytes in front of an opcode are local.** How many there are depends on them alone: the
first byte that is none of them ends them, and it is taken as the opcode. -/
theorem local_modifiers (m : Modifiers) : Local (modifiers m : Decoder (Modifiers × Nat)) := by
  intro code
  -- By the code: each byte that belongs to the modifiers is taken, and the first one that does not
  -- is the opcode.
  induction code generalizing m with
  | nil =>
    intro a rest hrun
    cases hrun
  | cons b code ih =>
    intro a rest hrun
    have hstep : ∀ (m' : Modifiers), (∀ code', modifiers m (b :: code') = modifiers m' code') →
        ∃ taken, b :: code = taken ++ rest ∧
          ∀ rest', modifiers m (taken ++ rest') = some (a, rest') := by
      intro m' heq
      obtain ⟨taken, rfl, hrest⟩ := ih m' a rest ((heq code).symm.trans hrun)
      exact ⟨b :: taken, rfl, fun rest' => (heq _).trans (hrest rest')⟩
    by_cases hnarrow : b = 0x66
    · exact hstep { narrow := true, rex := none } fun code' => by simp [modifiers, hnarrow]
    · by_cases hrex : 0x40 ≤ b ∧ b ≤ 0x4F
      · exact hstep { m with rex := some b.toNat } fun code' => by simp [modifiers, hnarrow, hrex]
      · have hopcode : ∀ code', modifiers m (b :: code') = some ((m, b.toNat), code') := by
          intro code'
          rw [modifiers, if_neg hnarrow, if_neg hrex]
        cases (hopcode code).symm.trans hrun
        exact ⟨[b], rfl, hopcode⟩

/-- What follows the byte that describes an address depends on that byte: a scaled index and a
displacement, of which each may be missing. -/
@[simp] theorem local_modRm : Local modRm := by
  refine Local.byte.bind fun b => ?_
  dsimp only
  split
  · split
    · exact (Local.byte.map _).bind fun base => (Local.number _).bind fun _ => .pure _
    · exact (Local.pure _).bind fun base => (Local.number _).bind fun _ => .pure _
  · exact .pure _

@[simp] theorem local_immediate (kind : ImmediateKind) : Local (immediate kind) := by
  simp [immediate]

/-- **What follows an opcode is local.** The opcode tells which parts there are, and each of the
parts is local. -/
theorem local_shape (m : Modifiers) (opcode : Nat) : Local (shape m opcode) := by
  unfold shape
  split
  -- Three opcodes stand for instructions that a field of the next byte tells apart, and the last
  -- case for three groups of opcodes that name a register.
  case h_22 | h_27 | h_28 =>
    refine local_modRm.bind fun b => ?_
    split <;> simp
  case h_29 =>
    dsimp only
    repeat' split
    all_goals simp
  all_goals simp [toTarget, fromTarget, groupImmediate, branch]

/-! ## Instructions -/

/-- Reads a whole instruction but for its place. The place matters for operands that are relative to
the next instruction, so it is put in when the length is known. -/
def wholeShape : Decoder Shape :=
  (modifiers {} : Decoder (Modifiers × Nat)) >>= fun front => shape front.1 front.2

/-- An instruction is the bytes in front, the opcode and what follows it. -/
theorem local_wholeShape : Local wholeShape :=
  (local_modifiers {}).bind fun front => local_shape front.1 front.2

/-- The instruction at a place that takes so many bytes. Operands that count from its end are
resolved here. -/
def Shape.placed (s : Shape) (ip : Word) (length : Nat) : Instruction where
  ip := ip
  length := length
  mnemonic := s.mnemonic
  operands := s.operands.map (Operand.place (ip + UInt64.ofNat length))

/-- Decoding is reading the shape of an instruction from as much code as one can take, and then
placing it. Its length is what was taken. -/
theorem decode?_eq (ip : Word) (code : List UInt8) :
    decode? ip code = (wholeShape.run (code.take longest)).map fun result =>
      result.1.placed ip ((code.take longest).length - result.2.length) := by
  have hrun : wholeShape.run (code.take longest) =
      (modifiers {} (code.take longest)).bind fun front => shape front.1.1 front.1.2 front.2 := rfl
  rw [hrun]
  unfold decode?
  dsimp only
  cases modifiers {} (code.take longest) with
  | none => rfl
  | some front =>
    dsimp only [Option.bind_eq_bind, Option.bind_some]
    rw [Option.map_eq_bind]
    rfl

/-- **The instructions that stubs are written in are local.** The bytes of an instruction lie in
front of the code, within the longest instruction; whatever code begins with them, as much of it as
is looked at begins with them too. -/
theorem InstructionSet.local_stubs : InstructionSet.stubs.Local := by
  intro ip code code' i hdecode hown
  change Native.decode? ip code = some i at hdecode
  change Native.decode? ip code' = some i
  rw [decode?_eq, Option.map_eq_some_iff] at hdecode
  obtain ⟨⟨s, rest⟩, hrun, rfl⟩ := hdecode
  obtain ⟨taken, hwindow, hlocal⟩ := local_wholeShape _ _ _ hrun
  have hcount : ∀ rest' : List UInt8, (taken ++ rest').length - rest'.length = taken.length := by
    intro rest'
    rw [List.length_append, Nat.add_sub_cancel]
  rw [hwindow, hcount] at hown ⊢
  -- The bytes of the instruction lie in the window, so there are no more of them than it may have.
  have hlongest : taken.length ≤ longest := by
    have hle := List.length_take_le longest code
    rw [hwindow, List.length_append] at hle
    omega
  have htaken : code.take taken.length = taken := by
    have hcode : code = taken ++ (rest ++ code.drop longest) := by
      rw [← List.append_assoc, ← hwindow, List.take_append_drop]
    rw [hcode, List.take_left]
  change code.take taken.length <+: code' at hown
  rw [htaken] at hown
  obtain ⟨more, rfl⟩ := hown
  have hwindow' : (taken ++ more).take longest = taken ++ more.take (longest - taken.length) := by
    rw [List.take_append, List.take_of_length_le hlongest]
  rw [decode?_eq, hwindow', hlocal, Option.map_some, hcount]

end CodeRecovery.Native
