/-
Arithmetic on the stack, and the branch that follows it.

An arithmetic instruction leaves its result and, on top of it, a word that says whether the result
was zero; the branch instruction pops a word and branches if it is not zero. The two meet in one
convention: the word is all ones exactly when the result is zero, so a program branches on zero
although the branch asks for a word other than zero.

The result is compared here with the exact one. `BinaryOp.value` works on numbers and knows no
widths; what the machine leaves is its remainder modulo the size of the width. The operands of 32
bits are the place to look: their result is widened with its sign before it is compared, and the
flag word is as wide as a whole word, so it overlaps the place of both operands.
-/
import Mathlib.Algebra.Ring.Int.Defs
import CodeRecovery.Proofs.Session
import CodeRecovery.Proofs.Simulator.Context

set_option autoImplicit false

namespace CodeRecovery

/-! ## Numbers -/

namespace BinaryOp

/-- The result of the operation on numbers of any size; a difference may be negative. It knows
nothing of words, so it is what a reader would expect of the operation. -/
def value (op : BinaryOp) (a b : Nat) : Int :=
  match op with
  | add => a + b
  | sub => a - b
  | or => (a ||| b : Nat)
  | and => (a &&& b : Nat)
  | xor => (a ^^^ b : Nat)

/-- On words the operation gives the exact result modulo the size of the width. -/
theorem toNat_apply (op : BinaryOp) (w : Width) (a b : Word) :
    ((op.apply w a b).toNat : Int) = op.value a.toNat b.toNat % 2 ^ w.bits := by
  have ha := a.toNat_lt
  have hb := b.toNat_lt
  unfold apply
  rw [Width.toNat_cut]
  -- Sums and differences wrap at 64 bits first, which no width is longer than.
  cases op with
  | add =>
    rw [UInt64.toNat_add]
    cases w <;> (simp only [value, Width.bits, Nat.pow_eq]; omega)
  | sub =>
    rw [UInt64.toNat_sub]
    cases w <;> (simp only [value, Width.bits, Nat.pow_eq]; omega)
  | or => simp [value]
  | and => simp [value]
  | xor => simp [value]

end BinaryOp

namespace Width

/-- Widening with the sign neither makes a number zero nor keeps it from being zero. So comparing
the widened result is comparing the result. -/
theorem signExtend_eq_zero (w : Width) (v : Word) :
    w.signExtend v = 0 ↔ v.toNat % 2 ^ w.bits = 0 := by
  cases w with
  | bit =>
    have hbit : v &&& 1 = 0 ↔ v.toNat % 2 ^ 1 = 0 := by
      rw [← UInt64.toNat_inj, ← Nat.and_two_pow_sub_one_eq_mod]
      exact Iff.of_eq (congrArg (· = 0) (UInt64.toNat_and v 1))
    rw [signExtend, bits, ← hbit]
    by_cases hzero : v &&& 1 = 0
    · rw [if_pos hzero]
      exact ⟨fun _ => hzero, fun _ => rfl⟩
    · rw [if_neg hzero]
      exact ⟨fun h => absurd h (by decide), fun h => absurd h hzero⟩
  | dword =>
    have hnarrow : v.toUInt32 = 0 ↔ v.toNat % 2 ^ 32 = 0 := by
      rw [← UInt32.toNat_inj, UInt64.toNat_toUInt32]
      rfl
    rw [signExtend, bits, ← hnarrow]
    constructor
    · intro h
      have hsigned : v.toUInt32.toInt32.toInt64 = 0 := congrArg UInt64.toInt64 h
      have hsmall : v.toUInt32.toInt32 = 0 := by
        apply Int32.toInt_inj.1
        rw [← Int32.toInt_toInt64, hsigned]
        rfl
      exact congrArg Int32.toUInt32 hsmall
    · intro h
      rw [h]
      rfl
  | qword =>
    have hlt : v.toNat < 2 ^ 64 := v.toNat_lt
    rw [signExtend, ← UInt64.toNat_inj, bits, Nat.mod_eq_of_lt hlt]
    rfl

/-- The flag word is all ones if the low bits are zero, and zero otherwise. -/
theorem zeroFlag_eq (w : Width) (v : Word) :
    w.zeroFlag v = if v.toNat % 2 ^ w.bits = 0 then 0xFFFFFFFFFFFFFFFF else 0 := by
  unfold zeroFlag
  by_cases hzero : v.toNat % 2 ^ w.bits = 0
  · rw [if_pos ((w.signExtend_eq_zero v).2 hzero), if_pos hzero]
    rfl
  · rw [if_neg fun h => hzero ((w.signExtend_eq_zero v).1 h), if_neg hzero]
    rfl

/-- The flag word depends on the exact result only by its remainder. -/
theorem zeroFlag_of_emod {w : Width} {v : Word} {x : Int}
    (h : (v.toNat : Int) % 2 ^ w.bits = x % 2 ^ w.bits) :
    w.zeroFlag v = if x % 2 ^ w.bits = 0 then 0xFFFFFFFFFFFFFFFF else 0 := by
  rw [zeroFlag_eq, ← h]
  norm_cast

/-- A number below the size of the width fits into its bytes. A single bit has none. -/
theorem lt_of_emod {w : Width} (hw : w ≠ .bit) {n : Nat} {x : Int}
    (h : (n : Int) = x % 2 ^ w.bits) : n < Nat.pow 256 w.bytes := by
  have hsize : (2 : Int) ^ w.bits = ((Nat.pow 256 w.bytes : Nat) : Int) := by
    cases w with
    | bit => exact absurd rfl hw
    | dword => rfl
    | qword => rfl
  have hlt : (n : Int) < 2 ^ w.bits := by
    rw [h]
    exact Int.emod_lt_of_pos _ (Int.pow_pos (by decide))
  omega

end Width

namespace Simulator

open Memory (distance)

variable {p : Program} {h : Handler} {position : Nat} {op : BinaryOp} {w : Width}

/-! ## The top of the stack -/

/-- Behind a pop, what was next on the stack is on top. -/
theorem peek_pop (m : Simulator) (w w' : Width) :
    (m.pop w).2.peek w' 0 = m.peek w' (.ofNat w.bytes) := by
  rw [peek_zero]
  rfl

/-- What was pushed is on top, if it fits the width. -/
theorem toNat_peek_push (m : Simulator) {w : Width} {value : Word}
    (hvalue : value.toNat < Nat.pow 256 w.bytes) :
    ((m.push w value).peek w 0).toNat = value.toNat := by
  rw [peek_zero]
  exact (Memory.toNat_read_write ..).trans (Nat.mod_eq_of_lt hvalue)

/-- What was on top of the stack is found behind a word that is pushed. The bytes of the two do not
overlap, also around the end of the address space. -/
theorem peek_push_qword (m : Simulator) (value : Word) (w : Width) :
    (m.push .qword value).peek w 8 = m.peek w 0 := by
  have hvsp : (m.push .qword value).vsp + 8 = m.vsp + 0 := by
    rw [UInt64.add_zero]
    exact UInt64.sub_add_cancel m.vsp 8
  unfold peek
  rw [hvsp, UInt64.add_zero]
  apply Memory.read_write_of_distance
  intro k hk
  show 8 ≤ distance (m.vsp - UInt64.ofNat 8) _
  have hbytes : w.bytes ≤ 8 := by cases w <;> decide
  rw [distance_below (by unfold UInt64.size; omega)]
  omega

/-! ## Arithmetic -/

/-- The exact result of an operation on the two values on top of the stack. The right operand is the
upper one. -/
def resultOf (m : Simulator) (op : BinaryOp) (w : Width) : Int :=
  op.value (m.peek w (.ofNat w.bytes)).toNat (m.peek w 0).toNat

/-- What arithmetic makes of a machine: the operands are replaced by the result and the flag
word. -/
structure Computes (op : BinaryOp) (w : Width) (m m' : Simulator) : Prop where
  vsp : m'.vsp = m.vsp + .ofNat w.bytes - 8
  result : ((m'.peek w 8).toNat : Int) = m.resultOf op w % 2 ^ w.bits
  flag : m'.peek .qword 0 = if m.resultOf op w % 2 ^ w.bits = 0 then 0xFFFFFFFFFFFFFFFF else 0
  /-- The flag word is that of every word that has the result in its low bits. -/
  zeroFlag : ∀ v : Word, (v.toNat : Int) % 2 ^ w.bits = m.resultOf op w % 2 ^ w.bits →
    m'.peek .qword 0 = w.zeroFlag v

/-- On the simulator the flag word takes three operations and is the one in closed form. -/
theorem run_zeroFlag (w : Width) (v : Word) (m : Simulator) :
    (CodeRecovery.zeroFlag w v : Action Simulator Word).run m = .ok (w.zeroFlag v) m := by
  have htest : ∀ wide : Word,
      (StackOps.testZero .qword wide >>= StackOps.signExtend .bit : Action Simulator Word).run m
        = .ok (Width.bit.signExtend (if wide = 0 then 1 else 0)) m := by
    intro wide
    show EStateM.Result.ok (Width.bit.signExtend (if Width.qword.cut wide = 0 then 1 else 0)) m = _
    rw [Width.cut_qword]
  cases w with
  | bit => exact htest _
  | dword => exact htest _
  | qword => exact htest _

/-- Arithmetic is two pops, the operation and two pushes. The right operand is popped first. -/
theorem run_performArithmetic (op : BinaryOp) (w : Width) (m : Simulator) :
    (Handler.performArithmetic op w : Action Simulator (Outcome Word)).run m
      = .ok .next ((((m.pop w).2.pop w).2.push w
        (op.apply w ((m.pop w).2.pop w).1 (m.pop w).1)).push .qword
        (w.zeroFlag (op.apply w ((m.pop w).2.pop w).1 (m.pop w).1))) := by
  have hpop : ∀ m : Simulator,
      (StackOps.pop w : Action Simulator Word).run m = .ok (m.pop w).1 (m.pop w).2 := fun _ => rfl
  have hpush : ∀ (w : Width) (value : Word) (m : Simulator),
      (StackOps.push w value : Action Simulator Unit).run m = .ok () (m.push w value) :=
        fun _ _ _ => rfl
  have hbinary : ∀ (lhs rhs : Word) (m : Simulator),
      (StackOps.binary op w lhs rhs : Action Simulator Word).run m = .ok (op.apply w lhs rhs) m :=
    fun _ _ _ => rfl
  unfold Handler.performArithmetic
  rw [Action.run_bind_of_ok (hpop m), Action.run_bind_of_ok (hpop _),
    Action.run_bind_of_ok (hbinary _ _ _), Action.run_bind_of_ok (hpush _ _ _),
    Action.run_bind_of_ok (run_zeroFlag _ _ _), Action.run_bind_of_ok (hpush _ _ _)]
  rfl

/-- An instruction that is listed as arithmetic is carried out as such, and not on single bits. -/
theorem perform_of_arithmetic (harithmetic : h.opcode.arithmetic? = some (op, w)) (position : Nat) :
    (h.perform position : Action Simulator (Outcome Word)) = Handler.performArithmetic op w ∧
      w ≠ .bit := by
  unfold Handler.perform
  cases hop : h.opcode with
  | sub64 | sub32 | add64 | add32 | or32 | and32 | xor32 =>
    rw [hop] at harithmetic
    cases harithmetic
    exact ⟨rfl, by decide⟩
  | _ =>
    rw [hop] at harithmetic
    cases harithmetic

/-- A result and its flag word, pushed where two operands were popped. The flag word is pushed last,
so the result is eight bytes behind the top. -/
theorem computes_push (hw : w ≠ .bit) {m m₁ : Simulator} {value : Word}
    (hvsp : m₁.vsp = m.vsp + .ofNat w.bytes + .ofNat w.bytes)
    (hvalue : (value.toNat : Int) = m.resultOf op w % 2 ^ w.bits) :
    Computes op w m ((m₁.push w value).push .qword (w.zeroFlag value)) := by
  have hsame : (value.toNat : Int) % 2 ^ w.bits = m.resultOf op w % 2 ^ w.bits := by
    rw [hvalue, Int.emod_emod_of_dvd _ (Int.dvd_refl _)]
  have htop : ((m₁.push w value).push .qword (w.zeroFlag value)).peek .qword 0
      = w.zeroFlag value := by
    apply UInt64.toNat_inj.1
    exact toNat_peek_push _ (UInt64.toNat_lt _)
  refine ⟨?_, ?_, ?_, ?_⟩
  · show m₁.vsp - .ofNat w.bytes - 8 = _
    rw [hvsp, UInt64.add_sub_cancel]
  · rw [peek_push_qword, toNat_peek_push _ (Width.lt_of_emod hw hvalue), hvalue]
  · rw [htop, Width.zeroFlag_of_emod hsame]
  · intro v hv
    rw [htop, Width.zeroFlag_of_emod hsame, Width.zeroFlag_of_emod hv]

/-- **What an arithmetic handler computes**, on any machine: there is nothing in it that could
fail. -/
theorem computes_of_arithmetic (harithmetic : h.opcode.arithmetic? = some (op, w)) (position : Nat)
    (m : Simulator) :
    ∃ m', (h.perform position : Action Simulator (Outcome Word)).run m = .ok .next m' ∧
      Computes op w m m' := by
  obtain ⟨hperform, hw⟩ := perform_of_arithmetic harithmetic position
  rw [hperform, run_performArithmetic]
  refine ⟨_, rfl, computes_push hw rfl ?_⟩
  rw [op.toNat_apply, resultOf, peek_zero]
  rfl

/-! ## Branches -/

/-- Where a step at a branch leads, on the machine `m` that has the flag word popped. The branch is
taken if `flag` holds; otherwise control falls through, and behind the last handler the native
context is popped. -/
inductive BranchStep (p : Program) (position : Nat) (target : Word) (flag : Prop) (m : Simulator) :
    EStateM.Result Halt Simulator Progress → Prop
  | taken {next : Nat} : flag → p.positionAt? target = some next →
      BranchStep p position target flag m (.ok (.advance next true) m)
  | unresolved : flag → p.positionAt? target = none →
      BranchStep p position target flag m (.error (.failed (.unresolvedBranch target position)) m)
  | onward : ¬ flag → position + 1 < p.length →
      BranchStep p position target flag m (.ok (.advance (position + 1) false) m)
  | behind : ¬ flag → position + 1 = p.length →
      BranchStep p position target flag m (.ok .exit (m.popAll SavedRegister.popOrder))

/-- A branch pops a word, and its condition is whether the word is not zero. -/
theorem run_perform_jnz (hop : h.opcode = .jnz) (position : Nat) (m : Simulator) :
    (h.perform position : Action Simulator (Outcome Word)).run m
      = .ok (.branch (if m.peek .qword 0 = 0 then 0 else 1) h.data) (m.pop .qword).2 := by
  rw [Handler.perform, hop, peek_zero, ← Width.cut_qword (m.pop .qword).1]
  rfl

/-- A step at a branch is taken if the word on top of the stack is not zero. All four ways in which
it may end are listed, the failure among them. -/
theorem branchStep_of_jnz (hh : p[position]? = some h) (hop : h.opcode = .jnz) (m : Simulator) :
    BranchStep p position h.data (m.peek .qword 0 ≠ 0) (m.pop .qword).2
      ((step p position).run m) := by
  have hlt : position < p.length := (List.getElem?_eq_some_iff.1 hh).1
  rw [run_step hh (run_perform_jnz hop position m)]
  by_cases hzero : m.peek .qword 0 = 0
  · rw [if_pos hzero, run_proceed_fallThrough rfl]
    by_cases hnext : position + 1 < p.length
    · rw [run_goTo_inside hnext]
      exact .onward (fun hflag => hflag hzero) hnext
    · rw [run_goTo_outside hnext false (run_restoreRegisters _)]
      exact .behind (fun hflag => hflag hzero) (by omega)
  · rw [if_neg hzero]
    cases hat : p.positionAt? h.data with
    | some next =>
      rw [run_proceed_taken (by decide) (Program.branchTarget_of_some hat)
        (Program.lt_of_positionAt? hat)]
      exact .taken hzero hat
    | none =>
      have hbranch : p.branchTarget h.data position = .error (.unresolvedBranch h.data position) :=
        Program.branchTarget_of_none hat
      rw [proceed, if_neg (by decide), hbranch,
        Action.run_bind_of_error (Action.run_ofExcept_error _ _)]
      exact .unresolved hzero hat

/-- The condition may be said in other words. -/
theorem BranchStep.congr {target : Word} {flag flag' : Prop} {m : Simulator}
    {result : EStateM.Result Halt Simulator Progress}
    (h : BranchStep p position target flag m result)
    (hflag : flag ↔ flag') : BranchStep p position target flag' m result :=
  propext hflag ▸ h

/-- **Arithmetic decides the branch behind it.** Whatever is on the stack and wherever the stack is,
an arithmetic handler replaces its operands by the result modulo the size of their width and by the
flag word. If a branch follows, it is taken, or cannot be resolved, exactly if that result is zero.
The flag word is gone then and the result is on top, on a machine on which the native context is
popped in addition if the branch is the last handler and control falls through. -/
theorem arithmetic_decides_branch {h : Handler} {op : BinaryOp} {w : Width}
    (harithmetic : h.opcode.arithmetic? = some (op, w)) (position : Nat) (m : Simulator) :
    ∃ m₁, (h.perform position : Action Simulator (Outcome Word)).run m = .ok .next m₁ ∧
      Computes op w m m₁ ∧
      ∀ (p : Program) (j : Handler), p[position]? = some h → p[position + 1]? = some j →
        j.opcode = .jnz →
        (step p position).run m = .ok (.advance (position + 1) false) m₁ ∧
        ∃ m₂ : Simulator, m₂.vsp = m.vsp + .ofNat w.bytes ∧
          ((m₂.peek w 0).toNat : Int) = m.resultOf op w % 2 ^ w.bits ∧
          BranchStep p (position + 1) j.data (m.resultOf op w % 2 ^ w.bits = 0) m₂
            ((step p (position + 1)).run m₁) := by
  obtain ⟨m₁, hperform, hcomputes⟩ := computes_of_arithmetic harithmetic position m
  refine ⟨m₁, hperform, hcomputes, ?_⟩
  intro p j hh hj hop
  have hlt : position + 1 < p.length := (List.getElem?_eq_some_iff.1 hj).1
  have hfirst : (step p position).run m = .ok (.advance (position + 1) false) m₁ := by
    rw [run_step hh hperform]
    exact run_goTo_inside hlt false m₁
  refine ⟨hfirst, (m₁.pop .qword).2, ?_, ?_, ?_⟩
  · show m₁.vsp + 8 = _
    rw [hcomputes.vsp, UInt64.sub_add_cancel]
  · rw [peek_pop]
    exact hcomputes.result
  · refine (branchStep_of_jnz hj hop m₁).congr ?_
    rw [hcomputes.flag]
    split
    · exact ⟨fun _ => by assumption, fun _ => by decide⟩
    · exact ⟨fun h => absurd rfl h, fun h => absurd h (by assumption)⟩

/-- Compares two values and goes back to the comparison as long as they are equal. -/
def comparing : Program :=
  [.entry 0x10 0,
    { opcode := .xor32, data := 0, address := 0x14, dispatch := 0, width := 4 },
    { opcode := .jnz, data := 0x14, address := 0x18, dispatch := 0, width := 12 },
    { opcode := .vmExit, data := 0, address := 0x24, dispatch := 0, width := 4 }]

/-- A machine with two equal values on its stack, the lower one at the beginning of the address
space and the upper one at its end. -/
def straddling : Simulator :=
  ({ Simulator.new 2048 32 with vsp := 4 }.push .dword 0x80000007).push .dword 0x80000007

/-- The two values are equal, so the result is zero and the branch goes back. The stack is at the
end of the address space and comes around it. -/
theorem arithmetic_decides_branch_straddling :
    ∃ m₁ m₂, Opcode.arithmetic? .xor32 = some (.xor, .dword) ∧
      (step comparing 1).run straddling = .ok (.advance 2 false) m₁ ∧
        Computes .xor .dword straddling m₁ ∧
      (step comparing 2).run m₁ = .ok (.advance 1 true) m₂ ∧ m₂.vsp = 0 ∧ m₂.peek .dword 0 = 0 := by
  have hzero : straddling.resultOf .xor .dword % 2 ^ Width.dword.bits = 0 := by decide +kernel
  have hvsp : straddling.vsp + .ofNat Width.dword.bytes = 0 := by decide +kernel
  obtain ⟨m₁, -, hcomputes, hbranch⟩ := arithmetic_decides_branch
    (h := { opcode := .xor32, data := 0, address := 0x14, dispatch := 0, width := 4 })
    rfl 1 straddling
  obtain ⟨hfirst, m₂, hvsp₂, htop, hsecond⟩ := hbranch comparing _ rfl rfl rfl
  rw [hzero] at htop
  refine ⟨m₁, m₂, rfl, hfirst, hcomputes, ?_, hvsp₂.trans hvsp,
    UInt64.toNat_inj.1 (Int.ofNat.inj htop)⟩
  generalize (step comparing (1 + 1)).run m₁ = result at hsecond
  cases hsecond with
  | taken _ hat =>
    have htarget : comparing.positionAt? 0x14 = some 1 := by decide
    cases htarget.symm.trans hat
    rfl
  | unresolved _ hat => cases hat
  | onward hflag => exact absurd hzero hflag
  | behind hflag => exact absurd hzero hflag

/-- Adds two numbers and ends in the branch on their sum. -/
def summing : Program :=
  [.entry 0x10 0,
    { opcode := .push64, data := 2, address := 0x14, dispatch := 0, width := 12 },
    { opcode := .push64, data := 3, address := 0x20, dispatch := 0, width := 12 },
    { opcode := .add64, data := 0, address := 0x2c, dispatch := 0, width := 4 },
    { opcode := .jnz, data := 0x14, address := 0x30, dispatch := 0, width := 12 }]

/-- The exception is needed: behind a branch at the end of the program that is not taken, the words
of the native context have been popped, the result with them, so it is on top of the stack no
longer. -/
theorem result_not_always_on_top :
    ¬ ∀ (p : Program) (position : Nat) (h j : Handler) (op : BinaryOp) (w : Width)
      (m m₁ : Simulator),
      h.opcode.arithmetic? = some (op, w) → p[position]? = some h → p[position + 1]? = some j →
      j.opcode = .jnz → (step p position).run m = .ok (.advance (position + 1) false) m₁ →
      (((Action.finalState ((step p (position + 1)).run m₁)).peek w 0).toNat : Int)
        = m.resultOf op w % 2 ^ w.bits := by
  intro hall
  have hanswer : Action.answer?
      ((step summing 3).run (((Simulator.new 2048 32).push .qword 2).push .qword 3))
        = some (.advance 4 false) := by decide +kernel
  obtain ⟨m₁, hfirst⟩ := Action.exists_of_answer hanswer
  have hm₁ : m₁ = Action.finalState
      ((step summing 3).run (((Simulator.new 2048 32).push .qword 2).push .qword 3)) := by
    rw [hfirst]
    rfl
  have hsum := hall summing 3 _ _ .add .qword _ m₁ rfl rfl rfl rfl hfirst
  rw [hm₁] at hsum
  exact absurd hsum (by decide +kernel)

end Simulator

end CodeRecovery
