/-
The code of a handler does what the handler does.

The compiler and the simulator carry out the same handler side by side: the code written so far, run
from where the block was entered, leads to a state that agrees with the simulator. The compiler
hands out names instead of values. The name of a register stands for the register's value only until
the next instruction is carried out, while a temporary is written once and an immediate never
changes; `Lasting` tells them apart.

Temporaries are numbered in 32 bits. A block starts at zero and a handler takes few of them, so the
numbers do not run out, and a fresh temporary differs from those handed out before.
-/
import CodeRecovery.Proofs.Routine.Emission

set_option autoImplicit false

namespace CodeRecovery.Routine

namespace Agrees

variable {st : State} {m : Simulator}

/-- Temporaries are not compared. -/
theorem setTemporary (h : Agrees st m) (index : UInt32) (w : Width) (x : Word) :
    Agrees (st.setTemporary index w x) m :=
  ⟨h.memory, h.sp, h.registers, h.vregs⟩

/-- Native registers are kept alike on both sides. -/
theorem setRegister (h : Agrees st m) (r : SavedRegister) (x : Word) :
    Agrees (st.setRegister r x) (m.setRegister r x) where
  memory := h.memory
  sp := h.sp
  registers := by
    funext r'
    simp only [State.setRegister, Simulator.setRegister, h.registers]
  vregs := h.vregs

/-- Registers are numbered in 32 bits, so no two of them get in each other's way. -/
theorem setVreg (h : Agrees st m) (hfits : m.vregs.size ≤ UInt32.size) {index : Nat}
    (hindex : index < m.vregs.size) (x : Word) :
    Agrees (st.setVreg (UInt32.ofNat index) x)
      { m with vregs := m.vregs.setIfInBounds index x } where
  memory := h.memory
  sp := h.sp
  registers := h.registers
  vregs := by
    intro i hi
    have hi' : i < m.vregs.size := by simpa using hi
    have hsmall : ∀ {k : Nat}, k < m.vregs.size → (UInt32.ofNat k).toNat = k := by
      intro k hk
      exact UInt32.toNat_ofNat_of_lt' (Nat.lt_of_lt_of_le hk hfits)
    by_cases heq : i = index
    · subst heq
      simp [State.setVreg]
    · have hne : UInt32.ofNat i ≠ UInt32.ofNat index := by
        intro hsame
        apply heq
        rw [← hsmall hi', ← hsmall hindex, hsame]
      simp only [State.setVreg, if_neg hne]
      rw [Array.getElem_setIfInBounds_ne (h := Ne.symm heq)]
      exact h.vregs i hi'

end Agrees

namespace State

variable {st st' : State} {m : Simulator} {o dst : Operand} {w w' : Width} {x y : Word}

/-! ## Operands -/

/-- A width is found by its bits, in the size that operands have. -/
theorem ofBits?_bits (w : Width) : Width.ofBits? (UInt32.ofNat w.bits).toNat = some w := by
  cases w <;> rfl

/-- What an operand of a width stands for. -/
theorem eval_eq (hwidth : o.width? = some w) (hcontent : st.content w o = some x) :
    st.eval o = some (w, w.cut x) := by
  rw [eval, hwidth, Option.bind_eq_bind, Option.bind_some, hcontent]
  rfl

/-- The width of a temporary is that of its name. -/
theorem width?_temporary (index : UInt32) (w : Width) :
    (Backend.temporary index w).width? = some w :=
  ofBits?_bits w

/-- The value of each kind of operand. A temporary has the value that was written to it, at the
width it was written with. -/
theorem eval_temporary {index : UInt32} (h : st.temporaries index = some (w, x))
    (hcut : w.cut x = x) : st.eval (Backend.temporary index w) = some (w, x) := by
  have hcontent : st.content w (Backend.temporary index w) = some x := by
    simp [content, Backend.temporary, h]
  rw [eval_eq (width?_temporary index w) hcontent, hcut]

theorem eval_constantOf (w : Width) (n : Word) :
    st.eval (Backend.constantOf w n) = some (w, w.cut n) := by
  have hwidth : (Backend.constantOf w n).width? = some w := ofBits?_bits w
  rw [eval_eq (x := w.cut n) hwidth rfl, Width.cut_cut]

/-- Of a virtual register only the low bits count. -/
theorem eval_vregOf (index : Nat) (w : Width) :
    st.eval (Backend.vregOf index w.bits) = some (w, w.cut (st.vregs (UInt32.ofNat index))) :=
  eval_eq (ofBits?_bits w) rfl

theorem eval_stackPointer : st.eval .stackPointer = some (.qword, st.sp) := by
  rw [eval_eq (w := .qword) (x := st.sp) rfl rfl, Width.cut_qword]

theorem eval_native (r : Gpr) : st.eval (.native r) = some (.qword, st.registers (.gpr r)) := by
  rw [eval_eq rfl (st.content_native .qword r), Width.cut_qword]

theorem assign_native (r : Gpr) (x : Word) :
    st.assign (.native r) (fun _ => some x) = some (st.setRegister (.gpr r) x) := by
  have hassign : st.assign (.native r) (fun _ => some x) = st.put (.native (.whole r)) .qword x :=
    rfl
  rw [hassign, put_whole]

theorem word_eq (h : st.eval o = some (.qword, x)) : st.word o = some x := by
  rw [word, h]

theorem word_word (x : Word) : st.word (.word x) = some x := by
  refine word_eq ?_
  rw [eval_eq (w := .qword) (x := x) rfl rfl, Width.cut_qword]

/-- An operand that stands for the same value whatever happens, short of writing to one of the first
`n` temporaries. -/
def Lasting (n : Nat) : Operand → Prop
  | .immediate .. => True
  | .register (.temporary index) _ => index.toNat < n
  | .register .. => False

theorem Lasting.mono {n n' : Nat} (h : Lasting n o) (hle : n ≤ n') : Lasting n' o := by
  match o, h with
  | .immediate .., _ => exact trivial
  | .register (.temporary _) _, h => exact Nat.lt_of_lt_of_le h hle

/-- It does, because an immediate is its own value and only temporaries are left. -/
theorem eval_of_lasting {n : Nat} (h : Lasting n o)
    (hkeep : ∀ index : UInt32, index.toNat < n → st'.temporaries index = st.temporaries index) :
    st'.eval o = st.eval o := by
  have hcontent : ∀ w, st'.content w o = st.content w o := by
    intro w
    match o, h with
    | .immediate .., _ => rfl
    | .register (.temporary index) _, h => simp only [content, hkeep index h]
  simp only [eval, hcontent]

/-! ## Instructions -/

/-- Writing a temporary, at its own width. -/
theorem assign_temporary {f : Width → Option Word} (index : UInt32) (hf : f w = some x) :
    st.assign (Backend.temporary index w) f = some (st.setTemporary index w x) := by
  simp only [assign, Backend.temporary, Operand.width?, Operand.bits, ofBits?_bits,
    Option.bind_eq_bind, Option.bind_some, hf]
  rfl

/-- Pushes and pops on both sides. Temporaries stay as they are. -/
theorem push_eq (hw : w ≠ .bit) (h : Agrees st m) (x : Word) :
    ∃ st', st.push w x = some st' ∧ Agrees st' (m.push w x) ∧ st'.temporaries = st.temporaries := by
  have hbytes : w.bits / 8 = w.bytes := by
    cases w with
    | bit => exact absurd rfl hw
    | dword | qword => rfl
  rw [push, if_neg hw, hbytes, h.sp, h.memory]
  exact ⟨_, rfl, ⟨rfl, rfl, h.registers, h.vregs⟩, rfl⟩

theorem pop_eq (hw : w ≠ .bit) (h : Agrees st m) :
    ∃ st', st.pop w = some ((m.pop w).1, st') ∧ Agrees st' (m.pop w).2 ∧
      st'.temporaries = st.temporaries := by
  have hbytes : w.bits / 8 = w.bytes := by
    cases w with
    | bit => exact absurd rfl hw
    | dword | qword => rfl
  rw [pop, if_neg hw, hbytes, h.sp, h.memory]
  exact ⟨_, rfl, ⟨rfl, rfl, h.registers, h.vregs⟩, rfl⟩

section

variable {src base offset lhs rhs : Operand} {a k : Word}

/-- The instructions whose operands are known, one lemma for each. A move takes a value to a width
that is not smaller. -/
theorem exec_mov (hsrc : st.eval src = some (w, x)) :
    st.exec (.mov, [dst, src]) = st.assign dst fun w' =>
      if w.bits ≤ w'.bits then some x else none := by
  change (st.eval src >>= _) = _
  rw [hsrc]
  rfl

theorem exec_movsx (hsrc : st.eval src = some (w, x)) :
    st.exec (.movsx, [dst, src])
      = st.assign dst fun w' =>
        if w.bits ≤ w'.bits then some (w'.cut (w.signExtend x)) else none := by
  change (st.eval src >>= _) = _
  rw [hsrc]
  rfl

theorem exec_te : st.exec (.te, [dst, lhs, rhs]) = st.compare (· == ·) dst lhs rhs := rfl

theorem exec_tne : st.exec (.tne, [dst, lhs, rhs]) = st.compare (· != ·) dst lhs rhs := rfl

theorem exec_ldd (hbase : st.word base = some a) (hoffset : st.word offset = some k) :
    st.exec (.ldd, [dst, base, offset])
      = st.assign dst fun w => if w = .bit then none else some (st.memory.read w (a + k)) := by
  change (st.word base >>= fun a => st.word offset >>= _) = _
  rw [hbase, hoffset]
  rfl

/-- A store writes memory at the sum of two words, of which the compiler has one zero. -/
theorem exec_str (hw : w ≠ .bit) (hbase : st.word base = some a) (hoffset : st.word offset = some k)
    (hsrc : st.eval src = some (w, x)) :
    st.exec (.str, [base, offset, src])
      = some { st with memory := st.memory.write w (a + k) x } := by
  change (st.word base >>= fun a => st.word offset >>= fun k => st.eval src >>= _) = _
  rw [hbase, hoffset, hsrc]
  exact if_neg hw

theorem exec_push (hsrc : st.eval src = some (w, x)) : st.exec (.push, [src]) = st.push w x := by
  change (st.eval src >>= _) = _
  rw [hsrc]
  rfl

theorem exec_pop (hwidth : dst.width? = some w) (hpop : st.pop w = some (x, st')) :
    st.exec (.pop, [dst]) = st'.assign dst fun _ => some x := by
  change (dst.width? >>= fun w => st.pop w >>= _) = _
  rw [hwidth, Option.bind_eq_bind, Option.bind_some, hpop]
  rfl

theorem exec_popf (hpop : st.pop .qword = some (x, st')) :
    st.exec (.popf, []) = some (st'.setRegister .flags x) := by
  change (st.pop .qword >>= _) = _
  rw [hpop]
  rfl

end

theorem execAll_singleton (c : Code) : st.execAll [c] = st.exec c := by
  rw [execAll]
  cases st.exec c with
  | none => rfl
  | some st' => rfl

end State

/-! ## With the simulator -/

namespace Backend

open StackOps State

/-- The code of the current block leads from `st₀` to where the simulator is. There is room for `n`
more temporaries; a value that is held is not the name of a register. -/
def meaningOf (st₀ : State) (registers : Nat) : Correspondence Backend Operand Simulator Word where
  State n b s := (b.virtualRegisters = registers ∧ s.vregs.size = registers) ∧
    b.block.nextTemporary.toNat + n < UInt32.size ∧
    ∃ st, st₀.execAll b.block.code = some st ∧ Agrees st s
  Now b _ w v x := ∃ st, st₀.execAll b.block.code = some st ∧ st.eval v = some (w, x)
  Held b _ w v x := Lasting b.block.nextTemporary.toNat v ∧
    ∃ st, st₀.execAll b.block.code = some st ∧ st.eval v = some (w, x)

variable {st₀ st st' : State} {registers n : Nat} {b : Backend} {s s' : Simulator}
  {code : List Code} {count : Nat} {w : Width} {v : Operand} {x : Word}

/-- What a value stands for is what it evaluates to. There is one state that the code leads to. -/
theorem eval_of_now (hst : st₀.execAll b.block.code = some st)
    (h : ∃ st₁, st₀.execAll b.block.code = some st₁ ∧ st₁.eval v = some (w, x)) :
    st.eval v = some (w, x) := by
  obtain ⟨st₁, hst₁, heval⟩ := h
  obtain rfl := Option.some.inj (hst₁.symm.trans hst)
  exact heval

/-- Adding code that does what the simulator does keeps the correspondence. The code may write to a
fresh temporary, but to none that was handed out before. -/
theorem meaning_joint {α β : Type} {R : Backend → Simulator → α → β → Prop} {a : α} {a' : β}
    {z : Action Backend α} {y : Action Simulator β}
    (hstate : (meaningOf st₀ registers).State (n + 1) b s)
    (hst : st₀.execAll b.block.code = some st) (hwrites : Writes z b a code count)
    (hcount : count ≤ 1) (hsim : y.run s = .ok a' s') (hexec : st.execAll code = some st')
    (hagrees : Agrees st' s') (hsize : s'.vregs.size = s.vregs.size)
    (hkeep : ∀ index : UInt32, index.toNat < b.block.nextTemporary.toNat →
      st'.temporaries index = st.temporaries index)
    (hR : ∀ b' : Backend, b'.block.nextTemporary.toNat = b.block.nextTemporary.toNat + count →
      st₀.execAll b'.block.code = some st' → R b' s' a a') :
    (meaningOf st₀ registers).Joint n b s R (z.run b) (y.run s) := by
  obtain ⟨⟨hregisters, hregisters'⟩, hroom, -⟩ := hstate
  have hnumbers : UInt32.size = 4294967296 := rfl
  obtain ⟨b', hrun, hemits⟩ := hwrites
  have hcode : st₀.execAll b'.block.code = some st' := by
    rw [hemits.block.code, execAll_append, hst]
    exact hexec
  -- There is room for one more number, so the counter does not wrap.
  have htemporary : b'.block.nextTemporary.toNat = b.block.nextTemporary.toNat + count := by
    rw [hemits.block.temporaries, UInt32.toNat_add, UInt32.toNat_ofNat',
      Nat.mod_eq_of_lt (by omega), Nat.mod_eq_of_lt (by omega)]
  rw [hrun, hsim]
  refine .ok ⟨⟨hemits.virtualRegisters.trans hregisters, hsize.trans hregisters'⟩, ?_, st', hcode,
    hagrees⟩ ?_ (hR b' htemporary hcode)
  · omega
  · rintro w v x ⟨hlasting, hnow⟩
    refine ⟨hlasting.mono (by omega), st', hcode, ?_⟩
    rw [eval_of_lasting hlasting hkeep]
    exact eval_of_now hst hnow

/-- Adding code that writes a value to a fresh temporary, which may then be held. -/
theorem meaning_fresh {z : Action Backend Operand} {y : Action Simulator Word}
    (hstate : (meaningOf st₀ registers).State (n + 1) b s)
    (hst : st₀.execAll b.block.code = some st) (hwrites : Writes z b (b.fresh w) code 1)
    (hsim : y.run s = .ok x s') (hexec : st.execAll code = some st') (hagrees : Agrees st' s')
    (hsize : s'.vregs.size = s.vregs.size)
    (hvalue : st'.temporaries = (st.setTemporary b.block.nextTemporary w x).temporaries)
    (hcut : w.cut x = x) :
    (meaningOf st₀ registers).Joint n b s ((meaningOf st₀ registers).Held · · w)
      (z.run b) (y.run s) := by
  refine meaning_joint hstate hst hwrites (Nat.le_refl 1) hsim hexec hagrees hsize ?_ ?_
  -- Only the fresh temporary is written, and its number is above all that were handed out.
  · intro index hindex
    have hne : index ≠ b.block.nextTemporary := by
      rintro rfl
      exact Nat.lt_irrefl _ hindex
    rw [hvalue]
    exact if_neg hne
  · intro b' htemporary hcode
    refine ⟨?_, st', hcode, eval_temporary ?_ hcut⟩
    · have hlt : b.block.nextTemporary.toNat < b'.block.nextTemporary.toNat := by omega
      exact hlt
    · rw [hvalue]
      exact if_pos rfl

/-! ### One operation at a time -/

/-- A push may take the name of a register, since it is used at once. -/
theorem meaning_push (hw : w ≠ .bit) (hstate : (meaningOf st₀ registers).State (n + 1) b s)
    (hv : (meaningOf st₀ registers).Now b s w v x) :
    (meaningOf st₀ registers).Joint n b s (fun _ _ _ _ => True) ((push w v).run b)
      ((push w x).run s) := by
  obtain ⟨-, -, st, hst, hagrees⟩ := id hstate
  obtain ⟨st', hpush, hagrees', htemporaries⟩ := push_eq hw hagrees x
  have hexec : st.execAll [(.push, [v])] = some st' := by
    rw [execAll_singleton, exec_push (eval_of_now hst hv), hpush]
  exact meaning_joint hstate hst (writes_push b w v) (Nat.zero_le 1) rfl hexec hagrees' rfl
    (fun index _ => congrFun htemporaries index) fun _ _ _ => trivial

theorem meaning_pop (hw : w ≠ .bit) (hstate : (meaningOf st₀ registers).State (n + 1) b s) :
    (meaningOf st₀ registers).Joint n b s ((meaningOf st₀ registers).Held · · w)
      ((pop w : Action Backend Operand).run b) ((pop w : Action Simulator Word).run s) := by
  obtain ⟨-, -, st, hst, hagrees⟩ := id hstate
  obtain ⟨st₁, hpop, hagrees₁, htemporaries⟩ := pop_eq hw hagrees
  let st' := st₁.setTemporary b.block.nextTemporary w (s.pop w).1
  have hexec : st.execAll [(.pop, [b.fresh w])] = some st' := by
    have hwidth : (b.fresh w).width? = some w := width?_temporary _ w
    rw [execAll_singleton, exec_pop hwidth hpop]
    exact assign_temporary _ rfl
  refine meaning_fresh hstate hst (writes_pop b w) rfl hexec (hagrees₁.setTemporary ..) rfl ?_
    (Memory.cut_read s.memory hw s.vsp)
  simp only [st', setTemporary, htemporaries]
  rfl

theorem meaning_getVreg {index : Nat} (hstate : (meaningOf st₀ registers).State (n + 1) b s)
    (hindex : index < registers) :
    (meaningOf st₀ registers).Joint n b s ((meaningOf st₀ registers).Now · · w)
      ((getVreg w index : Action Backend Operand).run b)
      ((getVreg w index : Action Simulator Word).run s) := by
  obtain ⟨⟨-, hsize⟩, -, st, hst, hagrees⟩ := id hstate
  have hindex' : index < s.vregs.size := hsize.symm ▸ hindex
  -- No code is written: the register's name is handed out, which is why its value is not held.
  refine meaning_joint hstate hst (.pure b _) (Nat.zero_le 1) (Simulator.run_getVreg hindex' w)
    rfl hagrees rfl (fun _ _ => rfl) ?_
  intro b' _ hcode
  refine ⟨st, hcode, ?_⟩
  rw [eval_vregOf, hagrees.vregs index hindex']

/-- A narrow value is widened by the move; the simulator cuts it first, which is the same. -/
theorem meaning_setVreg {index : Nat} (hfits : registers ≤ UInt32.size)
    (hstate : (meaningOf st₀ registers).State (n + 1) b s) (hindex : index < registers)
    (hv : (meaningOf st₀ registers).Now b s w v x) :
    (meaningOf st₀ registers).Joint n b s (fun _ _ _ _ => True) ((setVreg w index v).run b)
      ((setVreg w index x).run s) := by
  obtain ⟨⟨-, hsize⟩, -, st, hst, hagrees⟩ := id hstate
  have hindex' : index < s.vregs.size := hsize.symm ▸ hindex
  have heval := eval_of_now hst hv
  have hwide : w.bits ≤ Width.qword.bits := by cases w <;> decide
  have hexec : st.execAll [(.mov, [vregOf index 64, v])]
      = some (st.setVreg (UInt32.ofNat index) x) := by
    rw [execAll_singleton, exec_mov heval]
    simp only [Option.bind_eq_bind, vregOf, assign, Operand.width?, Operand.bits]
    rw [show Width.ofBits? (UInt32.ofNat 64).toNat = some .qword from rfl, Option.bind_some,
      if_pos hwide]
    rfl
  have hsim := Simulator.run_setVreg hindex' w x
  rw [cut_of_eval heval] at hsim
  exact meaning_joint hstate hst (writes_setVreg b w v index) (Nat.zero_le 1) hsim hexec
    (hagrees.setVreg (hsize.symm ▸ hfits) hindex' x) (by simp) (fun _ _ => rfl) fun _ _ _ => trivial

theorem meaning_getVsp (hstate : (meaningOf st₀ registers).State (n + 1) b s) :
    (meaningOf st₀ registers).Joint n b s ((meaningOf st₀ registers).Now · · .qword)
      ((getVsp : Action Backend Operand).run b) ((getVsp : Action Simulator Word).run s) := by
  obtain ⟨-, -, st, hst, hagrees⟩ := id hstate
  have hsim : (getVsp : Action Simulator Word).run s = .ok s.vsp s := rfl
  refine meaning_joint hstate hst (.pure b _) (Nat.zero_le 1) hsim rfl hagrees rfl
    (fun _ _ => rfl) ?_
  intro b' _ hcode
  refine ⟨st, hcode, ?_⟩
  rw [eval_stackPointer, hagrees.sp]

theorem meaning_setVsp (hstate : (meaningOf st₀ registers).State (n + 1) b s)
    (hv : (meaningOf st₀ registers).Now b s .qword v x) :
    (meaningOf st₀ registers).Joint n b s (fun _ _ _ _ => True) ((setVsp v).run b)
      ((setVsp x).run s) := by
  obtain ⟨-, -, st, hst, hagrees⟩ := id hstate
  have hexec : st.execAll [(.mov, [.stackPointer, v])] = some { st with sp := x } := by
    rw [execAll_singleton, exec_mov (eval_of_now hst hv)]
    rfl
  exact meaning_joint hstate hst (writes_setVsp b v) (Nat.zero_le 1) rfl hexec
    ⟨hagrees.memory, rfl, hagrees.registers, hagrees.vregs⟩ rfl (fun _ _ => rfl)
      fun _ _ _ => trivial

/-- What is held still stands after a fresh temporary is written. -/
theorem eval_setTemporary {w' : Width} {y : Word} (hst : st₀.execAll b.block.code = some st)
    (hv : (meaningOf st₀ registers).Held b s w v x) :
    (st.setTemporary b.block.nextTemporary w' y).eval v = some (w, x) := by
  obtain ⟨hlasting, hnow⟩ := hv
  rw [← eval_of_now hst hnow]
  refine eval_of_lasting hlasting ?_
  intro index hindex
  refine if_neg ?_
  rintro rfl
  exact Nat.lt_irrefl _ hindex

/-- The operations that combine two operands are one family. -/
theorem exec_ofBinary (op : BinaryOp) (dst src : Operand) :
    st.exec (.ofBinary op, [dst, src]) = st.update op dst src := by
  cases op <;> rfl

/-- The copy goes to the fresh temporary, which neither operand is; so the second still stands when
it is combined. -/
theorem meaning_binary (op : BinaryOp) {v' : Operand} {x' : Word}
    (hstate : (meaningOf st₀ registers).State (n + 1) b s)
    (hv : (meaningOf st₀ registers).Held b s w v x)
    (hv' : (meaningOf st₀ registers).Held b s w v' x') :
    (meaningOf st₀ registers).Joint n b s ((meaningOf st₀ registers).Held · · w)
      ((binary op w v v').run b) ((binary op w x x').run s) := by
  obtain ⟨-, -, st, hst, hagrees⟩ := id hstate
  let index := b.block.nextTemporary
  let st₁ := st.setTemporary index w x
  have heval := eval_of_now hst hv.2
  -- The operation works in place, so the left operand is copied to the fresh temporary first.
  have hmov : st.exec (.mov, [b.fresh w, v]) = some st₁ := by
    rw [exec_mov heval]
    exact assign_temporary index (if_pos (Nat.le_refl _))
  have hresult : st₁.eval (b.fresh w) = some (w, x) :=
    eval_temporary (if_pos rfl) (cut_of_eval heval)
  have hupdate : st₁.exec (.ofBinary op, [b.fresh w, v'])
      = some (st₁.setTemporary index w (op.apply w x x')) := by
    rw [exec_ofBinary, update, hresult, eval_setTemporary hst hv']
    simp only [Option.bind_eq_bind, Option.bind_some, if_true]
    exact assign_temporary index rfl
  have hexec : st.execAll [(.mov, [b.fresh w, v]), (.ofBinary op, [b.fresh w, v'])]
      = some (st₁.setTemporary index w (op.apply w x x')) := by
    rw [execAll, hmov, Option.bind_eq_bind, Option.bind_some, execAll_singleton, hupdate]
  refine meaning_fresh hstate hst (writes_binary b w v v' op) rfl hexec
    ((hagrees.setTemporary ..).setTemporary ..) rfl ?_ (Width.cut_cut w _)
  funext i
  by_cases hi : i = index
  · simp [setTemporary, hi, index]
  · simp [setTemporary, st₁, hi, index]

/-- One instruction that writes to a fresh temporary and changes nothing else. Extensions, tests and
loads are such. -/
theorem meaning_result {z : Action Backend Operand} {y : Action Simulator Word} {c : Code}
    (hstate : (meaningOf st₀ registers).State (n + 1) b s)
    (hst : st₀.execAll b.block.code = some st) (hagrees : Agrees st s)
    (hwrites : Writes z b (b.fresh w) [c] 1) (hsim : y.run s = .ok x s)
    (hexec : st.exec c = some (st.setTemporary b.block.nextTemporary w x)) (hcut : w.cut x = x) :
    (meaningOf st₀ registers).Joint n b s ((meaningOf st₀ registers).Held · · w)
      (z.run b) (y.run s) :=
  meaning_fresh hstate hst hwrites hsim ((execAll_singleton c).trans hexec)
    (hagrees.setTemporary ..) rfl rfl hcut

theorem meaning_signExtend (hstate : (meaningOf st₀ registers).State (n + 1) b s)
    (hv : (meaningOf st₀ registers).Held b s w v x) :
    (meaningOf st₀ registers).Joint n b s ((meaningOf st₀ registers).Held · · .qword)
      ((signExtend w v).run b) ((signExtend w x).run s) := by
  obtain ⟨-, -, st, hst, hagrees⟩ := id hstate
  have hwide : w.bits ≤ Width.qword.bits := by cases w <;> decide
  refine meaning_result hstate hst hagrees (writes_signExtend b w v) rfl ?_ (Width.cut_qword _)
  rw [exec_movsx (eval_of_now hst hv.2)]
  refine assign_temporary _ ?_
  rw [if_pos hwide, Width.cut_qword]

/-- A comparison of what is held with zero. -/
theorem compare_zero (holds : Word → Word → Bool) (hst : st₀.execAll b.block.code = some st)
    (hv : (meaningOf st₀ registers).Held b s w v x) :
    st.compare holds (b.fresh .bit) v (constantOf w 0)
      = some (st.setTemporary b.block.nextTemporary .bit (if holds x 0 then 1 else 0)) := by
  have hzero : w.cut 0 = 0 := by cases w <;> rfl
  simp only [State.compare, eval_of_now hst hv.2, eval_constantOf, hzero, Option.bind_eq_bind,
    Option.bind_some, if_true]
  exact assign_temporary _ rfl

theorem meaning_testZero (hstate : (meaningOf st₀ registers).State (n + 1) b s)
    (hv : (meaningOf st₀ registers).Held b s w v x) :
    (meaningOf st₀ registers).Joint n b s ((meaningOf st₀ registers).Held · · .bit)
      ((testZero w v).run b) ((testZero w x).run s) := by
  obtain ⟨-, -, st, hst, hagrees⟩ := id hstate
  refine meaning_result hstate hst hagrees (writes_testZero b w v) rfl ?_ (by split <;> rfl)
  rw [exec_te, compare_zero _ hst hv, cut_of_eval (eval_of_now hst hv.2)]
  simp only [beq_iff_eq]

theorem meaning_testNonzero (hstate : (meaningOf st₀ registers).State (n + 1) b s)
    (hv : (meaningOf st₀ registers).Held b s w v x) :
    (meaningOf st₀ registers).Joint n b s ((meaningOf st₀ registers).Held · · .bit)
      ((testNonzero w v).run b) ((testNonzero w x).run s) := by
  obtain ⟨-, -, st, hst, hagrees⟩ := id hstate
  refine meaning_result hstate hst hagrees (writes_testNonzero b w v) rfl ?_ (by split <;> rfl)
  rw [exec_tne, compare_zero _ hst hv, cut_of_eval (eval_of_now hst hv.2)]
  by_cases hx : x = 0
  · simp [hx]
  · simp [hx]

theorem meaning_load (hw : w ≠ .bit) (hstate : (meaningOf st₀ registers).State (n + 1) b s)
    (hv : (meaningOf st₀ registers).Held b s .qword v x) :
    (meaningOf st₀ registers).Joint n b s ((meaningOf st₀ registers).Held · · w)
      ((load w v).run b) ((load w x).run s) := by
  obtain ⟨-, -, st, hst, hagrees⟩ := id hstate
  have hsim : (load w x : Action Simulator Word).run s = .ok (s.memory.read w x) s := rfl
  refine meaning_result hstate hst hagrees (writes_load b w v) hsim ?_ (Memory.cut_read _ hw _)
  rw [exec_ldd (word_eq (eval_of_now hst hv.2)) (word_word 0)]
  refine assign_temporary _ ?_
  rw [if_neg hw, UInt64.add_zero, hagrees.memory]

theorem meaning_store {v' : Operand} {x' : Word} (hw : w ≠ .bit)
    (hstate : (meaningOf st₀ registers).State (n + 1) b s)
    (hv : (meaningOf st₀ registers).Held b s .qword v x)
    (hv' : (meaningOf st₀ registers).Held b s w v' x') :
    (meaningOf st₀ registers).Joint n b s (fun _ _ _ _ => True) ((store w v v').run b)
      ((store w x x').run s) := by
  obtain ⟨-, -, st, hst, hagrees⟩ := id hstate
  have hexec : st.execAll [(.str, [v, .word 0, v'])]
      = some { st with memory := s.memory.write w x x' } := by
    rw [execAll_singleton, exec_str hw (word_eq (eval_of_now hst hv.2)) (word_word 0)
      (eval_of_now hst hv'.2), UInt64.add_zero, hagrees.memory]
  exact meaning_joint hstate hst (writes_store b w v v') (Nat.zero_le 1) rfl hexec
    ⟨rfl, hagrees.sp, hagrees.registers, hagrees.vregs⟩ rfl (fun _ _ => rfl) fun _ _ _ => trivial

/-! ### The native context -/

/-- Saving registers, on both sides. By the registers; the stacks are the same after each. -/
theorem exec_saveCode (rs : List SavedRegister) (h : Agrees st s) :
    ∃ st' s', st.execAll (rs.map saveCode) = some st' ∧
      (rs.forM saveRegister : Action Simulator PUnit).run s = .ok () s' ∧ Agrees st' s' ∧
      s'.vregs = s.vregs ∧ st'.temporaries = st.temporaries := by
  induction rs generalizing st s with
  | nil => exact ⟨st, s, rfl, rfl, h, rfl, rfl⟩
  | cons r rest ih =>
    obtain ⟨st₁, hpush, h₁, htemporaries₁⟩ :=
      push_eq (w := .qword) (by decide) h (s.registers r)
    obtain ⟨st', s', hrest, hsim, h', hvregs, htemporaries⟩ := ih h₁
    have hexec : st.exec (saveCode r) = some st₁ := by
      rw [← hpush, ← h.registers]
      cases r with
      | flags => rfl
      | gpr r => rw [saveCode, exec_push (eval_native r)]
    have hsave : (saveRegister r : Action Simulator PUnit).run s
        = .ok () (s.push .qword (s.registers r)) := rfl
    refine ⟨st', s', ?_, ?_, h', hvregs.trans (Simulator.vregs_push ..),
      htemporaries.trans htemporaries₁⟩
    · rw [List.map_cons, execAll, hexec]
      exact hrest
    · rw [List.forM, Action.run_bind_of_ok hsave, hsim]

/-- Restoring registers, on both sides, register by register. -/
theorem exec_restoreCode (rs : List SavedRegister) (h : Agrees st s) :
    ∃ st' s', st.execAll (rs.map restoreCode) = some st' ∧
      (rs.forM restoreRegister : Action Simulator PUnit).run s = .ok () s' ∧ Agrees st' s' ∧
      s'.vregs = s.vregs ∧ st'.temporaries = st.temporaries := by
  induction rs generalizing st s with
  | nil => exact ⟨st, s, rfl, rfl, h, rfl, rfl⟩
  | cons r rest ih =>
    obtain ⟨st₁, hpop, h₁, htemporaries₁⟩ := pop_eq (w := .qword) (by decide) h
    obtain ⟨st', s', hrest, hsim, h', hvregs, htemporaries⟩ :=
      ih (h₁.setRegister r (s.pop .qword).1)
    have hexec : st.exec (restoreCode r) = some (st₁.setRegister r (s.pop .qword).1) := by
      cases r with
      | flags => rw [restoreCode, exec_popf hpop]
      | gpr r =>
        have hwidth : (Operand.native r).width? = some .qword := rfl
        rw [restoreCode, exec_pop hwidth hpop, assign_native]
    have hrestore : (restoreRegister r : Action Simulator PUnit).run s
        = .ok () ((s.pop .qword).2.setRegister r (s.pop .qword).1) := rfl
    refine ⟨st', s', ?_, ?_, h', hvregs, htemporaries.trans htemporaries₁⟩
    · rw [List.map_cons, execAll, hexec]
      exact hrest
    · rw [List.forM, Action.run_bind_of_ok hrestore, hsim]

theorem meaning_saveRegisters (hstate : (meaningOf st₀ registers).State (n + 1) b s) :
    (meaningOf st₀ registers).Joint n b s (fun _ _ _ _ => True)
      ((saveRegisters : Action Backend Unit).run b)
      ((saveRegisters : Action Simulator Unit).run s) := by
  obtain ⟨-, -, st, hst, hagrees⟩ := id hstate
  obtain ⟨st', s', hexec, hsim, hagrees', hvregs, htemporaries⟩ :=
    exec_saveCode SavedRegister.pushOrder hagrees
  exact meaning_joint hstate hst (writes_saveRegisters b) (Nat.zero_le 1) hsim hexec hagrees'
    (congrArg Array.size hvregs) (fun index _ => congrFun htemporaries index) fun _ _ _ => trivial

theorem meaning_restoreRegisters (hstate : (meaningOf st₀ registers).State (n + 1) b s) :
    (meaningOf st₀ registers).Joint n b s (fun _ _ _ _ => True)
      ((restoreRegisters : Action Backend Unit).run b)
      ((restoreRegisters : Action Simulator Unit).run s) := by
  obtain ⟨-, -, st, hst, hagrees⟩ := id hstate
  obtain ⟨st', s', hexec, hsim, hagrees', hvregs, htemporaries⟩ :=
    exec_restoreCode SavedRegister.popOrder hagrees
  exact meaning_joint hstate hst (writes_restoreRegisters b) (Nat.zero_le 1) hsim hexec hagrees'
    (congrArg Array.size hvregs) (fun index _ => congrFun htemporaries index) fun _ _ _ => trivial

/-- The routine compiler, coupled with the simulator. The file of registers has to be numbered in 32
bits. -/
def meaning (st₀ : State) {registers : Nat} (hfits : registers ≤ UInt32.size) :
    Coupling Backend Operand Simulator Word where
  toCorrespondence := meaningOf st₀ registers
  now_of_held h := h.2
  weaken h := ⟨h.1, Nat.lt_of_succ_lt h.2.1, h.2.2⟩
  registers := registers
  virtualRegisters h := h.1
  constant {n b s} w c hstate := by
    obtain ⟨-, -, st, hst, hagrees⟩ := id hstate
    exact meaning_joint hstate hst (.pure b _) (Nat.zero_le 1) rfl rfl hagrees rfl (fun _ _ => rfl)
      fun _ _ hcode => ⟨trivial, st, hcode, eval_constantOf w c⟩
  push hw hstate hv := meaning_push hw hstate hv
  pop hw hstate := meaning_pop hw hstate
  getVreg _ hstate hindex := meaning_getVreg hstate hindex
  setVreg _ hstate hindex hv := meaning_setVreg hfits hstate hindex hv
  getVsp hstate := meaning_getVsp hstate
  setVsp hstate hv := meaning_setVsp hstate hv
  binary {_ _ _} op {_ _ _ _ _} hstate hv hv' := meaning_binary op hstate hv hv'
  signExtend _ hstate hv := meaning_signExtend hstate hv
  testZero hstate hv := meaning_testZero hstate hv
  testNonzero hstate hv := meaning_testNonzero hstate hv
  load hw hstate hv := meaning_load hw hstate hv
  store hw hstate hv hv' := meaning_store hw hstate hv hv'
  saveRegisters hstate := meaning_saveRegisters hstate
  restoreRegisters hstate := meaning_restoreRegisters hstate

/-- **The code of a handler does what the handler does on the simulator**, and the condition of a
branch is the bit that the simulator branches by. -/
theorem Body.exec {h : Handler} {position : Nat} {outcome : Outcome Operand}
    (hbody : Body registers h position outcome code) (hfits : registers ≤ UInt32.size)
    (hagrees : Agrees st s) (hsize : s.vregs.size = registers) :
    ∃ st' outcome' s', st.execAll code = some st' ∧
      (h.perform position : Action Simulator (Outcome Word)).run s = .ok outcome' s' ∧
      Agrees st' s' ∧ s'.vregs.size = registers ∧
      Outcome.Same (fun condition x => st'.eval condition = some (.bit, x)) outcome outcome' := by
  obtain ⟨b, b', hregisters, hcode, htemporary, hrun, rfl⟩ := hbody.run
  have hstate : (meaning st hfits).State 8 b s := by
    refine ⟨⟨hregisters, hsize⟩, ?_, st, ?_, hagrees⟩
    · rw [htemporary]
      decide
    · rw [hcode]
      rfl
  have hjoint := (meaning st hfits).perform_joint (n := 0) h position hstate
  rw [hrun] at hjoint
  generalize hsim : (h.perform position : Action Simulator (Outcome Word)).run s = result at hjoint
  cases hjoint with
  | ok hstate' _ hsame =>
    obtain ⟨⟨-, hsize'⟩, -, st', hst', hagrees'⟩ := hstate'
    exact ⟨st', _, _, hst', rfl, hagrees', hsize',
      hsame.mono fun _ _ hheld => eval_of_now hst' hheld.2⟩

end Backend

end CodeRecovery.Routine
