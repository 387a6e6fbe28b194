/-
The code of a handler does what the simulator does.

The graph compiler is coupled with the simulator. Their states correspond when the code written so
far in the current block, run from a state in front of the block, leads to a state that agrees with
the simulator; a value stands for a word when it evaluates to it there. The state in front of the
block is arbitrary and fixed throughout, which is what a block that is entered again and again
needs.
-/
import CodeRecovery.Proofs.Graph.Meaning

set_option autoImplicit false

namespace CodeRecovery.Graph

/-! ## Code leaves old values alone -/

namespace State

variable {st st' : State}

/-- An instruction changes no value but the one it assigns. -/
theorem values_of_exec {i : Instruction} (h : st.exec i = some st') {id : Nat}
    (hid : i.assigned? ≠ some id) : st'.values id = st.values id := by
  have hassign : ∀ {dst : Nat} {v : Value}, some dst ≠ some id →
      (st.assign dst v).values id = st.values id :=
    fun hne => if_neg fun (heq : id = _) => hne (by rw [heq])
  -- The first cases assign; a store to a register or to memory changes no value.
  cases i with
  | alloca dst bytes =>
    cases h
    exact hassign hid
  | loadRegister dst register =>
    cases h
    exact hassign hid
  | movePtr dst base offset =>
    obtain ⟨_, _, h⟩ := Option.bind_eq_some_iff.1 h
    cases h
    exact hassign hid
  | load dst type ptr =>
    obtain ⟨_, _, h⟩ := Option.bind_eq_some_iff.1 h
    cases h
    exact hassign hid
  | cast dst op value type =>
    obtain ⟨_, _, h⟩ := Option.bind_eq_some_iff.1 h
    obtain ⟨_, _, h⟩ := Option.bind_eq_some_iff.1 h
    cases h
    exact hassign hid
  | binary dst op lhs rhs =>
    obtain ⟨⟨w, a⟩, _, h⟩ := Option.bind_eq_some_iff.1 h
    obtain ⟨⟨w', b⟩, _, h⟩ := Option.bind_eq_some_iff.1 h
    obtain ⟨_, h⟩ := Option.ite_none_right_eq_some.1 h
    cases h
    exact hassign hid
  | icmp dst comparison lhs rhs =>
    obtain ⟨⟨w, a⟩, _, h⟩ := Option.bind_eq_some_iff.1 h
    obtain ⟨⟨w', b⟩, _, h⟩ := Option.bind_eq_some_iff.1 h
    obtain ⟨_, h⟩ := Option.ite_none_right_eq_some.1 h
    cases h
    exact hassign hid
  | storeRegister register value =>
    obtain ⟨⟨w, bits⟩, _, h⟩ := Option.bind_eq_some_iff.1 h
    obtain ⟨_, h⟩ := Option.ite_none_right_eq_some.1 h
    cases h
    rfl
  | store value ptr =>
    obtain ⟨v, _, h⟩ := Option.bind_eq_some_iff.1 h
    obtain ⟨target, _, h⟩ := Option.bind_eq_some_iff.1 h
    rcases v with _ | ⟨⟨_ | _, _⟩⟩ <;> cases h <;> rfl

/-- Tidy code changes none of the values it finds. -/
theorem values_of_execAll {n n' : Nat} {code : List Instruction} (htidy : Tidy n code n')
    (h : st.execAll code = some st') {id : Nat} (hid : id < n) : st'.values id = st.values id := by
  induction code generalizing n st with
  | nil =>
    rw [execAll, Option.some.injEq] at h
    rw [h]
  | cons i rest ih =>
    rw [execAll, Option.bind_eq_bind, Option.bind_eq_some_iff] at h
    obtain ⟨st₁, hexec, hrest⟩ := h
    have htail := htidy.2
    cases hi : i.assigned? with
    | none =>
      rw [hi] at htail
      rw [ih htail hrest hid, values_of_exec hexec (by simp [hi])]
    | some dst =>
      rw [hi] at htail
      obtain ⟨rfl, htail⟩ := htail
      rw [ih htail hrest (Nat.lt_succ_of_lt hid), values_of_exec hexec]
      rw [hi]
      exact fun heq => absurd (Option.some.inj heq) (Nat.ne_of_gt hid)

/-- So an operand that names old values evaluates as before, whatever tidy code is run in
between. -/
theorem eval_of_execAll {n n' : Nat} {code : List Instruction} (htidy : Tidy n code n')
    (h : st.execAll code = some st') {o : Operand} (ho : o.Below n) : st'.eval o = st.eval o :=
  eval_congr fun _ hid => values_of_execAll htidy h (ho _ hid)

/-- The type of an operand is that of its value. A value of another type than the operand has does
not count as its value. -/
theorem type_of_eval {o : Operand} {v : Value} (h : st.eval o = some v) : o.type = v.type := by
  cases o with
  | value id type =>
    rw [eval, Option.filter_eq_some_iff] at h
    exact (of_decide_eq_true h.2).symm
  | const type bits => cases type <;> cases h <;> rfl

end State

namespace Backend

/-! ## With the simulator -/

/-- The code written so far leads from `st₀` to where the simulator is. What is held stays with the
value it had, because tidy code does not assign old values. -/
def meaningOf (st₀ : State) (registers : Nat) : Correspondence Backend Operand Simulator Word where
  State _ b s := Placed b ∧ (b.virtualRegisters = registers ∧ s.vregs.size = registers) ∧
    ∃ st, st₀.execAll b.written = some st ∧ Related st s
  Now b _ w v x := v.Below b.nextValue ∧ w.cut x = x ∧
    ∃ st, st₀.execAll b.written = some st ∧ st.eval v = some (.int w x)
  Held b _ w v x := v.Below b.nextValue ∧ w.cut x = x ∧
    ∃ st, st₀.execAll b.written = some st ∧ st.eval v = some (.int w x)

section

open StackOps

variable {st₀ st st' : State} {registers m m' : Nat} {b : Backend} {s s' : Simulator}
  {code : List Instruction} {count : Nat}

/-- Code that is added is run behind the code that is there. -/
theorem execAll_emitted (count : Nat) (hplaced : Placed b) (hst : st₀.execAll b.written = some st)
    (hexec : st.execAll code = some st') :
    st₀.execAll (b.emitted code count).written = some st' := by
  rw [written_emitted hplaced, State.execAll_append, hst]
  exact hexec

/-- **Adding tidy code that does what the simulator does keeps the correspondence.** Each operation
below is of this form: what its code does was said for any state, and the state here is the one that
the code so far leads to. -/
theorem meaning_joint {α β : Type} {R : Backend → Simulator → α → β → Prop} {a : α} {a' : β}
    {x : Action Backend α} {y : Action Simulator β} (hstate : (meaningOf st₀ registers).State m b s)
    (hst : st₀.execAll b.written = some st) (hrun : x.run b = .ok a (b.emitted code count))
    (hsim : y.run s = .ok a' s') (htidy : Tidy b.nextValue code (b.nextValue + count))
    (hexec : st.execAll code = some st') (hrel : Related st' s')
    (hsize : s'.vregs.size = s.vregs.size) (hR : R (b.emitted code count) s' a a') :
    (meaningOf st₀ registers).Joint m' b s R (x.run b) (y.run s) := by
  obtain ⟨hplaced, ⟨hregisters, hregisters'⟩, -⟩ := hstate
  have hexec' := execAll_emitted count hplaced hst hexec
  rw [hrun, hsim]
  refine .ok ⟨hplaced.emitted .., ⟨hregisters, hsize.trans hregisters'⟩, st', hexec', hrel⟩ ?_ hR
  -- What was held names old values, which tidy code leaves alone.
  rintro w v x ⟨hbelow, hcut, st₁, hst₁, heval⟩
  obtain rfl : st₁ = st := Option.some.inj (hst₁.symm.trans hst)
  exact ⟨hbelow.mono (Nat.le_add_right _ _), hcut, st', hexec',
    (State.eval_of_execAll htidy hexec hbelow).trans heval⟩

/-- What a value stands for is what it evaluates to. There is one state that the code leads to, so
it does not matter for which one it was said. -/
theorem eval_of_held {w : Width} {v : Operand} {x : Word} (hst : st₀.execAll b.written = some st)
    (h : (meaningOf st₀ registers).Held b s w v x) : st.eval v = some (.int w x) := by
  obtain ⟨-, -, st₁, hst₁, heval⟩ := h
  obtain rfl : st₁ = st := Option.some.inj (hst₁.symm.trans hst)
  exact heval

/-- A value that code has just assigned, for the operations that give one. -/
theorem held_emitted (registers : Nat) (s' : Simulator) {w : Width} {id : Nat} {x : Word}
    (hplaced : Placed b) (hst : st₀.execAll b.written = some st)
    (hexec : st.execAll code = some st') (hid : id < b.nextValue + count) (hcut : w.cut x = x)
    (heval : st'.eval (.value id (.ofWidth w)) = some (.int w x)) :
    (meaningOf st₀ registers).Held (b.emitted code count) s' w (.value id (.ofWidth w)) x :=
  ⟨Operand.below_value.2 hid, hcut, st', execAll_emitted _ hplaced hst hexec, heval⟩

/-- A push, and in the same way each operation that is more than one instruction. -/
theorem meaning_push {w : Width} {v : Operand} {x : Word}
    (hstate : (meaningOf st₀ registers).State m b s)
    (hv : (meaningOf st₀ registers).Held b s w v x) :
    (meaningOf st₀ registers).Joint m' b s (fun _ _ _ _ => True) ((push w v).run b)
      ((push w x).run s) := by
  obtain ⟨hplaced, -, st, hst, hrel⟩ := id hstate
  obtain ⟨st', hexec, hrel'⟩ := exec_pushCode hrel hplaced.values (eval_of_held hst hv) hv.1
  rw [← hplaced.slot] at hexec
  exact meaning_joint hstate hst (run_push b w v) rfl (tidy_pushCode w hplaced.below_vspSlot hv.1)
    hexec hrel' rfl trivial

theorem meaning_pop {w : Width} (hw : w ≠ .bit) (hstate : (meaningOf st₀ registers).State m b s) :
    (meaningOf st₀ registers).Joint m' b s ((meaningOf st₀ registers).Held · · w) ((pop w).run b)
      ((pop w).run s) := by
  obtain ⟨hplaced, -, st, hst, hrel⟩ := id hstate
  obtain ⟨st', hexec, hrel', heval⟩ := exec_popCode hrel hplaced.values hw
  rw [← hplaced.slot] at hexec
  exact meaning_joint hstate hst (run_pop b w) rfl
    (tidy_popCode w hplaced.below_vspSlot) hexec hrel'
    rfl (held_emitted _ _ hplaced hst hexec (by omega) (Memory.cut_read _ hw _) heval)

theorem meaning_getVreg {w : Width} (hw : w ≠ .bit) {index : Nat}
    (hstate : (meaningOf st₀ registers).State m b s) (hindex : index < registers) :
    (meaningOf st₀ registers).Joint m' b s ((meaningOf st₀ registers).Held · · w)
      ((getVreg w index).run b) ((getVreg w index).run s) := by
  obtain ⟨hplaced, ⟨-, hsize⟩, st, hst, hrel⟩ := id hstate
  have hindex' : index < s.vregs.size := hsize ▸ hindex
  obtain ⟨st', hexec, hrel', heval⟩ := exec_getVregCode hrel hplaced.values hw hindex'
  rw [← hplaced.file] at hexec
  exact meaning_joint hstate hst (run_getVreg b w index) (Simulator.run_getVreg hindex' w)
    (tidy_getVregCode w index hplaced.below_vregs) hexec hrel' rfl
    (held_emitted _ _ hplaced hst hexec (by omega) (Width.cut_cut w _) heval)

/-- Writing a register has two codes, by the width of the value. -/
theorem meaning_setVreg {w : Width} {index : Nat} {v : Operand} {x : Word}
    (hstate : (meaningOf st₀ registers).State m b s) (hindex : index < registers)
    (hv : (meaningOf st₀ registers).Held b s w v x) :
    (meaningOf st₀ registers).Joint m' b s (fun _ _ _ _ => True)
      ((setVreg w index v).run b) ((setVreg w index x).run s) := by
  obtain ⟨hplaced, ⟨-, hsize⟩, st, hst, hrel⟩ := id hstate
  have hindex' : index < s.vregs.size := hsize ▸ hindex
  have hsim := Simulator.run_setVreg hindex' w x
  rw [hv.2.1] at hsim
  -- A whole register is stored as it is, a narrow value is widened first.
  by_cases hw : w = .qword
  · subst hw
    obtain ⟨st', hexec, hrel'⟩ :=
      exec_setWideVregCode hrel hplaced.values hindex' (eval_of_held hst hv) hv.1
    rw [← hplaced.file] at hexec
    exact meaning_joint hstate hst (run_setVreg_qword b index v) hsim
      (tidy_setWideVregCode index hplaced.below_vregs hv.1) hexec hrel' (by simp) trivial
  · obtain ⟨st', hexec, hrel'⟩ :=
      exec_setNarrowVregCode hrel hplaced.values hindex' hw (eval_of_held hst hv) hv.1
    rw [← hplaced.file] at hexec
    exact meaning_joint hstate hst (run_setVreg_narrow b hw index v) hsim
      (tidy_setNarrowVregCode index hplaced.below_vregs hv.1) hexec hrel' (by simp) trivial

theorem meaning_getVsp (hstate : (meaningOf st₀ registers).State m b s) :
    (meaningOf st₀ registers).Joint m' b s ((meaningOf st₀ registers).Held · · .qword)
      ((getVsp : Action Backend Operand).run b) ((getVsp : Action Simulator Word).run s) := by
  obtain ⟨hplaced, -, st, hst, hrel⟩ := id hstate
  obtain ⟨st', hexec, hrel', heval⟩ := exec_getVspCode hrel hplaced.values
  rw [← hplaced.slot] at hexec
  exact meaning_joint hstate hst (run_getVsp b) rfl (tidy_getVspCode hplaced.below_vspSlot) hexec
    hrel' rfl (held_emitted (w := .qword) _ _ hplaced hst hexec (by omega)
      (Width.cut_qword _) heval)

theorem meaning_setVsp {v : Operand} {x : Word} (hstate : (meaningOf st₀ registers).State m b s)
    (hv : (meaningOf st₀ registers).Held b s .qword v x) :
    (meaningOf st₀ registers).Joint m' b s (fun _ _ _ _ => True)
      ((setVsp v).run b) ((setVsp x).run s) := by
  obtain ⟨hplaced, -, st, hst, hrel⟩ := id hstate
  obtain ⟨st', hexec, hrel'⟩ := exec_setVspCode hrel hplaced.values (eval_of_held hst hv)
  rw [← hplaced.slot] at hexec
  exact meaning_joint hstate hst (run_setVsp b v) rfl (tidy_setVspCode hplaced.below_vspSlot hv.1)
    hexec hrel' rfl trivial

/-- An operation that is a single instruction and touches nothing but the value it assigns.
Arithmetic, extensions and tests are such. -/
theorem meaning_assign {w : Width} {x : Word} {i : Instruction} {op : Action Backend Operand}
    {op' : Action Simulator Word} (hstate : (meaningOf st₀ registers).State m b s)
    (hst : st₀.execAll b.written = some st)
    (hrun : op.run b = .ok (.value b.nextValue (.ofWidth w)) (b.emitted [i] 1))
    (hsim : op'.run s = .ok x s) (htidy : Tidy b.nextValue [i] (b.nextValue + 1))
    (hexec : st.exec i = some (st.assign b.nextValue (.int w x))) (hrel : Related st s)
    (hcut : w.cut x = x) :
    (meaningOf st₀ registers).Joint m' b s ((meaningOf st₀ registers).Held · · w) (op.run b)
      (op'.run s) := by
  have hplaced := hstate.1
  have hexec' := State.execAll_cons hexec (State.execAll_nil _)
  exact meaning_joint hstate hst hrun hsim htidy hexec' (hrel.assign hplaced.values _) rfl
    (held_emitted _ _ hplaced hst hexec' (by omega) hcut (State.eval_assign_int st b.nextValue w x))

theorem meaning_binary (op : BinaryOp) {w : Width} {lhs rhs : Operand} {x y : Word}
    (hstate : (meaningOf st₀ registers).State m b s)
    (hlhs : (meaningOf st₀ registers).Held b s w lhs x)
    (hrhs : (meaningOf st₀ registers).Held b s w rhs y) :
    (meaningOf st₀ registers).Joint m' b s ((meaningOf st₀ registers).Held · · w)
      ((binary op w lhs rhs).run b) ((binary op w x y).run s) := by
  obtain ⟨-, -, st, hst, hrel⟩ := id hstate
  have hevalLhs := eval_of_held hst hlhs
  have htype : lhs.type = .ofWidth w := State.type_of_eval hevalLhs
  have hrun := run_binary b op w lhs rhs
  rw [htype] at hrun
  exact meaning_assign hstate hst hrun rfl
    (tidy_singleton rfl (by simp [Instruction.operands, hlhs.1, hrhs.1]))
    (State.exec_binary hevalLhs (eval_of_held hst hrhs)) hrel (Width.cut_cut w _)

/-- Widening a bit or a doubleword is what the simulator calls extending the sign. -/
theorem cast_sext {w : Width} (hw : w ≠ .qword) (x : Word) :
    (Value.int w x).cast .sext .i64 = some (.int .qword (w.signExtend x)) := by
  cases w with
  | qword => exact absurd rfl hw
  | bit | dword => simp [Value.cast, Ty.width?, Width.bits, Value.ofWord]

theorem meaning_signExtend {w : Width} (hw : w ≠ .qword) {v : Operand} {x : Word}
    (hstate : (meaningOf st₀ registers).State m b s)
    (hv : (meaningOf st₀ registers).Held b s w v x) :
    (meaningOf st₀ registers).Joint m' b s ((meaningOf st₀ registers).Held · · .qword)
      ((signExtend w v).run b) ((signExtend w x).run s) := by
  obtain ⟨-, -, st, hst, hrel⟩ := id hstate
  exact meaning_assign hstate hst (run_signExtend b w v) rfl
    (tidy_singleton rfl (by simp [Instruction.operands, hv.1]))
    (State.exec_cast (eval_of_held hst hv) (cast_sext hw x)) hrel (Width.cut_qword _)

/-- The simulator cuts the value to its width and compares with zero; the instruction compares at
that width, where it is cut already. -/
theorem meaning_testZero {w : Width} {v : Operand} {x : Word}
    (hstate : (meaningOf st₀ registers).State m b s)
    (hv : (meaningOf st₀ registers).Held b s w v x) :
    (meaningOf st₀ registers).Joint m' b s ((meaningOf st₀ registers).Held · · .bit)
      ((testZero w v).run b) ((testZero w x).run s) := by
  obtain ⟨-, -, st, hst, hrel⟩ := id hstate
  have hexec : st.exec (.icmp b.nextValue .eq v (.const (.ofWidth w) 0)) = _ :=
    State.exec_icmp (eval_of_held hst hv) (State.eval_zero w)
  have hresult : (if w.cut x = 0 then 1 else 0 : Word)
      = if Comparison.eq.holds x 0 then 1 else 0 := by
    rw [hv.2.1]
    simp [Comparison.holds]
  rw [← hresult] at hexec
  exact meaning_assign (w := .bit) hstate hst (run_testZero b w v) rfl
    (tidy_singleton rfl (by simp [Instruction.operands, hv.1])) hexec hrel (by split <;> rfl)

theorem meaning_testNonzero {w : Width} {v : Operand} {x : Word}
    (hstate : (meaningOf st₀ registers).State m b s)
    (hv : (meaningOf st₀ registers).Held b s w v x) :
    (meaningOf st₀ registers).Joint m' b s ((meaningOf st₀ registers).Held · · .bit)
      ((testNonzero w v).run b) ((testNonzero w x).run s) := by
  obtain ⟨-, -, st, hst, hrel⟩ := id hstate
  have hexec : st.exec (.icmp b.nextValue .ne v (.const (.ofWidth w) 0)) = _ :=
    State.exec_icmp (eval_of_held hst hv) (State.eval_zero w)
  have hresult : (if w.cut x = 0 then 0 else 1 : Word)
      = if Comparison.ne.holds x 0 then 1 else 0 := by
    rw [hv.2.1]
    by_cases hx : x = 0 <;> simp [Comparison.holds, hx]
  rw [← hresult] at hexec
  exact meaning_assign (w := .bit) hstate hst (run_testNonzero b w v) rfl
    (tidy_singleton rfl (by simp [Instruction.operands, hv.1])) hexec hrel (by split <;> rfl)

theorem meaning_load {w : Width} (hw : w ≠ .bit) {v : Operand} {x : Word}
    (hstate : (meaningOf st₀ registers).State m b s)
    (hv : (meaningOf st₀ registers).Held b s .qword v x) :
    (meaningOf st₀ registers).Joint m' b s ((meaningOf st₀ registers).Held · · w)
      ((load w v).run b) ((load w x).run s) := by
  obtain ⟨hplaced, -, st, hst, hrel⟩ := id hstate
  obtain ⟨st', hexec, hrel', heval⟩ := exec_loadCode hrel hplaced.values hw (eval_of_held hst hv)
  exact meaning_joint hstate hst (run_load b w v) rfl (tidy_loadCode w hv.1) hexec hrel' rfl
    (held_emitted _ _ hplaced hst hexec (by omega) (Memory.cut_read _ hw _) heval)

theorem meaning_store {w : Width} {v v' : Operand} {x x' : Word}
    (hstate : (meaningOf st₀ registers).State m b s)
    (hv : (meaningOf st₀ registers).Held b s .qword v x)
    (hv' : (meaningOf st₀ registers).Held b s w v' x') :
    (meaningOf st₀ registers).Joint m' b s (fun _ _ _ _ => True)
      ((store w v v').run b) ((store w x x').run s) := by
  obtain ⟨hplaced, -, st, hst, hrel⟩ := id hstate
  obtain ⟨st', hexec, hrel'⟩ :=
    exec_storeCode hrel hplaced.values (eval_of_held hst hv) (eval_of_held hst hv') hv'.1
  exact meaning_joint hstate hst (run_store b w v v') rfl
    (tidy_storeCode hv.1 hv'.1) hexec hrel' rfl
    trivial

/-- A constant is an operand, so no code is needed and the numbering stays. -/
theorem meaning_constant (w : Width) (c : Word) (hstate : (meaningOf st₀ registers).State m b s) :
    (meaningOf st₀ registers).Joint m b s ((meaningOf st₀ registers).Held · · w)
      ((constant w c).run b) ((constant w c).run s) := by
  obtain ⟨-, -, st, hst, -⟩ := id hstate
  refine .ok hstate (Correspondence.Later.refl _ _)
    ⟨Operand.below_const, Width.cut_cut w c, st, hst, ?_⟩
  cases w <;> simp [State.eval, Ty.ofWidth, Value.ofWord]

theorem meaning_saveRegisters (hstate : (meaningOf st₀ registers).State m b s) :
    (meaningOf st₀ registers).Joint m' b s (fun _ _ _ _ => True)
      ((saveRegisters : Action Backend Unit).run b)
      ((saveRegisters : Action Simulator Unit).run s) := by
  obtain ⟨hplaced, -, st, hst, hrel⟩ := id hstate
  obtain ⟨st', s', hexec, hsim, hrel', hvregs⟩ :=
    exec_saveCode SavedRegister.pushOrder hrel hplaced.values
  rw [← hplaced.slot] at hexec
  exact meaning_joint hstate hst (run_saveRegisters b) hsim
    (tidy_saveCode SavedRegister.pushOrder hplaced.below_vspSlot) hexec hrel'
      (by rw [hvregs]) trivial

theorem meaning_restoreRegisters (hstate : (meaningOf st₀ registers).State m b s) :
    (meaningOf st₀ registers).Joint m' b s (fun _ _ _ _ => True)
      ((restoreRegisters : Action Backend Unit).run b)
      ((restoreRegisters : Action Simulator Unit).run s) := by
  obtain ⟨hplaced, -, st, hst, hrel⟩ := id hstate
  obtain ⟨st', s', hexec, hsim, hrel', hvregs⟩ := exec_epilogue hrel hplaced.values
  rw [← hplaced.slot] at hexec
  exact meaning_joint hstate hst (run_restoreRegisters b) hsim
    (tidy_restoreCode SavedRegister.popOrder hplaced.below_vspSlot) hexec hrel'
      (by rw [hvregs]) trivial

end

/-- The graph compiler, coupled with the simulator: one line for each operation. -/
def meaning (st₀ : State) (registers : Nat) : Coupling Backend Operand Simulator Word where
  toCorrespondence := meaningOf st₀ registers
  now_of_held h := h
  weaken h := h
  registers := registers
  virtualRegisters h := h.2.1
  constant w c hstate := meaning_constant w c hstate
  push _ hstate hv := meaning_push hstate hv
  pop hw hstate := meaning_pop hw hstate
  getVreg hw hstate hindex := meaning_getVreg hw hstate hindex
  setVreg _ hstate hindex hv := meaning_setVreg hstate hindex hv
  getVsp hstate := meaning_getVsp hstate
  setVsp hstate hv := meaning_setVsp hstate hv
  binary {_ _ _} op {_ _ _ _ _} hstate hlhs hrhs := meaning_binary op hstate hlhs hrhs
  signExtend hw hstate hv := meaning_signExtend hw hstate hv
  testZero hstate hv := meaning_testZero hstate hv
  testNonzero hstate hv := meaning_testNonzero hstate hv
  load hw hstate hv := meaning_load hw hstate hv
  store _ hstate hv hv' := meaning_store hstate hv hv'
  saveRegisters hstate := meaning_saveRegisters hstate
  restoreRegisters hstate := meaning_restoreRegisters hstate

/-- **The code of a handler does what the handler does on the simulator**, from any two states that
are related. A branch is taken on one side if it is on the other, since its condition evaluates to
the same bit. -/
theorem Body.exec {registers n n' position : Nat} {h : Handler} {outcome : Outcome Operand}
    {code : List Instruction} (hbody : Body registers n h position outcome code n') {st : State}
    {s : Simulator} (hrel : Related st s) (hsize : s.vregs.size = registers) :
    ∃ st' outcome' s', st.execAll code = some st' ∧
      (h.perform position : Action Simulator (Outcome Word)).run s = .ok outcome' s' ∧
      Related st' s' ∧ s'.vregs.size = registers ∧
      Outcome.Same (fun condition bits => st'.eval condition = some (.int .bit bits))
        outcome outcome' := by
  obtain ⟨b, count, hplaced, hwritten, hregisters, -, hrun, -⟩ := hbody
  have hstate : (meaning st registers).State 8 b s :=
    ⟨hplaced, ⟨hregisters, hsize⟩, st, by rw [hwritten]; rfl, hrel⟩
  have hjoint := (meaning st registers).perform_joint (n := 0) h position hstate
  rw [hrun] at hjoint
  generalize hsim : (h.perform position : Action Simulator (Outcome Word)).run s = result at hjoint
  -- The compiler succeeded, so the simulator does.
  cases hjoint with
  | ok hstate' _ hsame =>
    obtain ⟨-, ⟨-, hsize'⟩, st', hst', hrel'⟩ := id hstate'
    have hexec : st.execAll code = some st' := by
      rw [written_emitted hplaced, hwritten] at hst'
      exact hst'
    exact ⟨st', _, _, hexec, rfl, hrel', hsize', hsame.mono fun _ _ => eval_of_held hst'⟩

end Backend

end CodeRecovery.Graph
