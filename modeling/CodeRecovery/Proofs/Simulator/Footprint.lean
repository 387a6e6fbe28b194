/-
What a handler changes on the simulator.

A handler takes values from the top of the stack and then puts values there, and how many bytes of
each its instruction tells. `Moves` is that for any run of pops and then pushes: where the stack
pointer ends up, and that every byte outside of what was pushed is as before. `footprint` is the
conclusion for all instructions. Two of them do more than move the stack: one also stores to an
address it popped, and one replaces the stack pointer.

All of this is modulo the size of the address space, so a byte is outside of a range when its
distance from the start of the range, going up, is at least the length of the range.
-/
import CodeRecovery.Proofs.Coupling
import CodeRecovery.Proofs.Memory
import CodeRecovery.Proofs.Stepping

set_option autoImplicit false

namespace CodeRecovery

/-- Seen from some bytes further up, everything beyond them is nearer by as much. -/
theorem Memory.distance_add_left {start a : Word} {count : Nat} (h : count ≤ distance start a) :
    distance (start + UInt64.ofNat count) a = distance start a - count := by
  have hstart := start.toNat_lt
  have ha := a.toNat_lt
  have hcount : count < UInt64.size := Nat.lt_of_le_of_lt h (a - start).toNat_lt
  rw [distance_eq] at h ⊢
  rw [distance_eq, UInt64.toNat_add, UInt64.toNat_ofNat_of_lt' hcount]
  unfold UInt64.size at *
  omega

namespace Simulator

open Memory (distance)

variable {m m₁ m' : Simulator} {popped pushed : Nat}

/-- From `m` to `m'` some bytes were taken from the stack and then some were put there. Nothing was
written but what was put there. -/
structure Moves (m m' : Simulator) (popped pushed : Nat) : Prop where
  vsp : m'.vsp = m.vsp + UInt64.ofNat popped - UInt64.ofNat pushed
  registers : m'.registers = m.registers
  memory : ∀ a, pushed ≤ distance m'.vsp a → m'.memory.byte a = m.memory.byte a

namespace Moves

theorem refl (m : Simulator) : Moves m m 0 0 where
  vsp := by simp
  registers := rfl
  memory _ _ := rfl

/-- Pops come before pushes, so nothing has been written yet. -/
theorem pop (h : Moves m m₁ popped 0) (w : Width) : Moves m (m₁.pop w).2 (popped + w.bytes) 0 where
  vsp := by
    have hvsp : (m₁.pop w).2.vsp = m₁.vsp + UInt64.ofNat w.bytes := rfl
    rw [hvsp, h.vsp, UInt64.ofNat_add, ← UInt64.add_assoc]
    simp
  registers := h.registers
  memory a _ := h.memory a (Nat.zero_le _)

/-- A push extends what was put there, downwards. A byte outside of it all is outside of the new
bytes too. -/
theorem push (h : Moves m m₁ popped pushed) (w : Width) (value : Word) :
    Moves m (m₁.push w value) popped (pushed + w.bytes) where
  vsp := by
    have hvsp : (m₁.push w value).vsp = m₁.vsp - UInt64.ofNat w.bytes := rfl
    rw [hvsp, h.vsp, UInt64.ofNat_add]
    simp only [UInt64.sub_eq_add_neg, UInt64.neg_add, UInt64.add_assoc]
  registers := h.registers
  memory := by
    intro a ha
    have hvsp : (m₁.push w value).vsp = m₁.vsp - UInt64.ofNat w.bytes := rfl
    have hback : (m₁.push w value).vsp + UInt64.ofNat w.bytes = m₁.vsp := by
      rw [hvsp, UInt64.sub_add_cancel]
    -- Beyond all that was pushed is beyond this value, and beyond what was pushed before it.
    have hdistance : distance m₁.vsp a = distance (m₁.push w value).vsp a - w.bytes := by
      rw [← hback]
      exact Memory.distance_add_left (by omega)
    have hmemory : (m₁.push w value).memory = m₁.memory.write w (m₁.push w value).vsp value := rfl
    rw [hmemory, Memory.write, Memory.byte_writeBytes _ _ _ _ _ (Memory.bytes_lt_size w),
      if_neg (by omega)]
    exact h.memory a (by omega)

/-- What stays the same when nothing but the virtual registers changes. -/
theorem setVregs (h : Moves m m₁ popped pushed) (vregs : Array Word) :
    Moves m { m₁ with vregs } popped pushed :=
  ⟨h.vsp, h.registers, h.memory⟩

end Moves

theorem moves_pop (m : Simulator) (w : Width) : Moves m (m.pop w).2 w.bytes 0 :=
  Nat.zero_add w.bytes ▸ (Moves.refl m).pop w

theorem moves_push (m : Simulator) (w : Width) (value : Word) :
    Moves m (m.push w value) 0 w.bytes :=
  Nat.zero_add w.bytes ▸ (Moves.refl m).push w value

/-- What is on top of the stack is what a pop gives. -/
theorem peek_zero (m : Simulator) (w : Width) : m.peek w 0 = (m.pop w).1 := by
  unfold peek
  rw [UInt64.add_zero]
  rfl

/-! ## The native context -/

/-- Pushes words one after the other. -/
def pushAll (m : Simulator) (values : List Word) : Simulator :=
  values.foldl (·.push .qword ·) m

theorem pushAll_cons (m : Simulator) (value : Word) (rest : List Word) :
    m.pushAll (value :: rest) = (m.push .qword value).pushAll rest := by
  rw [pushAll, List.foldl_cons, pushAll]

/-- Eight bytes for each word. -/
theorem Moves.pushAll (h : Moves m m₁ popped pushed) (values : List Word) :
    Moves m (m₁.pushAll values) popped (pushed + 8 * values.length) := by
  induction values generalizing m₁ pushed with
  | nil => exact h
  | cons value rest ih =>
    have hrest := ih (h.push .qword value)
    rw [Nat.add_assoc, Nat.add_comm, Nat.add_comm Width.qword.bytes] at hrest
    rw [pushAll_cons, List.length_cons, Nat.mul_succ, Nat.add_comm]
    exact hrest

/-- Saving registers pushes their words, in order. Pushing does not change a register, so they can
be looked up beforehand. -/
theorem run_forM_saveRegister (rs : List SavedRegister) (m : Simulator) :
    (rs.forM StackOps.saveRegister : Action Simulator PUnit).run m
      = .ok ⟨⟩ (m.pushAll (rs.map m.registers)) := by
  induction rs generalizing m with
  | nil => rfl
  | cons r rest ih =>
    have hsave : (StackOps.saveRegister r : Action Simulator Unit).run m
        = .ok () (m.push .qword (m.registers r)) := rfl
    have hregisters := ((Moves.refl m).push .qword (m.registers r)).registers
    rw [List.forM, Action.run_bind_of_ok hsave, ih, hregisters, List.map_cons, pushAll_cons]

theorem run_saveRegisters (m : Simulator) :
    (StackOps.saveRegisters : Action Simulator Unit).run m
      = .ok () (m.pushAll (SavedRegister.pushOrder.map m.registers)) :=
  run_forM_saveRegister SavedRegister.pushOrder m

/-- Pops words one after the other, each into its register. -/
def popAll (m : Simulator) (rs : List SavedRegister) : Simulator :=
  rs.foldl (fun m r => (m.pop .qword).2.setRegister r (m.pop .qword).1) m

/-- Restoring pops a word for each. -/
theorem run_restoreRegisters (m : Simulator) :
    (StackOps.restoreRegisters : Action Simulator Unit).run m
      = .ok () (m.popAll SavedRegister.popOrder) := by
  have hrestore : (StackOps.restoreRegisters : Action Simulator Unit)
      = SavedRegister.popOrder.forM StackOps.restoreRegister := rfl
  rw [hrestore]
  generalize SavedRegister.popOrder = rs
  induction rs generalizing m with
  | nil => rfl
  | cons r rest ih =>
    have hpop : (StackOps.restoreRegister r : Action Simulator Unit).run m
        = .ok () ((m.pop .qword).2.setRegister r (m.pop .qword).1) := rfl
    rw [List.forM, Action.run_bind_of_ok hpop, ih]
    rfl

/-- Popping moves the stack pointer up by eight bytes for each register. -/
theorem vsp_popAll (m : Simulator) (rs : List SavedRegister) :
    (m.popAll rs).vsp = m.vsp + UInt64.ofNat (8 * rs.length) := by
  induction rs generalizing m with
  | nil => exact (UInt64.add_zero m.vsp).symm
  | cons r rest ih =>
    have hfirst : m.popAll (r :: rest)
        = ((m.pop .qword).2.setRegister r (m.pop .qword).1).popAll rest := rfl
    have hvsp : ((m.pop .qword).2.setRegister r (m.pop .qword).1).vsp = m.vsp + UInt64.ofNat 8 :=
      rfl
    rw [hfirst, ih, hvsp, UInt64.add_assoc, ← UInt64.ofNat_add, List.length_cons, Nat.mul_succ,
      Nat.add_comm 8]

/-- Popping reads memory and does not write it. -/
theorem memory_popAll (m : Simulator) (rs : List SavedRegister) :
    (m.popAll rs).memory = m.memory := by
  induction rs generalizing m with
  | nil => rfl
  | cons r rest ih => exact ih _

/-! ## Families of instructions -/

section

variable {h : Handler} {position : Nat} {outcome : Outcome Word} {w : Width}

/-- Arithmetic takes two values of a width, and leaves one and a flag word. -/
theorem moves_performArithmetic {op : BinaryOp} (hw : w ≠ .bit)
    (hrun : (Handler.performArithmetic op w : Action Simulator (Outcome Word)).run m
      = .ok outcome m') :
    Moves m m' (w.bytes + w.bytes) (w.bytes + 8) := by
  obtain ⟨result, flag, hok⟩ : ∃ result flag,
      (Handler.performArithmetic op w : Action Simulator (Outcome Word)).run m
        = .ok .next ((((m.pop w).2.pop w).2.push w result).push .qword flag) := by
    cases w with
    | bit => exact absurd rfl hw
    | dword => exact ⟨_, _, rfl⟩
    | qword => exact ⟨_, _, rfl⟩
  rw [hok] at hrun
  cases hrun
  have hmoves := (((moves_pop m w).pop w).push w result).push .qword flag
  rw [Nat.zero_add] at hmoves
  exact hmoves

/-- The register a handler names is found before anything is changed. -/
theorem run_vreg_ok {index : Nat}
    (hrun : (h.vreg position : Action Simulator Nat).run m = .ok index m') :
    m' = m ∧ index < m.vregs.size := by
  have hget : (get : Action Simulator Simulator).run m = .ok m m := rfl
  rw [Handler.vreg, Action.run_bind_of_ok hget] at hrun
  by_cases hlt : h.data.toNat < m.vregs.size
  · rw [if_pos (show h.data.toNat < StackOps.virtualRegisters m from hlt)] at hrun
    cases hrun
    exact ⟨rfl, hlt⟩
  · rw [if_neg (show ¬ h.data.toNat < StackOps.virtualRegisters m from hlt)] at hrun
    cases hrun

/-- A pop into a virtual register takes one value. -/
theorem moves_performPopVreg
    (hrun : (h.performPopVreg w position : Action Simulator (Outcome Word)).run m
      = .ok outcome m') :
    Moves m m' w.bytes 0 := by
  obtain ⟨index, m₁, hvreg, hrest⟩ := Action.exists_of_run_bind_ok hrun
  obtain ⟨rfl, hlt⟩ := run_vreg_ok hvreg
  have hpop : (StackOps.pop w : Action Simulator Word).run m₁ = .ok (m₁.pop w).1 (m₁.pop w).2 := rfl
  have hlt' : index < (m₁.pop w).2.vregs.size := hlt
  rw [Action.run_bind_of_ok hpop, Action.run_bind_of_ok (run_setVreg hlt' w _)] at hrest
  cases hrest
  exact (moves_pop m₁ w).setVregs _

/-- A push of a virtual register leaves one value. -/
theorem moves_performPushVreg
    (hrun : (h.performPushVreg w position : Action Simulator (Outcome Word)).run m
      = .ok outcome m') :
    Moves m m' 0 w.bytes := by
  obtain ⟨index, m₁, hvreg, hrest⟩ := Action.exists_of_run_bind_ok hrun
  obtain ⟨rfl, hlt⟩ := run_vreg_ok hvreg
  rw [Action.run_bind_of_ok (run_getVreg hlt w)] at hrest
  cases hrest
  exact moves_push m₁ w _

/-- A load takes an address and leaves a value. -/
theorem moves_performLoad
    (hrun : (Handler.performLoad w : Action Simulator (Outcome Word)).run m = .ok outcome m') :
    Moves m m' 8 w.bytes := by
  obtain ⟨value, hok⟩ : ∃ value, (Handler.performLoad w : Action Simulator (Outcome Word)).run m
      = .ok .next ((m.pop .qword).2.push w value) := ⟨_, rfl⟩
  rw [hok] at hrun
  cases hrun
  have hmoves := (moves_pop m .qword).push w value
  rwa [Nat.zero_add] at hmoves

end

/-! ## All instructions -/

/-- What a handler with some use of the stack may change. One instruction replaces the stack
pointer, and one restores the native registers. -/
structure Footprint (h : Handler) (use : StackUse) (m m' : Simulator) : Prop where
  vsp : h.opcode ≠ .popVsp →
    m'.vsp = m.vsp + UInt64.ofNat use.poppedBytes - UInt64.ofNat use.pushedBytes
  registers : h.opcode ≠ .vmExit → m'.registers = m.registers
  /-- A byte may change if it lies where values were pushed, or where a value was stored. -/
  memory : ∀ a, use.pushedBytes
      ≤ distance (m.vsp + UInt64.ofNat use.poppedBytes - UInt64.ofNat use.pushedBytes) a →
    (h.opcode = .write32 → 4 ≤ distance (m.peek .qword 0) a) → m'.memory.byte a = m.memory.byte a

variable {h : Handler} {position : Nat} {outcome : Outcome Word}

/-- Taking and then putting is a footprint. -/
theorem Moves.footprint {use : StackUse} (hmoves : Moves m m' use.poppedBytes use.pushedBytes) :
    Footprint h use m m' where
  vsp _ := hmoves.vsp
  registers _ := hmoves.registers
  memory a ha _ := hmoves.memory a (hmoves.vsp ▸ ha)

/-- The instruction that stores takes its address from the top of the stack and the value from
behind it. The bytes it stores to may be anywhere, also on the stack. -/
theorem footprint_write32 (hop : h.opcode = .write32)
    (hrun : (h.perform position : Action Simulator (Outcome Word)).run m = .ok outcome m') :
    Footprint h ⟨[.qword, .dword], []⟩ m m' := by
  -- The machine behind both pops gets a name, so that only the store is left to look at.
  obtain ⟨m₂, hm₂⟩ : ∃ m₂, m₂ = ((m.pop .qword).2.pop .dword).2 := ⟨_, rfl⟩
  have hmoves : Moves m m₂ (StackUse.poppedBytes ⟨[.qword, .dword], []⟩) 0 :=
    hm₂ ▸ (moves_pop m .qword).pop .dword
  have hpeek : m.peek .qword 0 = (m.pop .qword).1 := by
    rw [peek, UInt64.add_zero]
    rfl
  have hok : (h.perform position : Action Simulator (Outcome Word)).run m
      = .ok .next
        { m₂ with
          memory := m₂.memory.write .dword (m.peek .qword 0) ((m.pop .qword).2.pop .dword).1 } := by
    rw [hpeek, hm₂, Handler.perform, hop]
    rfl
  rw [hok] at hrun
  cases hrun
  refine ⟨fun _ => hmoves.vsp, fun _ => hmoves.registers, fun a _ ha => ?_⟩
  have hfar : ¬ distance (m.peek .qword 0) a < Width.dword.bytes := Nat.not_lt.2 (ha hop)
  rw [Memory.write, Memory.byte_writeBytes _ _ _ _ _ (Memory.bytes_lt_size .dword), if_neg hfar]
  exact hmoves.memory a (Nat.zero_le _)

/-- Entering saves the native registers. -/
theorem run_perform_vmInit (hop : h.opcode = .vmInit) (position : Nat) (m : Simulator) :
    (h.perform position : Action Simulator (Outcome Word)).run m
      = .ok .next (m.pushAll (SavedRegister.pushOrder.map m.registers)) := by
  rw [Handler.perform, hop]
  exact Action.run_bind_of_ok (run_saveRegisters m)

/-- Leaving restores them. -/
theorem run_perform_vmExit (hop : h.opcode = .vmExit) (position : Nat) (m : Simulator) :
    (h.perform position : Action Simulator (Outcome Word)).run m
      = .ok .exit (m.popAll SavedRegister.popOrder) := by
  rw [Handler.perform, hop]
  exact Action.run_bind_of_ok (run_restoreRegisters m)

/-- **What a handler changes**, with the use of the stack that the table has for its instruction. By
the instruction; most are pops and then pushes. -/
theorem footprint
    (hrun : (h.perform position : Action Simulator (Outcome Word)).run m = .ok outcome m') :
    ∃ use, h.opcode.stackUse? = some use ∧ Footprint h use m m' := by
  cases hop : h.opcode with
  | write32 => exact ⟨_, rfl, footprint_write32 hop hrun⟩
  | unknown =>
    rw [Handler.perform, hop] at hrun
    cases hrun
  | vmInit =>
    rw [run_perform_vmInit hop] at hrun
    cases hrun
    refine ⟨_, rfl, Moves.footprint ?_⟩
    exact (Moves.refl m).pushAll _
  | vmExit =>
    rw [run_perform_vmExit hop] at hrun
    cases hrun
    refine ⟨_, rfl, fun _ => ?_, fun hne => absurd hop hne, fun a _ _ => ?_⟩
    · rw [vsp_popAll]
      exact (UInt64.sub_zero _).symm
    · rw [memory_popAll]
  | popVsp =>
    rw [Handler.perform, hop] at hrun
    cases hrun
    exact ⟨_, rfl, fun hne => absurd hop hne, fun _ => rfl, fun _ _ _ => rfl⟩
  | popVr64 | popVr32 =>
    rw [Handler.perform, hop] at hrun
    exact ⟨_, rfl, (moves_performPopVreg hrun).footprint⟩
  | pushVr64 | pushVr32 =>
    rw [Handler.perform, hop] at hrun
    exact ⟨_, rfl, (moves_performPushVreg hrun).footprint⟩
  | pushVsp | push64 | push32 =>
    rw [Handler.perform, hop] at hrun
    cases hrun
    exact ⟨_, rfl, (moves_push m _ _).footprint⟩
  | sub64 | sub32 | add64 | add32 | or32 | and32 | xor32 =>
    rw [Handler.perform, hop] at hrun
    exact ⟨_, rfl, (moves_performArithmetic (by decide) hrun).footprint⟩
  | load32 | load64 =>
    rw [Handler.perform, hop] at hrun
    exact ⟨_, rfl, (moves_performLoad hrun).footprint⟩
  | jnz =>
    rw [Handler.perform, hop] at hrun
    cases hrun
    exact ⟨_, rfl, (moves_pop m .qword).footprint⟩

end Simulator

end CodeRecovery
