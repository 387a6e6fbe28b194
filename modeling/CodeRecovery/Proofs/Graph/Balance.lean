/-
The stack pointer of the graph.

The compiled graph keeps the stack pointer in memory: every push and every pop loads it from its
cell, moves it and stores it back. How far a handler moves the stack can be read off its code, by
adding up the offsets of the pointers that were loaded from the cell; `stackShift` does this without
knowing anything of pushes and pops. It agrees with the table of stack uses for every handler, in
any state that a session of the compiler can reach.

Other pointers are moved as well: those into the virtual registers. They do not count because the
place of the registers is a value older than any that a handler loads, which is the one thing that
has to be known of the state.
-/
import Mathlib.Algebra.Ring.Int.Defs
import CodeRecovery.Proofs.Graph.Moves
import CodeRecovery.Proofs.Tally

set_option autoImplicit false

namespace CodeRecovery.Graph

/-! ## Offsets of loaded pointers -/

/-- The pointer that an instruction loads from a cell. -/
def Instruction.pointerFrom? (slot : Operand) : Instruction → Option ValueName
  | .load dst .ptr ptr => if ptr = slot then some dst else none
  | _ => none

/-- The offset that an instruction adds to one of some pointers. -/
def Instruction.offsetOf (pointers : List ValueName) : Instruction → Int
  | .movePtr _ (.value id _) offset => if id ∈ pointers then offset.toInt else 0
  | _ => 0

/-- The pointers that code loads from a cell. Each has a name of its own, so names tell them apart
from other pointers. -/
def pointersFrom (slot : Operand) (code : List Instruction) : List ValueName :=
  code.filterMap (·.pointerFrom? slot)

/-- All that code adds to some pointers. -/
def offsetsOf (pointers : List ValueName) (code : List Instruction) : Int :=
  (code.map (·.offsetOf pointers)).sum

/-- **All that code adds to the pointers that it loads from a cell.** It is read off the text of the
code, with no notion of what a stack is. -/
def stackShift (slot : Operand) (code : List Instruction) : Int :=
  offsetsOf (pointersFrom slot code) code

theorem offsetsOf_append (pointers : List ValueName) (code code' : List Instruction) :
    offsetsOf pointers (code ++ code') = offsetsOf pointers code + offsetsOf pointers code' := by
  rw [offsetsOf, List.map_append, List.sum_append, offsetsOf, offsetsOf]

/-- The code loads only pointers from `n` on, and adds `bytes` to them. It adds nothing to other
pointers from `n` on, so it does not matter which of those are counted. -/
structure Shifts (slot : Operand) (n : Nat) (code : List Instruction) (bytes : Int) : Prop where
  fresh : ∀ id ∈ pointersFrom slot code, n ≤ id
  total : ∀ pointers, pointersFrom slot code ⊆ pointers → (∀ id ∈ pointers, n ≤ id) →
    offsetsOf pointers code = bytes

namespace Shifts

variable {slot v : Operand} {n : Nat} {code code' : List Instruction} {bytes bytes' : Int}

/-- What such code loads is what counts. -/
theorem stackShift_eq (h : Shifts slot n code bytes) : stackShift slot code = bytes :=
  h.total _ (List.Subset.refl _) h.fresh

/-- Code in a row. The pointers of the first part are counted in the second part too, and it adds
nothing to them; this is why `total` is about any pointers from `n` on. -/
theorem append (h : Shifts slot n code bytes) (h' : Shifts slot n code' bytes') :
    Shifts slot n (code ++ code') (bytes + bytes') := by
  have hpointers : pointersFrom slot (code ++ code')
      = pointersFrom slot code ++ pointersFrom slot code' := List.filterMap_append
  refine ⟨?_, ?_⟩
  · intro id hid
    rw [hpointers, List.mem_append] at hid
    exact hid.elim (h.fresh id) (h'.fresh id)
  -- Each part is asked about the pointers of both, which is why `total` allows for more than its
  -- own.
  · intro pointers hsub hpointers'
    rw [hpointers] at hsub
    rw [offsetsOf_append,
      h.total pointers (fun _ hid => hsub (List.mem_append_left _ hid)) hpointers',
      h'.total pointers (fun _ hid => hsub (List.mem_append_right _ hid)) hpointers']

/-- Code that moves no pointers. It may load one, as long as it does nothing with it. -/
theorem still (hfresh : ∀ id ∈ pointersFrom slot code, n ≤ id)
    (htotal : ∀ pointers, (∀ id ∈ pointers, n ≤ id) → offsetsOf pointers code = 0) :
    Shifts slot n code 0 :=
  ⟨hfresh, fun pointers _ hpointers => htotal pointers hpointers⟩

/-- An older pointer is none of those that count, so moving it does not count either. -/
theorem movePtr (hv : v.Below n) (dst : ValueName) (offset : Int64) :
    Shifts slot n [.movePtr dst v offset] 0 := by
  refine .still (fun _ hid => nomatch hid) fun pointers hpointers => ?_
  cases v with
  | const type bits => rfl
  | value id type =>
    have hlt := Operand.below_value.1 hv
    have hmem : id ∉ pointers := by
      intro hmem
      have hle := hpointers id hmem
      omega
    rw [offsetsOf, List.map_singleton, Instruction.offsetOf, if_neg hmem]
    rfl

/-- Code that neither loads nor moves pointers. -/
theorem plain (hpointers : pointersFrom slot code = [])
    (htotal : ∀ pointers, offsetsOf pointers code = 0) : Shifts slot n code 0 := by
  refine .still ?_ fun pointers _ => htotal pointers
  rw [hpointers]
  exact fun _ hid => nomatch hid

end Shifts

namespace Backend

variable {slot vregs v : Operand} {n k : Nat}

theorem pointersFrom_pushCode (w : Width) : pointersFrom slot (pushCode slot k w v) = [k] := by
  simp [pointersFrom, pushCode, Instruction.pointerFrom?]

theorem pointersFrom_popCode (w : Width) : pointersFrom slot (popCode slot k w) = [k] := by
  cases w <;> simp [pointersFrom, popCode, Instruction.pointerFrom?, Ty.ofWidth]

theorem toInt_bytes (w : Width) : (Int64.ofNat w.bytes).toInt = w.bytes := by
  cases w <;> decide

theorem toInt_neg_bytes (w : Width) : (-Int64.ofNat w.bytes).toInt = -(w.bytes : Int) := by
  cases w <;> decide

/-- A push loads the pointer and moves it down by the width of the value. -/
theorem shifts_pushCode (w : Width) (hk : n ≤ k) :
    Shifts slot n (pushCode slot k w v) (-w.bytes) := by
  refine ⟨?_, ?_⟩
  · rw [pointersFrom_pushCode]
    simpa using hk
  · intro pointers hsub _
    have hmem : k ∈ pointers := hsub (by simp [pointersFrom_pushCode])
    simp only [offsetsOf, pushCode, List.map_cons, List.map_nil, List.sum_cons, List.sum_nil,
      Instruction.offsetOf, if_pos hmem, toInt_neg_bytes]
    omega

theorem shifts_popCode (w : Width) (hk : n ≤ k) : Shifts slot n (popCode slot k w) w.bytes := by
  refine ⟨?_, ?_⟩
  · rw [pointersFrom_popCode]
    simpa using hk
  · intro pointers hsub _
    have hmem : k ∈ pointers := hsub (by simp [pointersFrom_popCode])
    simp only [offsetsOf, popCode, List.map_cons, List.map_nil, List.sum_cons, List.sum_nil,
      Instruction.offsetOf, if_pos hmem, toInt_bytes]
    omega

/-- Loading a value that is no pointer does not count, from whatever cell. -/
theorem shifts_load (w : Width) (dst : ValueName) (ptr : Operand) :
    Shifts slot n [.load dst (.ofWidth w) ptr] 0 := by
  refine .plain ?_ fun _ => rfl
  cases w <;> rfl

/-- A virtual register is reached by moving a pointer, but it is the one to the registers. -/
theorem shifts_getVregCode (w : Width) (index : Nat) (hvregs : vregs.Below n) :
    Shifts slot n (getVregCode vregs k w index) 0 :=
  (Shifts.movePtr hvregs k _).append (shifts_load w _ _)

theorem shifts_setWideVregCode (index : Nat) (hvregs : vregs.Below n) :
    Shifts slot n (setWideVregCode vregs k index v) 0 :=
  (Shifts.movePtr hvregs k _).append (.plain rfl fun _ => rfl)

theorem shifts_setNarrowVregCode (index : Nat) (hvregs : vregs.Below n) :
    Shifts slot n (setNarrowVregCode vregs k index v) 0 :=
  (Shifts.movePtr hvregs k _).append (.plain rfl fun _ => rfl)

/-- The stack pointer is loaded to be looked at and not moved. -/
theorem shifts_getVspCode (hk : n ≤ k) : Shifts slot n (getVspCode slot k) 0 := by
  refine .still ?_ fun pointers _ => rfl
  simpa [pointersFrom, getVspCode, Instruction.pointerFrom?] using hk

theorem shifts_loadCode (w : Width) : Shifts slot n (loadCode k w v) 0 :=
  have hcast : Shifts slot n [.cast k .inttoptr v .ptr] 0 := .plain rfl fun _ => rfl
  hcast.append (shifts_load w _ _)

/-- Saving registers is one push for each. -/
theorem shifts_saveCode (rs : List SavedRegister) (hk : n ≤ k) :
    Shifts slot n (saveCode slot k rs) (-(8 * rs.length : Nat)) := by
  induction rs generalizing k with
  | nil => exact .plain rfl fun _ => rfl
  | cons r rest ih =>
    have hload : Shifts slot n [.loadRegister k r] 0 := .plain rfl fun _ => rfl
    have hpush : Shifts slot n (pushCode slot (k + 1) .qword (.value k .i64)) (-8) :=
      shifts_pushCode .qword (Nat.le_succ_of_le hk)
    have hall := (hload.append hpush).append (ih (Nat.le_add_right_of_le (k := 3) hk))
    have hbytes : (0 + -8 : Int) + -(8 * rest.length : Nat) = -(8 * (r :: rest).length : Nat) := by
      rw [List.length_cons]
      omega
    exact hbytes ▸ hall

/-- Restoring them is one pop for each, and what is popped goes into a register that is no value of
the graph. -/
theorem shifts_restoreCode (rs : List SavedRegister) (hk : n ≤ k) :
    Shifts slot n (restoreCode slot k rs) (8 * rs.length : Nat) := by
  induction rs generalizing k with
  | nil => exact .plain rfl fun _ => rfl
  | cons r rest ih =>
    have hpop : Shifts slot n (popCode slot k .qword) 8 := shifts_popCode .qword hk
    have hstore : Shifts slot n [.storeRegister r (.value (k + 1) .i64)] 0 :=
      .plain rfl fun _ => rfl
    have hall := hpop.append (hstore.append (ih (Nat.le_add_right_of_le (k := 3) hk)))
    have hbytes : (8 : Int) + (0 + (8 * rest.length : Nat)) = (8 * (r :: rest).length : Nat) := by
      rw [List.length_cons]
      omega
    exact hbytes ▸ hall

/-! ## With the counting machine -/

/-- **The code written since `b₀` moves the stack against the count.** The stack grows downwards, so
the count and the pointer have opposite signs. The place of the registers must be older than the
code. -/
structure Counted (b₀ b : Backend) (t : Tally) : Prop where
  code : ∃ code count, b = b₀.emitted code count ∧
    Shifts b₀.vspSlot b₀.nextValue code (-t.depth)
  vregs : b₀.vregs.Below b₀.nextValue
  registers : t.virtualRegisters = b₀.virtualRegisters

/-- Values carry no information on the counting machine, so they correspond whatever they are. -/
def countedOf (b₀ : Backend) : Correspondence Backend Operand Tally Unit where
  State _ b t := Counted b₀ b t
  Now _ _ _ _ _ := True
  Held _ _ _ _ _ := True

section

variable {α β : Type} {m m' count : Nat} {b₀ b : Backend} {t : Tally} {code : List Instruction}
  {R : Backend → Tally → α → β → Prop} {a : α} {a' : β} {x : Action Backend α} {y : Action Tally β}

/-- Code that moves the stack by as much as the counting machine counts keeps the two in step. -/
theorem counted_joint (bytes : Int) (hstate : (countedOf b₀).State m b t)
    (hrun : x.run b = .ok a (b.emitted code count)) (htally : y.run t = .ok a' (t.grow bytes))
    (hshifts : ∀ n, n ≤ b.nextValue → b.vregs.Below n → Shifts b.vspSlot n code (-bytes))
    (hR : R (b.emitted code count) (t.grow bytes) a a') :
    (countedOf b₀).Joint m' b t R (x.run b) (y.run t) := by
  obtain ⟨⟨code₀, count₀, rfl, hshifts₀⟩, hvregs, hregisters⟩ := hstate
  rw [hrun, htally]
  refine .ok ⟨⟨code₀ ++ code, count₀ + count, emitted_emitted .., ?_⟩, hvregs, hregisters⟩
    (fun _ _ _ hheld => hheld) hR
  have hall := hshifts₀.append (hshifts b₀.nextValue (Nat.le_add_right _ _) hvregs)
  rw [← Int.neg_add] at hall
  exact hall

/-- Code that leaves the stack where it is. -/
theorem counted_still (hstate : (countedOf b₀).State m b t)
    (hrun : x.run b = .ok a (b.emitted code count)) (htally : y.run t = .ok a' t)
    (hshifts : ∀ n, n ≤ b.nextValue → b.vregs.Below n → Shifts b.vspSlot n code 0)
    (hR : R (b.emitted code count) t a a') :
    (countedOf b₀).Joint m' b t R (x.run b) (y.run t) := by
  exact counted_joint 0 hstate hrun (t.grow_zero.symm ▸ htally) hshifts (t.grow_zero.symm ▸ hR)

end

/-- The graph compiler, coupled with the counting machine: one line for each operation, by the code
that the operation writes. -/
def counted (b₀ : Backend) : Coupling Backend Operand Tally Unit where
  toCorrespondence := countedOf b₀
  now_of_held h := h
  weaken h := h
  registers := b₀.virtualRegisters
  virtualRegisters {_ _ _} h := by
    obtain ⟨⟨_, _, rfl, _⟩, -, hregisters⟩ := h
    exact ⟨rfl, hregisters⟩
  constant w c hstate := .ok hstate (Correspondence.Later.refl _ _) trivial
  push {_ s _ w v _} _ hstate _ :=
    counted_joint w.bytes hstate (run_push s w v) rfl (fun _ hn _ => shifts_pushCode w hn) trivial
  pop {_ s _ w} _ hstate :=
    counted_joint (-w.bytes) hstate (run_pop s w) rfl
      (fun _ hn _ => (Int.neg_neg _).symm ▸ shifts_popCode w hn) trivial
  -- The virtual registers are reached through a pointer of their own, which is older than the code.
  getVreg {_ s _ w index} _ hstate _ :=
    counted_still hstate (run_getVreg s w index) rfl
      (fun _ _ hvregs => shifts_getVregCode w index hvregs) trivial
  setVreg {_ s _ w index v _} _ hstate _ _ := by
    by_cases hw : w = .qword
    · subst hw
      exact counted_still hstate (run_setVreg_qword s index v) rfl
        (fun _ _ hvregs => shifts_setWideVregCode index hvregs) trivial
    · exact counted_still hstate (run_setVreg_narrow s hw index v) rfl
        (fun _ _ hvregs => shifts_setNarrowVregCode index hvregs) trivial
  getVsp {_ s _} hstate :=
    counted_still hstate (run_getVsp s) rfl (fun _ hn _ => shifts_getVspCode hn) trivial
  setVsp {_ s _ v _} hstate _ :=
    counted_still hstate (run_setVsp s v) rfl (fun _ _ _ => .plain rfl fun _ => rfl) trivial
  binary {_ s _} op {w lhs rhs _ _} hstate _ _ :=
    counted_still hstate (run_binary s op w lhs rhs) rfl
      (fun _ _ _ => .plain rfl fun _ => rfl) trivial
  signExtend {_ s _ w v _} _ hstate _ :=
    counted_still hstate (run_signExtend s w v) rfl (fun _ _ _ => .plain rfl fun _ => rfl) trivial
  testZero {_ s _ w v _} hstate _ :=
    counted_still hstate (run_testZero s w v) rfl (fun _ _ _ => .plain rfl fun _ => rfl) trivial
  testNonzero {_ s _ w v _} hstate _ :=
    counted_still hstate (run_testNonzero s w v) rfl (fun _ _ _ => .plain rfl fun _ => rfl) trivial
  load {_ s _ w v _} _ hstate _ :=
    counted_still hstate (run_load s w v) rfl (fun _ _ _ => shifts_loadCode w) trivial
  store {_ s _ w v _ v' _} _ hstate _ _ :=
    counted_still hstate (run_store s w v v') rfl (fun _ _ _ => .plain rfl fun _ => rfl) trivial
  saveRegisters {_ s _} hstate :=
    counted_joint 136 hstate (run_saveRegisters s) rfl (fun _ hn _ => shifts_saveCode _ hn) trivial
  restoreRegisters {_ s _} hstate :=
    counted_joint (-136) hstate (run_restoreRegisters s) rfl (fun _ hn _ => shifts_restoreCode _ hn)
      trivial

/-- **A handler moves the stack pointer in its cell as the table of stack uses says.** The compiler
need not have compiled anything properly before; it is enough that the place of the registers is an
older value. -/
theorem stackShift_of_perform {b b' : Backend} {h : Handler} {position : Nat}
    {outcome : Outcome Operand} (hready : b.Ready)
    (hrun : (h.perform position : Action Backend (Outcome Operand)).run b = .ok outcome b') :
    ∃ code count, b' = b.emitted code count ∧ b'.written = b.written ++ code ∧
      stackShift b.vspSlot code = -h.opcode.growth := by
  have hempty : Shifts b.vspSlot b.nextValue [] (-0) := .plain rfl fun _ => rfl
  have hstate : (counted b).State 8 b ⟨b.virtualRegisters, 0⟩ :=
    ⟨⟨[], 0, (emitted_nil b).symm, hempty⟩, hready.vregs, rfl⟩
  obtain ⟨⟨code, count, rfl, hshifts⟩, -, -⟩ := (counted b).state_of_perform (n := 0) hstate hrun
  refine ⟨code, count, rfl, written_emitted_of_lt hready.current code count, ?_⟩
  rw [hshifts.stackShift_eq, Tally.grow, Int.zero_add]

end Backend

end CodeRecovery.Graph
