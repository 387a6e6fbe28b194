/-
What the graph compiler's code does.

The code of each operation, run in a state that agrees with a simulator, leaves a state that agrees
with the simulator after the same operation. The virtual stack pointer is read from its cell and
written back, so between two operations the agreement is about memory only; the values that code
assigns matter inside one operation and as operands of later ones.

Writes to the register file are where the cells matter: register `i` lies at byte `8 * i`, and two
registers are apart as long as the file fits the address space.
-/
import CodeRecovery.Proofs.Graph.Execution
import CodeRecovery.Proofs.Graph.Outline
import CodeRecovery.Proofs.Memory

set_option autoImplicit false

namespace CodeRecovery.Graph

/-- The cell of the stack pointer. -/
def slotCell : Region := .cell 0

/-- The cell of the virtual registers. -/
def fileCell : Region := .cell 1

/-- **A state of the graph language is that of a simulator**: the same memory, native registers,
stack pointer and virtual registers. -/
structure Agrees (st : State) (s : Simulator) : Prop where
  memory : st.memory .flat = s.memory
  registers : st.registers = s.registers
  vsp : (st.memory slotCell).read .qword 0 = s.vsp
  vregs : ∀ i (h : i < s.vregs.size),
    (st.memory fileCell).read .qword (UInt64.ofNat (i * 8)) = s.vregs[i]

/-- Agreement, with what the code of a handler relies on: the pointers to the two cells are assigned
and the register file fits the address space. -/
structure Related (st : State) (s : Simulator) : Prop extends Agrees st s where
  slot : st.values 1 = some (.ptr ⟨slotCell, 0⟩)
  file : st.values 2 = some (.ptr ⟨fileCell, 0⟩)
  fits : s.vregs.size * 8 ≤ UInt64.size

namespace State

variable {st st₁ st₂ : State} {o o' : Operand} {dst n : Nat} {w : Width} {x y : Word}
  {type : Ty} {v : Value} {target : Pointer}

/-- One instruction and then the others, in the form in which the code of an operation is
followed. -/
theorem execAll_cons {i : Instruction} {rest : List Instruction} (h : st.exec i = some st₁)
    (hrest : st₁.execAll rest = some st₂) : st.execAll (i :: rest) = some st₂ := by
  rw [execAll, h]
  exact hrest

theorem execAll_nil (st : State) : st.execAll [] = some st := rfl

/-! ## Operands -/

theorem eval_assign_ptr (st : State) (dst : Nat) (target : Pointer) :
    (st.assign dst (.ptr target)).eval (.value dst .ptr) = some (.ptr target) := by
  simp [eval, Value.type]

theorem eval_assign_int (st : State) (dst : Nat) (w : Width) (x : Word) :
    (st.assign dst (.int w x)).eval (.value dst (.ofWidth w)) = some (.int w x) := by
  simp [eval, Value.type]

/-- An operand that existed before does not see a new value. -/
theorem eval_assign (hbelow : o.Below n) (hle : n ≤ dst) :
    (st.assign dst v).eval o = st.eval o := by
  refine eval_congr fun id hid => ?_
  have hlt := hbelow id hid
  rw [values_assign, if_neg (by omega)]

/-- Operands are not in memory. -/
theorem eval_setMemory (region : Region) (m : Memory) :
    (st.setMemory region m).eval o = st.eval o :=
  eval_congr fun _ _ => rfl

/-- Zero is zero at every width. -/
theorem eval_zero (w : Width) : st.eval (.const (.ofWidth w) 0) = some (.int w 0) := by
  cases w <;> rfl

/-! ## Instructions -/

/-- The instructions whose operands are known, one lemma for each. A load finds what memory has. -/
theorem exec_load (h : st.eval o = some (.ptr target)) :
    st.exec (.load dst type o) = some (st.assign dst (st.fetch type target)) := by
  simp [exec, pointer, h]

/-- Moving a pointer wraps within its region. -/
theorem exec_movePtr {offset : Int64} (h : st.eval o = some (.ptr target)) :
    st.exec (.movePtr dst o offset)
      = some (st.assign dst (.ptr ⟨target.region, target.address + offset.toUInt64⟩)) := by
  simp [exec, pointer, h]

/-- Storing an integer takes as many bytes as its width. -/
theorem exec_store_int (h : st.eval o = some (.int w x)) (h' : st.eval o' = some (.ptr target)) :
    st.exec (.store o o') = some (st.setMemory target.region
      ((st.memory target.region).write w target.address x)) := by
  simp [exec, pointer, h, h', put]

/-- Storing a pointer into flat memory stores its address. -/
theorem exec_store_ptr (h : st.eval o = some (.ptr ⟨.flat, x⟩))
    (h' : st.eval o' = some (.ptr target)) :
    st.exec (.store o o') = some (st.setMemory target.region
      ((st.memory target.region).write .qword target.address x)) := by
  simp [exec, pointer, h, h', put]

/-- Arithmetic of two integers of one width. -/
theorem exec_binary {op : BinaryOp} (h : st.eval o = some (.int w x))
    (h' : st.eval o' = some (.int w y)) :
    st.exec (.binary dst op o o') = some (st.assign dst (.int w (op.apply w x y))) := by
  simp [exec, integer, h, h']

/-- A comparison gives a bit. -/
theorem exec_icmp {c : Comparison} (h : st.eval o = some (.int w x))
    (h' : st.eval o' = some (.int w y)) :
    st.exec (.icmp dst c o o')
      = some (st.assign dst (.int .bit (if c.holds x y then 1 else 0))) := by
  simp [exec, integer, h, h']

theorem exec_cast {op : Cast} {v' : Value} (h : st.eval o = some v)
    (hcast : v.cast op type = some v') :
    st.exec (.cast dst op o type) = some (st.assign dst v') := by
  simp [exec, h, hcast]

/-- A native register takes a whole word. -/
theorem exec_storeRegister {r : SavedRegister} (h : st.eval o = some (.int .qword x)) :
    st.exec (.storeRegister r o) = some (st.setRegister r x) := by
  simp [exec, integer, h]

end State

/-! ## The pointers to the cells -/

namespace Related

variable {st : State} {s : Simulator}

/-- The pointers to the two cells are values of the entry block, and stay. -/
theorem eval_slot (h : Related st s) : st.eval slotOperand = some (.ptr ⟨slotCell, 0⟩) := by
  simp [slotOperand, State.eval, h.slot, Value.type]

theorem eval_file (h : Related st s) : st.eval fileOperand = some (.ptr ⟨fileCell, 0⟩) := by
  simp [fileOperand, State.eval, h.file, Value.type]

/-- Assigning a value behind the pointers to the cells changes nothing else. -/
theorem assign (h : Related st s) {dst : Nat} (hdst : 3 ≤ dst) (v : Value) :
    Related (st.assign dst v) s where
  memory := h.memory
  registers := h.registers
  vsp := h.vsp
  vregs := h.vregs
  slot := by rw [State.values_assign, if_neg (by omega), h.slot]
  file := by rw [State.values_assign, if_neg (by omega), h.file]
  fits := h.fits

/-- Writing the stack pointer's cell is setting the stack pointer. The cell is in no other region,
so memory is as it was. -/
theorem setSlot (h : Related st s) (vsp : Word) :
    Related (st.setMemory slotCell ((st.memory slotCell).write .qword 0 vsp)) { s with vsp } where
  memory := h.memory
  registers := h.registers
  vsp := Memory.read_write_qword _ _ _
  vregs := h.vregs
  slot := h.slot
  file := h.file
  fits := h.fits

/-- Writing flat memory is writing the simulator's, and the cells are out of its reach. -/
theorem writeFlat (h : Related st s) (w : Width) (address value : Word) :
    Related (st.setMemory .flat ((st.memory .flat).write w address value))
      { s with memory := s.memory.write w address value } where
  memory := by rw [State.memory_setMemory, if_pos rfl, h.memory]
  registers := h.registers
  vsp := h.vsp
  vregs := h.vregs
  slot := h.slot
  file := h.file
  fits := h.fits

/-- Native registers are kept alike on both sides. -/
theorem setRegister (h : Related st s) (r : SavedRegister) (value : Word) :
    Related (st.setRegister r value) (s.setRegister r value) where
  memory := h.memory
  registers := by
    funext r'
    simp only [State.setRegister, Simulator.setRegister, h.registers]
  vsp := h.vsp
  vregs := h.vregs
  slot := h.slot
  file := h.file
  fits := h.fits

/-- Two virtual registers lie at least eight bytes apart, also around the end of the address space.
This is where the size of the register file matters. -/
theorem distance_vreg {i j k : Nat} (hi : i * 8 + 8 ≤ UInt64.size) (hj : j * 8 + 8 ≤ UInt64.size)
    (hne : j ≠ i) (hk : k < 8) :
    8 ≤ Memory.distance (UInt64.ofNat (i * 8)) (UInt64.ofNat (j * 8) + UInt64.ofNat k) := by
  rw [Memory.distance_eq, UInt64.toNat_add,
    UInt64.toNat_ofNat_of_lt' (show i * 8 < UInt64.size by omega),
    UInt64.toNat_ofNat_of_lt' (show j * 8 < UInt64.size by omega),
    UInt64.toNat_ofNat_of_lt' (show k < UInt64.size by omega)]
  rw [UInt64.size] at hi hj ⊢
  omega

/-- Writing a virtual register in its cell leaves the others, because their bytes are apart. -/
theorem setVreg (h : Related st s) {i : Nat} (hi : i < s.vregs.size) (value : Word) :
    Related (st.setMemory fileCell ((st.memory fileCell).write .qword (UInt64.ofNat (i * 8)) value))
      { s with vregs := s.vregs.setIfInBounds i value } where
  memory := h.memory
  registers := h.registers
  vsp := h.vsp
  vregs := by
    intro j hj
    have hj' : j < s.vregs.size := by simpa using hj
    have hfits := h.fits
    rw [State.memory_setMemory, if_pos rfl]
    -- One register is read back whole; the others keep clear of the write.
    by_cases hji : j = i
    · subst hji
      simp [Memory.read_write_qword]
    · have hapart : ∀ k < Width.qword.bytes, Width.qword.bytes
          ≤ Memory.distance (UInt64.ofNat (i * 8)) (UInt64.ofNat (j * 8) + UInt64.ofNat k) :=
        fun k hk => distance_vreg (by omega) (by omega) hji hk
      rw [Memory.read_write_of_distance _ _ _ _ _ _ hapart, h.vregs j hj']
      exact (Array.getElem_setIfInBounds_ne hj' (Ne.symm hji)).symm
  slot := h.slot
  file := h.file
  fits := by simpa using h.fits

end Related

/-! ## The code of each operation -/

namespace Backend

open State

variable {st : State} {s : Simulator} {n : Nat} {w : Width} {v v' : Operand} {x x' : Word}

/-- Moving a pointer down is adding a negative offset, which wraps to a subtraction. -/
theorem sub_bytes (a : Word) (w : Width) :
    a + (-(Int64.ofNat w.bytes)).toUInt64 = a - UInt64.ofNat w.bytes := by
  cases w <;> exact (UInt64.sub_eq_add_neg a _).symm

/-- Reading the stack pointer's cell gives a pointer into flat memory. -/
theorem exec_loadVsp (h : Related st s) :
    st.exec (.load n .ptr slotOperand) = some (st.assign n (.ptr ⟨.flat, s.vsp⟩)) := by
  rw [exec_load h.eval_slot]
  simp only [fetch, Ty.width?, h.vsp]

/-- **The code of a push is a push.** The pointer is stored before the value is, which makes no
difference since they go to different regions. -/
theorem exec_pushCode (h : Related st s) (hn : 3 ≤ n) (hv : st.eval v = some (.int w x))
    (hbelow : v.Below n) :
    ∃ st', st.execAll (pushCode slotOperand n w v) = some st' ∧ Related st' (s.push w x) := by
  let vsp := s.vsp - UInt64.ofNat w.bytes
  let st₁ := st.assign n (.ptr ⟨.flat, s.vsp⟩)
  let st₂ := st₁.assign (n + 1) (.ptr ⟨.flat, vsp⟩)
  let st₃ := st₂.setMemory slotCell ((st₂.memory slotCell).write .qword 0 vsp)
  have h₂ : Related st₂ s := (h.assign hn _).assign (by omega) _
  have h₃ : Related st₃ { s with vsp } := h₂.setSlot vsp
  have hptr₁ : st₁.eval (.value n .ptr) = some (.ptr ⟨.flat, s.vsp⟩) := eval_assign_ptr st n _
  have hptr₂ : st₂.eval (.value (n + 1) .ptr) = some (.ptr ⟨.flat, vsp⟩) :=
    eval_assign_ptr st₁ (n + 1) _
  have hmove : st₁.exec (.movePtr (n + 1) (.value n .ptr) (-(Int64.ofNat w.bytes))) = some st₂ := by
    rw [exec_movePtr hptr₁, sub_bytes]
  have hstore : st₂.exec (.store (.value (n + 1) .ptr) slotOperand) = some st₃ :=
    exec_store_ptr hptr₂ h₂.eval_slot
  have hptr₃ : st₃.eval (.value (n + 1) .ptr) = some (.ptr ⟨.flat, vsp⟩) := by
    rw [eval_setMemory, hptr₂]
  -- The operand is older than both pointers, so it still has its value.
  have hv₃ : st₃.eval v = some (.int w x) := by
    rw [eval_setMemory, eval_assign hbelow (Nat.le_succ n), eval_assign hbelow (Nat.le_refl n), hv]
  exact ⟨_, execAll_cons (exec_loadVsp h) <| execAll_cons hmove <| execAll_cons hstore <|
    execAll_cons (exec_store_int hv₃ hptr₃) <| execAll_nil _, h₃.writeFlat w vsp x⟩

theorem ofWidth_width? (w : Width) : (Ty.ofWidth w).width? = some w := by
  cases w <;> rfl

theorem exec_loadInt {target : Pointer} (h : st.eval v = some (.ptr target)) :
    st.exec (.load n (.ofWidth w) v)
      = some (st.assign n (.ofWord w ((st.memory target.region).read w target.address))) := by
  rw [exec_load h]
  simp only [fetch, ofWidth_width?]

/-- **The code of a pop is a pop.** The value is loaded before the pointer is moved; a single bit is
never popped. -/
theorem exec_popCode (h : Related st s) (hn : 3 ≤ n) (hw : w ≠ .bit) :
    ∃ st', st.execAll (popCode slotOperand n w) = some st' ∧ Related st' (s.pop w).2 ∧
      st'.eval (.value (n + 1) (.ofWidth w)) = some (.int w (s.pop w).1) := by
  let vsp := s.vsp + UInt64.ofNat w.bytes
  let st₁ := st.assign n (.ptr ⟨.flat, s.vsp⟩)
  let st₂ := st₁.assign (n + 1) (.int w (s.pop w).1)
  let st₃ := st₂.assign (n + 2) (.ptr ⟨.flat, vsp⟩)
  let st₄ := st₃.setMemory slotCell ((st₃.memory slotCell).write .qword 0 vsp)
  have h₃ : Related st₃ s := ((h.assign hn _).assign (by omega) _).assign (by omega) _
  have hptr₁ : st₁.eval (.value n .ptr) = some (.ptr ⟨.flat, s.vsp⟩) := eval_assign_ptr st n _
  have hptr₂ : st₂.eval (.value n .ptr) = some (.ptr ⟨.flat, s.vsp⟩) := by
    rw [eval_assign (n := n + 1) (by simp) (Nat.le_refl _), hptr₁]
  have hload : st₁.exec (.load (n + 1) (.ofWidth w) (.value n .ptr)) = some st₂ := by
    rw [exec_loadInt hptr₁, memory_assign, h.memory, Value.ofWord, Memory.cut_read _ hw]
    rfl
  have hmove : st₂.exec (.movePtr (n + 2) (.value n .ptr) (Int64.ofNat w.bytes)) = some st₃ := by
    rw [exec_movePtr hptr₂]
    cases w <;> rfl
  have hstore : st₃.exec (.store (.value (n + 2) .ptr) slotOperand) = some st₄ :=
    exec_store_ptr (eval_assign_ptr st₂ (n + 2) _) h₃.eval_slot
  refine ⟨st₄, execAll_cons (exec_loadVsp h) <| execAll_cons hload <| execAll_cons hmove <|
    execAll_cons hstore <| execAll_nil _, h₃.setSlot vsp, ?_⟩
  rw [eval_setMemory, eval_assign (n := n + 2) (by simp) (Nat.le_refl _)]
  exact eval_assign_int st₁ (n + 1) w _

/-- The pointer to a virtual register lies eight bytes per register into the file. -/
theorem exec_vregPtr (h : Related st s) (index : Nat) :
    st.exec (.movePtr n fileOperand (Int64.ofNat (index * 8)))
      = some (st.assign n (.ptr ⟨fileCell, UInt64.ofNat (index * 8)⟩)) := by
  have hoffset : (0 : Word) + (Int64.ofNat (index * 8)).toUInt64 = UInt64.ofNat (index * 8) :=
    UInt64.zero_add _
  rw [exec_movePtr h.eval_file, hoffset]

/-- Reading a virtual register at a width. -/
theorem exec_getVregCode (h : Related st s) (hn : 3 ≤ n) (hw : w ≠ .bit) {index : Nat}
    (hindex : index < s.vregs.size) :
    ∃ st', st.execAll (getVregCode fileOperand n w index) = some st' ∧ Related st' s ∧
      st'.eval (.value (n + 1) (.ofWidth w)) = some (.int w (w.cut s.vregs[index])) := by
  let st₁ := st.assign n (.ptr ⟨fileCell, UInt64.ofNat (index * 8)⟩)
  let st₂ := st₁.assign (n + 1) (.int w (w.cut s.vregs[index]))
  -- A narrow read of a register sees the low half of the eight bytes that were written.
  have hread : (st.memory fileCell).read w (UInt64.ofNat (index * 8)) = w.cut s.vregs[index] := by
    cases w with
    | bit => exact absurd rfl hw
    | dword => rw [Memory.read_dword, h.vregs index hindex]
    | qword => rw [h.vregs index hindex, Width.cut_qword]
  have hload : st₁.exec (.load (n + 1) (.ofWidth w) (.value n .ptr)) = some st₂ := by
    rw [exec_loadInt (eval_assign_ptr st n _), memory_assign, hread, Value.ofWord, Width.cut_cut]
  exact ⟨st₂, execAll_cons (exec_vregPtr h index) <| execAll_cons hload <| execAll_nil _,
    (h.assign hn _).assign (by omega) _, eval_assign_int st₁ (n + 1) w _⟩

theorem exec_setWideVregCode (h : Related st s) (hn : 3 ≤ n) {index : Nat}
    (hindex : index < s.vregs.size) (hv : st.eval v = some (.int .qword x)) (hbelow : v.Below n) :
    ∃ st', st.execAll (setWideVregCode fileOperand n index v) = some st' ∧
      Related st' { s with vregs := s.vregs.setIfInBounds index x } := by
  let st₁ := st.assign n (.ptr ⟨fileCell, UInt64.ofNat (index * 8)⟩)
  have hv₁ : st₁.eval v = some (.int .qword x) := by
    rw [eval_assign hbelow (Nat.le_refl n), hv]
  exact ⟨_, execAll_cons (exec_vregPtr h index) <|
    execAll_cons (exec_store_int hv₁ (eval_assign_ptr st n _)) <| execAll_nil _,
    (h.assign hn _).setVreg hindex x⟩

/-- Writing a narrow value to one, where the upper half becomes zero. -/
theorem exec_setNarrowVregCode (h : Related st s) (hn : 3 ≤ n) {index : Nat}
    (hindex : index < s.vregs.size) (hw : w ≠ .qword) (hv : st.eval v = some (.int w x))
    (hbelow : v.Below n) :
    ∃ st', st.execAll (setNarrowVregCode fileOperand n index v) = some st' ∧
      Related st' { s with vregs := s.vregs.setIfInBounds index x } := by
  let st₁ := st.assign n (.ptr ⟨fileCell, UInt64.ofNat (index * 8)⟩)
  let st₂ := st₁.assign (n + 1) (.int .qword x)
  have hv₁ : st₁.eval v = some (.int w x) := by
    rw [eval_assign hbelow (Nat.le_refl n), hv]
  have hcast : (Value.int w x).cast .zext .i64 = some (.int .qword x) := by
    cases w with
    | qword => exact absurd rfl hw
    | bit | dword => simp [Value.cast, Ty.width?, Width.bits, Value.ofWord]
  have hptr₂ : st₂.eval (.value n .ptr) = some (.ptr ⟨fileCell, UInt64.ofNat (index * 8)⟩) := by
    rw [eval_assign (n := n + 1) (by simp) (Nat.le_refl _)]
    exact eval_assign_ptr st n _
  exact ⟨_, execAll_cons (exec_vregPtr h index) <| execAll_cons (exec_cast hv₁ hcast) <|
    execAll_cons (exec_store_int (eval_assign_int st₁ (n + 1) .qword x) hptr₂) <| execAll_nil _,
    ((h.assign hn _).assign (by omega) _).setVreg hindex x⟩

/-- The stack pointer as a number. -/
theorem exec_getVspCode (h : Related st s) (hn : 3 ≤ n) :
    ∃ st', st.execAll (getVspCode slotOperand n) = some st' ∧ Related st' s ∧
      st'.eval (.value (n + 1) .i64) = some (.int .qword s.vsp) :=
  ⟨_, execAll_cons (exec_loadVsp h) <| execAll_cons (exec_cast (eval_assign_ptr st n _) rfl) <|
    execAll_nil _, (h.assign hn _).assign (by omega) _, eval_assign_int _ (n + 1) .qword s.vsp⟩

theorem exec_setVspCode (h : Related st s) (hn : 3 ≤ n) (hv : st.eval v = some (.int .qword x)) :
    ∃ st', st.execAll (setVspCode slotOperand n v) = some st' ∧ Related st' { s with vsp := x } :=
  have h₁ : Related (st.assign n (.ptr ⟨.flat, x⟩)) s := h.assign hn _
  ⟨_, execAll_cons (exec_cast hv rfl) <|
    execAll_cons (exec_store_ptr (eval_assign_ptr st n _) h₁.eval_slot) <| execAll_nil _,
    h₁.setSlot x⟩

theorem exec_loadCode (h : Related st s) (hn : 3 ≤ n) (hw : w ≠ .bit)
    (hv : st.eval v = some (.int .qword x)) :
    ∃ st', st.execAll (loadCode n w v) = some st' ∧ Related st' s ∧
      st'.eval (.value (n + 1) (.ofWidth w)) = some (.int w (s.memory.read w x)) := by
  let st₁ := st.assign n (.ptr ⟨.flat, x⟩)
  let st₂ := st₁.assign (n + 1) (.int w (s.memory.read w x))
  have hload : st₁.exec (.load (n + 1) (.ofWidth w) (.value n .ptr)) = some st₂ := by
    rw [exec_loadInt (eval_assign_ptr st n _), memory_assign, h.memory, Value.ofWord,
      Memory.cut_read _ hw]
  exact ⟨st₂, execAll_cons (exec_cast hv rfl) <| execAll_cons hload <| execAll_nil _,
    (h.assign hn _).assign (by omega) _, eval_assign_int st₁ (n + 1) w _⟩

theorem exec_storeCode (h : Related st s) (hn : 3 ≤ n) (hv : st.eval v = some (.int .qword x))
    (hv' : st.eval v' = some (.int w x')) (hbelow' : v'.Below n) :
    ∃ st', st.execAll (storeCode n v v') = some st' ∧
      Related st' { s with memory := s.memory.write w x x' } := by
  let st₁ := st.assign n (.ptr ⟨.flat, x⟩)
  have hv₁ : st₁.eval v' = some (.int w x') := by
    rw [eval_assign hbelow' (Nat.le_refl n), hv']
  exact ⟨_, execAll_cons (exec_cast hv rfl) <|
    execAll_cons (exec_store_int hv₁ (eval_assign_ptr st n _)) <| execAll_nil _,
    (h.assign hn _).writeFlat w x x'⟩

/-! ## The native context -/

open StackOps

/-- Code in a row, in the form in which it is used for blocks. -/
theorem execAll_append_some {st₁ st₂ : State} {code code' : List Instruction}
    (h : st.execAll code = some st₁) (h' : st₁.execAll code' = some st₂) :
    st.execAll (code ++ code') = some st₂ := by
  rw [execAll_append, h]
  exact h'

/-- Saving registers, on both sides. The induction is on the registers, with the states and the
numbering carried along. -/
theorem exec_saveCode (rs : List SavedRegister) (h : Related st s) (hn : 3 ≤ n) :
    ∃ st' s', st.execAll (saveCode slotOperand n rs) = some st' ∧
      (rs.forM saveRegister : Action Simulator PUnit).run s = .ok () s' ∧ Related st' s' ∧
      s'.vregs = s.vregs := by
  induction rs generalizing n st s with
  | nil => exact ⟨st, s, rfl, rfl, h, rfl⟩
  | cons r rest ih =>
    let st₁ := st.assign n (.int .qword (st.registers r))
    have h₁ : Related st₁ s := h.assign hn _
    have hload : st.execAll [.loadRegister n r] = some st₁ := rfl
    have hvalue : st₁.eval (.value n .i64) = some (.int .qword (st.registers r)) :=
      eval_assign_int st n .qword _
    obtain ⟨st₂, hpush, h₂⟩ := exec_pushCode h₁ (by omega : 3 ≤ n + 1) hvalue (by simp)
    obtain ⟨st', s', hrest, hsim, hrel, hvregs⟩ := ih h₂ (by omega : 3 ≤ n + 3)
    refine ⟨st', s', ?_, ?_, hrel, hvregs⟩
    · exact execAll_append_some (execAll_append_some hload hpush) hrest
    · have hsave : (saveRegister r : Action Simulator PUnit).run s
          = .ok () (s.push .qword (st.registers r)) := by
        rw [h.registers]
        rfl
      rw [List.forM, Action.run_bind_of_ok hsave, hsim]

/-- Restoring registers, on both sides. -/
theorem exec_restoreCode (rs : List SavedRegister) (h : Related st s) (hn : 3 ≤ n) :
    ∃ st' s', st.execAll (restoreCode slotOperand n rs) = some st' ∧
      (rs.forM restoreRegister : Action Simulator PUnit).run s = .ok () s' ∧ Related st' s' ∧
      s'.vregs = s.vregs := by
  induction rs generalizing n st s with
  | nil => exact ⟨st, s, rfl, rfl, h, rfl⟩
  | cons r rest ih =>
    obtain ⟨st₁, hpop, h₁, hvalue⟩ := exec_popCode (w := .qword) h hn (by decide)
    have hstore := exec_storeRegister (r := r) hvalue
    have h₂ := h₁.setRegister r (s.pop .qword).1
    obtain ⟨st', s', hrest, hsim, hrel, hvregs⟩ := ih h₂ (by omega : 3 ≤ n + 3)
    exact ⟨st', s', execAll_append_some hpop (execAll_cons hstore hrest), hsim, hrel, hvregs⟩

/-- The code that restores the native context does what the simulator does at the end. -/
theorem exec_epilogue (h : Related st s) (hn : 3 ≤ n) :
    ∃ st' s', st.execAll (epilogue slotOperand n) = some st' ∧
      (restoreRegisters : Action Simulator Unit).run s = .ok () s' ∧ Related st' s' ∧
      s'.vregs = s.vregs :=
  exec_restoreCode SavedRegister.popOrder h hn

end Backend

end CodeRecovery.Graph
