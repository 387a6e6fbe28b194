/-
Types of compiled functions.

The check of a function looks neither at types nor at how blocks follow each other, so that a value
is defined wherever it is used, and with the type it is used at, has to come from the way the
functions are made. A handler's code uses the places that the entry block sets aside and values of
its own block, and nothing else; this is one more correspondence with the skeleton, in which every
operand that an operation gives is in scope and has the type of its width.

A scope is the list of values that may be used, with their types. `Sound` code uses what is in scope
and adds to it, so it may be put behind code; a block of a handler is sound in the scope of the
entry block, and no block leads back there.
-/
import CodeRecovery.Proofs.Graph.Acceptance

set_option autoImplicit false

namespace CodeRecovery.Graph

/-! ## Scopes -/

theorem Ty.ofWidth_ne_ptr (w : Width) : Ty.ofWidth w ≠ .ptr := by
  cases w <;> decide

/-- Values with their types. A value may be used at the type it is listed with, and at no other. -/
abbrev Scope := List (ValueName × Ty)

/-- The type of the value that an instruction assigns. -/
def Instruction.result? : Instruction → Option Ty
  | alloca .. | movePtr .. => some .ptr
  | load _ type _ | cast _ _ _ type => some type
  | binary _ _ lhs _ => some lhs.type
  | icmp .. => some .i1
  | loadRegister .. => some .i64
  | store .. | storeRegister .. => none

/-- The value that an instruction assigns, with its type. A store defines nothing. -/
def Instruction.definition? (i : Instruction) : Option (ValueName × Ty) :=
  i.assigned?.bind fun dst => i.result?.map (dst, ·)

/-- What an instruction asks of the types of its operands. Pointers are not calculated with, and a
cast is between just the types that its kind is for. -/
def Instruction.WellTyped : Instruction → Prop
  | alloca .. | loadRegister .. => True
  | movePtr _ base _ => base.type = .ptr
  | load _ _ ptr | store _ ptr => ptr.type = .ptr
  | binary _ _ lhs rhs | icmp _ _ lhs rhs => lhs.type = rhs.type ∧ lhs.type ≠ .ptr
  | cast _ .sext value type => (value.type = .i1 ∨ value.type = .i32) ∧ type = .i64
  | cast _ .zext value type => value.type = .i32 ∧ type = .i64
  | cast _ .inttoptr value type => value.type = .i64 ∧ type = .ptr
  | cast _ .ptrtoint value type => value.type = .ptr ∧ type = .i64
  | storeRegister _ value => value.type = .i64

/-- What the end of a block asks of the type of its operand. A function returns a whole word, so
nothing is not enough. -/
def Terminator.WellTyped : Terminator → Prop
  | br _ => True
  | brIf condition _ _ => condition.type = .i1
  | ret value => ∃ o, value = some o ∧ o.type = .i64

/-- The operand is a constant, or a value that is in scope with the operand's type. -/
def Operand.In (scope : Scope) (o : Operand) : Prop :=
  ∀ id : Nat, id ∈ o.value? → (id, o.type) ∈ scope

/-- The operand is in scope and of the type. -/
def Operand.Typed (scope : Scope) (type : Ty) (o : Operand) : Prop :=
  o.In scope ∧ o.type = type

section

variable {scope scope' : Scope} {type : Ty} {o : Operand} {id : Nat}

@[simp] theorem Operand.type_value : (Operand.value id type).type = type := rfl

@[simp] theorem Operand.in_value : (Operand.value id type).In scope ↔ (id, type) ∈ scope := by
  simp [In, value?]

@[simp] theorem Operand.in_const {bits : Word} : (Operand.const type bits).In scope := by
  simp [In, value?]

@[simp] theorem Operand.in_append : o.In (scope ++ scope') ↔ o.In scope ∨ o.In scope' := by
  cases o <;> simp

/-- A value that is in scope with a type has it. -/
theorem Operand.typed_value (h : (id, type) ∈ scope) : (Operand.value id type).Typed scope type :=
  ⟨in_value.2 h, rfl⟩

/-- What is in scope stays there. -/
theorem Operand.Typed.append (h : o.Typed scope type) (scope' : Scope) :
    o.Typed (scope ++ scope') type :=
  ⟨in_append.2 (.inl h.1), h.2⟩

end

/-- The values that code defines. -/
def scopeOf (code : List Instruction) : Scope :=
  code.filterMap Instruction.definition?

@[simp] theorem scopeOf_nil : scopeOf [] = [] := rfl

theorem scopeOf_cons (i : Instruction) (code : List Instruction) :
    scopeOf (i :: code) = i.definition?.toList ++ scopeOf code := by
  rw [scopeOf, List.filterMap_cons, scopeOf]
  cases i.definition? <;> rfl

@[simp] theorem scopeOf_append (code code' : List Instruction) :
    scopeOf (code ++ code') = scopeOf code ++ scopeOf code' :=
  List.filterMap_append

/-- What the first instructions of code define is defined at one of their places. -/
theorem exists_of_mem_scopeOf_take {code : List Instruction} {definition : ValueName × Ty} {k : Nat}
    (h : definition ∈ scopeOf (code.take k)) :
    ∃ place < k, ∃ i, code[place]? = some i ∧ i.definition? = some definition := by
  obtain ⟨i, hi, hdefinition⟩ := List.mem_filterMap.1 h
  obtain ⟨place, hplace⟩ := List.mem_iff_getElem?.1 hi
  rw [List.getElem?_take] at hplace
  split at hplace
  · exact ⟨place, ‹_›, i, hplace, hdefinition⟩
  · cases hplace

/-- Code that is well typed and uses what is in scope when it is reached. What an instruction
defines is in scope for the rest. -/
def Sound : Scope → List Instruction → Prop
  | _, [] => True
  | scope, i :: rest => i.WellTyped ∧ (∀ o ∈ i.operands, o.In scope) ∧
    Sound (scope ++ i.definition?.toList) rest

/-- Sound code may be put behind sound code, in the scope that the first leaves. -/
theorem Sound.append {scope : Scope} {code code' : List Instruction} (h : Sound scope code)
    (h' : Sound (scope ++ scopeOf code) code') : Sound scope (code ++ code') := by
  induction code generalizing scope with
  | nil => simpa using h'
  | cons i rest ih =>
    rw [scopeOf_cons, ← List.append_assoc] at h'
    exact ⟨h.1, h.2.1, ih h.2.2 h'⟩

/-- Each instruction of sound code is well typed, and what it uses is in scope or assigned in front
of it. -/
theorem Sound.at {scope : Scope} {code : List Instruction} (h : Sound scope code) {place : Nat}
    {i : Instruction} (hi : code[place]? = some i) :
    i.WellTyped ∧ ∀ o ∈ i.operands, o.In (scope ++ scopeOf (code.take place)) := by
  -- By the code: what the first instruction defines joins the scope of the rest.
  induction code generalizing scope place with
  | nil => cases hi
  | cons first rest ih =>
    cases place with
    | zero =>
      obtain rfl : first = i := Option.some.inj hi
      exact ⟨h.1, by simpa using h.2.1⟩
    | succ place =>
      have hrest := ih h.2.2 hi
      rwa [List.append_assoc, ← scopeOf_cons, ← List.take_succ_cons] at hrest

/-- The code of a block is sound, its end is well typed and uses what is in scope behind the code,
and the block does not lead to the entry block. -/
structure SoundBlock (scope : Scope) (block : Block) : Prop where
  code : Sound scope block.instructions.toList
  final : ∃ t, block.terminator = some t ∧ t.WellTyped ∧
    ∀ o ∈ t.operands, o.In (scope ++ scopeOf block.instructions.toList)
  successors : 0 ∉ block.successors

/-- What a sound block uses is in scope or assigned in front of it. The end of a block stands behind
all of its code. -/
theorem SoundBlock.use {scope : Scope} {block : Block} (h : SoundBlock scope block)
    {use : Operand × Nat} (huse : use ∈ block.uses) :
    use.1.In (scope ++ scopeOf (block.instructions.toList.take use.2)) := by
  rcases Block.mem_uses.1 huse with ⟨i, hi, ho⟩ | ⟨hplace, t, ht, ho⟩
  · exact (h.code.at hi).2 use.1 ho
  · obtain ⟨t', ht', -, hoperands⟩ := h.final
    obtain rfl : t' = t := Option.some.inj (ht'.symm.trans ht)
    rw [hplace, List.take_length]
    exact hoperands use.1 ho

/-! ## The code of each operation -/

namespace Backend

section

variable {scope : Scope} {n : Nat} {slot vregs v v' : Operand}

section

-- Unfolding the code and these leaves only types and membership in scopes.
attribute [local simp] Sound Instruction.operands Instruction.definition? Instruction.assigned?
  Instruction.result? Instruction.WellTyped

/-- The code of each operation is sound if its operands are in scope and have the types that it
needs. What it defines itself has them by the way it is made. -/
theorem sound_pushCode (w : Width) (hslot : slot.Typed scope .ptr) (hv : v.In scope) :
    Sound scope (pushCode slot n w v) := by
  simp [pushCode, hslot.1, hslot.2, hv]

theorem sound_popCode (w : Width) (hslot : slot.Typed scope .ptr) :
    Sound scope (popCode slot n w) := by
  simp [popCode, hslot.1, hslot.2]

theorem sound_getVregCode (w : Width) (index : Nat) (hvregs : vregs.Typed scope .ptr) :
    Sound scope (getVregCode vregs n w index) := by
  simp [getVregCode, hvregs.1, hvregs.2]

theorem sound_setWideVregCode (index : Nat) (hvregs : vregs.Typed scope .ptr) (hv : v.In scope) :
    Sound scope (setWideVregCode vregs n index v) := by
  simp [setWideVregCode, hvregs.1, hvregs.2, hv]

theorem sound_setNarrowVregCode (index : Nat) (hvregs : vregs.Typed scope .ptr)
    (hv : v.Typed scope .i32) : Sound scope (setNarrowVregCode vregs n index v) := by
  simp [setNarrowVregCode, hvregs.1, hvregs.2, hv.1, hv.2]

theorem sound_getVspCode (hslot : slot.Typed scope .ptr) : Sound scope (getVspCode slot n) := by
  simp [getVspCode, hslot.1, hslot.2]

theorem sound_setVspCode (hslot : slot.Typed scope .ptr) (hv : v.Typed scope .i64) :
    Sound scope (setVspCode slot n v) := by
  simp [setVspCode, hslot.1, hslot.2, hv.1, hv.2]

theorem sound_loadCode (w : Width) (hv : v.Typed scope .i64) : Sound scope (loadCode n w v) := by
  simp [loadCode, hv.1, hv.2]

theorem sound_storeCode (hv : v.Typed scope .i64) (hv' : v'.In scope) :
    Sound scope (storeCode n v v') := by
  simp [storeCode, hv.1, hv.2, hv']

theorem sound_singleton {i : Instruction} (hi : i.WellTyped)
    (hoperands : ∀ o ∈ i.operands, o.In scope) : Sound scope [i] :=
  ⟨hi, hoperands, trivial⟩

end

/-- Saving is loading and pushing, register by register. -/
theorem sound_saveCode (rs : List SavedRegister) (hslot : slot.Typed scope .ptr) :
    Sound scope (saveCode slot n rs) := by
  induction rs generalizing scope n with
  | nil => trivial
  | cons r rest ih =>
    have hload : Sound scope [.loadRegister n r] := sound_singleton trivial nofun
    have hpush := sound_pushCode (n := n + 1) (v := .value n .i64) .qword
      (hslot.append (scopeOf [.loadRegister n r]))
      (Operand.in_append.2 (.inr (Operand.in_value.2 List.mem_cons_self)))
    exact (hload.append hpush).append (ih (hslot.append _))

/-- Restoring is popping and storing, register by register. -/
theorem sound_restoreCode (rs : List SavedRegister) (hslot : slot.Typed scope .ptr) :
    Sound scope (restoreCode slot n rs) := by
  induction rs generalizing scope n with
  | nil => trivial
  | cons r rest ih =>
    -- What is popped is the second value that popping assigns.
    have hpopped : (Operand.value (n + 1) .i64).Typed
        (scope ++ scopeOf (popCode slot n .qword)) .i64 :=
      Operand.typed_value (List.mem_append_right _ (List.mem_cons_of_mem _ List.mem_cons_self))
    have hstore : Sound (scope ++ scopeOf (popCode slot n .qword))
        [.storeRegister r (.value (n + 1) .i64)] :=
      sound_singleton rfl (by simpa [Instruction.operands] using hpopped.1)
    exact (sound_popCode .qword hslot).append (hstore.append (ih ((hslot.append _).append _)))

end

/-! ## With the skeleton -/

/-- What the entry block leaves: the places of the stack, of the stack pointer and of the virtual
registers, and the end of the stack. -/
def entryScope : Scope :=
  [(0, .ptr), (1, .ptr), (2, .ptr), (3, .ptr)]

/-- The places of the stack pointer and of the virtual registers are always in scope. -/
theorem typed_slotOperand (scope : Scope) : slotOperand.Typed (entryScope ++ scope) .ptr :=
  Operand.typed_value (List.mem_append_left _ (by decide))

theorem typed_fileOperand (scope : Scope) : fileOperand.Typed (entryScope ++ scope) .ptr :=
  Operand.typed_value (List.mem_append_left _ (by decide))

/-- What may be used next in the block of a handler: what the entry block leaves, and what the block
has so far. -/
def scope (b : Backend) : Scope :=
  entryScope ++ scopeOf b.written

/-- Adding code adds what it defines. -/
theorem scope_emitted {b : Backend} (h : Placed b) (code : List Instruction) (count : Nat) :
    (b.emitted code count).scope = b.scope ++ scopeOf code := by
  rw [scope, written_emitted h, scopeOf_append, ← List.append_assoc, scope]

/-- The compiler knows the two places by operands that are in scope. -/
theorem Placed.typed_vspSlot {b : Backend} (h : Placed b) : b.vspSlot.Typed b.scope .ptr :=
  h.slot ▸ typed_slotOperand _

theorem Placed.typed_vregs {b : Backend} (h : Placed b) : b.vregs.Typed b.scope .ptr :=
  h.file ▸ typed_fileOperand _

/-- A value that was just assigned is in scope, with the type it was assigned with. -/
theorem Placed.typed_assigned {b : Backend} (h : Placed b) {type : Ty} {id : Nat}
    {code : List Instruction} {count : Nat} (hid : (id, type) ∈ scopeOf code) :
    (Operand.value id type).Typed (b.emitted code count).scope type := by
  rw [scope_emitted h]
  exact Operand.typed_value (List.mem_append_right _ hid)

/-- The current block is sound, and operands are in scope with the types of their widths. Scopes
only grow, so an operand that is held stays good. -/
def typingOf (registers : Nat) : Correspondence Backend Operand Skeleton Unit where
  State _ b t := Placed b ∧ Sound entryScope b.written ∧ b.virtualRegisters = registers ∧
    t.virtualRegisters = registers
  Now b _ w v _ := v.Typed b.scope (.ofWidth w)
  Held b _ w v _ := v.Typed b.scope (.ofWidth w)

/-- **Adding sound code keeps the correspondence with the skeleton.** Each operation of the compiler
is of this form. -/
theorem typing_joint {registers : Nat} {b : Backend} {t : Skeleton} {α β : Type} {n n' : Nat}
    {R : Backend → Skeleton → α → β → Prop} {code : List Instruction} {count : Nat} {a : α} {a' : β}
    {x : Action Backend α} {y : Action Skeleton β} (hstate : (typingOf registers).State n b t)
    (hrun : x.run b = .ok a (b.emitted code count)) (hskeleton : y.run t = .ok a' t)
    (hsound : Sound b.scope code) (hR : R (b.emitted code count) t a a') :
    (typingOf registers).Joint n' b t R (x.run b) (y.run t) := by
  obtain ⟨hplaced, hwritten, hregisters, hregisters'⟩ := hstate
  rw [hrun, hskeleton]
  refine .ok ⟨hplaced.emitted .., ?_, hregisters, hregisters'⟩ ?_ hR
  · rw [written_emitted hplaced]
    exact hwritten.append hsound
  · intro w v _ hheld
    change v.Typed (b.emitted code count).scope (.ofWidth w)
    rw [scope_emitted hplaced]
    exact hheld.append _

/-- The graph compiler, coupled with the skeleton by types. It is here that widths meet types: an
operand of a width is used at the type of that width. -/
def typing (registers : Nat) : Coupling Backend Operand Skeleton Unit where
  toCorrespondence := typingOf registers
  now_of_held h := h
  weaken h := h
  registers := registers
  virtualRegisters h := h.2.2
  constant w c hstate :=
    .ok hstate (Correspondence.Later.refl _ _) ⟨Operand.in_const, rfl⟩
  push {n s t w v x} _ hstate hv :=
    typing_joint hstate (run_push s w v) rfl (sound_pushCode w hstate.1.typed_vspSlot hv.1) trivial
  pop {n s t w} _ hstate :=
    typing_joint hstate (run_pop s w) rfl (sound_popCode w hstate.1.typed_vspSlot)
      (hstate.1.typed_assigned (List.mem_cons_of_mem _ List.mem_cons_self))
  getVreg {n s t w index} _ hstate _ :=
    typing_joint hstate (run_getVreg s w index) rfl (sound_getVregCode w index hstate.1.typed_vregs)
      (hstate.1.typed_assigned (List.mem_cons_of_mem _ List.mem_cons_self))
  setVreg {n s t w index v x} hw hstate _ hv := by
    -- A doubleword is widened in front of its store; no single bit is ever stored here.
    cases w with
    | bit => exact absurd rfl hw
    | dword =>
      exact typing_joint hstate (run_setVreg_narrow s (by decide) index v) rfl
        (sound_setNarrowVregCode index hstate.1.typed_vregs hv) trivial
    | qword =>
      exact typing_joint hstate (run_setVreg_qword s index v) rfl
        (sound_setWideVregCode index hstate.1.typed_vregs hv.1) trivial
  getVsp {n s t} hstate :=
    typing_joint hstate (run_getVsp s) rfl (sound_getVspCode hstate.1.typed_vspSlot)
      (hstate.1.typed_assigned (List.mem_cons_of_mem _ List.mem_cons_self))
  setVsp {n s t v x} hstate hv :=
    typing_joint hstate (run_setVsp s v) rfl (sound_setVspCode hstate.1.typed_vspSlot hv) trivial
  binary {n s t} op {w lhs rhs lhs' rhs'} hstate hlhs hrhs := by
    have hrun := run_binary s op w lhs rhs
    rw [hlhs.2] at hrun
    refine typing_joint hstate hrun rfl (sound_singleton ?_ ?_) (hstate.1.typed_assigned ?_)
    · exact ⟨hlhs.2.trans hrhs.2.symm, hlhs.2 ▸ Ty.ofWidth_ne_ptr w⟩
    · simp [Instruction.operands, hlhs.1, hrhs.1]
    · exact hlhs.2 ▸ List.mem_cons_self
  signExtend {n s t w v x} hw hstate hv := by
    refine typing_joint hstate (run_signExtend s w v) rfl (sound_singleton ⟨?_, rfl⟩ ?_)
      (hstate.1.typed_assigned List.mem_cons_self)
    · rw [hv.2]
      cases w with
      | bit => exact .inl rfl
      | dword => exact .inr rfl
      | qword => exact absurd rfl hw
    · simp [Instruction.operands, hv.1]
  testZero {n s t w v x} hstate hv :=
    typing_joint hstate (run_testZero s w v) rfl
      (sound_singleton ⟨hv.2, hv.2 ▸ Ty.ofWidth_ne_ptr w⟩ (by simp [Instruction.operands, hv.1]))
      (hstate.1.typed_assigned List.mem_cons_self)
  testNonzero {n s t w v x} hstate hv :=
    typing_joint hstate (run_testNonzero s w v) rfl
      (sound_singleton ⟨hv.2, hv.2 ▸ Ty.ofWidth_ne_ptr w⟩ (by simp [Instruction.operands, hv.1]))
      (hstate.1.typed_assigned List.mem_cons_self)
  load {n s t w v x} _ hstate hv :=
    typing_joint hstate (run_load s w v) rfl (sound_loadCode w hv)
      (hstate.1.typed_assigned (List.mem_cons_of_mem _ List.mem_cons_self))
  store {n s t w v x v' x'} _ hstate hv hv' :=
    typing_joint hstate (run_store s w v v') rfl (sound_storeCode hv hv'.1) trivial
  saveRegisters {n s t} hstate :=
    typing_joint hstate (run_saveRegisters s) rfl
      (sound_saveCode SavedRegister.pushOrder hstate.1.typed_vspSlot) trivial
  restoreRegisters {n s t} hstate :=
    typing_joint hstate (run_restoreRegisters s) rfl
      (sound_restoreCode SavedRegister.popOrder hstate.1.typed_vspSlot) trivial

/-! ## The blocks of a compiled function -/

variable {s : Settings} {p : Program} {b : Backend} {registers k n n' : Nat} {block : Block}
  {h : Handler} {code : List Instruction} {outcome : Outcome Operand}

/-- The code of a handler is sound behind the entry block, and a branch tests a bit in its scope.
The code was written into an empty block, so its scope is what the entry block leaves. -/
theorem Body.sound (hbody : Body registers n h k outcome code n') :
    Sound entryScope code ∧ ∀ condition target, outcome = .branch condition target →
      condition.Typed (entryScope ++ scopeOf code) .i1 := by
  obtain ⟨b, count, hplaced, hempty, rfl, -, hrun, -, fate, hfate, -⟩ := hbody
  have hstate : (typing b.virtualRegisters).State 8 b ⟨b.virtualRegisters⟩ :=
    ⟨hplaced, hempty ▸ trivial, rfl, rfl⟩
  obtain ⟨outcome', b', hrun', hstate', hsame⟩ :=
    (typing b.virtualRegisters).perform_of_fate_ok (n := 0) hstate hfate
  -- Both say what one run does, so the code that was added is the code of the body.
  rw [hrun] at hrun'
  cases hrun'
  have hwritten : (b.emitted code count).written = code := by
    rw [written_emitted hplaced, hempty, List.nil_append]
  refine ⟨hwritten ▸ hstate'.2.1, ?_⟩
  rintro condition target rfl
  cases hsame with
  | branch hcondition =>
    have htyped : condition.Typed (b.emitted code count).scope .i1 := hcondition
    rwa [scope, hwritten] at htyped

/-- The result register is read and returned behind sound code, in both of the ways in which a
routine is left. -/
theorem soundBlock_result {scope : Scope} (name : String) (hcode : Sound scope code) :
    SoundBlock scope ⟨name, (code ++ resultCode n).toArray,
      some (.ret (some (.value n .i64)))⟩ where
  code := hcode.append (sound_singleton trivial nofun)
  final := by
    refine ⟨_, rfl, ⟨_, rfl, rfl⟩, fun o ho => ?_⟩
    obtain rfl : o = .value n .i64 := List.mem_singleton.1 ho
    have hmem : (n, .i64) ∈ scopeOf (code ++ resultCode n) := by
      rw [scopeOf_append]
      exact List.mem_append_right _ List.mem_cons_self
    exact Operand.in_value.2 (List.mem_append_right _ hmem)
  successors := nofun

/-- The entry block uses only what it defines. -/
theorem soundBlock_entryBlock (s : Settings) : SoundBlock [] (entryBlock s) where
  code := by
    simp [entryBlock, Sound, Instruction.WellTyped, Instruction.operands, Instruction.definition?,
      Instruction.assigned?, Instruction.result?, slotOperand]
  final := ⟨_, rfl, trivial, nofun⟩
  successors := by simp [entryBlock, Block.successors, Terminator.successors]

/-- The shared block restores the registers from the stack, whose place is in scope. -/
theorem soundBlock_exitBlock (n : Nat) : SoundBlock entryScope (exitBlock n) :=
  soundBlock_result exitLabel (sound_restoreCode SavedRegister.popOrder (typed_slotOperand []))

/-- The block of a handler is sound behind the entry block, and leads to blocks of handlers or to
the shared one. -/
theorem Lowered.sound (hlowered : Lowered registers p k n block n') :
    SoundBlock entryScope block := by
  cases hlowered with
  | next _ hbody _ =>
    refine ⟨hbody.sound.1, ⟨_, rfl, trivial, nofun⟩, ?_⟩
    simp [Block.successors, Terminator.successors]
  | last _ hbody _ =>
    exact soundBlock_result _
      (hbody.sound.1.append (sound_restoreCode SavedRegister.popOrder (typed_slotOperand _)))
  | exit _ hbody => exact soundBlock_result _ hbody.sound.1
  | branch _ hbody _ =>
    obtain ⟨hcode, hbranch⟩ := hbody.sound
    have hcondition := hbranch _ _ rfl
    refine ⟨hcode, ⟨_, rfl, hcondition.2, ?_⟩, ?_⟩
    · intro o ho
      obtain rfl := List.mem_singleton.1 ho
      exact hcondition.1
    · simp [Block.successors, Terminator.successors]

/-- The entry block is sound, and every other block is sound behind it. -/
theorem Finished.sound (hfinished : Finished s p b) :
    ∃ rest, b.cursor.function.blocks.toList = entryBlock s :: rest ∧
      ∀ block ∈ rest, SoundBlock entryScope block := by
  obtain ⟨done, n, hlaid, hblocks, -⟩ := hfinished.laid
  refine ⟨_, hblocks, fun block hblock => ?_⟩
  rcases List.mem_append.1 hblock with hblock | hblock
  · obtain ⟨position, n₀, n₁, hlowered⟩ := hlaid.exists_lowered hblock
    exact hlowered.sound
  · split at hblock
    · obtain rfl := List.mem_singleton.1 hblock
      exact soundBlock_exitBlock n
    · cases hblock

end Backend

/-! ## Well-typed functions -/

namespace Function

/-- The instruction at a place of a block defines the value, with its type. -/
def Defines (f : Function) (home : BlockIndex) (place : Nat) (value : ValueName) (type : Ty) :
    Prop :=
  ∃ block i, f.blocks[home]? = some block ∧ block.instructions[place]? = some i ∧
    i.definition? = some (value, type)

/-- **Legal typed code.** Nothing leads to the entry block; instructions and ends of blocks have
operands of the right types; and a value is used behind its definition in the same block, or is
defined in the entry block, in either case with the type it is used at. -/
structure WellTyped (f : Function) : Prop where
  entry : f.predecessors 0 = []
  instructions : ∀ block ∈ f.blocks, ∀ i ∈ block.instructions, i.WellTyped
  terminators : ∀ block ∈ f.blocks, ∃ t, block.terminator = some t ∧ t.WellTyped
  uses : ∀ id block, f.blocks[id]? = some block → ∀ use ∈ block.uses, ∀ value ∈ use.1.value?,
    (∃ place < use.2, f.Defines id place value use.1.type) ∨
      id ≠ 0 ∧ ∃ place, f.Defines 0 place value use.1.type

variable {f : Function} {entry : Block} {rest : List Block}

/-- What is in scope of a place was defined in front of it. -/
theorem defines_of_mem_scopeOf {id : Nat} {block : Block} {value : ValueName} {type : Ty} {k : Nat}
    (hblock : f.blocks[id]? = some block)
    (hmem : (value, type) ∈ scopeOf (block.instructions.toList.take k)) :
    ∃ place < k, f.Defines id place value type := by
  obtain ⟨place, hlt, i, hi, hdefinition⟩ := exists_of_mem_scopeOf_take hmem
  rw [Array.getElem?_toList] at hi
  exact ⟨place, hlt, block, i, hblock, hi, hdefinition⟩

/-- Blocks that are sound behind a sound first block make up a well-typed function. No block leads
to the first one, so it is run once and its definitions hold everywhere. -/
theorem wellTyped_of_sound (hblocks : f.blocks.toList = entry :: rest)
    (hentry : SoundBlock [] entry)
    (hrest : ∀ block ∈ rest, SoundBlock (scopeOf entry.instructions.toList) block) :
    f.WellTyped := by
  have hsound : ∀ block ∈ f.blocks, ∃ scope, SoundBlock scope block := by
    intro block hblock
    rw [← Array.mem_toList_iff, hblocks, List.mem_cons] at hblock
    rcases hblock with rfl | hblock
    · exact ⟨_, hentry⟩
    · exact ⟨_, hrest block hblock⟩
  refine { entry := ?start, instructions := ?bodies, terminators := ?ends, uses := ?uses }
  case start =>
    rw [predecessors, List.map_eq_nil_iff, List.filter_eq_nil_iff]
    rintro ⟨block, id⟩ hmem
    have hget := List.mk_mem_zipIdx_iff_getElem?.1 hmem
    obtain ⟨scope, hblock⟩ := hsound block (Array.mem_toList_iff.1 (List.mem_of_getElem? hget))
    simpa using hblock.successors
  case bodies =>
    intro block hblock i hi
    obtain ⟨scope, hblock⟩ := hsound block hblock
    obtain ⟨place, hplace⟩ := List.mem_iff_getElem?.1 (Array.mem_toList_iff.2 hi)
    exact (hblock.code.at hplace).1
  case ends =>
    intro block hblock
    obtain ⟨scope, hblock⟩ := hsound block hblock
    obtain ⟨t, ht, htyped, -⟩ := hblock.final
    exact ⟨t, ht, htyped⟩
  case uses =>
    intro id block hblock use huse value hvalue
    have hget : (entry :: rest)[id]? = some block := by
      rw [← hblocks, Array.getElem?_toList, hblock]
    cases id with
    | zero =>
      obtain rfl : entry = block := Option.some.inj hget
      have hmem := hentry.use huse value hvalue
      exact .inl (defines_of_mem_scopeOf hblock hmem)
    | succ id =>
      have hfirst : f.blocks[0]? = some entry := by rw [← Array.getElem?_toList, hblocks]; rfl
      have hmem := (hrest block (List.mem_of_getElem? hget)).use huse value hvalue
      -- In scope are the definitions of the whole entry block and those in front of the use.
      rcases List.mem_append.1 hmem with hmem | hmem
      · rw [← List.take_length (l := entry.instructions.toList)] at hmem
        obtain ⟨place, -, hdefines⟩ := defines_of_mem_scopeOf hfirst hmem
        exact .inr ⟨Nat.succ_ne_zero id, place, hdefines⟩
      · exact .inl (defines_of_mem_scopeOf hblock hmem)

end Function

namespace Backend

/-- **Compiled functions are legal and typed.** A run never fails in the check of its own result,
and what a compilation leaves passes that check and is well typed. The check itself does not look at
types. -/
theorem wellTyped_compile (s : Settings) (p : Program) :
    (∀ reason b, (run p).run (new s) ≠ .error (.failed (.malformed reason)) b) ∧
      ∀ b, p ≠ [] → (p.compile : Action Backend Unit).run (new s) = .ok () b →
        b.cursor.function.verify = .ok () ∧ b.cursor.function.WellTyped := by
  constructor
  · intro reason b hrun
    by_cases hp : p = []
    · subst hp
      cases hrun
    · rcases run_cases s hp with ⟨-, b', hok⟩ | ⟨position, cause, b', hflaw, -, hfailed⟩
      · rw [hok] at hrun
        cases hrun
      · -- The causes of failures are flaws of handlers, and being malformed is none.
        rw [hfailed] at hrun
        cases hrun
        cases Program.fault_of_flaw? hflaw
  · intro b hp hcompile
    have hfinished := finished_of_compile hp hcompile
    obtain ⟨rest, hblocks, hrest⟩ := hfinished.sound
    exact ⟨hfinished.verify hp, Function.wellTyped_of_sound hblocks (soundBlock_entryBlock s) hrest⟩

/-- Every instruction once, and then back to the first. -/
def catalogue : Program :=
  (Opcode.all.erase .unknown).zipIdx.map fun (opcode, i) =>
    { opcode, data := 0, address := UInt32.ofNat i, dispatch := 0, width := 1 }

/-- There is a branch and an exit in it, so all ways in which a block ends are there. -/
theorem wellTyped_compile_catalogue :
    ∃ b, catalogue ≠ [] ∧ (catalogue.compile : Action Backend Unit).run (new {}) = .ok () b ∧
      b.cursor.function.verify = .ok () ∧ b.cursor.function.WellTyped := by
  have hne : catalogue ≠ [] := by decide
  obtain ⟨b, hrun⟩ : ∃ b, (catalogue.compile : Action Backend Unit).run (new {}) = .ok () b :=
    Action.exists_of_succeeds (by decide +kernel)
  exact ⟨b, hne, hrun, (wellTyped_compile {} catalogue).2 b hne hrun⟩

end Backend

end CodeRecovery.Graph
