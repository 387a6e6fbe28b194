/-
What the instructions of a handler read and write.

A temporary is in scope behind the instruction that writes it, together with its size. Code is sound
if each of its instructions reads what is in scope, names virtual registers that there are, and has
operands of sizes that fit. It is no accident of a few handlers: every operation of the virtual
machine, given operands that are known, writes sound code and gives a known operand, so all handlers
do.

One thing is not true of the operations but only of their use. A comparison takes words, and the
machine could be asked to compare something narrower; handlers widen it first. So the compiler is
coupled with a machine that does nothing but notice such a request, of which every handler is found
innocent.
-/
import CodeRecovery.Proofs.Routine.Shape
import CodeRecovery.Proofs.Session

set_option autoImplicit false

namespace CodeRecovery

/-! ## Comparing words only -/

/-- A machine of which the number of virtual registers is known, and whether it was only ever asked
to compare words with zero. Its other operations do nothing. -/
structure Gauge where
  virtualRegisters : Nat
  words : Bool

namespace Gauge

/-- Compares something of a width with zero. Once anything but a word was compared, that stays on
record. -/
def compare (g : Gauge) : Width → Gauge
  | .qword => g
  | _ => { g with words := false }

instance : StackOps Gauge Unit where
  virtualRegisters g := g.virtualRegisters
  constant _ _ := pure ()
  push _ _ := pure ()
  pop _ := pure ()
  getVreg _ _ := pure ()
  setVreg _ _ _ := pure ()
  getVsp := pure ()
  setVsp _ := pure ()
  getRegister _ := pure ()
  setRegister _ _ := pure ()
  binary _ _ _ _ := pure ()
  signExtend _ _ := pure ()
  testZero w _ := modify (·.compare w)
  testNonzero w _ := modify (·.compare w)
  load _ _ := pure ()
  store _ _ _ := pure ()
  saveRegisters := pure ()
  restoreRegisters := pure ()

/-- If only words were compared, the last one was a word. -/
theorem words_compare {g : Gauge} {w : Width} (h : (g.compare w).words = true) :
    w = .qword ∧ g.words = true := by
  cases w with
  | bit => cases h
  | dword => cases h
  | qword => exact ⟨rfl, h⟩

theorem virtualRegisters_compare (g : Gauge) (w : Width) :
    (g.compare w).virtualRegisters = g.virtualRegisters := by
  cases w <;> rfl

/-- **No handler compares anything but words.** A narrow result is widened in front of its flag
word, and a branch pops a whole word. -/
theorem eq_of_perform {h : Handler} {position : Nat} {g g' : Gauge} {outcome : Outcome Unit}
    (hrun : (h.perform position : Action Gauge (Outcome Unit)).run g = .ok outcome g') :
    g' = g := by
  unfold Handler.perform at hrun
  cases hop : h.opcode with
  | popVr64 | popVr32 | pushVr64 | pushVr32 =>
    rw [hop] at hrun
    obtain ⟨index, g₁, hvreg, hrest⟩ := Action.exists_of_run_bind_ok hrun
    obtain rfl := (h.within_vreg .eq position).of_run hvreg
    cases hrest
    rfl
  | unknown =>
    rw [hop] at hrun
    cases hrun
  | _ =>
    rw [hop] at hrun
    cases hrun
    rfl

end Gauge

namespace Routine

/-! ## Reads and writes -/

/-- Whether the first operand is written. No other operand ever is. -/
def Operation.writesFirst : Operation → Bool
  | .mov | .movsx | .add | .sub | .or | .and | .xor | .te | .tne | .ldd | .pop => true
  | _ => false

/-- Whether the first operand is read. The operations that combine two operands read it and write
it. -/
def Operation.readsFirst : Operation → Bool
  | .mov | .movsx | .te | .tne | .ldd | .pop => false
  | _ => true

/-- Temporaries with their sizes. -/
abbrev Scope := List (UInt32 × UInt32)

/-- The temporary that an operand names, at some size. -/
def Operand.temporary? : Operand → Option (UInt32 × UInt32)
  | .register (.temporary index) bits => some (index, bits)
  | _ => none

/-- The virtual register that an operand names. -/
def Operand.vreg? : Operand → Option UInt32
  | .register (.virtual index) _ => some index
  | _ => none

namespace Code

/-- The operands that an instruction reads. -/
def reads (c : Code) : List Operand :=
  if c.1.readsFirst then c.2 else c.2.tail

/-- The operands that an instruction writes. -/
def writes (c : Code) : List Operand :=
  if c.1.writesFirst then c.2.take 1 else []

/-- The temporaries that an instruction writes. -/
def defines (c : Code) : Scope :=
  c.writes.filterMap Operand.temporary?

/-- The operands are as many as the operation takes, and their sizes fit it. A move may widen;
arithmetic is between equal sizes. -/
def Fits : Code → Prop
  | (.mov, [dst, src]) => src.bits ≤ dst.bits
  | (.movsx, [dst, src]) => dst.bits = 64 ∧ (src.bits = 1 ∨ src.bits = 32)
  | (.add, [dst, src]) | (.sub, [dst, src]) | (.or, [dst, src]) | (.and, [dst, src])
  | (.xor, [dst, src]) => dst.bits = src.bits
  | (.te, [dst, lhs, rhs]) | (.tne, [dst, lhs, rhs]) => dst.bits = 1 ∧ lhs.bits = 64 ∧ rhs.bits = 64
  | (.ldd, [_, base, offset]) | (.str, [base, offset, _]) => base.bits = 64 ∧ offset.bits = 64
  | (.push, [o]) | (.pop, [o]) => o.bits = 32 ∨ o.bits = 64
  | (.pushf, []) | (.popf, []) => True
  | (.js, [condition, yes, no]) => condition.bits = 1 ∧ yes.bits = 64 ∧ no.bits = 64
  | (.jmp, [o]) | (.vexit, [o]) => o.bits = 64
  | _ => False

/-- Every operand is read or written, or both. -/
theorem mem_reads_or_writes {c : Code} {o : Operand} (ho : o ∈ c.2) :
    o ∈ c.reads ∨ o ∈ c.writes := by
  obtain ⟨op, operands⟩ := c
  have hop : op.readsFirst = true ∨ op.readsFirst = false ∧ op.writesFirst = true := by
    cases op <;> decide
  unfold reads writes
  rcases hop with hreads | ⟨hreads, hwrites⟩
  · rw [if_pos hreads]
    exact .inl ho
  · rw [if_neg (by simp [hreads]), if_pos hwrites]
    cases operands with
    | nil => cases ho
    | cons first rest =>
      rcases List.mem_cons.1 ho with rfl | hrest
      · exact .inr List.mem_cons_self
      · exact .inl hrest

end Code

/-! ## Sound code -/

/-- The operand is in scope if it is a temporary, and in the file if it is a virtual register. -/
structure Operand.Named (registers : Nat) (scope : Scope) (o : Operand) : Prop where
  temporary : ∀ t ∈ o.temporary?, t ∈ scope
  vreg : ∀ index ∈ o.vreg?, index.toNat < registers

/-- The operand can be used as a value of the width: it is named, and has as many bits. -/
structure Operand.Known (registers : Nat) (scope : Scope) (w : Width) (o : Operand) : Prop extends
    o.Named registers scope where
  bits : o.bits = UInt32.ofNat w.bits

theorem Operand.Known.append {registers : Nat} {scope : Scope} {w : Width} {o : Operand}
    (h : o.Known registers scope w) (scope' : Scope) : o.Known registers (scope ++ scope') w where
  temporary t ht := List.mem_append_left scope' (h.temporary t ht)
  vreg := h.vreg
  bits := h.bits

/-- An instruction at a place where some temporaries are in scope. Temporaries may be written
whether or not they are. -/
structure Code.Sound (registers : Nat) (scope : Scope) (c : Code) : Prop where
  fits : c.Fits
  reads : ∀ o ∈ c.reads, o.Named registers scope
  writes : ∀ o ∈ c.writes, ∀ index ∈ o.vreg?, index.toNat < registers

/-- The temporaries that code writes. -/
def scopeOf (code : List Code) : Scope :=
  code.flatMap Code.defines

@[simp] theorem scopeOf_nil : scopeOf [] = [] := rfl

theorem scopeOf_cons (c : Code) (code : List Code) :
    scopeOf (c :: code) = c.defines ++ scopeOf code :=
  List.flatMap_cons

@[simp] theorem scopeOf_append (code code' : List Code) :
    scopeOf (code ++ code') = scopeOf code ++ scopeOf code' :=
  List.flatMap_append

/-- Each instruction is sound where it stands: in the scope of what was written in front of it. -/
def Sound (registers : Nat) : Scope → List Code → Prop
  | _, [] => True
  | scope, c :: rest => c.Sound registers scope ∧ Sound registers (scope ++ c.defines) rest

section

variable {registers : Nat} {scope : Scope} {code code' : List Code} {c : Code}

theorem sound_singleton (h : c.Sound registers scope) : Sound registers scope [c] :=
  ⟨h, trivial⟩

/-- Sound code may be put behind sound code, in the scope that the first leaves. -/
theorem Sound.append (h : Sound registers scope code)
    (h' : Sound registers (scope ++ scopeOf code) code') :
    Sound registers scope (code ++ code') := by
  induction code generalizing scope with
  | nil => simpa using h'
  | cons c rest ih =>
    rw [scopeOf_cons, ← List.append_assoc] at h'
    exact ⟨h.1, ih h.2 h'⟩

/-- The scope of an instruction is what those in front of it write. -/
theorem Sound.at (h : Sound registers scope code) {place : Nat} (hc : code[place]? = some c) :
    c.Sound registers (scope ++ scopeOf (code.take place)) := by
  -- By the code: what the first instruction writes joins the scope of the rest.
  induction code generalizing scope place with
  | nil => cases hc
  | cons first rest ih =>
    cases place with
    | zero =>
      obtain rfl : first = c := Option.some.inj hc
      simpa using h.1
    | succ place =>
      have hrest := ih h.2 hc
      rwa [List.append_assoc, ← scopeOf_cons, ← List.take_succ_cons] at hrest

end

namespace Backend

/-! ## The code of each operation -/

section

variable {registers : Nat} {scope : Scope} {w : Width} {index : UInt32} {v v' : Operand}

/-- A temporary in scope can be used at its size. -/
theorem known_temporary (h : (index, UInt32.ofNat w.bits) ∈ scope) :
    (temporary index w).Known registers scope w where
  temporary := by
    rintro t ⟨⟩
    exact h
  vreg := fun _ hindex => nomatch hindex
  bits := rfl

/-- A constant, the stack pointer or a native register can be named anywhere. -/
theorem named_anywhere (htemporary : v.temporary? = none) (hvreg : v.vreg? = none) :
    v.Named registers scope where
  temporary t ht := by
    rw [htemporary] at ht
    cases ht
  vreg index hindex := by
    rw [hvreg] at hindex
    cases hindex

/-- The number of a register is cut to 32 bits, which does not lead out of the file. -/
theorem lt_of_vregOf {index bits : Nat} (hindex : index < registers) :
    ∀ i ∈ (vregOf index bits).vreg?, i.toNat < registers := by
  rintro i ⟨⟩
  exact Nat.lt_of_le_of_lt (Nat.mod_le index (2 ^ 32)) hindex

/-- A virtual register that there is can be used at any size. -/
theorem known_vregOf {index : Nat} (hindex : index < registers) (w : Width) :
    (vregOf index w.bits).Known registers scope w where
  temporary := fun _ ht => nomatch ht
  vreg := lt_of_vregOf hindex
  bits := rfl

/-- What is pushed or popped has 32 or 64 bits. -/
theorem bits_of_ne_bit (hw : w ≠ .bit) : UInt32.ofNat w.bits = 32 ∨ UInt32.ofNat w.bits = 64 := by
  cases w with
  | bit => exact absurd rfl hw
  | dword => exact .inl rfl
  | qword => exact .inr rfl

/-- What is widened has one bit or 32. -/
theorem bits_of_ne_qword (hw : w ≠ .qword) :
    UInt32.ofNat w.bits = 1 ∨ UInt32.ofNat w.bits = 32 := by
  cases w with
  | bit => exact .inl rfl
  | dword => exact .inr rfl
  | qword => exact absurd rfl hw

theorem vreg_temporary {i : UInt32} (hi : i ∈ (temporary index w).vreg?) : i.toNat < registers :=
  nomatch hi

/-- The code of each operation is sound if the operands are known. What is asked of widths is what
the handlers keep to. -/
theorem sound_push (hw : w ≠ .bit) (hv : v.Known registers scope w) :
    Code.Sound registers scope (.push, [v]) where
  fits := by
    show v.bits = 32 ∨ v.bits = 64
    rw [hv.bits]
    exact bits_of_ne_bit hw
  reads := List.forall_mem_singleton.2 hv.toNamed
  writes := fun _ ho => nomatch ho

theorem sound_pop (hw : w ≠ .bit) : Code.Sound registers scope (.pop, [temporary index w]) where
  fits := bits_of_ne_bit hw
  reads := fun _ ho => nomatch ho
  writes := List.forall_mem_singleton.2 fun _ => vreg_temporary

theorem sound_setVreg {index : Nat} (hindex : index < registers) (hv : v.Known registers scope w) :
    Code.Sound registers scope (.mov, [vregOf index 64, v]) where
  fits := by
    show v.bits ≤ 64
    rw [hv.bits]
    exact bits_ofWidth w
  reads := List.forall_mem_singleton.2 hv.toNamed
  writes := List.forall_mem_singleton.2 (lt_of_vregOf hindex)

theorem sound_setVsp (hv : v.Known registers scope .qword) :
    Code.Sound registers scope (.mov, [.stackPointer, v]) where
  fits := by
    show v.bits ≤ 64
    rw [hv.bits]
    exact bits_ofWidth .qword
  reads := List.forall_mem_singleton.2 hv.toNamed
  writes := List.forall_mem_singleton.2 fun _ hindex => nomatch hindex

theorem sound_copy (hv : v.Known registers scope w) :
    Code.Sound registers scope (.mov, [temporary index w, v]) where
  fits := by
    show v.bits ≤ UInt32.ofNat w.bits
    rw [hv.bits]
    exact UInt32.le_refl _
  reads := List.forall_mem_singleton.2 hv.toNamed
  writes := List.forall_mem_singleton.2 fun _ => vreg_temporary

theorem sound_update (op : BinaryOp) (hindex : (index, UInt32.ofNat w.bits) ∈ scope)
    (hv : v.Known registers scope w) :
    Code.Sound registers scope (.ofBinary op, [temporary index w, v]) := by
  have hbits : (temporary index w).bits = v.bits := hv.bits.symm
  have hreads : ∀ o ∈ [temporary index w, v], o.Named registers scope :=
    List.forall_mem_cons.2
      ⟨(known_temporary hindex).toNamed, List.forall_mem_singleton.2 hv.toNamed⟩
  have hwrites : ∀ o ∈ [temporary index w], ∀ i ∈ o.vreg?, i.toNat < registers :=
    List.forall_mem_singleton.2 fun _ => vreg_temporary
  cases op <;> exact ⟨hbits, hreads, hwrites⟩

/-- The first instruction brings the temporary into scope that the second combines with the other
operand. In the wider scope the other operand is still known. -/
theorem sound_binary (op : BinaryOp) (hv : v.Known registers scope w)
    (hv' : v'.Known registers scope w) :
    Sound registers scope
      [(.mov, [temporary index w, v]), (.ofBinary op, [temporary index w, v'])] := by
  refine ⟨sound_copy hv, sound_update op ?_ (hv'.append _), trivial⟩
  exact List.mem_append_right scope List.mem_cons_self

theorem sound_signExtend (hw : w ≠ .qword) (hv : v.Known registers scope w) :
    Code.Sound registers scope (.movsx, [temporary index .qword, v]) where
  fits := by
    show (64 : UInt32) = 64 ∧ (v.bits = 1 ∨ v.bits = 32)
    rw [hv.bits]
    exact ⟨rfl, bits_of_ne_qword hw⟩
  reads := List.forall_mem_singleton.2 hv.toNamed
  writes := List.forall_mem_singleton.2 fun _ => vreg_temporary

/-- A comparison is sound for words only, which is where the gauge comes in. -/
theorem sound_compare {op : Operation} (hop : op = .te ∨ op = .tne)
    (hv : v.Known registers scope .qword) :
    Code.Sound registers scope (op, [temporary index .bit, v, constantOf .qword 0]) := by
  have hreads : ∀ o ∈ [v, constantOf .qword 0], o.Named registers scope :=
    List.forall_mem_cons.2 ⟨hv.toNamed, List.forall_mem_singleton.2 (named_anywhere rfl rfl)⟩
  have hwrites : ∀ o ∈ [temporary index .bit], ∀ i ∈ o.vreg?, i.toNat < registers :=
    List.forall_mem_singleton.2 fun _ => vreg_temporary
  rcases hop with rfl | rfl
  · exact ⟨⟨rfl, hv.bits, rfl⟩, hreads, hwrites⟩
  · exact ⟨⟨rfl, hv.bits, rfl⟩, hreads, hwrites⟩

theorem sound_load (hv : v.Known registers scope .qword) :
    Code.Sound registers scope (.ldd, [temporary index w, v, .word 0]) where
  fits := ⟨hv.bits, rfl⟩
  reads := List.forall_mem_cons.2 ⟨hv.toNamed, List.forall_mem_singleton.2 (named_anywhere rfl rfl)⟩
  writes := List.forall_mem_singleton.2 fun _ => vreg_temporary

theorem sound_store (hv : v.Known registers scope .qword) (hv' : v'.Known registers scope w) :
    Code.Sound registers scope (.str, [v, .word 0, v']) where
  fits := ⟨hv.bits, rfl⟩
  reads := List.forall_mem_cons.2 ⟨hv.toNamed,
    List.forall_mem_cons.2 ⟨named_anywhere rfl rfl, List.forall_mem_singleton.2 hv'.toNamed⟩⟩
  writes := fun _ ho => nomatch ho

theorem sound_saveCode (r : SavedRegister) : (saveCode r).Sound registers scope := by
  cases r with
  | flags => exact ⟨trivial, List.forall_mem_nil _, List.forall_mem_nil _⟩
  | gpr r => exact sound_push (w := .qword) (by decide) ⟨named_anywhere rfl rfl, rfl⟩

theorem sound_restoreCode (r : SavedRegister) : (restoreCode r).Sound registers scope := by
  cases r with
  | flags => exact ⟨trivial, List.forall_mem_nil _, List.forall_mem_nil _⟩
  | gpr r =>
    refine ⟨.inr rfl, List.forall_mem_nil _, List.forall_mem_singleton.2 ?_⟩
    exact fun _ hindex => nomatch hindex

/-- Code that goes over the native registers, and writes no temporary. -/
theorem sound_map {f : SavedRegister → Code} (hf : ∀ r scope, (f r).Sound registers scope)
    (rs : List SavedRegister) (scope : Scope) : Sound registers scope (rs.map f) := by
  induction rs generalizing scope with
  | nil => trivial
  | cons r rest ih => exact ⟨hf r scope, ih _⟩

/-- Such code brings no temporary into scope. -/
theorem scopeOf_map {f : SavedRegister → Code} (hf : ∀ r, (f r).defines = [])
    (rs : List SavedRegister) : scopeOf (rs.map f) = [] := by
  induction rs with
  | nil => rfl
  | cons r rest ih => rw [List.map_cons, scopeOf_cons, hf r, ih, List.append_nil]

theorem defines_saveCode (r : SavedRegister) : (saveCode r).defines = [] := by
  cases r <;> rfl

theorem defines_restoreCode (r : SavedRegister) : (restoreCode r).defines = [] := by
  cases r <;> rfl

end

/-! ## Blocks that are being written -/

/-- The code of a block that has room for some more temporaries. Those that it has are numbered in
order, and `sizes` lists how many bits each of them has. Eight are enough for any handler. -/
structure Draft (registers n : Nat) (sizes : List UInt32) (block : Block) : Prop where
  sound : Sound registers [] block.code
  sized : ∀ t ∈ scopeOf block.code, sizes[t.1.toNat]? = some t.2
  numbered : block.nextTemporary = UInt32.ofNat sizes.length
  room : sizes.length + n ≤ 8

namespace Draft

variable {registers n : Nat} {sizes : List UInt32} {block block' : Block} {code : List Code}

theorem blank (hcode : block.code = []) (htemporary : block.nextTemporary = 0) :
    Draft registers 8 [] block where
  sound := by
    rw [hcode]
    trivial
  sized := by
    rw [hcode]
    exact fun _ ht => nomatch ht
  numbered := htemporary
  room := Nat.le_refl 8

theorem weaken (h : Draft registers (n + 1) sizes block) : Draft registers n sizes block where
  sound := h.sound
  sized := h.sized
  numbered := h.numbered
  room := Nat.le_of_succ_le h.room

/-- More code, with at most one temporary more. What the code brings into scope has the sizes that
are listed. -/
theorem grows {more : List UInt32} (h : Draft registers (n + 1) sizes block)
    (hgrows : block.Grows block' code more.length) (hmore : more.length ≤ 1)
    (hsound : Sound registers (scopeOf block.code) code)
    (hsized : ∀ t ∈ scopeOf code, (sizes ++ more)[t.1.toNat]? = some t.2) :
    Draft registers n (sizes ++ more) block' where
  sound := by
    rw [hgrows.code]
    exact h.sound.append hsound
  sized t ht := by
    rw [hgrows.code, scopeOf_append] at ht
    rcases List.mem_append.1 ht with hold | hnew
    · have hsize := h.sized t hold
      rw [List.getElem?_append_left (List.getElem?_eq_some_iff.1 hsize).1]
      exact hsize
    · exact hsized t hnew
  numbered := by
    rw [hgrows.temporaries, h.numbered, List.length_append, UInt32.ofNat_add]
  room := by
    have hroom := h.room
    rw [List.length_append]
    omega

/-- The temporary that is numbered next has the next size in the list. So few are numbered that
numbers do not wrap. -/
theorem next (h : Draft registers (n + 1) sizes block) (bits : UInt32) :
    (sizes ++ [bits])[block.nextTemporary.toNat]? = some bits := by
  have hroom := h.room
  have hlength : sizes.length < UInt32.size := by
    rw [UInt32.size]
    omega
  rw [h.numbered, UInt32.toNat_ofNat_of_lt' hlength, List.getElem?_append_right (Nat.le_refl _),
    Nat.sub_self]
  rfl

end Draft

/-! ## With the gauge -/

/-- The current block is a draft, unless something else than a word was compared. Then nothing is
known any more. -/
def draftedOf (registers : Nat) : Correspondence Backend Operand Gauge Unit where
  State n b g := b.virtualRegisters = registers ∧ g.virtualRegisters = registers ∧
    (g.words = true → ∃ sizes, Draft registers n sizes b.block)
  Now b g w v _ := g.words = true → v.Known registers (scopeOf b.block.code) w
  Held b g w v _ := g.words = true → v.Known registers (scopeOf b.block.code) w

section

variable {registers n : Nat} {b : Backend} {g g' : Gauge} {w : Width} {code : List Code}

/-- An operation that writes no temporary: the sizes stay as they are. -/
theorem drafted_still {α β : Type} {R : Backend → Gauge → α → β → Prop} {a : α} {a' : β}
    {x : Action Backend α} {y : Action Gauge β} (hstate : (draftedOf registers).State (n + 1) b g)
    (hwrites : Writes x b a code 0)
    (hsound : g.words = true → Sound registers (scopeOf b.block.code) code)
    (hscope : scopeOf code = []) (hgauge : y.run g = .ok a' g) (hR : ∀ b', R b' g a a') :
    (draftedOf registers).Joint n b g R (x.run b) (y.run g) := by
  obtain ⟨b', hrun, hemits⟩ := hwrites
  obtain ⟨hregisters, hgregisters, hdraft⟩ := hstate
  rw [hrun, hgauge]
  refine .ok ⟨hemits.virtualRegisters.trans hregisters, hgregisters, fun hwords => ?_⟩ ?_ (hR b')
  · obtain ⟨sizes, hdraft⟩ := hdraft hwords
    refine ⟨sizes ++ [], hdraft.grows hemits.block (Nat.zero_le 1) (hsound hwords) ?_⟩
    rw [hscope]
    exact fun _ ht => nomatch ht
  · intro w v _ hheld hwords
    rw [hemits.block.code, scopeOf_append]
    exact (hheld hwords).append _

/-- An operation that writes its result to a fresh temporary, which is then known at the width of
the result. -/
theorem drafted_fresh {x : Action Backend Operand} {y : Action Gauge Unit}
    (hstate : (draftedOf registers).State (n + 1) b g) (hwrites : Writes x b (b.fresh w) code 1)
    (hgauge : y.run g = .ok () g') (hregisters' : g'.virtualRegisters = g.virtualRegisters)
    (hwords' : g'.words = true → g.words = true)
    (hsound : g'.words = true → Sound registers (scopeOf b.block.code) code)
    (hscope : ∀ t, t ∈ scopeOf code ↔ t = (b.block.nextTemporary, UInt32.ofNat w.bits)) :
    (draftedOf registers).Joint n b g ((draftedOf registers).Held · · w) (x.run b) (y.run g) := by
  obtain ⟨b', hrun, hemits⟩ := hwrites
  obtain ⟨hregisters, hgregisters, hdraft⟩ := hstate
  rw [hrun, hgauge]
  refine .ok ⟨hemits.virtualRegisters.trans hregisters, hregisters'.trans hgregisters,
    fun hwords => ?_⟩ ?_ ?_
  · obtain ⟨sizes, hdraft⟩ := hdraft (hwords' hwords)
    refine ⟨sizes ++ [UInt32.ofNat w.bits],
      hdraft.grows hemits.block (Nat.le_refl 1) (hsound hwords) fun t ht => ?_⟩
    rw [(hscope t).1 ht]
    exact hdraft.next _
  · intro w v _ hheld hwords
    rw [hemits.block.code, scopeOf_append]
    exact (hheld (hwords' hwords)).append _
  · intro _
    rw [hemits.block.code, scopeOf_append]
    exact known_temporary (List.mem_append_right _ ((hscope _).2 rfl))

/-- A comparison, which puts on record what it compares. -/
theorem drafted_compare {op : Operation} {v : Operand} {x : Action Backend Operand}
    {y : Action Gauge Unit} (hop : op = .te ∨ op = .tne)
    (hstate : (draftedOf registers).State (n + 1) b g)
    (hv : g.words = true → v.Known registers (scopeOf b.block.code) w)
    (hwrites : Writes x b (b.fresh .bit) [(op, [b.fresh .bit, v, constantOf w 0])] 1)
    (hgauge : y.run g = .ok () (g.compare w)) :
    (draftedOf registers).Joint n b g ((draftedOf registers).Held · · .bit)
      (x.run b) (y.run g) := by
  refine drafted_fresh hstate hwrites hgauge (g.virtualRegisters_compare w)
    (fun hwords => (Gauge.words_compare hwords).2) (fun hwords => ?_) ?_
  · obtain ⟨rfl, hold⟩ := Gauge.words_compare hwords
    exact sound_singleton (sound_compare hop (hv hold))
  · rcases hop with rfl | rfl
    · exact fun _ => List.mem_singleton
    · exact fun _ => List.mem_singleton

/-- Both instructions write the one temporary. -/
theorem mem_scopeOf_binary (op : BinaryOp) (index : UInt32) (v v' : Operand) (t : UInt32 × UInt32) :
    t ∈ scopeOf [(.mov, [temporary index w, v]), (.ofBinary op, [temporary index w, v'])] ↔
      t = (index, UInt32.ofNat w.bits) := by
  have hscope : scopeOf [(.mov, [temporary index w, v]), (.ofBinary op, [temporary index w, v'])]
      = [(index, UInt32.ofNat w.bits), (index, UInt32.ofNat w.bits)] := by
    cases op <;> rfl
  rw [hscope, List.mem_cons, List.mem_singleton, or_self]

end

/-- The routine compiler, coupled with the gauge: one line for each operation. -/
def drafted (registers : Nat) : Coupling Backend Operand Gauge Unit where
  toCorrespondence := draftedOf registers
  now_of_held h := h
  weaken h := ⟨h.1, h.2.1, fun hwords => (h.2.2 hwords).imp fun _ hdraft => hdraft.weaken⟩
  registers := registers
  virtualRegisters h := ⟨h.1, h.2.1⟩
  constant _ _ hstate := drafted_still hstate (.pure _ _) (fun _ => trivial) rfl rfl
    fun _ _ => ⟨named_anywhere rfl rfl, rfl⟩
  push hw hstate hv := drafted_still hstate (writes_push _ _ _)
    (fun hwords => sound_singleton (sound_push hw (hv hwords))) rfl rfl fun _ => trivial
  pop hw hstate := drafted_fresh hstate (writes_pop _ _) rfl rfl id
    (fun _ => sound_singleton (sound_pop hw)) fun _ => List.mem_singleton
  getVreg {_ _ _ w _} _ hstate hindex := drafted_still hstate (.pure _ _) (fun _ => trivial) rfl rfl
    fun _ _ => known_vregOf hindex w
  setVreg _ hstate hindex hv := drafted_still hstate (writes_setVreg _ _ _ _)
    (fun hwords => sound_singleton (sound_setVreg hindex (hv hwords))) rfl rfl fun _ => trivial
  getVsp hstate := drafted_still hstate (.pure _ _) (fun _ => trivial) rfl rfl
    fun _ _ => ⟨named_anywhere rfl rfl, rfl⟩
  setVsp hstate hv := drafted_still hstate (writes_setVsp _ _)
    (fun hwords => sound_singleton (sound_setVsp (hv hwords))) rfl rfl fun _ => trivial
  binary {_ _ _} op {_ _ _ _ _} hstate hlhs hrhs :=
    drafted_fresh hstate (writes_binary _ _ _ _ op) rfl rfl id
    (fun hwords => sound_binary op (hlhs hwords) (hrhs hwords)) (mem_scopeOf_binary op _ _ _)
  signExtend hw hstate hv := drafted_fresh hstate (writes_signExtend _ _ _) rfl rfl id
    (fun hwords => sound_singleton (sound_signExtend hw (hv hwords))) fun _ => List.mem_singleton
  testZero hstate hv := drafted_compare (.inl rfl) hstate hv (writes_testZero _ _ _) rfl
  testNonzero hstate hv := drafted_compare (.inr rfl) hstate hv (writes_testNonzero _ _ _) rfl
  load _ hstate hv := drafted_fresh hstate (writes_load _ _ _) rfl rfl id
    (fun hwords => sound_singleton (sound_load (hv hwords))) fun _ => List.mem_singleton
  store _ hstate hv hv' := drafted_still hstate (writes_store _ _ _ _)
    (fun hwords => sound_singleton (sound_store (hv hwords) (hv' hwords))) rfl rfl fun _ => trivial
  saveRegisters hstate := drafted_still hstate (writes_saveRegisters _)
    (fun _ => sound_map (fun r _ => sound_saveCode r) _ _) (scopeOf_map defines_saveCode _) rfl
    fun _ => trivial
  restoreRegisters hstate := drafted_still hstate (writes_restoreRegisters _)
    (fun _ => sound_map (fun r _ => sound_restoreCode r) _ _)
      (scopeOf_map defines_restoreCode _) rfl
    fun _ => trivial

/-- **A handler in an empty block is compiled to sound code**, and it branches by a bit in scope.
The gauge starts with nothing on record and, as no handler compares anything but words, ends so. -/
theorem draft_of_perform {h : Handler} {position : Nat} {b b' : Backend} {outcome : Outcome Operand}
    (hcode : b.block.code = []) (htemporary : b.block.nextTemporary = 0)
    (hrun : (h.perform position : Action Backend (Outcome Operand)).run b = .ok outcome b') :
    (∃ sizes, Draft b.virtualRegisters 0 sizes b'.block) ∧
      ∀ condition target, outcome = .branch condition target →
        condition.Known b.virtualRegisters (scopeOf b'.block.code) .bit := by
  have hstate : (drafted b.virtualRegisters).State (0 + 8) b ⟨b.virtualRegisters, true⟩ :=
    ⟨rfl, rfl, fun _ => ⟨[], .blank hcode htemporary⟩⟩
  have hjoint := (drafted b.virtualRegisters).perform_joint h position hstate
  rw [hrun] at hjoint
  cases hgauge : (h.perform position : Action Gauge (Outcome Unit)).run
    ⟨b.virtualRegisters, true⟩ with
  | error e g' =>
    rw [hgauge] at hjoint
    cases hjoint
  | ok outcome' g' =>
    rw [hgauge] at hjoint
    obtain rfl := Gauge.eq_of_perform hgauge
    cases hjoint with
    | ok hstate' _ hsame =>
      refine ⟨hstate'.2.2 rfl, ?_⟩
      rintro condition target rfl
      cases hsame with
      | branch hcondition => exact hcondition rfl

end Backend

end Routine

end CodeRecovery
