/-
The native context survives a disciplined run.

Entering the virtual machine pushes the native registers, leaving it pops them, and in between a
program may do to its stack what it likes. What it has to leave alone are the 136 bytes of the
frame: it must not pop into it, not store to it, not replace the stack pointer, and not push so much
that the stack comes around the end of the address space. `Disciplined` asks this of the handlers
that a run carries out, with the depth of the stack over the frame counted by the instructions
alone, from the table of their uses of the stack.

The invariant is `Framed`: the stack pointer is as far below the frame as the count says, and the
frame holds what was saved. A handler keeps it by its footprint, which ends below the frame; so does
a run, whatever way it takes. At depth zero the words on top of the stack are the saved ones, in the
order in which they are popped.
-/
import Mathlib.Algebra.Ring.Int.Defs
import Mathlib.Algebra.Ring.Nat
import CodeRecovery.Proofs.ControlFlow
import CodeRecovery.Proofs.Simulator.Footprint

set_option autoImplicit false

namespace CodeRecovery

/-! ## Words in a row -/

namespace Memory

/-- A read is the same if all its bytes are. -/
theorem read_congr {m m' : Memory} {w : Width} {address : Word}
    (h : ∀ k < w.bytes, m.byte (address + UInt64.ofNat k) = m'.byte (address + UInt64.ofNat k)) :
    m.read w address = m'.read w address := by
  rw [read, read, readBytes_congr h]

/-- The words from an address on are these, eight bytes each. -/
def Holds (m : Memory) (address : Word) (values : List Word) : Prop :=
  ∀ i value, values[i]? = some value → m.read .qword (address + UInt64.ofNat (8 * i)) = value

/-- They stay if their bytes do. -/
theorem Holds.congr {m m' : Memory} {address : Word} {values : List Word}
    (h : m.Holds address values)
    (hbytes : ∀ j < 8 * values.length,
      m'.byte (address + UInt64.ofNat j) = m.byte (address + UInt64.ofNat j)) :
    m'.Holds address values := by
  intro i value hvalue
  have hi : i < values.length := (List.getElem?_eq_some_iff.1 hvalue).1
  rw [← h i value hvalue]
  apply read_congr
  intro k hk
  have hk' : k < 8 := hk
  rw [UInt64.add_assoc, ← UInt64.ofNat_add]
  exact hbytes (8 * i + k) (by omega)

theorem Holds.head {m : Memory} {address value : Word} {values : List Word}
    (h : m.Holds address (value :: values)) : m.read .qword address = value := by
  have hread := h 0 value rfl
  rwa [Nat.mul_zero, add_ofNat_zero] at hread

/-- The words behind the first. -/
theorem Holds.tail {m : Memory} {address value : Word} {values : List Word}
    (h : m.Holds address (value :: values)) : m.Holds (address + 8) values := by
  intro i value' hvalue'
  have height : (8 : Word) = UInt64.ofNat 8 := rfl
  rw [height, UInt64.add_assoc, ← UInt64.ofNat_add, Nat.add_comm, ← Nat.mul_succ]
  exact h (i + 1) value' hvalue'

end Memory

namespace Simulator

open Memory (distance)

/-- A byte at some distance is found by going that far up. -/
theorem add_distance (start a : Word) : start + UInt64.ofNat (distance start a) = a := by
  rw [Memory.distance, UInt64.ofNat_toNat, UInt64.add_comm, UInt64.sub_add_cancel]

/-- Seen from `d` below an address, the byte `j` above it, as long as that does not come around. -/
theorem distance_below {address : Word} {d j : Nat} (h : d + j < UInt64.size) :
    distance (address - UInt64.ofNat d) (address + UInt64.ofNat j) = d + j := by
  have hup : address + UInt64.ofNat j = address - UInt64.ofNat d + UInt64.ofNat (d + j) := by
    rw [UInt64.ofNat_add, ← UInt64.add_assoc, UInt64.sub_add_cancel]
  rw [hup]
  exact Memory.distance_add h

/-- A word on top of words. It must not reach around to the last of them. -/
theorem holds_push {m : Simulator} {values : List Word} (h : m.memory.Holds m.vsp values)
    (hlength : 8 * (values.length + 1) < UInt64.size) (value : Word) :
    (m.push .qword value).memory.Holds (m.push .qword value).vsp (value :: values) := by
  intro i value' hvalue'
  have hvsp : (m.push .qword value).vsp = m.vsp - UInt64.ofNat 8 := rfl
  cases i with
  | zero =>
    cases hvalue'
    rw [Nat.mul_zero, Memory.add_ofNat_zero]
    exact Memory.read_write_qword _ _ _
  | succ i =>
    -- The words that were there are now one word further up, and clear of the new one.
    have hi : i < values.length := Nat.lt_of_succ_lt_succ (List.getElem?_eq_some_iff.1 hvalue').1
    have hup : (m.push .qword value).vsp + UInt64.ofNat (8 * (i + 1))
        = m.vsp + UInt64.ofNat (8 * i) := by
      rw [hvsp, Nat.mul_succ, Nat.add_comm, UInt64.ofNat_add, ← UInt64.add_assoc,
        UInt64.sub_add_cancel]
    rw [hup, ← h i value' hvalue']
    apply Memory.read_write_of_distance
    intro k hk
    have hk' : k < 8 := hk
    have hsize : 8 + (8 * i + k) < UInt64.size := by omega
    rw [UInt64.add_assoc, ← UInt64.ofNat_add]
    show 8 ≤ distance (m.vsp - UInt64.ofNat 8) _
    rw [distance_below hsize]
    omega

/-- Words that are pushed lie on the stack in reverse. -/
theorem holds_pushAll {m : Simulator} {values : List Word} (h : m.memory.Holds m.vsp values)
    (pushed : List Word) (hlength : 8 * (pushed.length + values.length) < UInt64.size) :
    (m.pushAll pushed).memory.Holds (m.pushAll pushed).vsp (pushed.reverse ++ values) := by
  induction pushed generalizing m values with
  | nil => exact h
  | cons value rest ih =>
    rw [List.length_cons] at hlength
    have hpush := holds_push h (by omega) value
    rw [pushAll_cons, List.reverse_cons, List.append_assoc, List.singleton_append]
    exact ih hpush (by rw [List.length_cons]; omega)

/-- Popping finds the words that lie on the stack, and puts each into its register. -/
theorem registers_popAll {rs : List SavedRegister} {m : Simulator} {f : SavedRegister → Word}
    (hholds : m.memory.Holds m.vsp (rs.map f)) (hnodup : rs.Nodup) (r : SavedRegister) :
    (m.popAll rs).registers r = if r ∈ rs then f r else m.registers r := by
  induction rs generalizing m with
  | nil => rfl
  | cons r₀ rest ih =>
    obtain ⟨hnot, hnodup'⟩ := List.nodup_cons.1 hnodup
    have hvalue : (m.pop .qword).1 = f r₀ := hholds.head
    have htail : ((m.pop .qword).2.setRegister r₀ (m.pop .qword).1).memory.Holds
        ((m.pop .qword).2.setRegister r₀ (m.pop .qword).1).vsp (rest.map f) := hholds.tail
    have hfirst : m.popAll (r₀ :: rest)
        = ((m.pop .qword).2.setRegister r₀ (m.pop .qword).1).popAll rest := rfl
    have hset : ((m.pop .qword).2.setRegister r₀ (m.pop .qword).1).registers r
        = if r = r₀ then f r₀ else m.registers r := by
      rw [hvalue]
      rfl
    rw [hfirst, ih htail hnodup', hset]
    by_cases hr : r = r₀
    · subst hr
      rw [if_neg hnot, if_pos rfl, if_pos List.mem_cons_self]
    · rw [if_neg hr]
      simp [hr]

/-! ## Disciplined runs -/

end Simulator

namespace Opcode

/-- How many bytes an instruction takes from the stack, none if the table has no entry. -/
def taken (o : Opcode) : Nat :=
  (o.stackUse?.map StackUse.poppedBytes).getD 0

/-- By how many bytes an instruction makes the stack grow. -/
def growth (o : Opcode) : Int :=
  (o.stackUse?.map StackUse.growth).getD 0

end Opcode

namespace Simulator

/-- A handler that a run carries out, and the machine in front of it. The machine is needed only to
tell where a store goes. -/
structure Stop where
  handler : Handler
  machine : Simulator

/-- The handlers that a run of at most `limit` steps carries out from a position on, in order. A
handler that halts is not carried out; one whose branch leads nowhere is. -/
def stops (p : Program) : (limit position : Nat) → Simulator → List Stop
  | 0, _, _ => []
  | limit + 1, position, m =>
    match p[position]? with
    | none => []
    | some handler =>
      match (handler.perform position : Action Simulator (Outcome Word)).run m with
      | .error .. => []
      | .ok .. =>
        ⟨handler, m⟩ :: match (step p position).run m with
          | .ok (.advance next _) m' => stops p limit next m'
          | _ => []

/-- A handler that is carried out is the first stop, and those of the rest of the run follow. -/
theorem stops_of_perform {p : Program} {position : Nat} {h : Handler} {m m₁ : Simulator}
    {outcome : Outcome Word} (limit : Nat) (hh : p[position]? = some h)
    (hperform : (h.perform position : Action Simulator (Outcome Word)).run m = .ok outcome m₁) :
    stops p (limit + 1) position m
      = ⟨h, m⟩ :: match (step p position).run m with
        | .ok (.advance next _) m' => stops p limit next m'
        | _ => [] := by
  rw [stops, hh]
  dsimp only
  rw [hperform]

/-- What is asked of a handler when the stack is `depth` bytes deep over a frame of 136 bytes.
Leaving takes the frame itself, so there the depth must be zero instead. -/
structure Stop.Disciplined (frame : Word) (depth : Int) (stop : Stop) : Prop where
  keepsPointer : stop.handler.opcode ≠ .popVsp
  /-- The four bytes that are stored to are not in the frame. -/
  sparesFrame : stop.handler.opcode = .write32 → ∀ k < 4, ∀ j < 136,
    stop.machine.peek .qword 0 + UInt64.ofNat k ≠ frame + UInt64.ofNat j
  takesOwn : stop.handler.opcode ≠ .vmExit → (stop.handler.opcode.taken : Int) ≤ depth
  bounded : depth < 2 ^ 63

instance (frame : Word) (depth : Int) (stop : Stop) : Decidable (stop.Disciplined frame depth) :=
  decidable_of_iff (stop.handler.opcode ≠ .popVsp ∧
      (stop.handler.opcode = .write32 → ∀ k < 4, ∀ j < 136,
        stop.machine.peek .qword 0 + UInt64.ofNat k ≠ frame + UInt64.ofNat j) ∧
      (stop.handler.opcode ≠ .vmExit → (stop.handler.opcode.taken : Int) ≤ depth) ∧ depth < 2 ^ 63)
    ⟨fun ⟨hpointer, hspares, htakes, hbounded⟩ => ⟨hpointer, hspares, htakes, hbounded⟩,
      fun ⟨hpointer, hspares, htakes, hbounded⟩ => ⟨hpointer, hspares, htakes, hbounded⟩⟩

/-- Handlers that leave a frame alone, from some depth over it on, and are back at it when the
context is restored: at an exit, or behind the last of them. -/
def Disciplined (frame : Word) : (depth : Int) → List Stop → Prop
  | depth, [] => depth = 0
  | depth, stop :: rest => stop.Disciplined frame depth ∧
    if stop.handler.opcode = .vmExit then depth = 0
    else Disciplined frame (depth + stop.handler.opcode.growth) rest

instance Disciplined.decidable (frame : Word) :
    (depth : Int) → (trail : List Stop) → Decidable (Disciplined frame depth trail)
  | depth, [] => inferInstanceAs (Decidable (depth = 0))
  | depth, stop :: rest =>
    have := Disciplined.decidable frame (depth + stop.handler.opcode.growth) rest
    inferInstanceAs (Decidable (stop.Disciplined frame depth ∧
      if stop.handler.opcode = .vmExit then depth = 0
      else Disciplined frame (depth + stop.handler.opcode.growth) rest))

/-- The depth is bounded at every stop and zero behind the last. -/
theorem Disciplined.bounded {frame : Word} {depth : Int} {trail : List Stop}
    (h : Disciplined frame depth trail) : depth < 2 ^ 63 := by
  cases trail with
  | nil =>
    have hzero : depth = 0 := h
    omega
  | cons stop rest => exact h.1.bounded

/-! ## Steps -/

variable {p : Program} {position : Nat} {m m₀ m₁ m' : Simulator} {h : Handler}

/-- What a step makes of the machine that its handler leaves. The context is popped behind the last
handler, unless that one has done so itself. -/
inductive Settles (h : Handler) (m : Simulator) : Progress → Simulator → Prop
  | advance {next : Nat} {taken : Bool} : h.opcode ≠ .vmExit → Settles h m (.advance next taken) m
  | behind : h.opcode ≠ .vmExit → Settles h m .exit (m.popAll SavedRegister.popOrder)
  | exit : h.opcode = .vmExit → Settles h m .exit m

theorem settles_goTo {next : Nat} {taken : Bool} {progress : Progress} (hop : h.opcode ≠ .vmExit)
    (hrun : (goTo p next taken).run m = .ok progress m') : Settles h m progress m' := by
  by_cases hlt : next < p.length
  · rw [run_goTo_inside hlt] at hrun
    cases hrun
    exact .advance hop
  · rw [run_goTo_outside hlt taken (run_restoreRegisters m)] at hrun
    cases hrun
    exact .behind hop

/-- A step carries out its handler and settles. There is no other way for a step to succeed. -/
theorem step_cases {progress : Progress} (hstep : (step p position).run m = .ok progress m') :
    ∃ h outcome m₁, p[position]? = some h ∧
      (h.perform position : Action Simulator (Outcome Word)).run m = .ok outcome m₁ ∧
      Settles h m₁ progress m' := by
  cases hh : p[position]? with
  | none =>
    rw [step, Program.fetch, hh] at hstep
    cases hstep
  | some h =>
    have hfetch : (p.fetch position : Action Simulator Handler).run m = .ok h m := by
      rw [Program.fetch, hh]
      rfl
    rw [step, Action.run_bind_of_ok hfetch] at hstep
    obtain ⟨outcome, m₁, hperform, hrest⟩ := Action.exists_of_run_bind_ok hstep
    refine ⟨h, outcome, m₁, rfl, hperform, ?_⟩
    have hyields := h.gives_yields position m outcome m₁ hperform
    cases outcome with
    | exit =>
      cases hrest
      exact .exit hyields
    | next => exact settles_goTo hyields.1 hrest
    | branch condition target =>
      have hop : h.opcode ≠ .vmExit := by
        rw [hyields.1]
        decide
      dsimp only at hrest
      split at hrest
      · exact settles_goTo hop hrest
      · obtain ⟨next, m₂, htarget, hgo⟩ := Action.exists_of_run_bind_ok hrest
        cases hbranch : p.branchTarget target position with
        | ok found =>
          rw [hbranch] at htarget
          cases htarget
          exact settles_goTo hop hgo
        | error cause =>
          rw [hbranch] at htarget
          cases htarget

/-! ## The frame -/

/-- The stack is `depth` bytes deep over the frame that the machine `m₀` has on top of its stack,
and the frame is as it was. -/
structure Framed (m₀ m : Simulator) (depth : Nat) : Prop where
  registers : m.registers = m₀.registers
  vsp : m.vsp = m₀.vsp - UInt64.ofNat depth
  frame : ∀ j < 136, m.memory.byte (m₀.vsp + UInt64.ofNat j)
    = m₀.memory.byte (m₀.vsp + UInt64.ofNat j)

/-- Right behind the entry, the stack is at its frame. -/
theorem Framed.refl (m : Simulator) : Framed m m 0 where
  registers := rfl
  vsp := by simp
  frame _ _ := rfl

/-- Taking some of the bytes above an address and putting others there. Not more are taken than
there are. -/
theorem sub_add_sub {address : Word} {depth popped : Nat} (hle : popped ≤ depth) (pushed : Nat) :
    address - UInt64.ofNat depth + UInt64.ofNat popped - UInt64.ofNat pushed
      = address - UInt64.ofNat (depth - popped + pushed) := by
  obtain ⟨left, rfl⟩ := Nat.exists_eq_add_of_le hle
  rw [Nat.add_sub_cancel_left, UInt64.ofNat_add, UInt64.ofNat_add]
  grind

/-- **A disciplined handler keeps the frame.** By its footprint, it writes below where it has taken
bytes away, which is below the frame, or where it stores, which is not in the frame. -/
theorem Framed.perform {depth : Nat} {outcome : Outcome Word} (hframed : Framed m₀ m depth)
    (hdisciplined : Stop.Disciplined m₀.vsp depth ⟨h, m⟩) (hop : h.opcode ≠ .vmExit)
    (hbounded : (depth : Int) + h.opcode.growth < 2 ^ 63)
    (hrun : (h.perform position : Action Simulator (Outcome Word)).run m = .ok outcome m₁) :
    ∃ depth' : Nat, (depth' : Int) = depth + h.opcode.growth ∧ Framed m₀ m₁ depth' := by
  obtain ⟨use, huse, hfootprint⟩ := footprint hrun
  have htaken : h.opcode.taken = use.poppedBytes := by rw [Opcode.taken, huse]; rfl
  have hgrowth : h.opcode.growth = (use.pushedBytes : Int) - use.poppedBytes := by
    rw [Opcode.growth, huse]
    rfl
  have hle : use.poppedBytes ≤ depth := by
    have htakes := hdisciplined.takesOwn hop
    dsimp only at htakes
    omega
  have hvsp : m.vsp + UInt64.ofNat use.poppedBytes - UInt64.ofNat use.pushedBytes
      = m₀.vsp - UInt64.ofNat (depth - use.poppedBytes + use.pushedBytes) := by
    rw [hframed.vsp]
    exact sub_add_sub hle use.pushedBytes
  refine ⟨depth - use.poppedBytes + use.pushedBytes, by omega, ?_, ?_, ?_⟩
  · rw [hfootprint.registers hop, hframed.registers]
  · rw [hfootprint.vsp hdisciplined.keepsPointer, hvsp]
  · intro j hj
    rw [← hframed.frame j hj]
    apply hfootprint.memory
    · -- The pushed bytes end where the frame begins, or lower.
      rw [hvsp, distance_below (by unfold UInt64.size; omega)]
      omega
    · intro hwrite
      have hspares := hdisciplined.sparesFrame hwrite
      dsimp only at hspares
      apply Nat.le_of_not_lt
      intro hnear
      exact hspares _ hnear j hj (add_distance _ _)

/-- Back at the frame, popping it restores what was saved. Words are popped in the reverse of the
order in which they were pushed, each into its own register. -/
theorem Framed.restored {start : Simulator}
    (hsaves : m₀ = start.pushAll (SavedRegister.pushOrder.map start.registers))
    (hframed : Framed m₀ m 0) :
    (m.popAll SavedRegister.popOrder).registers = start.registers ∧
      (m.popAll SavedRegister.popOrder).vsp = start.vsp := by
  have hmoves := (Moves.refl start).pushAll (SavedRegister.pushOrder.map start.registers)
  have hlength : SavedRegister.pushOrder.length = 17 := rfl
  have hnothing : start.memory.Holds start.vsp [] := fun _ _ hvalue => nomatch hvalue
  have hsaved := holds_pushAll hnothing (SavedRegister.pushOrder.map start.registers)
    (by rw [List.length_map, hlength]; decide)
  rw [← hsaves] at hmoves hsaved
  have hvsp : m.vsp = m₀.vsp := by
    rw [hframed.vsp]
    exact UInt64.sub_zero m₀.vsp
  have hholds : m.memory.Holds m.vsp (SavedRegister.popOrder.map start.registers) := by
    rw [List.append_nil, ← List.map_reverse] at hsaved
    rw [hvsp]
    exact hsaved.congr hframed.frame
  constructor
  · funext r
    have hmem : r ∈ SavedRegister.popOrder := by
      cases r with
      | flags => decide
      | gpr r => cases r <;> decide
    rw [registers_popAll hholds (by decide), if_pos hmem]
  · rw [vsp_popAll, hvsp, hmoves.vsp]
    simp only [List.length_map, SavedRegister.popOrder, List.length_reverse, hlength]
    grind

/-- **A disciplined run ends by popping the frame.** Either a handler does so, or it is done behind
the last one. -/
theorem Framed.runFrom {limit done steps depth : Nat} (hframed : Framed m₀ m depth)
    (hrun : (runFrom p limit done position).run m = .ok (some steps) m')
    (hdisciplined : Disciplined m₀.vsp depth (stops p limit position m)) :
    ∃ m₁, Framed m₀ m₁ 0 ∧ m' = m₁.popAll SavedRegister.popOrder := by
  -- By the steps that are left: the frame is kept by each of them until one leaves the program.
  induction limit generalizing done position m depth with
  | zero => cases hrun
  | succ limit ih =>
    rw [Simulator.runFrom] at hrun
    obtain ⟨progress, m₁, hstep, hrest⟩ := Action.exists_of_run_bind_ok hrun
    obtain ⟨h, outcome, m₂, hh, hperform, hsettles⟩ := step_cases hstep
    rw [stops_of_perform limit hh hperform, hstep] at hdisciplined
    obtain ⟨hstop, htrail⟩ := hdisciplined
    cases hsettles with
    | exit hop =>
      rw [if_pos hop] at htrail
      cases hrest
      have hzero : depth = 0 := by omega
      refine ⟨m, hzero ▸ hframed, ?_⟩
      rw [run_perform_vmExit hop] at hperform
      exact (EStateM.Result.ok.inj hperform).2.symm
    | advance hop =>
      rw [if_neg hop] at htrail
      obtain ⟨depth', hdepth', hframed'⟩ := hframed.perform hstop hop htrail.bounded hperform
      rw [← hdepth'] at htrail
      exact ih hframed' hrest htrail
    | behind hop =>
      rw [if_neg hop] at htrail
      obtain ⟨depth', hdepth', hframed'⟩ := hframed.perform hstop hop htrail.bounded hperform
      have hzero : depth' = 0 := by
        have hend : (depth : Int) + h.opcode.growth = 0 := htrail
        omega
      cases hrest
      exact ⟨m₂, hzero ▸ hframed', rfl⟩

/-- **The native context survives a disciplined run.** The first handler enters the virtual machine,
which leaves `m₀`; its stack pointer is where the frame is. If the run ends and the handlers carried
out behind the first one leave the frame alone, then all native registers and the stack pointer are
in the end what they were in the beginning. -/
theorem context_survives {p : Program} {first : Handler} {limit steps : Nat}
    {start m₀ m' : Simulator} (hfirst : p[0]? = some first) (hop : first.opcode = .vmInit)
    (hentered : (first.perform 0 : Action Simulator (Outcome Word)).run start = .ok .next m₀)
    (hrun : (run p limit).run start = .ok (some steps) m')
    (hdisciplined : Disciplined m₀.vsp 0 (stops p limit 0 start).tail) :
    m'.registers = start.registers ∧ m'.vsp = start.vsp := by
  have hsaves : m₀ = start.pushAll (SavedRegister.pushOrder.map start.registers) := by
    rw [run_perform_vmInit hop] at hentered
    exact (EStateM.Result.ok.inj hentered).2.symm
  cases limit with
  | zero => cases hrun
  | succ limit =>
    -- The first step is the entry, and what follows starts right at the frame.
    rw [run, Simulator.runFrom] at hrun
    obtain ⟨progress, m₁, hstep, hrest⟩ := Action.exists_of_run_bind_ok hrun
    obtain ⟨h, outcome, m₂, hh, hperform, hsettles⟩ := step_cases hstep
    obtain rfl : first = h := Option.some.inj (hfirst.symm.trans hh)
    obtain rfl : m₀ = m₂ := (EStateM.Result.ok.inj (hentered.symm.trans hperform)).2
    rw [stops_of_perform limit hfirst hentered, hstep, List.tail_cons] at hdisciplined
    cases hsettles with
    | exit hexit =>
      rw [hop] at hexit
      cases hexit
    | behind =>
      cases hrest
      exact (Framed.refl m₀).restored hsaves
    | advance =>
      obtain ⟨m₁, hframed, rfl⟩ := (Framed.refl m₀).runFrom hrest hdisciplined
      exact hframed.restored hsaves

/-- Enters, goes round twice with a store each time, and leaves. -/
def repeating : Program :=
  [.entry 0x10 0,
    { opcode := .pushVr64, data := 3, address := 0x14, dispatch := 0, width := 5 },
    { opcode := .push64, data := 0, address := 0x19, dispatch := 0, width := 12 },
    { opcode := .popVr64, data := 3, address := 0x25, dispatch := 0, width := 5 },
    { opcode := .push32, data := 7, address := 0x2A, dispatch := 0, width := 8 },
    { opcode := .push64, data := 0x1000, address := 0x32, dispatch := 0, width := 12 },
    { opcode := .write32, data := 0, address := 0x3E, dispatch := 0, width := 4 },
    { opcode := .jnz, data := 0x14, address := 0x42, dispatch := 0, width := 12 },
    { opcode := .vmExit, data := 0, address := 0x4E, dispatch := 0, width := 4 }]

/-- A machine with a different word in every native register. -/
def distinctive : Simulator :=
  { Simulator.new 2048 4 with
    vregs := #[0, 0, 0, 1]
    registers := fun
      | .flags => 0x246
      | .gpr r => UInt64.ofNat (100 + r.number) }

/-- Every register has a word of its own, so a word in the wrong place would be seen. -/
theorem context_survives_repeating :
    ∃ m₀ m', repeating[0]? = some (.entry 0x10 0) ∧
      ((Handler.entry 0x10 0).perform 0 : Action Simulator (Outcome Word)).run distinctive
        = .ok .next m₀ ∧
      (run repeating 20).run distinctive = .ok (some 16) m' ∧
      Disciplined m₀.vsp 0 (stops repeating 20 0 distinctive).tail ∧
      m'.registers = distinctive.registers ∧ m'.vsp = distinctive.vsp := by
  have hfirst : repeating[0]? = some (.entry 0x10 0) := rfl
  obtain ⟨m₀, hentered, hvsp⟩ : ∃ m₀,
      ((Handler.entry 0x10 0).perform 0 : Action Simulator (Outcome Word)).run distinctive
        = .ok .next m₀ ∧ m₀.vsp = distinctive.vsp - 136 :=
    ⟨_, run_perform_vmInit rfl 0 distinctive, by decide +kernel⟩
  obtain ⟨m', hrun⟩ : ∃ m', (run repeating 20).run distinctive = .ok (some 16) m' :=
    Action.exists_of_answer (by decide +kernel)
  have hdisciplined : Disciplined m₀.vsp 0 (stops repeating 20 0 distinctive).tail := by
    rw [hvsp]
    decide +kernel
  refine ⟨m₀, m', hfirst, hentered, hrun, ?_, context_survives hfirst rfl hentered hrun ?_⟩
  all_goals assumption

end Simulator

end CodeRecovery
