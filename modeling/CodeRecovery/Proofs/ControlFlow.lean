/-
Programs, without a machine to run them.

Which handlers can be compiled, what is wrong with the others, and how control flows between them,
said of the program alone. `Handler.Good` and `Program.Fault` are the words that results about the
compilers are stated in; `Program.flaw?` is the same in the order in which a compiler comes upon it.
`Leads` and `Reachable` are the flow of control that the handlers spell out, whatever the data on
the stack.
-/
import CodeRecovery.FlowOps
import CodeRecovery.Proofs.Skeleton

set_option autoImplicit false

namespace CodeRecovery

/-- Whether an instruction names a virtual register. Its number is the immediate, so it may be out
of range. -/
def Opcode.namesRegister (o : Opcode) : Prop :=
  o = .popVr64 ∨ o = .popVr32 ∨ o = .pushVr64 ∨ o = .pushVr32

/-- A handler that a compiler can make sense of: it is identified, the virtual register it names
exists, and its branch leads to a handler. -/
structure Handler.Good (registers : Nat) (p : Program) (h : Handler) : Prop where
  known : h.opcode ≠ .unknown
  register : h.opcode.namesRegister → h.data.toNat < registers
  branch : h.opcode = .jnz → ∃ h' ∈ p, h'.address.toUInt64 = h.data

/-- The ways a handler can turn out, each with the instructions it belongs to. `Handler.fate` goes
through all instructions; these are the five things that matter about the outcome. -/
inductive Handler.FateOf (registers : Nat) (h : Handler) (position : Nat) :
    Except Failure (Outcome Unit) → Prop
  | unknown : h.opcode = .unknown → FateOf registers h position
      (.error (.unknownOpcode h.address position))
  | register : h.opcode.namesRegister → registers ≤ h.data.toNat → FateOf registers h position
      (.error (.registerOutOfRange h.data position))
  | next : h.opcode ≠ .unknown → h.opcode ≠ .vmExit → h.opcode ≠ .jnz →
      (h.opcode.namesRegister → h.data.toNat < registers) → FateOf registers h position (.ok .next)
  | branch : h.opcode = .jnz → FateOf registers h position (.ok (.branch () h.data))
  | exit : h.opcode = .vmExit → FateOf registers h position (.ok .exit)

/-- Each handler turns out in one of these ways. From here on no proof about a compiler goes through
the instructions one by one. -/
theorem Handler.fateOf (registers : Nat) (h : Handler) (position : Nat) :
    h.FateOf registers position (h.fate registers position) := by
  unfold Handler.fate
  cases hop : h.opcode with
  | unknown => exact .unknown hop
  | vmExit => exact .exit hop
  | jnz => exact .branch hop
  | popVr64 | popVr32 | pushVr64 | pushVr32 =>
    by_cases hlt : h.data.toNat < registers
    · rw [if_pos hlt]
      exact .next (by simp [hop]) (by simp [hop]) (by simp [hop]) fun _ => hlt
    · rw [if_neg hlt]
      exact .register (by simp [Opcode.namesRegister, hop]) (Nat.le_of_not_lt hlt)
  | _ =>
    exact .next (by simp [hop]) (by simp [hop]) (by simp [hop])
      (by simp [Opcode.namesRegister, hop])

/-- The instructions that come to an outcome. A condition on the stack is left open, since it has no
meaning without a machine. -/
def Handler.Yields {V : Type} (h : Handler) : Outcome V → Prop
  | .next => h.opcode ≠ .vmExit ∧ h.opcode ≠ .jnz
  | .branch _ target => h.opcode = .jnz ∧ target = h.data
  | .exit => h.opcode = .vmExit

/-- An outcome on some machine that is the same as the fate belongs to the instruction. -/
theorem Handler.yields_of_fate {V : Type} {R : V → Unit → Prop} {registers position : Nat}
    {h : Handler} {outcome : Outcome V} {fate : Outcome Unit}
    (hfate : h.fate registers position = .ok fate) (hsame : Outcome.Same R outcome fate) :
    h.Yields outcome := by
  have hof := h.fateOf registers position
  rw [hfate] at hof
  cases hsame with
  | next =>
    cases hof with
    | next _ hexit hjnz _ => exact ⟨hexit, hjnz⟩
  | branch =>
    cases hof with
    | branch hop => exact ⟨hop, rfl⟩
  | exit =>
    cases hof with
    | exit hop => exact hop

/-- On every machine, a handler that is carried out comes to the outcome of its instruction: what a
machine does with the operations has no influence on it. -/
theorem Handler.gives_yields {σ V : Type} [StackOps σ V] (h : Handler) (position : Nat) :
    Action.Gives h.Yields (h.perform position : Action σ (Outcome V)) := by
  unfold Handler.perform
  cases hop : h.opcode with
  | unknown =>
    intro s outcome s' hrun
    cases hrun
  | vmExit => exact .bind fun _ => .pure hop
  | jnz => exact .bind fun _ => .bind fun _ => .pure ⟨hop, rfl⟩
  | vmInit => exact .bind fun _ => .pure (by simp [Yields, hop])
  | pushVsp | popVsp | push64 | push32 =>
    exact .bind fun _ => .bind fun _ => .pure (by simp [Yields, hop])
  | popVr64 | popVr32 | pushVr64 | pushVr32 | write32 | load32 | load64 =>
    exact .bind fun _ => .bind fun _ => .bind fun _ => .pure (by simp [Yields, hop])
  | sub64 | sub32 | add64 | add32 | or32 | and32 | xor32 =>
    exact .bind fun _ => .bind fun _ => .bind fun _ => .bind fun _ => .bind fun _ => .bind fun _ =>
      .pure (by simp [Yields, hop])

namespace Program

variable {registers : Nat} {p : Program} {h : Handler} {position : Nat}

/-- What is wrong with the handler at a position, as the failure that reports it. A handler has at
most one thing wrong with it, since the three concern different instructions. -/
inductive Fault (registers : Nat) (p : Program) (position : Nat) : Failure → Prop
  | unknown {h : Handler} : p[position]? = some h → h.opcode = .unknown →
      Fault registers p position (.unknownOpcode h.address position)
  | register {h : Handler} : p[position]? = some h → h.opcode.namesRegister →
      registers ≤ h.data.toNat → Fault registers p position (.registerOutOfRange h.data position)
  | branch {h : Handler} : p[position]? = some h → h.opcode = .jnz →
      (∀ h' ∈ p, h'.address.toUInt64 ≠ h.data) →
      Fault registers p position (.unresolvedBranch h.data position)

/-- What a compiler finds wrong with the handler at a position. First the handler is carried out,
and only if that succeeds is its branch resolved. -/
def flaw? (registers : Nat) (p : Program) (position : Nat) : Option Failure :=
  match p[position]? with
  | none => none
  | some h =>
    match h.fate registers position with
    | .error cause => some cause
    | .ok (.branch _ target) =>
      match p.branchTarget target position with
      | .error cause => some cause
      | .ok _ => none
    | .ok _ => none

/-- An address that is not found is that of no handler. -/
theorem positionAt?_eq_none {target : Word} (hnone : p.positionAt? target = none) :
    ∀ h' ∈ p, h'.address.toUInt64 ≠ target := by
  intro h' hmem
  have hfalse := List.findIdx?_eq_none_iff.1 hnone h' hmem
  exact fun heq => absurd hfalse (by simp [heq])

/-- An address that is found is that of the handler there; it is the first of several, if addresses
repeat. -/
theorem positionAt?_eq_some {target : Word} {found : Nat}
    (hsome : p.positionAt? target = some found) :
    ∃ h', p[found]? = some h' ∧ h'.address.toUInt64 = target := by
  obtain ⟨hlt, heq, -⟩ := List.findIdx?_eq_some_iff_getElem.1 hsome
  exact ⟨p[found], List.getElem?_eq_getElem hlt, by simpa using heq⟩

theorem lt_of_positionAt? {target : Word} {found : Nat}
    (hsome : p.positionAt? target = some found) : found < p.length :=
  (List.findIdx?_eq_some_iff_getElem.1 hsome).1

/-- A branch to a handler is resolved, wherever it stands. -/
theorem branchTarget_of_some {target : Word} {found : Nat}
    (hsome : p.positionAt? target = some found) :
    p.branchTarget target position = .ok found := by
  rw [branchTarget, hsome]

/-- A branch to no handler is a failure that names the position of the branch itself. -/
theorem branchTarget_of_none {target : Word} (hnone : p.positionAt? target = none) :
    p.branchTarget target position = .error (.unresolvedBranch target position) := by
  rw [branchTarget, hnone]

/-- **A compiler comes upon a flaw in carrying the handler out, or in resolving its branch.** Proofs
about a compiler split here, because in the second case the handler has already left code behind. -/
theorem flaw?_cases {cause : Failure} (hh : p[position]? = some h)
    (hflaw : p.flaw? registers position = some cause) :
    h.fate registers position = .error cause ∨
      h.opcode = .jnz ∧ h.fate registers position = .ok (.branch () h.data) ∧
        p.positionAt? h.data = none ∧ cause = .unresolvedBranch h.data position := by
  have hfate := h.fateOf registers position
  simp only [flaw?, hh] at hflaw
  generalize h.fate registers position = fate at hfate hflaw
  cases hfate with
  | unknown | register =>
    cases hflaw
    exact .inl rfl
  | next | exit => cases hflaw
  | branch hop =>
    cases hat : p.positionAt? h.data with
    | some found => simp [branchTarget_of_some hat] at hflaw
    | none =>
      simp only [branchTarget_of_none hat, Option.some.injEq] at hflaw
      exact .inr ⟨hop, rfl, rfl, hflaw.symm⟩

/-- A flaw is something wrong with the handler, so the failure that a compiler reports can be
checked against the program. -/
theorem fault_of_flaw? {cause : Failure} (hflaw : p.flaw? registers position = some cause) :
    Fault registers p position cause := by
  cases hh : p[position]? with
  | none => simp [flaw?, hh] at hflaw
  | some h =>
    rcases flaw?_cases hh hflaw with hfate | ⟨hop, -, hat, rfl⟩
    · have hof := h.fateOf registers position
      rw [hfate] at hof
      cases hof with
      | unknown hop => exact .unknown hh hop
      | register hop hle => exact .register hh hop hle
    · exact .branch hh hop (positionAt?_eq_none hat)

/-- A handler without a flaw is good. Together with `not_fault_of_good`, looking for flaws in order
misses nothing. -/
theorem good_of_flaw?_eq_none (hh : p[position]? = some h)
    (hnone : p.flaw? registers position = none) : h.Good registers p := by
  have hfate := h.fateOf registers position
  simp only [flaw?, hh] at hnone
  generalize h.fate registers position = fate at hfate hnone
  cases hfate with
  | unknown | register => cases hnone
  | next hunknown _ hjnz hregister => exact ⟨hunknown, hregister, fun hop => absurd hop hjnz⟩
  | exit hop => exact ⟨by simp [hop], by simp [Opcode.namesRegister, hop], by simp [hop]⟩
  | branch hop =>
    refine ⟨by simp [hop], by simp [Opcode.namesRegister, hop], fun _ => ?_⟩
    cases hat : p.positionAt? h.data with
    | some found =>
      obtain ⟨h', hh', haddress⟩ := positionAt?_eq_some hat
      exact ⟨h', List.mem_of_getElem? hh', haddress⟩
    | none => simp [branchTarget_of_none hat] at hnone

/-- The branch of a good handler is resolved. -/
theorem exists_positionAt?_of_good (hgood : h.Good registers p) (hop : h.opcode = .jnz) :
    ∃ target, p.positionAt? h.data = some target := by
  obtain ⟨h', hmem, haddress⟩ := hgood.branch hop
  cases hat : p.positionAt? h.data with
  | some target => exact ⟨target, rfl⟩
  | none => exact absurd haddress (positionAt?_eq_none hat h' hmem)

/-- Nothing is wrong with a good handler: each fault contradicts one of the three conditions. -/
theorem not_fault_of_good {cause : Failure} (hh : p[position]? = some h)
    (hgood : h.Good registers p) :
    ¬ Fault registers p position cause := by
  intro hfault
  cases hfault with
  | unknown hh' hop =>
    obtain rfl := Option.some.inj (hh.symm.trans hh')
    exact hgood.known hop
  | register hh' hop hle =>
    obtain rfl := Option.some.inj (hh.symm.trans hh')
    exact absurd (hgood.register hop) (Nat.not_lt.2 hle)
  | branch hh' hop hnone =>
    obtain rfl := Option.some.inj (hh.symm.trans hh')
    obtain ⟨h', hmem, haddress⟩ := hgood.branch hop
    exact hnone h' hmem haddress

/-! ## Flow of control -/

/-- Control may go from one position to another: on to the next handler, unless the routine is left,
or to the target of a branch. Both ways of a branch count, whatever its condition may be. -/
inductive Leads (p : Program) : Nat → Nat → Prop
  | next {position : Nat} {h : Handler} : p[position]? = some h → h.opcode ≠ .vmExit →
      position + 1 < p.length → Leads p position (position + 1)
  | taken {position target : Nat} {h : Handler} : p[position]? = some h → h.opcode = .jnz →
      p.positionAt? h.data = some target → Leads p position target

/-- Control may come to a position from the first handler. What a routine consists of is decided by
this alone, since no compiler evaluates conditions. -/
inductive Reachable (p : Program) : Nat → Prop
  | zero : 0 < p.length → Reachable p 0
  | step {position position' : Nat} : Reachable p position → Leads p position position' →
      Reachable p position'

/-- Control stays within the program; what runs off its end leads to no position. -/
theorem Leads.lt_length {position' : Nat} (hleads : p.Leads position position') :
    position' < p.length := by
  cases hleads with
  | next _ _ hlt => exact hlt
  | taken _ _ hat => exact lt_of_positionAt? hat

/-- Positions that control may come to are positions of the program. -/
theorem Reachable.lt_length (hreach : p.Reachable position) : position < p.length := by
  cases hreach with
  | zero hlt => exact hlt
  | step _ hleads => exact hleads.lt_length

/-! ## Destinations -/

/-- The handlers start at different addresses, none of them just behind the last one. A routine
knows its blocks by address, and without this two places would share a block. -/
structure Separate (p : Program) : Prop where
  addresses : (p.map (·.address)).Nodup
  exit : ∀ h ∈ p, h.address.toUInt64 ≠ p.exitAddress

/-- There is such a place in the program: any of its positions, and always the one behind it. -/
def Valid (p : Program) : Destination → Prop
  | .handler position => position < p.length
  | .exit => True

/-- The address of a destination. A position outside of the program has the address zero, which is
never asked for. -/
def site (p : Program) : Destination → Word
  | .handler position => (p[position]?.map (·.address.toUInt64)).getD 0
  | .exit => p.exitAddress

/-- The last handler is a branch, so control may run off the program's end after it. -/
def endsInBranch (p : Program) : Bool :=
  p.getLast?.any (·.opcode == .jnz)

/-- Where the compiled code of a handler goes on: the target of a branch first, then what follows. A
handler that leaves goes nowhere, and so does the last one unless it branches. -/
def nexts (p : Program) (position : Nat) : List Destination :=
  match p[position]? with
  | none => []
  | some h =>
    match h.opcode with
    | .vmExit => []
    | .jnz =>
      match p.positionAt? h.data with
      | some target => [.handler target, p.successor position]
      | none => []
    | _ => if position + 1 < p.length then [.handler (position + 1)] else []

/-- Compiled code may come to a destination. For a handler it is reachability; the place behind the
program is come to from a branch at its end. -/
inductive Comes (p : Program) : Destination → Prop
  | handler {position : Nat} : p.Reachable position → Comes p (.handler position)
  | exit {position : Nat} : p.Reachable position → .exit ∈ p.nexts position → Comes p .exit

/-- The last handler decides. -/
theorem endsInBranch_eq (hh : p[position]? = some h) (hlast : position + 1 = p.length) :
    p.endsInBranch = (h.opcode == .jnz) := by
  have hget : p.getLast? = some h := by
    rw [List.getLast?_eq_getElem?, ← hlast]
    exact hh
  rw [endsInBranch, hget]
  rfl

/-- A handler is known by the address of its slot. -/
theorem site_handler (hh : p[position]? = some h) :
    p.site (.handler position) = h.address.toUInt64 := by
  rw [site, hh]
  rfl

/-- **Separate destinations are told apart by their addresses.** The place behind the program is
told apart by the second condition, since handlers need not be in the order of their addresses. -/
theorem Separate.injective {d d' : Destination} (hseparate : p.Separate) (hd : p.Valid d)
    (hd' : p.Valid d') (hsite : p.site d = p.site d') : d = d' := by
  cases d with
  | exit =>
    cases d' with
    | exit => rfl
    | handler position' =>
      rw [site_handler (List.getElem?_eq_getElem hd')] at hsite
      exact absurd hsite.symm (hseparate.exit _ (List.getElem_mem hd'))
  | handler position =>
    rw [site_handler (List.getElem?_eq_getElem hd)] at hsite
    cases d' with
    | exit => exact absurd hsite (hseparate.exit _ (List.getElem_mem hd))
    | handler position' =>
      -- Handlers have addresses of 32 bits, and widening them loses nothing.
      rw [site_handler (List.getElem?_eq_getElem hd'), UInt32.toUInt64_inj] at hsite
      have hlt : position < (p.map (·.address)).length := by rwa [List.length_map]
      have hget : (p.map (·.address))[position]? = (p.map (·.address))[position']? := by
        rw [List.getElem?_map, List.getElem?_map, List.getElem?_eq_getElem hd,
          List.getElem?_eq_getElem hd']
        exact congrArg some hsite
      rw [(List.getElem?_inj hlt hseparate.addresses).1 hget]

/-- A handler that leaves goes nowhere. -/
theorem nexts_of_exit (hh : p[position]? = some h) (hop : h.opcode = .vmExit) :
    p.nexts position = [] := by
  simp [nexts, hh, hop]

/-- The target of a branch comes first, as it does among the operands of a conditional jump. -/
theorem nexts_of_branch {target : Nat} (hh : p[position]? = some h) (hop : h.opcode = .jnz)
    (hat : p.positionAt? h.data = some target) :
    p.nexts position = [.handler target, p.successor position] := by
  simp [nexts, hh, hop, hat]

/-- Any other handler goes on with the next one. The last one has nothing behind it and closes the
code instead. -/
theorem nexts_of_next (hh : p[position]? = some h) (hexit : h.opcode ≠ .vmExit)
    (hjnz : h.opcode ≠ .jnz) :
    p.nexts position = if position + 1 < p.length then [.handler (position + 1)] else [] := by
  rw [nexts, hh]
  dsimp only
  split
  · exact absurd ‹_› hexit
  · exact absurd ‹_› hjnz
  · rfl

/-- The successor is the next handler if there is one. -/
theorem successor_eq_handler {position' : Nat}
    (hsuccessor : p.successor position = .handler position') :
    position' = position + 1 ∧ position + 1 < p.length := by
  rw [successor] at hsuccessor
  split at hsuccessor
  · cases hsuccessor
    exact ⟨rfl, ‹_›⟩
  · cases hsuccessor

/-- Compiled code goes where control goes, so what it comes to is reachable. -/
theorem leads_of_mem_nexts {position' : Nat} (hmem : .handler position' ∈ p.nexts position) :
    p.Leads position position' := by
  cases hh : p[position]? with
  | none => simp [nexts, hh] at hmem
  | some h =>
    by_cases hexit : h.opcode = .vmExit
    · simp [nexts_of_exit hh hexit] at hmem
    by_cases hjnz : h.opcode = .jnz
    · cases hat : p.positionAt? h.data with
      | none => simp [nexts, hh, hjnz, hat] at hmem
      | some target =>
        rw [nexts_of_branch hh hjnz hat] at hmem
        rcases List.mem_cons.1 hmem with htarget | hrest
        · cases htarget
          exact .taken hh hjnz hat
        · obtain ⟨rfl, hlt⟩ := successor_eq_handler (List.mem_singleton.1 hrest).symm
          exact .next hh hexit hlt
    · rw [nexts_of_next hh hexit hjnz] at hmem
      split at hmem
      · cases List.mem_singleton.1 hmem
        exact .next hh hexit ‹_›
      · cases hmem

/-- And it goes everywhere control goes, if the handler has no flaw. With a flaw there is no code
that could go on. -/
theorem mem_nexts_of_leads {position' : Nat} (hnone : p.flaw? registers position = none)
    (hleads : p.Leads position position') : .handler position' ∈ p.nexts position := by
  cases hleads with
  | @next h hh hexit hlt =>
    -- A branch whose target is unknown has no code at all; being without a flaw rules that out.
    by_cases hjnz : h.opcode = .jnz
    · obtain ⟨target, hat⟩ := exists_positionAt?_of_good (good_of_flaw?_eq_none hh hnone) hjnz
      rw [nexts_of_branch hh hjnz hat, successor, if_pos hlt]
      simp
    · rw [nexts_of_next hh hexit hjnz, if_pos hlt]
      simp
  | taken hh hjnz hat =>
    rw [nexts_of_branch hh hjnz hat]
    simp

/-- Only a branch at the end goes behind the program. Any other last handler closes the code where
it stands. -/
theorem exit_mem_nexts {p : Program} (hmem : .exit ∈ p.nexts position) :
    ∃ h, p[position]? = some h ∧ h.opcode = .jnz ∧ position + 1 = p.length := by
  cases hh : p[position]? with
  | none => simp [nexts, hh] at hmem
  | some h =>
    have hlt : position < p.length := (List.getElem?_eq_some_iff.1 hh).1
    by_cases hexit : h.opcode = .vmExit
    · simp [nexts_of_exit hh hexit] at hmem
    by_cases hjnz : h.opcode = .jnz
    · refine ⟨h, rfl, hjnz, ?_⟩
      cases hat : p.positionAt? h.data with
      | none => simp [nexts, hh, hjnz, hat] at hmem
      | some target =>
        rw [nexts_of_branch hh hjnz hat, successor] at hmem
        split at hmem
        · simp at hmem
        · omega
    · rw [nexts_of_next hh hexit hjnz] at hmem
      split at hmem <;> simp at hmem

/-- Where the code of a reachable handler goes on, compiled code comes to. -/
theorem comes_of_mem_nexts {d : Destination} (hreach : p.Reachable position)
    (hmem : d ∈ p.nexts position) : p.Comes d := by
  cases d with
  | handler position' => exact .handler (hreach.step (leads_of_mem_nexts hmem))
  | exit => exact .exit hreach hmem

/-- Compiled code comes to places of the program only. -/
theorem Comes.valid {d : Destination} (hcomes : p.Comes d) : p.Valid d := by
  cases hcomes with
  | handler hreach => exact hreach.lt_length
  | exit => exact trivial

/-- Code leads to places of the program only, whether or not control comes to that code. -/
theorem valid_of_mem_nexts {d : Destination} (hmem : d ∈ p.nexts position) : p.Valid d := by
  cases d with
  | handler position' => exact (leads_of_mem_nexts hmem).lt_length
  | exit => trivial

/-- Control may run off the program's end if it may come to a branch there. No reachable handler may
have a flaw, for a branch whose target is unknown is not compiled and leads nowhere. -/
theorem comes_exit_iff (hnone : ∀ {position}, p.Reachable position →
    p.flaw? registers position = none) :
    p.Comes .exit ↔ p.Reachable (p.length - 1) ∧ p.endsInBranch = true := by
  constructor
  · intro hcomes
    cases hcomes with
    | @exit position hreach hmem =>
      obtain ⟨h, hh, hop, hlast⟩ := exit_mem_nexts hmem
      obtain rfl : position = p.length - 1 := by omega
      refine ⟨hreach, ?_⟩
      rw [endsInBranch_eq hh hlast, hop]
      rfl
  · rintro ⟨hreach, hends⟩
    have hlt := hreach.lt_length
    have hh : p[p.length - 1]? = some p[p.length - 1] := List.getElem?_eq_getElem hlt
    have hlast : p.length - 1 + 1 = p.length := by omega
    rw [endsInBranch_eq hh hlast, beq_iff_eq] at hends
    obtain ⟨target, hat⟩ :=
      exists_positionAt?_of_good (good_of_flaw?_eq_none hh (hnone hreach)) hends
    refine .exit hreach ?_
    rw [nexts_of_branch hh hends hat, successor, if_neg (by omega)]
    simp

end Program

end CodeRecovery
