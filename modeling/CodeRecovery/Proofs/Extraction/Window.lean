/-
What an extraction depends on outside its bytecode.

The walk learns about the native code only what it classifies, and it classifies the code at the
pointers it follows: the pointer of every handler but the last, and that one too if the walk gave up
behind it. `followed` reads these pointers off the result. Two walks through the same bytecode have
the same result exactly if they classify the code there alike.

So the window does not matter where it was wide enough. A stub is decoded up to its first jump, and
once the jump is inside the window and below the limit, a wider window and a higher limit give the
same stub. Nor does the order of the runs matter in which the image is kept, as long as they do not
overlap.
-/
import Mathlib.Data.List.Pairwise
import CodeRecovery.Proofs.Extraction.Tiling
import CodeRecovery.Proofs.Native.Locality

set_option autoImplicit false

namespace CodeRecovery

/-! ## Images -/

namespace Regions

variable {r r' : Regions} {address : Word} {run : Word × List UInt8}

/-- No address lies in both runs. -/
def Apart (a b : Word × List UInt8) : Prop :=
  ∀ address, ¬ (covers address a = true ∧ covers address b = true)

instance : Std.Symm Apart where
  symm _ _ hab address hboth := hab address hboth.symm

/-- Runs are apart where one ends before the other starts. Runs do not wrap, so there is no other
way to be apart. -/
theorem apart_of_le {a b : Word × List UInt8} (h : a.1.toNat + a.2.length ≤ b.1.toNat) :
    Apart a b := by
  rintro address ⟨ha, hb⟩
  simp only [covers, Bool.and_eq_true, decide_eq_true_eq, UInt64.le_iff_toNat_le] at ha hb
  omega

/-- No address lies in two runs. Without it the first run that an address lies in would count, and
the order would matter. -/
def Disjoint (r : Regions) : Prop :=
  r.runs.Pairwise Apart

/-- Being apart has no direction, so it does not matter in which order the runs are. -/
theorem Disjoint.perm (hdisjoint : r.Disjoint) (hperm : r.runs.Perm r'.runs) : r'.Disjoint :=
  (hperm.pairwise_iff symm).1 hdisjoint

/-- **The run around an address is the one found, wherever it stands.** The search gives the first
run that covers the address, and there is no second one. -/
theorem Disjoint.find?_eq_some_iff (hdisjoint : r.Disjoint) :
    r.runs.find? (covers address) = some run ↔ run ∈ r.runs ∧ covers address run = true := by
  constructor
  · intro hfound
    exact ⟨List.mem_of_find?_eq_some hfound, List.find?_some hfound⟩
  · rintro ⟨hmem, hcovers⟩
    cases hfound : r.runs.find? (covers address) with
    | none =>
      rw [List.find?_eq_none] at hfound
      exact absurd hcovers (hfound run hmem)
    | some other =>
      by_cases hsame : other = run
      · rw [hsame]
      · have hapart : Apart other run :=
          hdisjoint.forall (List.mem_of_find?_eq_some hfound) hmem hsame
        exact absurd ⟨List.find?_some hfound, hcovers⟩ (hapart address)

/-- Reads do not depend on the order of the runs, nor does whether they break off. -/
theorem Disjoint.read_perm (hdisjoint : r.Disjoint) (hperm : r.runs.Perm r'.runs) (address : Word)
    (length : Nat) : r'.read address length = r.read address length := by
  have hfind : r'.runs.find? (covers address) = r.runs.find? (covers address) := by
    ext run
    rw [(hdisjoint.perm hperm).find?_eq_some_iff, hdisjoint.find?_eq_some_iff, hperm.mem_iff]
  rw [read, read, hfind]

/-- A read of a length from an address would end, counted from the start of the run around the
address, at a number of 64 bits. -/
def Reaches (r : Regions) (address : Word) (length : Nat) : Prop :=
  ∀ run ∈ r.runs, covers address run = true →
    address.toNat - run.1.toNat + length < UInt64.size

/-- Runs and reads of any usual size do: an address in a run is less than the run's length away from
its start. -/
theorem reaches_of_le {length : Nat} (h : ∀ run ∈ r.runs, run.2.length + length ≤ UInt64.size)
    (address : Word) : r.Reaches address length := by
  intro run hmem hcovers
  have hle := h run hmem
  simp only [covers, Bool.and_eq_true, decide_eq_true_eq, UInt64.le_iff_toNat_le] at hcovers
  omega

/-- Whether a read of a length breaks off depends on the run around its address: where the run ends
and where the read would end have to be numbers of 64 bits. The first does not depend on the
read. -/
theorem Disjoint.isSome_read_iff (hdisjoint : r.Disjoint) (hmem : run ∈ r.runs)
    (hcovers : covers address run = true) (length : Nat) :
    (r.read address length).isSome ↔ run.1.toNat + run.2.length < UInt64.size ∧
      address.toNat - run.1.toNat + length < UInt64.size := by
  rw [read, hdisjoint.find?_eq_some_iff.2 ⟨hmem, hcovers⟩]
  simp

/-- A longer read that does not break off begins like a shorter one; it may be no longer, at the end
of a run. Both start at the same place of the same run. -/
theorem read_extends {length length' : Nat} {code code' : List UInt8} (hlength : length ≤ length')
    (hcode : r.read address length = some code) (hcode' : r.read address length' = some code') :
    code <+: code' := by
  unfold read at hcode hcode'
  cases hfound : r.runs.find? (covers address) with
  | none =>
    rw [hfound] at hcode hcode'
    exact Option.some.inj hcode ▸ List.nil_prefix
  | some run =>
    rw [hfound] at hcode hcode'
    simp only [Option.ite_none_right_eq_some] at hcode hcode'
    rw [← Option.some.inj hcode.2, ← Option.some.inj hcode'.2]
    exact List.take_prefix_take_left hlength

end Regions

/-! ## Stubs -/

/-- The settings with another window and another limit on instructions. Nothing else about them
bears on how much code is looked at. -/
def Settings.widened (s : Settings) (window limit : Nat) : Settings :=
  { s with handlerWindow := window, scanLimit := limit }

/-- A stub is classified by where it starts and by what it does before its first jump. What was
decoded behind the jump, or not decoded any more, makes no difference. -/
theorem Stub.classify_congr (handlers : HandlerMap) (pointer : Native.Register) {stub stub' : Stub}
    (hstart : stub.head?.map (·.ip) = stub'.head?.map (·.ip))
    (hbefore : stub.takeWhile (·.mnemonic ≠ .jmp) = stub'.takeWhile (·.mnemonic ≠ .jmp)) :
    classify handlers pointer stub = classify handlers pointer stub' := by
  have hadvance : advance pointer stub = advance pointer stub' := by
    unfold advance
    rw [hbefore]
  unfold classify
  rw [hadvance]
  cases stub with
  | nil =>
    cases stub' with
    | nil => rfl
    | cons first' rest' => cases hstart
  | cons first rest =>
    cases stub' with
    | nil => cases hstart
    | cons first' rest' =>
      have hip : first.ip = first'.ip := Option.some.inj hstart
      dsimp only
      rw [hip]

namespace Extraction

variable {isa : Native.InstructionSet} {space space' : AddressSpace} {s s' : Settings}
  {stream : UInt32} {bytes rest : List UInt8} {dispatch : UInt32} {e : Extraction}

/-! ## Pointers that the walk follows -/

/-- The pointers whose code was looked at. The last one was not if the bytecode ended behind it,
since the walk looks for bytes before it looks for code. -/
def followed (e : Extraction) : List UInt32 :=
  let pointers := e.program.map (·.dispatch)
  if e.stop.isSome then pointers else pointers.dropLast

/-- Nothing was looked at behind a pointer at the end. -/
@[simp] theorem followed_done (first : Handler) : followed (behind first ⟨[], none⟩) = [] :=
  rfl

/-- Giving up takes a look at the code, so the pointer counts. -/
@[simp] theorem followed_stop (first : Handler) (stop : Stop) :
    followed (behind first ⟨[], some stop⟩) = [first.dispatch] :=
  rfl

/-- The pointer of a handler that another one follows was looked at. -/
@[simp] theorem followed_behind (first second : Handler) (e : Extraction) :
    followed (behind first (behind second e)) = first.dispatch :: followed (behind second e) := by
  unfold behind followed
  split
  · rfl
  · rfl

/-- **A walk depends on the code at the pointers it follows**, and on no other code. Another walk
through the same bytecode, for which the code at each of these pointers is classified alike or is
out of reach, finds the same if it is always within reach and otherwise breaks off. The handler in
front of the place stands for its pointer. -/
theorem walk_of_followed (first : Handler) {offset : Nat} {rest : List UInt8} {e : Extraction}
    (hwalk : walk isa space s stream offset first.dispatch rest = some e)
    (hcode : ∀ dispatch ∈ followed (behind first e),
      classifyAt isa space' s' dispatch = classifyAt isa space s dispatch ∨
        classifyAt isa space' s' dispatch = none) :
    walk isa space' s' stream offset first.dispatch rest
      = if (followed (behind first e)).all fun d => (classifyAt isa space' s' d).isSome then some e
        else none := by
  rcases walk_cases hwalk with ⟨rfl, rfl⟩ | ⟨hrest, opcode, width, hclassified, hstep⟩
  · rw [walk_nil, followed_done, List.all_nil, if_pos rfl]
  rcases hstep with ⟨hstop, rfl⟩ | ⟨⟨hwide, hfits⟩, h, others, hhandler, hothers, rfl⟩
  · rw [followed_stop] at hcode ⊢
    rw [List.forall_mem_singleton] at hcode
    rw [List.all_cons, List.all_nil, Bool.and_true]
    rcases hcode with hsame | hnone
    · rw [hclassified] at hsame
      rw [walk_stop hrest hsame hstop, hsame, if_pos Option.isSome_some]
    · rw [walk_broken hrest hnone, hnone, if_neg (by simp)]
  · rw [followed_behind, List.forall_mem_cons] at hcode
    rw [followed_behind, List.all_cons]
    rcases hcode.1 with hsame | hnone
    · rw [hclassified] at hsame
      rw [walk_slot hsame hwide hfits hhandler, walk_of_followed h hothers hcode.2, hsame,
        Option.isSome_some, Bool.true_and]
      split
      · rfl
      · rfl
    · rw [walk_broken hrest hnone, hnone, if_neg (by simp)]
termination_by rest.length
decreasing_by
  rw [List.length_drop]
  omega

/-- The same holds of whole extractions, whose first pointer is the one in front. It is all that the
results about windows need of the walk. -/
theorem ofBytes_of_followed (hextracted : ofBytes isa space s stream bytes = some e)
    (hcode : ∀ dispatch ∈ e.followed,
      classifyAt isa space' s' dispatch = classifyAt isa space s dispatch ∨
        classifyAt isa space' s' dispatch = none) :
    ofBytes isa space' s' stream bytes
      = if e.followed.all fun d => (classifyAt isa space' s' d).isSome then some e else none := by
  by_cases hshort : bytes.length < 4
  · rw [ofBytes_short hshort] at hextracted ⊢
    have hnone : followed ⟨[], none⟩ = [] := rfl
    rw [← Option.some.inj hextracted, hnone, List.all_nil, if_pos rfl]
  · have hlength : 4 ≤ bytes.length := Nat.le_of_not_lt hshort
    obtain ⟨dispatch, hdispatch⟩ : ∃ d, d = UInt32.ofNat (numberAt bytes 0 4) := ⟨_, rfl⟩
    rw [ofBytes_long hlength hdispatch, Option.map_eq_some_iff] at hextracted
    obtain ⟨others, hothers, rfl⟩ := hextracted
    have hwalk : walk isa space' s' stream 4 dispatch (bytes.drop 4) = _ :=
      walk_of_followed (.entry stream dispatch) hothers hcode
    rw [ofBytes_long hlength hdispatch, hwalk]
    split
    · rfl
    · rfl

/-! ## The window -/

/-- All code that was looked at came to its jump: neither the end of the window nor the limit on
instructions cut anything off. -/
def Conclusive (isa : Native.InstructionSet) (space : AddressSpace) (s : Settings)
    (e : Extraction) : Prop :=
  ∀ dispatch ∈ e.followed, ∃ stub ∈ stubAt isa space s dispatch, Native.EndsIn .jmp stub

instance (isa : Native.InstructionSet) (space : AddressSpace) (s : Settings) (e : Extraction) :
    Decidable (Conclusive isa space s e) :=
  List.decidableBAll _ _

/-- A stub is what is decoded from one read at one address. There is none if the place has no
address or the read breaks off. -/
theorem stubAt_eq_some_iff {stub : Stub} :
    stubAt isa space s dispatch = some stub ↔ ∃ address code, s.address? dispatch = some address ∧
      space.read address s.handlerWindow = some code ∧
      isa.decodeRun .jmp s.scanLimit address code = stub := by
  simp [stubAt, Option.bind_eq_some_iff]

/-- **A wider window shows the same stub** where a first one showed it up to its jump, unless the
read breaks off. The images may be different ones; all that counts is that the second read begins
like the first. -/
theorem stubAt_wider (hlocal : isa.Local) {window limit : Nat} {address : Word} {stub : Stub}
    (hlimit : s.scanLimit ≤ limit)
    (hread : ∀ code code', space.read address s.handlerWindow = some code →
      space'.read address window = some code' → code <+: code')
    (haddress : s.address? dispatch = some address)
    (hstub : stubAt isa space s dispatch = some stub) (hstop : Native.EndsIn .jmp stub) :
    stubAt isa space' (s.widened window limit) dispatch
      = (space'.read address window).map fun _ => stub := by
  obtain ⟨address', code, haddress', hcode, rfl⟩ := stubAt_eq_some_iff.1 hstub
  obtain rfl : address' = address := Option.some.inj (haddress'.symm.trans haddress)
  cases hcode' : space'.read address' window with
  | none =>
    have hwidened : (s.widened window limit).address? dispatch = some address' := haddress'
    rw [stubAt, hwidened]
    simp only [Option.bind_eq_bind, Option.bind_some, Settings.widened, hcode', Option.bind_none,
      Option.map_none]
  | some code' =>
    refine stubAt_eq_some_iff.2 ⟨address', code', haddress', hcode', ?_⟩
    exact hlocal.decodeRun_extended hlimit (hread code code' hcode hcode') hstop

/-- Where code came to its jump, it lies in a run that ends within 64 bits; so a longer read breaks
off exactly if it would end beyond them. -/
theorem isSome_read_iff {r : Regions} (hdisjoint : r.Disjoint) {address : Word} {stub : Stub}
    (haddress : s.address? dispatch = some address)
    (hstub : stubAt isa r.space s dispatch = some stub) (hstop : Native.EndsIn .jmp stub)
    (length : Nat) : (r.read address length).isSome ↔ r.Reaches address length := by
  obtain ⟨address', code, haddress', hcode, rfl⟩ := stubAt_eq_some_iff.1 hstub
  obtain rfl : address' = address := Option.some.inj (haddress'.symm.trans haddress)
  change r.read address' s.handlerWindow = some code at hcode
  cases hfound : r.runs.find? (Regions.covers address') with
  | none =>
    -- There would be no code to come to a jump.
    rw [Regions.read, hfound] at hcode
    exact absurd (Option.some.inj hcode).symm (Native.InstructionSet.ne_nil_of_endsIn hstop)
  | some run =>
    obtain ⟨hmem, hcovers⟩ := hdisjoint.find?_eq_some_iff.1 hfound
    have hfirst : (r.read address' s.handlerWindow).isSome := Option.isSome_of_eq_some hcode
    have hend := ((hdisjoint.isSome_read_iff hmem hcovers s.handlerWindow).1 hfirst).1
    rw [hdisjoint.isSome_read_iff hmem hcovers]
    constructor
    · rintro ⟨-, hreach⟩ run' hmem' hcovers'
      have hsame := (hdisjoint.find?_eq_some_iff.2 ⟨hmem', hcovers'⟩).symm.trans hfound
      rw [Option.some.inj hsame]
      exact hreach
    · intro hreach
      exact ⟨hend, hreach run hmem hcovers⟩

/-- So code that came to its jump is classified by a wider window as before if the window is in
reach, and otherwise it is not classified. The order of the runs does not matter for either. -/
theorem classifyAt_wider (hlocal : isa.Local) {r r' : Regions} {window limit : Nat}
    (hdisjoint : r.Disjoint) (hperm : r.runs.Perm r'.runs) (hwindow : s.handlerWindow ≤ window)
    (hlimit : s.scanLimit ≤ limit) {stub : Stub} (hstub : stubAt isa r.space s dispatch = some stub)
    (hstop : Native.EndsIn .jmp stub) :
    ∃ address, s.address? dispatch = some address ∧
      (r.Reaches address window →
        classifyAt isa r'.space (s.widened window limit) dispatch
          = classifyAt isa r.space s dispatch) ∧
      (¬ r.Reaches address window →
        classifyAt isa r'.space (s.widened window limit) dispatch = none) := by
  obtain ⟨address, code, haddress, hcode, -⟩ := stubAt_eq_some_iff.1 hstub
  have hread : ∀ code code', r.space.read address s.handlerWindow = some code →
      r'.space.read address window = some code' → code <+: code' := by
    intro code code' hcode hcode'
    change r'.read address window = some code' at hcode'
    rw [hdisjoint.read_perm hperm] at hcode'
    exact Regions.read_extends hwindow hcode hcode'
  have hwider := stubAt_wider hlocal hlimit hread haddress hstub hstop
  change _ = (r'.read address window).map fun _ => stub at hwider
  rw [hdisjoint.read_perm hperm] at hwider
  have hreach := isSome_read_iff hdisjoint haddress hstub hstop window
  refine ⟨address, haddress, fun hin => ?_, fun hout => ?_⟩
  · obtain ⟨code', hcode'⟩ := Option.isSome_iff_exists.1 (hreach.2 hin)
    rw [classifyAt, hwider, hcode', classifyAt, hstub]
    rfl
  · have hnone : r.read address window = none := by
      rw [← Option.not_isSome_iff_eq_none]
      exact mt hreach.1 hout
    rw [classifyAt, hwider, hnone]
    rfl

/-- A read of a length from any code that was looked at is in reach. It is a condition on the code
and the length alone, not on the extraction with the wider window. -/
def InReach (r : Regions) (s : Settings) (length : Nat) (e : Extraction) : Prop :=
  ∀ dispatch ∈ e.followed, ∀ address, s.address? dispatch = some address → r.Reaches address length

section

variable (hlocal : isa.Local) {r r' : Regions} {window limit : Nat} (hdisjoint : r.Disjoint)
  (hperm : r.runs.Perm r'.runs) (hwindow : s.handlerWindow ≤ window) (hlimit : s.scanLimit ≤ limit)
  (hconclusive : Conclusive isa r.space s e)

include hlocal hdisjoint hperm hwindow hlimit hconclusive

/-- With a wider window the walk goes the same way: at each pointer it learns the same, unless the
code is out of reach, in which case it breaks off there. -/
theorem ofBytes_widened (hextracted : ofBytes isa r.space s stream bytes = some e) :
    ofBytes isa r'.space (s.widened window limit) stream bytes
      = if e.followed.all fun d => (classifyAt isa r'.space (s.widened window limit) d).isSome then
          some e
        else none := by
  refine ofBytes_of_followed hextracted fun dispatch hfollowed => ?_
  obtain ⟨stub, hstub, hstop⟩ := hconclusive dispatch hfollowed
  obtain ⟨address, -, hin, hout⟩ :=
    classifyAt_wider hlocal hdisjoint hperm hwindow hlimit hstub hstop
  by_cases hreach : r.Reaches address window
  · exact .inl (hin hreach)
  · exact .inr (hout hreach)

/-- The walk gets at all the code if the window is in reach, and only then. It did get at all of it
with the first window, so nothing but the length of the read can be in the way. -/
theorem all_classifyAt_widened_iff :
    (e.followed.all fun d => (classifyAt isa r'.space (s.widened window limit) d).isSome) = true ↔
      InReach r s window e := by
  rw [List.all_eq_true]
  refine forall₂_congr fun dispatch hfollowed => ?_
  obtain ⟨stub, hstub, hstop⟩ := hconclusive dispatch hfollowed
  obtain ⟨address, haddress, hin, hout⟩ :=
    classifyAt_wider hlocal hdisjoint hperm hwindow hlimit hstub hstop
  have hclassified : (classifyAt isa r.space s dispatch).isSome := by
    rw [classifyAt, hstub]
    rfl
  constructor
  · intro hsome address' haddress'
    obtain rfl : address = address' := Option.some.inj (haddress.symm.trans haddress')
    by_contra hreach
    rw [hout hreach] at hsome
    cases hsome
  · intro hreach
    rw [hin (hreach address haddress)]
    exact hclassified

end

/-- **A wider window changes nothing that was complete, if it is in reach.** Of the instruction set
it is assumed that an instruction depends on its own bytes. Then a run that came to its stop is the
same with more code and a higher limit; and a stub is classified by what stands before its first
jump. So if all code that was looked at came to its jump, a wider window and a higher limit give the
same extraction, in whatever order the image keeps its runs, exactly if no read of the window would
end beyond 64 bits. If one would, the extraction breaks off. -/
theorem ofBytes_wider_window {isa : Native.InstructionSet} (hlocal : isa.Local) :
    (∀ (stop : Native.Mnemonic) (limit limit' : Nat) (ip : Word) (code more : List UInt8),
      limit ≤ limit' → Native.EndsIn stop (isa.decodeRun stop limit ip code) →
      isa.decodeRun stop limit' ip (code ++ more) = isa.decodeRun stop limit ip code) ∧
    (∀ (handlers : HandlerMap) (pointer : Native.Register) (stub stub' : Stub),
      stub.head?.map (·.ip) = stub'.head?.map (·.ip) →
      stub.takeWhile (·.mnemonic ≠ .jmp) = stub'.takeWhile (·.mnemonic ≠ .jmp) →
      stub.classify handlers pointer = stub'.classify handlers pointer) ∧
    ∀ (r r' : Regions) (s : Settings) (window limit : Nat) (stream : UInt32) (bytes : List UInt8)
        (e : Extraction),
      r.Disjoint → r.runs.Perm r'.runs → s.handlerWindow ≤ window → s.scanLimit ≤ limit →
      ofBytes isa r.space s stream bytes = some e → Conclusive isa r.space s e →
        (ofBytes isa r'.space (s.widened window limit) stream bytes = some e ↔
          InReach r s window e) ∧
        (ofBytes isa r'.space (s.widened window limit) stream bytes = none ↔
          ¬ InReach r s window e) := by
  refine ⟨?run, ?stub, ?extraction⟩
  case run =>
    intro stop limit limit' ip code more hlimit hstop
    exact hlocal.decodeRun_extended hlimit (List.prefix_append code more) hstop
  case stub =>
    intro handlers pointer stub stub' hstart hbefore
    exact Stub.classify_congr handlers pointer hstart hbefore
  case extraction =>
    intro r r' s window limit stream bytes e hdisjoint hperm hwindow hlimit hextracted hconclusive
    have hreach := all_classifyAt_widened_iff hlocal hdisjoint hperm hwindow hlimit hconclusive
    rw [ofBytes_widened hlocal hdisjoint hperm hwindow hlimit hconclusive hextracted, ← hreach]
    constructor
    · rw [Option.ite_none_right_eq_some, and_iff_left rfl]
    · simp only [ite_eq_right_iff, reduceCtorEq, imp_false]

/-- Code of nine bytes and three instructions up to its jump, with more code behind, which moves the
bytecode pointer again. -/
def crowdedCode : List UInt8 :=
  [0x4C, 0x89, 0xE8, 0x49, 0x83, 0xC5, 0x0C, 0xFF, 0xE0, 0x49, 0x83, 0xC5, 0x08, 0xFF, 0xE0]

/-- The second run is code in two steps, at a lower address than the first. -/
def crowded : Regions :=
  ⟨[(0x140016194, crowdedCode),
    (0x140016101, [0x49, 0x83, 0xC5, 0x04, 0x49, 0xFF, 0xC5, 0xFF, 0xE0])]⟩

/-- A slot for each run of code, and the beginning of a third slot. -/
def crowdedBytes : List UInt8 :=
  [0x94, 0x61, 0x01, 0, 5, 0, 0, 0, 0, 0, 0, 0, 0x01, 0x61, 0x01, 0, 7, 0x94, 0x61, 0x01, 0,
    1, 2, 3]

/-- The window and the limit end exactly at the jumps, so neither may be any smaller. -/
theorem ofBytes_wider_window_crowded :
    Native.InstructionSet.stubs.decodeRun .jmp 64 0x140016194 crowdedCode
      = Native.InstructionSet.stubs.decodeRun .jmp 3 0x140016194 (crowdedCode.take 9) ∧
    Stub.classify .builtin (.whole .r13)
        (Native.InstructionSet.stubs.decodeRun .push 64 0x140016194 crowdedCode)
      = Stub.classify .builtin (.whole .r13)
        (Native.InstructionSet.stubs.decodeRun .jmp 64 0x140016194 crowdedCode) ∧
    ofBytes .stubs (Regions.space ⟨crowded.runs.reverse⟩)
        (Settings.widened { handlerWindow := 9, scanLimit := 3 } 256 64) 0x1000 crowdedBytes
      = some ⟨[.entry 0x1000 0x16194, ⟨.push64, 5, 0x1004, 0x16101, 12⟩,
          ⟨.popVr64, 7, 0x1010, 0x16194, 5⟩], some ⟨21, .push64, 12⟩⟩ := by
  obtain ⟨hrun, hstub, hextraction⟩ := ofBytes_wider_window Native.InstructionSet.local_stubs
  refine ⟨?_, ?_, ?_⟩
  · exact hrun .jmp 3 64 0x140016194 (crowdedCode.take 9) (crowdedCode.drop 9) (by decide)
      (by decide +kernel)
  · exact hstub _ _ _ _ (by decide +kernel) (by decide +kernel)
  · have hdisjoint : crowded.Disjoint :=
      .cons (fun run hrun => symm (Regions.apart_of_le (by
        rw [List.mem_singleton.1 hrun]
        decide))) (List.pairwise_singleton _ _)
    have hperm : crowded.runs.Perm crowded.runs.reverse := (List.reverse_perm _).symm
    have hextracted : ofBytes .stubs crowded.space { handlerWindow := 9, scanLimit := 3 } 0x1000
        crowdedBytes = some ⟨[.entry 0x1000 0x16194, ⟨.push64, 5, 0x1004, 0x16101, 12⟩,
          ⟨.popVr64, 7, 0x1010, 0x16194, 5⟩], some ⟨21, .push64, 12⟩⟩ := by decide +kernel
    refine (hextraction crowded ⟨crowded.runs.reverse⟩ _ 256 64 0x1000 crowdedBytes _
      hdisjoint hperm (by decide) (by decide) hextracted (by decide +kernel)).1.2 ?_
    intro dispatch _ address _
    exact Regions.reaches_of_le (by decide) address

/-- Code that starts one byte behind the start of its run. -/
def tucked : Regions :=
  ⟨[(0x140016193, 0x90 :: crowdedCode)]⟩

/-- One slot for that code. -/
def tuckedBytes : List UInt8 :=
  [0x94, 0x61, 0x01, 0, 5, 0, 0, 0, 0, 0, 0, 0, 0x94, 0x61, 0x01, 0]

/-- The widest window there is can be out of reach, however little code there is: a read of it from
anywhere but the start of a run would end beyond 64 bits. The window that shows all of the code is
far smaller, and the extraction it gives is complete. -/
theorem widest_window_out_of_reach :
    Native.InstructionSet.stubs.Local ∧ tucked.Disjoint ∧
      (∃ e, ofBytes .stubs tucked.space {} 0x1000 tuckedBytes = some e ∧
        Conclusive .stubs tucked.space {} e) ∧
      ofBytes .stubs tucked.space (Settings.widened {} (2 ^ 64 - 1) 64) 0x1000 tuckedBytes
        = none := by
  have hextracted : ofBytes .stubs tucked.space {} 0x1000 tuckedBytes
      = some ⟨[.entry 0x1000 0x16194, ⟨.push64, 5, 0x1004, 0x16194, 12⟩], none⟩ := by decide +kernel
  exact ⟨Native.InstructionSet.local_stubs, List.pairwise_singleton _ _,
    ⟨_, hextracted, by decide +kernel⟩, by decide +kernel⟩

end Extraction

end CodeRecovery
