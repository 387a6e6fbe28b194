/-
The numbering of values in the text of a compiled function.

Values have no names, so a reader of the text expects each to be one more than the one before. Here
the text is read back: it is cut at the ends of lines, and a line that assigns a value shows its
number in front. What a text of whole lines assigns does not depend on what stands behind it
(`Reads`), so the reading follows the text through the way it is put together: instruction by
instruction, then blocks, the function, the module. What remains is a fact about the compiler, that
it lays its blocks out in the order in which it numbers values.
-/
import CodeRecovery.Proofs.Graph.Acceptance
import CodeRecovery.Proofs.Graph.Moves

set_option autoImplicit false

namespace CodeRecovery

/-! ## Texts of one line -/

@[simp] theorem toString_string (text : String) : toString text = text := rfl

/-- A text without the end of a line in it. -/
abbrev OneLine (text : String) : Prop :=
  '\n' ∉ text.toList

/-- Digits do not end a line. The lemmas that follow say the same of everything that is put into a
line. -/
@[simp] theorem newline_notMem_toDigits (n : Nat) : '\n' ∉ Nat.toDigits 10 n := by
  intro hmem
  exact absurd (Nat.isDigit_of_mem_toDigits (by decide) (by decide) hmem) (by decide)

@[simp] theorem oneLine_repr_int (n : Int) : OneLine n.repr := by
  cases n <;> simp [OneLine, Int.repr]

@[simp] theorem BinaryOp.oneLine_name (op : BinaryOp) : OneLine op.name := by
  cases op <;> simp [OneLine, name]

@[simp] theorem SavedRegister.oneLine_name (r : SavedRegister) : OneLine r.name := by
  cases r with
  | flags => simp [OneLine, name]
  | gpr r => cases r <;> simp [OneLine, name, Gpr.name]

@[simp] theorem Opcode.oneLine_name (o : Opcode) : OneLine o.name := by
  cases o <;> simp [OneLine, name]

namespace Graph

@[simp] theorem Ty.oneLine_name (t : Ty) : OneLine t.name := by
  cases t <;> simp [OneLine, name]

@[simp] theorem Comparison.oneLine_name (c : Comparison) : OneLine c.name := by
  cases c <;> simp [OneLine, name]

@[simp] theorem Cast.oneLine_name (c : Cast) : OneLine c.name := by
  cases c <;> simp [OneLine, name]

@[simp] theorem Operand.oneLine_text (o : Operand) : OneLine o.text := by
  cases o with
  | value id type => simp [OneLine, text]
  | const type bits =>
    cases type with
    | i32 | i64 => simp [OneLine, text]
    | i1 | ptr =>
      simp only [OneLine, text]
      split <;> simp

@[simp] theorem Operand.oneLine_typedText (o : Operand) : OneLine o.typedText := by
  simp [OneLine, typedText]

/-- An instruction is written on one line. -/
theorem Instruction.oneLine_text (i : Instruction) : OneLine i.text := by
  cases i <;> simp [OneLine, text]

/-! ## Reading a text -/

/-- The value that a line assigns: its number stands behind two blanks and a `%`, in front of a `=`.
The name of a function or of a native register starts with another sign, and so do labels. -/
def assignedIn? : List Char → Option ValueName
  | ' ' :: ' ' :: '%' :: rest =>
    match rest.dropWhile Char.isDigit with
    | ' ' :: '=' :: ' ' :: _ => some (Nat.ofDigitChars 10 (rest.takeWhile Char.isDigit) 0)
    | _ => none
  | _ => none

/-- The values that the lines of a text assign, from top to bottom. This knows of nothing but the
text. -/
def assignedIn (text : List Char) : List ValueName :=
  (text.splitOn '\n').filterMap assignedIn?

/-- The values that the instructions of a function assign, block by block. -/
def Function.assigned (f : Function) : List ValueName :=
  f.blocks.toList.flatMap fun block => block.instructions.toList.filterMap Instruction.assigned?

/-- A number that is written in digits is read back. -/
theorem assignedIn?_number (n : ValueName) (rest : List Char) :
    assignedIn? (' ' :: ' ' :: '%' :: (Nat.toDigits 10 n ++ ' ' :: '=' :: ' ' :: rest))
      = some n := by
  have hdigits : ∀ c ∈ Nat.toDigits 10 n, c.isDigit = true := fun c hc =>
    Nat.isDigit_of_mem_toDigits (by decide) (by decide) hc
  have hnot : ' '.isDigit = false := by decide
  simp [assignedIn?, List.takeWhile_append_of_pos hdigits, List.dropWhile_append_of_pos hdigits,
    hnot, Nat.ofDigitChars_ten_toDigits]

/-- The line of an instruction shows the value that the instruction assigns. A store shows none. -/
theorem Instruction.assignedIn?_text (i : Instruction) :
    assignedIn? (s!"  {i.text}").toList = i.assigned? := by
  cases i with
  | store | storeRegister => simp [text, assigned?, assignedIn?]
  | _ => simp [text, assigned?, assignedIn?_number]

/-- A line that no blank starts assigns nothing. -/
theorem assignedIn?_of_head?_ne {line : List Char} (hhead : line.head? ≠ some ' ') :
    assignedIn? line = none := by
  cases line with
  | nil => rfl
  | cons c rest =>
    have hne : c ≠ ' ' := by simpa using hhead
    simp [assignedIn?, hne]

/-- A text of whole lines assigns these values, whatever stands behind it. So it does not matter
where in a text it is put. -/
def Reads (text : String) (values : List ValueName) : Prop :=
  ∀ rest, assignedIn (text.toList ++ rest) = values ++ assignedIn rest

namespace Reads

variable {text text' : String} {values values' : List ValueName}

/-- With nothing behind it, the text assigns just these values. -/
theorem assignedIn_eq (hreads : Reads text values) : assignedIn text.toList = values := by
  have hend : assignedIn [] = [] := rfl
  have hall := hreads []
  rwa [List.append_nil, hend, List.append_nil] at hall

theorem empty : Reads "" [] := by
  intro rest
  rfl

/-- Texts of whole lines can be put together. -/
theorem append (hreads : Reads text values) (hreads' : Reads text' values') :
    Reads (text ++ text') (values ++ values') := by
  intro rest
  rw [String.toList_append, List.append_assoc, hreads, hreads', List.append_assoc]

/-- A single line, as far as it is one. -/
theorem line (hline : OneLine text) : Reads (text ++ "\n") (assignedIn? text.toList).toList := by
  intro rest
  have hsplit : (text.toList ++ '\n' :: rest).splitOn '\n' = text.toList :: rest.splitOn '\n' :=
    List.splitOnP_append_cons_of_forall_mem
      (fun c hc => by simpa using fun heq : c = '\n' => hline (heq ▸ hc)) '\n' (by simp) rest
  have htext : (text ++ "\n").toList ++ rest = text.toList ++ '\n' :: rest := by simp
  rw [htext, assignedIn, hsplit, List.filterMap_cons]
  cases assignedIn? text.toList <;> rfl

/-- A line that assigns nothing, since it does not start with blanks. -/
theorem silent (hline : OneLine text) (hhead : text.toList.head? ≠ some ' ') :
    Reads (text ++ "\n") [] := by
  have hreads := line hline
  rwa [assignedIn?_of_head?_ne hhead] at hreads

theorem gap : Reads "\n" [] := by
  have hreads : Reads ("" ++ "\n") [] := silent (by simp [OneLine]) (by simp)
  rwa [String.empty_append] at hreads

/-- A line behind two blanks that no value starts: the end of a block. -/
theorem indented (hline : OneLine text) (hhead : text.toList.head? ≠ some '%') :
    Reads (s!"  {text}\n") [] := by
  have hnone : assignedIn? (s!"  {text}").toList = none := by
    cases hlist : text.toList with
    | nil => simp [hlist, assignedIn?]
    | cons c rest =>
      have hne : c ≠ '%' := by simpa [hlist] using hhead
      simp [hlist, assignedIn?, hne]
  have hreads : Reads (s!"  {text}" ++ "\n") _ := line (by simpa [OneLine] using hline)
  rwa [hnone] at hreads

variable {α : Type} {l : List α}

/-- Lines that assign at most one value each. -/
theorem join {lineOf : α → String} {value? : α → Option ValueName}
    (hreads : ∀ a ∈ l, Reads (lineOf a) (value? a).toList) :
    Reads (String.join (l.map lineOf)) (l.filterMap value?) := by
  induction l with
  | nil => exact empty
  | cons a rest ih =>
    have hall := (hreads a List.mem_cons_self).append
      (ih fun a' ha' => hreads a' (List.mem_cons_of_mem a ha'))
    rw [List.map_cons, String.join_cons, List.filterMap_cons]
    cases hvalue : value? a <;> rwa [hvalue] at hall

/-- Texts with empty lines between them. There is a text for the whole if there is one for each
part. -/
theorem exists_intercalate {text? : α → Option String} {valuesOf : α → List ValueName}
    (hreads : ∀ a ∈ l, ∃ text, text? a = some text ∧ Reads text (valuesOf a)) :
    ∃ texts, l.mapM text? = some texts ∧ Reads ("\n".intercalate texts) (l.flatMap valuesOf) := by
  induction l with
  | nil => exact ⟨[], rfl, empty⟩
  | cons a rest ih =>
    obtain ⟨text, htext, hfirst⟩ := hreads a List.mem_cons_self
    obtain ⟨texts, htexts, hrest⟩ := ih fun a' ha' => hreads a' (List.mem_cons_of_mem a ha')
    refine ⟨text :: texts, by simp [List.mapM_cons, htext, htexts], ?_⟩
    rw [List.flatMap_cons]
    -- An empty line stands behind a text only if another text follows.
    cases texts with
    | nil =>
      rw [String.intercalate_singleton, ← String.append_empty (s := text)]
      exact hfirst.append hrest
    | cons text' texts =>
      rw [String.intercalate_cons_cons]
      simpa using (hfirst.append gap).append hrest

end Reads

/-! ## Blocks, functions and modules -/

/-- A name that can be the label of a block: it stays on its line, and no blank is in front. -/
structure IsLabel (name : String) : Prop where
  oneLine : OneLine name
  head : name.toList.head? ≠ some ' '

/-- The line of a label assigns nothing. -/
theorem IsLabel.reads {name : String} (hlabel : IsLabel name) : Reads (s!"{name}:\n") [] := by
  have hhead : (name ++ ":").toList.head? ≠ some ' ' := by
    cases hlist : name.toList with
    | nil => simp [hlist]
    | cons c rest => simpa [hlist] using hlabel.head
  have hreads : Reads (name ++ ":" ++ "\n") [] :=
    .silent (by simpa [OneLine] using hlabel.oneLine) hhead
  rwa [String.append_assoc] at hreads

variable {f : Function} {block : Block}

/-- What the text of a function takes for granted. If a block has no end, or leads nowhere, there is
no text at all. -/
structure Function.Writable (f : Function) : Prop where
  name : OneLine f.name
  labels : ∀ block ∈ f.blocks.toList, IsLabel block.name
  ends : ∀ block ∈ f.blocks.toList, block.Ends f.blocks.size

namespace Function.Writable

/-- A block that is there has its name for a label. -/
theorem exists_label? (hf : f.Writable) {id : BlockIndex} (hid : id < f.blocks.size) :
    ∃ label, f.label? id = some label ∧ OneLine label := by
  have hget := Array.getElem?_eq_getElem hid
  exact ⟨f.blocks[id].name, by rw [label?, hget]; rfl,
    (hf.labels _ (List.mem_of_getElem? ((Array.getElem?_toList ..).trans hget))).oneLine⟩

/-- The end of a block has a line, which assigns nothing. -/
theorem exists_terminatorText? (hf : f.Writable) (hends : block.Ends f.blocks.size) :
    ∃ last, f.terminatorText? block.terminator = some last ∧ Reads (s!"  {last}\n") [] := by
  obtain ⟨t, ht, htargets⟩ := hends
  rw [ht]
  cases t with
  | br target =>
    obtain ⟨label, hlabel, hline⟩ :=
      hf.exists_label? (htargets target (by simp [Terminator.successors]))
    exact ⟨_, by rw [terminatorText?, hlabel]; rfl,
      .indented (by simpa [OneLine] using hline) (by simp)⟩
  | brIf condition yes no =>
    obtain ⟨yes', hyes, hline⟩ := hf.exists_label? (htargets yes (by simp [Terminator.successors]))
    obtain ⟨no', hno, hline'⟩ := hf.exists_label? (htargets no (by simp [Terminator.successors]))
    exact ⟨_, by rw [terminatorText?, hyes, hno]; rfl,
      .indented (by simpa [OneLine] using ⟨hline, hline'⟩) (by simp)⟩
  | ret value =>
    cases value with
    | none => exact ⟨_, rfl, .indented (by simp [OneLine]) (by simp)⟩
    | some value => exact ⟨_, rfl, .indented (by simp [OneLine]) (by simp)⟩

/-- A block is written as its label, its code and its end. -/
theorem exists_blockText? (hf : f.Writable) (hblock : block ∈ f.blocks.toList) :
    ∃ text, f.blockText? block = some text ∧
      Reads text (block.instructions.toList.filterMap Instruction.assigned?) := by
  obtain ⟨last, hlast, hend⟩ := hf.exists_terminatorText? (hf.ends block hblock)
  have hcode : Reads (String.join (block.instructions.toList.map fun i => s!"  {i.text}\n"))
      (block.instructions.toList.filterMap Instruction.assigned?) := by
    refine .join fun i _ => ?_
    rw [← i.assignedIn?_text]
    exact .line (by simpa [OneLine] using i.oneLine_text)
  have htext : f.blockText? block = some (s!"{block.name}:\n" ++
      (String.join (block.instructions.toList.map fun i => s!"  {i.text}\n") ++
        s!"  {last}\n")) := by
    rw [blockText?, hlast]
    simp [Function.comp_def, String.join_append]
  refine ⟨_, htext, ?_⟩
  have hreads := (hf.labels block hblock).reads.append (hcode.append hend)
  rwa [List.nil_append, List.append_nil] at hreads

/-- A function is written as its blocks between two lines. -/
theorem exists_text? (hf : f.Writable) : ∃ text, f.text? = some text ∧ Reads text f.assigned := by
  obtain ⟨texts, htexts, hreads⟩ :=
    Reads.exists_intercalate fun _ hblock => hf.exists_blockText? hblock
  have hfront : Reads (s!"define {f.returnType.name} @{f.name}() \x7b" ++ "\n") [] :=
    .silent (by simpa [OneLine] using hf.name) (by simp)
  have hback : Reads ("\x7d" ++ "\n") [] := .silent (by simp [OneLine]) (by simp)
  have hall := (hfront.append hreads).append hback
  rw [List.nil_append, List.append_nil] at hall
  refine ⟨_, ?_, hall⟩
  rw [text?, htexts]
  exact congrArg some (String.toList_inj.1 (by simp))

end Function.Writable

/-- A line that declares a native register. -/
theorem reads_global (r : SavedRegister) : Reads (s!"@{r.name} = external global i64\n") [] := by
  have htext : s!"@{r.name} = external global i64\n"
      = s!"@{r.name} = external global i64" ++ "\n" :=
    String.toList_inj.1 (by simp)
  rw [htext]
  exact .silent (by simp [OneLine]) (by simp)

/-- The two lines in front of a module. -/
theorem reads_header {name : String} (hname : OneLine name) :
    Reads (s!"; ModuleID = '{name}'\nsource_filename = \"{name}\"\n") [] := by
  have hfirst : Reads (s!"; ModuleID = '{name}'" ++ "\n") [] :=
    .silent (by simpa [OneLine] using hname) (by simp)
  have hsecond : Reads (s!"source_filename = \"{name}\"" ++ "\n") [] :=
    .silent (by simpa [OneLine] using hname) (by simp)
  have htext : s!"; ModuleID = '{name}'\nsource_filename = \"{name}\"\n"
      = s!"; ModuleID = '{name}'" ++ "\n" ++ (s!"source_filename = \"{name}\"" ++ "\n") :=
    String.toList_inj.1 (by simp)
  rw [htext]
  exact hfirst.append hsecond

/-- The text of a module with a single function. The declarations in front of it assign nothing. -/
theorem Function.Writable.exists_moduleText? (hf : f.Writable) {m : Module} (hname : OneLine m.name)
    (hfunctions : m.functions = #[f]) : ∃ text, m.text? = some text ∧ Reads text f.assigned := by
  obtain ⟨text, htext, hreads⟩ := hf.exists_text?
  let globals := m.registers.map fun r => s!"@{r.name} = external global i64\n"
  have hglobals : Reads (if globals.isEmpty then "" else "\n" ++ String.join globals) [] := by
    have hjoin : Reads (String.join globals) (m.registers.filterMap fun _ => none) :=
      .join fun r _ => reads_global r
    rw [List.filterMap_eq_nil_iff.2 fun _ _ => rfl] at hjoin
    split
    · exact .empty
    · exact Reads.gap.append hjoin
  refine ⟨_, ?_, ((reads_header hname).append hglobals).append (Reads.gap.append hreads)⟩
  simp [Module.text?, hfunctions, htext, globals]

/-! ## Compiled functions -/

/-- The values that code assigns, without their places. -/
theorem map_fst_assignmentsAt (id : BlockIndex) (code : List (Instruction × Nat)) :
    (assignmentsAt id code).map (·.1) = (code.map (·.1)).filterMap Instruction.assigned? := by
  simp [assignmentsAt, List.map_filterMap, List.filterMap_map, Function.comp_def]

/-- The check lists the same values, with their places. -/
theorem Function.assigned_eq (f : Function) : f.assigned = f.assignments.map (·.1) := by
  have hzip := List.zipIdx_map_fst 0 f.blocks.toList
  rw [assigned, ← hzip, List.flatMap_map, assignments, assignmentsOf, List.map_flatMap]
  simp only [map_fst_assignmentsAt, List.zipIdx_map_fst]

namespace Backend

variable {s : Settings} {p : Program} {b : Backend}

/-- The label of a handler starts with the name of its opcode. -/
theorem isLabel_handlerLabel (h : Handler) (position : Nat) :
    IsLabel (handlerLabel h position) where
  oneLine := by simp [OneLine, handlerLabel]
  head := by
    rw [toList_handlerLabel]
    cases h.opcode <;> simp [Opcode.name]

/-- All labels of a compiled function are such. -/
theorem Finished.isLabel (hfinished : Finished s p b) : ∀ block ∈ b.blocks, IsLabel block.name := by
  refine hfinished.forall_blocks ?_ ?_ ?_
  · exact ⟨by simp [OneLine, entryBlock], by simp [entryBlock]⟩
  · intro position n block n' hlowered
    obtain ⟨h, hname⟩ := hlowered.name
    exact hname ▸ isLabel_handlerLabel h position
  · exact fun n => ⟨by simp [OneLine, exitBlock, exitLabel], by simp [exitBlock, exitLabel]⟩

/-- A run does not change the name of the function. It is set once, in front of all code. -/
theorem name_of_run (hrun : (run p).run (new s) = .ok () b) :
    b.cursor.function.name = functionName := by
  obtain ⟨hp, -⟩ := finished_of_run hrun
  cases hcompile : (p.compile : Action Backend Unit).run (new s) with
  | error halt b₀ =>
    rw [run_of_compile_error hp hcompile] at hrun
    cases hrun
  | ok _ b₀ =>
    have hname : b₀.cursor.function.name = functionName := by
      have hstart : (FlowOps.start p : Action Backend Unit).run (new s) = .ok () (started s p) :=
        run_start s hp
      -- Starting over leaves the name as well, so it does not matter from which state on the rest
      -- is onward.
      have honward := kept_onward.compile p (new s)
      rw [hcompile, hstart] at honward
      exact honward.elim (·.name) (·.name)
    rw [run_of_compile_ok hp hcompile] at hrun
    split at hrun
    · cases hrun
    · cases hrun
      exact hname

/-- So the text of a compiled function takes nothing for granted that is not so. -/
theorem writable_of_run (hrun : (run p).run (new s) = .ok () b) : b.cursor.function.Writable := by
  obtain ⟨hp, hfinished⟩ := finished_of_run hrun
  have hname : OneLine b.cursor.function.name := by
    rw [name_of_run hrun]
    simp [OneLine, functionName]
  exact ⟨hname, hfinished.isLabel, hfinished.ends hp⟩

/-- The compiler lays its blocks out in the order in which it numbers values, and the shared block
is numbered last. -/
theorem Finished.assigned (hfinished : Finished s p b) :
    b.cursor.function.assigned = List.range b.cursor.function.nextValue := by
  rw [Function.assigned_eq, Function.assignments, List.range_eq_range']
  exact hfinished.numbered.map_assignmentsOf 0

/-- **The text of a compiled function numbers its values one after the other.** From the first block
to the last, as they are written, the values that are assigned are `0`, `1` and so on up to the
function's counter. -/
theorem numbered_text_of_run (hrun : (run p).run (new s) = .ok () b) :
    b.cursor.function.assigned = List.range b.cursor.function.nextValue ∧
      ∃ text, b.toModule.text? = some text ∧
        assignedIn text.toList = List.range b.cursor.function.nextValue := by
  obtain ⟨-, hfinished⟩ := finished_of_run hrun
  have hname : OneLine b.toModule.name := by simp [OneLine, toModule, moduleName]
  obtain ⟨text, htext, hreads⟩ := (writable_of_run hrun).exists_moduleText? hname rfl
  exact ⟨hfinished.assigned, text, htext, hreads.assignedIn_eq.trans hfinished.assigned⟩

/-- Ends in a branch, so the block that leaves is written before the last handler's own block is
ended. -/
def looping : Program :=
  [{ opcode := .pushVr32, data := 3, address := 0x14, dispatch := 0, width := 5 },
    { opcode := .vmExit, data := 0, address := 0x19, dispatch := 0, width := 4 },
    { opcode := .jnz, data := 0x14, address := 0x1d, dispatch := 0, width := 12 }]

/-- Here the shared block is begun in the middle of the last handler's block and stands behind
it. -/
theorem numbered_text_of_run_looping :
    ∃ b, (run looping).run (new {}) = .ok () b ∧
      b.cursor.function.assigned = List.range b.cursor.function.nextValue ∧
      ∃ text, b.toModule.text? = some text ∧
        assignedIn text.toList = List.range b.cursor.function.nextValue := by
  obtain ⟨b, hrun⟩ : ∃ b, (run looping).run (new {}) = .ok () b :=
    Action.exists_of_succeeds (by decide +kernel)
  exact ⟨b, hrun, numbered_text_of_run hrun⟩

end Backend

end Graph

end CodeRecovery
