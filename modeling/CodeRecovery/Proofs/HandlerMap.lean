/-
Which maps do not depend on the order of their entries.

The entries of a document are a set: nothing says in which order they are taken. Each key stands in
it once, but a key is a text and the map goes by the number that the text spells, so several entries
may be about one address, and of those the last one that is taken counts (`getElem?_ofList`).
Whether an entry can be read does not depend on the others. So the order never decides whether there
is a map, and it decides what is in the map exactly if two entries spell one address and name
different instructions.
-/
import Mathlib.Data.List.Basic
import Mathlib.Data.List.Induction
import CodeRecovery.HandlerMap

set_option autoImplicit false

namespace CodeRecovery

/-- An instruction is found by its name and by no other: names are compared letter by letter, and
upper and lower case count as different. -/
theorem Opcode.ofName?_eq_some_iff {name : String} {o : Opcode} :
    ofName? name = some o ↔ name = o.name := by
  constructor
  · intro hfound
    have hname := List.find?_some hfound
    exact (beq_iff_eq.1 hname).symm
  · rintro rfl
    cases o <;> rfl

namespace HandlerMap

variable {entries order : List (String × String)} {entry : String × String} {m m' : HandlerMap}
  {a : Word} {o : Opcode}

/-! ## The map of a list -/

/-- **The map holds what the last pair of an address says.** Inserting goes over what was there, so
the list is looked up from its end. -/
theorem getElem?_ofList (named : List (Word × Opcode)) (a : Word) :
    (ofList named).opcodes[a]? = named.reverse.lookup a := by
  -- The pairs are taken from the left, so the last one is inserted over all others.
  induction named using List.reverseRecOn with
  | nil => exact Std.TreeMap.getElem?_emptyc
  | append_singleton named last ih =>
    obtain ⟨b, o⟩ := last
    have hlast : ofList (named ++ [(b, o)]) = (ofList named).insert b o := by
      rw [ofList, List.foldl_concat]
      rfl
    rw [hlast, List.reverse_concat, List.lookup_cons, ← ih, insert, Std.TreeMap.getElem?_insert]
    by_cases hb : b = a
    · simp [hb]
    · have hne : (a == b) = false := beq_eq_false_iff_ne.2 (Ne.symm hb)
      simp [hb, hne]

/-- Two maps list the same pairs if they answer every address alike. How the trees are balanced
inside, which does depend on the order of insertion, is thereby left out. -/
theorem toList_eq_iff : m.toList = m'.toList ↔ ∀ a : Word, m.opcodes[a]? = m'.opcodes[a]? := by
  constructor
  · intro hlist a
    exact (Std.TreeMap.equiv_iff_toList_eq.2 hlist).getElem?_eq
  · intro hsame
    exact (Std.TreeMap.Equiv.of_forall_constGet?_eq hsame).toList_eq

/-- An address without an entry is unknown, so an instruction that is known comes from an entry. -/
theorem lookup_eq_iff (ho : o ≠ .unknown) : m.lookup a = o ↔ m.opcodes[a]? = some o := by
  rw [lookup, Std.TreeMap.getD_eq_getD_getElem?]
  cases m.opcodes[a]? with
  | none => simp [ho.symm]
  | some o' => simp

/-! ## Entries -/

/-- The entry says that the handler at an address implements an instruction. Several texts spell one
address, but an instruction has one name. -/
def Names (entry : String × String) (a : Word) (o : Opcode) : Prop :=
  Address.parse entry.1 = .ok a ∧ entry.2 = o.name

/-- Every entry says something. -/
def Readable (entries : List (String × String)) : Prop :=
  ∀ entry ∈ entries, ∃ a o, Names entry a o

/-- Entries that spell one address name one instruction. Entries with the same text are covered, and
so are entries with different texts for one number. -/
def Coherent (entries : List (String × String)) : Prop :=
  ∀ entry ∈ entries, ∀ entry' ∈ entries, ∀ a, Address.parse entry.1 = .ok a →
    Address.parse entry'.1 = .ok a → entry.2 = entry'.2

/-- An entry is read if its key spells an address and its value is a name. -/
theorem readEntry_eq_ok_iff : readEntry entry = .ok (a, o) ↔ Names entry a o := by
  unfold readEntry Names
  cases Address.parse entry.1 with
  | error failure => simp [bind, Except.bind]
  | ok b =>
    rw [← Opcode.ofName?_eq_some_iff]
    cases Opcode.ofName? entry.2 with
    | none => simp [bind, Except.bind, throw, throwThe, MonadExceptOf.throw]
    | some o' => simp [bind, Except.bind, pure, Except.pure]

/-- What the entries say that can be read, in the order of the entries. -/
def said (entries : List (String × String)) : List (Word × Opcode) :=
  entries.filterMap fun entry => (readEntry entry).toOption

/-- Something is said if an entry says it. -/
theorem mem_said : (a, o) ∈ said entries ↔ ∃ entry ∈ entries, Names entry a o := by
  rw [said, List.mem_filterMap]
  refine exists_congr fun entry => and_congr_right fun _ => ?_
  rw [← readEntry_eq_ok_iff]
  cases readEntry entry with
  | error failure => simp [Except.toOption]
  | ok named => simp [Except.toOption]

/-- The first entry is said first. -/
theorem said_cons {rest : List (String × String)} (h : Names entry a o) :
    said (entry :: rest) = (a, o) :: said rest := by
  rw [said, List.filterMap_cons, readEntry_eq_ok_iff.2 h]
  rfl

/-- The last entry is said last, which is what makes it count. -/
theorem said_concat (h : Names entry a o) : said (order ++ [entry]) = said order ++ [(a, o)] := by
  rw [said, List.filterMap_append, ← said, ← said, said_cons h]
  rfl

/-- If every entry can be read, the map is the one of what they say. -/
theorem ofEntries_of_readable (h : Readable entries) :
    ofEntries entries = .ok (ofList (said entries)) := by
  have hread : entries.mapM readEntry = .ok (said entries) := by
    induction entries with
    | nil => rfl
    | cons entry rest ih =>
      obtain ⟨⟨a, o, hentry⟩, hrest⟩ := List.forall_mem_cons.1 h
      rw [List.mapM_cons, readEntry_eq_ok_iff.2 hentry, ih hrest, said_cons hentry]
      rfl
  rw [ofEntries, hread]
  rfl

/-- One entry that cannot be read is enough for there to be no map. Which failure it is depends on
the order, since reading stops at the first. -/
theorem ofEntries_of_not_readable (h : ¬ Readable entries) :
    ∃ failure, ofEntries entries = .error failure := by
  have hread : ∃ failure, entries.mapM readEntry = .error failure := by
    induction entries with
    | nil => exact absurd (List.forall_mem_nil _) h
    | cons entry rest ih =>
      rw [List.mapM_cons]
      cases hentry : readEntry entry with
      | error failure => exact ⟨failure, rfl⟩
      | ok named =>
        obtain ⟨failure, hrest⟩ := ih fun hrest =>
          h (List.forall_mem_cons.2 ⟨⟨_, _, readEntry_eq_ok_iff.1 hentry⟩, hrest⟩)
        rw [hrest]
        exact ⟨failure, rfl⟩
  obtain ⟨failure, hread⟩ := hread
  rw [ofEntries, hread]
  exact ⟨failure, rfl⟩

/-- Whether all entries can be read does not depend on their order. -/
theorem Readable.perm (hperm : order.Perm entries) : Readable order ↔ Readable entries :=
  forall_congr' fun _ => imp_congr_left hperm.mem_iff

/-! ## The order of the entries

A document is read in the order of its lines. Here the entries may come in any order, which is all
that is known of a set. -/

/-- Entries that agree about an address name the same instruction and not only the same text. -/
theorem Coherent.eq (h : Coherent entries) {entry entry' : String × String} {a : Word}
    {o o' : Opcode} (hmem : entry ∈ entries) (hmem' : entry' ∈ entries) (hnames : Names entry a o)
    (hnames' : Names entry' a o') : o = o' := by
  have hname := h entry hmem entry' hmem' a hnames.1 hnames'.1
  rw [hnames'.2] at hname
  exact Option.some.inj
    ((Opcode.ofName?_eq_some_iff.2 hnames.2).symm.trans (Opcode.ofName?_eq_some_iff.2 hname))

/-- If the entries agree about every address, the map of any order of them holds all that they say.
The last entry of an address is some entry, and all the others say the same. -/
theorem Coherent.getElem?_ofList (h : Coherent entries) (hperm : order.Perm entries) (a : Word)
    (o : Opcode) :
    (ofList (said order)).opcodes[a]? = some o ↔ ∃ entry ∈ entries, Names entry a o := by
  have hsaid : ∀ o, (a, o) ∈ (said order).reverse ↔ ∃ entry ∈ entries, Names entry a o := by
    intro o
    rw [List.mem_reverse, mem_said]
    exact exists_congr fun _ => and_congr_left' hperm.mem_iff
  have hfound : ∀ o, (said order).reverse.lookup a = some o → (a, o) ∈ (said order).reverse := by
    intro o hlookup
    obtain ⟨later, earlier, hsplit, -⟩ := List.lookup_eq_some_iff.1 hlookup
    simp [hsplit]
  rw [HandlerMap.getElem?_ofList, ← hsaid]
  refine ⟨hfound o, fun hmem => ?_⟩
  cases hlookup : (said order).reverse.lookup a with
  | none =>
    have hother := List.lookup_eq_none_iff.1 hlookup (a, o) hmem
    simp at hother
  | some o' =>
    obtain ⟨entry, hentry, hnames⟩ := (hsaid o).1 hmem
    obtain ⟨entry', hentry', hnames'⟩ := (hsaid o').1 (hfound o' hlookup)
    rw [h.eq hentry hentry' hnames hnames']

/-- The map says of every address what the entries say. Addresses that are not known are left out,
since the map answers them as unknown. -/
def Reflects (m : HandlerMap) (entries : List (String × String)) : Prop :=
  ∀ a o, o ≠ .unknown → (m.lookup a = o ↔ ∃ entry ∈ entries, Names entry a o)

/-- In whatever two orders the entries are taken, there is no map, or there is one and the same map,
and it says what the entries say. The failures may differ; that there is one does not. -/
def OrderFree (entries : List (String × String)) : Prop :=
  ∀ order order', order.Perm entries → order'.Perm entries →
    (∃ failure failure', ofEntries order = .error failure ∧ ofEntries order' = .error failure') ∨
    ∃ m m', ofEntries order = .ok m ∧ ofEntries order' = .ok m' ∧ m.toList = m'.toList ∧
      m.Reflects entries

/-- Where an entry cannot be read, there is no map in any order. -/
theorem orderFree_of_not_readable (h : ¬ Readable entries) : OrderFree entries := by
  intro order order' hperm hperm'
  obtain ⟨failure, hfailure⟩ := ofEntries_of_not_readable (mt (Readable.perm hperm).1 h)
  obtain ⟨failure', hfailure'⟩ := ofEntries_of_not_readable (mt (Readable.perm hperm').1 h)
  exact .inl ⟨failure, failure', hfailure, hfailure'⟩

/-- Entries that agree give one map: in both orders it holds what the entries say, and that does not
mention an order. -/
theorem orderFree_of_coherent (hread : Readable entries) (h : Coherent entries) :
    OrderFree entries := by
  intro order order' hperm hperm'
  refine .inr ⟨_, _, ofEntries_of_readable ((Readable.perm hperm).2 hread),
    ofEntries_of_readable ((Readable.perm hperm').2 hread), ?_, ?_⟩
  · refine toList_eq_iff.2 fun a => Option.ext fun o => ?_
    rw [h.getElem?_ofList hperm, h.getElem?_ofList hperm']
  · intro a o ho
    rw [lookup_eq_iff ho, h.getElem?_ofList hperm]

/-- Every entry is the last one in some order, and the map of that order holds what it says. This is
what a disagreement is played off against. -/
theorem exists_order (hread : Readable entries) (hmem : entry ∈ entries)
    (hnames : Names entry a o) :
    ∃ order m, order.Perm entries ∧ ofEntries order = .ok m ∧ m.opcodes[a]? = some o := by
  have hperm : (entries.erase entry ++ [entry]).Perm entries :=
    (List.perm_append_singleton entry _).trans (List.perm_cons_erase hmem).symm
  refine ⟨_, _, hperm, ofEntries_of_readable ((Readable.perm hperm).2 hread), ?_⟩
  rw [getElem?_ofList, said_concat hnames, List.reverse_concat, List.lookup_cons_self]

/-- Two entries about one address are each the last in some order, so if the orders give one map the
two entries say the same. -/
theorem coherent_of_orderFree (hread : Readable entries) (h : OrderFree entries) :
    Coherent entries := by
  intro entry hentry entry' hentry' a hspells hspells'
  obtain ⟨b, o, hnames⟩ := hread entry hentry
  obtain ⟨b', o', hnames'⟩ := hread entry' hentry'
  cases hspells.symm.trans hnames.1
  cases hspells'.symm.trans hnames'.1
  -- Each of the two entries is the last one in some order, and the maps of these orders are the
  -- same.
  obtain ⟨order, m, hperm, hmap, hlast⟩ := exists_order hread hentry hnames
  obtain ⟨order', m', hperm', hmap', hlast'⟩ := exists_order hread hentry' hnames'
  rcases h order order' hperm hperm' with ⟨failure, -, hfailure, -⟩ | ⟨n, n', hn, hn', hsame, -⟩
  · cases hmap.symm.trans hfailure
  · cases hmap.symm.trans hn
    cases hmap'.symm.trans hn'
    have hopcode := toList_eq_iff.1 hsame a
    rw [hlast, hlast'] at hopcode
    rw [hnames.2, hnames'.2, Option.some.inj hopcode]

/-- **The order of the entries does not matter exactly if they agree about every address**, or one
of them cannot be read. -/
theorem orderFree_iff (entries : List (String × String)) :
    OrderFree entries ↔ (Readable entries → Coherent entries) := by
  constructor
  · intro h hread
    exact coherent_of_orderFree hread h
  · intro h
    by_cases hread : Readable entries
    · exact orderFree_of_coherent hread (h hread)
    · exact orderFree_of_not_readable hread

/-- Two entries that spell one address in two ways and name two instructions. -/
def twoSpellings : List (String × String) :=
  [("0x10", "PUSH_64"), ("16", "JNZ")]

/-- Entries with distinct keys, all of which can be read, but for which the map is one or the other.
That the keys differ as texts is no help, since the map goes by the number. -/
theorem not_orderFree_of_two_spellings :
    (twoSpellings.map (·.1)).Nodup ∧ Readable twoSpellings ∧ ¬ OrderFree twoSpellings := by
  have hread : Readable twoSpellings := by
    rw [Readable, twoSpellings, List.forall_mem_cons, List.forall_mem_singleton]
    exact ⟨⟨16, .push64, rfl, rfl⟩, ⟨16, .jnz, rfl, rfl⟩⟩
  refine ⟨by decide, hread, fun h => ?_⟩
  have hsame := coherent_of_orderFree hread h ("0x10", "PUSH_64") (by decide) ("16", "JNZ")
    (by decide) 16 rfl rfl
  exact absurd hsame (by decide)

/-- They are the entries of a document, where both keys may stand since keys are compared as
texts. -/
theorem tomlEntries?_twoSpellings :
    (Toml.parse? "[handlers]\n\"0x10\" = \"PUSH_64\"\n\"16\" = \"JNZ\"\n").bind tomlEntries?
      = some twoSpellings := by
  decide +kernel

end HandlerMap

end CodeRecovery
