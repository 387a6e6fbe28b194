/-
Which texts are addresses.

`Spells` is the grammar of addresses: an optional `0x` or `0X`, an optional plus sign, and at least
one digit. It gives a text its number by the places of the digits. The reader goes through the
digits once and has no places; by induction on the digits, what it has read so far counts for as
many places as there are digits left. Leading zeros add nothing to the sum, so there may be any
number of them, and the reader need not look at the bound of a word before it is done.

What counts as the text is `Text.Stripped`: blanks on both sides, and none at the ends of what is
between. There is exactly one such part in every text, and it is the one that the reader takes.
-/
import Mathlib.Data.List.Basic
import Mathlib.Data.List.TakeWhile
import Mathlib.Tactic.IntervalCases
import Mathlib.Tactic.Ring
import CodeRecovery.Address
import CodeRecovery.Text.Layout

set_option autoImplicit false

namespace CodeRecovery

/-! ## Blanks -/

namespace Text

variable {text t before after : List Char}

/-- The part of a text between the blanks at its ends. -/
structure Stripped (text t : List Char) : Prop where
  split : ∃ before after, text = before ++ t ++ after ∧ (∀ c ∈ before, isBlank c) ∧
    ∀ c ∈ after, isBlank c
  first : ∀ c ∈ t.head?, ¬ isBlank c
  last : ∀ c ∈ t.getLast?, ¬ isBlank c

/-- A text that starts with something else than a blank loses nothing at its front. The last
character is covered too, by reading the text backwards. -/
theorem dropWhile_of_head? (h : ∀ c ∈ t.head?, ¬ isBlank c) : t.dropWhile isBlank = t := by
  cases t with
  | nil => rfl
  | cons c rest => exact List.dropWhile_cons_of_neg (h c rfl)

/-- Once its leading blanks are gone, a text does not start with one. -/
theorem not_isBlank_head? (text : List Char) :
    ∀ c ∈ (text.dropWhile isBlank).head?, ¬ isBlank c := by
  intro c hc
  have hhead := List.head?_dropWhile_not isBlank text
  rw [Option.mem_def.1 hc] at hhead
  simp [hhead]

/-- There is no second part between blanks: the blanks around a part are all that trimming can take,
since the part itself has none at its ends. A part with nothing in it is a case of its own, because
then the blanks in front and behind are one. -/
theorem Stripped.eq_trim (h : Stripped text t) : t = trim text := by
  obtain ⟨⟨before, after, rfl, hbefore, hafter⟩, hfirst, hlast⟩ := h
  unfold trim
  rw [List.append_assoc, List.dropWhile_append_of_pos hbefore]
  by_cases hnil : t = []
  · subst hnil
    rw [List.nil_append, List.dropWhile_eq_nil_iff.2 hafter]
    rfl
  · have hfirst' : ∀ c ∈ (t ++ after).head?, ¬ isBlank c := by
      rwa [List.head?_append, Option.or_of_isSome (List.isSome_head?.2 hnil)]
    have hafter' : ∀ c ∈ after.reverse, isBlank c := by
      intro c hc
      exact hafter c (List.mem_reverse.1 hc)
    rw [dropWhile_of_head? hfirst', List.reverse_append, List.dropWhile_append_of_pos hafter',
      dropWhile_of_head? (by rwa [List.head?_reverse]), List.reverse_reverse]

/-- Trimming leaves such a part. What it drops at the front is blank by definition; what it drops at
the back is found by reading backwards. -/
theorem stripped_trim (text : List Char) : Stripped text (trim text) := by
  obtain ⟨rest, hrest⟩ : ∃ rest, rest = text.dropWhile isBlank := ⟨_, rfl⟩
  have hsplit : rest = trim text ++ (rest.reverse.takeWhile isBlank).reverse := by
    rw [trim, ← hrest, ← List.reverse_append, List.takeWhile_append_dropWhile, List.reverse_reverse]
  refine ⟨⟨text.takeWhile isBlank, (rest.reverse.takeWhile isBlank).reverse, ?_, ?_, ?_⟩, ?_, ?_⟩
  · rw [List.append_assoc, ← hsplit, hrest, List.takeWhile_append_dropWhile]
  · intro c hc
    exact List.mem_takeWhile_imp hc
  · intro c hc
    exact List.mem_takeWhile_imp (List.mem_reverse.1 hc)
  · intro c hc
    refine not_isBlank_head? text c ?_
    rw [← hrest, hsplit, List.head?_append, Option.mem_def.1 hc]
    rfl
  · intro c hc
    rw [trim, List.getLast?_reverse] at hc
    exact not_isBlank_head? _ c hc

/-- **Every text has exactly one part between blanks**, and trimming finds it. The grammar can
therefore be stated about that part, with no mention of how it is found. -/
theorem stripped_iff : Stripped text t ↔ t = trim text := by
  constructor
  · exact Stripped.eq_trim
  · rintro rfl
    exact stripped_trim text

/-- A text without blanks, put between blanks, is the part between them. -/
theorem stripped_of_not_isBlank (hbefore : ∀ c ∈ before, isBlank c)
    (hafter : ∀ c ∈ after, isBlank c) (ht : ∀ c ∈ t, ¬ isBlank c) :
    Stripped (before ++ t ++ after) t where
  split := ⟨before, after, rfl, hbefore, hafter⟩
  first c hc := ht c (List.mem_of_mem_head? hc)
  last c hc := ht c (List.mem_of_mem_getLast? hc)

end Text

namespace Address

variable {base value n : Nat} {c : Char} {text digits : List Char}

/-! ## Digits -/

/-- The numerals in the order of their values. -/
def numerals : List Char :=
  ['0', '1', '2', '3', '4', '5', '6', '7', '8', '9', 'a', 'b', 'c', 'd', 'e', 'f']

/-- The character stands for a value in a base, as a numeral in either case. The reader works with
ranges of characters; this is the table that those ranges come from. -/
def Digit (base : Nat) (c : Char) (value : Nat) : Prop :=
  value < base ∧ (numerals[value]? = some c ∨ (numerals.map Char.toUpper)[value]? = some c)

instance (base : Nat) (c : Char) (value : Nat) : Decidable (Digit base c value) :=
  inferInstanceAs (Decidable (_ ∧ _))

/-- Digits lie between `0` and `f`. It makes finitely many of the characters, so that the table and
the ranges can be compared by looking at each. -/
theorem toNat_of_digit? (h : digit? base c = some value) : 48 ≤ c.toNat ∧ c.toNat ≤ 102 := by
  unfold digit? at h
  rw [Option.filter_eq_some_iff] at h
  have hle : ∀ a b : Char, a ≤ b ↔ a.toNat ≤ b.toNat := fun a b => Iff.rfl
  simp only [hle, Char.reduceToNat] at h
  obtain ⟨hvalue, -⟩ := h
  split at hvalue
  · omega
  · split at hvalue
    · omega
    · split at hvalue
      · omega
      · cases hvalue

/-- A digit in a base up to sixteen is a hexadecimal digit that is small enough. The table has to be
compared with the ranges for one base only. -/
theorem digit?_eq_filter (hbase : base ≤ 16) : digit? base c = (digit? 16 c).filter (· < base) := by
  unfold digit?
  rw [Option.filter_filter]
  dsimp only
  congr 1
  funext value
  rw [← Bool.decide_and, decide_eq_decide]
  omega

/-- **The ranges of the reader are the table of numerals.** One direction goes through all
characters up to `f`, the other through all values below sixteen. -/
theorem digit?_eq_some_iff (hbase : base ≤ 16) :
    digit? base c = some value ↔ Digit base c value := by
  rw [digit?_eq_filter hbase, Option.filter_eq_some_iff, decide_eq_true_eq, and_comm]
  refine and_congr_right fun hlt => ?_
  have hvalue : value < 16 := Nat.lt_of_lt_of_le hlt hbase
  constructor
  · -- Only a few characters can be digits at all.
    intro hdigit
    have hrange : ∀ n ≤ 102, ∀ value ∈ digit? 16 (Char.ofNat n), Digit 16 (Char.ofNat n) value := by
      decide +kernel
    have hc := hrange c.toNat (toNat_of_digit? hdigit).2 value
    rw [Char.ofNat_toNat] at hc
    exact (hc hdigit).2
  · have hread : ∀ value < 16, numerals[value]?.map (digit? 16) = some (some value) ∧
        (numerals.map Char.toUpper)[value]?.map (digit? 16) = some (some value) := by
      decide +kernel
    obtain ⟨hlower, hupper⟩ := hread value hvalue
    rintro (hc | hc)
    · rw [hc] at hlower
      exact Option.some.inj hlower
    · rw [hc] at hupper
      exact Option.some.inj hupper

/-- The digits stand for a number: each for its value times the base to the number of places behind
it. Nothing here is read from left to right, unlike in the reader. -/
inductive Digits (base : Nat) : List Char → Nat → Prop
  | nil : Digits base [] 0
  | cons {c : Char} {value : Nat} {rest : List Char} {n : Nat} :
      Digit base c value → Digits base rest n →
      Digits base (c :: rest) (value * base ^ rest.length + n)

/-- Where digits stand for a number, each of them is a digit. -/
theorem Digits.digit (h : Digits base digits n) : ∀ c ∈ digits, ∃ value, Digit base c value := by
  induction h with
  | nil => simp
  | @cons c value _ _ hdigit _ ih =>
    rw [List.forall_mem_cons]
    exact ⟨⟨value, hdigit⟩, ih⟩

/-- **What was read before the digits counts for all their places.** This is the invariant of the
reader: it multiplies by the base at each digit, so the value before a row of digits is worth a
power of it. -/
theorem foldlM_digit? (hbase : base ≤ 16) (digits : List Char) (read total : Nat) :
    digits.foldlM (fun n c => (digit? base c).map (n * base + ·)) read = some total ↔
      ∃ n, Digits base digits n ∧ total = read * base ^ digits.length + n := by
  induction digits generalizing read with
  | nil =>
    constructor
    · intro hread
      exact ⟨0, .nil, by simpa using hread.symm⟩
    · rintro ⟨n, hdigits, rfl⟩
      cases hdigits
      simp
  | cons c rest ih =>
    have hplaces : ∀ value n, (read * base + value) * base ^ rest.length + n
        = read * base ^ (rest.length + 1) + (value * base ^ rest.length + n) := by
      intro value n
      ring
    rw [List.foldlM_cons, Option.bind_eq_bind, Option.bind_eq_some_iff, List.length_cons]
    constructor
    · rintro ⟨read', hfirst, hrest⟩
      rw [Option.map_eq_some_iff] at hfirst
      obtain ⟨value, hvalue, rfl⟩ := hfirst
      obtain ⟨n, hdigits, rfl⟩ := (ih _).1 hrest
      exact ⟨_, .cons ((digit?_eq_some_iff hbase).1 hvalue) hdigits, hplaces value n⟩
    · rintro ⟨n, hdigits, rfl⟩
      cases hdigits with
      | @cons _ value _ n hdigit hrest =>
        refine ⟨read * base + value, ?_, (ih _).2 ⟨n, hrest, (hplaces value n).symm⟩⟩
        rw [(digit?_eq_some_iff hbase).2 hdigit, Option.map_some]

/-- A magnitude is a row of digits with at least one in it. No digits at all would stand for zero,
and the reader refuses them. -/
theorem magnitude?_eq_some_iff (hbase : base ≤ 16) :
    magnitude? base digits = some n ↔ digits ≠ [] ∧ Digits base digits n := by
  cases digits with
  | nil => simp [magnitude?]
  | cons c rest =>
    rw [magnitude?, foldlM_digit? hbase]
    · simp
    · exact List.cons_ne_nil c rest

/-! ## The grammar -/

/-- A number without blanks: digits behind at most one plus sign. A minus sign is never part of
it. -/
def Unsigned (base : Nat) (text : List Char) (n : Nat) : Prop :=
  ∃ plus digits, text = plus ++ digits ∧ (plus = [] ∨ plus = ['+']) ∧ digits ≠ [] ∧
    Digits base digits n

/-- An address without blanks: a decimal number, or a hexadecimal one behind `0x` or `0X`. -/
inductive Spells : List Char → Nat → Prop
  | decimal {text : List Char} {n : Nat} : Unsigned 10 text n → Spells text n
  | hexadecimal {x : Char} {text : List Char} {n : Nat} : x = 'x' ∨ x = 'X' → Unsigned 16 text n →
      Spells ('0' :: x :: text) n

/-- A number becomes a word only if it fits. The bound is looked at once, on the number and not on
its digits, so leading zeros do no harm. -/
theorem map_ofNat_eq_some_iff {number : Option Nat} {a : Word} :
    (number.filter (· < UInt64.size)).map UInt64.ofNat = some a ↔ number = some a.toNat := by
  rw [Option.map_eq_some_iff]
  constructor
  · rintro ⟨n, hn, rfl⟩
    rw [Option.filter_eq_some_iff, decide_eq_true_eq] at hn
    rw [UInt64.toNat_ofNat_of_lt' hn.2, hn.1]
  · intro hnumber
    refine ⟨a.toNat, ?_, UInt64.ofNat_toNat⟩
    rw [Option.filter_eq_some_iff, decide_eq_true_eq]
    exact ⟨hnumber, a.toNat_lt_size⟩

/-- The plus sign is taken where there is one. It cannot be mistaken for a digit, so a text has one
reading at most. -/
theorem unsigned?_eq_some_iff (hbase : base ≤ 16) {a : Word} :
    unsigned? base text = some a ↔ Unsigned base text a.toNat := by
  unfold unsigned?
  dsimp only
  rw [map_ofNat_eq_some_iff, magnitude?_eq_some_iff hbase]
  split
  next rest =>
    constructor
    · rintro ⟨hne, hdigits⟩
      exact ⟨['+'], rest, rfl, .inr rfl, hne, hdigits⟩
    · rintro ⟨plus, digits, htext, rfl | rfl, hne, hdigits⟩
      · -- A plus sign is no digit.
        rw [List.nil_append] at htext
        obtain ⟨value, hdigit⟩ := hdigits.digit '+' (by simp [← htext])
        rw [← digit?_eq_some_iff hbase] at hdigit
        cases hdigit
      · obtain rfl : rest = digits := (List.cons.inj htext).2
        exact ⟨hne, hdigits⟩
  next hplus =>
    constructor
    · rintro ⟨hne, hdigits⟩
      exact ⟨[], text, rfl, .inl rfl, hne, hdigits⟩
    · rintro ⟨plus, digits, htext, rfl | rfl, hne, hdigits⟩
      · rw [List.nil_append] at htext
        rw [htext]
        exact ⟨hne, hdigits⟩
      · exact absurd htext (hplus digits)

/-- What stands behind a zero is a digit too. It is why a decimal number cannot look like the start
of a hexadecimal one. -/
theorem Unsigned.second (h : Unsigned base ('0' :: c :: text) n) : ∃ value, Digit base c value := by
  obtain ⟨plus, digits, htext, rfl | rfl, -, hdigits⟩ := h
  · rw [List.nil_append] at htext
    exact hdigits.digit c (by simp [← htext])
  · cases htext

/-- **The reader accepts the grammar.** The two marks are tried first, and what they would take from
a decimal number is nothing, since a letter is no decimal digit. -/
theorem ofTrimmed?_eq_some_iff {a : Word} : ofTrimmed? text = some a ↔ Spells text a.toNat := by
  constructor
  · intro hread
    unfold ofTrimmed? at hread
    split at hread
    · exact .hexadecimal (.inl rfl) ((unsigned?_eq_some_iff (Nat.le_refl 16)).1 hread)
    · exact .hexadecimal (.inr rfl) ((unsigned?_eq_some_iff (Nat.le_refl 16)).1 hread)
    · exact .decimal ((unsigned?_eq_some_iff (by decide)).1 hread)
  · intro hspells
    cases hspells with
    | hexadecimal hx hunsigned =>
      rw [← unsigned?_eq_some_iff (Nat.le_refl 16)] at hunsigned
      rcases hx with rfl | rfl
      · exact hunsigned
      · exact hunsigned
    | decimal hunsigned =>
      -- A letter behind the zero is no decimal digit.
      have hletter : ∀ x, digit? 10 x = none → ∀ rest, text ≠ '0' :: x :: rest := by
        rintro x hx rest rfl
        obtain ⟨value, hdigit⟩ := hunsigned.second
        rw [← digit?_eq_some_iff (by decide), hx] at hdigit
        cases hdigit
      unfold ofTrimmed?
      split
      · exact absurd rfl (hletter 'x' rfl _)
      · exact absurd rfl (hletter 'X' rfl _)
      · exact (unsigned?_eq_some_iff (by decide)).2 hunsigned

/-! ## Printed numbers -/

/-- Two rows of digits in a row: the first counts for the places of the second as well. -/
theorem Digits.append {digits' : List Char} {n' : Nat} (h : Digits base digits n)
    (h' : Digits base digits' n') :
    Digits base (digits ++ digits') (n * base ^ digits'.length + n') := by
  induction h with
  | nil => simpa using h'
  | @cons c value rest n hdigit _ ih =>
    have hcons := Digits.cons hdigit ih
    rw [List.length_append, Nat.pow_add] at hcons
    rw [List.cons_append, Nat.add_mul, Nat.mul_assoc, Nat.add_assoc]
    exact hcons

/-- Zeros stand for zero, however many there are. -/
theorem digits_zeros (hbase : 0 < base) (zeros : Nat) :
    Digits base (List.replicate zeros '0') 0 := by
  induction zeros with
  | zero => exact .nil
  | succ zeros ih =>
    have hcons := Digits.cons ⟨hbase, .inl rfl⟩ ih
    rwa [Nat.zero_mul] at hcons

/-- The digits that a number is printed with stand for it, in whatever case. The last digit is the
remainder, and what is in front of it is the quotient printed. -/
theorem digits_toDigits (inCase : Char → Char) (hbase : 1 < base)
    (hcase : ∀ value < base, Digit base (inCase value.digitChar) value) (n : Nat) :
    Digits base ((Nat.toDigits base n).map inCase) n := by
  induction n using Nat.strongRecOn with
  | _ n ih =>
    by_cases hlt : n < base
    · rw [Nat.toDigits_of_lt_base hlt]
      have hsingle := Digits.cons (hcase n hlt) .nil
      simpa using hsingle
    · have hdiv : n / base < n := Nat.div_lt_self (by omega) hbase
      have hlast := Digits.cons (hcase (n % base) (Nat.mod_lt n (by omega))) .nil
      have happend := (ih (n / base) hdiv).append hlast
      rw [Nat.toDigits_of_base_le hbase (by omega), List.map_append]
      simpa [Nat.div_add_mod'] using happend

/-- A digit is not a blank; the blanks lie outside of the range of the digits. -/
theorem Digit.not_isBlank (hbase : base ≤ 16) (h : Digit base c value) : ¬ Text.isBlank c := by
  have hrange := toNat_of_digit? ((digit?_eq_some_iff hbase).2 h)
  intro hblank
  simp only [Text.isBlank, Bool.or_eq_true, Bool.and_eq_true, decide_eq_true_eq,
    beq_iff_eq] at hblank
  omega

/-- A number has no blanks in it, so that the part between blanks is the whole of it. -/
theorem Unsigned.not_isBlank (hbase : base ≤ 16) (h : Unsigned base text n) :
    ∀ c ∈ text, ¬ Text.isBlank c := by
  obtain ⟨plus, digits, rfl, hplus, -, hdigits⟩ := h
  intro c hc
  rcases List.mem_append.1 hc with hc | hc
  · rcases hplus with rfl | rfl
    · cases hc
    · rw [List.mem_singleton.1 hc]
      decide
  · obtain ⟨value, hdigit⟩ := hdigits.digit c hc
    exact hdigit.not_isBlank hbase

/-- The mark in front of a hexadecimal number has no blanks either. -/
theorem Spells.not_isBlank (h : Spells text n) : ∀ c ∈ text, ¬ Text.isBlank c := by
  cases h with
  | decimal hunsigned => exact hunsigned.not_isBlank (by decide)
  | hexadecimal hx hunsigned =>
    rw [List.forall_mem_cons, List.forall_mem_cons]
    refine ⟨by decide, ?_, hunsigned.not_isBlank (Nat.le_refl 16)⟩
    rcases hx with rfl | rfl
    · decide
    · decide

/-! ## Addresses -/

section

variable {source : String} {t before after : List Char} {a : Word}

/-- What the reader accepts is settled by the part between blanks. -/
theorem parse_eq_ok_iff (ht : t = Text.trim source.toList) :
    parse source = .ok a ↔ Spells t a.toNat := by
  subst ht
  rw [← ofTrimmed?_eq_some_iff]
  unfold parse
  dsimp only
  split
  next b hread => simp [hread]
  next hread => simp [hread]

/-- A text is refused if that part is no address, or one too large for a word. The two are not told
apart, since the message quotes the part and says no more. -/
theorem parse_eq_error_iff (ht : t = Text.trim source.toList) {failure : Failure} :
    parse source = .error failure ↔
      (∀ n, Spells t n → 2 ^ 64 ≤ n) ∧
        failure = .invalidConfig s!"invalid address '{String.ofList t}'" := by
  have hnone : (∀ n, Spells t n → 2 ^ 64 ≤ n) ↔ ofTrimmed? t = none := by
    rw [Option.eq_none_iff_forall_ne_some]
    constructor
    · intro hlarge a hread
      exact Nat.not_lt_of_le (hlarge _ (ofTrimmed?_eq_some_iff.1 hread)) a.toNat_lt
    · intro hread n hspells
      refine Nat.le_of_not_lt fun hlt => hread (UInt64.ofNat n) (ofTrimmed?_eq_some_iff.2 ?_)
      rwa [UInt64.toNat_ofNat_of_lt' hlt]
  rw [hnone, ht]
  unfold parse invalid
  dsimp only
  split
  next b hread => simp [hread]
  next hread => simp [hread, eq_comm]

/-- An address with blanks around it is read. It need not be trimmed first: the address has no
blanks, so the part between blanks is the address. -/
theorem parse_of_spells (hbefore : ∀ c ∈ before, Text.isBlank c)
    (hafter : ∀ c ∈ after, Text.isBlank c) (hspells : Spells t a.toNat)
    (hsource : source.toList = before ++ t ++ after) : parse source = .ok a := by
  have hstripped := Text.stripped_of_not_isBlank hbefore hafter hspells.not_isBlank
  rw [← hsource] at hstripped
  exact (parse_eq_ok_iff hstripped.eq_trim).2 hspells

end

/-- A number printed with leading zeros is one. The zeros add nothing, whatever the number of places
they take. -/
theorem unsigned_printed (inCase : Char → Char) (hbase : 1 < base)
    (hcase : ∀ value < base, Digit base (inCase value.digitChar) value) (zeros n : Nat) :
    Unsigned base (List.replicate zeros '0' ++ (Nat.toDigits base n).map inCase) n := by
  have hdigits := (digits_zeros (by omega) zeros).append (digits_toDigits inCase hbase hcase n)
  rw [Nat.zero_mul, Nat.zero_add] at hdigits
  refine ⟨[], _, rfl, .inl rfl, ?_, hdigits⟩
  simp [Nat.toDigits_ne_nil]

/-- The two marks as characters. -/
theorem toList_mark {mark : String} (h : mark ∈ ["0x", "0X"]) :
    ∃ x, (x = 'x' ∨ x = 'X') ∧ mark.toList = ['0', x] := by
  rcases List.mem_pair.1 h with rfl | rfl
  · exact ⟨'x', .inl rfl, rfl⟩
  · exact ⟨'X', .inr rfl, rfl⟩

/-- Both printings of a hexadecimal number are one printing under a change of case. -/
theorem toList_hexadecimal {digits : String} (h : digits ∈ [Text.hexLower n, Text.hexUpper n]) :
    ∃ inCase : Char → Char, (∀ value < 16, Digit 16 (inCase value.digitChar) value) ∧
      digits.toList = (Nat.toDigits 16 n).map inCase := by
  rcases List.mem_pair.1 h with rfl | rfl
  · exact ⟨id, by decide, by simp [Text.hexLower]⟩
  · exact ⟨Char.toUpper, by decide, String.toList_ofList⟩

/-- **A text is an address exactly if what is between its blanks is in the grammar**, with a number
that fits into a word, and then it is that number; the failure of any other text quotes what is
between the blanks. So every word is read back from its decimal and its hexadecimal digits, with
zeros and blanks around them. -/
theorem parse_iff_spells :
    (∀ source : String, ∃ t, (∀ t', Text.Stripped source.toList t' ↔ t' = t) ∧
      (∀ a, parse source = .ok a ↔ Spells t a.toNat) ∧
      ∀ failure, parse source = .error failure ↔
        (∀ n, Spells t n → 2 ^ 64 ≤ n) ∧
          failure = .invalidConfig s!"invalid address '{String.ofList t}'") ∧
    ∀ (a : Word) (before after : String) (zeros : Nat),
      (∀ c ∈ before.toList, Text.isBlank c) → (∀ c ∈ after.toList, Text.isBlank c) →
      parse (before ++ (String.ofList (List.replicate zeros '0') ++ toString a.toNat) ++ after)
        = .ok a ∧
      ∀ mark ∈ ["0x", "0X"], ∀ digits ∈ [Text.hexLower a.toNat, Text.hexUpper a.toNat],
        parse (before ++ (mark ++ String.ofList (List.replicate zeros '0') ++ digits) ++ after)
          = .ok a := by
  constructor
  · intro source
    exact ⟨Text.trim source.toList, fun t' => Text.stripped_iff, fun a => parse_eq_ok_iff rfl,
      fun failure => parse_eq_error_iff rfl⟩
  · intro a before after zeros hbefore hafter
    constructor
    · refine parse_of_spells hbefore hafter
        (.decimal (unsigned_printed id (by decide) (by decide) zeros a.toNat)) ?_
      simp [Nat.repr]
    · intro mark hmark digits hdigits
      obtain ⟨x, hx, hmark⟩ := toList_mark hmark
      obtain ⟨inCase, hcase, hdigits⟩ := toList_hexadecimal hdigits
      refine parse_of_spells hbefore hafter
        (.hexadecimal hx (unsigned_printed inCase (by decide) hcase zeros a.toNat)) ?_
      simp [hmark, hdigits]

/-- The greatest word, in upper-case digits behind more zeros than a word has digits. -/
theorem parse_iff_spells_padded :
    (∀ c ∈ "\u2003\t".toList, Text.isBlank c) ∧ (∀ c ∈ "\u00a0".toList, Text.isBlank c) ∧
      parse "\u2003\t0X00000000000000000000FFFFFFFFFFFFFFFF\u00a0" = .ok 0xFFFFFFFFFFFFFFFF ∧
      parse "\u2003\t0000000000000000000018446744073709551615\u00a0" = .ok 0xFFFFFFFFFFFFFFFF := by
  have hbefore : ∀ c ∈ "\u2003\t".toList, Text.isBlank c := List.all_eq_true.1 (by decide)
  have hafter : ∀ c ∈ "\u00a0".toList, Text.isBlank c := List.all_eq_true.1 (by decide)
  obtain ⟨hdecimal, hhexadecimal⟩ :=
    parse_iff_spells.2 0xFFFFFFFFFFFFFFFF "\u2003\t" "\u00a0" 20 hbefore hafter
  have hsource : "\u2003\t" ++ ("0X" ++ String.ofList (List.replicate 20 '0') ++
      Text.hexUpper 0xFFFFFFFFFFFFFFFF) ++ "\u00a0"
        = "\u2003\t0X00000000000000000000FFFFFFFFFFFFFFFF\u00a0" := by decide +kernel
  refine ⟨hbefore, hafter, ?_, hdecimal⟩
  rw [← hsource]
  exact hhexadecimal "0X" (by decide) _ (List.mem_cons_of_mem _ List.mem_cons_self)

end Address

end CodeRecovery
