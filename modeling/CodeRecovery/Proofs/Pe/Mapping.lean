/-
Which reads of an image give what is mapped.

An image is mapped by parts: its sections, and the headers with whatever else is taken from the file
as it is. What is known of the translation of relative addresses is that it goes by the parts
(`Image.MappedBy`): it gives the place of an address in its part, and nothing for an address in no
part. In one part, addresses and places in the file go up together; from one part to the next they
need not.

A read finds the place of its first byte and takes what the file has from there on. So it gives what
is mapped as long as it stays in the part it starts in. Behind that it gives the next bytes of the
file, which are right only if the part that the address is in happens to hold the same bytes. It
also looks at 32 bits of the relative address only, so it finds bytes at addresses where nothing can
be mapped.
-/
import Mathlib.Algebra.Ring.Nat
import Mathlib.Data.List.Basic
import Mathlib.Data.List.Pairwise
import CodeRecovery.Pe.Image

set_option autoImplicit false

namespace CodeRecovery.Pe

/-! ## The bytes of a file

A file is an array and a read of it is a list; behind these lemmas only lists are left. -/

/-- The list of a byte array is made from an index on, in front of what was collected before. -/
theorem toList_loop (b : ByteArray) (k : Nat) (r : List UInt8) :
    ByteArray.toList.loop b k r = r.reverse ++ b.data.toList.drop k := by
  fun_induction ByteArray.toList.loop b k r with
  | case1 k r hlt ih =>
    have hdrop : b.data.toList.drop k = b.get! k :: b.data.toList.drop (k + 1) := by
      rw [List.drop_eq_getElem_cons (by simpa using hlt)]
      simp [ByteArray.get!, hlt]
    rw [ih, hdrop]
    simp
  | case2 k r hge =>
    rw [List.drop_eq_nil_of_le (by simpa using hge), List.append_nil]

/-- Bytes taken from the middle of a file. The end may lie behind the end of the file, where nothing
more is taken. -/
theorem toList_extract (b : ByteArray) (offset count : Nat) :
    (b.extract offset (offset + count)).toList = (b.data.toList.drop offset).take count := by
  have hlist : ∀ b : ByteArray, b.toList = b.data.toList := fun b => toList_loop b 0 []
  rw [hlist, ByteArray.data_extract, Array.toList_extract, List.extract_eq_take_drop,
    Nat.add_sub_cancel_left]

/-! ## Parts -/

/-- A section of the image or its headers, and where the file holds them. Its length is what is
mapped, which may be less than what the file holds for it. -/
structure Part where
  address : Nat
  length : Nat
  offset : Nat
deriving DecidableEq, Repr

namespace Part

variable {part : Part} {rva : Nat}

/-- A relative address lies in the part. -/
def Holds (part : Part) (rva : Nat) : Prop :=
  part.address ≤ rva ∧ rva < part.address + part.length

instance (part : Part) : DecidablePred part.Holds :=
  fun _ => inferInstanceAs (Decidable (_ ∧ _))

/-- Where the file holds the byte at a relative address of the part. Outside of the part it has no
meaning. -/
def place (part : Part) (rva : Nat) : Nat :=
  part.offset + (rva - part.address)

/-- **In one part, addresses and places go up together.** This is all that a read can rely on when
it translates its first byte only. -/
theorem place_add (hholds : part.Holds rva) (k : Nat) :
    part.place (rva + k) = part.place rva + k := by
  rw [place, place, Nat.sub_add_comm hholds.1, Nat.add_assoc]

/-- No relative address lies in both parts, so that it does not matter which of them is looked at
first. -/
def Apart (part other : Part) : Prop :=
  ∀ rva, ¬ (part.Holds rva ∧ other.Holds rva)

instance : Std.Symm Apart where
  symm _ _ hapart rva hboth := hapart rva hboth.symm

/-- Translates relative addresses by parts; the first part that an address lies in counts. -/
def translate? (parts : List Part) (rva : UInt32) : Option Nat :=
  (parts.find? (·.Holds rva.toNat)).map (·.place rva.toNat)

end Part

namespace Image

/-- **What is assumed of a translation.** The parts lie within the relative addresses, which have 32
bits. A relative address is translated to its place in a part that it lies in, and an address in no
part is not translated. Parts may overlap if they agree on where the file holds what they share. -/
structure MappedBy (i : Image) (parts : List Part) : Prop where
  fits : ∀ part ∈ parts, part.address + part.length ≤ 2 ^ 32
  translate?_iff : ∀ rva offset, i.translate? rva = some offset ↔
    ∃ part ∈ parts, part.Holds rva.toNat ∧ part.place rva.toNat = offset

/-- An image that is translated by parts which do not overlap is mapped by them, since no more than
one part can be the first that an address lies in. -/
theorem mappedBy_of_apart (file : ByteArray) (base : Word) {parts : List Part}
    (hfits : ∀ part ∈ parts, part.address + part.length ≤ 2 ^ 32)
    (hapart : parts.Pairwise Part.Apart) :
    MappedBy ⟨file, base, Part.translate? parts⟩ parts where
  fits := hfits
  translate?_iff rva offset := by
    constructor
    · intro htranslate
      obtain ⟨part, hfound, hplace⟩ := Option.map_eq_some_iff.1 htranslate
      exact ⟨part, List.mem_of_find?_eq_some hfound, by simpa using List.find?_some hfound, hplace⟩
    · rintro ⟨part, hmem, hholds, rfl⟩
      cases hfound : parts.find? (·.Holds rva.toNat) with
      | none =>
        rw [List.find?_eq_none] at hfound
        exact absurd hholds (by simpa using hfound part hmem)
      | some other =>
        have hother : other.Holds rva.toNat := by simpa using List.find?_some hfound
        have hmem' : other ∈ parts := List.mem_of_find?_eq_some hfound
        have hsame : other = part := by
          by_contra hne
          exact hapart.forall hmem' hmem hne rva.toNat ⟨hother, hholds⟩
        show Option.map _ _ = _
        rw [hfound, hsame, Option.map_some]

variable {i : Image} {parts : List Part} {part : Part} {a : Word} {rva offset n k : Nat}

/-- A part's relative addresses have 32 bits, so they are translated as they are, with no bits lost
on the way. -/
theorem MappedBy.translate?_ofNat (hmapped : i.MappedBy parts) (hmem : part ∈ parts)
    (hholds : part.Holds rva) :
    rva < 2 ^ 32 ∧ i.translate? (.ofNat rva) = some (part.place rva) := by
  have hlt : rva < 2 ^ 32 := Nat.lt_of_lt_of_le hholds.2 (hmapped.fits part hmem)
  have hnat : (UInt32.ofNat rva).toNat = rva := UInt32.toNat_ofNat_of_lt' hlt
  refine ⟨hlt, (hmapped.translate?_iff _ _).2 ⟨part, hmem, ?_, ?_⟩⟩
  · rwa [hnat]
  · rw [hnat]

/-! ## Reads -/

/-- **The bytes of a read are those of the file from one place on.** Only the first address is
translated. Where the file ends before the read does, there are fewer bytes. -/
theorem getElem?_read (hbase : i.base ≤ a)
    (hoffset : i.translate? (a - i.base).toUInt32 = some offset) (n k : Nat) :
    (i.read a n)[k]? = if k < n then i.file.data[offset + k]? else none := by
  rw [read, if_neg (UInt64.not_lt.2 hbase), hoffset]
  dsimp only
  rw [toList_extract, List.getElem?_take, List.getElem?_drop, Array.getElem?_toList]

/-- A read that gives anything starts at a place in the file. Addresses below the base and addresses
that are not translated give nothing. -/
theorem exists_offset (h : i.read a n ≠ []) :
    i.base ≤ a ∧ ∃ offset, i.translate? (a - i.base).toUInt32 = some offset := by
  unfold read at h
  split at h
  · exact absurd rfl h
  next hbase =>
    split at h
    · exact absurd rfl h
    next offset hoffset => exact ⟨UInt64.not_lt.1 hbase, offset, hoffset⟩

/-- A byte of a read is that of the file behind the place of the first one. -/
theorem getElem?_read_of_lt (hbase : i.base ≤ a)
    (hoffset : i.translate? (a - i.base).toUInt32 = some offset) (hk : k < (i.read a n).length) :
    (i.read a n)[k]? = i.file.data[offset + k]? := by
  have hbyte := getElem?_read hbase hoffset n k
  rw [List.getElem?_eq_getElem hk, eq_comm, Option.ite_none_right_eq_some] at hbyte
  rw [List.getElem?_eq_getElem hk, hbyte.2]

/-- How far an address is above the base. -/
def above (i : Image) (a : Word) : Nat :=
  a.toNat - i.base.toNat

/-- No bits of a relative address are lost below `2 ^ 32`. -/
theorem rva_eq (hbase : i.base ≤ a) (h : i.above a < 2 ^ 32) :
    (a - i.base).toUInt32 = .ofNat (i.above a) := by
  apply UInt32.toNat.inj
  rw [UInt64.toNat_toUInt32, UInt64.toNat_sub_of_le _ _ hbase, UInt32.toNat_ofNat_of_lt' h]
  exact Nat.mod_eq_of_lt h

/-- Going up from an address goes up from the base. -/
theorem above_add (hbase : i.base ≤ a) (k : Nat) :
    i.above a + k = a.toNat + k - i.base.toNat :=
  (Nat.sub_add_comm (UInt64.le_iff_toNat_le.1 hbase)).symm

/-- **The read gives, from its first byte to its last, what the image maps at their addresses**;
alone, each of these bytes is read as the same; and where the relative address needs more than 32
bits, there is nothing. -/
structure Faithful (i : Image) (a : Word) (n : Nat) : Prop where
  bytes : ∀ k byte, (i.read a n)[k]? = some byte →
    i.base.toNat ≤ a.toNat + k ∧ a.toNat + k - i.base.toNat < 2 ^ 32 ∧
      ∃ offset, i.translate? (.ofNat (a.toNat + k - i.base.toNat)) = some offset ∧
        i.file.data[offset]? = some byte
  alone : ∀ k < (i.read a n).length, a.toNat + k < 2 ^ 64 →
    (i.read (a + .ofNat k) 1)[0]? = (i.read a n)[k]?
  far : i.base.toNat + 2 ^ 32 ≤ a.toNat → i.read a n = []

/-- A read that gives nothing gives nothing wrong. -/
theorem faithful_of_nil (h : i.read a n = []) : i.Faithful a n where
  bytes := by simp [h]
  alone := by simp [h]
  far _ := h

/-- A read is faithful if each of its bytes stands in the file at the place of its own address, in
whichever part that is. The byte is then read alone as the same, because its relative address has 32
bits as well. -/
theorem faithful_of_parts (hmapped : i.MappedBy parts) (hbase : i.base ≤ a)
    (hrva : i.above a < 2 ^ 32)
    (h : ∀ k < (i.read a n).length, ∃ part ∈ parts, part.Holds (i.above a + k) ∧
      i.file.data[part.place (i.above a + k)]? = (i.read a n)[k]?) :
    i.Faithful a n := by
  have hle : i.base.toNat ≤ a.toNat := UInt64.le_iff_toNat_le.1 hbase
  refine ⟨?_, ?_, ?_⟩
  · intro k byte hbyte
    obtain ⟨part, hmem, hholds, hdata⟩ := h k (List.getElem?_eq_some_iff.1 hbyte).1
    obtain ⟨hlt, htranslate⟩ := hmapped.translate?_ofNat hmem hholds
    rw [above_add hbase] at hlt htranslate hdata
    exact ⟨Nat.le_trans hle (Nat.le_add_right _ _), hlt, _, htranslate, hdata.trans hbyte⟩
  · intro k hk haddress
    obtain ⟨part, hmem, hholds, hdata⟩ := h k hk
    obtain ⟨hlt, htranslate⟩ := hmapped.translate?_ofNat hmem hholds
    have hnat : (a + .ofNat k).toNat = a.toNat + k := by
      have hk' : k < 2 ^ 64 := Nat.lt_of_le_of_lt (Nat.le_add_left _ _) haddress
      rw [UInt64.toNat_add, UInt64.toNat_ofNat_of_lt' hk', Nat.mod_eq_of_lt haddress]
    have hbase' : i.base ≤ a + .ofNat k := by
      rw [UInt64.le_iff_toNat_le, hnat]
      omega
    have habove : i.above (a + .ofNat k) = i.above a + k := by
      rw [above, hnat, above_add hbase]
    rw [← habove] at hlt htranslate hdata
    rw [← rva_eq hbase' hlt] at htranslate
    rw [getElem?_read hbase' htranslate, if_pos Nat.one_pos]
    exact hdata
  · intro hfar
    unfold above at hrva
    omega

/-- **A read is faithful exactly if** it gives nothing, or its relative address has 32 bits and each
byte that it takes from beyond the part it starts in has an address in another part, which holds at
its own place in the file the byte that follows on from the first part. -/
theorem faithful_iff (hmapped : i.MappedBy parts) (a : Word) (n : Nat) :
    i.Faithful a n ↔
      i.read a n = [] ∨
      i.above a < 2 ^ 32 ∧ ∀ k < (i.read a n).length, ∀ part ∈ parts,
        part.Holds (i.above a) → ¬ part.Holds (i.above a + k) →
          ∃ next ∈ parts, next.Holds (i.above a + k) ∧
            i.file.data[next.place (i.above a + k)]?
              = i.file.data[part.place (i.above a) + k]? := by
  constructor
  · intro h
    refine or_iff_not_imp_left.2 fun hne => ?_
    have hbase := (exists_offset hne).1
    have hbytes : ∀ k < (i.read a n).length, i.above a + k < 2 ^ 32 ∧
        ∃ next ∈ parts, next.Holds (i.above a + k) ∧
          i.file.data[next.place (i.above a + k)]? = (i.read a n)[k]? := by
      intro k hk
      obtain ⟨-, hlt, offset, hoffset, hdata⟩ := h.bytes k _ (List.getElem?_eq_getElem hk)
      rw [← above_add hbase] at hlt hoffset
      obtain ⟨next, hmem, hholds, hplace⟩ := (hmapped.translate?_iff _ _).1 hoffset
      rw [UInt32.toNat_ofNat_of_lt' hlt] at hholds hplace
      exact ⟨hlt, next, hmem, hholds, by rw [hplace, hdata, List.getElem?_eq_getElem hk]⟩
    -- The first byte is at the address itself.
    have hrva : i.above a < 2 ^ 32 := (hbytes 0 (List.length_pos_of_ne_nil hne)).1
    refine ⟨hrva, fun k hk part hmem hholds _ => ?_⟩
    obtain ⟨next, hmem', hholds', hdata⟩ := (hbytes k hk).2
    have htranslate := (hmapped.translate?_ofNat hmem hholds).2
    rw [← rva_eq hbase hrva] at htranslate
    exact ⟨next, hmem', hholds', by rw [hdata, getElem?_read_of_lt hbase htranslate hk]⟩
  · intro h
    by_cases hnil : i.read a n = []
    · exact faithful_of_nil hnil
    · obtain ⟨hrva, hbeyond⟩ := h.resolve_left hnil
      obtain ⟨hbase, offset, hoffset⟩ := exists_offset hnil
      refine faithful_of_parts hmapped hbase hrva fun k hk => ?_
      rw [getElem?_read_of_lt hbase hoffset hk]
      rw [rva_eq hbase hrva, hmapped.translate?_iff, UInt32.toNat_ofNat_of_lt' hrva] at hoffset
      obtain ⟨part, hmem, hholds, rfl⟩ := hoffset
      by_cases hinside : part.Holds (i.above a + k)
      · exact ⟨part, hmem, hinside, by rw [Part.place_add hholds]⟩
      · exact hbeyond k hk part hmem hholds hinside

/-- Two parts of four bytes that follow each other in the image, but not in the file: between them
the file has what the second part begins with. -/
def repeatingParts : List Part :=
  [⟨0x1000, 4, 0⟩, ⟨0x1004, 4, 6⟩]

/-- The image of these parts. Between them the file holds 5 and 6, which are the first bytes of the
second part as well. -/
def repeating : Image where
  file := ⟨#[1, 2, 3, 4, 5, 6, 5, 6, 7, 8]⟩
  base := 0x140000000
  translate? := Part.translate? repeatingParts

/-- The read takes two bytes from between the parts, and these are the first ones of the second
part. With one byte more it takes a 5 where a 7 is mapped. -/
theorem faithful_iff_repeating :
    repeating.MappedBy repeatingParts ∧ repeating.Faithful 0x140001002 4 ∧
      ¬ repeating.Faithful 0x140001002 5 := by
  have hmapped : repeating.MappedBy repeatingParts := by
    refine mappedBy_of_apart _ _ (by decide) ?_
    simp only [repeatingParts, List.pairwise_cons, List.mem_singleton, forall_eq, Part.Apart,
      Part.Holds]
    refine ⟨fun rva => ?_, by simp⟩
    omega
  refine ⟨hmapped, ?_, ?_⟩
  · exact (faithful_iff hmapped _ _).2 (.inr (by decide +kernel))
  · exact mt (faithful_iff hmapped _ _).1 (by decide +kernel)

end Image

/-! ## A read that goes wrong -/

/-- The row of a section in the section table. -/
def Section.row (s : Section) : List UInt8 :=
  List.replicate 8 0 ++ LittleEndian.encode 4 s.size ++ LittleEndian.encode 4 s.address ++
    LittleEndian.encode 4 s.rawSize ++ LittleEndian.encode 4 s.rawOffset ++ List.replicate 16 0

/-- A file with two sections of four bytes each, which are a page apart in the image and next to
each other in the file. It has all the headers that are looked at, and little else. -/
def twoSections : ByteArray :=
  -- The headers start at 0x80.
  let start :=
    [0x4D, 0x5A] ++ List.replicate 58 0 ++ LittleEndian.encode 4 0x80 ++ List.replicate 64 0
  -- The signature, the machine, the number of sections and the size of what follows.
  let header :=
    [0x50, 0x45, 0, 0, 0x64, 0x86, 2, 0] ++ List.replicate 12 0 ++ LittleEndian.encode 4 0xF0
  -- The kind of image, its base and its size.
  let optional := [0x0B, 0x02] ++ List.replicate 22 0 ++ LittleEndian.encode 8 0x140000000 ++
    List.replicate 24 0 ++ LittleEndian.encode 4 0x3000 ++ List.replicate 180 0
  let table :=
    Section.row ⟨0x1000, 4, 0x200, 4⟩ ++ Section.row ⟨0x2000, 4, 0x204, 4⟩ ++ List.replicate 40 0
  let data := [0x11, 0x22, 0x33, 0x44, 0x55, 0x66, 0x77, 0x88]
  ⟨(start ++ header ++ optional ++ table ++ data).toArray⟩

/-- The parts of that file: its two sections, and all of it as it is. -/
def twoParts : List Part :=
  [⟨0x1000, 4, 0x200⟩, ⟨0x2000, 4, 0x204⟩, ⟨0, 520, 0⟩]

/-- The file as an image, translated by its parts. -/
def twoParted : Image where
  file := twoSections
  base := 0x140000000
  translate? := Part.translate? twoParts

/-- Not every read is faithful: one gives a byte four gigabytes behind its address, another one goes
on into the next section of the file. -/
theorem twoSections_not_faithful :
    twoParted.MappedBy twoParts ∧
      ¬ twoParted.Faithful 0x240001000 1 ∧ ¬ twoParted.Faithful 0x140001002 4 := by
  refine ⟨?_, ?_, ?_⟩
  · refine Image.mappedBy_of_apart _ _ (by decide) ?_
    simp only [twoParts, List.pairwise_cons, List.mem_cons, forall_eq_or_imp, Part.Apart,
      Part.Holds]
    refine ⟨⟨fun rva => ?_, fun rva => ?_, nofun⟩, ⟨fun rva => ?_, nofun⟩, nofun, .nil⟩
    all_goals omega
  · intro h
    exact absurd (h.far (by decide)) (by decide +kernel)
  · intro h
    -- The third byte is the first one of the second section; nothing is mapped at its address.
    obtain ⟨-, -, offset, hoffset, -⟩ := h.bytes 2 0x55 (by decide +kernel)
    have hnone : twoParted.translate? 0x1004 = none := by decide +kernel
    cases hnone.symm.trans hoffset

/-- The headers of the file describe these parts. Each of the two sections is tried in turn, and an
address in neither of them is an offset into the file. -/
theorem fileOffset?_twoSections : fileOffset? twoSections = Part.translate? twoParts := by
  have hsize : field twoSections (headerOffset twoSections + 80) 4 = 0x3000 := by decide +kernel
  have hsections : sections? twoSections
      = some [⟨0x1000, 4, 0x200, 4⟩, ⟨0x2000, 4, 0x204, 4⟩] := by decide +kernel
  have hlength : twoSections.size = 520 := by decide +kernel
  funext rva
  rw [fileOffset?, hsize, hsections, hlength, Part.translate?, twoParts]
  simp only [Option.bind_eq_bind, Option.bind_some, List.find?_cons, List.find?_nil,
    ← Bool.decide_and]
  generalize rva.toNat = r
  by_cases hfirst : Part.Holds ⟨0x1000, 4, 0x200⟩ r
  · have hrange : 0x1000 ≤ r ∧ r < 0x1000 + 4 := hfirst
    rw [decide_eq_true hfirst, decide_eq_true hrange, if_neg (by omega)]
    simp only [Option.map_some, Part.place]
    rw [if_pos (by omega), Nat.add_comm]
  by_cases hsecond : Part.Holds ⟨0x2000, 4, 0x204⟩ r
  · have hrange : 0x2000 ≤ r ∧ r < 0x2000 + 4 := hsecond
    rw [decide_eq_false hfirst, decide_eq_true hsecond, decide_eq_false (by omega),
      decide_eq_true hrange, if_neg (by omega)]
    simp only [Option.map_some, Part.place]
    rw [if_pos (by omega), Nat.add_comm]
  -- Whatever lies in no section is taken from the file as it is.
  have hnone : ¬ (0x1000 ≤ r ∧ r < 0x1000 + 4) ∧ ¬ (0x2000 ≤ r ∧ r < 0x2000 + 4) :=
    ⟨hfirst, hsecond⟩
  rw [decide_eq_false hfirst, decide_eq_false hsecond, decide_eq_false hnone.1,
    decide_eq_false hnone.2]
  by_cases hheaders : Part.Holds ⟨0, 520, 0⟩ r
  · have hlt : r < 0 + 520 := hheaders.2
    rw [decide_eq_true hheaders, if_neg (by omega)]
    simp only [Option.map_some, Part.place]
    rw [if_pos (by omega), Nat.sub_zero, Nat.zero_add]
  · have hge : ¬ r < 520 := fun hlt => hheaders ⟨Nat.zero_le r, by omega⟩
    rw [decide_eq_false hheaders]
    simp [hge]

/-- Taken as an image by its headers, the file is the image above. -/
theorem ofFile_twoSections : Image.ofFile twoSections = .ok twoParted := by
  have hkind : is64Bit twoSections = true := by decide +kernel
  have hbase : statedBase twoSections = .ok 0x140000000 := by decide +kernel
  rw [Image.ofFile, if_pos hkind, hbase, fileOffset?_twoSections]
  rfl

end CodeRecovery.Pe
