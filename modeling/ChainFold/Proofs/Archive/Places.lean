import ChainFold.Proofs.Archive
import ChainFold.Proofs.Uuid
import Mathlib.Data.List.DropRight

/-!
# Places are safe and distinct

Whatever a text says, its path leads to a file in a directory right below the root, both
with names of few and harmless characters.  Two texts share a path only if both are too long
to be spelled out and have the same digest, even where names are told apart regardless of case.
-/

namespace ChainFold

namespace Archive

variable {c c' : String}

/-! ## Paths -/

def Disk.pathFor (disk : Disk) (c : String) : String := pathOf disk place (.str c)

/-- The hexadecimal digits in lower case. -/
def hexAlphabet : List Char := "0123456789abcdef".toList

/-- The path of the directory that a path lies in: all in front of the last slash. -/
def parentOf (path : List Char) : List Char := (path.rdropWhile (· ≠ '/')).dropLast

/-- A name of a file without its ending: a mark, and behind it characters of base32. -/
structure IsFileName (name : List Char) : Prop where
  exists_code : ∃ mark code, name = mark :: code ∧ (mark = 'b' ∨ mark = 'h') ∧
    ∀ d ∈ code, d ∈ Text.Base32.alphabet
  length_le : name.length ≤ 200

/-- A path to a file in a directory right below a root. -/
structure IsBlockPath (root path : String) : Prop where
  exists_names : ∃ directory name : List Char,
    path.toList = root.toList ++ '/' :: (directory ++ '/' :: (name ++ ".block".toList)) ∧
      directory.length = 2 ∧ (∀ d ∈ directory, d ∈ hexAlphabet) ∧ IsFileName name
  parents_eq : parentOf (parentOf path.toList) = root.toList

theorem parentOf_append {directory name : List Char} (h : '/' ∉ name) :
    parentOf (directory ++ '/' :: name) = directory := by
  have hname : ∀ d ∈ name.reverse, decide (d ≠ '/') = true := by
    intro d hd
    have hne : d ≠ '/' := fun heq => h (heq ▸ List.mem_reverse.mp hd)
    exact decide_eq_true hne
  have hdrop : (directory ++ '/' :: name).rdropWhile (· ≠ '/') = directory ++ ['/'] := by
    rw [List.rdropWhile, List.reverse_append, List.reverse_cons, List.append_assoc,
      List.dropWhile_append_of_pos hname]
    simp
  rw [parentOf, hdrop, List.dropLast_concat]

/-! ## Names of files -/

theorem length_encode (bs : Bytes) : (Text.Base32.encode bs).length = (8 * bs.length + 4) / 5 := by
  rw [Text.Base32.encode, Text.Base32.length_symbols, Text.Base32.length_flatMap_octetBits]

/-- Up to 124 octets are spelled out. -/
theorem overlong_iff (c : String) : Overlong c ↔ 124 < (Text.utf8 c).length := by
  rw [Overlong, length_encode, maxNameLength]
  omega

theorem isFileName_cons {mark : Char} (hmark : mark = 'b' ∨ mark = 'h') {bs : Bytes}
    (h : bs.length ≤ 124) : IsFileName (mark :: Text.Base32.encode bs) where
  exists_code := ⟨mark, _, rfl, hmark, fun _ => Text.Base32.mem_alphabet_of_mem_symbols⟩
  length_le := by
    rw [List.length_cons, length_encode]
    omega

theorem isFileName_fileName (c : String) : IsFileName (fileName c).toList := by
  by_cases hlong : Overlong c
  · have hdigest : (Digest.sha256Text c).length = 32 := Digest.length_sha256 _
    rw [toList_fileName_of_overlong hlong]
    exact isFileName_cons (.inr rfl) (by omega)
  · have hoctets : (Text.utf8 c).length ≤ 124 := Nat.le_of_not_lt (mt (overlong_iff c).mpr hlong)
    rw [toList_fileName_of_not_overlong hlong]
    exact isFileName_cons (.inl rfl) hoctets

theorem mem_hexAlphabet_of_mem_shard {d : Char} (h : d ∈ (shard c).toList) : d ∈ hexAlphabet := by
  have hdigit : ∀ n < 16, Text.hexDigit n ∈ hexAlphabet := by decide
  rw [shard, String.toList_ofList] at h
  obtain ⟨b, -, hb⟩ := List.mem_flatMap.mp h
  obtain ⟨n, hn, rfl⟩ := Text.mem_hexDigits hb
  exact hdigit n hn

/-! ## Characters of places -/

/-- The characters that places are made of. -/
def placeAlphabet : List Char := '/' :: '.' :: (hexAlphabet ++ Text.Base32.alphabet)

theorem mem_placeAlphabet {d : Char} (h : d ∈ (place c).toList) : d ∈ placeAlphabet := by
  have hhex : ∀ d ∈ hexAlphabet, d ∈ placeAlphabet := fun d hd => by simp [placeAlphabet, hd]
  have hcode : ∀ d ∈ Text.Base32.alphabet, d ∈ placeAlphabet := fun d hd => by
    simp [placeAlphabet, hd]
  have hending : ".block".toList.all placeAlphabet.contains = true := by decide
  rw [toList_place, List.mem_append, List.mem_cons, List.mem_append] at h
  rcases h with hd | rfl | hd | hd
  · exact hhex d (mem_hexAlphabet_of_mem_shard hd)
  · exact List.mem_cons_self
  · obtain ⟨mark, code, hname, hmark, hcodes⟩ := (isFileName_fileName c).exists_code
    rw [hname] at hd
    rcases List.mem_cons.mp hd with rfl | hd
    · exact hcode d (by rcases hmark with rfl | rfl <;> decide)
    · exact hcode d (hcodes d hd)
  · exact List.contains_iff_mem.mp (List.all_eq_true.mp hending d hd)

theorem slash_not_mem_name (c : String) : '/' ∉ (fileName c).toList ++ ".block".toList := by
  have hcodes : '/' ∉ Text.Base32.alphabet := by decide
  obtain ⟨mark, code, hcode, hmark, hall⟩ := (isFileName_fileName c).exists_code
  rw [hcode]
  intro h
  rcases List.mem_append.mp h with hname | hending
  · rcases List.mem_cons.mp hname with rfl | hd
    · rcases hmark with h | h <;> cases h
    · exact hcodes (hall _ hd)
  · exact absurd hending (by decide)

theorem toList_pathFor (disk : Disk) (c : String) :
    (disk.pathFor c).toList = disk.root.toList ++ '/' :: (place c).toList := by
  simp [Disk.pathFor, pathOf, Json.text?, toString]

theorem isBlockPath_pathFor (disk : Disk) (c : String) :
    IsBlockPath disk.root (disk.pathFor c) := by
  have hpath : (disk.pathFor c).toList = disk.root.toList ++ '/' :: ((shard c).toList ++
      '/' :: ((fileName c).toList ++ ".block".toList)) := by
    rw [toList_pathFor, toList_place]
  have hshard : '/' ∉ (shard c).toList := fun h =>
    absurd (mem_hexAlphabet_of_mem_shard h) (by decide)
  constructor
  case exists_names =>
    exact ⟨_, _, hpath, length_shard c, fun _ => mem_hexAlphabet_of_mem_shard,
      isFileName_fileName c⟩
  case parents_eq =>
    rw [hpath, ← List.cons_append, ← List.append_assoc, parentOf_append (slash_not_mem_name c),
      parentOf_append hshard]

/-! ## Places apart -/

/-- A map of characters that takes no two of ASCII for one but the two cases of a letter. -/
def TellsByLetter (fold : Char → Char) : Prop :=
  ∀ c d : Char, c.toNat < 128 → d.toNat < 128 → fold c = fold d → c.toLower = d.toLower

theorem lower_of_mem_placeAlphabet {d : Char} (h : d ∈ placeAlphabet) :
    d.toNat < 128 ∧ d.toLower = d := by
  have hall : placeAlphabet.all (fun d => d.toNat < 128 && d.toLower == d) = true := by decide
  simpa using List.all_eq_true.mp hall d h

/-- Texts of the characters of places are told apart regardless of case. -/
theorem eq_of_map_fold {fold : Char → Char} (hfold : TellsByLetter fold) {cs ds : List Char}
    (hcs : ∀ c ∈ cs, c ∈ placeAlphabet) (hds : ∀ d ∈ ds, d ∈ placeAlphabet)
    (h : cs.map fold = ds.map fold) : cs = ds := by
  induction cs generalizing ds with
  | nil => exact (List.map_eq_nil_iff.mp h.symm).symm
  | cons c cs ih =>
      cases ds with
      | nil => cases h
      | cons d ds =>
          obtain ⟨hhead, hrest⟩ := List.cons.inj h
          obtain ⟨hc, hcs⟩ := List.forall_mem_cons.mp hcs
          obtain ⟨hd, hds⟩ := List.forall_mem_cons.mp hds
          obtain ⟨hascii, hlower⟩ := lower_of_mem_placeAlphabet hc
          obtain ⟨hascii', hlower'⟩ := lower_of_mem_placeAlphabet hd
          have hletter := hfold c d hascii hascii' hhead
          rw [hlower, hlower'] at hletter
          rw [hletter, ih hcs hds hrest]

theorem place_eq_iff : place c = place c' ↔
    c = c' ∨ Overlong c ∧ Overlong c' ∧ Digest.sha256Text c = Digest.sha256Text c' := by
  constructor
  · exact fun h => eq_or_overlong_of_fileName (fileName_eq_of_place h)
  · rintro (rfl | ⟨hlong, hlong', hdigest⟩)
    · rfl
    · have hname : fileName c = fileName c' := by
        apply String.toList_inj.mp
        rw [toList_fileName_of_overlong hlong, toList_fileName_of_overlong hlong', hdigest]
      rw [place, place, shard, shard, hdigest, hname]

/--
The path of every text leads to a file right below a directory of the root; and even regardless
of case no other text has it, unless both are too long to be spelled out and have one digest.
-/
theorem paths_safe_and_distinct (disk : Disk) (c : String) :
    IsBlockPath disk.root (disk.pathFor c) ∧
      ∀ fold, TellsByLetter fold → ∀ c',
        ((disk.pathFor c).map fold = (disk.pathFor c').map fold ↔
          c = c' ∨ Overlong c ∧ Overlong c' ∧ Digest.sha256Text c = Digest.sha256Text c') := by
  refine ⟨isBlockPath_pathFor disk c, fun fold hfold c' => ?_⟩
  have hpath : ∀ c, ((disk.pathFor c).map fold).toList =
      disk.root.toList.map fold ++ (fold '/' :: (place c).toList.map fold) := by
    intro c
    rw [String.toList_map, toList_pathFor, List.map_append, List.map_cons]
  rw [← place_eq_iff, ← String.toList_inj, hpath, hpath, List.append_right_inj, List.cons.injEq]
  constructor
  · rintro ⟨-, hplaces⟩
    exact String.toList_inj.mp
      (eq_of_map_fold hfold (fun _ => mem_placeAlphabet) (fun _ => mem_placeAlphabet) hplaces)
  · intro hplaces
    exact ⟨rfl, by rw [hplaces]⟩

/-- A text that tries to leave the root stays below it, and texts in two cases have two paths. -/
theorem paths_safe_and_distinct_sample :
    let disk : Disk := ⟨"blocks", true, .empty⟩
    IsBlockPath "blocks" (disk.pathFor "../escape") ∧ TellsByLetter Char.toLower ∧
      (disk.pathFor "bafyAB").map Char.toLower ≠ (disk.pathFor "bafyab").map Char.toLower := by
  intro disk
  have hlower : TellsByLetter Char.toLower := fun _ _ _ _ h => h
  have hapart := (paths_safe_and_distinct disk "bafyAB").2 Char.toLower hlower "bafyab"
  exact ⟨(paths_safe_and_distinct disk "../escape").1, hlower, mt hapart.mp (by decide +kernel)⟩

end Archive

end ChainFold
