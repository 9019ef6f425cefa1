import ChainFold.Archive
import ChainFold.Proofs.Outcome
import ChainFold.Proofs.Store.Table
import ChainFold.Proofs.Text.Codes

/-!
# Archives keep what they took first

Under a text there is one place to keep bytes.  Distinct texts have distinct places
unless their digests collide, so bytes that are put under one text are found there
from then on, and nothing changes under the others.
-/

namespace ChainFold

namespace Digest

theorem length_hexOctet (b : UInt8) : (hexOctet b).length = 2 := by
  simp [hexOctet, Text.hexDigits]

end Digest

namespace Archive

variable {a a' : Archive} {c c' c₁ c₂ : String} {bs : Bytes} {written : Bool}

/-! ## Places -/

/-- No two of the texts have the same digest. -/
def DigestsApart (cids : List String) : Prop :=
  ∀ c ∈ cids, ∀ c' ∈ cids, Digest.sha256Text c = Digest.sha256Text c' → c = c'

theorem length_shard (cid : String) : (shard cid).length = 2 := by
  have hlength : (Digest.sha256Text cid).length = 32 := by
    rw [Digest.sha256Text, Digest.length_sha256]
  rw [shard, String.length_ofList]
  cases hdigest : Digest.sha256Text cid with
  | nil => simp [hdigest] at hlength
  | cons b rest => simp [Digest.length_hexOctet]

theorem toList_place (cid : String) : (place cid).toList =
    (shard cid).toList ++ ('/' :: ((fileName cid).toList ++ ".block".toList)) := by
  simp [place, toString]

theorem fileName_eq_of_place (h : place c = place c') : fileName c = fileName c' := by
  have hchars := congrArg String.toList h
  rw [toList_place, toList_place] at hchars
  have hlength : (shard c).toList.length = (shard c').toList.length := by
    rw [String.length_toList, String.length_toList, length_shard, length_shard]
  obtain ⟨-, hbehind⟩ := List.append_inj hchars hlength
  obtain ⟨-, hname⟩ := List.cons.inj hbehind
  exact String.toList_inj.mp (List.append_cancel_right hname)

/-- A text that is too long for a file name to spell it out. -/
def Overlong (c : String) : Prop := maxNameLength < (Text.Base32.encode (Text.utf8 c)).length + 1

instance (c : String) : Decidable (Overlong c) := inferInstanceAs (Decidable (_ < _))

theorem toList_fileName_of_overlong (h : Overlong c) :
    (fileName c).toList = 'h' :: Text.Base32.encode (Digest.sha256Text c) := by
  have hlong : maxNameLength < ('b' :: Text.Base32.encode (Text.utf8 c)).length := h
  rw [fileName, if_pos hlong, String.toList_ofList]

theorem toList_fileName_of_not_overlong (h : ¬ Overlong c) :
    (fileName c).toList = 'b' :: Text.Base32.encode (Text.utf8 c) := by
  have hshort : ¬ maxNameLength < ('b' :: Text.Base32.encode (Text.utf8 c)).length := h
  rw [fileName, if_neg hshort, String.toList_ofList]

/-- A file name determines its text, or the digest of a text that is too long. -/
theorem eq_or_overlong_of_fileName (h : fileName c = fileName c') :
    c = c' ∨ Overlong c ∧ Overlong c' ∧ Digest.sha256Text c = Digest.sha256Text c' := by
  have hchars := congrArg String.toList h
  by_cases hlong : Overlong c <;> by_cases hlong' : Overlong c'
  · rw [toList_fileName_of_overlong hlong, toList_fileName_of_overlong hlong'] at hchars
    obtain ⟨-, hcode⟩ := List.cons.inj hchars
    exact .inr ⟨hlong, hlong', Text.Base32.encode_injective hcode⟩
  -- The first character tells a digest from a text that is spelled out.
  · rw [toList_fileName_of_overlong hlong, toList_fileName_of_not_overlong hlong'] at hchars
    exact absurd (List.cons.inj hchars).1 (by decide)
  · rw [toList_fileName_of_not_overlong hlong, toList_fileName_of_overlong hlong'] at hchars
    exact absurd (List.cons.inj hchars).1 (by decide)
  · rw [toList_fileName_of_not_overlong hlong, toList_fileName_of_not_overlong hlong'] at hchars
    obtain ⟨-, hcode⟩ := List.cons.inj hchars
    exact .inl (Text.utf8_injective (Text.Base32.encode_injective hcode))

/-! ## Keys -/

/-- Texts that are kept under keys of their own, whatever is there already. -/
def TellsApart : Archive → List String → Prop
  | .memory _, _ => True
  | .files _, cids => DigestsApart cids

def keyOfText : Archive → String → Key
  | .memory _, c => .text c
  | .files _, c => .text (place c)

theorem keyOf_text (a : Archive) (c : String) : a.keyOf (.str c) = .ok (a.keyOfText c) := by
  cases a <;> rfl

theorem TellsApart.eq_of_key {cids : List String} (h : a.TellsApart cids) (hc : c ∈ cids)
    (hc' : c' ∈ cids) (hkey : a.keyOfText c = a.keyOfText c') : c = c' := by
  cases a with
  | memory blocks => exact Key.text.inj hkey
  | files disk =>
      rcases eq_or_overlong_of_fileName (fileName_eq_of_place (Key.text.inj hkey)) with
        heq | ⟨-, -, hdigest⟩
      · exact heq
      · exact h c hc c' hc' hdigest

theorem TellsApart.subset {cids cids' : List String} (h : a.TellsApart cids)
    (hsub : cids' ⊆ cids) : a.TellsApart cids' := by
  cases a with
  | memory blocks => trivial
  | files disk => exact fun c hc c' hc' => h c (hsub hc) c' (hsub hc')

/-! ## Putting and getting -/

/-- Bytes are put where nothing is yet, and what is there stays. -/
theorem put_eq_ok (h : a.put (.str c) bs = .ok (written, a')) :
    a.holds (a.keyOfText c) = true ∧ a' = a ∨
      a.holds (a.keyOfText c) = false ∧ a' = a.write (a.keyOfText c) bs := by
  rw [put, keyOf_text, ok_bind] at h
  by_cases hholds : a.holds (a.keyOfText c) = true
  · rw [if_pos hholds] at h
    obtain ⟨-, rfl⟩ := Prod.mk.inj (Except.ok.inj h)
    exact .inl ⟨hholds, rfl⟩
  · rw [if_neg hholds] at h
    obtain ⟨u, -, h⟩ := bind_eq_ok.mp h
    obtain ⟨-, rfl⟩ := Prod.mk.inj (Except.ok.inj h)
    exact .inr ⟨eq_false_of_ne_true hholds, rfl⟩

theorem keyOfText_write (a : Archive) (k : Key) (bs : Bytes) :
    (a.write k bs).keyOfText = a.keyOfText := by
  cases a <;> rfl

theorem tellsApart_write (a : Archive) (k : Key) (bs : Bytes) :
    (a.write k bs).TellsApart = a.TellsApart := by
  cases a <;> rfl

theorem tellsApart_put (h : a.put (.str c) bs = .ok (written, a')) :
    a'.TellsApart = a.TellsApart := by
  rcases put_eq_ok h with ⟨-, rfl⟩ | ⟨-, rfl⟩
  · rfl
  · exact tellsApart_write a _ bs

theorem get_write_self (a : Archive) (c : String) (bs : Bytes) :
    (a.write (a.keyOfText c) bs).get (.str c) = .ok (some bs) := by
  rw [get, keyOf_text, keyOfText_write]
  cases a with
  | memory blocks => simp [write, Table.get?_insert_self]
  | files disk => simp [write, Table.get?_insert_self]

theorem get_write_of_ne (hne : a.keyOfText c ≠ a.keyOfText c') :
    (a.write (a.keyOfText c) bs).get (.str c') = a.get (.str c') := by
  rw [get, get, keyOf_text, keyOf_text, keyOfText_write]
  cases a with
  | memory blocks => simp only [write, ok_bind, Table.get?_insert_of_ne hne]
  | files disk =>
      simp only [write, ok_bind, Table.get?_insert_of_ne hne]
      rfl

/-- Where something is found, or nothing, is also what the archive says that it holds. -/
theorem holds_of_get {found : Option Bytes} (h : a.get (.str c) = .ok found) :
    a.holds (a.keyOfText c) = found.isSome := by
  rw [get, keyOf_text, ok_bind] at h
  cases a with
  | memory blocks => rw [holds, Table.has, Except.ok.inj h]
  | files disk =>
      rw [holds, Table.has]
      dsimp only at h
      cases hentry : disk.entries.get? ((files disk).keyOfText c) with
      | none =>
          rw [hentry] at h
          obtain rfl := Except.ok.inj h
          rfl
      | some entry =>
          rw [hentry] at h
          cases entry with
          | file bs =>
              obtain rfl := Except.ok.inj h
              rfl
          | directory => cases h

theorem get_put_of_none (hnone : a.get (.str c) = .ok none)
    (h : a.put (.str c) bs = .ok (written, a')) : a'.get (.str c) = .ok (some bs) := by
  rcases put_eq_ok h with ⟨hholds, -⟩ | ⟨-, rfl⟩
  · rw [holds_of_get hnone] at hholds
    cases hholds
  · exact get_write_self a c bs

theorem put_of_some {bs₀ : Bytes} (hsome : a.get (.str c) = .ok (some bs₀))
    (h : a.put (.str c) bs = .ok (written, a')) : a' = a := by
  rcases put_eq_ok h with ⟨-, rfl⟩ | ⟨hholds, -⟩
  · rfl
  · rw [holds_of_get hsome] at hholds
    cases hholds

theorem get_put_of_ne (hne : a.keyOfText c ≠ a.keyOfText c')
    (h : a.put (.str c) bs = .ok (written, a')) : a'.get (.str c') = a.get (.str c') := by
  rcases put_eq_ok h with ⟨-, rfl⟩ | ⟨-, rfl⟩
  · rfl
  · exact get_write_of_ne hne

theorem holds_write (a : Archive) (k k' : Key) (bs : Bytes) :
    (a.write k bs).holds k' = (decide (k = k') || a.holds k') := by
  cases a with
  | memory blocks => by_cases hk : k = k' <;> simp [holds, write, Table.has, Table.get?_insert, hk]
  | files disk => by_cases hk : k = k' <;> simp [holds, write, Table.has, Table.get?_insert, hk]

theorem keyOfText_put (h : a.put (.str c) bs = .ok (written, a')) :
    a'.keyOfText = a.keyOfText := by
  rcases put_eq_ok h with ⟨-, rfl⟩ | ⟨-, rfl⟩
  · rfl
  · exact keyOfText_write a _ bs

theorem holds_put_self (h : a.put (.str c) bs = .ok (written, a')) :
    a'.holds (a'.keyOfText c) = true := by
  rw [keyOfText_put h]
  rcases put_eq_ok h with ⟨hholds, rfl⟩ | ⟨-, rfl⟩
  · exact hholds
  · simp [holds_write]

theorem holds_put (h : a.put (.str c) bs = .ok (written, a'))
    (hholds : a.holds (a.keyOfText c') = true) : a'.holds (a'.keyOfText c') = true := by
  rw [keyOfText_put h]
  rcases put_eq_ok h with ⟨-, rfl⟩ | ⟨-, rfl⟩
  · exact hholds
  · simp [holds_write, hholds]

theorem put_of_holds (h : a.holds (a.keyOfText c) = true) (bs : Bytes) :
    a.put (.str c) bs = .ok (false, a) := by
  rw [put, keyOf_text, ok_bind, if_pos h]
  rfl

/-! ## Room -/

/-- An archive that takes everything: it is in memory, or in files that can be written. -/
def TakesAll : Archive → Prop
  | .memory _ => True
  | .files disk => disk.writable = true

theorem TakesAll.exists_put (h : a.TakesAll) (cid : String) (bs : Bytes) :
    ∃ written a', a.put (.str cid) bs = .ok (written, a') ∧ a'.TakesAll := by
  cases a with
  | memory blocks =>
      by_cases hholds : Archive.holds (.memory blocks) (.text cid) = true
      · exact ⟨false, .memory blocks, by simp [put, keyOf, Json.key?, hholds], trivial⟩
      · refine ⟨true, .memory (blocks.insert (.text cid) bs), ?_, trivial⟩
        simp [put, keyOf, Json.key?, hholds, checkRoom, write]
  | files disk =>
      have hwritable : disk.writable = true := h
      by_cases hholds : Archive.holds (.files disk) (.text (place cid)) = true
      · exact ⟨false, .files disk, by simp [put, keyOf, hholds], h⟩
      · refine ⟨true, .files { disk with
          entries := disk.entries.insert (.text (place cid)) (.file bs) }, ?_, h⟩
        simp [put, keyOf, hholds, checkRoom, hwritable, write]

theorem put_text (a : Archive) (c : String) (bs : Bytes) :
    a.put (.str c) bs =
      if a.holds (a.keyOfText c) = true then .ok (false, a)
      else a.checkRoom (.str c) >>= fun _ => .ok (true, a.write (a.keyOfText c) bs) := by
  rw [put, keyOf_text, ok_bind]
  rfl

/-- An archive that takes bytes under a text exactly if another one does. -/
structure SameRoom (c : String) (a a' : Archive) : Prop where
  keys_eq : a'.keyOfText = a.keyOfText
  room_eq : a'.checkRoom (.str c) = a.checkRoom (.str c)
  holds_eq : a.checkRoom (.str c) = .ok () ∨ a'.holds (a.keyOfText c) = a.holds (a.keyOfText c)

theorem SameRoom.refl (c : String) (a : Archive) : SameRoom c a a := ⟨rfl, rfl, .inr rfl⟩

theorem checkRoom_eq_ok_iff (a : Archive) (cid : Json) :
    a.checkRoom cid = .ok () ↔ a.TakesAll := by
  cases a with
  | memory blocks => simp [checkRoom, TakesAll]
  | files disk =>
      by_cases hwritable : disk.writable = true <;> simp [checkRoom, TakesAll, hwritable]

theorem takesAll_write (a : Archive) (k : Key) (bs : Bytes) :
    (a.write k bs).TakesAll = a.TakesAll := by
  cases a <;> rfl

/-- What is put elsewhere takes no room away, and has been put where there was room. -/
theorem sameRoom_put (h : a.put (.str c') bs = .ok (written, a')) (c : String) :
    SameRoom c a a' := by
  rw [put_text] at h
  split at h
  · obtain ⟨-, rfl⟩ := Prod.mk.inj (Except.ok.inj h)
    exact .refl c a
  · obtain ⟨u, hroom, h⟩ := bind_eq_ok.mp h
    obtain ⟨-, rfl⟩ := Prod.mk.inj (Except.ok.inj h)
    have htakes : a.TakesAll := (checkRoom_eq_ok_iff a _).mp hroom
    have htakes' : (a.write (a.keyOfText c') bs).TakesAll := (takesAll_write a _ bs).symm ▸ htakes
    have hroom' := (checkRoom_eq_ok_iff a (.str c)).mpr htakes
    exact ⟨keyOfText_write a _ bs, ((checkRoom_eq_ok_iff _ _).mpr htakes').trans hroom'.symm,
      .inl hroom'⟩

/-- Where there is the same room, bytes are taken by both archives or by neither. -/
theorem SameRoom.put (h : SameRoom c a a') (bs : Bytes) :
    (∃ p p', a.put (.str c) bs = .ok p ∧ a'.put (.str c) bs = .ok p') ∨
      ∃ f, a.put (.str c) bs = .error f ∧ a'.put (.str c) bs = .error f := by
  rw [put_text, put_text, h.keys_eq, h.room_eq]
  cases hroom : a.checkRoom (.str c) with
  | ok u =>
      refine .inl ?_
      cases a.holds (a.keyOfText c) <;> cases a'.holds (a.keyOfText c) <;>
        exact ⟨_, _, rfl, rfl⟩
  | error f =>
      rcases h.holds_eq with hok | hholds
      · cases hroom.symm.trans hok
      · rw [hholds]
        cases a.holds (a.keyOfText c) with
        | true => exact .inl ⟨_, _, rfl, rfl⟩
        | false => exact .inr ⟨f, rfl, rfl⟩

theorem write_comm (a : Archive) {k k' : Key} (hne : k ≠ k') (bs bs' : Bytes) :
    (a.write k bs).write k' bs' = (a.write k' bs').write k bs := by
  have hcomm : ∀ {α : Type} (t : Table α) (x y : α),
      (t.insert k x).insert k' y = (t.insert k' y).insert k x := by
    intro α t x y
    refine Table.ext_get? fun j => ?_
    simp only [Table.get?_insert]
    by_cases hk : k = j
    · subst hk
      simp [hne.symm]
    · simp [hk]
  cases a with
  | memory blocks => simp only [write, hcomm]
  | files disk => simp only [write, hcomm]

def kept (a : Archive) (c : String) (bs : Bytes) : Archive :=
  match a.put (.str c) bs with
  | .ok (_, a') => a'
  | .error _ => a

theorem kept_of_put (h : a.put (.str c) bs = .ok (written, a')) : a.kept c bs = a' := by
  simp only [kept, h]

theorem kept_of_takesAll (h : a.TakesAll) (c : String) (bs : Bytes) :
    a.kept c bs = if a.holds (a.keyOfText c) = true then a else a.write (a.keyOfText c) bs := by
  unfold kept
  rw [put_text, (checkRoom_eq_ok_iff a (.str c)).mpr h, ok_bind]
  cases a.holds (a.keyOfText c) <;> rfl

theorem kept_of_not_takesAll (h : ¬ a.TakesAll) (c : String) (bs : Bytes) : a.kept c bs = a := by
  unfold kept
  rw [put_text]
  cases hroom : a.checkRoom (.str c) with
  | ok u => exact absurd ((checkRoom_eq_ok_iff a _).mp hroom) h
  | error f => cases a.holds (a.keyOfText c) <;> rfl

theorem kept_comm (hne : a.keyOfText c₁ ≠ a.keyOfText c₂) (bs₁ bs₂ : Bytes) :
    (a.kept c₁ bs₁).kept c₂ bs₂ = (a.kept c₂ bs₂).kept c₁ bs₁ := by
  by_cases htakes : a.TakesAll
  · have htakes' : ∀ k bs, (a.write k bs).TakesAll := fun k bs =>
      (takesAll_write a k bs).symm ▸ htakes
    rw [kept_of_takesAll htakes, kept_of_takesAll htakes]
    cases hheld₁ : a.holds (a.keyOfText c₁) <;> cases hheld₂ : a.holds (a.keyOfText c₂) <;>
      simp [kept_of_takesAll, htakes, htakes', keyOfText_write, holds_write, hheld₁, hheld₂, hne,
        hne.symm, write_comm]
  · rw [kept_of_not_takesAll htakes, kept_of_not_takesAll htakes, kept_of_not_takesAll htakes]

/-! ## Empty archives -/

/-- Nothing is kept yet. -/
def IsEmpty : Archive → Prop
  | .memory blocks => blocks = .empty
  | .files disk => disk.entries = .empty

theorem IsEmpty.get_eq (h : a.IsEmpty) (c : String) : a.get (.str c) = .ok none := by
  rw [get, keyOf_text]
  cases a with
  | memory blocks =>
      obtain rfl : blocks = .empty := h
      rfl
  | files disk =>
      have hentries : disk.entries = .empty := h
      simp [hentries]

end Archive

end ChainFold
