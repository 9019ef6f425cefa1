import ChainFold.Json.Printer
import ChainFold.Proofs.Text.Alphabets
import ChainFold.Signal

/-!
# Signals behind encoded options

Options that are an object in base64 are tried with the reader of the standard alphabet first.
It reads what is written in that alphabet, and most of what is not it refuses; but it skips the
marks of the URL-safe alphabet, and what is left can be the text of another object.  Where it is
not, the signal of the options is found, however they are spelled.
-/

namespace ChainFold.Signal

open Json Text.Base64

variable {sp : Spelling} {bs : Bytes} {os other ms : Members} {signal : Json}

/-! ## Reading options -/

/-- Padding restores a text from which the padding was taken. -/
theorem padded_write (sp : Spelling) (bs : Bytes) : padded (sp.write bs) = sp.whole bs := by
  unfold padded Spelling.write
  split_ifs
  · rw [sp.length_whole_mod]
    exact List.append_nil _
  · rw [sp.filter_whole, List.length_map, length_values_mod, sp.whole_eq_digits]

/-- A text that is read as an object has octets, and so has every spelling of it. -/
theorem write_ne_nil (hread : readBytes bs = .ok (.obj os)) : sp.write bs ≠ [] := by
  intro hnil
  have hwhole := padded_write sp bs
  have hdecoded := sp.decodeUrlSafe_whole bs
  rw [hnil] at hwhole
  rw [← hwhole] at hdecoded
  obtain rfl : [] = bs := Except.ok.inj hdecoded
  cases hread

theorem decodeWith_of_read {decoder : List Char → Except Fault Bytes} {cs : List Char}
    (hdecoded : decoder cs = .ok bs) (hread : readBytes bs = .ok (.obj os)) :
    decodeWith decoder cs = some os := by
  rw [decodeWith, hdecoded]
  dsimp only
  rw [hread]
  rfl

/-- The standard reader takes a URL-safe text for that of another object. -/
structure Misread (sp : Spelling) (bs : Bytes) (other : Members) : Prop where
  urlSafe : sp.urlSafe = true
  marked : marks bs ≠ 0
  fits : (4 - marks bs % 4) % 4 ≤ padding bs.length
  reads : readBytes (unmarked bs) = .ok (.obj other)

theorem Misread.decodeWith_eq (h : Misread sp bs other) :
    decodeWith decode (sp.whole bs) = some other := by
  apply decodeWith_of_read _ h.reads
  rw [sp.decode_whole_of_urlSafe bs h.urlSafe, if_pos h.fits]

/-- A text that is not misread is read by the standard reader, or refused. -/
theorem decodeWith_of_not_misread (hread : readBytes bs = .ok (.obj os))
    (h : ∀ other, ¬ Misread sp bs other) :
    decodeWith decode (sp.whole bs) = some os ∨ decodeWith decode (sp.whole bs) = none := by
  cases hurl : sp.urlSafe with
  | false => exact .inl (decodeWith_of_read (sp.decode_whole_of_standard bs hurl) hread)
  | true =>
      have hdecoded := sp.decode_whole_of_urlSafe bs hurl
      by_cases hfits : (4 - marks bs % 4) % 4 ≤ padding bs.length
      · rw [if_pos hfits] at hdecoded
        -- Without marks nothing is skipped, so what is read is the object itself.
        by_cases hmarks : marks bs = 0
        · rw [unmarked_of_marks_eq_zero hmarks] at hdecoded
          exact .inl (decodeWith_of_read hdecoded hread)
        · refine .inr ?_
          rw [decodeWith, hdecoded]
          cases hother : readBytes (unmarked bs) with
          | error d => simp [hother]
          | ok j =>
              cases j with
              | obj other => exact absurd ⟨hurl, hmarks, hfits, hother⟩ (h other)
              | null | bool | int | double | str | arr => simp [hother, members?]
      · rw [if_neg hfits] at hdecoded
        refine .inr ?_
        rw [decodeWith, hdecoded]

/-- Encoded options are what the standard reader finds, or else what they were. -/
theorem options?_write (sp : Spelling) (hread : readBytes bs = .ok (.obj os)) :
    options? (.str (String.ofList (sp.write bs))) =
      (decodeWith decode (sp.whole bs)).or (some os) := by
  have hne : String.ofList (sp.write bs) ≠ "" := by
    intro hempty
    have hnil : sp.write bs = [] := String.ofList_injective hempty
    exact write_ne_nil hread hnil
  rw [options?, if_neg hne, String.toList_ofList, padded_write]
  dsimp only
  rw [decodeWith_of_read (sp.decodeUrlSafe_whole bs) hread]

theorem not_misread_of_plain (h : ∀ b ∈ bs, b.toNat < 126 ∧ b.toNat ≠ 62 ∧ b.toNat ≠ 63)
    (other : Members) : ¬ Misread sp bs other := by
  intro hmisread
  exact hmisread.marked (marks_eq_zero_iff.mpr (lt_of_plain_octets h))

/-! ## Signals -/

theorem ofContent?_of_options {options : Json} (hoptions : ms.get? "options" = some options)
    (hown : among? ms = none) : ofContent? (.obj ms) = (options? options).bind among? := by
  rw [ofContent?, hown, Option.none_or, field, hoptions, Option.getD_some]

/--
The signal of encoded options is found behind every spelling, unless the standard reader takes
the text for that of another object, whose signal is found then.  That happens at most to
URL-safe texts with marks in them, whose number the padding makes up for; octets below 126
other than `>` and `?` are written without marks.
-/
theorem encoded_options_found (hread : readBytes bs = .ok (.obj os))
    (hsignal : among? os = some signal) (hown : among? ms = none)
    (hoptions : ms.get? "options" = some (.str (String.ofList (sp.write bs)))) :
    ((∀ other, ¬ Misread sp bs other) → ofContent? (.obj ms) = some signal) ∧
    (∀ other, Misread sp bs other → ofContent? (.obj ms) = among? other) ∧
    ((∀ b ∈ bs, b.toNat < 126 ∧ b.toNat ≠ 62 ∧ b.toNat ≠ 63) →
      ofContent? (.obj ms) = some signal) := by
  rw [ofContent?_of_options hoptions hown, options?_write sp hread]
  have hfound : (∀ other, ¬ Misread sp bs other) →
      ((decodeWith decode (sp.whole bs)).or (some os)).bind among? = some signal := by
    intro hnone
    rcases decodeWith_of_not_misread hread hnone with hsome | hrefused
    · rw [hsome]
      exact hsignal
    · rw [hrefused]
      exact hsignal
  refine ⟨hfound, ?_, ?_⟩
  · intro other hmisread
    rw [hmisread.decodeWith_eq]
    rfl
  · intro hplain
    exact hfound (not_misread_of_plain hplain)

/-- URL-safe options without padding, with a mark that the standard reader misses. -/
theorem encoded_options_found_sample :
    let signal : Json := .obj [("note", .str "??>>")]
    let bs := Text.utf8 (Json.obj [("signal", signal)]).archived
    let options := String.ofList (Spelling.write ⟨true, false⟩ bs)
    let content : Json := .obj [("signal", .null), ("options", .str options)]
    options = "eyJzaWduYWwiOnsibm90ZSI6Ij8_Pj4ifX0" ∧ ofContent? content = some signal := by
  intro signal bs options content
  have hread : readBytes bs = .ok (.obj [("signal", signal)]) := by decide +kernel
  have hnone : ∀ other, ¬ Misread ⟨true, false⟩ bs other := by
    intro other hmisread
    exact absurd hmisread.fits (by decide +kernel)
  have hsignal : among? [("signal", signal)] = some signal := rfl
  have hown : among? [("signal", .null), ("options", .str options)] = none := rfl
  obtain ⟨hfound, -, -⟩ := encoded_options_found hread hsignal hown rfl
  exact ⟨by decide +kernel, hfound hnone⟩

/--
Four marks are a whole group, for which no padding has to make up: the options are taken for
those of another object, with another signal.
-/
theorem skipped_marks_misread :
    let signal : Json := .obj [("kxx", .str "wD~am~tS~SP~")]
    let bs := Text.utf8 (Json.obj [("signal", signal)]).archived
    let options := String.ofList (Spelling.write ⟨true, true⟩ bs)
    let ms : Members := [("options", .str options)]
    options = "eyJzaWduYWwiOnsia3h4Ijoid0R-YW1-dFN-U1B-In19" ∧
      readBytes bs = .ok (.obj [("signal", signal)]) ∧ among? [("signal", signal)] = some signal ∧
      among? ms = none ∧ ofContent? (.obj ms) ≠ some signal ∧
      ofContent? (.obj ms) = some (.obj [("kxx", .str "wDX[WE5MA")]) := by
  decide +kernel

end ChainFold.Signal
