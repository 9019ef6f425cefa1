import ChainFold.Json.Printer
import ChainFold.Proofs.Json.Reading
import ChainFold.Proofs.Text.Codes

/-!
# What is written is read back

A value is read back if its text, followed by anything that can stand behind a value,
is read as the value.  Texts of strings are, whichever way their characters are
escaped; and an array or an object is if its parts are.  What is left to show of a
value is thus that its numbers are read back.
-/

namespace ChainFold.Json

/-! ## Strings -/

theorem hex?_hexDigit : ∀ n < 16, hex? (Text.hexDigit n) = some n := by decide

theorem exists_hexDigits {n : Nat} (h : n < 0x10000) :
    ∃ a b c d, Text.hexDigits 4 n = [a, b, c, d] ∧ unit? a b c d = some n := by
  have hunit : unit? (Text.hexDigit (n / 16 / 16 / 16 % 16)) (Text.hexDigit (n / 16 / 16 % 16))
      (Text.hexDigit (n / 16 % 16)) (Text.hexDigit (n % 16)) = some n := by
    simp only [unit?, hex?_hexDigit _ (Nat.mod_lt _ (by decide : 0 < 16)), Option.bind_eq_bind,
      Option.bind_some, Option.pure_def, Option.some.injEq]
    omega
  exact ⟨_, _, _, _, rfl, hunit⟩

/-- A unit that is no half of a pair stands for a character. -/
theorem readString_unitEscape {n : Nat} (h : n < 0x10000) (hlead : isLead n = false)
    (htrail : isTrail n = false) (t : List Char) :
    readString (unitEscape n ++ t) = consRead (Char.ofNat n) (readString t) := by
  obtain ⟨a, b, c, d, hdigits, hunit⟩ := exists_hexDigits h
  rw [unitEscape, hdigits]
  simp [readString, hunit, hlead, htrail]

/-- A pair of units stands for a character beyond the first plane. -/
theorem readString_pair {n : Nat} (h : n < 0x100000) (t : List Char) :
    readString (unitEscape (0xd800 + n / 0x400) ++ unitEscape (0xdc00 + n % 0x400) ++ t) =
      consRead (Char.ofNat (0x10000 + n)) (readString t) := by
  obtain ⟨a, b, c, d, hfirst, hlead⟩ := exists_hexDigits (n := 0xd800 + n / 0x400) (by omega)
  obtain ⟨a', b', c', d', hsecond, htrail⟩ := exists_hexDigits (n := 0xdc00 + n % 0x400) (by omega)
  have hislead : isLead (0xd800 + n / 0x400) = true := by
    simp only [isLead, Bool.and_eq_true, decide_eq_true_eq]
    omega
  have histrail : isTrail (0xdc00 + n % 0x400) = true := by
    simp only [isTrail, Bool.and_eq_true, decide_eq_true_eq]
    omega
  have hjoin : 0x10000 + n / 0x400 * 0x400 + n % 0x400 = 0x10000 + n := by omega
  rw [unitEscape, unitEscape, hfirst, hsecond]
  simp [readString, hlead, hislead, htrail, histrail, hjoin]

theorem readString_self {c : Char} (hquote : c ≠ '"') (hslash : c ≠ '\\')
    (h : ¬ c.toNat < 0x20) (t : List Char) :
    readString (c :: t) = consRead c (readString t) := by
  rw [readString.eq_5]
  · simp [h, hslash]
  all_goals simp_all

theorem half_eq_false (c : Char) : isLead c.toNat = false ∧ isTrail c.toNat = false := by
  have hvalid : c.toNat < 0xd800 ∨ 0xdfff < c.toNat ∧ c.toNat < 0x110000 := c.valid
  constructor
  · simp only [isLead, Bool.and_eq_false_iff, decide_eq_false_iff_not]
    omega
  · simp only [isTrail, Bool.and_eq_false_iff, decide_eq_false_iff_not]
    omega

/-- A character of a string is read back, escaped or not. -/
theorem readString_escapeChar (ascii : Bool) (c : Char) (t : List Char) :
    readString (escapeChar ascii c ++ t) = consRead c (readString t) := by
  have hvalid : c.toNat < 0xd800 ∨ 0xdfff < c.toNat ∧ c.toNat < 0x110000 := c.valid
  obtain ⟨hlead, htrail⟩ := half_eq_false c
  unfold escapeChar
  split_ifs with h1 h2 h3 h4 h5 h6 h7 h8 h9 h10
  · rw [eq_of_beq h1]
    rfl
  · rw [eq_of_beq h2]
    rfl
  · rw [eq_of_beq h3]
    rfl
  · rw [eq_of_beq h4]
    rfl
  · rw [eq_of_beq h5]
    rfl
  · rw [eq_of_beq h6]
    rfl
  · rw [eq_of_beq h7]
    rfl
  · rw [readString_unitEscape (by omega) hlead htrail, Char.ofNat_toNat]
  · exact readString_self (by simpa using h1) (by simpa using h2) h8 t
  · rw [readString_unitEscape h10 hlead htrail, Char.ofNat_toNat]
  · have hsum : 0x10000 + (c.toNat - 0x10000) = c.toNat := by omega
    simp only
    rw [readString_pair (by omega), hsum, Char.ofNat_toNat]

theorem readString_flatMap (ascii : Bool) (cs rest : List Char) :
    readString (cs.flatMap (escapeChar ascii) ++ '"' :: rest) = .ok (cs, rest) := by
  induction cs with
  | nil => simp [readString]
  | cons c cs ih =>
      rw [List.flatMap_cons, List.append_assoc, readString_escapeChar, ih]
      rfl

/-- The text of a string without its opening quote is read as the string. -/
theorem readString_stringText (ascii : Bool) (s : String) (rest : List Char) :
    stringText ascii s ++ rest =
        '"' :: (s.toList.flatMap (escapeChar ascii) ++ '"' :: rest) ∧
      readString (s.toList.flatMap (escapeChar ascii) ++ '"' :: rest) = .ok (s.toList, rest) := by
  refine ⟨?_, readString_flatMap ascii s.toList rest⟩
  simp [stringText]

/-! ## Values -/

/-- The layout without blanks. -/
def tight (ascii : Bool) : Style := ⟨ascii, [','], [':']⟩

/-- What can stand behind a value: nothing, or a mark that ends it. -/
def Closes : List Char → Prop
  | [] => True
  | c :: _ => c = ',' ∨ c = ']' ∨ c = '\x7d'

/-- The text of a value is read as the value, whatever stands behind. -/
structure ReadBack (ascii : Bool) (j : Json) : Prop where
  /-- The text starts with a character that is no gap and ends no array. -/
  starts : ∃ c rest, print (tight ascii) j = c :: rest ∧ isGap c = false ∧ c ≠ ']'
  reads : ∀ fuel rest, (print (tight ascii) j).length ≤ fuel → Closes rest →
    readValue fuel (print (tight ascii) j ++ rest) = .ok (j, rest)

variable {ascii : Bool}

theorem skipGap_cons {c : Char} (h : isGap c = false) (rest : List Char) :
    skipGap (c :: rest) = c :: rest := by
  simp [skipGap, h]

theorem ReadBack.skipGap {j : Json} (h : ReadBack ascii j) (rest : List Char) :
    skipGap (print (tight ascii) j ++ rest) = print (tight ascii) j ++ rest := by
  obtain ⟨c, more, htext, hgap, -⟩ := h.starts
  rw [htext]
  exact skipGap_cons hgap _

theorem readBack_null : ReadBack ascii .null := by
  refine ⟨⟨'n', _, rfl, rfl, by decide⟩, ?_⟩
  intro fuel rest hfuel _
  cases fuel with
  | zero => simp [print] at hfuel
  | succ fuel => rfl

theorem readBack_bool (b : Bool) : ReadBack ascii (.bool b) := by
  refine ⟨?_, ?_⟩
  · cases b
    · exact ⟨'f', _, rfl, rfl, by decide⟩
    · exact ⟨'t', _, rfl, rfl, by decide⟩
  · intro fuel rest hfuel _
    cases fuel with
    | zero => cases b <;> simp [print] at hfuel
    | succ fuel => cases b <;> rfl

theorem readBack_str (s : String) : ReadBack ascii (.str s) := by
  refine ⟨⟨'"', _, rfl, rfl, by decide⟩, ?_⟩
  intro fuel rest hfuel _
  obtain ⟨htext, hread⟩ := readString_stringText ascii s rest
  cases fuel with
  | zero => simp [print, stringText] at hfuel
  | succ fuel =>
      have hprint : print (tight ascii) (.str s) = stringText ascii s := by simp [print, tight]
      rw [hprint, htext]
      simp [readValue, hread]

/-! ### Arrays -/

theorem printItems_cons (st : Style) (j : Json) {rest : List Json} (hne : rest ≠ []) :
    printItems st (j :: rest) = print st j ++ (st.separator ++ printItems st rest) := by
  rw [printItems.eq_3]
  exact hne

theorem printItems_starts {j : Json} (h : ReadBack ascii j) (items : List Json) :
    ∃ c rest, printItems (tight ascii) (j :: items) = c :: rest ∧ isGap c = false ∧ c ≠ ']' := by
  obtain ⟨c, text, htext, hgap, hc⟩ := h.starts
  cases items with
  | nil => exact ⟨c, text, by rw [printItems, htext], hgap, hc⟩
  | cons k items =>
      have hsplit := printItems_cons (tight ascii) j (List.cons_ne_nil k items)
      rw [htext, List.cons_append] at hsplit
      exact ⟨c, _, hsplit, hgap, hc⟩

theorem skipGap_printItems {j : Json} (h : ReadBack ascii j) (items : List Json)
    (more : List Char) : skipGap (printItems (tight ascii) (j :: items) ++ more) =
      printItems (tight ascii) (j :: items) ++ more := by
  obtain ⟨c, text, htext, hgap, -⟩ := printItems_starts h items
  rw [htext]
  exact skipGap_cons hgap _

theorem readItems_comma {fuel : Nat} {cs rest rest' : List Char} {j : Json} {js : List Json}
    (hfirst : readValue fuel cs = .ok (j, ',' :: rest)) (hgap : skipGap rest = rest)
    (hothers : readItems fuel rest = .ok (js, rest')) :
    readItems (fuel + 1) cs = .ok (j :: js, rest') := by
  have hcomma : skipGap (',' :: rest) = ',' :: rest := skipGap_cons (by decide) rest
  simp [readItems, hfirst, hcomma, hgap, hothers]

theorem readItems_printItems {items : List Json} (hne : items ≠ [])
    (h : ∀ j ∈ items, ReadBack ascii j) :
    ∀ fuel rest, (printItems (tight ascii) items).length < fuel →
      readItems fuel (printItems (tight ascii) items ++ ']' :: rest) = .ok (items, rest) := by
  induction items with
  | nil => exact absurd rfl hne
  | cons j items ih =>
      intro fuel rest hfuel
      have hj := h j List.mem_cons_self
      cases fuel with
      | zero => exact absurd hfuel (Nat.not_lt_zero _)
      | succ fuel =>
          cases items with
          | nil =>
              rw [printItems] at hfuel ⊢
              rw [readItems, hj.reads fuel _ (by omega) (by simp [Closes]), ok_bind]
              rfl
          | cons k items =>
              have hitems : ∀ i ∈ k :: items, ReadBack ascii i :=
                fun i hi => h i (List.mem_cons_of_mem _ hi)
              have hsplit := printItems_cons (tight ascii) j (List.cons_ne_nil k items)
              have hlength : (printItems (tight ascii) (j :: k :: items)).length =
                  (print (tight ascii) j).length +
                    ((printItems (tight ascii) (k :: items)).length + 1) := by
                rw [hsplit]
                simp [tight]
              have hfirst := hj.reads fuel
                (',' :: (printItems (tight ascii) (k :: items) ++ ']' :: rest)) (by omega)
                (by simp [Closes])
              rw [hsplit, List.append_assoc]
              exact readItems_comma hfirst (skipGap_printItems (hitems k List.mem_cons_self) _ _)
                (ih (List.cons_ne_nil k items) hitems fuel rest (by omega))

/-- Behind an opening bracket that nothing closes at once, items are read. -/
theorem readValue_bracket {fuel : Nat} {c : Char} (hgap : isGap c = false) (hc : c ≠ ']')
    {cs rest : List Char} {items : List Json}
    (h : readItems fuel (c :: cs) = .ok (items, rest)) :
    readValue (fuel + 1) ('[' :: c :: cs) = .ok (.arr items, rest) := by
  simp [readValue, skipGap_cons hgap, hc, h]

theorem readBack_arr {items : List Json} (h : ∀ j ∈ items, ReadBack ascii j) :
    ReadBack ascii (.arr items) := by
  refine ⟨⟨'[', _, rfl, rfl, by decide⟩, ?_⟩
  intro fuel rest hfuel _
  cases fuel with
  | zero => simp [print] at hfuel
  | succ fuel =>
      rw [print] at hfuel ⊢
      simp only [List.length_cons, List.length_append, List.length_nil] at hfuel
      cases items with
      | nil => rfl
      | cons j items =>
          have hread := readItems_printItems (List.cons_ne_nil j items) h fuel rest (by omega)
          obtain ⟨c, text, htext, hgap, hc⟩ := printItems_starts (h j List.mem_cons_self) items
          rw [List.cons_append, List.append_assoc, htext]
          rw [htext] at hread
          exact readValue_bracket hgap hc hread

/-! ### Objects -/

theorem printMembers_cons (st : Style) (k : String) (j : Json) {rest : Members}
    (hne : rest ≠ []) : printMembers st ((k, j) :: rest) =
      stringText st.ascii k ++
        (st.colon ++ (print st j ++ (st.separator ++ printMembers st rest))) := by
  rw [printMembers.eq_3]
  exact hne

theorem printMembers_starts (ascii : Bool) (m : String × Json) (ms : Members) :
    ∃ rest, printMembers (tight ascii) (m :: ms) = '"' :: rest := by
  obtain ⟨k, j⟩ := m
  cases ms with
  | nil => exact ⟨_, by rw [printMembers]; rfl⟩
  | cons n ms => exact ⟨_, by rw [printMembers_cons _ _ _ (List.cons_ne_nil n ms)]; rfl⟩

/-- A member before the closing brace is the last. -/
theorem readMembers_brace {fuel : Nat} {cs vs rest : List Char} {k : List Char} {j : Json}
    (hkey : readString cs = .ok (k, ':' :: vs)) (hgap : skipGap vs = vs)
    (hvalue : readValue fuel vs = .ok (j, '\x7d' :: rest)) :
    readMembers (fuel + 1) ('"' :: cs) = .ok ([(String.ofList k, j)], rest) := by
  have hcolon : skipGap (':' :: vs) = ':' :: vs := skipGap_cons (by decide) vs
  have hbrace : skipGap ('\x7d' :: rest) = '\x7d' :: rest := skipGap_cons (by decide) rest
  simp [readMembers, hkey, hcolon, hgap, hvalue, hbrace]

theorem readMembers_comma {fuel : Nat} {cs vs rest rest' : List Char} {k : List Char} {j : Json}
    {ms : Members} (hkey : readString cs = .ok (k, ':' :: vs)) (hgap : skipGap vs = vs)
    (hvalue : readValue fuel vs = .ok (j, ',' :: rest)) (hgap' : skipGap rest = rest)
    (hothers : readMembers fuel rest = .ok (ms, rest')) :
    readMembers (fuel + 1) ('"' :: cs) = .ok ((String.ofList k, j) :: ms, rest') := by
  have hcolon : skipGap (':' :: vs) = ':' :: vs := skipGap_cons (by decide) vs
  have hcomma : skipGap (',' :: rest) = ',' :: rest := skipGap_cons (by decide) rest
  simp [readMembers, hkey, hcolon, hgap, hvalue, hcomma, hgap', hothers]

theorem readMembers_printMembers {ms : Members} (hne : ms ≠ [])
    (h : ∀ m ∈ ms, ReadBack ascii m.2) :
    ∀ fuel rest, (printMembers (tight ascii) ms).length < fuel →
      readMembers fuel (printMembers (tight ascii) ms ++ '\x7d' :: rest) = .ok (ms, rest) := by
  induction ms with
  | nil => exact absurd rfl hne
  | cons m ms ih =>
      obtain ⟨k, j⟩ := m
      intro fuel rest hfuel
      have hj : ReadBack ascii j := h (k, j) List.mem_cons_self
      cases fuel with
      | zero => exact absurd hfuel (Nat.not_lt_zero _)
      | succ fuel =>
          cases ms with
          | nil =>
              have hsplit : printMembers (tight ascii) [(k, j)] =
                  stringText ascii k ++ (':' :: print (tight ascii) j) := by
                rw [printMembers]
                rfl
              rw [hsplit, List.length_append, List.length_cons] at hfuel
              obtain ⟨htext, hkey⟩ := readString_stringText ascii k
                (':' :: (print (tight ascii) j ++ '\x7d' :: rest))
              have hvalue := hj.reads fuel ('\x7d' :: rest) (by omega) (by simp [Closes])
              have hread := readMembers_brace hkey (hj.skipGap _) hvalue
              rw [hsplit, List.append_assoc, List.cons_append, htext, hread,
                String.ofList_toList]
          | cons n ms =>
              have hms : ∀ m ∈ n :: ms, ReadBack ascii m.2 :=
                fun m hm => h m (List.mem_cons_of_mem _ hm)
              have hsplit : printMembers (tight ascii) ((k, j) :: n :: ms) =
                  stringText ascii k ++ (':' :: (print (tight ascii) j ++
                    (',' :: printMembers (tight ascii) (n :: ms)))) :=
                printMembers_cons (tight ascii) k j (List.cons_ne_nil n ms)
              rw [hsplit] at hfuel
              simp only [List.length_append, List.length_cons] at hfuel
              have hothers := ih (List.cons_ne_nil n ms) hms fuel rest (by omega)
              have hgap : skipGap (printMembers (tight ascii) (n :: ms) ++ '\x7d' :: rest) =
                  printMembers (tight ascii) (n :: ms) ++ '\x7d' :: rest := by
                obtain ⟨text, htext⟩ := printMembers_starts ascii n ms
                rw [htext]
                exact skipGap_cons (by decide) _
              obtain ⟨htext, hkey⟩ := readString_stringText ascii k
                (':' :: (print (tight ascii) j ++
                  (',' :: (printMembers (tight ascii) (n :: ms) ++ '\x7d' :: rest))))
              have hvalue := hj.reads fuel
                (',' :: (printMembers (tight ascii) (n :: ms) ++ '\x7d' :: rest)) (by omega)
                (by simp [Closes])
              have hread := readMembers_comma hkey (hj.skipGap _) hvalue hgap hothers
              rw [hsplit]
              simp only [List.append_assoc, List.cons_append]
              rw [htext, hread, String.ofList_toList]

/-- Behind an opening brace and the quote of a key, members are read. -/
theorem readValue_brace {fuel : Nat} {cs rest : List Char} {ms : Members}
    (h : readMembers fuel ('"' :: cs) = .ok (ms, rest)) :
    readValue (fuel + 1) ('\x7b' :: '"' :: cs) = .ok (.obj (Members.ofPairs ms), rest) := by
  have hquote : skipGap ('"' :: cs) = '"' :: cs := skipGap_cons (by decide) cs
  simp [readValue, hquote, h]

theorem readBack_obj {ms : Members} (hn : ms.keys.Nodup) (h : ∀ m ∈ ms, ReadBack ascii m.2) :
    ReadBack ascii (.obj ms) := by
  refine ⟨⟨'\x7b', _, rfl, rfl, by decide⟩, ?_⟩
  intro fuel rest hfuel _
  cases fuel with
  | zero => simp [print] at hfuel
  | succ fuel =>
      rw [print] at hfuel ⊢
      simp only [List.length_cons, List.length_append, List.length_nil] at hfuel
      cases ms with
      | nil => rfl
      | cons m ms =>
          have hread := readMembers_printMembers (List.cons_ne_nil m ms) h fuel rest (by omega)
          obtain ⟨text, htext⟩ := printMembers_starts ascii m ms
          rw [htext] at hread
          rw [List.cons_append, List.append_assoc, htext]
          have hvalue := readValue_brace hread
          rw [Members.ofPairs_of_nodup hn] at hvalue
          exact hvalue

/-! ## Texts and octets -/

/-- A text that holds nothing but a value is read as the value. -/
theorem ReadBack.read_print {j : Json} (h : ReadBack ascii j) :
    read (print (tight ascii) j) = .ok j := by
  have hgap := h.skipGap []
  have hread := h.reads (2 * (print (tight ascii) j).length + 2) [] (by omega) trivial
  rw [List.append_nil] at hgap hread
  rw [read, hgap, hread]
  rfl

/-- The octets of the archived text of a value are read as the value with its keys in order. -/
theorem readBytes_archived {j : Json} (h : ReadBack true j.sortKeys) :
    readBytes (Text.utf8 j.archived) = .ok j.sortKeys := by
  have hread : read (print compactAscii j.sortKeys) = .ok j.sortKeys := h.read_print
  rw [readBytes, Text.ofUtf8?_utf8]
  dsimp only
  rw [readText, archived, String.toList_ofList, hread]

end ChainFold.Json
