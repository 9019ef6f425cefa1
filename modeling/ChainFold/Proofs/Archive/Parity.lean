import ChainFold.Proofs.Archive

/-!
# Files answer like memory

What an archive answers depends on the first bytes that were put under each text, and on nothing
else: not on where they are kept.  So an archive in files and one in memory answer every sequence
of calls alike, as long as the texts have places of their own.  Bytes come to their place through
a temporary file, which is never taken for that of a text.
-/

namespace ChainFold

/-! ## Leaving out a row -/

namespace Table

variable {α : Type}

def without (t : Table α) (key : Key) : Table α :=
  ⟨t.rows.filter fun row => decide (row.1 ≠ key), t.ascending.filter _⟩

theorem lookup_filter_ne (key other : Key) (rows : List (Key × α)) :
    lookup other (rows.filter fun row => decide (row.1 ≠ key)) =
      if other = key then none else lookup other rows := by
  induction rows with
  | nil => simp [lookup]
  | cons row rest ih =>
      obtain ⟨k, a⟩ := row
      by_cases hk : k = key
      · subst hk
        by_cases ho : other = k
        · simpa [ho] using ih
        · simpa [ho, lookup, Ne.symm ho] using ih
      · by_cases ho : k = other
        · subst ho
          simp [lookup, hk]
        · simpa [lookup, hk, ho] using ih

theorem get?_without (t : Table α) (key other : Key) :
    (t.without key).get? other = if other = key then none else t.get? other :=
  lookup_filter_ne key other t.rows

end Table

namespace Archive

/-! ## Calls -/

inductive Call where
  | put (cid : String) (bs : Bytes)
  | get (cid : String)
  | has (cid : String)
  | putEvent (cid : String) (prev genesis : Json) (blocks : List Block)
  | getEvent (cid : String)

inductive Answer where
  | written (fresh : Bool)
  | bytes (found : Option Bytes)
  | held (present : Bool)
  | event (found : Option Event)
  deriving DecidableEq

def Call.cid : Call → String
  | .put c _ | .get c | .has c | .putEvent c _ _ _ | .getEvent c => c

def carry (a : Archive) : Call → Except Failure Answer × Archive
  | .put c bs => ((a.putBlock (.str c) (.bytes bs)).1.map .written,
      (a.putBlock (.str c) (.bytes bs)).2)
  | .get c => ((a.get (.str c)).map .bytes, a)
  | .has c => ((a.has (.str c)).map .held, a)
  | .putEvent c prev genesis blocks =>
    match a.putEvent ⟨.str c, prev, genesis, blocks⟩ with
    | .ok (fresh, a') => (.ok (.written fresh), a')
    | .error f => (.error f, a)
  | .getEvent c => ((a.getEvent (.str c)).map .event, a)

def after (a : Archive) (calls : List Call) : Archive := calls.foldl (fun a c => (a.carry c).2) a

theorem after_cons (a : Archive) (call : Call) (rest : List Call) :
    a.after (call :: rest) = (a.carry call).2.after rest := rfl

def answers (a : Archive) : List Call → List (Except Failure Answer)
  | [] => []
  | c :: rest => (a.carry c).1 :: answers (a.carry c).2 rest

/-- The bytes that a call puts under a text; an event without an envelope puts none. -/
def Call.bytesFor? (c : String) : Call → Option Bytes
  | .put c' bs => if c' = c then some bs else none
  | .putEvent c' prev genesis blocks =>
    if c' = c then (Event.envelope ⟨.str c', prev, genesis, blocks⟩).toOption else none
  | _ => none

theorem Call.bytesFor?_putEvent {c : String} {prev genesis : Json} {blocks : List Block}
    {bs : Bytes} (h : Event.envelope ⟨.str c, prev, genesis, blocks⟩ = .ok bs) (c' : String) :
    (Call.putEvent c prev genesis blocks).bytesFor? c' = if c = c' then some bs else none := by
  rw [Call.bytesFor?, h]
  rfl

/-- The first bytes that are put under a text. -/
def firstPut? (calls : List Call) (c : String) : Option Bytes := calls.findSome? (Call.bytesFor? c)

/-- The answer to a call where certain bytes are kept under each text. -/
def expected (kept : String → Option Bytes) : Call → Except Failure Answer
  | .put c _ => .ok (.written (kept c).isNone)
  | .get c => .ok (.bytes (kept c))
  | .has c => .ok (.held (kept c).isSome)
  | .putEvent c prev genesis blocks =>
    match Event.envelope ⟨.str c, prev, genesis, blocks⟩ with
    | .ok _ => .ok (.written (kept c).isNone)
    | .error d => .error (.defect d)
  | .getEvent c =>
    match kept c with
    | none => .ok (.event none)
    | some bs => (Event.ofEnvelope bs).map fun e => .event (some e)

/-! ## What is kept -/

/-- An archive with room that keeps certain bytes under texts with keys of their own. -/
structure Keeps (cids : List String) (kept : String → Option Bytes) (a : Archive) : Prop where
  apart : a.TellsApart cids
  takesAll : a.TakesAll
  get_eq : ∀ c ∈ cids, a.get (.str c) = .ok (kept c)

theorem has_text (a : Archive) (c : String) : a.has (.str c) = .ok (a.holds (a.keyOfText c)) := by
  rw [has, keyOf_text, map_ok]

theorem putBlock_bytes (a : Archive) (cid : Json) (bs : Bytes) :
    a.putBlock cid (.bytes bs) =
      match a.put cid bs with
      | .ok (fresh, a') => (.ok fresh, a')
      | .error f => (.error f, a) := by
  unfold putBlock put
  cases a.keyOf cid with
  | error f => rfl
  | ok k =>
      simp only [ok_bind]
      cases hholds : a.holds k with
      | true => cases a <;> rfl
      | false => cases a.checkRoom cid <;> cases a <;> rfl

namespace Keeps

variable {cids : List String} {kept : String → Option Bytes} {a : Archive} {c : String}

theorem holds_eq (h : a.Keeps cids kept) (hc : c ∈ cids) :
    a.holds (a.keyOfText c) = (kept c).isSome :=
  holds_of_get (h.get_eq c hc)

/-- Bytes are put under a text exactly if there are none yet, and under no other text. -/
theorem put (h : a.Keeps cids kept) (hc : c ∈ cids) (bs : Bytes) :
    ∃ a', a.put (.str c) bs = .ok ((kept c).isNone, a') ∧ ((kept c).isSome = true → a' = a) ∧
      a'.Keeps cids fun x => (kept x).or (if c = x then some bs else none) := by
  cases hkept : kept c with
  | some bs₀ =>
      refine ⟨a, put_of_holds (by rw [h.holds_eq hc, hkept]; rfl) bs, fun _ => rfl,
        h.apart, h.takesAll, fun x hx => ?_⟩
      rw [h.get_eq x hx]
      by_cases hcx : c = x
      · subst hcx
        rw [hkept]
        rfl
      · rw [if_neg hcx, Option.or_none]
  | none =>
      have hfree : ¬ a.holds (a.keyOfText c) = true := by simp [h.holds_eq hc, hkept]
      refine ⟨a.write (a.keyOfText c) bs, ?_, by simp, ?_, ?_, ?_⟩
      · rw [put_text, if_neg hfree, (checkRoom_eq_ok_iff a _).mpr h.takesAll]
        rfl
      · rw [tellsApart_write]
        exact h.apart
      · rw [takesAll_write]
        exact h.takesAll
      · intro x hx
        by_cases hcx : c = x
        · subst hcx
          rw [get_write_self, hkept, if_pos rfl]
          rfl
        · have hne : a.keyOfText c ≠ a.keyOfText x := fun heq => hcx (h.apart.eq_of_key hc hx heq)
          rw [get_write_of_ne hne, h.get_eq x hx, if_neg hcx, Option.or_none]

/-- Each call is answered by what is kept, and leaves more kept only where there was nothing. -/
theorem carry (h : a.Keeps cids kept) {call : Call} (hc : call.cid ∈ cids) :
    (a.carry call).1 = expected kept call ∧
      ((kept call.cid).isSome = true → (a.carry call).2 = a) ∧
      (a.carry call).2.Keeps cids fun x => (kept x).or (call.bytesFor? x) := by
  have hsame : a.Keeps cids fun x => (kept x).or none := by
    simpa only [Option.or_none] using h
  cases call with
  | put c bs =>
      obtain ⟨a', hput, hstays, hkeeps⟩ := h.put (c := c) hc bs
      rw [Archive.carry, putBlock_bytes, hput]
      exact ⟨rfl, hstays, hkeeps⟩
  | get c => exact ⟨by rw [Archive.carry, h.get_eq c hc]; rfl, fun _ => rfl, hsame⟩
  | has c => exact ⟨by rw [Archive.carry, has_text, h.holds_eq (c := c) hc]; rfl,
      fun _ => rfl, hsame⟩
  | putEvent c prev genesis blocks =>
      cases henvelope : Event.envelope ⟨.str c, prev, genesis, blocks⟩ with
      | error d =>
          have hput : a.putEvent ⟨.str c, prev, genesis, blocks⟩ = .error (.defect d) := by
            rw [putEvent, henvelope]
          rw [Archive.carry, hput, expected, henvelope]
          refine ⟨rfl, fun _ => rfl, ?_⟩
          simpa [Call.bytesFor?, henvelope, Except.toOption] using h
      | ok bs =>
          obtain ⟨a', hput, hstays, hkeeps⟩ := h.put (c := c) hc bs
          have hput' : a.putEvent ⟨.str c, prev, genesis, blocks⟩ =
              .ok ((kept c).isNone, a') := by
            rw [putEvent, henvelope]
            exact hput
          rw [Archive.carry, hput', expected, henvelope]
          refine ⟨rfl, hstays, ?_⟩
          simpa only [Call.bytesFor?_putEvent henvelope] using hkeeps
  | getEvent c =>
      refine ⟨?_, fun _ => rfl, hsame⟩
      rw [Archive.carry, getEvent, h.get_eq c hc, ok_bind, expected]
      dsimp only [Call.cid]
      rcases kept c with _ | bs
      · rfl
      · dsimp only
        cases Event.ofEnvelope bs <;> rfl

/-- A sequence of calls adds the first bytes that it puts where there was nothing. -/
theorem after {calls : List Call} (h : a.Keeps cids kept)
    (hcids : ∀ call ∈ calls, call.cid ∈ cids) :
    (a.after calls).Keeps cids fun x => (kept x).or (firstPut? calls x) := by
  induction calls generalizing a kept with
  | nil => simpa only [Archive.after, List.foldl_nil, firstPut?, List.findSome?_nil,
      Option.or_none] using h
  | cons call rest ih =>
      obtain ⟨hcall, hrest⟩ := List.forall_mem_cons.mp hcids
      have hkeeps := ih (h.carry hcall).2.2 hrest
      rw [after_cons]
      have hfirst : ∀ x, firstPut? (call :: rest) x =
          (call.bytesFor? x).or (firstPut? rest x) := by
        intro x
        rw [firstPut?, List.findSome?_cons]
        cases call.bytesFor? x <;> rfl
      simpa only [hfirst, ← Option.or_assoc] using hkeeps

theorem answers_eq {a' : Archive} {calls : List Call} (h : a.Keeps cids kept)
    (h' : a'.Keeps cids kept) (hcids : ∀ call ∈ calls, call.cid ∈ cids) :
    a.answers calls = a'.answers calls := by
  induction calls generalizing a a' kept with
  | nil => rfl
  | cons call rest ih =>
      obtain ⟨hcall, hrest⟩ := List.forall_mem_cons.mp hcids
      obtain ⟨hanswer, -, hkeeps⟩ := h.carry hcall
      obtain ⟨hanswer', -, hkeeps'⟩ := h'.carry hcall
      rw [answers, answers, hanswer, hanswer', ih hkeeps hkeeps' hrest]

end Keeps

theorem IsEmpty.keeps {a : Archive} {cids : List String} (h : a.IsEmpty)
    (hapart : a.TellsApart cids) (htakes : a.TakesAll) : a.Keeps cids fun _ => none :=
  ⟨hapart, htakes, fun c _ => h.get_eq c⟩

/-- An archive behind a sequence of calls that has kept, under each text, what was put first. -/
structure KeepsFirst (cids : List String) (calls : List Call) (a : Archive) : Prop where
  get_eq : ∀ c ∈ cids, a.get (.str c) = .ok (firstPut? calls c)
  answer_eq : ∀ call : Call, call.cid ∈ cids → (a.carry call).1 = expected (firstPut? calls) call
  /-- Where bytes were put before, a call changes nothing. -/
  stays : ∀ call : Call, call.cid ∈ cids → (firstPut? calls call.cid).isSome = true →
    (a.carry call).2 = a
  /-- No call changes what is found under another text. -/
  elsewhere : ∀ call : Call, call.cid ∈ cids → ∀ c ∈ cids, call.cid ≠ c →
    (a.carry call).2.get (.str c) = a.get (.str c)

theorem Call.bytesFor?_of_ne {call : Call} {c : String} (h : call.cid ≠ c) :
    call.bytesFor? c = none := by
  cases call with
  | put c' bs => exact if_neg h
  | putEvent c' prev genesis blocks => exact if_neg h
  | get c' => rfl
  | has c' => rfl
  | getEvent c' => rfl

theorem Keeps.keepsFirst {a : Archive} {cids : List String} {calls : List Call}
    (h : a.Keeps cids (firstPut? calls)) : a.KeepsFirst cids calls where
  get_eq := h.get_eq
  answer_eq call hcall := (h.carry hcall).1
  stays call hcall := (h.carry hcall).2.1
  elsewhere call hcall c hc hne := by
    rw [(h.carry hcall).2.2.get_eq c hc, Call.bytesFor?_of_ne hne, Option.or_none, h.get_eq c hc]

/-! ## Temporary files -/

/-- The place of a temporary file beside that of a text, below the root. -/
def temporaryPlace (c token : String) : String := s!"{shard c}/.tmp_{token}.block"

theorem toList_temporaryPlace (c token : String) : (temporaryPlace c token).toList =
    (shard c).toList ++ ('/' :: '.' :: ("tmp_".toList ++ token.toList ++ ".block".toList)) := by
  simp [temporaryPlace, toString]

theorem exists_head_fileName (c : String) :
    ∃ mark rest, mark ≠ '.' ∧ (fileName c).toList = mark :: rest := by
  by_cases hlong : Overlong c
  · exact ⟨'h', _, by decide, toList_fileName_of_overlong hlong⟩
  · exact ⟨'b', _, by decide, toList_fileName_of_not_overlong hlong⟩

theorem temporaryPlace_ne_place (c token c' : String) : temporaryPlace c token ≠ place c' := by
  intro h
  obtain ⟨mark, rest, hmark, hname⟩ := exists_head_fileName c'
  have hchars := congrArg String.toList h
  rw [toList_temporaryPlace, toList_place, hname] at hchars
  have hlength : (shard c).toList.length = (shard c').toList.length := by
    rw [String.length_toList, String.length_toList, length_shard, length_shard]
  obtain ⟨-, hbehind⟩ := List.append_inj hchars hlength
  obtain ⟨-, hbehind⟩ := List.cons.inj hbehind
  exact hmark (List.cons.inj hbehind).1.symm

/-- The disk with certain bytes in a temporary file. -/
def Disk.withTemporary (disk : Disk) (c token : String) (bs : Bytes) : Disk :=
  { disk with entries := disk.entries.insert (.text (temporaryPlace c token)) (.file bs) }

/-- The disk with the temporary file, if there is one, moved to the place of the text. -/
def Disk.moveTemporary (disk : Disk) (c token : String) : Disk :=
  match disk.entries.get? (.text (temporaryPlace c token)) with
  | some entry =>
    { disk with entries :=
        (disk.entries.without (.text (temporaryPlace c token))).insert (.text (place c)) entry }
  | none => disk

theorem get_withTemporary (disk : Disk) (c token c' : String) (bs : Bytes) :
    (files (disk.withTemporary c token bs)).get (.str c') = (files disk).get (.str c') := by
  have hne : Key.text (temporaryPlace c token) ≠ .text (place c') := fun h =>
    temporaryPlace_ne_place c token c' (Key.text.inj h)
  rw [get, get, keyOf_text, keyOf_text]
  simp only [ok_bind, keyOfText, Disk.withTemporary, Table.get?_insert_of_ne hne]
  rfl

/-- Whatever a temporary file has, the texts keep what they keep without it. -/
theorem Keeps.withTemporary {disk : Disk} {cids : List String} {kept : String → Option Bytes}
    (h : (files disk).Keeps cids kept) (c token : String) (bs : Bytes) :
    (files (disk.withTemporary c token bs)).Keeps cids kept :=
  ⟨h.apart, h.takesAll, fun x hx => by rw [get_withTemporary, h.get_eq x hx]⟩

/-- A temporary file that is filled and moved leaves its bytes under the text, and nothing else. -/
theorem moveTemporary_withTemporary (disk : Disk) (c token : String) (bs : Bytes)
    (hfree : disk.entries.has (.text (temporaryPlace c token)) = false) :
    files (((disk.withTemporary c token []).withTemporary c token bs).moveTemporary c token) =
      (files disk).write (.text (place c)) bs := by
  have hnone := Table.has_eq_false_iff.mp hfree
  have hne : Key.text (temporaryPlace c token) ≠ .text (place c) := fun h =>
    temporaryPlace_ne_place c token c (Key.text.inj h)
  simp only [Disk.moveTemporary, Disk.withTemporary, Table.get?_insert_self, write]
  refine congrArg (fun entries => files { disk with entries }) (Table.ext_get? fun k => ?_)
  simp only [Table.get?_insert, Table.get?_without]
  by_cases hk : k = .text (temporaryPlace c token)
  · subst hk
    simp [hnone, hne.symm]
  · simp [hk, Ne.symm hk]

/-- Bytes come to a disk by way of temporary files, which no text is answered from. -/
structure Disk.Stages (disk : Disk) (cids : List String) : Prop where
  /-- Whatever is in a temporary file, each sequence of calls is answered as without it. -/
  answers_eq : ∀ (c token : String) (bs : Bytes) (calls : List Call),
    (∀ call ∈ calls, call.cid ∈ cids) →
      (files (disk.withTemporary c token bs)).answers calls = (files disk).answers calls
  /-- Bytes are put by making a temporary file with a new name, filling it and moving it. -/
  put_eq : ∀ (c token : String) (bs : Bytes),
    (files disk).holds (.text (place c)) = false →
    disk.entries.has (.text (temporaryPlace c token)) = false →
      (files disk).put (.str c) bs = .ok (true,
        files (((disk.withTemporary c token []).withTemporary c token bs).moveTemporary c token))

theorem Keeps.stages {disk : Disk} {cids : List String} {kept : String → Option Bytes}
    (h : (files disk).Keeps cids kept) : disk.Stages cids where
  answers_eq c token bs _ hcids := (h.withTemporary c token bs).answers_eq h hcids
  put_eq c token bs hfree hname := by
    have hput := put_text (files disk) c bs
    rw [if_neg (by rw [keyOfText, hfree]; decide), (checkRoom_eq_ok_iff _ _).mpr h.takesAll,
      ok_bind] at hput
    rw [hput, moveTemporary_withTemporary disk c token bs hname]
    rfl

/-! ## Files and memory -/

theorem put_isFiles {a a' : Archive} {c : String} {bs : Bytes} {written : Bool}
    (h : a.put (.str c) bs = .ok (written, a')) : a'.isFiles = a.isFiles := by
  rcases put_eq_ok h with ⟨-, rfl⟩ | ⟨-, rfl⟩
  · rfl
  · cases a <;> rfl

theorem carry_isFiles (a : Archive) (call : Call) : (a.carry call).2.isFiles = a.isFiles := by
  cases call with
  | put c bs =>
      rw [carry, putBlock_bytes]
      cases hput : a.put (.str c) bs with
      | error f => rfl
      | ok p => exact put_isFiles hput
  | putEvent c prev genesis blocks =>
      rw [carry, putEvent]
      cases Event.envelope ⟨.str c, prev, genesis, blocks⟩ with
      | error d => rfl
      | ok bs =>
          dsimp only
          cases hput : a.put (.str c) bs with
          | error f => rfl
          | ok p => exact put_isFiles hput
  | get c => rfl
  | has c => rfl
  | getEvent c => rfl

theorem after_isFiles (a : Archive) (calls : List Call) :
    (a.after calls).isFiles = a.isFiles := by
  induction calls generalizing a with
  | nil => rfl
  | cons call rest ih => rw [after_cons, ih, carry_isFiles]

theorem exists_disk {a : Archive} (h : a.isFiles = true) : ∃ disk, a = files disk := by
  cases a with
  | memory blocks => cases h
  | files disk => exact ⟨disk, rfl⟩

theorem files_answer_like_memory {cids : List String} {calls : List Call}
    (hapart : DigestsApart cids) (hcids : ∀ call ∈ calls, call.cid ∈ cids) (root : String) :
    (below root true).answers calls = inMemory.answers calls ∧
      (inMemory.after calls).KeepsFirst cids calls ∧
      ∃ disk, (below root true).after calls = files disk ∧
        (files disk).KeepsFirst cids calls ∧ disk.Stages cids := by
  have hmemory : inMemory.Keeps cids fun _ => none :=
    IsEmpty.keeps (a := inMemory) rfl trivial trivial
  have hfiles : (below root true).Keeps cids fun _ => none :=
    IsEmpty.keeps (a := below root true) rfl hapart rfl
  have hbehind : ((below root true).after calls).Keeps cids (firstPut? calls) := by
    simpa only [Option.none_or] using hfiles.after hcids
  obtain ⟨disk, hdisk⟩ := exists_disk (after_isFiles (below root true) calls)
  rw [hdisk] at hbehind
  refine ⟨hfiles.answers_eq hmemory hcids, Keeps.keepsFirst ?_, disk, hdisk, hbehind.keepsFirst,
    hbehind.stages⟩
  simpa only [Option.none_or] using hmemory.after hcids

/-- Texts that could be confused as file names, one of them too long for one. -/
def sampleTexts : List String :=
  ["", "../x", "A", "a", String.ofList (List.replicate 130 'a')]

def sampleCalls : List Call :=
  [.put "A" [1], .put "a" [2], .put "A" [3], .putEvent "../x" .null (.str "../x") [.bytes [4]],
    .has "", .put (String.ofList (List.replicate 130 'a')) [5], .get "A", .getEvent "../x"]

theorem files_answer_like_memory_sample :
    DigestsApart sampleTexts ∧ (∀ call ∈ sampleCalls, call.cid ∈ sampleTexts) ∧
      (below "blocks" true).answers sampleCalls = inMemory.answers sampleCalls ∧
      ((inMemory.after sampleCalls).carry (.put "A" [9])).1 = .ok (.written false) ∧
      ((below "blocks" true).after sampleCalls).get (.str "A") = .ok (some [1]) := by
  have hapart : DigestsApart sampleTexts := by
    unfold DigestsApart
    decide +kernel
  have hcids : ∀ call ∈ sampleCalls, call.cid ∈ sampleTexts := by decide +kernel
  obtain ⟨hanswers, hmemory, disk, hdisk, hfiles, -⟩ :=
    files_answer_like_memory hapart hcids "blocks"
  refine ⟨hapart, hcids, hanswers, ?_, ?_⟩
  · rw [hmemory.answer_eq (.put "A" [9]) (by decide +kernel)]
    rfl
  · rw [hdisk, hfiles.get_eq "A" (by decide +kernel)]
    rfl

end Archive

end ChainFold
