import ChainFold.Fold.Recent
import Mathlib.Data.List.Dedup
import Mathlib.Data.List.DropRight

/-!
# The latest uses are held

A collection is one list of entries, but what it has to hold is said of its whole past: the
keys of its uses since it was cleared, each at its last use, and of these the latest ones for
which there is room.  A put and a hit are uses.  Every call keeps the list in step with the
past, so the two agree after any sequence of calls.
-/

namespace ChainFold.Fold.Recent

/-! ## Calls -/

/-- A cid that can be looked up, with its key. -/
structure Handle where
  cid : Json
  key : Key
  keyed : cid.key? = some key

inductive Call where
  | put (h : Handle) (s : State)
  | get (h : Handle)
  | has (h : Handle)
  | clear

inductive Answer where
  | done
  | found (s : Option State)
  | held (present : Bool)
  deriving DecidableEq

def carry (r : Recent) : Call → Answer × Recent
  | .put h s => (.done, r.put h.key h.cid s)
  | .get h => (.found (r.get h.key).1, (r.get h.key).2)
  | .has h => (.held (r.holds h.key), r)
  | .clear => (.done, r.clear)

def after (r : Recent) (calls : List Call) : Recent := calls.foldl (fun r c => (r.carry c).2) r

def record (r : Recent) : List Call → List (Call × Answer)
  | [] => []
  | c :: rest => (c, (r.carry c).1) :: record (r.carry c).2 rest

/-- The keys used since the last `clear`, with one more call: a put and a hit are uses. -/
def noteUse (used : List Key) : Call × Answer → List Key
  | (.put h _, _) => used ++ [h.key]
  | (.get h, .found (some _)) => used ++ [h.key]
  | (.clear, _) => []
  | _ => used

/-- The keys used since the last `clear`, in order. -/
def used (past : List (Call × Answer)) : List Key := past.foldl noteUse []

/-- The state that a call puts under a key. -/
def Call.puts? (k : Key) : Call → Option State
  | .put h s => if h.key = k then some s else none
  | _ => none

/-- The state of the last put under a key. -/
def lastPut? (k : Key) (calls : List Call) : Option State :=
  calls.reverse.findSome? (Call.puts? k)

def Call.isGet : Call → Bool
  | .get _ => true
  | _ => false

theorem after_concat (r : Recent) (calls : List Call) (c : Call) :
    r.after (calls ++ [c]) = ((r.after calls).carry c).2 := by
  simp [after]

theorem record_concat (r : Recent) (calls : List Call) (c : Call) :
    r.record (calls ++ [c]) = r.record calls ++ [(c, ((r.after calls).carry c).1)] := by
  induction calls generalizing r with
  | nil => rfl
  | cons first rest ih =>
      simp only [List.cons_append, record, ih]
      rfl

theorem used_concat (past : List (Call × Answer)) (p : Call × Answer) :
    used (past ++ [p]) = noteUse (used past) p := by
  simp [used]

theorem lastPut?_concat (k : Key) (calls : List Call) (c : Call) :
    lastPut? k (calls ++ [c]) = (c.puts? k).or (lastPut? k calls) := by
  rw [lastPut?, lastPut?, List.reverse_concat, List.findSome?_cons]
  cases c.puts? k <;> rfl

/-! ## The latest of distinct keys -/

section Latest

variable {α : Type} {l : List α} {n : Nat}

theorem rtake_append_of_le {front back : List α} (h : n ≤ back.length) :
    (front ++ back).rtake n = back.rtake n := by
  have hsplit : (front ++ back).length - n = front.length + (back.length - n) := by
    rw [List.length_append]
    omega
  rw [List.rtake, hsplit, List.drop_length_add_append, List.rtake]

variable [DecidableEq α]

/-- What is used once more moves to the end. -/
theorem dedup_concat (l : List α) (a : α) :
    (l ++ [a]).dedup = l.dedup.filter (· ≠ a) ++ [a] := by
  induction l with
  | nil => simp
  | cons b l ih =>
      by_cases hb : b ∈ l
      · rw [List.cons_append, List.dedup_cons_of_mem (List.mem_append_left _ hb),
          List.dedup_cons_of_mem hb, ih]
      · rw [List.cons_append, List.dedup_cons_of_notMem hb]
        by_cases hba : b = a
        · subst hba
          rw [List.dedup_cons_of_mem (by simp), ih]
          simp
        · rw [List.dedup_cons_of_notMem (by simp [hb, hba]), ih]
          simp [hba]

theorem length_filter_ne (hl : l.Nodup) (a : α) :
    l.length - 1 ≤ (l.filter (· ≠ a)).length := by
  have herase : l.filter (· ≠ a) = l.erase a := by
    rw [hl.erase_eq_filter]
    exact List.filter_congr fun x _ => by simp [bne, Bool.beq_eq_decide_eq]
  rw [herase]
  exact List.le_length_erase

/-- Of the latest distinct keys and one more use the first has to go when there are too many. -/
theorem rtake_use (hl : l.Nodup) (a : α) :
    (l.filter (· ≠ a) ++ [a]).rtake n =
      if n < ((l.rtake n).filter (· ≠ a) ++ [a]).length then
        ((l.rtake n).filter (· ≠ a) ++ [a]).drop 1
      else (l.rtake n).filter (· ≠ a) ++ [a] := by
  have hkept : (l.rtake n).length = min n l.length := by
    rw [List.rtake, List.length_drop]
    omega
  generalize hm : (l.rtake n).filter (· ≠ a) ++ [a] = m
  have hlower := length_filter_ne (hl.sublist (List.drop_sublist (l.length - n) l)) a
  rw [← List.rtake] at hlower
  have hupper : ((l.rtake n).filter (· ≠ a)).length ≤ (l.rtake n).length :=
    List.length_filter_le _ _
  have hlength : m.length = ((l.rtake n).filter (· ≠ a)).length + 1 := by simp [← hm]
  have hsplit : l.filter (· ≠ a) ++ [a] = (l.take (l.length - n)).filter (· ≠ a) ++ m := by
    rw [← hm, ← List.append_assoc, ← List.filter_append, List.rtake, List.take_append_drop]
  have hrtake : (l.filter (· ≠ a) ++ [a]).rtake n = m.rtake n := by
    by_cases hroom : l.length ≤ n
    · rw [hsplit, Nat.sub_eq_zero_of_le hroom]
      rfl
    · rw [hsplit, rtake_append_of_le (by omega)]
  rw [hrtake, List.rtake]
  by_cases hfull : n < m.length
  · rw [if_pos hfull, show m.length - n = 1 by omega]
  · rw [if_neg hfull, show m.length - n = 0 by omega, List.drop_zero]

end Latest

/-- The keys of the latest uses for which there is room, each at its last use. -/
def latest (n : Nat) (past : List (Call × Answer)) : List Key := (used past).dedup.rtake n

/-! ## One call -/

/-- A collection with room for `n` states, after uses and last puts. -/
structure Shows (n : Nat) (used : List Key) (last : Key → Option State) (r : Recent) : Prop where
  capacity_eq : r.capacity = .ofNat n
  keys_eq : r.entries.map Entry.key = used.dedup.rtake n
  entry : ∀ e ∈ r.entries, e.cid.key? = some e.key ∧ last e.key = some e.state

namespace Shows

variable {n : Nat} {used : List Key} {last : Key → Option State} {r : Recent} {k : Key}

theorem map_others (h : r.Shows n used last) (k : Key) :
    (r.others k).map Entry.key = (used.dedup.rtake n).filter (· ≠ k) := by
  rw [← h.keys_eq, List.filter_map]
  rfl

theorem find?_of_mem (h : r.Shows n used last) (hk : k ∈ used.dedup.rtake n) :
    ∃ e ∈ r.entries, r.find? k = some e ∧ e.key = k := by
  rw [← h.keys_eq] at hk
  obtain ⟨e, he, hek⟩ := List.mem_map.mp hk
  cases hfind : r.find? k with
  | none =>
      have hnone := List.find?_eq_none.mp hfind e he
      simp [hek] at hnone
  | some e' =>
      exact ⟨e', List.mem_of_find?_eq_some hfind, rfl, by simpa using List.find?_some hfind⟩

theorem find?_of_not_mem (h : r.Shows n used last) (hk : k ∉ used.dedup.rtake n) :
    r.find? k = none := by
  rw [find?, List.find?_eq_none]
  intro e he hek
  rw [← h.keys_eq] at hk
  exact hk (List.mem_map.mpr ⟨e, he, by simpa using hek⟩)

theorem put (h : r.Shows n used last) (handle : Handle) (s : State) :
    (r.put handle.key handle.cid s).Shows n (used ++ [handle.key])
      (fun k => if handle.key = k then some s else last k) := by
  have hkeys : (r.others handle.key ++ [Entry.mk handle.key handle.cid s]).map Entry.key =
      (used.dedup.rtake n).filter (· ≠ handle.key) ++ [handle.key] := by
    rw [List.map_append, h.map_others]
    rfl
  have hentry : ∀ e ∈ r.others handle.key ++ [Entry.mk handle.key handle.cid s],
      e.cid.key? = some e.key ∧
        (if handle.key = e.key then some s else last e.key) = some e.state := by
    intro e he
    rcases List.mem_append.mp he with he | he
    · obtain ⟨he, hne⟩ := List.mem_filter.mp he
      have hne : handle.key ≠ e.key := fun heq => by simp [heq] at hne
      rw [if_neg hne]
      exact h.entry e he
    · obtain rfl := List.mem_singleton.mp he
      exact ⟨handle.keyed, if_pos rfl⟩
  have hlength := congrArg List.length hkeys
  rw [List.length_map] at hlength
  refine ⟨h.capacity_eq, ?_, ?_⟩
  · rw [dedup_concat, rtake_use used.nodup_dedup, ← hkeys, List.length_map]
    simp only [Recent.put, h.capacity_eq, Amount.isBelow_ofNat, decide_eq_true_eq]
    split
    · exact List.map_drop
    · rfl
  · intro e he
    apply hentry e
    unfold Recent.put at he
    dsimp only at he
    split at he
    · exact List.mem_of_mem_drop he
    · exact he

theorem get_of_mem (h : r.Shows n used last) (hk : k ∈ used.dedup.rtake n) :
    ∃ s, last k = some s ∧ (r.get k).1 = some s ∧
      (r.get k).2.Shows n (used ++ [k]) last := by
  obtain ⟨e, he, hfind, rfl⟩ := h.find?_of_mem hk
  refine ⟨e.state, (h.entry e he).2, by simp [get, hfind], ?_⟩
  have hentries : (r.get e.key).2.entries = r.others e.key ++ [e] := by simp [get, hfind]
  refine ⟨by simp [get, hfind, h.capacity_eq], ?_, ?_⟩
  · -- The entry only moves, so there are no more keys than before.
    have hroom : ¬ n < ((used.dedup.rtake n).filter (· ≠ e.key) ++ [e.key]).length := by
      have hfewer : ((used.dedup.rtake n).filter (· ≠ e.key)).length <
          (used.dedup.rtake n).length :=
        List.length_filter_lt_length_iff_exists.mpr ⟨e.key, hk, by simp⟩
      have hle : (used.dedup.rtake n).length ≤ n := by
        rw [List.rtake, List.length_drop]
        omega
      rw [List.length_append, List.length_singleton]
      omega
    rw [hentries, dedup_concat, rtake_use used.nodup_dedup, if_neg hroom, List.map_append,
      h.map_others]
    rfl
  · intro e' he'
    rw [hentries] at he'
    rcases List.mem_append.mp he' with he' | he'
    · exact h.entry e' (List.mem_of_mem_filter he')
    · exact List.mem_singleton.mp he' ▸ h.entry e he

theorem get_of_not_mem (h : r.Shows n used last) (hk : k ∉ used.dedup.rtake n) :
    (r.get k).1 = none ∧ (r.get k).2.Shows n used last := by
  have hfind := h.find?_of_not_mem hk
  refine ⟨by simp [get, hfind], ?_⟩
  simp only [get, hfind]
  exact ⟨h.capacity_eq, h.keys_eq, h.entry⟩

theorem holds_eq (h : r.Shows n used last) (k : Key) :
    r.holds k = decide (k ∈ used.dedup.rtake n) := by
  by_cases hk : k ∈ used.dedup.rtake n
  · obtain ⟨e, -, hfind, -⟩ := h.find?_of_mem hk
    simp [holds, hfind, hk]
  · simp [holds, h.find?_of_not_mem hk, hk]

theorem size_eq (h : r.Shows n used last) : r.size = min n used.dedup.length := by
  rw [size, ← List.length_map (f := Entry.key), h.keys_eq, List.rtake, List.length_drop]
  omega

/-- A collection keeps in step with its past through a call. -/
theorem carry (h : r.Shows n used last) (c : Call) :
    (r.carry c).2.Shows n (noteUse used (c, (r.carry c).1)) fun k => (c.puts? k).or (last k) := by
  cases c with
  | put handle s =>
      have hput := h.put handle s
      have hlast : (fun k => if handle.key = k then some s else last k) =
          fun k => ((Call.put handle s).puts? k).or (last k) := by
        funext k
        by_cases hk : handle.key = k <;> simp [Call.puts?, hk]
      rw [← hlast]
      exact hput
  | get handle =>
      by_cases hk : handle.key ∈ used.dedup.rtake n
      · obtain ⟨s, -, hfound, hshows⟩ := h.get_of_mem hk
        simpa [Recent.carry, hfound, noteUse, Call.puts?] using hshows
      · obtain ⟨hfound, hshows⟩ := h.get_of_not_mem hk
        simpa [Recent.carry, hfound, noteUse, Call.puts?] using hshows
  | has handle => exact h
  | clear => exact ⟨h.capacity_eq, by simp [Recent.carry, clear, noteUse, List.rtake],
      by simp [Recent.carry, clear]⟩

end Shows

/-! ## Sequences of calls -/

theorem shows_after (n : Nat) (calls : List Call) :
    ((empty (.ofNat n)).after calls).Shows n (used ((empty (.ofNat n)).record calls))
      fun k => lastPut? k calls := by
  induction calls using List.reverseRecOn with
  | nil => exact ⟨rfl, by simp [after, empty, record, used, List.rtake], by simp [after, empty]⟩
  | append_singleton calls c ih =>
      rw [after_concat, record_concat, used_concat]
      simp only [lastPut?_concat]
      exact ih.carry c

/-- Every get is counted, as a hit or as a miss. -/
theorem tally_carry (r : Recent) (c : Call) :
    (r.carry c).2.hits + (r.carry c).2.misses = r.hits + r.misses + c.isGet.toNat := by
  cases c with
  | get h =>
      cases hfind : r.find? h.key with
      | none => simp [carry, get, hfind, Call.isGet, Nat.add_assoc]
      | some e => simp [carry, get, hfind, Call.isGet, Nat.add_right_comm]
  | put | has | clear => rfl

theorem tally_after (r : Recent) (calls : List Call) :
    (r.after calls).hits + (r.after calls).misses =
      r.hits + r.misses + calls.countP Call.isGet := by
  induction calls using List.reverseRecOn with
  | nil => rfl
  | append_singleton calls c ih =>
      rw [after_concat, tally_carry, ih, List.countP_append, Nat.add_assoc]
      cases c <;> rfl

/-- What a collection with room for `n` states holds and answers after calls. -/
structure HoldsLatest (n : Nat) (start : Recent) (calls : List Call) : Prop where
  /-- The cids held are those of the latest uses, in the order of their last use. -/
  keys_eq : (start.after calls).keys.map Json.key? = (latest n (start.record calls)).map some
  size_le : (start.after calls).size ≤ n
  /-- A get answers the state of the last put of a cid that is held. -/
  get_held : ∀ h : Handle, h.key ∈ latest n (start.record calls) →
    ∃ s, lastPut? h.key calls = some s ∧ ((start.after calls).carry (.get h)).1 = .found (some s)
  get_other : ∀ h : Handle, h.key ∉ latest n (start.record calls) →
    ((start.after calls).carry (.get h)).1 = .found none
  /-- Asking whether a cid is held changes nothing. -/
  has_eq : ∀ h : Handle, (start.after calls).carry (.has h) =
    (.held (decide (h.key ∈ latest n (start.record calls))), start.after calls)
  tally : (start.after calls).hits + (start.after calls).misses = calls.countP Call.isGet

theorem create_ofNat {n : Nat} (hn : 1 ≤ n) : create (.int n) = .ok (empty (.ofNat n)) := by
  have hroom : (Amount.ofNat n).isBelow 1 = false := by
    have hbelow := Amount.isBelow_ofNat n 1
    rw [decide_eq_false (by omega)] at hbelow
    exact hbelow
  show (if (Amount.ofNat n).isBelow 1 then _ else _) = _
  rw [hroom]
  rfl

/--
A collection with room for `n` states holds those of the `n` latest distinct cids used, in the
order of their last use, whatever the calls were: no put, hit, miss, test or `clear` lets the
list and the past get out of step.
-/
theorem latest_uses_held {n : Nat} (hn : 1 ≤ n) :
    ∃ start, create (.int n) = .ok start ∧ ∀ calls, HoldsLatest n start calls := by
  refine ⟨empty (.ofNat n), create_ofNat hn, fun calls => ?_⟩
  have h := shows_after n calls
  refine ⟨?_, ?_, ?_, ?_, ?_, ?_⟩
  · rw [latest, ← h.keys_eq, keys, List.map_map, List.map_map]
    exact List.map_congr_left fun e he => (h.entry e he).1
  · rw [h.size_eq]
    exact Nat.min_le_left _ _
  · intro handle hk
    obtain ⟨s, hlast, hfound, -⟩ := h.get_of_mem hk
    exact ⟨s, hlast, congrArg Answer.found hfound⟩
  · intro handle hk
    exact congrArg Answer.found (h.get_of_not_mem hk).1
  · intro handle
    exact Prod.ext (congrArg Answer.held (h.holds_eq handle.key)) rfl
  · rw [tally_after]
    exact Nat.zero_add _

/-- A hit saves the cid that was put first; a miss and a test save nothing. -/
theorem latest_uses_held_sample :
    let handle (c : String) : Handle := ⟨.str c, .text c, rfl⟩
    let state (c : String) (n : Int) : State := ⟨.str c, .obj [("n", .int n)], .null, .null⟩
    let calls := [.put (handle "a") (state "a" 1), .put (handle "b") (state "b" 1),
      .get (handle "a"), .has (handle "b"), .put (handle "c") (state "c" 1), .get (handle "b"),
      .put (handle "a") (state "a" 2)]
    let r := (empty (.ofNat 2)).after calls
    1 ≤ 2 ∧ r.keys = [.str "c", .str "a"] ∧ r.size ≤ 2 ∧
      (r.carry (.get (handle "a"))).1 = .found (some (state "a" 2)) ∧
      (r.carry (.get (handle "b"))).1 = .found none ∧ (r.hits, r.misses) = (1, 1) := by
  intro handle state calls r
  obtain ⟨start, hstart, hall⟩ := latest_uses_held (n := 2) (by decide)
  obtain rfl : empty (.ofNat 2) = start :=
    Except.ok.inj ((create_ofNat (by decide)).symm.trans hstart)
  have h := hall calls
  have hlatest : latest 2 ((empty (.ofNat 2)).record calls) = [.text "c", .text "a"] := by
    decide +kernel
  obtain ⟨s, hput, hfound⟩ := h.get_held (handle "a") (by rw [hlatest]; decide)
  obtain rfl : state "a" 2 = s := by
    have hlast : lastPut? (.text "a") calls = some (state "a" 2) := by decide +kernel
    exact Option.some.inj (hlast.symm.trans hput)
  exact ⟨by decide, by decide +kernel, h.size_le, hfound,
    h.get_other (handle "b") (by rw [hlatest]; decide), by decide +kernel⟩

end ChainFold.Fold.Recent
