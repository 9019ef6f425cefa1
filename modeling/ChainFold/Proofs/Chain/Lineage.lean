import ChainFold.Chain
import ChainFold.Proofs.Event.WellFormed
import Mathlib.Data.List.Nodup
import Mathlib.Data.List.Perm.Subperm

/-!
# Lineages

The lineage of an event is the chain from the first event to it, as the links among
known events give it.  Where a cid names at most one known event there is at most one
lineage, no cid occurs in it twice, and walking back from the event yields it.
-/

namespace ChainFold

/-- The chain of an event among known ones: its ancestors, the first one first, and itself. -/
inductive Lineage (known : Event → Prop) : Event → List Event → Prop
  | first {e : Event} : e.prev = .null → e.genesis = e.cid → Lineage known e [e]
  | next {e parent : Event} {chain : List Event} : known parent → e.prev = parent.cid →
      parent.genesis = e.genesis → Lineage known parent chain → Lineage known e (chain ++ [e])

/-- Cids are texts that name at most one known event each. -/
structure Binding (known : Event → Prop) : Prop where
  text : ∀ e, known e → ∃ c, e.cid = .str c
  unique : ∀ e e', known e → known e' → e.cid = e'.cid → e = e'

theorem Binding.mono {known known' : Event → Prop} (h : Binding known')
    (hsub : ∀ x, known x → known' x) : Binding known :=
  ⟨fun e he => h.text e (hsub e he), fun e e' he he' => h.unique e e' (hsub e he) (hsub e' he')⟩

namespace Lineage

variable {known known' : Event → Prop} {e : Event} {chain chain' : List Event}

theorem mono (h : Lineage known e chain) (hsub : ∀ x, known x → known' x) :
    Lineage known' e chain := by
  induction h with
  | first hprev hgenesis => exact .first hprev hgenesis
  | next hknown hprev hgenesis _ ih => exact .next (hsub _ hknown) hprev hgenesis ih

/-! ## The events of a lineage -/

theorem exists_concat (h : Lineage known e chain) : ∃ before, chain = before ++ [e] := by
  cases h with
  | first => exact ⟨[], rfl⟩
  | next => exact ⟨_, rfl⟩

theorem ne_nil (h : Lineage known e chain) : chain ≠ [] := by
  obtain ⟨before, rfl⟩ := h.exists_concat
  simp

theorem mem_self (h : Lineage known e chain) : e ∈ chain := by
  obtain ⟨before, rfl⟩ := h.exists_concat
  simp

theorem eq_or_known_of_mem (h : Lineage known e chain) {x : Event} (hx : x ∈ chain) :
    x = e ∨ known x := by
  induction h with
  | first => exact .inl (List.mem_singleton.mp hx)
  | next hknown _ _ _ ih =>
      rcases List.mem_append.mp hx with hx | hx
      · rcases ih hx with rfl | hx
        · exact .inr hknown
        · exact .inr hx
      · exact .inl (List.mem_singleton.mp hx)

theorem known_of_mem (h : Lineage known e chain) (he : known e) {x : Event} (hx : x ∈ chain) :
    known x := by
  rcases h.eq_or_known_of_mem hx with rfl | hx
  · exact he
  · exact hx

theorem genesis_eq_of_mem (h : Lineage known e chain) {x : Event} (hx : x ∈ chain) :
    x.genesis = e.genesis := by
  induction h with
  | first => rw [List.mem_singleton.mp hx]
  | next _ _ hgenesis _ ih =>
      rcases List.mem_append.mp hx with hx | hx
      · exact (ih hx).trans hgenesis
      · rw [List.mem_singleton.mp hx]

/-- A lineage starts with the event that the others name as their genesis. -/
theorem exists_cons (h : Lineage known e chain) :
    ∃ g rest, chain = g :: rest ∧ g.prev = .null ∧ g.cid = e.genesis := by
  induction h with
  | first hprev hgenesis => exact ⟨_, [], rfl, hprev, hgenesis.symm⟩
  | next _ _ hgenesis _ ih =>
      obtain ⟨g, rest, rfl, hprev, hcid⟩ := ih
      exact ⟨g, rest ++ [_], rfl, hprev, hcid.trans hgenesis⟩

/-- Each event of a lineage has its own lineage in front of it. -/
theorem of_append_cons (h : Lineage known e chain) {before after : List Event} {x : Event}
    (hchain : chain = before ++ x :: after) : Lineage known x (before ++ [x]) := by
  induction h generalizing after with
  | first hprev hgenesis =>
      cases before with
      | nil =>
          simp only [List.nil_append, List.cons.injEq] at hchain
          exact hchain.1 ▸ .first hprev hgenesis
      | cons b rest => simp at hchain
  | @next e parent chain hknown hprev hgenesis hparent ih =>
      rcases List.eq_nil_or_concat after with rfl | ⟨front, last, rfl⟩
      · obtain ⟨rfl, hx⟩ := List.append_inj' hchain rfl
        obtain rfl : e = x := by simpa using hx
        exact .next hknown hprev hgenesis hparent
      · have hsplit : chain ++ [e] = (before ++ x :: front) ++ [last] := by simpa using hchain
        exact ih (List.append_inj' hsplit rfl).1

theorem exists_of_mem (h : Lineage known e chain) {x : Event} (hx : x ∈ chain) :
    ∃ before, before ++ [x] <+: chain ∧ Lineage known x (before ++ [x]) := by
  obtain ⟨before, after, hchain⟩ := List.append_of_mem hx
  refine ⟨before, ⟨after, by simp [hchain]⟩, h.of_append_cons hchain⟩

/-! ## Uniqueness -/

theorem unique (hb : Binding known) (h : Lineage known e chain) (h' : Lineage known e chain') :
    chain = chain' := by
  induction h generalizing chain' with
  | first hprev =>
      cases h' with
      | first => rfl
      | next hknown hprev' =>
          obtain ⟨c, hc⟩ := hb.text _ hknown
          simp [hprev, hc] at hprev'
  | next hknown hprev _ _ ih =>
      cases h' with
      | first hprev' =>
          obtain ⟨c, hc⟩ := hb.text _ hknown
          simp [hprev', hc] at hprev
      | next hknown' hprev' _ hparent' =>
          obtain rfl := hb.unique _ _ hknown hknown' (hprev.symm.trans hprev')
          rw [ih hparent']

theorem not_mem_of_concat (hb : Binding known) (h : Lineage known e chain) (he : known e)
    {before : List Event} (hchain : chain = before ++ [e]) : ∀ x ∈ before, x.cid ≠ e.cid := by
  intro x hx hcid
  have hmem : x ∈ chain := hchain ▸ List.mem_append_left _ hx
  obtain rfl := hb.unique _ _ (h.known_of_mem he hmem) he hcid
  -- The event would have a second, shorter lineage.
  obtain ⟨front, back, hbefore⟩ := List.append_of_mem hx
  have hshort : Lineage known x (front ++ [x]) :=
    h.of_append_cons (show chain = front ++ x :: (back ++ [x]) by simp [hchain, hbefore])
  have hlength := congrArg List.length (h.unique hb hshort)
  simp [hchain, hbefore] at hlength

/-- Where cids bind, the lineage of the predecessor stands in front of an event in its own. -/
theorem of_prev (hb : Binding known) (h : Lineage known e chain) {parent : Event}
    (hparent : known parent) (hprev : e.prev = parent.cid) :
    ∃ before, chain = before ++ [e] ∧ Lineage known parent before ∧
      parent.genesis = e.genesis := by
  cases h with
  | first hnull =>
      obtain ⟨c, hc⟩ := hb.text parent hparent
      simp [hnull, hc] at hprev
  | @next _ parent' before hknown hprev' hgenesis hl =>
      obtain rfl := hb.unique _ _ hknown hparent (hprev'.symm.trans hprev)
      exact ⟨before, rfl, hl, hgenesis⟩

theorem mem_of_prev (hb : Binding known) (h : Lineage known e chain) {x parent : Event}
    (hx : x ∈ chain) (hparent : known parent) (hprev : x.prev = parent.cid) : parent ∈ chain := by
  obtain ⟨before, hsub, hlx⟩ := h.exists_of_mem hx
  obtain ⟨before', heq, hl, -⟩ := hlx.of_prev hb hparent hprev
  exact hsub.subset (heq ▸ List.mem_append_left _ hl.mem_self)

/-- No event of a lineage follows its last one. -/
theorem prev_ne_of_mem (hb : Binding known) (h : Lineage known e chain) (he : known e) {x : Event}
    (hx : x ∈ chain) : x.prev ≠ e.cid := by
  intro hprev
  obtain ⟨before, hsub, hlx⟩ := h.exists_of_mem hx
  obtain ⟨before', heq, hl, -⟩ := hlx.of_prev hb he hprev
  obtain rfl := hl.unique hb h
  have hlength := hsub.length_le
  rw [heq, List.length_append, List.length_singleton] at hlength
  omega

theorem nodup_cids (hb : Binding known) (h : Lineage known e chain) (he : known e) :
    (chain.map Event.cid).Nodup := by
  induction h with
  | first => simp
  | @next e parent chain hknown hprev hgenesis hparent ih =>
      have hlast := not_mem_of_concat hb (.next hknown hprev hgenesis hparent) he rfl
      rw [List.map_append, List.nodup_append]
      refine ⟨ih hknown, by simp, ?_⟩
      intro a ha c hc
      obtain ⟨x, hx, rfl⟩ := List.mem_map.mp ha
      rw [List.map_singleton, List.mem_singleton] at hc
      exact hc ▸ hlast x hx

end Lineage

/-! ## Walking back -/

namespace Chain

/-- The event that is found under a key, if there is only one. -/
theorem latest?_eq {events : List Event} {e : Event} {k : Key} (he : e ∈ events)
    (hk : e.cid.key? = some k) (honly : ∀ x ∈ events, x.cid.key? = some k → x = e) :
    latest? k events = some e := by
  unfold latest?
  cases hfind : events.reverse.find? (·.cid.key? == some k) with
  | none =>
      rw [List.find?_eq_none] at hfind
      have hnone := hfind e (List.mem_reverse.mpr he)
      simp [hk] at hnone
  | some x =>
      have hx : x.cid.key? = some k := by simpa using List.find?_some hfind
      rw [honly x (List.mem_reverse.mp (List.mem_of_find?_eq_some hfind)) hx]

theorem mem_of_latest? {events : List Event} {e : Event} {k : Key} (h : latest? k events = some e) :
    e ∈ events :=
  List.mem_reverse.mp (List.mem_of_find?_eq_some h)

/-- Every event of a chain is the one found under its cid. -/
def Finds (events chain : List Event) : Prop :=
  ∀ x ∈ chain, ∃ c, x.cid = .str c ∧ latest? (.text c) events = some x

variable {known : Event → Prop} {e : Event} {chain events : List Event} {g : String}

theorem walkBack_succ (hg : e.genesis = .str g) {c : String} (hc : e.cid = .str c)
    (hfound : latest? (.text c) events = some e) {fuel : Nat} {seen : List Key}
    (hnew : Key.text c ∉ seen) (above : List Event) :
    walkBack events (.str g) (fuel + 1) seen above e.cid =
      if e.prev ≠ .null then
        walkBack events (.str g) fuel (.text c :: seen) (e :: above) e.prev
      else if e.cid = .str g then .ok (e :: above)
      else .error (broken e.cid "chain does not end at genesis" (.str g)) := by
  have hkey : e.cid.key? = some (.text c) := by rw [hc]; rfl
  rw [walkBack]
  simp [hkey, hnew, hfound, hg, Json.looselySame_text_right]

/-- Walking back from an event puts its lineage in front of what has been met. -/
theorem walkBack_eq (h : Lineage known e chain) (hg : e.genesis = .str g)
    (hfinds : Finds events chain) (hnodup : (chain.map Event.cid).Nodup) {fuel : Nat}
    (hfuel : chain.length ≤ fuel) {seen : List Key}
    (hseen : ∀ x ∈ chain, ∀ k ∈ seen, x.cid.key? ≠ some k) (above : List Event) :
    walkBack events (.str g) fuel seen above e.cid = .ok (chain ++ above) := by
  induction h generalizing fuel seen above with
  | @first e hprev hgenesis =>
      obtain ⟨fuel, rfl⟩ := Nat.exists_eq_succ_of_ne_zero (n := fuel)
        (by rintro rfl; simp at hfuel)
      obtain ⟨c, hc, hfound⟩ := hfinds e (by simp)
      have hnew : Key.text c ∉ seen := fun hk => hseen e (by simp) _ hk (by rw [hc]; rfl)
      rw [Nat.succ_eq_add_one, walkBack_succ hg hc hfound hnew]
      simp [hprev, hgenesis.symm.trans hg]
  | @next e parent chain hknown hprev hgenesis hparent ih =>
      obtain ⟨fuel, rfl⟩ := Nat.exists_eq_succ_of_ne_zero (n := fuel)
        (by rintro rfl; simp at hfuel)
      obtain ⟨c, hc, hfound⟩ := hfinds e (by simp)
      have hnew : Key.text c ∉ seen := fun hk => hseen e (by simp) _ hk (by rw [hc]; rfl)
      have hparentFinds : Finds events chain := fun x hx => hfinds x (by simp [hx])
      obtain ⟨p, hp, -⟩ := hparentFinds parent hparent.mem_self
      have hne : e.prev ≠ .null := by rw [hprev, hp]; simp
      rw [List.map_append, List.nodup_append] at hnodup
      obtain ⟨hchain, -, hapart⟩ := hnodup
      -- No cid occurs twice, so the walk meets none of the ancestors before their turn.
      have hseen' : ∀ x ∈ chain, ∀ k ∈ Key.text c :: seen, x.cid.key? ≠ some k := by
        intro x hx k hk
        rcases List.mem_cons.mp hk with rfl | hk
        · obtain ⟨c', hc', -⟩ := hparentFinds x hx
          have hcids := hapart x.cid (List.mem_map_of_mem hx) e.cid (by simp)
          rw [hc', hc] at hcids
          simpa [hc', Json.key?] using hcids
        · exact hseen x (by simp [hx]) k hk
      have hrec := ih (hgenesis.trans hg) hparentFinds hchain (by simpa using hfuel) hseen'
        (e :: above)
      rw [Nat.succ_eq_add_one, walkBack_succ hg hc hfound hnew, if_pos hne, hprev, hrec]
      simp

theorem toTip_eq (h : Lineage known e chain) (hg : e.genesis = .str g)
    (hfinds : Finds events chain) (hnodup : (chain.map Event.cid).Nodup)
    (hkeys : ∀ x ∈ events, ∃ c, x.cid = .str c) :
    toTip events (.str g) e.cid = .ok chain := by
  obtain ⟨c, hc, -⟩ := hfinds e h.mem_self
  have hall : events.all (·.cid.key?.isSome) = true := by
    refine List.all_eq_true.mpr fun x hx => ?_
    obtain ⟨c', hc'⟩ := hkeys x hx
    simp [hc', Json.key?]
  have hsub : chain ⊆ events := by
    intro x hx
    obtain ⟨c', -, hfound⟩ := hfinds x hx
    exact mem_of_latest? hfound
  have hlength : chain.length ≤ events.length :=
    (List.subperm_of_subset (List.Nodup.of_map _ hnodup) hsub).length_le
  have hne : e.cid ≠ .null := by simp [hc]
  have hwalk : walkBack events (.str g) (events.length + 1) [] [] e.cid = .ok (chain ++ []) :=
    walkBack_eq h hg hfinds hnodup (Nat.le_succ_of_le hlength) (by simp) []
  simp [toTip, hall, hne, hwalk]

end Chain

end ChainFold
