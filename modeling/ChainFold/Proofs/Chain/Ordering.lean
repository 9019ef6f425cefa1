import ChainFold.Proofs.Chain.Lineage
import Mathlib.Data.List.Chain
import Mathlib.Data.List.Dedup

/-!
# Walking back finds the chain or a break

The events of a heap may be linked in any way.  A walk back from a tip takes a turn for each cid
that it meets, and meets no cid twice, so it stops; where it ends at a first event it has traced
the only chain from there to the tip, and where it ends otherwise there is none.
-/

namespace ChainFold

theorem Json.key?_eq_text_iff {j : Json} {c : String} : j.key? = some (.text c) ↔ j = .str c := by
  cases j with
  | str s => simp [key?]
  | double d =>
      have hkind : Key.ofDouble d ≠ .text c := by
        unfold Key.ofDouble
        split
        · simp
        · split <;> simp
      simp [key?, hkind]
  | null | bool | int | arr | obj => simp [key?]

/-- The identifiers of an event are texts, but for a predecessor that is missing. -/
structure Event.Named (e : Event) : Prop where
  cid_text : ∃ c, e.cid = .str c
  genesis_text : ∃ g, e.genesis = .str g
  prev_text : e.prev = .null ∨ ∃ p, e.prev = .str p

namespace Chain

/-- An event is the last one with its cid in a list. -/
def IsLast (events : List Event) (e : Event) : Prop :=
  ∃ before after, events = before ++ e :: after ∧ ∀ x ∈ after, x.cid ≠ e.cid

/-- A chain of last events of one genesis, linked by `prev` from a tip back to the first event. -/
structure Traces (events : List Event) (g tip : String) (chain : List Event) : Prop where
  starts : ∃ first, chain.head? = some first ∧ first.prev = .null ∧ first.cid = .str g
  ends : ∃ last, chain.getLast? = some last ∧ last.cid = .str tip
  linked : chain.IsChain fun a b => b.prev = a.cid
  listed : ∀ e ∈ chain, IsLast events e ∧ e.genesis = .str g

variable {events : List Event} {e : Event} {g c tip : String} {chain : List Event}

/-! ## The last events -/

theorem IsLast.mem (h : IsLast events e) : e ∈ events := by
  obtain ⟨before, after, rfl, -⟩ := h
  simp

theorem latest?_eq_some_iff :
    latest? (.text c) events = some e ↔ IsLast events e ∧ e.cid = .str c := by
  unfold latest?
  rw [List.find?_eq_some_iff_append]
  simp only [beq_iff_eq, Json.key?_eq_text_iff, Bool.not_eq_true', beq_eq_false_iff_ne, ne_eq]
  constructor
  · rintro ⟨hc, back, front, hevents, hback⟩
    refine ⟨⟨front.reverse, back.reverse, ?_, ?_⟩, hc⟩
    · rw [← List.reverse_reverse events, hevents]
      simp
    · intro x hx
      rw [hc]
      exact hback x (List.mem_reverse.mp hx)
  · rintro ⟨⟨before, after, rfl, hafter⟩, hc⟩
    refine ⟨hc, after.reverse, before.reverse, by simp, ?_⟩
    intro x hx
    rw [← hc]
    exact hafter x (List.mem_reverse.mp hx)

theorem binding_isLast (h : ∀ e ∈ events, e.Named) : Binding (IsLast events) := by
  refine ⟨fun e he => (h e he.mem).cid_text, ?_⟩
  intro e e' he he' hcid
  obtain ⟨c, hc⟩ := (h e he.mem).cid_text
  have hfound := latest?_eq_some_iff.mpr ⟨he, hc⟩
  have hfound' := latest?_eq_some_iff.mpr ⟨he', hcid.symm.trans hc⟩
  exact Option.some.inj (hfound.symm.trans hfound')

/-! ## Chains that are traced -/

theorem isChain_of_lineage {known : Event → Prop} (h : Lineage known e chain) :
    chain.IsChain fun a b => b.prev = a.cid := by
  induction h with
  | first => exact List.isChain_singleton _
  | next hknown hprev hgenesis hparent ih =>
      obtain ⟨front, rfl⟩ := hparent.exists_concat
      refine List.isChain_append.mpr ⟨ih, List.isChain_singleton _, ?_⟩
      simp [hprev]

theorem traces_of_lineage (h : Lineage (IsLast events) e chain) (he : IsLast events e)
    (hcid : e.cid = .str tip) (hg : e.genesis = .str g) : Traces events g tip chain where
  starts := by
    obtain ⟨first, rest, hchain, hnull, hfirst⟩ := h.exists_cons
    exact ⟨first, by simp [hchain], hnull, hfirst.trans hg⟩
  ends := by
    obtain ⟨before, hlast⟩ := h.exists_concat
    exact ⟨e, by simp [hlast], hcid⟩
  linked := isChain_of_lineage h
  listed x hx := ⟨h.known_of_mem he hx, (h.genesis_eq_of_mem hx).trans hg⟩

theorem Traces.exists_lineage (h : Traces events g tip chain) (hn : ∀ e ∈ events, e.Named) :
    ∃ e, IsLast events e ∧ e.cid = .str tip ∧ e.genesis = .str g ∧
      Lineage (IsLast events) e chain := by
  induction chain using List.reverseRecOn generalizing tip with
  | nil =>
      obtain ⟨first, hnil, -⟩ := h.starts
      cases hnil
  | append_singleton before e ih =>
      obtain ⟨he, hg⟩ := h.listed e (by simp)
      have hcid : e.cid = .str tip := by
        obtain ⟨last, hlast, hcid⟩ := h.ends
        obtain rfl : e = last := by simpa using hlast
        exact hcid
      refine ⟨e, he, hcid, hg, ?_⟩
      obtain ⟨first, hfirst, hnull, hroot⟩ := h.starts
      cases hback : before.getLast? with
      | none =>
          obtain rfl : before = [] := List.getLast?_eq_none_iff.mp hback
          obtain rfl : e = first := by simpa using hfirst
          exact .first hnull (hg.trans hroot.symm)
      | some parent =>
          obtain ⟨hlinked, -, hlink⟩ := List.isChain_append.mp h.linked
          have hprev : e.prev = parent.cid := hlink parent hback e rfl
          have hparent : parent ∈ before := List.mem_of_getLast? hback
          have hne : before ≠ [] := List.ne_nil_of_mem hparent
          rw [List.head?_append_of_ne_nil _ hne] at hfirst
          obtain ⟨p, hp⟩ := (hn parent (h.listed parent (by simp [hparent])).1.mem).cid_text
          have hbefore : Traces events g p before :=
            ⟨⟨first, hfirst, hnull, hroot⟩, ⟨parent, hback, hp⟩, hlinked,
              fun x hx => h.listed x (List.mem_append_left _ hx)⟩
          obtain ⟨e', he', hcid', hg', hl⟩ := ih hbefore
          obtain ⟨front, rfl⟩ := hl.exists_concat
          obtain rfl : e' = parent := by simpa using hback
          exact .next he' hprev (hg'.trans hg.symm) hl

theorem Traces.nodup_cids (h : Traces events g tip chain) (hn : ∀ e ∈ events, e.Named) :
    (chain.map Event.cid).Nodup := by
  obtain ⟨e, he, -, -, hl⟩ := h.exists_lineage hn
  exact hl.nodup_cids (binding_isLast hn) he

theorem Traces.toTip_eq (h : Traces events g tip chain) (hn : ∀ e ∈ events, e.Named) :
    toTip events (.str g) (.str tip) = .ok chain := by
  obtain ⟨e, he, hcid, hg, hl⟩ := h.exists_lineage hn
  have hfinds : Finds events chain := by
    intro x hx
    have hlast : IsLast events x := hl.known_of_mem he hx
    obtain ⟨c, hc⟩ := (hn x hlast.mem).cid_text
    exact ⟨c, hc, latest?_eq_some_iff.mpr ⟨hlast, hc⟩⟩
  rw [← hcid]
  exact Chain.toTip_eq hl hg hfinds (h.nodup_cids hn) fun x hx => (hn x hx).cid_text

/-! ## Turns of a walk -/

/-- Where a walk back stands: the keys and the events met so far, and the cid to look up next. -/
structure Walk where
  seen : List Key
  above : List Event
  cursor : Json

namespace Walk

/-- One turn of a walk: it ends there, or goes on at the predecessor. -/
def turn (events : List Event) (genesis : Json) (w : Walk) :
    Except Failure (List Event) ⊕ Walk :=
  match w.cursor.key? with
  | none => .inl (.error (.defect .wrongKind))
  | some k =>
    if k ∈ w.seen then .inl (.error (broken w.cursor "cycle in stored chain" genesis))
    else
      match latest? k events with
      | none => .inl (.error (broken w.cursor "missing event in stored chain" genesis))
      | some e =>
        if !e.genesis.looselySame genesis then
          .inl (.error (broken w.cursor "event belongs to another stream" genesis))
        else if e.prev ≠ .null then .inr ⟨k :: w.seen, e :: w.above, e.prev⟩
        else if e.cid.looselySame genesis then .inl (.ok (e :: w.above))
        else .inl (.error (broken e.cid "chain does not end at genesis" genesis))

/-- A walk comes to a result in a number of turns. -/
inductive Ends (events : List Event) (genesis : Json) :
    Walk → Nat → Except Failure (List Event) → Prop
  | stop {w : Walk} {r : Except Failure (List Event)} : w.turn events genesis = .inl r →
      Ends events genesis w 1 r
  | go {w w' : Walk} {n : Nat} {r : Except Failure (List Event)} :
      w.turn events genesis = .inr w' → Ends events genesis w' n r →
      Ends events genesis w (n + 1) r

variable {w w' : Walk} {n : Nat} {r : Except Failure (List Event)}

theorem walkBack_turn (events : List Event) (genesis : Json) (fuel : Nat) (w : Walk) :
    walkBack events genesis (fuel + 1) w.seen w.above w.cursor =
      match w.turn events genesis with
      | .inl r => r
      | .inr w' => walkBack events genesis fuel w'.seen w'.above w'.cursor := by
  rw [walkBack, turn]
  cases w.cursor.key? with
  | none => rfl
  | some k =>
      dsimp only
      by_cases hk : k ∈ w.seen
      · simp only [if_pos hk]
      · simp only [if_neg hk]
        cases latest? k events with
        | none => rfl
        | some e =>
            dsimp only
            split
            · rfl
            · split
              · rfl
              · split <;> rfl

/-- What a walk comes to is its result under any fuel that suffices for its turns. -/
theorem Ends.walkBack_eq {genesis : Json} (h : Ends events genesis w n r) {fuel : Nat}
    (hfuel : n ≤ fuel) : walkBack events genesis fuel w.seen w.above w.cursor = r := by
  induction h generalizing fuel with
  | stop hturn =>
      obtain ⟨fuel, rfl⟩ := Nat.exists_eq_add_of_le' hfuel
      rw [walkBack_turn, hturn]
  | go hturn hrest ih =>
      obtain ⟨fuel, rfl⟩ := Nat.exists_eq_add_of_le' (Nat.le_trans (Nat.le_add_left 1 _) hfuel)
      rw [walkBack_turn, hturn]
      exact ih (Nat.le_of_succ_le_succ hfuel)

/-- All that a turn at a text can do among events with names. -/
theorem turn_cases (hn : ∀ e ∈ events, e.Named) (hc : w.cursor = .str c) :
    (∃ cid reason, w.turn events (.str g) = .inl (.error (broken cid reason (.str g)))) ∨
    ∃ e, IsLast events e ∧ e.cid = .str c ∧ e.genesis = .str g ∧ Key.text c ∉ w.seen ∧
      ((e.prev = .null ∧ e.cid = .str g ∧ w.turn events (.str g) = .inl (.ok (e :: w.above))) ∨
        ∃ p, e.prev = .str p ∧
          w.turn events (.str g) = .inr ⟨.text c :: w.seen, e :: w.above, .str p⟩) := by
  have hkey : w.cursor.key? = some (.text c) := Json.key?_eq_text_iff.mpr hc
  unfold turn
  rw [hkey]
  dsimp only
  by_cases hseen : Key.text c ∈ w.seen
  · rw [if_pos hseen]
    exact .inl ⟨_, _, rfl⟩
  rw [if_neg hseen]
  cases hfound : latest? (.text c) events with
  | none => exact .inl ⟨_, _, rfl⟩
  | some e =>
      obtain ⟨he, hcid⟩ := latest?_eq_some_iff.mp hfound
      simp only [Json.looselySame_text_right]
      by_cases hg : e.genesis = .str g
      · rcases (hn e he.mem).prev_text with hprev | ⟨p, hprev⟩
        · by_cases hroot : e.cid = .str g
          · exact .inr ⟨e, he, hcid, hg, hseen, .inl ⟨hprev, hroot, by simp [hg, hprev, hroot]⟩⟩
          · exact .inl ⟨e.cid, "chain does not end at genesis", by simp [hg, hprev, hroot]⟩
        · exact .inr ⟨e, he, hcid, hg, hseen, .inr ⟨p, hprev, by simp [hg, hprev]⟩⟩
      · exact .inl ⟨w.cursor, "event belongs to another stream", by simp [hg]⟩

/-! ## The number of turns -/

/-- The number of distinct cids of events. -/
def cidCount (events : List Event) : Nat := (events.map Event.cid).dedup.length

/-- The keys that a walk has seen are those of distinct cids of events. -/
def Within (events : List Event) (seen : List Key) : Prop :=
  ∃ cs : List String, seen = cs.map Key.text ∧ cs.Nodup ∧ ∀ c ∈ cs, ∃ e ∈ events, e.cid = .str c

theorem Within.length_le {seen : List Key} (h : Within events seen) :
    seen.length ≤ cidCount events := by
  obtain ⟨cs, rfl, hnodup, hcids⟩ := h
  have hnodup' : (cs.map Json.str).Nodup := hnodup.map fun _ _ heq => Json.str.inj heq
  have hsub : cs.map Json.str ⊆ (events.map Event.cid).dedup := by
    intro j hj
    obtain ⟨c, hc, rfl⟩ := List.mem_map.mp hj
    obtain ⟨e, he, hcid⟩ := hcids c hc
    exact List.mem_dedup.mpr (hcid ▸ List.mem_map_of_mem he)
  have hle := (List.subperm_of_subset hnodup' hsub).length_le
  rwa [List.length_map] at hle ⊢

theorem Within.cons {seen : List Key} (h : Within events seen) (he : e ∈ events)
    (hcid : e.cid = .str c) (hnew : Key.text c ∉ seen) : Within events (.text c :: seen) := by
  obtain ⟨cs, rfl, hnodup, hcids⟩ := h
  refine ⟨c :: cs, rfl, List.nodup_cons.mpr ⟨?_, hnodup⟩, ?_⟩
  · exact fun hc => hnew (List.mem_map_of_mem hc)
  · exact List.forall_mem_cons.mpr ⟨⟨e, he, hcid⟩, hcids⟩

/-- What a walk from a cid meets: a break, or the lineage of an event, put in front of the rest. -/
inductive Meets (events : List Event) (g c : String) (above : List Event) :
    Except Failure (List Event) → Prop
  | broken (cid : Json) (reason : String) :
      Meets events g c above (.error (Chain.broken cid reason (.str g)))
  | chain {e : Event} {front : List Event} : IsLast events e → e.cid = .str c →
      e.genesis = .str g → Lineage (IsLast events) e front →
      Meets events g c above (.ok (front ++ above))

/-- Each turn but the last sees a new cid, and there are only so many. -/
theorem exists_ends (hn : ∀ e ∈ events, e.Named) (g : String) (hc : w.cursor = .str c)
    (hw : Within events w.seen) :
    ∃ n r, n + w.seen.length ≤ cidCount events + 1 ∧ Ends events (.str g) w n r ∧
      Meets events g c w.above r := by
  have hle := hw.length_le
  induction hleft : cidCount events + 1 - w.seen.length generalizing w c with
  | zero => omega
  | succ left ih =>
      rcases turn_cases (g := g) hn hc with ⟨cid, reason, hturn⟩ | ⟨e, he, hcid, hg, hnew, hturn⟩
      · exact ⟨1, _, by omega, .stop hturn, .broken cid reason⟩
      rcases hturn with ⟨hprev, hroot, hturn⟩ | ⟨p, hprev, hturn⟩
      · have hfirst : Lineage (IsLast events) e [e] := .first hprev (hg.trans hroot.symm)
        exact ⟨1, _, by omega, .stop hturn, .chain he hcid hg hfirst⟩
      · have hw' := hw.cons he.mem hcid hnew
        have hle' := hw'.length_le
        have hlength : (Key.text c :: w.seen).length = w.seen.length + 1 := rfl
        obtain ⟨n, r, hturns, hends, hmeets⟩ :=
          ih (w := ⟨.text c :: w.seen, e :: w.above, .str p⟩) rfl hw' hle' (by dsimp only; omega)
        refine ⟨n + 1, r, by dsimp only at hturns; omega, .go hturn hends, ?_⟩
        cases hmeets with
        | broken cid reason => exact .broken cid reason
        | @chain parent front hparent hp hgp hl =>
            have hlineage := Lineage.next hparent (hprev.trans hp.symm) (hgp.trans hg.symm) hl
            have hmeets : Meets events g c w.above _ := .chain he hcid hg hlineage
            rwa [List.append_assoc] at hmeets

end Walk

/-- A walk from a tip succeeds with a chain that is traced from it, or fails with a break. -/
theorem Walk.Meets.traces_or_broken {r : Except Failure (List Event)}
    (h : Walk.Meets events g tip [] r) :
    (∃ chain, r = .ok chain ∧ Traces events g tip chain) ∨
      ∃ cid reason, r = .error (Chain.broken cid reason (.str g)) := by
  cases h with
  | broken cid reason => exact .inr ⟨cid, reason, rfl⟩
  | @chain e front he hcid hg hl =>
      exact .inl ⟨front, by rw [List.append_nil], traces_of_lineage hl he hcid hg⟩

/-- The chain to a tip is found, or a break, in a turn for each cid and one more at most. -/
theorem exists_ends_toTip (hn : ∀ e ∈ events, e.Named) (g tip : String) :
    ∃ n ≤ Walk.cidCount events + 1,
      Walk.Ends events (.str g) ⟨[], [], .str tip⟩ n (toTip events (.str g) (.str tip)) ∧
      Walk.Meets events g tip [] (toTip events (.str g) (.str tip)) := by
  have hwithin : Walk.Within events [] := ⟨[], rfl, List.nodup_nil, by simp⟩
  obtain ⟨n, r, hturns, hends, hmeets⟩ :=
    Walk.exists_ends (w := ⟨[], [], .str tip⟩) hn g rfl hwithin
  have hcount : Walk.cidCount events ≤ events.length := by
    rw [Walk.cidCount, ← List.length_map (f := Event.cid)]
    exact (List.dedup_sublist _).length_le
  have hall : events.all (·.cid.key?.isSome) = true := by
    refine List.all_eq_true.mpr fun x hx => ?_
    obtain ⟨c, hc⟩ := (hn x hx).cid_text
    simp [hc, Json.key?]
  have hresult : toTip events (.str g) (.str tip) = r := by
    rw [toTip, hall]
    exact hends.walkBack_eq (Nat.le_trans hturns (Nat.succ_le_succ hcount))
  exact ⟨n, hturns, hresult ▸ hends, hresult ▸ hmeets⟩

/-! ## The order of the events -/

theorem latest?_perm {events' : List Event} (hn : ∀ e ∈ events, e.Named)
    (hnodup : (events.map Event.cid).Nodup) (hperm : events'.Perm events) (k : Key) :
    latest? k events' = latest? k events := by
  by_cases h : ∃ e ∈ events, e.cid.key? = some k
  · obtain ⟨e, he, hk⟩ := h
    obtain ⟨c, hc⟩ := (hn e he).cid_text
    obtain rfl : .text c = k := by simpa [hc, Json.key?] using hk
    have honly : ∀ x ∈ events, x.cid.key? = some (.text c) → x = e := by
      intro x hx hxk
      exact List.inj_on_of_nodup_map hnodup hx he ((Json.key?_eq_text_iff.mp hxk).trans hc.symm)
    rw [latest?_eq he hk honly,
      latest?_eq (hperm.mem_iff.mpr he) hk fun x hx => honly x (hperm.mem_iff.mp hx)]
  · have hnone : ∀ l : List Event, l ⊆ events → latest? k l = none := by
      intro l hl
      rw [latest?, List.find?_eq_none]
      intro x hx hk
      exact h ⟨x, hl (List.mem_reverse.mp hx), by simpa using hk⟩
    rw [hnone events' hperm.subset, hnone events (List.Subset.refl _)]

theorem walkBack_congr {events' : List Event} {genesis : Json}
    (h : ∀ k, latest? k events' = latest? k events) (fuel : Nat) (seen : List Key)
    (above : List Event) (cursor : Json) :
    walkBack events' genesis fuel seen above cursor =
      walkBack events genesis fuel seen above cursor := by
  induction fuel generalizing seen above cursor with
  | zero => rfl
  | succ fuel ih => simp only [walkBack, h, ih]

/-- Where no cid occurs twice, the order in which the events are listed does not matter. -/
theorem toTip_perm {events' : List Event} (hn : ∀ e ∈ events, e.Named)
    (hnodup : (events.map Event.cid).Nodup) (hperm : events'.Perm events) (genesis tip : Json) :
    toTip events' genesis tip = toTip events genesis tip := by
  unfold toTip
  rw [hperm.all_eq, hperm.length_eq, walkBack_congr (latest?_perm hn hnodup hperm)]

/-! ## The verdict -/

/--
The chain to a tip is found exactly if the last events of their cids trace one, and then no cid
occurs in it twice; otherwise a break is met.  Either takes at most one turn more than there are
distinct cids, and does not depend on the order of events with distinct cids.
-/
theorem chain_traced_or_broken (hn : ∀ e ∈ events, e.Named) (g tip : String) :
    (∀ chain, toTip events (.str g) (.str tip) = .ok chain ↔ Traces events g tip chain) ∧
    (∀ chain, Traces events g tip chain → (chain.map Event.cid).Nodup) ∧
    ((¬ ∃ chain, Traces events g tip chain) →
      ∃ cid reason, toTip events (.str g) (.str tip) = .error (broken cid reason (.str g))) ∧
    (∃ n ≤ (events.map Event.cid).dedup.length + 1,
      Walk.Ends events (.str g) ⟨[], [], .str tip⟩ n (toTip events (.str g) (.str tip))) ∧
    ((events.map Event.cid).Nodup → ∀ events' : List Event, events'.Perm events →
      toTip events' (.str g) (.str tip) = toTip events (.str g) (.str tip)) := by
  obtain ⟨n, hturns, hends, hmeets⟩ := exists_ends_toTip hn g tip
  refine ⟨fun chain => ⟨?_, fun h => h.toTip_eq hn⟩, fun chain h => h.nodup_cids hn, ?_,
    ⟨n, hturns, hends⟩, fun hnodup events' hperm => toTip_perm hn hnodup hperm _ _⟩
  · intro hok
    rcases hmeets.traces_or_broken with ⟨chain', hchain, htraces⟩ | ⟨cid, reason, hbroken⟩
    · obtain rfl := Except.ok.inj (hok.symm.trans hchain)
      exact htraces
    · cases hok.symm.trans hbroken
  · intro hnone
    rcases hmeets.traces_or_broken with ⟨chain, -, htraces⟩ | hbroken
    · exact absurd ⟨chain, htraces⟩ hnone
    · exact hbroken

/-- A cid that occurs twice, a fork, and a cycle without the tip that leads into it. -/
theorem chain_traced_or_broken_sample :
    let event (c : String) (prev : Json) : Event := ⟨.str c, prev, .str "g", []⟩
    let first := event "g" .null
    let events := [event "a" (.str "missing"), event "b" (.str "a"), event "a" (.str "g"),
      event "fork" (.str "g"), first, event "p" (.str "q"), event "q" (.str "p"),
      event "r" (.str "p")]
    (∀ e ∈ events, e.Named) ∧
      Traces events "g" "b" [first, event "a" (.str "g"), event "b" (.str "a")] ∧
      (¬ ∃ chain, Traces events "g" "r" chain) ∧
      ∃ n ≤ 8, Walk.Ends events (.str "g") ⟨[], [], .str "r"⟩ n
        (.error (broken (.str "p") "cycle in stored chain" (.str "g"))) := by
  intro event first events
  have hn : ∀ e ∈ events, e.Named := by
    have hnamed : ∀ c prev, (prev = .null ∨ ∃ p, prev = .str p) → (event c prev).Named :=
      fun c prev hprev => ⟨⟨c, rfl⟩, ⟨"g", rfl⟩, hprev⟩
    simp only [events, first, List.forall_mem_cons]
    exact ⟨hnamed _ _ (.inr ⟨_, rfl⟩), hnamed _ _ (.inr ⟨_, rfl⟩), hnamed _ _ (.inr ⟨_, rfl⟩),
      hnamed _ _ (.inr ⟨_, rfl⟩), hnamed _ _ (.inl rfl), hnamed _ _ (.inr ⟨_, rfl⟩),
      hnamed _ _ (.inr ⟨_, rfl⟩), hnamed _ _ (.inr ⟨_, rfl⟩), by simp⟩
  obtain ⟨hfound, -⟩ := chain_traced_or_broken hn "g" "b"
  obtain ⟨hlost, -, -, hturns, -⟩ := chain_traced_or_broken hn "g" "r"
  have hcycle : toTip events (.str "g") (.str "r") =
      .error (broken (.str "p") "cycle in stored chain" (.str "g")) := by decide +kernel
  refine ⟨hn, (hfound _).mp (by decide +kernel), ?_, ?_⟩
  · rintro ⟨chain, htraces⟩
    cases hcycle.symm.trans ((hlost chain).mpr htraces)
  · have hcount : (events.map Event.cid).dedup.length = 7 := by decide +kernel
    rw [hcycle, hcount] at hturns
    exact hturns

end Chain

end ChainFold
