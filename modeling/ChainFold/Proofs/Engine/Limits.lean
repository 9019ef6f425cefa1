import ChainFold.Proofs.Engine.Provenance

/-!
# The limits of a runtime

A runtime has limits that values of a logic have not: it may stop where values are nested too
deep, and its strings may hold one half of a pair of code units.  A submission stays within
them if its first block does, and the content that it starts, or that its patch makes on the
way.  Then so do all contents that a run keeps.
-/

namespace ChainFold

/-! ## Values and their texts -/

namespace Json

mutual

/-- How many levels of arrays and objects a value has. -/
def depth : Json → Nat
  | .arr items => depthOfItems items + 1
  | .obj members => depthOfMembers members + 1
  | _ => 0

def depthOfItems : List Json → Nat
  | [] => 0
  | j :: rest => max j.depth (depthOfItems rest)

def depthOfMembers : List (String × Json) → Nat
  | [] => 0
  | (_, j) :: rest => max j.depth (depthOfMembers rest)

end

/--
The most brackets that are open at once in a text, of which `opened` are open before it;
those in a string, inside of which it starts if `quoted`, do not count.
-/
def nesting : (quoted : Bool) → (opened : Nat) → List Char → Nat
  | _, opened, [] => opened
  | true, opened, '\\' :: _ :: rest => nesting true opened rest
  | quoted, opened, '"' :: rest => nesting (!quoted) opened rest
  | true, opened, _ :: rest => nesting true opened rest
  | false, opened, c :: rest =>
    if c == '[' || c == '\x7b' then nesting false (opened + 1) rest
    else if c == ']' || c == '\x7d' then max opened (nesting false (opened - 1) rest)
    else nesting false opened rest

/--
Whether one half of a pair of code units is escaped without the other; `pending` says that
a first half stands right before the text.
-/
def hasLoneHalf : (pending : Bool) → List Char → Bool
  | pending, [] => pending
  | pending, '\\' :: 'u' :: a :: b :: c :: d :: rest =>
    match unit? a b c d with
    | none => pending
    | some n =>
      if isTrail n then !pending || hasLoneHalf false rest
      else pending || hasLoneHalf (isLead n) rest
  | pending, '\\' :: _ :: rest => pending || hasLoneHalf false rest
  | pending, _ :: rest => pending || hasLoneHalf false rest

/-- Whether a reader that bears fewer than `levels` levels gets through a byte string. -/
def isBorne (levels : Nat) (bs : Bytes) : Bool :=
  match Text.ofUtf8? bs with
  | none => true
  | some s => !hasLoneHalf false s.toList && decide (nesting false 0 s.toList < levels)

theorem depthOfItems_eq_foldr (items : List Json) :
    depthOfItems items = (items.map depth).foldr max 0 := by
  induction items with
  | nil => rfl
  | cons j rest ih => rw [depthOfItems, ih, List.map_cons, List.foldr_cons]

theorem depthOfMembers_eq_foldr (ms : Members) :
    depthOfMembers ms = (ms.map (·.2.depth)).foldr max 0 := by
  induction ms with
  | nil => rfl
  | cons m rest ih => rw [depthOfMembers, ih, List.map_cons, List.foldr_cons]

/-- The order of members makes no difference to how deep a value is. -/
theorem depth_sortKeys (j : Json) : j.sortKeys.depth = j.depth := by
  induction j using inductionOnParts with
  | null | bool | int | double | str => rfl
  | arr items ih =>
      rw [sortKeys_arr, depth, depth, depthOfItems_eq_foldr, depthOfItems_eq_foldr, List.map_map]
      exact congrArg (fun ds => ds.foldr max 0 + 1) (List.map_congr_left ih)
  | obj ms ih =>
      rw [sortKeys_obj, depth, depth, depthOfMembers_eq_foldr, depthOfMembers_eq_foldr,
        ((Members.sortByKey_perm _).map _).foldr_eq, List.map_map]
      exact congrArg (fun ds => ds.foldr max 0 + 1) (List.map_congr_left ih)

end Json

/-! ## Contents -/

/-- Whether the text that encoded options stand for, in either alphabet, is borne. -/
def Signal.bearsOptions (levels : Nat) : (options : Json) → Bool
  | .str s =>
    [Text.Base64.decode, Text.Base64.decodeUrlSafe].all fun decoder =>
      match decoder (padded s.toList) with
      | .error _ => true
      | .ok bs => Json.isBorne levels bs
  | _ => true

/-- Whether a content has fewer than `levels` levels, and its options are borne. -/
def Json.isBorneContent (levels : Nat) (content : Json) : Bool :=
  decide (content.depth < levels) &&
    match content with
    | .obj ms => Signal.bearsOptions levels (field "options" ms)
    | _ => true

/-- Whether a content is borne after each operation of a patch, as far as they can be applied. -/
def Json.Patch.isBorne (levels : Nat) : (patch : List Json) → Json → Bool
  | [], doc => doc.isBorneContent levels
  | op :: rest, doc =>
    decide (doc.depth < levels) &&
      match (Operation.read? op).bind (·.result? doc) with
      | none => true
      | some doc' => isBorne levels rest doc'

theorem Signal.bearsOptions_sortKeys (levels : Nat) (j : Json) :
    bearsOptions levels j.sortKeys = bearsOptions levels j := by
  cases j <;> rfl

theorem Json.Tidy.isBorneContent_sortKeys {j : Json} (h : j.Tidy) (levels : Nat) :
    j.sortKeys.isBorneContent levels = j.isBorneContent levels := by
  unfold isBorneContent
  rw [depth_sortKeys]
  cases j with
  | null | bool | int | double | str | arr => rfl
  | obj ms =>
      obtain ⟨hn, -⟩ := tidy_obj_iff.mp h
      have hfield : Json.field "options" (Members.sortByKey (ms.map fun m => (m.1, m.2.sortKeys))) =
          (Json.field "options" ms).sortKeys := by
        unfold Json.field
        rw [Members.get?_sortByKey (nodup_keys_sortMembers hn), Members.get?_map]
        cases Members.get? "options" ms <;> rfl
      simp only [sortKeys_obj, hfield, Signal.bearsOptions_sortKeys]

/-- A backend bears what it keeps exactly if it bears what it is given. -/
theorem Backend.isBorneContent_keptJson (b : Backend) {j : Json} (h : j.Tidy) (levels : Nat) :
    (b.keptJson j).isBorneContent levels = j.isBorneContent levels := by
  unfold keptJson
  split
  · exact h.isBorneContent_sortKeys levels
  · rfl

namespace Json.Patch

variable {levels : Nat}

theorem isBorneContent_of_result? {patch : List Json} {doc doc' : Json}
    (h : isBorne levels patch doc = true) (hresult : result? patch doc = some doc') :
    doc'.isBorneContent levels = true := by
  induction patch generalizing doc with
  | nil =>
      obtain rfl : doc = doc' := by simpa [result?, resultOfAll?] using hresult
      exact h
  | cons op rest ih =>
      obtain ⟨o, os, hop, hrest, happlied⟩ : ∃ o os, Operation.read? op = some o ∧
          rest.mapM Operation.read? = some os ∧ resultOfAll? (o :: os) doc = some doc' := by
        simpa [result?, List.mapM_cons, Option.bind_eq_some_iff] using hresult
      obtain ⟨doc₁, hdoc₁, hdoc'⟩ := Option.bind_eq_some_iff.mp happlied
      simp only [isBorne, hop, Option.bind_some, hdoc₁, Bool.and_eq_true] at h
      exact ih h.2 (by simp [result?, hrest, hdoc'])

theorem isBorneContent_of_patched {e : Event} {p : Payload} {content content' : Json}
    (h : isBorne levels ((p.data.bind Json.parts?).getD []) content = true)
    (hpatched : Fold.State.patched e p content = .ok content') :
    content'.isBorneContent levels = true := by
  unfold Fold.State.patched at hpatched
  split at hpatched
  · rename_i hdata
    obtain rfl := Except.ok.inj hpatched
    simpa [hdata, isBorne] using h
  · rename_i patch hdata
    split at hpatched
    · cases hpatched
    · rename_i result hresult
      split at hpatched
      · obtain rfl := Except.ok.inj hpatched
        exact isBorneContent_of_result? (by simpa [hdata] using h) hresult
      · cases hpatched

end Json.Patch

/-! ## Submissions and runs -/

/-- Every content that is kept in a row is borne. -/
def Tables.AreBorne (levels : Nat) (t : Tables) : Prop :=
  ∀ k row, t.streams.get? k = some row → row.content.isBorneContent levels = true

theorem Tables.AreBorne.insert {levels : Nat} {t t' : Tables} (h : t.AreBorne levels) {key : Key}
    {row : Stream} (hstreams : t'.streams = t.streams.insert key row)
    (hrow : row.content.isBorneContent levels = true) : t'.AreBorne levels := by
  intro k row' hrow'
  rw [hstreams, Table.get?_insert] at hrow'
  split at hrow'
  · exact Option.some.inj hrow' ▸ hrow
  · exact h k row' hrow'

namespace Engine

/--
Whether a submission stays within the limits of a runtime that bears fewer than `levels`
levels: in the first block of the event, and in the content that the event starts or leads to.
-/
def bears (levels : Nat) (en : Engine) (e : Event) : Bool :=
  (match e.blocks.head? with
    | some (.bytes bs) => Json.isBorne levels bs
    | _ => true) &&
  match e.payload with
  | .error _ => true
  | .ok p =>
    if e.isGenesis then (p.data.getD (.obj [])).isBorneContent levels
    else en.tables.streams.values.all fun row =>
      row.tip != e.prev ||
        Json.Patch.isBorne levels ((p.data.bind Json.parts?).getD []) row.content

/-- Whether a call stays within them; calls that submit nothing bring nothing new. -/
def carries (levels : Nat) (en : Engine) : Operation → Bool
  | .submit e _ => en.bears levels e
  | _ => true

/-- The engines that runs reach within the limits. -/
inductive ReachesWithin (levels : Nat) (en : Engine) : Engine → Prop
  | refl : ReachesWithin levels en en
  | step {now : Engine} (op : Operation) :
      ReachesWithin levels en now →
      now.carries levels op = true →
      ReachesWithin levels en (now.perform op).2

variable {levels : Nat} {en now : Engine}

/-- What is filed within the limits leaves contents that are borne. -/
theorem Steady.areBorne_of_filed (hst : en.Steady) (h : en.tables.AreBorne levels) {e : Event}
    (hwf : e.WellFormed) (hbears : en.bears levels e = true) {c id : String} {t : Tables}
    {r : Receipt} (hfiled : Filed en.backend en.desk.heldAt en.tables e c id t r) :
    t.AreBorne levels := by
  obtain ⟨-, hbears⟩ := Bool.and_eq_true_iff.mp hbears
  cases hfiled with
  | duplicate _ _ ht => exact ht ▸ h
  | beside _ _ _ _ ht => exact ht ▸ h
  | @created owner s hnew hprev hrow hstate hevents hstreams =>
      refine h.insert hstreams ?_
      show (en.backend.keptJson s.content).isBorneContent levels = true
      rw [en.backend.isBorneContent_keptJson (Fold.State.sane_of_ofGenesis hstate).tidy]
      obtain ⟨p, hp, hcontent⟩ := Fold.State.content_of_ofGenesis hstate
      simpa [hp, Fold.State.isGenesis_of_ofGenesis hstate, hcontent] using hbears
  | @advanced row parent s hnew hparent hprev hgenesis hrow hmoves hstate hevents hstreams =>
      refine h.insert hstreams ?_
      obtain ⟨g, tip, chain, s₀, -, hp⟩ := hst.sound.projects _ row hrow
      -- What is held may have its members in another order, so the row's own content is patched.
      have hcurrent := (agree_currentOf hst.fits hrow hp).trans hp.agree.symm
      obtain ⟨s₁, hs₁, hagree⟩ := hcurrent.exists_advance hstate
      have hsane := Fold.State.sane_of_advance (hp.agree.sane hp.sane) hs₁
      show (en.backend.keptJson s.content).isBorneContent levels = true
      rw [hagree.content.keptJson_eq, en.backend.isBorneContent_keptJson hsane.tidy]
      obtain ⟨p, content, hpayload, hpatched, rfl⟩ := Fold.State.exists_patched_of_advance hs₁
      refine Json.Patch.isBorneContent_of_patched ?_ hpatched
      obtain ⟨c', hc', -⟩ := (hst.sound.wellFormed_of_stores hparent).cid_text
      have hlater : e.isGenesis = false := by simp [hwf.isGenesis_eq, hprev, hc']
      simp only [hpayload, hlater, Bool.false_eq_true, if_false, List.all_eq_true] at hbears
      have hborne := hbears row (Table.mem_values_iff.mpr ⟨_, hrow⟩)
      simpa [hmoves, Fold.State.ofRow] using hborne

theorem Steady.areBorne_of_submit (hst : en.Steady) (h : en.tables.AreBorne levels) {e : Event}
    (hbears : en.bears levels e = true) (claim : OwnerClaim) :
    (en.submit e claim).2.tables.AreBorne levels := by
  cases hst.commits e claim with
  | failed f d heq =>
      rw [heq]
      exact h
  | answered c g r h' d hadm hwf hc hg hres hfiled heq =>
      rw [heq]
      exact hst.areBorne_of_filed h hwf hbears hfiled

theorem Steady.areBorne_of_perform (hst : en.Steady) (h : en.tables.AreBorne levels)
    {op : Operation} (hop : en.carries levels op = true) :
    (en.perform op).2.tables.AreBorne levels := by
  cases op with
  | submit e claim => exact hst.areBorne_of_submit h hop claim
  | rebuild id =>
      have hstreams : (en.perform (.rebuild id)).2.tables.streams = en.tables.streams :=
        (hst.rebuild_tables id).2
      exact fun k row hrow => h k row (hstreams ▸ hrow)
  | branch | getStream | getFolder | getEvent | loadEvents | listStreams | findByContent
  | queryBySignal | signals | register => exact h

theorem ReachesWithin.steady (hr : en.ReachesWithin levels now) (h : en.Steady) : now.Steady := by
  induction hr with
  | refl => exact h
  | step op _ _ ih => exact ih.perform op

/-- In every run within the limits over an empty store all contents that are kept are borne. -/
theorem Fresh.areBorne (h : en.Fresh) (hr : en.ReachesWithin levels now) :
    now.tables.AreBorne levels := by
  induction hr with
  | refl => simp [h.tables_eq, Tables.AreBorne, Tables.empty]
  | step op hr hop ih => exact (hr.steady h.steady).areBorne_of_perform ih hop

end Engine

end ChainFold
