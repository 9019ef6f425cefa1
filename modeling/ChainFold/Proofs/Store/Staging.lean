import ChainFold.Proofs.Store.Rows
import ChainFold.Store.Call

/-!
# Staged writes

What a transaction in memory reads and writes through its stage is what it would read
and write in the tables that publishing the stage leaves.  The tables themselves are not
touched before that.
-/

namespace ChainFold

namespace Table

variable {α : Type} {t : Table α} {key : Key} {row : α}

theorem get?_foldl_insert {rows : List (Key × α)} (hasc : rows.Pairwise fun a b => a.1.before b.1)
    (base : Table α) (k : Key) :
    (rows.foldl (fun t p => t.insert p.1 p.2) base).get? k = (lookup k rows).or (base.get? k) := by
  induction rows generalizing base with
  | nil => rfl
  | cons p rest ih =>
      obtain ⟨k', a⟩ := p
      obtain ⟨hhead, hrest⟩ := List.pairwise_cons.mp hasc
      rw [List.foldl_cons, ih hrest, get?_insert]
      by_cases hk : k' = k
      · have hnone : lookup k rest = none := by
          cases hrow : lookup k rest with
          | none => rfl
          | some b => exact absurd hk (Key.ne_of_before (hhead _ (mem_of_lookup hrow)))
        simp [lookup, hk, hnone]
      · simp [lookup, hk]

theorem get?_merge (base top : Table α) (k : Key) :
    (base.merge top).get? k = (top.get? k).or (base.get? k) :=
  get?_foldl_insert top.ascending base k

theorem merge_insert (base top : Table α) (key : Key) (row : α) :
    base.merge (top.insert key row) = (base.merge top).insert key row := by
  refine ext_get? fun k => ?_
  rw [get?_merge, get?_insert, get?_insert, get?_merge]
  split <;> simp

/-- Rows set over others are, in some order, theirs and those under other keys. -/
theorem besides_perm (base top : Table α) :
    (Staged.besides base top ++ top.values).Perm (base.merge top).values := by
  have hrows : ((base.rows.filter fun row => !top.has row.1) ++ top.rows).Perm
      (base.merge top).rows := by
    have hnodup : ((base.rows.filter fun row => !top.has row.1) ++ top.rows).Nodup := by
      refine List.nodup_append'.mpr ⟨base.nodup_rows.filter _, top.nodup_rows, ?_⟩
      rintro ⟨k, a⟩ hbase htop
      have hfree : top.has k = false := by simpa using (List.mem_filter.mp hbase).2
      rw [has_eq_false_iff, mem_rows_iff.mp htop] at hfree
      cases hfree
    refine (List.perm_ext_iff_of_nodup hnodup (base.merge top).nodup_rows).mpr ?_
    rintro ⟨k, a⟩
    rw [List.mem_append, List.mem_filter, mem_rows_iff, mem_rows_iff, mem_rows_iff, get?_merge]
    cases htop : top.get? k <;> simp [has, htop]
  have hvalues := hrows.map (·.2)
  rwa [List.map_append] at hvalues

end Table

namespace Staged

/-! ## Reading -/

variable {s : Staged}

theorem publish_begin (t : Tables) : (begin t).publish = t := rfl

theorem keyOf_eq (id : Json) : keyOf id = Backend.memory.keyOf id := rfl

theorem seek_memory {α : Type} (t : Table α) (id : Json) :
    Backend.memory.seek t id = t.get? <$> keyOf id := by
  unfold keyOf Backend.seek Backend.keyOf
  cases id <;> rfl

theorem event?_publish (s : Staged) (cid : Json) : s.event? cid = s.publish.event? .memory cid := by
  rw [event?, Tables.event?, seek_memory]
  cases keyOf cid with
  | error f => rfl
  | ok k => exact congrArg Except.ok (Table.get?_merge s.base.events s.stage.events k).symm

theorem streamAt?_publish (s : Staged) (k : Key) : s.streamAt? k = s.publish.streams.get? k :=
  (Table.get?_merge s.base.streams s.stage.streams k).symm

theorem stream?_publish (s : Staged) (id : Json) : s.stream? id = s.publish.stream? .memory id := by
  rw [stream?, Tables.stream?, Tables.row?, seek_memory]
  cases keyOf id with
  | error f => rfl
  | ok k =>
      rw [map_ok, map_ok, ok_bind, streamAt?_publish]
      cases s.publish.streams.get? k <;> rfl

/-- The events of a chain are those in the published tables, in some order. -/
theorem eventsOf_perm (s : Staged) (genesis : Json) :
    (s.eventsOf genesis).Perm
      (s.publish.events.values.filter (·.genesis.looselySame genesis)) :=
  (Table.besides_perm s.base.events s.stage.events).filter _

theorem listStreams_publish (s : Staged) (f : Filter) :
    s.listStreams f = s.publish.listStreams .memory f := rfl

theorem findStream_publish (s : Staged) (model key value : Json) :
    s.findStream model key value = s.publish.findStream .memory model key value := rfl

theorem folder?_publish (s : Staged) (id : Json) :
    s.folder? id = s.publish.folder? .memory id := by
  rw [folder?, Tables.folder?, seek_memory]
  rfl

theorem signalFolders_publish (s : Staged) : s.signalFolders = s.publish.signalFolders := rfl

/-! ## Writing -/

/--
A write to the stage comes to what the same write to the published tables comes to, and
leaves the tables that are open beneath it.
-/
def Follows {α : Type} (s : Staged) (staged : Except Failure (α × Staged))
    (direct : Except Failure (α × Tables)) : Prop :=
  staged.map (fun p => (p.1, p.2.publish)) = direct ∧
    ∀ p, staged = .ok p → p.2.base = s.base

variable {α : Type}

theorem Follows.error (f : Failure) :
    s.Follows (.error f : Except Failure (α × Staged)) (.error f) := by
  refine ⟨rfl, ?_⟩
  intro p hp
  cases hp

theorem Follows.ok {a : α} {s' : Staged} {t' : Tables} (hpublish : s'.publish = t')
    (hbase : s'.base = s.base) : s.Follows (.ok (a, s')) (.ok (a, t')) := by
  refine ⟨congrArg (fun t => Except.ok (a, t)) hpublish, ?_⟩
  intro p hp
  obtain rfl := Except.ok.inj hp
  exact hbase

/-- What follows a write also follows it as an answer. -/
theorem Follows.answer {staged : Except Failure (α × Staged)}
    {direct : Except Failure (α × Tables)} (h : s.Follows staged direct) (make : α → Answer) :
    s.Follows (staged.map fun p => (make p.1, p.2)) (direct.map fun p => (make p.1, p.2)) := by
  obtain ⟨rfl, hbase⟩ := h
  cases staged with
  | error f => exact .error f
  | ok p => exact .ok rfl (hbase p rfl)

theorem follows_look (make : α → Answer) {peek look : Except Failure α} (h : peek = look) :
    s.Follows ((fun a => (make a, s)) <$> peek) ((fun a => (make a, s.publish)) <$> look) := by
  subst h
  cases peek with
  | error f => exact .error f
  | ok a => exact .ok rfl rfl

theorem Follows.exists_ok {staged : Except Failure (α × Staged)}
    {direct : Except Failure (α × Tables)} (h : s.Follows staged direct) {a : α} {t : Tables}
    (hdirect : direct = .ok (a, t)) :
    ∃ s', staged = .ok (a, s') ∧ s'.publish = t ∧ s'.base = s.base := by
  obtain ⟨rfl, hbase⟩ := h
  cases staged with
  | error f => cases hdirect
  | ok p =>
      obtain ⟨rfl, rfl⟩ := Prod.mk.inj (Except.ok.inj hdirect)
      exact ⟨p.2, rfl, rfl, hbase p rfl⟩

theorem Follows.eq_error {staged : Except Failure (α × Staged)}
    {direct : Except Failure (α × Tables)} (h : s.Follows staged direct) {f : Failure}
    (hdirect : direct = .error f) : staged = .error f := by
  obtain ⟨rfl, -⟩ := h
  cases staged with
  | error f' => exact congrArg Except.error (Except.error.inj hdirect)
  | ok p => cases hdirect

theorem insertEvent_follows (s : Staged) (e : Event) :
    s.Follows (s.insertEvent e) (s.publish.insertEvent .memory e) := by
  have htaken : ∀ k, s.publish.events.has k = (s.eventAt? k).isSome := by
    intro k
    exact congrArg Option.isSome (Table.get?_merge s.base.events s.stage.events k)
  unfold insertEvent Tables.insertEvent
  rw [show Backend.memory.keptEvent e = .ok e from rfl, ok_bind, ← keyOf_eq]
  cases keyOf e.cid with
  | error f => exact .error f
  | ok k =>
      simp only [ok_bind, htaken, Backend.isCompleteEvent, Backend.refusesRow,
        show Backend.memory.isRelational = false from rfl, Bool.not_false, Bool.true_or,
        Bool.not_true, Bool.false_and, Bool.false_eq_true, if_false]
      cases (s.eventAt? k).isSome with
      | true => exact .ok rfl rfl
      | false =>
          refine .ok ?_ rfl
          simp only [publish, Table.merge_insert]

theorem publish_setStream (s : Staged) (k : Key) (row : Stream) :
    (s.setStream k row).publish = s.publish.setStream k row := by
  simp only [publish, setStream, Tables.setStream, Table.merge_insert]

theorem insertStream_follows (s : Staged) (row : Stream) :
    s.Follows (s.insertStream row) (s.publish.insertStream .memory row) := by
  have htaken : ∀ k, s.publish.streams.has k = (s.streamAt? k).isSome := by
    intro k
    exact congrArg Option.isSome (streamAt?_publish s k).symm
  unfold insertStream Tables.insertStream
  rw [show Backend.memory.keptStream row = .ok row from rfl, ok_bind, ← keyOf_eq]
  cases keyOf row.id with
  | error f => exact .error f
  | ok k =>
      simp only [ok_bind, htaken, Backend.isCompleteStream, Backend.refusesRow,
        show Backend.memory.isRelational = false from rfl, Bool.not_false, Bool.true_or,
        Bool.not_true, Bool.false_and, Bool.false_eq_true, if_false]
      cases (s.streamAt? k).isSome with
      | true => exact .ok rfl rfl
      | false => exact .ok (publish_setStream s k row) rfl

theorem putFolder_follows (s : Staged) (f : Folder) :
    s.Follows ((fun s' => ((), s')) <$> s.putFolder f)
      ((fun t' => ((), t')) <$> s.publish.putFolder .memory f) := by
  unfold putFolder Tables.putFolder
  rw [show Backend.memory.keptFolder f = .ok f from rfl, ok_bind, ← keyOf_eq]
  cases keyOf f.stream with
  | error f => exact .error f
  | ok k =>
      refine .ok ?_ rfl
      simp only [publish, Table.merge_insert]

/-- A tip is moved in the stage as in the published tables, where streams have texts for ids. -/
theorem swapTip_follows (s : Staged) (hn : s.publish.StreamsNamed) (id : String)
    (expected new content : Json) :
    s.Follows (s.swapTip (.str id) expected new content)
      (s.publish.swapTip .memory (.str id) expected new content) := by
  have hselect : Backend.memory.select [⟨.str id, Stream.id⟩, ⟨expected, Stream.tip⟩]
      s.publish.streams.values = .ok ((s.publish.streams.get? (.text id)).filter
        fun row => row.tip.looselySame expected).toList := by
    have hmemory : (!Backend.memory.isRelational) = true := rfl
    unfold Backend.select
    rw [if_pos hmemory, Table.filter_values (.text id)]
    · congr 2
      cases hrow : s.publish.streams.get? (.text id) with
      | none => rfl
      | some row =>
          obtain ⟨id', hkey, hid⟩ := hn _ _ hrow
          obtain rfl : id = id' := Key.text.inj hkey
          simp [Option.filter, hid, Json.looselySame_text_right]
    · intro key row hrow hall
      obtain ⟨id', hkey, hid⟩ := hn _ _ hrow
      simp only [List.all_cons, hid, Json.looselySame_text_right, Json.str.injEq,
        Bool.and_eq_true, decide_eq_true_eq] at hall
      rw [hkey, hall.1]
  unfold swapTip Tables.swapTip
  rw [show Backend.memory.column new = .ok new from rfl, ok_bind, hselect, ok_bind, keyOf_eq,
    Backend.keyOf_text, ok_bind, streamAt?_publish]
  cases hrow : s.publish.streams.get? (.text id) with
  | none => exact .ok rfl rfl
  | some row =>
      obtain ⟨id', hkey, hid⟩ := hn _ _ hrow
      obtain rfl : id = id' := Key.text.inj hkey
      cases htip : row.tip.looselySame expected with
      | false =>
          simp only [Option.filter, htip, Bool.false_eq_true, if_false, Option.toList]
          exact .ok rfl rfl
      | true =>
          have hnew : Tables.newTip .memory new content = .ok new := by
            simp [Tables.newTip, Backend.isRelational, Backend.takes]
          simp only [Option.filter, htip, if_true, Option.toList, hnew, hid, Backend.keyOf_text,
            ok_bind]
          exact .ok (publish_setStream s _ _) rfl

end Staged

end ChainFold
