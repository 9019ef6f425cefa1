import ChainFold.Proofs.Engine.Refusals
import ChainFold.Proofs.Event.Envelope
import ChainFold.Proofs.Fold.Agreement
import ChainFold.Proofs.Json.Restoring

/-!
# Folding from contents that were stored

The content of a state can be stored as a text and read back; it comes back with the keys of
its objects in order.  If it was read from a text before, folding cannot tell the difference:
from either content an event is refused for the same reason, or both folds come to contents
with one canonical text.  The same holds of any number of events, behind each of which the
content may be stored and read back or not.
-/

namespace ChainFold

/-! ## Payloads that were read -/

namespace Payload

variable {cid : Json} {atGenesis : Bool} {p : Payload} {d : Json}

theorem data_of_ofMembers {ms : Members} (h : ofMembers cid atGenesis ms = .ok p)
    (hd : p.data = some d) : d = Json.field "data" ms := by
  unfold ofMembers at h
  dsimp only at h
  split at h
  · cases h
  · split at h
    · split at h
      · cases h
      · split at h
        · obtain rfl := Except.ok.inj h
          dsimp only at hd
          generalize Json.field "data" ms = data at hd
          cases data <;> simp_all [Json.nonNull]
        · cases h
    · split at h
      · obtain rfl := Except.ok.inj h
        cases hd
      · rename_i items hdata
        obtain rfl := Except.ok.inj h
        exact (Option.some.inj hd).symm.trans hdata.symm
      · cases h

theorem exists_of_read {first : Option Block} (h : read cid atGenesis first = .ok p)
    (hd : p.data = some d) :
    ∃ bs ms, Json.readBytes bs = .ok (.obj ms) ∧ d = Json.field "data" ms := by
  have hofBytes : ∀ bs, ofBytes cid atGenesis bs = .ok p →
      ∃ bs ms, Json.readBytes bs = .ok (.obj ms) ∧ d = Json.field "data" ms := by
    intro bs h
    unfold ofBytes at h
    split at h
    · obtain rfl := Except.ok.inj h
      cases hd
    · cases h
    · rename_i ms hread
      exact ⟨bs, ms, hread, data_of_ofMembers h hd⟩
    · cases h
  unfold read at h
  split at h
  · cases h
  · split at h
    · split at h
      · obtain rfl := Except.ok.inj h
        cases hd
      · cases h
    · split at h
      · exact hofBytes _ h
      · cases h
      · cases h

end Payload

theorem Event.restorable_of_payload {e : Event} {p : Payload} {d : Json}
    (h : e.payload = .ok p) (hd : p.data = some d) : d.Restorable := by
  obtain ⟨bs, ms, hread, rfl⟩ := Payload.exists_of_read h hd
  exact (Json.restorable_of_readBytes hread).field "data"

namespace Fold.State

variable {s s' : State} {e : Event}

/-! ## Storing the content of a state -/

/-- The state with its content stored as a text and read back, as a database keeps it. -/
def restore (s : State) : Except Failure State :=
  match Json.readText s.content.archived with
  | .ok content => .ok { s with content := content }
  | .error .malformed => .error (.defect .notJson)
  | .error .hugeInteger => .error (.defect .badValue)

/-- The state after events, behind each of which the content is restored if so marked. -/
def advanceStoring : State → List (Event × Bool) → Except Failure State
  | s, [] => .ok s
  | s, (e, stored) :: rest => do
    let next ← s.advance e
    let kept ← if stored then next.restore else pure next
    advanceStoring kept rest

/-- A content that can be restored comes back with the keys of its objects in order. -/
theorem restore_eq (h : s.content.Restorable) :
    s.restore = .ok { s with content := s.content.sortKeys } := by
  rw [restore, h.readText_archived]

/-- A state that is restored agrees with what it was where the order of keys is not kept. -/
theorem agree_of_restore (h : s.content.Restorable) (hs : s.restore = .ok s') :
    s'.Agree .sqlite s ∧ s'.content.Restorable := by
  rw [restore_eq h] at hs
  obtain rfl := Except.ok.inj hs
  exact ⟨⟨rfl, (Backend.agree_iff_alike rfl).mpr h.tidy.alike_sortKeys, rfl, rfl⟩, h.sortKeys⟩

theorem restorable_of_patched {p : Payload} {x x' : Json} (hp : e.payload = .ok p)
    (hx : x.Restorable) (h : patched e p x = .ok x') : x'.Restorable := by
  unfold patched at h
  split at h
  · exact Except.ok.inj h ▸ hx
  · rename_i patch hdata
    have hpatch : patch.Restorable := Event.restorable_of_payload hp hdata
    split at h
    · cases h
    · rename_i result hresult
      split at h
      · obtain rfl := Except.ok.inj h
        exact hx.result? (fun part hpart => hpatch.parts hpart) hresult
      · cases h

theorem restorable_of_advance (hs : s.content.Restorable) (h : s.advance e = .ok s') :
    s'.content.Restorable := by
  obtain ⟨p, content, hp, hpatched, rfl⟩ := exists_patched_of_advance h
  exact restorable_of_patched hp hs hpatched

/-! ## One fold and another -/

/--
The same failure, or states with the same tip, model and account, whose contents have one
canonical text.
-/
def SameFold : Except Failure State → Except Failure State → Prop
  | .ok s, .ok s' =>
    s.tip = s'.tip ∧ s.content.canonical = s'.content.canonical ∧
      s.model = s'.model ∧ s.account = s'.account
  | .error f, .error f' => f = f'
  | _, _ => False

theorem AgreeOn.sameFold {b : Backend} {r r' : Except Failure State} (h : AgreeOn b r r') :
    SameFold r r' := by
  cases r with
  | error f =>
      rw [h.error_left]
      rfl
  | ok s =>
      obtain ⟨s', rfl, hagree⟩ := h.ok_left
      exact ⟨hagree.tip, hagree.content.canonical_eq, hagree.model, hagree.account⟩

/-- Restoring contents on the way leads to the same refusal, or to a state that agrees. -/
theorem Agree.advanceStoring (h : s.Agree .sqlite s') (hs : s.content.Restorable)
    (hs' : s'.content.Restorable) (steps : List (Event × Bool)) :
    AgreeOn .sqlite (s.advanceAll (steps.map Prod.fst)) (s'.advanceStoring steps) := by
  induction steps generalizing s s' with
  | nil => exact h
  | cons step rest ih =>
      obtain ⟨e, stored⟩ := step
      have hstep := h.advance e
      rw [List.map_cons, State.advanceAll, State.advanceStoring]
      cases hnext : s.advance e with
      | error f =>
          rw [hnext] at hstep
          rw [hstep.error_left]
          rfl
      | ok next =>
          rw [hnext] at hstep
          obtain ⟨next', hnext', hagree⟩ := hstep.ok_left
          have hr : next.content.Restorable := restorable_of_advance hs hnext
          have hr' : next'.content.Restorable := restorable_of_advance hs' hnext'
          rw [hnext', ok_bind]
          cases stored with
          | false => exact ih hagree hr hr'
          | true =>
              have hrestored := restore_eq hr'
              obtain ⟨hback, hkept⟩ := agree_of_restore hr' hrestored
              simp only [if_true, hrestored, ok_bind]
              exact ih (hagree.trans hback.symm) hr hkept

end Fold.State

/-! ## How folds are refused -/

/--
How an event is refused in a fold: it is malformed, or its first block has an integer with
more digits than are converted.
-/
def Event.Refuses (e : Event) (f : Failure) : Prop :=
  (∃ reason, f = .malformedEvent e.cid reason) ∨ f = .defect .badValue ∧ e.HasUntaken .badValue

/-- The payload of an event that starts no chain is refused only in these ways. -/
theorem Event.Enclosable.payload_refuses {e : Event} (h : e.Enclosable)
    (hlater : e.isGenesis = false) : FailsOnly e.Refuses e.payload := by
  cases hhead : e.blocks.head? with
  | none =>
      rw [Event.payload, hhead]
      exact .error (.inl ⟨_, rfl⟩)
  | some b =>
      rcases h.blocks_bytes b (List.mem_of_head? hhead) with rfl | ⟨bs, rfl⟩
      · rw [Event.payload, hhead]
        exact .error (.inl ⟨_, rfl⟩)
      · rw [payload_of_bytes hhead, Payload.ofBytes]
        cases hread : Json.readBytes bs with
        | error fault =>
            cases fault with
            | malformed => exact .ok _
            | hugeInteger => exact .error (.inr ⟨rfl, .integer hhead hread⟩)
        | ok j =>
            cases j with
            | null | bool | int | double | str | arr => exact .error (.inl ⟨_, rfl⟩)
            | obj ms =>
                intro f hf
                rcases Payload.exists_malformed_of_ofMembers hf with hmalformed | ⟨d, rfl⟩
                · exact .inl hmalformed
                · obtain ⟨hgenesis, -⟩ := Payload.ofMembers_eq_defect_iff.mp hf
                  rw [hlater] at hgenesis
                  cases hgenesis

namespace Fold.State

variable {s : State} {e : Event}

theorem isGenesis_eq_false_of_follows {tip : String} (htip : s.tip = .str tip)
    (h : e.prev.looselySame s.tip = true) : e.isGenesis = false := by
  rw [htip, Json.looselySame_text_right, decide_eq_true_eq] at h
  simp [Event.isGenesis, h]

theorem advance_refuses (he : e.Enclosable) {tip : String} (htip : s.tip = .str tip) :
    FailsOnly e.Refuses (s.advance e) := by
  intro f hf
  cases hp : e.payload with
  | ok p => exact .inl (malformed_of_advance hp hf)
  | error f' =>
      by_cases hfollows : e.prev.looselySame s.tip = true
      · have hlater := isGenesis_eq_false_of_follows htip hfollows
        have hsame : f' = f := by simpa [State.advance, hfollows, hp] using hf
        exact hsame ▸ he.payload_refuses hlater f' hp
      · simp only [State.advance, hfollows, Bool.not_false, if_true, Except.error.injEq] at hf
        exact .inl ⟨_, hf.symm⟩

theorem advanceAll_refuses {events : List Event} (hevents : ∀ e ∈ events, e.Enclosable)
    {tip : String} (htip : s.tip = .str tip) :
    FailsOnly (fun f => ∃ e ∈ events, e.Refuses f) (s.advanceAll events) := by
  induction events generalizing s tip with
  | nil => exact .ok _
  | cons e rest ih =>
      obtain ⟨he, hrest⟩ := List.forall_mem_cons.mp hevents
      unfold State.advanceAll
      cases hnext : s.advance e with
      | error f => exact .error ⟨e, List.mem_cons_self, advance_refuses he htip f hnext⟩
      | ok next =>
          obtain ⟨c, hc⟩ := he.cid_text
          obtain ⟨hnexttip, -⟩ := fixed_of_advance hnext
          refine (ih hrest (hnexttip.trans hc)).mono ?_
          rintro f ⟨x, hx, hf⟩
          exact ⟨x, List.mem_cons_of_mem e hx, hf⟩

/-- An integer that is too long is refused as soon as its event follows the tip. -/
theorem advance_of_hugeInteger (hfollows : e.prev.looselySame s.tip = true)
    (h : e.HasUntaken .badValue) : s.advance e = .error (.defect .badValue) := by
  obtain ⟨hhead, hread⟩ := h
  simp [State.advance, hfollows, Event.payload_of_bytes hhead, Payload.ofBytes, hread]

/-! ## Folding from what was stored -/

/-- Folding from a content, and from the content that is read back from its stored text. -/
structure FoldsRestored (s : State) : Prop where
  /-- The content is read back with the keys of its objects in order. -/
  restores : s.restore = .ok { s with content := s.content.sortKeys }
  /-- This is what a relational backend keeps of it. -/
  kept : ∀ b : Backend, b.isRelational = true →
    s.restore = .ok { s with content := b.keptJson s.content }
  step : ∀ s', s.restore = .ok s' → ∀ e, SameFold (s.advance e) (s'.advance e)
  run : ∀ s', s.restore = .ok s' → ∀ steps : List (Event × Bool),
    SameFold (s.advanceAll (steps.map Prod.fst)) (s.advanceStoring steps) ∧
      SameFold (s.advanceAll (steps.map Prod.fst)) (s'.advanceStoring steps)
  /-- A fold is refused because an event is malformed, or has an integer that is too long. -/
  refused : ∀ tip, s.tip = .str tip → ∀ events : List Event, (∀ e ∈ events, e.Enclosable) →
    FailsOnly (fun f => ∃ e ∈ events, e.Refuses f) (s.advanceAll events)
  escapes : ∀ e, e.prev.looselySame s.tip = true → e.HasUntaken .badValue →
    s.advance e = .error (.defect .badValue)

/--
A content that was read from a text, with NaN and infinities or without, folds like what is
read back from its stored text.
-/
theorem folds_restored {text : String} (h : Json.readText text = .ok s.content) :
    s.FoldsRestored := by
  have hcontent : s.content.Restorable := Json.restorable_of_readText h
  constructor
  case restores => exact restore_eq hcontent
  case kept =>
    intro b hb
    rw [restore_eq hcontent, Backend.keptJson, if_pos hb]
  case refused => exact fun tip htip events hevents => advanceAll_refuses hevents htip
  case escapes => exact fun e => advance_of_hugeInteger
  case step =>
    intro s' hs' e
    obtain ⟨hagree, -⟩ := agree_of_restore hcontent hs'
    exact (hagree.symm.advance e).sameFold
  case run =>
    intro s' hs' steps
    obtain ⟨hagree, hcontent'⟩ := agree_of_restore hcontent hs'
    exact ⟨((agree_refl hcontent.tidy).advanceStoring hcontent hcontent steps).sameFold,
      (hagree.symm.advanceStoring hcontent hcontent' steps).sameFold⟩

/-- A content whose keys are not in order is restored, and folds from there as before. -/
theorem folds_restored_sample :
    let content : Json := .obj [("b", .arr [.int 1, .double Double.nan]), ("a", .null)]
    let s : State := ⟨.str "G", content, .null, .null⟩
    Json.readText "\x7b\"b\":[1,NaN],\"a\":null\x7d" = .ok s.content ∧
      s.content.sortKeys ≠ s.content ∧ s.FoldsRestored := by
  intro content s
  have hread : Json.readText "\x7b\"b\":[1,NaN],\"a\":null\x7d" = .ok s.content := by
    decide +kernel
  exact ⟨hread, by decide +kernel, folds_restored hread⟩

/-- An event whose first block is an integer of one digit more than are converted. -/
def longUpdate : Event :=
  ⟨.str "A", .str "G", .str "G",
    [.bytes (Text.utf8 (String.ofList (List.replicate (Text.maxDecimalDigits + 1) '1')))]⟩

theorem longUpdate_hasUntaken : longUpdate.HasUntaken .badValue := by
  refine .integer rfl ?_
  rw [Json.readBytes, Text.ofUtf8?_utf8]
  dsimp only
  rw [Json.readText, String.toList_ofList]
  decide +kernel

/-- An event that follows the tip and is refused, from either content, in no words at all. -/
theorem longUpdate_escapes :
    let s : State := ⟨.str "G", .obj [("n", .int 0)], .null, .null⟩
    Json.readText "\x7b\"n\":0\x7d" = .ok s.content ∧ longUpdate.prev = s.tip ∧
      ∃ s', s.restore = .ok s' ∧ s.advance longUpdate = .error (.defect .badValue) ∧
        s'.advance longUpdate = .error (.defect .badValue) ∧
        (Failure.defect .badValue).name? ≠ some "MalformedEventError" := by
  intro s
  have hfollows : longUpdate.prev.looselySame (.str "G") = true := by decide +kernel
  exact ⟨by decide +kernel, rfl, s, by decide +kernel,
    advance_of_hugeInteger hfollows longUpdate_hasUntaken,
    advance_of_hugeInteger hfollows longUpdate_hasUntaken, by decide +kernel⟩

end Fold.State

end ChainFold
