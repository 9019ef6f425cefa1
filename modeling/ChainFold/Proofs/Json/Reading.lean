import ChainFold.Json.Reader
import ChainFold.Proofs.Json.KeyOrder
import ChainFold.Proofs.Outcome

/-!
# What is read is tidy

What holds of every scalar that is read, and of arrays and objects if it holds of their parts,
holds of every value that is read.  So whatever text is read as JSON, the value has each key of
an object once: of repeated keys only the last value is kept.
-/

namespace ChainFold.Json

theorem tidy_of_readUnsigned {negative : Bool} {cs rest : List Char} {j : Json}
    (h : readUnsigned negative cs = .ok (j, rest)) : j.Tidy := by
  unfold readUnsigned at h
  simp only at h
  split at h
  · simp at h
  · split at h
    · split at h
      · simp at h
      · simp only [Except.ok.injEq, Prod.mk.injEq] at h
        rw [← h.1]
        trivial
    · simp only [Except.ok.injEq, Prod.mk.injEq] at h
      rw [← h.1]
      trivial

theorem tidy_of_readScalar {cs rest : List Char} {j : Json}
    (h : readScalar cs = .ok (j, rest)) : j.Tidy := by
  unfold readScalar at h
  split at h
  case h_7 => exact tidy_of_readUnsigned h
  case h_8 => exact tidy_of_readUnsigned h
  all_goals
    simp only [Except.ok.injEq, Prod.mk.injEq] at h
    rw [← h.1]
    trivial

/-- A property that scalars have and that arrays and objects have if their parts do. -/
structure KeptByReading (p : Json → Prop) : Prop where
  scalar : ∀ cs j rest, readScalar cs = .ok (j, rest) → p j
  str : ∀ s, p (.str s)
  arr : ∀ items, (∀ j ∈ items, p j) → p (.arr items)
  obj : ∀ ms : Members, ms.keys.Nodup → (∀ m ∈ ms, p m.2) → p (.obj ms)

/-- What the three readers yield with the same fuel has a property. -/
structure ReadsOnly (p : Json → Prop) (fuel : Nat) : Prop where
  value : ∀ cs j rest, readValue fuel cs = .ok (j, rest) → p j
  items : ∀ cs js rest, readItems fuel cs = .ok (js, rest) → ∀ j ∈ js, p j
  members : ∀ cs ms rest, readMembers fuel cs = .ok (ms, rest) → ∀ m ∈ ms, p m.2

section Readers

variable {p : Json → Prop} {fuel : Nat} {cs rest : List Char}

theorem of_readValue_succ (hp : KeptByReading p) (ih : ReadsOnly p fuel) {j : Json}
    (h : readValue (fuel + 1) cs = .ok (j, rest)) : p j := by
  unfold readValue at h
  split at h
  · obtain ⟨⟨s, more⟩, -, h⟩ := bind_eq_ok.mp h
    simp only [pure_eq_ok, Except.ok.injEq, Prod.mk.injEq] at h
    rw [← h.1]
    exact hp.str _
  · split at h
    · simp only [Except.ok.injEq, Prod.mk.injEq] at h
      rw [← h.1]
      exact hp.arr [] (by simp)
    · obtain ⟨⟨items, more⟩, hitems, h⟩ := bind_eq_ok.mp h
      simp only [pure_eq_ok, Except.ok.injEq, Prod.mk.injEq] at h
      rw [← h.1]
      exact hp.arr items (ih.items _ _ _ hitems)
  · split at h
    · simp only [Except.ok.injEq, Prod.mk.injEq] at h
      rw [← h.1]
      exact hp.obj [] List.nodup_nil (by simp)
    · obtain ⟨⟨pairs, more⟩, hpairs, h⟩ := bind_eq_ok.mp h
      simp only [pure_eq_ok, Except.ok.injEq, Prod.mk.injEq] at h
      rw [← h.1]
      refine hp.obj _ (Members.nodup_keys_ofPairs pairs) ?_
      exact fun m hm => ih.members _ _ _ hpairs m (Members.mem_ofPairs hm)
  · exact hp.scalar _ _ _ h

theorem of_readItems_succ (ih : ReadsOnly p fuel) {js : List Json}
    (h : readItems (fuel + 1) cs = .ok (js, rest)) : ∀ j ∈ js, p j := by
  unfold readItems at h
  obtain ⟨⟨first, more⟩, hfirst, h⟩ := bind_eq_ok.mp h
  have hj : p first := ih.value _ _ _ hfirst
  simp only at h
  split at h
  · obtain ⟨⟨others, more'⟩, hothers, h⟩ := bind_eq_ok.mp h
    simp only [pure_eq_ok, Except.ok.injEq, Prod.mk.injEq] at h
    rw [← h.1]
    exact List.forall_mem_cons.mpr ⟨hj, ih.items _ _ _ hothers⟩
  · simp only [pure_eq_ok, Except.ok.injEq, Prod.mk.injEq] at h
    rw [← h.1]
    exact List.forall_mem_cons.mpr ⟨hj, by simp⟩
  · simp at h

theorem of_readMembers_succ (ih : ReadsOnly p fuel) {ms : Members}
    (h : readMembers (fuel + 1) cs = .ok (ms, rest)) : ∀ m ∈ ms, p m.2 := by
  unfold readMembers at h
  split at h
  · obtain ⟨⟨k, more⟩, -, h⟩ := bind_eq_ok.mp h
    simp only at h
    split at h
    · obtain ⟨⟨first, more'⟩, hfirst, h⟩ := bind_eq_ok.mp h
      have hj : p first := ih.value _ _ _ hfirst
      simp only at h
      split at h
      · obtain ⟨⟨others, more''⟩, hothers, h⟩ := bind_eq_ok.mp h
        simp only [pure_eq_ok, Except.ok.injEq, Prod.mk.injEq] at h
        rw [← h.1]
        exact List.forall_mem_cons.mpr ⟨hj, ih.members _ _ _ hothers⟩
      · simp only [pure_eq_ok, Except.ok.injEq, Prod.mk.injEq] at h
        rw [← h.1]
        exact List.forall_mem_cons.mpr ⟨hj, by simp⟩
      · simp at h
    · simp at h
  · simp at h

theorem readsOnly (hp : KeptByReading p) (fuel : Nat) : ReadsOnly p fuel := by
  induction fuel with
  | zero =>
      refine ⟨?_, ?_, ?_⟩
      · exact fun cs j rest h => by simp [readValue] at h
      · exact fun cs js rest h => by simp [readItems] at h
      · exact fun cs ms rest h => by simp [readMembers] at h
  | succ fuel ih =>
      exact ⟨fun _ _ _ h => of_readValue_succ hp ih h, fun _ _ _ h => of_readItems_succ ih h,
        fun _ _ _ h => of_readMembers_succ ih h⟩

/-- Every value that a text is read as has what reading keeps. -/
theorem KeptByReading.of_readText (hp : KeptByReading p) {text : String} {j : Json}
    (h : readText text = .ok j) : p j := by
  unfold readText read at h
  obtain ⟨⟨j', rest⟩, hread, h⟩ := bind_eq_ok.mp h
  have hj : p j' := (readsOnly hp _).value _ _ _ hread
  simp only at h
  split at h
  · simp only [pure_eq_ok, Except.ok.injEq] at h
    exact h ▸ hj
  · simp at h

theorem KeptByReading.of_readBytes (hp : KeptByReading p) {bs : Bytes} {j : Json}
    (h : readBytes bs = .ok j) : p j := by
  unfold readBytes at h
  split at h
  · simp at h
  · exact hp.of_readText h

end Readers

theorem keptByReading_tidy : KeptByReading Tidy where
  scalar := fun _ _ _ => tidy_of_readScalar
  str := fun _ => trivial
  arr := fun _ => tidy_arr_iff.mpr
  obj := fun _ hkeys hms => tidy_obj_iff.mpr ⟨hkeys, hms⟩

theorem tidy_of_readBytes {bs : Bytes} {j : Json} (h : readBytes bs = .ok j) : j.Tidy :=
  keptByReading_tidy.of_readBytes h

end ChainFold.Json
