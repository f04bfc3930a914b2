import ObjectStore.Proofs.Store.Lookups

/-
  What a content keeps of an earlier one.

  Every element has a slot that no other one has (`Snapshot.Slotted`). What an operation
  changes in the elements of a container is always of one form (`Reworked`): elements
  stay, or are stamped; those that were there keep their order; whatever is added has a
  slot that had not been handed out. From this follows what one content keeps of an
  earlier one (`Snapshot.Develops`): objects and elements that nobody wrote, the order of
  elements, and the objects that the remaining elements link to.

  Both are proved for the four things that an operation does: it writes a value, adds or
  removes an object, or edits the elements of a container with new slots at hand.

    1. `Snapshot.Develops.trans`: what is kept twice is kept.
    2. `Reworked.insertIdx`, `Reworked.set`, `Reworked.all_new` and
       `Reworked.of_sublist` are the ways in which elements change.
    3. `Batch.Advances` is all of this for a batch; `Batch.advances_setValue`,
       `advances_removeEntity`, `advances_createObject` and `Container.advances_edit`.
-/

namespace ObjectStore

/-! ## Slots -/

/-- Slots tell all elements of a content apart, and every slot was handed out. -/
structure Snapshot.Slotted (s : Snapshot) : Prop where
  bounded : ∀ c, ∀ x ∈ s.elementsOf c, x.slot.val ≤ s.nextSlot
  distinct : ∀ c, ((s.elementsOf c).map (·.slot)).Nodup
  apart : ∀ c c', ∀ x ∈ s.elementsOf c, ∀ y ∈ s.elementsOf c', x.slot = y.slot → c = c'

theorem Snapshot.slotted_empty : Snapshot.empty.Slotted := by
  refine ⟨fun _ _ hx => ?_, fun _ => List.nodup_nil, fun _ _ _ hx => ?_⟩
  · cases hx
  · cases hx

/-- The objects of a content have keys, and its elements slots, that were handed out and
tell them apart. -/
structure Snapshot.Numbered (s : Snapshot) : Prop where
  keyed : s.Keyed
  slotted : s.Slotted

theorem Snapshot.numbered_empty : Snapshot.empty.Numbered := ⟨keyed_empty, slotted_empty⟩

theorem Batch.numbered_published {b : Batch} (h : b.view.Numbered) : b.published.Numbered :=
  ⟨⟨h.keyed.ascending, h.keyed.handedOut⟩,
    ⟨h.slotted.bounded, h.slotted.distinct, h.slotted.apart⟩⟩

/-- The elements of one container before and after an operation that could hand out the
slots behind `n` up to `n'`. `renewed` are the slots whose element it may write. -/
structure Reworked (n n' : Nat) (stamp : Generation) (renewed : SlotId → Prop)
    (es es' : List Element) : Prop where
  kept : ∀ x ∈ es', x ∈ es ∨ (renewed x.slot ∨ n < x.slot.val) ∧ x.revision = stamp
  order : ((es'.map (·.slot)).filter fun i => i.val ≤ n).Sublist (es.map (·.slot))
  bounded : ∀ x ∈ es', x.slot.val ≤ n'
  distinct : (es'.map (·.slot)).Nodup

namespace Reworked

variable {n n' : Nat} {stamp : Generation} {renewed : SlotId → Prop} {es es' : List Element}

/-- Elements are taken out, or none is. -/
theorem of_sublist (h : es'.Sublist es) (hb : ∀ x ∈ es, x.slot.val ≤ n)
    (hd : (es.map (·.slot)).Nodup) (hn : n ≤ n') : Reworked n n' stamp renewed es es' where
  kept := fun _ hx => .inl (h.mem hx)
  order := List.filter_sublist.trans (h.map _)
  bounded := fun x hx => Nat.le_trans (hb x (h.mem hx)) hn
  distinct := hd.sublist (h.map _)

theorem filter_insertIdx {i : Nat} {x : Element} (hx : n < x.slot.val) :
    (((es.insertIdx i x).map (·.slot)).filter fun j => j.val ≤ n) =
      (es.map (·.slot)).filter fun j => j.val ≤ n := by
  induction es generalizing i with
  | nil =>
    cases i with
    | zero => simp [hx]
    | succ i => simp
  | cons y ys ih =>
    cases i with
    | zero => simp [hx]
    | succ i => simp only [List.insertIdx_succ_cons, List.map_cons, List.filter_cons, ih]

/-- One element is put in under the next slot. -/
theorem insertIdx {i : Nat} {x : Element} (hx : x.slot.val = n + 1) (hs : x.revision = stamp)
    (hb : ∀ y ∈ es, y.slot.val ≤ n) (hd : (es.map (·.slot)).Nodup) :
    Reworked n (n + 1) stamp renewed es (es.insertIdx i x) where
  kept := by
    intro y hy
    rcases List.eq_or_mem_of_mem_insertIdx hy with rfl | hy
    · exact .inr ⟨.inr (by omega), hs⟩
    · exact .inl hy
  order := by
    rw [filter_insertIdx (by omega)]
    exact List.filter_sublist
  bounded := by
    intro y hy
    rcases List.eq_or_mem_of_mem_insertIdx hy with rfl | hy
    · omega
    · have := hb y hy
      omega
  distinct := by
    rcases Nat.lt_or_ge es.length i with hi | hi
    · rwa [List.insertIdx_of_length_lt hi]
    · -- the new slot is none of those that were handed out
      have hperm := (List.perm_insertIdx x es hi).map (·.slot)
      rw [hperm.nodup_iff, List.map_cons, List.nodup_cons]
      refine ⟨fun hmem => ?_, hd⟩
      obtain ⟨y, hy, heq⟩ := List.mem_map.mp hmem
      have := hb y hy
      rw [heq, hx] at this
      omega

/-- The value of one element is replaced under its slot. -/
theorem set {i : Nat} {x y : Element} (hi : es[i]? = some x) (hy : y.slot = x.slot)
    (hs : y.revision = stamp) (hr : renewed x.slot) (hb : ∀ y ∈ es, y.slot.val ≤ n)
    (hd : (es.map (·.slot)).Nodup) : Reworked n n stamp renewed es (es.set i y) := by
  have hslots : (es.set i y).map (·.slot) = es.map (·.slot) := by
    rw [List.map_set, hy]
    refine List.ext_getElem? fun j => ?_
    rw [List.getElem?_set]
    split
    · rename_i hij
      subst hij
      obtain ⟨hlt, rfl⟩ := List.getElem?_eq_some_iff.mp hi
      simp [hlt]
    · rfl
  have hmem : x ∈ es := List.mem_of_getElem? hi
  refine ⟨fun z hz => ?_, ?_, fun z hz => ?_, ?_⟩
  · rcases List.mem_or_eq_of_mem_set hz with hz | rfl
    · exact .inl hz
    · exact .inr ⟨.inl (by rwa [hy]), hs⟩
  · rw [hslots]
    exact List.filter_sublist
  · rcases List.mem_or_eq_of_mem_set hz with hz | rfl
    · exact hb z hz
    · rw [hy]
      exact hb x hmem
  · rwa [hslots]

/-- All elements are new ones under the next slots. -/
theorem all_new (hslots : es'.map (·.slot.val) = List.range' (n + 1) es'.length)
    (hs : ∀ x ∈ es', x.revision = stamp) :
    Reworked n (n + es'.length) stamp renewed es es' := by
  have hrange : ∀ x ∈ es', n < x.slot.val ∧ x.slot.val ≤ n + es'.length := by
    intro x hx
    have hmem : x.slot.val ∈ es'.map (·.slot.val) := List.mem_map_of_mem hx
    rw [hslots, List.mem_range'_1] at hmem
    omega
  refine ⟨fun x hx => .inr ⟨.inr (hrange x hx).1, hs x hx⟩, ?_, fun x hx => (hrange x hx).2, ?_⟩
  · have hnone : ((es'.map (·.slot)).filter fun i => i.val ≤ n) = [] := by
      refine List.filter_eq_nil_iff.mpr fun i hi => ?_
      obtain ⟨x, hx, rfl⟩ := List.mem_map.mp hi
      have := (hrange x hx).1
      simp only [decide_eq_true_eq]
      omega
    rw [hnone]
    exact List.nil_sublist _
  · have hval : ((es'.map (·.slot)).map (·.val)).Nodup := by
      rw [List.map_map]
      change (es'.map (·.slot.val)).Nodup
      rw [hslots]
      exact List.nodup_range'
    exact hval.of_map _

end Reworked

/-! ## One content after another -/

namespace Snapshot

/-- What a content keeps of an earlier one. Objects that were not among the written ones
are as they were, and likewise elements; the others are stamped with a generation after
`g` and up to `h`. Elements that were there stand in the order they had. An element that
was not written links to an object that is still there, if it was. -/
structure Develops (g h : Generation) (written : ObjectKey → Prop) (renewed : SlotId → Prop)
    (s s' : Snapshot) : Prop where
  continues : s.Continues s'
  nextSlot_le : s.nextSlot ≤ s'.nextSlot
  object : ∀ key e', s'.entity? key = some e' →
    s.entity? key = some e' ∨ written key ∧ g < e'.revision ∧ e'.revision ≤ h
  element : ∀ c, ∀ x ∈ s'.elementsOf c, x ∈ s.elementsOf c ∨
    (renewed x.slot ∨ s.nextSlot < x.slot.val) ∧ g < x.revision ∧ x.revision ≤ h
  order : ∀ c, (((s'.elementsOf c).map (·.slot)).filter fun i => i.val ≤ s.nextSlot).Sublist
    ((s.elementsOf c).map (·.slot))
  linked : ∀ c, ∀ x ∈ s'.elementsOf c, ∀ key, x.value.asObject = some key →
    s.contains key = true → s'.contains key = true ∨ g < x.revision

namespace Develops

variable {g h : Generation} {written written' : ObjectKey → Prop}
  {renewed renewed' : SlotId → Prop} {s s' s'' : Snapshot}

theorem refl (s : Snapshot) : s.Develops g h written renewed s where
  continues := .refl s
  nextSlot_le := Nat.le_refl _
  object := fun _ _ he => .inl he
  element := fun _ _ hx => .inl hx
  order := fun _ => List.filter_sublist
  linked := fun _ _ _ _ _ hk => .inl hk

theorem mono (hd : s.Develops g h written renewed s') (hw : ∀ key, written key → written' key)
    (hr : ∀ i, renewed i → renewed' i) : s.Develops g h written' renewed' s' where
  continues := hd.continues
  nextSlot_le := hd.nextSlot_le
  object := fun key e' he' => (hd.object key e' he').imp_right fun h' => ⟨hw key h'.1, h'.2⟩
  element := fun c x hx => (hd.element c x hx).imp_right fun h' => ⟨h'.1.imp_left (hr _), h'.2⟩
  order := hd.order
  linked := hd.linked

theorem widen {g' h' : Generation} (hd : s.Develops g h written renewed s') (hg : g' ≤ g)
    (hh : h ≤ h') : s.Develops g' h' written renewed s' where
  continues := hd.continues
  nextSlot_le := hd.nextSlot_le
  object := fun key e' he' => (hd.object key e' he').imp_right fun ⟨hw, hlt, hle⟩ =>
    ⟨hw, Nat.lt_of_le_of_lt hg hlt, Nat.le_trans hle hh⟩
  element := fun c x hx => (hd.element c x hx).imp_right fun ⟨hw, hlt, hle⟩ =>
    ⟨hw, Nat.lt_of_le_of_lt hg hlt, Nat.le_trans hle hh⟩
  order := hd.order
  linked := fun c x hx key hk hc => (hd.linked c x hx key hk hc).imp_right fun hlt =>
    Nat.lt_of_le_of_lt hg hlt

theorem trans (hd : s.Develops g h written renewed s') (hd' : s'.Develops g h written renewed s'') :
    s.Develops g h written renewed s'' where
  continues := hd.continues.trans hd'.continues
  nextSlot_le := Nat.le_trans hd.nextSlot_le hd'.nextSlot_le
  object := by
    intro key e'' he''
    rcases hd'.object key e'' he'' with he' | hnew
    · exact hd.object key e'' he'
    · exact .inr hnew
  element := by
    intro c x hx
    rcases hd'.element c x hx with hx' | ⟨hslot, hrev⟩
    · exact hd.element c x hx'
    · exact .inr ⟨hslot.imp_right (Nat.lt_of_le_of_lt hd.nextSlot_le), hrev⟩
  order := by
    intro c
    -- what had a slot at first had one in between
    have hboth : (((s''.elementsOf c).map (·.slot)).filter fun i => i.val ≤ s.nextSlot) =
        (((s''.elementsOf c).map (·.slot)).filter fun i => i.val ≤ s'.nextSlot).filter
          fun i => i.val ≤ s.nextSlot := by
      rw [List.filter_filter]
      refine List.filter_congr fun i _ => ?_
      have := hd.nextSlot_le
      rw [Bool.eq_iff_iff]
      simp only [decide_eq_true_eq, Bool.and_eq_true]
      omega
    rw [hboth]
    exact ((hd'.order c).filter _).trans (hd.order c)
  linked := by
    intro c x hx key hk hc
    rcases hd'.element c x hx with hx' | ⟨-, hrev, -⟩
    · rcases hd.linked c x hx' key hk hc with hc' | hrev
      · exact hd'.linked c x hx key hk hc'
      · exact .inr hrev
    · exact .inr hrev

end Develops

variable {n' : Nat} {stamp : Generation} {renewed : SlotId → Prop} {s s' : Snapshot}

theorem Slotted.reworked (hs : s.Slotted)
    (hr : ∀ c, Reworked s.nextSlot s'.nextSlot stamp renewed (s.elementsOf c) (s'.elementsOf c))
    {place : ContainerKey}
    (hnew : ∀ c, ∀ x ∈ s'.elementsOf c, s.nextSlot < x.slot.val → c = place) : s'.Slotted where
  bounded := fun c => (hr c).bounded
  distinct := fun c => (hr c).distinct
  apart := by
    intro c c' x hx y hy heq
    rcases Nat.lt_or_ge s.nextSlot x.slot.val with hlt | hle
    · have hlt' : s.nextSlot < y.slot.val := by rwa [← heq]
      rw [hnew c x hx hlt, hnew c' y hy hlt']
    · -- both were there before
      have hold {k : ContainerKey} {z : Element} (hz : z ∈ s'.elementsOf k)
          (hzle : z.slot.val ≤ s.nextSlot) : ∃ a ∈ s.elementsOf k, a.slot = z.slot := by
        refine List.mem_map.mp (((hr k).order).mem (List.mem_filter.mpr ⟨?_, by simpa using hzle⟩))
        exact List.mem_map_of_mem hz
      obtain ⟨a, ha, hax⟩ := hold hx hle
      obtain ⟨a', ha', hay⟩ := hold hy (by rwa [← heq])
      exact hs.apart c c' a ha a' ha' (by rw [hax, hay, heq])

end Snapshot

/-! ## One batch after another -/

/-- A batch goes on from another one of the same base, and is numbered again. -/
structure Batch.Advances (written : ObjectKey → Prop) (renewed : SlotId → Prop) (b b' : Batch) :
    Prop where
  base_eq : b'.base = b.base
  numbered : b'.view.Numbered
  develops : b.view.Develops b.base.generation b.pending written renewed b'.view

namespace Batch

variable {written written' : ObjectKey → Prop} {renewed renewed' : SlotId → Prop}
  {b b' b'' : Batch}

theorem Advances.refl (h : b.view.Numbered) : Advances written renewed b b :=
  ⟨rfl, h, .refl _⟩

theorem Advances.mono (h : Advances written renewed b b')
    (hw : ∀ key, written key → written' key) (hr : ∀ i, renewed i → renewed' i) :
    Advances written' renewed' b b' :=
  ⟨h.base_eq, h.numbered, h.develops.mono hw hr⟩

theorem Advances.trans (h : Advances written renewed b b') (h' : Advances written renewed b' b'') :
    Advances written renewed b b'' := by
  have hdevelops := h'.develops
  rw [pending, h.base_eq] at hdevelops
  exact ⟨h'.base_eq.trans h.base_eq, h'.numbered, h.develops.trans hdevelops⟩

theorem lt_pending (b : Batch) : b.base.generation < b.pending := Nat.lt_succ_self _

/-- An operation that has reworked each container, with new slots in one of them only,
and has kept all objects but the written ones. -/
theorem advances_of_reworked (place : ContainerKey) (hb : b.view.Numbered)
    (hsteps : Steps True b b')
    (hobject : ∀ key e', b'.view.entity? key = some e' →
      b.view.entity? key = some e' ∨ written key ∧ e'.revision = b.pending)
    (hcontains : ∀ key, b.view.contains key = true → b'.view.contains key = true ∨
      ∀ c, ∀ x ∈ b'.view.elementsOf c, x.value.asObject ≠ some key)
    (hslot : b.view.nextSlot ≤ b'.view.nextSlot)
    (hr : ∀ c, Reworked b.view.nextSlot b'.view.nextSlot b.pending renewed (b.view.elementsOf c)
      (b'.view.elementsOf c))
    (hnew : ∀ c, ∀ x ∈ b'.view.elementsOf c, b.view.nextSlot < x.slot.val → c = place) :
    Advances written renewed b b' where
  base_eq := hsteps.base_eq
  numbered := ⟨hsteps.keyed hb.keyed, hb.slotted.reworked hr hnew⟩
  develops :=
    { continues := hsteps.continues hb.keyed
      nextSlot_le := hslot
      object := by
        intro key e' he'
        rcases hobject key e' he' with hold | ⟨hw, hrev⟩
        · exact .inl hold
        · exact .inr ⟨hw, by rw [hrev]; exact b.lt_pending, Nat.le_of_eq hrev⟩
      element := by
        intro c x hx
        rcases (hr c).kept x hx with hold | ⟨hw, hrev⟩
        · exact .inl hold
        · exact .inr ⟨hw, by rw [hrev]; exact b.lt_pending, Nat.le_of_eq hrev⟩
      order := fun c => (hr c).order
      linked := by
        intro c x hx key hk hc
        rcases hcontains key hc with hc' | hnone
        · exact .inl hc'
        · exact absurd hk (hnone c x hx) }

theorem advances_of_sublist (hb : b.view.Numbered) (hsteps : Steps True b b')
    (hobject : ∀ key e', b'.view.entity? key = some e' →
      b.view.entity? key = some e' ∨ written key ∧ e'.revision = b.pending)
    (hcontains : ∀ key, b.view.contains key = true → b'.view.contains key = true ∨
      ∀ c, ∀ x ∈ b'.view.elementsOf c, x.value.asObject ≠ some key)
    (hslot : b'.view.nextSlot = b.view.nextSlot)
    (hsub : ∀ c, (b'.view.elementsOf c).Sublist (b.view.elementsOf c)) :
    Advances written renewed b b' := by
  refine advances_of_reworked default hb hsteps hobject hcontains (Nat.le_of_eq hslot.symm)
    (fun c => ?_) fun c x hx hlt => ?_
  · exact .of_sublist (hsub c) (hb.slotted.bounded c) (hb.slotted.distinct c)
      (Nat.le_of_eq hslot.symm)
  · exact absurd (hb.slotted.bounded c x ((hsub c).mem hx)) (Nat.not_le_of_lt hlt)

variable {key : ObjectKey} {f : Entity → Entity}

theorem contains_written (h : b.view.Keyed) (hf : WritesFields f) (k : ObjectKey) :
    (b.written key f).view.contains k = b.view.contains k := by
  rw [Snapshot.contains, entity?_written h hf, Snapshot.contains]
  split <;> simp

theorem object_written (h : b.view.Keyed) (hf : WritesFields f) {k : ObjectKey} {e' : Entity}
    (he' : (b.written key f).view.entity? k = some e') :
    b.view.entity? k = some e' ∨ k = key ∧ e'.revision = b.pending := by
  rw [entity?_written h hf] at he'
  split at he'
  · rename_i hk
    obtain ⟨e, -, rfl⟩ := Option.map_eq_some_iff.mp he'
    exact .inr ⟨hk, (hf _).2.2⟩
  · exact .inl he'

/-- A value is written to a property. -/
theorem advances_setValue (hb : b.view.Numbered) (key : ObjectKey) (property : String)
    (v : Value) :
    Advances (· = key) renewed b (b.written key fun e => e.put property (.value v)) := by
  have hf : WritesFields fun e => e.put property (.value v) := fun _ => ⟨rfl, rfl, rfl⟩
  refine advances_of_sublist hb (.single (.write key _ hf))
    (fun k e' he' => object_written hb.keyed hf he') (fun k hk => .inl ?_) ?_ fun c => ?_
  · rwa [contains_written hb.keyed hf]
  · unfold Batch.written edit
    split <;> rfl
  · rcases elementsOf_setValue hb.keyed key property v c with h | h
    · rw [h]
    · rw [h]
      exact List.nil_sublist _

/-! ## Removal -/

def refers (key : ObjectKey) (e : Entity) : Bool := e.fields.any fun p => refersTo key p.2

theorem unlinkField_of_not_refersTo {field : Field} (h : refersTo key field = false) :
    unlinkField key field = field := by
  have hfilter {es : List Element} (h : es.any (linksTo key) = false) :
      es.filter (fun e => !linksTo key e) = es :=
    List.filter_eq_self.mpr fun x hx => by simpa using List.any_eq_false.mp h x hx
  cases field with
  | value v =>
    have hv : v.asObject ≠ some key := by simpa [refersTo] using h
    simp [unlinkField, hv]
  | list es => simp [unlinkField, hfilter h]
  | set es => simp [unlinkField, hfilter h]

theorem unlinkEntity_of_not_refers {stamp : Generation} {e : Entity} (h : refers key e = false) :
    unlinkEntity key stamp e = e := by
  have hfields : e.fields.map (fun p => (p.1, unlinkField key p.2)) = e.fields := by
    refine (List.map_congr_left fun p hp => ?_).trans (List.map_id _)
    rw [unlinkField_of_not_refersTo (by simpa using List.any_eq_false.mp h p hp), id_eq]
  rw [refers] at h
  simp [unlinkEntity, hfields, h]

theorem refersTo_of_unlinkField {gone : ObjectKey} {field : Field}
    (h : refersTo key (unlinkField gone field) = true) : refersTo key field = true := by
  have hfilter {es : List Element}
      (h : (es.filter fun e => !linksTo gone e).any (linksTo key) = true) :
      es.any (linksTo key) = true := by
    obtain ⟨x, hx, hlink⟩ := List.any_eq_true.mp h
    exact List.any_eq_true.mpr ⟨x, (List.mem_filter.mp hx).1, hlink⟩
  cases field with
  | value v =>
    rw [unlinkField] at h
    split at h
    · cases h
    · exact h
  | list es => exact hfilter h
  | set es => exact hfilter h

theorem refers_of_unlinkEntity {gone : ObjectKey} {stamp : Generation} {e : Entity}
    (h : refers key (unlinkEntity gone stamp e) = true) : refers key e = true := by
  obtain ⟨p, hp, hlink⟩ := List.any_eq_true.mp h
  obtain ⟨q, hq, rfl⟩ := List.mem_map.mp hp
  exact List.any_eq_true.mpr ⟨q, hq, refersTo_of_unlinkField hlink⟩

/-- The objects that lose a link when objects are removed. -/
def LosesLink (s s' : Snapshot) (key : ObjectKey) : Prop :=
  ∃ gone e, s.contains gone = true ∧ s'.contains gone = false ∧ s.entity? key = some e ∧
    refers gone e = true

theorem contains_removeEntity (h : b.working.contains key = true) (k : ObjectKey) :
    (b.removeEntity key).2.view.contains k = true ↔ k ≠ key ∧ b.view.contains k = true := by
  rw [Snapshot.contains, entity?_removeEntity h]
  by_cases hk : k = key <;> simp [hk, Snapshot.contains]

/-- An object is removed with the links to it. -/
theorem advances_removeEntity (hb : b.view.Numbered) (key : ObjectKey) :
    Advances (LosesLink b.view (b.removeEntity key).2.view) renewed b (b.removeEntity key).2 := by
  cases hc : b.working.contains key with
  | false =>
    rw [removeEntity_of_not_contains hc]
    exact .refl hb
  | true =>
    refine advances_of_sublist hb (.single (.remove key)) (fun k e' he' => ?_) (fun k hk => ?_) ?_
      fun c => ?_
    · rw [entity?_removeEntity hc] at he'
      split at he'
      · cases he'
      · obtain ⟨e, he, rfl⟩ := Option.map_eq_some_iff.mp he'
        cases hr : refers key e with
        | false =>
          rw [unlinkEntity_of_not_refers hr]
          exact .inl he
        | true =>
          refine .inr ⟨⟨key, e, hc, ?_, he, hr⟩, ?_⟩
          · rw [Bool.eq_false_iff, ne_eq, contains_removeEntity hc]
            exact fun h => h.1 rfl
          · rw [refers] at hr
            simp only [unlinkEntity, hr, if_true]
    -- the elements that link to the removed object are gone with it
    · by_cases hkey : k = key
      · refine .inr fun c x hx hlink => ?_
        rw [elementsOf_removeEntity hc] at hx
        split at hx
        · cases hx
        · have := (List.mem_filter.mp hx).2
          simp [linksTo, hlink, hkey] at this
      · exact .inl ((contains_removeEntity hc k).mpr ⟨hkey, hk⟩)
    · simp only [removeEntity, hc, if_true, view]
    · rw [elementsOf_removeEntity hc]
      split
      · exact List.nil_sublist _
      · exact List.filter_sublist

/-! ## Creation -/

theorem nextSlot_createObject {c : ClassSchema} {given : List (Property × Value)}
    (hl : b.view.checkLinks given = .ok ()) :
    (b.createObject c given).2.view.nextSlot = b.view.nextSlot := by
  simp only [createObject, hl]
  change ((b.insertEntity c.name).2.written _ _).view.nextSlot = _
  unfold Batch.written edit
  split <;> rfl

theorem advances_createObject (hb : b.view.Numbered) (c : ClassSchema)
    (given : List (Property × Value)) :
    Advances (fun key => b.view.contains key = false ∧
      (b.createObject c given).2.view.contains key = true) renewed b
        (b.createObject c given).2 := by
  cases hl : b.view.checkLinks given with
  | error e =>
    simp only [createObject, hl]
    exact .refl hb
  | ok u =>
    have hentity := entity?_createObject (c := c) hb.keyed hl
    have hfresh (key : ObjectKey) (hk : key.val = b.view.nextKey + 1) :
        b.view.contains key = false := by
      rw [Snapshot.contains, hb.keyed.entity?_eq_none (by omega)]
      rfl
    refine advances_of_sublist hb (createObject_steps trivial c given b) (fun k e' he' => ?_)
      (fun k hk => .inl ?_) ?_ fun k => ?_
    · by_cases hk : k.val = b.view.nextKey + 1
      · refine .inr ⟨⟨hfresh k hk, Snapshot.contains_iff.mpr ⟨e', he'⟩⟩, ?_⟩
        rw [hentity, if_pos hk] at he'
        cases he'
        rfl
      · rw [hentity, if_neg hk] at he'
        exact .inl he'
    · rw [Snapshot.contains, hentity]
      split
      · rfl
      · exact hk
    · exact nextSlot_createObject hl
    · rw [elementsOf_createObject hb.keyed hl]

end Batch

/-! ## Elements -/

namespace Container

variable {b a : Batch} {c : Container} {f : List Element → List Element}
  {renewed : SlotId → Prop}

/-- The elements of a container are edited, after slots were handed out. -/
theorem advances_edit (hb : b.view.Numbered) (hbase : a.base = b.base)
    (hentities : a.view.entities = b.view.entities)
    (hslot : b.view.nextSlot ≤ a.view.nextSlot) (hsteps : Batch.Steps True b a)
    (hf : Reworked b.view.nextSlot a.view.nextSlot b.pending renewed (b.view.elementsOf c.key)
      (f (b.view.elementsOf c.key))) :
    Batch.Advances (· = c.key.owner) renewed b (c.edit f a).2 := by
  have hentity (key : ObjectKey) : a.view.entity? key = b.view.entity? key := by
    rw [Snapshot.entity?, hentities, Snapshot.entity?]
  have helements (k : ContainerKey) : a.view.elementsOf k = b.view.elementsOf k :=
    Snapshot.elementsOf_congr (hentity k.owner)
  have hkeyed : a.view.Keyed := hsteps.keyed hb.keyed
  have hpending : a.pending = b.pending := by rw [Batch.pending, hbase, Batch.pending]
  have hnext : (c.edit f a).2.view.nextSlot = a.view.nextSlot := by
    rw [edit_batch, Batch.written, Batch.edit]
    split <;> rfl
  have hcontains (k : ObjectKey) (hk : b.view.contains k = true) :
      (c.edit f a).2.view.contains k = true := by
    rw [edit_batch, Batch.contains_written hkeyed (c.writesFields_rewrite f), Snapshot.contains,
      hentity, ← Snapshot.contains]
    exact hk
  refine Batch.advances_of_reworked c.key hb (hsteps.trans (c.edit_steps f a))
    (fun k e' he' => ?_) (fun k hk => .inl (hcontains k hk)) (by rwa [hnext]) (fun k => ?_)
    fun k x hx hlt => ?_
  · rw [edit_batch] at he'
    rcases Batch.object_written hkeyed (c.writesFields_rewrite f) he' with hold | ⟨hk, hrev⟩
    · exact .inl (by rwa [hentity] at hold)
    · exact .inr ⟨hk, hrev.trans hpending⟩
  · rw [hnext]
    rcases c.elementsOf_edit (f := f) hkeyed k with hsame | ⟨rfl, hedit⟩
    · rw [hsame, helements]
      exact .of_sublist (.refl _) (hb.slotted.bounded k) (hb.slotted.distinct k) hslot
    · rw [hedit, helements]
      exact hf
  · rcases c.elementsOf_edit (f := f) hkeyed k with hsame | ⟨hk, -⟩
    · rw [hsame, helements] at hx
      exact absurd (hb.slotted.bounded k x hx) (Nat.not_le_of_lt hlt)
    · exact hk

end Container

end ObjectStore
