import Mathlib.Logic.Relation
import ObjectStore.Store.Batch

/-
  Objects under their keys, and what a batch can do to them.

  A snapshot lists its objects in ascending order of key, and every key in it was
  handed out before (`Snapshot.Keyed`). So a key names at most one object, and
  looking an object up is the same as finding it in the list.

  Whatever an operation does to a batch, it does in four kinds of step
  (`Batch.Step`): a slot is handed out, an object is added under the next key, the
  fields of one object are written, or one object is removed with its links. What
  all four keep, every operation keeps.

    1. `Batch.Steps.keyed`: the keys stay ascending and handed out.
    2. `Batch.Steps.base_eq`: the snapshot that the batch started from stays.
    3. `Batch.Steps.origin`: an object that is there afterwards was there before, in
       the same class, or was added under a key that had not been handed out.
    4. `Snapshot.Continues`: the same between any two contents.
-/

namespace ObjectStore

namespace Snapshot

/-- The objects stand in ascending order of key, under keys that were handed out. -/
structure Keyed (s : Snapshot) : Prop where
  ascending : s.entities.Pairwise fun a b => a.key.val < b.key.val
  handedOut : ∀ e ∈ s.entities, e.key.val ≤ s.nextKey

theorem keyed_empty : Snapshot.empty.Keyed :=
  ⟨List.Pairwise.nil, fun _ he => absurd he List.not_mem_nil⟩

theorem mem_of_entity? {s : Snapshot} {key : ObjectKey} {e : Entity}
    (h : s.entity? key = some e) : e ∈ s.entities :=
  List.mem_of_find?_eq_some h

theorem key_of_entity? {s : Snapshot} {key : ObjectKey} {e : Entity}
    (h : s.entity? key = some e) : e.key = key := by
  simpa using List.find?_some h

theorem contains_iff {s : Snapshot} {key : ObjectKey} :
    s.contains key = true ↔ ∃ e, s.entity? key = some e := by
  rw [Snapshot.contains, Option.isSome_iff_exists]

theorem eq_of_key_eq {es : List Entity} (h : es.Pairwise fun a b => a.key.val < b.key.val)
    {a b : Entity} (ha : a ∈ es) (hb : b ∈ es) (hk : a.key = b.key) : a = b := by
  induction es with
  | nil => exact absurd ha List.not_mem_nil
  | cons x xs ih =>
    obtain ⟨hx, hxs⟩ := List.pairwise_cons.mp h
    rcases List.mem_cons.mp ha with rfl | ha' <;> rcases List.mem_cons.mp hb with rfl | hb'
    · rfl
    · have := hx b hb'
      rw [hk] at this
      exact absurd this (Nat.lt_irrefl _)
    · have := hx a ha'
      rw [hk] at this
      exact absurd this (Nat.lt_irrefl _)
    · exact ih hxs ha' hb'

theorem Keyed.entity?_eq_some {s : Snapshot} (h : s.Keyed) {key : ObjectKey} {e : Entity} :
    s.entity? key = some e ↔ e ∈ s.entities ∧ e.key = key := by
  constructor
  · intro he
    exact ⟨mem_of_entity? he, key_of_entity? he⟩
  · rintro ⟨he, hk⟩
    cases hf : s.entity? key with
    | none =>
      have := List.find?_eq_none.mp hf e he
      simp [hk] at this
    | some x =>
      have hx := key_of_entity? hf
      rw [eq_of_key_eq h.ascending (mem_of_entity? hf) he (by rw [hx, hk])]

theorem Keyed.le_of_contains {s : Snapshot} (h : s.Keyed) {key : ObjectKey}
    (hc : s.contains key = true) : key.val ≤ s.nextKey := by
  obtain ⟨e, he⟩ := contains_iff.mp hc
  obtain ⟨hm, rfl⟩ := h.entity?_eq_some.mp he
  exact h.handedOut e hm

/-- One content goes on from another one: what is there was there before, in the same
class, or has a key that had not been handed out. -/
structure Continues (s s' : Snapshot) : Prop where
  nextKey_le : s.nextKey ≤ s'.nextKey
  origin : ∀ key e', s'.entity? key = some e' →
    (∃ e, s.entity? key = some e ∧ e.className = e'.className) ∨ s.nextKey < key.val

theorem Continues.refl (s : Snapshot) : s.Continues s :=
  ⟨Nat.le_refl _, fun _ e' he' => .inl ⟨e', he', rfl⟩⟩

theorem Continues.trans {s s' s'' : Snapshot} (h : s.Continues s') (h' : s'.Continues s'') :
    s.Continues s'' := by
  refine ⟨Nat.le_trans h.nextKey_le h'.nextKey_le, fun key e'' he'' => ?_⟩
  rcases h'.origin key e'' he'' with ⟨e', he', hc'⟩ | hlt
  · rcases h.origin key e' he' with ⟨e, he, hc⟩ | hlt
    · exact .inl ⟨e, he, hc.trans hc'⟩
    · exact .inr hlt
  · exact .inr (Nat.lt_of_le_of_lt h.nextKey_le hlt)

theorem Continues.earlier {s s' : Snapshot} (h : s.Continues s') {key : ObjectKey} {e' : Entity}
    (hk : key.val ≤ s.nextKey) (he' : s'.entity? key = some e') :
    ∃ e, s.entity? key = some e ∧ e.className = e'.className := by
  rcases h.origin key e' he' with hold | hlt
  · exact hold
  · exact absurd hk (Nat.not_le_of_lt hlt)

theorem ascending_map {es : List Entity} {f : Entity → Entity} (hf : ∀ e, (f e).key = e.key)
    (h : es.Pairwise fun a b => a.key.val < b.key.val) :
    (es.map f).Pairwise fun a b => a.key.val < b.key.val := by
  rw [List.pairwise_map]
  exact h.imp fun hab => by rwa [hf, hf]

end Snapshot

namespace Batch

/-! ## The four kinds of step -/

theorem editEntities_eq_map {key : ObjectKey} {f : Entity → Entity} {es : List Entity}
    (h : es.Pairwise fun a b => a.key.val < b.key.val) :
    editEntities key f es = es.map fun e => if e.key = key then f e else e := by
  induction es with
  | nil => rfl
  | cons x xs ih =>
    obtain ⟨hx, hxs⟩ := List.pairwise_cons.mp h
    by_cases hk : x.key = key
    · have hrest : xs.map (fun e => if e.key = key then f e else e) = xs := by
        refine (List.map_congr_left fun e he => ?_).trans (List.map_id xs)
        have hne : e.key ≠ key := fun heq => by
          have := hx e he
          rw [heq, hk] at this
          exact Nat.lt_irrefl _ this
        simp [hne]
      simp only [editEntities, hk, if_true, List.map_cons, hrest]
    · simp only [editEntities, hk, if_false, List.map_cons, ih hxs]

/-- A change of an object that leaves its name, its class and its stamp alone. -/
def WritesFields (f : Entity → Entity) : Prop :=
  ∀ e, (f e).key = e.key ∧ (f e).className = e.className ∧ (f e).revision = e.revision

def written (b : Batch) (key : ObjectKey) (f : Entity → Entity) : Batch := (b.edit key f).2

/-- What an operation can do to a batch at a time; objects are added by operations that
add any. -/
inductive Step (adds : Prop) (b : Batch) : Batch → Prop
  | allocate : Step adds b b.allocateSlot.2
  | insert (className : String) (h : adds) : Step adds b (b.insertEntity className).2
  | write (key : ObjectKey) (f : Entity → Entity) (hf : WritesFields f) :
    Step adds b (b.written key f)
  | remove (key : ObjectKey) : Step adds b (b.removeEntity key).2

/-- What an operation can do to a batch. -/
def Steps (adds : Prop) : Batch → Batch → Prop := Relation.ReflTransGen (Step adds)

variable {adds : Prop}

theorem written_of_not_contains {b : Batch} {key : ObjectKey} {f : Entity → Entity}
    (h : b.working.contains key = false) : b.written key f = b := by
  simp [written, edit, h]

theorem written_of_contains {b : Batch} {key : ObjectKey} {f : Entity → Entity}
    (h : b.working.contains key = true) :
    b.written key f = { b with working := { b.working with
      entities := editEntities key (fun e => f { e with revision := b.pending })
        b.working.entities } } := by
  simp [written, edit, h]

theorem removeEntity_of_not_contains {b : Batch} {key : ObjectKey}
    (h : b.working.contains key = false) : b.removeEntity key = (none, b) := by
  simp [removeEntity, h]

theorem Step.base_eq {b b' : Batch} (h : Step adds b b') : b'.base = b.base := by
  cases h with
  | allocate => rfl
  | insert className h => rfl
  | write key f hf => unfold written edit; split <;> rfl
  | remove key => unfold removeEntity; split <;> rfl

/-- Some of the objects are kept, each under its name and in its class. -/
def KeepsSome (s s' : Snapshot) : Prop :=
  ∃ (keep : Entity → Bool) (f : Entity → Entity),
    (∀ e, (f e).key = e.key ∧ (f e).className = e.className) ∧
    s'.entities = (s.entities.filter keep).map f

/-- One object is added behind the others, under the next key. -/
def AddsOne (s s' : Snapshot) : Prop :=
  ∃ e : Entity, e.key.val = s.nextKey + 1 ∧ s'.nextKey = s.nextKey + 1 ∧
    s'.entities = s.entities ++ [e]

theorem keepsSome_refl (s : Snapshot) : KeepsSome s s :=
  ⟨fun _ => true, id, fun _ => ⟨rfl, rfl⟩, by rw [List.filter_eq_self.mpr fun _ _ => rfl]; simp⟩

theorem Step.objects {b b' : Batch} (hb : b.view.Keyed) (h : Step adds b b') :
    (b'.view.nextKey = b.view.nextKey ∧ KeepsSome b.view b'.view) ∨
      adds ∧ AddsOne b.view b'.view := by
  cases h with
  | allocate => exact .inl ⟨rfl, keepsSome_refl _⟩
  | insert className h => exact .inr ⟨h, _, rfl, rfl, rfl⟩
  | write key f hf =>
    cases hc : b.working.contains key with
    | false =>
      rw [written_of_not_contains hc]
      exact .inl ⟨rfl, keepsSome_refl _⟩
    | true =>
      rw [written_of_contains hc]
      refine .inl ⟨rfl, fun _ => true,
        fun e => if e.key = key then f { e with revision := b.pending } else e, ?_, ?_⟩
      · intro e
        by_cases hk : e.key = key
        · simp only [hk, if_true]
          exact ⟨(hf _).1, (hf _).2.1⟩
        · simp only [hk, if_false, and_self]
      · rw [List.filter_eq_self.mpr fun _ _ => rfl]
        exact editEntities_eq_map hb.ascending
  | remove key =>
    cases hc : b.working.contains key with
    | false =>
      rw [removeEntity_of_not_contains hc]
      exact .inl ⟨rfl, keepsSome_refl _⟩
    | true =>
      refine .inl ⟨?_, (·.key != key), unlinkEntity key b.pending, fun _ => ⟨rfl, rfl⟩, ?_⟩
      · simp only [removeEntity, hc, if_true, view]
      · simp only [removeEntity, hc, if_true, view]

/-! ## What all steps keep -/

theorem Step.keyed {b b' : Batch} (h : Step adds b b') (hb : b.view.Keyed) : b'.view.Keyed := by
  rcases h.objects hb with ⟨hn, keep, f, hf, he⟩ | ⟨-, x, hx, hn, he⟩
  -- fewer objects, under the keys they had
  · refine ⟨?_, ?_⟩
    · rw [he]
      exact Snapshot.ascending_map (fun e => (hf e).1) (hb.ascending.filter _)
    · rw [he, hn]
      intro e hm
      obtain ⟨a, ha, rfl⟩ := List.mem_map.mp hm
      rw [(hf a).1]
      exact hb.handedOut a (List.mem_filter.mp ha).1
  -- one object more, behind all others since their keys were handed out before
  · refine ⟨?_, ?_⟩
    · rw [he, List.pairwise_append]
      refine ⟨hb.ascending, List.pairwise_singleton _ _, ?_⟩
      intro a ha c hc
      have := hb.handedOut a ha
      rw [List.mem_singleton.mp hc, hx]
      omega
    · rw [he, hn]
      intro e hm
      rcases List.mem_append.mp hm with hm | hm
      · exact Nat.le_succ_of_le (hb.handedOut e hm)
      · exact Nat.le_of_eq (by rw [List.mem_singleton.mp hm, hx])

theorem Step.nextKey_le {b b' : Batch} (h : Step adds b b') (hb : b.view.Keyed) :
    b.view.nextKey ≤ b'.view.nextKey := by
  rcases h.objects hb with ⟨hn, _⟩ | ⟨_, x, _, hn, _⟩ <;> omega

/-- An object after a step was there before, in the same class, or was added under a
new key. -/
theorem Step.origin {b b' : Batch} (h : Step adds b b') (hb : b.view.Keyed) {key : ObjectKey}
    {e' : Entity} (he' : b'.view.entity? key = some e') :
    (∃ e, b.view.entity? key = some e ∧ e.className = e'.className) ∨
      adds ∧ b.view.nextKey < key.val := by
  obtain ⟨hm, rfl⟩ := (h.keyed hb).entity?_eq_some.mp he'
  rcases h.objects hb with ⟨_, keep, f, hf, he⟩ | ⟨hadds, x, hx, _, he⟩
  · rw [he] at hm
    obtain ⟨a, ha, rfl⟩ := List.mem_map.mp hm
    refine .inl ⟨a, hb.entity?_eq_some.mpr ⟨(List.mem_filter.mp ha).1, ?_⟩, ?_⟩
    · rw [(hf a).1]
    · rw [(hf a).2]
  · rw [he] at hm
    rcases List.mem_append.mp hm with hm | hm
    · exact .inl ⟨e', hb.entity?_eq_some.mpr ⟨hm, rfl⟩, rfl⟩
    · rw [List.mem_singleton.mp hm, hx]
      exact .inr ⟨hadds, Nat.lt_succ_self _⟩

namespace Steps

theorem base_eq {b b' : Batch} (h : Steps adds b b') : b'.base = b.base := by
  induction h with
  | refl => rfl
  | tail _ hs ih => rw [hs.base_eq, ih]

theorem keyed {b b' : Batch} (h : Steps adds b b') (hb : b.view.Keyed) : b'.view.Keyed := by
  induction h with
  | refl => exact hb
  | tail _ hs ih => exact hs.keyed ih

theorem nextKey_le {b b' : Batch} (h : Steps adds b b') (hb : b.view.Keyed) :
    b.view.nextKey ≤ b'.view.nextKey := by
  induction h with
  | refl => exact Nat.le_refl _
  | tail hst hs ih => exact Nat.le_trans ih (hs.nextKey_le (keyed hst hb))

/-- An object after an operation was there before, in the same class, or was added
under a key that had not been handed out. -/
theorem origin {b b' : Batch} (h : Steps adds b b') (hb : b.view.Keyed) {key : ObjectKey}
    {e' : Entity} (he' : b'.view.entity? key = some e') :
    (∃ e, b.view.entity? key = some e ∧ e.className = e'.className) ∨
      adds ∧ b.view.nextKey < key.val := by
  induction h generalizing e' with
  | refl => exact .inl ⟨e', he', rfl⟩
  | tail hst hs ih =>
    -- backwards from the last step, after which the object is there
    rcases hs.origin (keyed hst hb) he' with ⟨x, hx, hc⟩ | ⟨hadds, hlt⟩
    · rcases ih hx with ⟨e, he, hc'⟩ | hnew
      · exact .inl ⟨e, he, hc'.trans hc⟩
      · exact .inr hnew
    · exact .inr ⟨hadds, Nat.lt_of_le_of_lt (nextKey_le hst hb) hlt⟩

theorem continues {b b' : Batch} (h : Steps adds b b') (hb : b.view.Keyed) :
    b.view.Continues b'.view := by
  refine ⟨h.nextKey_le hb, fun key e' he' => ?_⟩
  rcases h.origin hb he' with hold | ⟨-, hnew⟩
  · exact .inl hold
  · exact .inr hnew

theorem mono {adds' : Prop} (ha : adds → adds') {b b' : Batch} (h : Steps adds b b') :
    Steps adds' b b' := by
  induction h with
  | refl => exact .refl
  | tail _ hs ih =>
    refine ih.tail ?_
    cases hs with
    | allocate => exact .allocate
    | insert className h => exact .insert className (ha h)
    | write key f hf => exact .write key f hf
    | remove key => exact .remove key

end Steps

end Batch

end ObjectStore
