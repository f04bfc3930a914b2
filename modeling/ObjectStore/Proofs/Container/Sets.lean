import ObjectStore.Proofs.Run.Stamps
import ObjectStore.Proofs.Value.Ascending

/-
  Sets are kept in canonical order.

  A set has its elements in strictly ascending order of value (`Container.Canonical`).
  That is what a search in it relies on, and what the search gives back: the place that it
  answers is the only one at which a new value keeps the order. A bulk write sorts the
  values and drops the repetitions. Everything else only takes elements out.

    1. `Container.Canonical.right_place`: a search in a set finds what is there.
    2. `Container.Canonical.insertIdx_iff`: where a value belongs.
    3. `Container.arranged_ascending`: values sorted, each kept once.
    4. `Batch.canonical_written`, `Batch.canonical_removeEntity`, `Container.canonical_edit`
       and one lemma for each operation: contents keep all their sets in order.
    5. `Container.added_append`: what appending a value to a set does.
-/

namespace ObjectStore

/-! ## Stored values -/

namespace Value

theorem WellFormed.normalize {v : Value} (h : v.WellFormed) (k : PropertyKind) :
    (k.normalize v).WellFormed ∧ (k.normalize v).unwrap = v.unwrap := by
  unfold PropertyKind.normalize
  split
  · cases v with
    | wrapped x => exact ⟨h, rfl⟩
    | _ => exact ⟨trivial, rfl⟩
  · exact ⟨h, rfl⟩

end Value

namespace Container

theorem wellFormed_of_prepare {s : Snapshot} {k : PropertyKind} {v stored : Value}
    (hv : v.WellFormed) (h : prepare s k v = .ok stored) :
    stored.WellFormed ∧ stored.unwrap = v.unwrap := by
  obtain ⟨_, -, h⟩ := ok_of_bind h
  obtain ⟨_, -, h⟩ := ok_of_bind h
  cases h
  obtain ⟨hwf, hunwrap⟩ := hv.unwrap.normalize k
  exact ⟨hwf, hunwrap.trans hv.unwrap_unwrap⟩

theorem wellFormed_of_prepareAll {s : Snapshot} {k : PropertyKind} {vs stored : List Value}
    (hv : ∀ v ∈ vs, v.WellFormed) (h : prepareAll s k vs = .ok stored) :
    ∀ v ∈ stored, v.WellFormed := by
  induction vs generalizing stored with
  | nil =>
    cases h
    exact nofun
  | cons x xs ih =>
    obtain ⟨y, hy, h⟩ := ok_of_bind h
    obtain ⟨ys, hys, h⟩ := ok_of_bind h
    cases h
    intro v hm
    rcases List.mem_cons.mp hm with rfl | hm
    · exact (wellFormed_of_prepare (hv x List.mem_cons_self) hy).1
    · exact ih (fun z hz => hv z (List.mem_cons_of_mem x hz)) hys v hm

/-! ## Elements in order -/

/-- The elements of a set: well-formed values in strictly ascending order. -/
structure Canonical (es : List Element) : Prop where
  wellFormed : ∀ e ∈ es, e.value.WellFormed
  ascending : es.Pairwise fun x y => x.value.canonicalCompare y.value = .lt

namespace Canonical

variable {es es' : List Element} {x : Element}

theorem nil : Canonical [] := ⟨nofun, .nil⟩

theorem byValue (h : Canonical es) : Value.Ascending (·.value) es := ⟨h.wellFormed, h.ascending⟩

theorem sublist (h : Canonical es) (hs : es'.Sublist es) : Canonical es' :=
  ⟨fun e he => h.wellFormed e (hs.mem he), h.ascending.sublist hs⟩

/-- A search in a set answers the right place. -/
theorem right_place (h : Canonical es) {v : Value} (hv : v.WellFormed) :
    (placeOf es v).Right (fun e => e.value.canonicalCompare v) es :=
  h.byValue.right_place hv

/-- An element keeps the order if it stands behind what comes before it and before what
comes behind it. -/
theorem insertIdx_iff (h : Canonical es) (hx : x.value.WellFormed) {i : Nat} (hi : i ≤ es.length) :
    Canonical (es.insertIdx i x) ↔
      (∀ e ∈ es.take i, e.value.canonicalCompare x.value = .lt) ∧
        ∀ e ∈ es.drop i, x.value.canonicalCompare e.value = .lt := by
  rw [← h.byValue.insertIdx_iff hx hi]
  exact ⟨byValue, fun hc => ⟨hc.wellFormed, hc.ascending⟩⟩

/-- The place that the search answers for a value that is not there is the only one at
which the value keeps the order. -/
theorem insertIdx_free (h : Canonical es) (hx : x.value.WellFormed) {i : Nat}
    (hplace : placeOf es x.value = .free i) {j : Nat} (hj : j ≤ es.length) :
    Canonical (es.insertIdx j x) ↔ j = i := by
  have hright := h.right_place hx
  rw [hplace] at hright
  obtain ⟨hi, hbefore, hbehind⟩ := hright
  have hnot (e : Element) (he : e ∈ es) (hlt : e.value.canonicalCompare x.value = .lt)
      (hgt : x.value.canonicalCompare e.value = .lt) : False := by
    rw [(Value.canonicalCompare_gt_iff (h.wellFormed e he) hx).mpr hgt] at hlt
    cases hlt
  rw [h.insertIdx_iff hx hj]
  constructor
  · rintro ⟨htake, hdrop⟩
    rcases Nat.lt_trichotomy j i with hlt | heq | hgt
    -- an element between the two places would be on both sides of the value
    · have hlen : j < es.length := Nat.lt_of_lt_of_le hlt hi
      exact (hnot es[j] (List.getElem_mem hlen)
        (hbefore _ (List.mem_take_iff_getElem.mpr ⟨j, by omega, rfl⟩))
        (hdrop _ (List.mem_drop_iff_getElem.mpr ⟨0, by omega, rfl⟩))).elim
    · exact heq
    · have hlen : i < es.length := Nat.lt_of_lt_of_le hgt hj
      have hgt' := hbehind es[i] (List.mem_drop_iff_getElem.mpr ⟨0, by omega, rfl⟩)
      rw [Value.canonicalCompare_gt_iff (h.wellFormed _ (List.getElem_mem hlen)) hx] at hgt'
      exact (hnot es[i] (List.getElem_mem hlen)
        (htake _ (List.mem_take_iff_getElem.mpr ⟨i, by omega, rfl⟩)) hgt').elim
  · rintro rfl
    refine ⟨hbefore, fun e he => ?_⟩
    exact (Value.canonicalCompare_gt_iff (h.wellFormed e (List.mem_of_mem_drop he)) hx).mp
      (hbehind e he)

end Canonical

/-! ## Bulk writes -/

theorem head_lt {v w : Value} {ws : List Value} (hwf : ∀ x ∈ v :: w :: ws, x.WellFormed)
    (h : (v :: w :: ws).Pairwise fun a b => b.canonicalCompare a ≠ .lt)
    (hne : w.canonicalCompare v ≠ .eq) : ∀ x ∈ w :: ws, v.canonicalCompare x = .lt := by
  have hv : v.WellFormed := hwf v List.mem_cons_self
  have hw : w.WellFormed := hwf w (List.mem_cons_of_mem v List.mem_cons_self)
  obtain ⟨hfirst, hrest⟩ := List.pairwise_cons.mp h
  have hvw : v.canonicalCompare w = .lt := by
    rw [← Value.canonicalCompare_gt_iff hw hv]
    cases hc : w.canonicalCompare v with
    | lt => exact absurd hc (hfirst w List.mem_cons_self)
    | eq => exact absurd hc hne
    | gt => rfl
  intro x hx
  rcases List.mem_cons.mp hx with rfl | hx
  · exact hvw
  · have hxw := (List.pairwise_cons.mp hrest).1 x hx
    have hx : x.WellFormed := hwf x (List.mem_cons_of_mem v (List.mem_cons_of_mem w hx))
    refine Value.canonicalCompare_lt_of_lt_of_le hv hw hx hvw ?_
    rwa [ne_eq, Value.canonicalCompare_gt_iff hw hx]

theorem ascending_dropRepeatedAfter {v : Value} {vs : List Value}
    (hwf : ∀ x ∈ v :: vs, x.WellFormed)
    (h : (v :: vs).Pairwise fun a b => b.canonicalCompare a ≠ .lt) :
    (dropRepeatedAfter v vs).Pairwise fun a b => a.canonicalCompare b = .lt := by
  induction vs generalizing v with
  | nil => exact List.pairwise_singleton _ v
  | cons w ws ih =>
    rw [dropRepeatedAfter]
    split
    · have hsub : (v :: ws).Sublist (v :: w :: ws) := (List.sublist_cons_self w ws).cons_cons v
      exact ih (fun x hx => hwf x (hsub.mem hx)) (h.sublist hsub)
    · rename_i hne
      refine List.pairwise_cons.mpr ⟨fun x hx => ?_,
        ih (fun x hx => hwf x (List.mem_cons_of_mem v hx)) (List.pairwise_cons.mp h).2⟩
      exact head_lt hwf h hne x (List.mem_cons.mpr (mem_dropRepeatedAfter hx))

theorem sort_sorted {vs : List Value} (hwf : ∀ v ∈ vs, v.WellFormed) :
    (∀ v ∈ Value.sort vs, v.WellFormed) ∧
      (Value.sort vs).Pairwise fun a b => b.canonicalCompare a ≠ .lt :=
  ⟨fun v hv => hwf v ((stableSort_perm _ vs).mem_iff.mp hv),
    (stableSort_sorted (Value.preorders_canonicalCompare (by decide)) hwf).imp fun h =>
      beq_eq_false_iff_ne.mp h⟩

/-- The values in the order in which a set stores them. -/
theorem arranged_ascending {k : PropertyKind} (hk : k.container = some .set) {vs : List Value}
    (hwf : ∀ v ∈ vs, v.WellFormed) :
    (arranged k vs).Pairwise fun a b => a.canonicalCompare b = .lt := by
  obtain ⟨hmem, hsorted⟩ := sort_sorted hwf
  rw [arranged, if_pos hk]
  cases hs : Value.sort vs with
  | nil => exact .nil
  | cons v ws =>
    rw [hs] at hsorted hmem
    exact ascending_dropRepeatedAfter hmem hsorted

end Container

/-! ## Contents with their sets in order -/

/-- The sets of an object are in order. -/
def Entity.Canonical (e : Entity) : Prop :=
  ∀ name es, (name, Field.set es) ∈ e.fields → Container.Canonical es

/-- All sets of a content are in order. -/
def Snapshot.Canonical (s : Snapshot) : Prop := ∀ e ∈ s.entities, e.Canonical

theorem Snapshot.canonical_empty : Snapshot.empty.Canonical := nofun

theorem Fields.mem_put {fs : Fields} {name n : String} {f g : Field}
    (h : (n, g) ∈ fs.put name f) : (n, g) ∈ fs ∨ g = f := by
  induction fs with
  | nil =>
    obtain ⟨-, rfl⟩ := Prod.mk.inj (List.mem_singleton.mp h)
    exact .inr rfl
  | cons p rest ih =>
    obtain ⟨m, f'⟩ := p
    rw [put] at h
    split at h
    · rcases List.mem_cons.mp h with heq | hm
      · exact .inr (Prod.mk.inj heq).2
      · exact .inl (List.mem_cons_of_mem _ hm)
    · rcases List.mem_cons.mp h with heq | hm
      · exact .inl (heq ▸ List.mem_cons_self)
      · exact (ih hm).imp_left (List.mem_cons_of_mem _)

namespace Entity.Canonical

variable {e : Entity}

theorem put (h : e.Canonical) {name : String} {f : Field}
    (hf : ∀ es, f = .set es → Container.Canonical es) : (e.put name f).Canonical := by
  intro n es hm
  rcases Fields.mem_put hm with hm | heq
  · exact h n es hm
  · exact hf es heq.symm

theorem unlink (h : e.Canonical) (key : ObjectKey) (stamp : Generation) :
    (Batch.unlinkEntity key stamp e).Canonical := by
  intro n es hm
  obtain ⟨⟨m, f⟩, hmem, heq⟩ := List.mem_map.mp hm
  obtain ⟨rfl, hfield⟩ := Prod.mk.inj heq
  cases f with
  | value v =>
    rw [Batch.unlinkField] at hfield
    split at hfield <;> cases hfield
  | list xs => cases hfield
  | set xs =>
    cases hfield
    exact (h m xs hmem).sublist List.filter_sublist

end Entity.Canonical

namespace Batch

variable {schema : Schema} {b : Batch}

theorem canonical_written {key : ObjectKey} {f : Entity → Entity} (hb : b.view.Keyed)
    (hf : WritesFields f) (h : b.view.Canonical)
    (he : ∀ e, b.view.entity? key = some e → e.Canonical →
      (f { e with revision := b.pending }).Canonical) : (b.written key f).view.Canonical := by
  have hstep : Step False b (b.written key f) := .write key f hf
  intro e' hm
  have he' := (hstep.keyed hb).entity?_eq_some.mpr ⟨hm, rfl⟩
  rw [entity?_written hb hf] at he'
  split at he'
  · rename_i hk
    obtain ⟨e, hentity, rfl⟩ := Option.map_eq_some_iff.mp he'
    exact he e (hk ▸ hentity) (h e (Snapshot.mem_of_entity? hentity))
  · exact h e' (Snapshot.mem_of_entity? he')

theorem canonical_removeEntity (key : ObjectKey) (h : b.view.Canonical) :
    (b.removeEntity key).2.view.Canonical := by
  cases hc : b.working.contains key with
  | false => rwa [removeEntity_of_not_contains hc]
  | true =>
    intro e' hm
    simp only [removeEntity, hc, if_true, view] at hm
    obtain ⟨e, hmem, rfl⟩ := List.mem_map.mp hm
    exact (h e (List.mem_filter.mp hmem).1).unlink key b.pending

theorem canonical_createObject {c : ClassSchema} {given : List (Property × Value)}
    (hb : b.view.Keyed) (h : b.view.Canonical) :
    (b.createObject c given).2.view.Canonical := by
  cases hl : b.view.checkLinks given with
  | error e =>
    simp only [createObject, hl]
    exact h
  | ok u =>
    intro e hm
    rw [entities_createObject hb hl] at hm
    rcases List.mem_append.mp hm with hm | hm
    · exact h e hm
    · obtain rfl := List.mem_singleton.mp hm
      intro name es hfield
      obtain ⟨p, -, heq⟩ := List.mem_map.mp hfield
      have hinit : initialField given p = .set es := (Prod.mk.inj heq).2
      unfold initialField at hinit
      split at hinit
      · cases hinit
      · cases hinit
        exact .nil
      · split at hinit <;> cases hinit

theorem canonical_setValue {key : ObjectKey} {property : String} {v : Value} (hb : b.view.Keyed)
    (h : b.view.Canonical) : (setValue schema key property v b).2.view.Canonical := by
  unfold setValue
  split
  · exact h
  · exact canonical_written hb (fun _ => ⟨rfl, rfl, rfl⟩) h fun e _ hcan =>
      Entity.Canonical.put (e := { e with revision := b.pending }) hcan nofun

end Batch

/-! ## Operations on a container -/

namespace Container

variable {schema : Schema} {b : Batch} {c : Container}

theorem exists_set {s : Snapshot} (hd : c.Declared schema s) (hs : s.Conforming schema)
    (hset : c.kind.container = some .set) {e : Entity} (he : s.entity? c.key.owner = some e) :
    ∃ es, e.field? c.key.property = some (.set es) := by
  obtain ⟨p, hp, hkind⟩ := hd e he
  obtain ⟨field, hfield, hfits⟩ := (hs.entities e (Snapshot.mem_of_entity? he)).field? hp
  rw [hkind] at hfits
  cases field with
  | value v => exact absurd (hset.symm.trans hfits.1) nofun
  | list es => exact absurd (hset.symm.trans hfits.1) nofun
  | set es => exact ⟨es, hfield⟩

theorem canonical_elementsOf {s : Snapshot} (hd : c.Declared schema s) (hs : s.Conforming schema)
    (h : s.Canonical) (hset : c.kind.container = some .set) : Canonical (s.elementsOf c.key) := by
  cases he : s.entity? c.key.owner with
  | none =>
    rw [Snapshot.elementsOf_of_none he]
    exact .nil
  | some e =>
    obtain ⟨es, hes⟩ := exists_set hd hs hset he
    rw [Snapshot.elementsOf_of_entity? he, Entity.elements?, hes]
    exact h e (Snapshot.mem_of_entity? he) _ es (Fields.mem_of_get? hes)

theorem fitElements_elementsOf {s : Snapshot} (hd : c.Declared schema s) (hs : s.Conforming schema)
    (hset : c.kind.container = some .set) : s.FitElements c.kind (s.elementsOf c.key) := by
  cases he : s.entity? c.key.owner with
  | none =>
    rw [Snapshot.elementsOf_of_none he]
    exact nofun
  | some e =>
    obtain ⟨es, hes⟩ := exists_set hd hs hset he
    obtain ⟨p, hp, hkind⟩ := hd e he
    obtain ⟨field, hfield, hfits⟩ := (hs.entities e (Snapshot.mem_of_entity? he)).field? hp
    cases hes.symm.trans hfield
    rw [Snapshot.elementsOf_of_entity? he, Entity.elements?, hes]
    exact hkind ▸ hfits.2

/-- Edited elements stay in order if the edit keeps the order of those of a set. -/
theorem canonical_edit {f : List Element → List Element} (hd : c.Declared schema b.view)
    (hs : b.view.Conforming schema) (h : b.view.Canonical)
    (hf : c.kind.container = some .set → Canonical (f (b.view.elementsOf c.key))) :
    (c.edit f b).2.view.Canonical := by
  rw [edit_batch]
  refine Batch.canonical_written hs.keyed (c.writesFields_rewrite f) h fun e he hcan => ?_
  obtain ⟨p, hp, hkind⟩ := hd e he
  obtain ⟨field, hfield, hfits⟩ := (hs.entities e (Snapshot.mem_of_entity? he)).field? hp
  have hfield' : ({ e with revision := b.pending } : Entity).field? c.key.property = some field :=
    hfield
  rw [rewrite, hfield']
  cases field with
  | value v => exact hcan
  | list es =>
    refine Entity.Canonical.put (e := { e with revision := b.pending }) hcan fun xs hxs => ?_
    cases hxs
  | set es =>
    rw [hkind] at hfits
    rw [Snapshot.elementsOf_of_entity? he, Entity.elements?, hfield] at hf
    refine Entity.Canonical.put (e := { e with revision := b.pending }) hcan fun xs hxs => ?_
    cases hxs
    exact hf hfits.1

theorem container_of_prepareAt {operation : String} {v stored : Value} {s : Snapshot}
    {es : List Element} (h : c.prepareAt operation v s = .ok (stored, es)) :
    c.kind.container = some .list := by
  obtain ⟨_, hlist, -⟩ := ok_of_bind h
  unfold requireList at hlist
  split at hlist
  · assumption
  · cases hlist

theorem canonical_append {v : Value} (hd : c.Declared schema b.view)
    (hs : b.view.Conforming schema) (h : b.view.Canonical) (hv : v.WellFormed) :
    (c.append v b).2.view.Canonical := by
  unfold append
  split
  · exact h
  · exact h
  · rename_i stored es hprepare hes
    obtain ⟨-, rfl⟩ := elementsIn_eq_ok.mp hes
    split
    · exact h
    · rename_i i hplace
      refine canonical_edit (b := b.allocateSlot.2) hd (Batch.conforming_allocateSlot hs) h
        fun hset => ?_
      have hcan := canonical_elementsOf hd hs h hset
      have hstored := (wellFormed_of_prepare hv hprepare).1
      rw [placeForNew, if_pos hset] at hplace
      split at hplace
      · cases hplace
      · rename_i j hfree
        cases hplace
        have hright := hcan.right_place hstored
        rw [hfree] at hright
        exact (hcan.insertIdx_free
          (x := ⟨⟨b.view.nextSlot + 1⟩, stored, b.pending⟩) hstored hfree hright.1).mpr rfl

theorem canonical_insert {i : Nat} {v : Value} (hd : c.Declared schema b.view)
    (hs : b.view.Conforming schema) (h : b.view.Canonical) :
    (c.insert i v b).2.view.Canonical := by
  unfold insert
  split
  · exact h
  · rename_i stored es hprepare
    split
    · exact h
    · refine canonical_edit (b := b.allocateSlot.2) hd (Batch.conforming_allocateSlot hs) h
        fun hset => ?_
      exact absurd (hset.symm.trans (container_of_prepareAt hprepare)) nofun

theorem canonical_replace {i : Nat} {v : Value} (hd : c.Declared schema b.view)
    (hs : b.view.Conforming schema) (h : b.view.Canonical) :
    (c.replace i v b).2.view.Canonical := by
  unfold replace
  split
  · exact h
  · rename_i stored es hprepare
    split
    · exact h
    · exact canonical_edit hd hs h fun hset =>
        absurd (hset.symm.trans (container_of_prepareAt hprepare)) nofun

theorem canonical_edit_of_sublist {f : List Element → List Element}
    (hd : c.Declared schema b.view) (hs : b.view.Conforming schema) (h : b.view.Canonical)
    (hf : ∀ es, (f es).Sublist es) : (c.edit f b).2.view.Canonical :=
  canonical_edit hd hs h fun hset => (canonical_elementsOf hd hs h hset).sublist (hf _)

theorem canonical_remove {i : Nat} (hd : c.Declared schema b.view)
    (hs : b.view.Conforming schema) (h : b.view.Canonical) :
    (c.remove i b).2.view.Canonical := by
  unfold remove
  split
  · exact h
  · split
    · exact h
    · exact canonical_edit_of_sublist hd hs h fun es => es.eraseIdx_sublist i

theorem canonical_removeValue {v : Value} (hd : c.Declared schema b.view)
    (hs : b.view.Conforming schema) (h : b.view.Canonical) :
    (c.removeValue v b).2.view.Canonical := by
  unfold removeValue
  split
  · exact h
  · split
    · exact h
    · rename_i i _
      exact canonical_edit_of_sublist hd hs h fun es => es.eraseIdx_sublist i

theorem canonical_assign {vs : List Value} (hd : c.Declared schema b.view)
    (hs : b.view.Conforming schema) (h : b.view.Canonical) (hv : ∀ v ∈ vs, v.WellFormed) :
    (c.assign vs b).2.view.Canonical := by
  unfold assign
  split
  · exact h
  · rename_i stored hprepare
    have hstored := wellFormed_of_prepareAll hv hprepare
    have hsame := entity?_newElements (arranged c.kind stored) b
    have hcan : (newElements b (arranged c.kind stored)).2.view.Canonical := by
      rw [Snapshot.Canonical, (newElements_spec _ b).2]
      exact h
    refine canonical_edit (b := (newElements b (arranged c.kind stored)).2)
      (fun e he => hd e (hsame _ ▸ he)) (conforming_newElements _ hs) hcan fun hset => ?_
    have hvalues := (newElements_spec (arranged c.kind stored) b).1
    refine ⟨fun e he => ?_, ?_⟩
    · have hmem : e.value ∈ arranged c.kind stored := by
        rw [← hvalues]
        exact List.mem_map_of_mem he
      exact hstored _ (mem_of_mem_arranged hmem)
    · have hascending := arranged_ascending hset hstored
      rw [← hvalues] at hascending
      exact List.pairwise_map.mp hascending

theorem canonical_deleteObjects (h : b.view.Canonical) :
    (c.deleteObjects b).2.view.Canonical := by
  have hall (keys : List ObjectKey) : (removeAll b keys).2.view.Canonical := by
    induction keys generalizing b with
    | nil => exact h
    | cons key keys ih => exact ih (Batch.canonical_removeEntity key h)
  unfold deleteObjects
  split
  · exact h
  · split
    · exact h
    · exact hall _

/-! ## Appending to a set -/

/-- What appending a value to a set does: nothing if an equal one is there, else it is put
in as one new element, at the only place that keeps the order. -/
inductive Added (c : Container) (stored : Value) (b : Batch) : Except Error Bool × Batch → Prop
  | kept (e : Element) (he : e ∈ b.view.elementsOf c.key)
    (heq : e.value.canonicalCompare stored = .eq) : Added c stored b (.ok false, b)
  | inserted (b' : Batch) (x : Element) (i : Nat)
    (hx : x = ⟨⟨b.view.nextSlot + 1⟩, stored, b.pending⟩)
    (hnew : ∀ e ∈ b.view.elementsOf c.key, e.value.canonicalCompare stored ≠ .eq)
    (hi : i ≤ (b.view.elementsOf c.key).length)
    (hself : b'.view.elementsOf c.key = (b.view.elementsOf c.key).insertIdx i x)
    (hplace : ∀ j ≤ (b.view.elementsOf c.key).length,
      Canonical ((b.view.elementsOf c.key).insertIdx j x) ↔ j = i)
    (hothers : ∀ k, k ≠ c.key → b'.view.elementsOf k = b.view.elementsOf k)
    (hobjects : ∀ key, key ≠ c.key.owner → b'.view.entity? key = b.view.entity? key) :
    Added c stored b (.ok true, b')

theorem added_append {v stored : Value} (hd : c.Declared schema b.view)
    (hs : b.view.Conforming schema) (h : b.view.Canonical) (hset : c.kind.container = some .set)
    (hv : v.WellFormed) (ho : b.view.contains c.key.owner = true)
    (hprepare : prepare b.view c.kind v = .ok stored) : c.Added stored b (c.append v b) := by
  have hcan := canonical_elementsOf hd hs h hset
  have hstored := (wellFormed_of_prepare hv hprepare).1
  have hright := hcan.right_place hstored
  have hfound := hright.found_iff
  have hes : elementsIn c.key b.view = .ok (b.view.elementsOf c.key) :=
    elementsIn_eq_ok.mpr ⟨ho, rfl⟩
  simp only [append, hprepare, hes, placeForNew, hset, if_true]
  cases hplace : placeOf (b.view.elementsOf c.key) stored with
  | found i =>
    obtain ⟨e, he, heq⟩ := hfound.mp ⟨i, hplace⟩
    exact .kept e he heq
  | free i =>
    rw [hplace] at hright
    have hkeyed := (Batch.conforming_allocateSlot hs).keyed
    have hstands : c.Stands b.allocateSlot.2.view := by
      obtain ⟨e, he⟩ := Snapshot.contains_iff.mp ho
      obtain ⟨es, hfield⟩ := exists_set hd hs hset he
      exact ⟨e, he, fun v hv => by rw [hfield] at hv; cases hv⟩
    let x : Element := ⟨⟨b.view.nextSlot + 1⟩, stored, b.pending⟩
    have hinsert : c.insertNew i stored b =
        c.edit (fun es => es.insertIdx i x) b.allocateSlot.2 := rfl
    have hanswer := edit_ok (f := fun es => es.insertIdx i x) hkeyed hstands
    simp only [hinsert, hanswer, Except.map]
    refine .inserted _ x i rfl (fun e he heq => ?_) hright.1 (elementsOf_edit_self hkeyed hstands)
      (fun j hj => hcan.insertIdx_free hstored hplace hj)
      (fun k hk => elementsOf_edit_of_ne hkeyed hk) fun key hk => ?_
    · obtain ⟨j, hj⟩ := hfound.mpr ⟨e, he, heq⟩
      rw [hplace] at hj
      cases hj
    · rw [edit_batch, Batch.entity?_written hkeyed (c.writesFields_rewrite _), if_neg hk]
      rfl

end Container

end ObjectStore
