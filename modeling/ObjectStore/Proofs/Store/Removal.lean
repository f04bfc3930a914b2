import Mathlib.Data.List.Nodup
import ObjectStore.Proofs.Store.Growth

/-
  An object is removed with every link to it, and nothing else is.

  Removing an object passes all other objects and takes out what links to it, wherever it is
  stored. What this leaves is said here in terms of what is read afterwards: which objects and
  fields there are, which value or elements a field has, and which object is stamped
  (`Snapshot.Unlinked`). The links that were taken out of containers are returned, each as
  often as it was there.

  Two removals do not get into each other's way: a link leads to one object only, and to take
  out the links to one object makes no link to the other and unmakes none. So of several
  objects to be removed the order does not matter, not even if they link to each other or one
  of them owns the container that names them all.

    1. `Batch.unlinked_removeEntity`: what the removal of an object leaves.
    2. `Batch.filter_links`: the links that are returned.
    3. `Batch.removeEntity_comm` and `Container.removeAll_eq`: removal in any order.
    4. `removal_unlinks` is all of this together.
-/

namespace ObjectStore

/-! ## What points to an object -/

/-- Whether a value is a link to an object, in however many wrappers. -/
def Value.pointsTo (key : ObjectKey) : Value → Bool
  | .object k => k == key
  | .wrapped v => v.pointsTo key
  | _ => false

theorem Value.WellFormed.pointsTo_eq {v : Value} (h : v.WellFormed) (key : ObjectKey) :
    v.pointsTo key = (v.asObject == some key) := by
  cases v with
  | object k => simp [pointsTo, asObject, unwrap]
  | wrapped x =>
    cases x with
    | object k => simp [pointsTo, asObject, unwrap]
    | null => exact h.elim
    | wrapped y => exact h.elim
    | _ => rfl
  | _ => rfl

def Field.values : Field → List Value
  | .value v => [v]
  | .list es => es.map (·.value)
  | .set es => es.map (·.value)

/-- Whether a field stores a link to an object. -/
def Field.pointsTo (key : ObjectKey) (f : Field) : Bool := f.values.any (·.pointsTo key)

/-- Whether an object stores a link to another one. -/
def Entity.pointsTo (key : ObjectKey) (e : Entity) : Bool := e.fields.any (·.2.pointsTo key)

def Snapshot.WellFormed (s : Snapshot) : Prop :=
  ∀ e ∈ s.entities, ∀ p ∈ e.fields, ∀ v ∈ p.2.values, v.WellFormed

/-- Objects are told apart by their keys, and the fields of an object by their names. -/
structure Snapshot.Indexed (s : Snapshot) : Prop where
  ascending : s.entities.Pairwise fun a b => a.key.val < b.key.val
  named : ∀ e ∈ s.entities, (e.fields.map (·.1)).Nodup

theorem Snapshot.WellFormed.element {s : Snapshot} (h : s.WellFormed) {c : ContainerKey}
    {x : Element} (hx : x ∈ s.elementsOf c) : x.value.WellFormed := by
  obtain ⟨e, he⟩ := Snapshot.exists_entity?_of_mem hx
  rw [elementsOf_of_entity? he, Entity.elements?] at hx
  cases hf : e.field? c.property with
  | none =>
    rw [hf] at hx
    cases hx
  | some f =>
    refine h e (mem_of_entity? he) (c.property, f) (Fields.mem_of_get? hf) x.value ?_
    rw [hf] at hx
    cases f with
    | value v => cases hx
    | list es => exact List.mem_map_of_mem hx
    | set es => exact List.mem_map_of_mem hx

namespace Batch

variable {b : Batch} {key : ObjectKey}

theorem linksTo_eq {x : Element} (h : x.value.WellFormed) (key : ObjectKey) :
    linksTo key x = x.value.pointsTo key := by
  rw [linksTo, h.pointsTo_eq]

theorem refersTo_eq {f : Field} (h : ∀ v ∈ f.values, v.WellFormed) (key : ObjectKey) :
    refersTo key f = f.pointsTo key := by
  have hany (es : List Element) (hes : ∀ v ∈ es.map (·.value), v.WellFormed) :
      es.any (linksTo key) = (es.map (·.value)).any (·.pointsTo key) := by
    rw [List.any_map, Bool.eq_iff_iff, List.any_eq_true, List.any_eq_true]
    refine exists_congr fun x => and_congr_right fun hx => ?_
    rw [linksTo_eq (hes _ (List.mem_map_of_mem hx)), Function.comp]
  cases f with
  | value v =>
    rw [refersTo, Field.pointsTo, Field.values, List.any_cons, List.any_nil, Bool.or_false,
      (h v List.mem_cons_self).pointsTo_eq]
  | list es => exact hany es h
  | set es => exact hany es h

theorem refers_eq {e : Entity} (h : ∀ p ∈ e.fields, ∀ v ∈ p.2.values, v.WellFormed)
    (key : ObjectKey) : refers key e = e.pointsTo key := by
  rw [refers, Entity.pointsTo, Bool.eq_iff_iff, List.any_eq_true, List.any_eq_true]
  exact exists_congr fun p => and_congr_right fun hp => by rw [refersTo_eq (h p hp)]

end Batch

/-! ## What a removal leaves -/

/-- What is left of an object when another one is removed. A single link has become null, the
elements that linked are gone, and all else is as it was. The object is stamped just if there
was a link in it. -/
structure Entity.Unlinked (key : ObjectKey) (stamp : Generation) (e e' : Entity) : Prop where
  className : e'.className = e.className
  names : e'.fields.map (·.1) = e.fields.map (·.1)
  value : ∀ name v, e.field? name = some (.value v) →
    e'.field? name = some (.value (if v.pointsTo key then .null else v))
  list : ∀ name es, e.field? name = some (.list es) →
    e'.field? name = some (.list (es.filter fun x => !x.value.pointsTo key))
  set : ∀ name es, e.field? name = some (.set es) →
    e'.field? name = some (.set (es.filter fun x => !x.value.pointsTo key))
  revision : e'.revision = if e.pointsTo key then stamp else e.revision
  untouched : e.pointsTo key = false → e' = e

/-- What is left of a content when an object is removed: every other object, without links to
the removed one. -/
structure Snapshot.Unlinked (key : ObjectKey) (stamp : Generation) (s s' : Snapshot) : Prop where
  objects : s'.entities.map (·.key) = (s.entities.map (·.key)).filter (· != key)
  object : ∀ k e', s'.entity? k = some e' →
    ∃ e, s.entity? k = some e ∧ e.Unlinked key stamp e'
  free : ∀ e' ∈ s'.entities, e'.pointsTo key = false
  counters : s'.generation = s.generation ∧ s'.nextKey = s.nextKey ∧ s'.nextSlot = s.nextSlot

namespace Batch

variable {b : Batch} {key : ObjectKey} {e : Entity}

theorem unlinked_unlinkEntity (h : ∀ p ∈ e.fields, ∀ v ∈ p.2.values, v.WellFormed)
    (key : ObjectKey) (stamp : Generation) : e.Unlinked key stamp (unlinkEntity key stamp e) := by
  have hfield {name : String} {f : Field} (hf : e.field? name = some f) :
      (unlinkEntity key stamp e).field? name = some (unlinkField key f) := by
    have hmap := Fields.get?_map e.fields (unlinkField key) name
    rw [← Entity.field?, hf] at hmap
    exact hmap
  have hwf {name : String} {f : Field} (hf : e.field? name = some f) :
      ∀ v ∈ f.values, v.WellFormed :=
    h (name, f) (Fields.mem_of_get? hf)
  have hfilter {es : List Element} (hes : ∀ v ∈ es.map (·.value), v.WellFormed) :
      (es.filter fun x => !linksTo key x) = es.filter fun x => !x.value.pointsTo key :=
    List.filter_congr fun x hx => by rw [linksTo_eq (hes _ (List.mem_map_of_mem hx))]
  exact
    { className := rfl
      names := by simp [unlinkEntity, Function.comp_def]
      value := by
        intro name v hv
        have hpoints := (hwf hv v List.mem_cons_self).pointsTo_eq key
        rw [hfield hv, unlinkField, hpoints]
        by_cases hk : v.asObject = some key
        · simp [hk]
        · simp [hk]
      list := by
        intro name es hes
        rw [hfield hes, unlinkField, hfilter (hwf hes)]
      set := by
        intro name es hes
        rw [hfield hes, unlinkField, hfilter (hwf hes)]
      revision := by rw [← refers_eq h]; rfl
      untouched := by
        intro hpoints
        rw [← refers_eq h] at hpoints
        exact unlinkEntity_of_not_refers hpoints }

theorem pointsTo_unlinkEntity (h : ∀ p ∈ e.fields, ∀ v ∈ p.2.values, v.WellFormed)
    (key : ObjectKey) (stamp : Generation) :
    (unlinkEntity key stamp e).pointsTo key = false := by
  have hfree {es : List Element} (hes : ∀ v ∈ es.map (·.value), v.WellFormed) :
      ((es.filter fun x => !linksTo key x).map (·.value)).any (·.pointsTo key) = false := by
    rw [List.any_eq_false]
    intro v hv
    obtain ⟨x, hx, rfl⟩ := List.mem_map.mp hv
    obtain ⟨hmem, hlink⟩ := List.mem_filter.mp hx
    rw [linksTo_eq (hes _ (List.mem_map_of_mem hmem))] at hlink
    simpa using hlink
  rw [Entity.pointsTo, List.any_eq_false]
  intro p hp
  obtain ⟨⟨name, f⟩, hq, rfl⟩ := List.mem_map.mp hp
  rw [Bool.not_eq_true]
  cases f with
  | value v =>
    have hpoints := (h _ hq v List.mem_cons_self).pointsTo_eq key
    by_cases hk : v.asObject = some key
    · simp [unlinkField, hk, Field.pointsTo, Field.values, Value.pointsTo]
    · simp [unlinkField, hk, Field.pointsTo, Field.values, hpoints]
  | list es => exact hfree (h _ hq)
  | set es => exact hfree (h _ hq)

/-- What the removal of an object leaves. -/
theorem unlinked_removeEntity (hb : b.view.WellFormed) (hc : b.view.contains key = true) :
    b.view.Unlinked key b.pending (b.removeEntity key).2.view := by
  have hview : (b.removeEntity key).2.view = { b.working with
      entities := (b.working.entities.filter (·.key != key)).map
        (unlinkEntity key b.pending) } := by
    simp only [removeEntity, show b.working.contains key = true from hc, if_true, view]
  exact
    { objects := by
        rw [hview, List.map_map, List.filter_map]
        rfl
      object := by
        intro k e' he'
        rw [entity?_removeEntity hc] at he'
        split at he'
        · cases he'
        · obtain ⟨e, he, rfl⟩ := Option.map_eq_some_iff.mp he'
          exact ⟨e, he, unlinked_unlinkEntity (hb e (Snapshot.mem_of_entity? he)) key b.pending⟩
      free := by
        intro e' he'
        rw [hview] at he'
        obtain ⟨e, he, rfl⟩ := List.mem_map.mp he'
        exact pointsTo_unlinkEntity (hb e (List.mem_filter.mp he).1) key b.pending
      counters := by
        rw [hview]
        exact ⟨rfl, rfl, rfl⟩ }

/-! ## The links that are returned -/

theorem flatMap_of_only {α β : Type} {p : α → Bool} {g : α → List β} {l : List α}
    (h : l.Pairwise fun x y => p x = true → p y = false) (hg : ∀ x, p x = false → g x = []) :
    l.flatMap g = ((l.find? p).map g).getD [] := by
  induction l with
  | nil => rfl
  | cons x xs ih =>
    obtain ⟨hx, hxs⟩ := List.pairwise_cons.mp h
    rw [List.flatMap_cons]
    by_cases hp : p x = true
    · have hrest : xs.flatMap g = [] :=
        List.flatMap_eq_nil_iff.mpr fun y hy => hg y (hx y hy hp)
      rw [hrest, List.append_nil, List.find?_cons_of_pos hp]
      rfl
    · rw [hg x (Bool.eq_false_iff.mpr hp), List.nil_append, List.find?_cons_of_neg hp, ih hxs]

/-- The links to an object among the elements of a container. -/
def linksIn (key : ObjectKey) (c : ContainerKey) (es : List Element) :
    List (ContainerKey × SlotId) :=
  (es.filter (linksTo key)).map fun x => (c, x.slot)

theorem filter_unlinkedSlots (key owner : ObjectKey) (c : ContainerKey) (p : String × Field) :
    ((unlinkedSlots key p.2).map fun slot => ((⟨owner, p.1⟩ : ContainerKey), slot)).filter
        (·.1 == c) =
      if owner = c.owner ∧ p.1 = c.property then linksIn key c (p.2.elements?.getD []) else [] := by
  have hslots : unlinkedSlots key p.2 =
      ((p.2.elements?.getD []).filter (linksTo key)).map (·.slot) := by
    cases p.2 <;> rfl
  obtain ⟨o, property⟩ := c
  rw [hslots, List.map_map, linksIn]
  split
  · rename_i heq
    obtain ⟨rfl, rfl⟩ := heq
    exact List.filter_eq_self.mpr fun q hq => by
      obtain ⟨x, -, rfl⟩ := List.mem_map.mp hq
      simp
  · rename_i hne
    refine List.filter_eq_nil_iff.mpr fun q hq => ?_
    obtain ⟨x, -, rfl⟩ := List.mem_map.mp hq
    simpa using hne

theorem filter_unlinkedIn (key : ObjectKey) (c : ContainerKey)
    (hn : (e.fields.map (·.1)).Nodup) :
    (unlinkedIn key e).filter (·.1 == c) =
      if e.key = c.owner then linksIn key c ((e.elements? c.property).getD []) else [] := by
  have honly : e.fields.Pairwise fun p q =>
      (c.property == p.1) = true → (c.property == q.1) = false := by
    refine (List.pairwise_map.mp hn).imp fun {p q} hpq hp => ?_
    rw [beq_iff_eq] at hp
    rw [beq_eq_false_iff_ne, hp]
    exact hpq
  have hfind (fs : Fields) : (fs.find? (c.property == ·.1)).map (·.2) = fs.get? c.property := by
    induction fs with
    | nil => rfl
    | cons p rest ih =>
      rw [Fields.get?] at ih ⊢
      rw [List.find?_cons, List.lookup_cons]
      split
      · rfl
      · exact ih
  rw [unlinkedIn, List.filter_flatMap]
  simp only [filter_unlinkedSlots]
  by_cases ho : e.key = c.owner
  · simp only [ho, true_and, if_true]
    rw [flatMap_of_only honly fun p hp => if_neg (Ne.symm (beq_eq_false_iff_ne.mp hp)),
      Entity.elements?, Entity.field?, ← hfind]
    cases hf : e.fields.find? (c.property == ·.1) with
    | none => rfl
    | some p =>
      have hname : c.property = p.1 := by simpa using List.find?_some hf
      simp [hname]
  · simp [ho]

/-- The links that are returned are those that are taken out: of every container of another
object the elements that link to the removed one, in the order in which they stood. -/
theorem filter_links (hb : b.view.Indexed) {links : List (ContainerKey × SlotId)}
    (h : (b.removeEntity key).1 = some links) (c : ContainerKey) :
    links.filter (·.1 == c) =
      if c.owner = key then [] else linksIn key c (b.view.elementsOf c) := by
  let rest := b.working.entities.filter (·.key != key)
  obtain rfl : rest.flatMap (unlinkedIn key) = links := by
    rw [removeEntity] at h
    split at h
    · exact Option.some.inj h
    · cases h
  have hmem {e : Entity} (he : e ∈ rest) : e ∈ b.view.entities := (List.mem_filter.mp he).1
  have honly : rest.Pairwise fun e e' =>
      (e.key == c.owner) = true → (e'.key == c.owner) = false := by
    refine (hb.ascending.filter _).imp fun {e e'} hlt he => ?_
    rw [beq_iff_eq] at he
    rw [beq_eq_false_iff_ne, ← he]
    rintro heq
    rw [heq] at hlt
    exact absurd hlt (Nat.lt_irrefl _)
  have hpart : rest.flatMap (fun e => (unlinkedIn key e).filter (·.1 == c)) = rest.flatMap fun e =>
      if e.key == c.owner then linksIn key c ((e.elements? c.property).getD []) else [] := by
    refine List.flatMap_congr fun e he => ?_
    rw [filter_unlinkedIn key c (hb.named e (hmem he))]
    simp
  have hfind : rest.find? (·.key == c.owner) =
      if c.owner = key then none else b.view.entity? c.owner :=
    Snapshot.find?_others _ key c.owner
  rw [List.filter_flatMap, hpart, flatMap_of_only honly fun e he => by simp [he], hfind]
  split
  · rfl
  · cases he : b.view.entity? c.owner with
    | none => simp [Snapshot.elementsOf_of_none he, linksIn]
    | some e => simp [Snapshot.elementsOf_of_entity? he, Snapshot.key_of_entity? he]

/-! ## Removals in any order -/

theorem refersTo_unlinkField {gone : ObjectKey} (hne : key ≠ gone) (f : Field) :
    refersTo key (unlinkField gone f) = refersTo key f := by
  have hother {v : Value} (h : v.asObject = some key) : v.asObject ≠ some gone := by
    rw [h]
    exact fun heq => hne (Option.some.inj heq)
  have hany (es : List Element) :
      (es.filter fun x => !linksTo gone x).any (linksTo key) = es.any (linksTo key) := by
    rw [List.any_filter]
    congr 1
    funext x
    cases hx : linksTo key x with
    | false => rw [Bool.and_false]
    | true =>
      have hgone := hother (beq_iff_eq.mp hx)
      simp [linksTo, hgone]
  cases f with
  | value v =>
    rw [unlinkField]
    split
    · rename_i hv
      have hnot : v.asObject ≠ some key := fun h => hother h hv
      rw [refersTo, refersTo, beq_eq_false_iff_ne.mpr hnot]
      rfl
    · rfl
  | list es => exact hany es
  | set es => exact hany es

theorem unlinkField_comm (key gone : ObjectKey) (f : Field) :
    unlinkField key (unlinkField gone f) = unlinkField gone (unlinkField key f) := by
  cases f with
  | value v =>
    have hcases (k : ObjectKey) :
        unlinkField k (.value v) = .value v ∨ unlinkField k (.value v) = .value .null := by
      rw [unlinkField]
      split
      · exact .inr rfl
      · exact .inl rfl
    have hnull (k : ObjectKey) : unlinkField k (.value .null) = .value .null := by
      rw [unlinkField, ite_self]
    rcases hcases key with hk | hk <;> rcases hcases gone with hg | hg <;>
      simp only [hk, hg, hnull]
  | list es => simp only [unlinkField, List.filter_comm]
  | set es => simp only [unlinkField, List.filter_comm]

theorem unlinkEntity_comm {gone : ObjectKey} (hne : key ≠ gone) (stamp : Generation) (e : Entity) :
    unlinkEntity key stamp (unlinkEntity gone stamp e) =
      unlinkEntity gone stamp (unlinkEntity key stamp e) := by
  have hrefers {k g : ObjectKey} (h : k ≠ g) :
      refers k (unlinkEntity g stamp e) = refers k e := by
    simp only [refers, unlinkEntity, List.any_map, Function.comp_def, refersTo_unlinkField h]
  have hfields : (unlinkEntity key stamp (unlinkEntity gone stamp e)).fields =
      (unlinkEntity gone stamp (unlinkEntity key stamp e)).fields := by
    simp only [unlinkEntity, List.map_map, Function.comp_def, unlinkField_comm key gone]
  have hrevision : (unlinkEntity key stamp (unlinkEntity gone stamp e)).revision =
      (unlinkEntity gone stamp (unlinkEntity key stamp e)).revision := by
    change (if refers key (unlinkEntity gone stamp e) then stamp
        else if refers gone e then stamp else e.revision) =
      if refers gone (unlinkEntity key stamp e) then stamp
        else if refers key e then stamp else e.revision
    rw [hrefers hne, hrefers hne.symm]
    cases refers key e <;> cases refers gone e <;> rfl
  exact Entity.mk.injEq .. ▸ ⟨rfl, rfl, hfields, hrevision⟩

theorem contains_removed (b : Batch) {k : ObjectKey} (hne : k ≠ key) :
    (b.removeEntity key).2.view.contains k = b.view.contains k := by
  cases hc : b.working.contains key with
  | false => rw [removeEntity_of_not_contains hc]
  | true => rw [Bool.eq_iff_iff, contains_removeEntity hc, and_iff_right hne]

theorem removeEntity_comm (b : Batch) (key gone : ObjectKey) :
    ((b.removeEntity gone).2.removeEntity key).2 =
      ((b.removeEntity key).2.removeEntity gone).2 := by
  by_cases heq : key = gone
  · rw [heq]
  have hkey := b.contains_removed heq
  have hgone := b.contains_removed (Ne.symm heq)
  cases hk : b.working.contains key with
  | false =>
    rw [removeEntity_of_not_contains hk, removeEntity_of_not_contains (hkey.trans hk)]
  | true =>
    cases hg : b.working.contains gone with
    | false =>
      rw [removeEntity_of_not_contains hg, removeEntity_of_not_contains (hgone.trans hg)]
    | true =>
      have hafter {k g : ObjectKey} (hk : b.working.contains k = true)
          (hg : (b.removeEntity k).2.working.contains g = true) :
          ((b.removeEntity k).2.removeEntity g).2 = { b with working := { b.working with
            entities := ((b.working.entities.filter (·.key != k)).filter (·.key != g)).map
              (unlinkEntity g b.pending ∘ unlinkEntity k b.pending) } } := by
        rw [removeEntity, if_pos hg]
        simp only [removeEntity, hk, if_true, pending, List.filter_map, List.map_map]
        rfl
      rw [hafter hg (hkey.trans hk), hafter hk (hgone.trans hg), List.filter_comm]
      have hcomp : unlinkEntity key b.pending ∘ unlinkEntity gone b.pending =
          unlinkEntity gone b.pending ∘ unlinkEntity key b.pending :=
        funext fun e => unlinkEntity_comm heq b.pending e
      rw [hcomp]

end Batch

namespace Container

variable {b : Batch}

/-- Different objects that are removed: those that were there count. -/
theorem removeAll_eq {keys : List ObjectKey} (hn : keys.Nodup) :
    removeAll b keys =
      (keys.countP b.view.contains, keys.foldl (fun b key => (b.removeEntity key).2) b) := by
  induction keys generalizing b with
  | nil => rfl
  | cons key keys ih =>
    obtain ⟨hkey, hkeys⟩ := List.nodup_cons.mp hn
    have hcount : keys.countP (b.removeEntity key).2.view.contains =
        keys.countP b.view.contains :=
      List.countP_congr fun k hk => by
        have hne : k ≠ key := fun heq => hkey (heq ▸ hk)
        rw [b.contains_removed hne]
    have hsome : (b.removeEntity key).1.isSome = b.view.contains key := by
      cases hc : b.working.contains key with
      | false =>
        rw [Batch.removeEntity_of_not_contains hc]
        exact hc.symm
      | true =>
        rw [Batch.removeEntity, if_pos hc]
        exact hc.symm
    simp only [removeAll, ih hkeys, hcount, hsome, List.foldl_cons, List.countP_cons]
    cases b.view.contains key <;> rfl

theorem nodup_eraseDups {α : Type} [DecidableEq α] (l : List α) : l.eraseDups.Nodup := by
  induction hn : l.length using Nat.strongRecOn generalizing l with
  | ind n ih =>
    cases l with
    | nil => exact List.nodup_nil
    | cons x xs =>
      rw [List.eraseDups_cons, List.nodup_cons, List.mem_eraseDups]
      have hshorter := List.length_filter_le (fun y => !y == x) xs
      rw [List.length_cons] at hn
      exact ⟨by simp, ih _ (by omega) _ rfl⟩

theorem perm_linkedKeys {es : List Element} (hes : ∀ x ∈ es, x.value.WellFormed)
    {keys : List ObjectKey} (hn : keys.Nodup)
    (hkeys : ∀ key, key ∈ keys ↔ ∃ x ∈ es, x.value.pointsTo key = true) :
    (linkedKeys es).Perm keys := by
  have hnodup : (linkedKeys es).Nodup :=
    (List.mergeSort_perm _ _).nodup_iff.mpr (nodup_eraseDups _)
  refine (List.perm_ext_iff_of_nodup hnodup hn).mpr fun key => ?_
  rw [linkedKeys, List.mem_mergeSort, List.mem_eraseDups, List.mem_filterMap, hkeys]
  refine exists_congr fun x => and_congr_right fun hx => ?_
  rw [(hes x hx).pointsTo_eq, beq_iff_eq]

theorem deleteObjects_eq {c : Container} (hk : c.kind.isObject = true)
    (ho : b.view.contains c.key.owner = true)
    (hes : ∀ x ∈ b.view.elementsOf c.key, x.value.WellFormed) {keys : List ObjectKey}
    (hn : keys.Nodup)
    (hkeys : ∀ key, key ∈ keys ↔ ∃ x ∈ b.view.elementsOf c.key, x.value.pointsTo key = true) :
    c.guarded c.deleteObjects b =
      (.ok (keys.countP b.view.contains), keys.foldl (fun b key => (b.removeEntity key).2) b) := by
  have hperm := perm_linkedKeys hes hn hkeys
  have hfold := hperm.foldl_eq' (f := fun b key => (b.removeEntity key).2)
    (fun key _ gone _ b => b.removeEntity_comm gone key) b
  rw [guarded, if_pos ho, deleteObjects, elementsIn_eq_ok.mpr ⟨ho, rfl⟩]
  simp only [hk, Bool.not_true, Bool.false_eq_true, if_false]
  rw [removeAll_eq (hperm.nodup_iff.mpr hn), hperm.countP_eq, hfold]

end Container

/-- An object that is removed leaves all others as they were, but without a link to it, and
the links that were taken out of their containers are returned. What it listed itself is gone
with it and is not returned. To delete the objects that a container links to is to remove them
in any order; those that were there are counted. -/
theorem removal_unlinks {b : Batch} (hi : b.view.Indexed) (hw : b.view.WellFormed) :
    (∀ key, b.view.contains key = true → ∃ links,
      (b.removeEntity key).1 = some links ∧
      (∀ c, links.filter (·.1 == c) = if c.owner = key then [] else
        ((b.view.elementsOf c).filter (·.value.pointsTo key)).map fun x => (c, x.slot)) ∧
      (b.removeEntity key).2.base = b.base ∧
      b.view.Unlinked key b.pending (b.removeEntity key).2.view) ∧
    (∀ c : Container, c.kind.isObject = true → b.view.contains c.key.owner = true →
      ∀ keys : List ObjectKey, keys.Nodup →
      (∀ key, key ∈ keys ↔ ∃ x ∈ b.view.elementsOf c.key, x.value.pointsTo key = true) →
      c.guarded c.deleteObjects b =
        (.ok (keys.countP b.view.contains),
          keys.foldl (fun b key => (b.removeEntity key).2) b)) := by
  refine ⟨fun key hc => ?_, fun c hk ho keys hn hkeys =>
    Container.deleteObjects_eq hk ho (fun x hx => hw.element hx) hn hkeys⟩
  obtain ⟨links, hlinks⟩ : ∃ links, (b.removeEntity key).1 = some links := by
    rw [Batch.removeEntity, show b.working.contains key = true from hc]
    exact ⟨_, rfl⟩
  have hstep : Batch.Step False b (b.removeEntity key).2 := .remove key
  refine ⟨links, hlinks, fun c => ?_, hstep.base_eq, Batch.unlinked_removeEntity hw hc⟩
  rw [Batch.filter_links hi hlinks, Batch.linksIn, List.filter_congr fun x hx =>
    Batch.linksTo_eq (hw.element hx) key]

/-! ## Three in a circle -/

/-- One lists itself and, twice, a second, who is also its best friend. That one lists the first,
and a third has noted down the second. -/
def circle : Snapshot :=
  ⟨3, [⟨⟨1⟩, "Person", [("best", .value (.object ⟨2⟩)), ("friends", .list
        [⟨⟨1⟩, .object ⟨2⟩, 1⟩, ⟨⟨2⟩, .object ⟨1⟩, 1⟩, ⟨⟨3⟩, .object ⟨2⟩, 2⟩])], 2⟩,
      ⟨⟨2⟩, "Person", [("friends", .set [⟨⟨4⟩, .object ⟨1⟩, 3⟩])], 3⟩,
      ⟨⟨3⟩, "Person", [("notes", .list
        [⟨⟨5⟩, .wrapped (.object ⟨2⟩), 3⟩, ⟨⟨6⟩, .wrapped (.string "hiking"), 3⟩])], 3⟩], 3, 6⟩

def friends : Container := ⟨⟨⟨1⟩, "friends"⟩, .listOf "Person"⟩

/-- The second is removed without a trace. The friends of the first are the second and the first
itself, and they are removed in this order as well as in the other. -/
theorem circle_unlinked :
    circle.Indexed ∧ circle.WellFormed ∧ circle.contains ⟨2⟩ = true ∧
      circle.Unlinked ⟨2⟩ 4 ((Batch.start circle).removeEntity ⟨2⟩).2.view ∧
      friends.guarded friends.deleteObjects (.start circle) =
        (.ok 2, [⟨2⟩, ⟨1⟩].foldl (fun b key => (b.removeEntity key).2) (.start circle)) := by
  have hi : circle.Indexed := ⟨by decide, by decide⟩
  have hw : circle.WellFormed := by
    simp [Snapshot.WellFormed, circle, Field.values, Value.WellFormed, or_imp, forall_and]
  obtain ⟨hremoved, hdeleted⟩ := removal_unlinks (b := .start circle) hi hw
  obtain ⟨links, -, -, -, hunlinked⟩ := hremoved ⟨2⟩ rfl
  have hkeys (key : ObjectKey) : key ∈ [(⟨2⟩ : ObjectKey), ⟨1⟩] ↔
      ∃ x ∈ (Batch.start circle).view.elementsOf friends.key, x.value.pointsTo key = true := by
    have helements : (Batch.start circle).view.elementsOf friends.key =
        [⟨⟨1⟩, .object ⟨2⟩, 1⟩, ⟨⟨2⟩, .object ⟨1⟩, 1⟩, ⟨⟨3⟩, .object ⟨2⟩, 2⟩] := rfl
    simp only [helements, Value.pointsTo, List.mem_cons, List.not_mem_nil, or_false,
      exists_eq_or_imp, exists_eq_left, beq_iff_eq]
    tauto
  exact ⟨hi, hw, rfl, hunlinked, hdeleted friends rfl rfl [⟨2⟩, ⟨1⟩] (by decide) hkeys⟩

end ObjectStore
