import ObjectStore.Proofs.Store.Lookups

/-
  No single value where a list or set is declared.

  An edit of elements finds out only after it has stamped the owner whether the property
  has elements. That it always has, where it is declared as a list or set, needs much less
  than that the content conforms to the schema, and holds whatever was written, also
  through handles that no longer have the declared kind: only a write to a property of one
  value and a new object put in a single value, and an edit of elements never does.

    1. `Snapshot.Shaped` is this property of a content.
    2. `Container.Makes`: an operation on a container leaves the batch as it was, or edits
       the elements once, behind everything that it checks.
    3. `Edit.shaped_apply`: every write keeps a content shaped.
-/

namespace ObjectStore

/-- No property that is declared as a list or set holds a single value. -/
def Entity.Shaped (schema : Schema) (e : Entity) : Prop :=
  ∀ name p v, schema.property e.className name = .ok p → p.kind.isContainer = true →
    e.field? name ≠ some (.value v)

/-- So it is for all objects of a content. -/
def Snapshot.Shaped (schema : Schema) (s : Snapshot) : Prop :=
  ∀ key e, s.entity? key = some e → e.Shaped schema

theorem Snapshot.shaped_empty (schema : Schema) : Snapshot.empty.Shaped schema :=
  fun _ _ he => by cases he

theorem Snapshot.Keyed.congr {s s' : Snapshot} (h : s.Keyed) (hentities : s'.entities = s.entities)
    (hkey : s'.nextKey = s.nextKey) : s'.Keyed := by
  refine ⟨?_, ?_⟩
  · rw [hentities]
    exact h.ascending
  · rw [hentities, hkey]
    exact h.handedOut

theorem Entity.Shaped.of_values {schema : Schema} {e e' : Entity} (h : e.Shaped schema)
    (hc : e'.className = e.className)
    (hv : ∀ name v', e'.field? name = some (.value v') → ∃ v, e.field? name = some (.value v)) :
    e'.Shaped schema := by
  intro name p v' hp hk hfield
  obtain ⟨v, hold⟩ := hv name v' hfield
  rw [hc] at hp
  exact h name p v hp hk hold

theorem Container.stands_of_declared {schema : Schema} {s : Snapshot} {c : Container}
    (h : s.Shaped schema) (hd : c.Declared schema s) (hk : c.kind.isContainer = true)
    (ho : s.contains c.key.owner = true) : c.Stands s := by
  obtain ⟨e, he⟩ := Snapshot.contains_iff.mp ho
  obtain ⟨p, hp, hkind⟩ := hd e he
  exact ⟨e, he, fun v => h _ e he c.key.property p v hp (hkind ▸ hk)⟩

theorem Fields.get?_declared {ps : List Property} {name : String} {p : Property}
    (f : Property → Field) (h : ps.find? (·.name == name) = some p) :
    Fields.get? (ps.map fun p => (p.name, f p)) name = some (f p) := by
  induction ps with
  | nil => cases h
  | cons q qs ih =>
    by_cases hn : q.name = name
    · rw [List.find?_cons_of_pos (by simp [hn])] at h
      cases h
      simp [Fields.get?, hn]
    · rw [List.find?_cons_of_neg (by simp [hn])] at h
      have hne : (name == q.name) = false := by simpa using Ne.symm hn
      simpa only [Fields.get?, List.map_cons, List.lookup_cons, hne] using ih h

/-! ## Operations on a container -/

namespace Container

variable {schema : Schema} {b : Batch} {c : Container} {α : Type}

/-- An operation on a container leaves the batch as it was, or it edits the elements once
and answers as this edit does. At most slots are handed out before. -/
inductive Makes (c : Container) (b : Batch) : Except Error α × Batch → Prop
  | nothing (o : Except Error α) : Makes c b (o, b)
  | edit (f : List Element → List Element) (a : Batch) (g : Unit → α)
    (hentities : a.view.entities = b.view.entities) (hkey : a.view.nextKey = b.view.nextKey) :
    Makes c b ((c.edit f a).1.map g, (c.edit f a).2)

theorem Makes.now (f : List Element → List Element) (g : Unit → α) :
    c.Makes b ((c.edit f b).1.map g, (c.edit f b).2) := .edit f b g rfl rfl

theorem map_id_unit (r : Except Error Unit × Batch) : (r.1.map id, r.2) = r := by
  obtain ⟨o, b⟩ := r
  cases o <;> rfl

theorem makes_append (v : Value) : c.Makes b (c.append v b) := by
  unfold append
  split
  · exact .nothing _
  · exact .nothing _
  · split
    · exact .nothing _
    · rename_i i _
      exact .edit (fun es => es.insertIdx i _) b.allocateSlot.2 _ rfl rfl

theorem makes_insert (i : Nat) (v : Value) : c.Makes b (c.insert i v b) := by
  unfold insert
  split
  · exact .nothing _
  · split
    · exact .nothing _
    · rw [← map_id_unit (c.insertNew i _ b)]
      exact .edit (fun es => es.insertIdx i _) b.allocateSlot.2 id rfl rfl

theorem makes_remove (i : Nat) : c.Makes b (c.remove i b) := by
  unfold remove
  split
  · exact .nothing _
  · split
    · exact .nothing _
    · exact .now _ _

theorem makes_removeValue (v : Value) : c.Makes b (c.removeValue v b) := by
  unfold removeValue
  split
  · exact .nothing _
  · split
    · exact .nothing _
    · exact .now _ _

theorem makes_replace (i : Nat) (v : Value) : c.Makes b (c.replace i v b) := by
  unfold replace
  split
  · exact .nothing _
  · split
    · exact .nothing _
    · exact .now _ _

theorem makes_clear : c.Makes b (c.clear b) := by
  rw [← map_id_unit (c.clear b)]
  exact .now _ id

theorem makes_assign (vs : List Value) : c.Makes b (c.assign vs b) := by
  have hkey (stored : List Value) (a : Batch) :
      (newElements a stored).2.view.nextKey = a.view.nextKey := by
    induction stored generalizing a with
    | nil => rfl
    | cons v vs ih => exact ih a.allocateSlot.2
  unfold assign
  split
  · exact .nothing _
  · rename_i stored _
    simp only
    rw [← map_id_unit (c.edit _ _)]
    exact .edit _ _ id (newElements_spec (arranged c.kind stored) b).2 (hkey _ b)

theorem shaped_rewrite {f : List Element → List Element} {e : Entity} (h : e.Shaped schema) :
    (c.rewrite f e).Shaped schema := by
  unfold rewrite
  split
  · rename_i field hedit
    refine h.of_values rfl fun name v' hfield => ?_
    by_cases hname : name = c.key.property
    · -- what is put in has elements
      subst hname
      have hput := (Fields.get?_put_self e.fields c.key.property field).symm.trans hfield
      cases hput
      unfold editField at hedit
      split at hedit
      · split at hedit <;> cases hedit
      all_goals cases hedit
    · exact ⟨v', (Fields.get?_put_of_ne e.fields field hname).symm.trans hfield⟩
  · exact h

end Container

/-! ## Writes -/

namespace Batch

variable {schema : Schema} {b : Batch}

theorem shaped_written {key : ObjectKey} {f : Entity → Entity} (hf : WritesFields f)
    (hb : b.view.Keyed) (h : b.view.Shaped schema)
    (he : ∀ e, b.view.entity? key = some e →
      (f { e with revision := b.pending }).Shaped schema) :
    (b.written key f).view.Shaped schema := by
  intro k e' he'
  rw [entity?_written hb hf] at he'
  split at he'
  · rename_i hk
    subst hk
    obtain ⟨e, hold, rfl⟩ := Option.map_eq_some_iff.mp he'
    exact he e hold
  · exact h k e' he'

theorem shaped_removeEntity (key : ObjectKey) (h : b.view.Shaped schema) :
    (b.removeEntity key).2.view.Shaped schema := by
  cases hc : b.working.contains key with
  | false => rwa [removeEntity_of_not_contains hc]
  | true =>
    intro k e' he'
    rw [entity?_removeEntity hc] at he'
    split at he'
    · cases he'
    · obtain ⟨e, hold, rfl⟩ := Option.map_eq_some_iff.mp he'
      refine (h k e hold).of_values rfl fun name v' hfield => ?_
      have hmap : (e.field? name).map (unlinkField key) = some (.value v') :=
        (Fields.get?_map _ _ _).symm.trans hfield
      obtain ⟨field, hfield, hunlink⟩ := Option.map_eq_some_iff.mp hmap
      cases field with
      | value v => exact ⟨v, hfield⟩
      | list es => cases hunlink
      | set es => cases hunlink

theorem shaped_createObject {c : ClassSchema} {given : List (Property × Value)}
    (hfind : schema.find c.name = .ok c) (hb : b.view.Keyed) (h : b.view.Shaped schema) :
    (b.createObject c given).2.view.Shaped schema := by
  cases hl : b.view.checkLinks given with
  | error e =>
    simp only [createObject, hl]
    exact h
  | ok u =>
    intro k e' he'
    rw [entity?_createObject hb hl] at he'
    split at he'
    · cases he'
      intro name p v hp hk hfield
      simp only [Schema.property, hfind] at hp
      have hlookup : Fields.get? _ name = some (initialField given p) :=
        Fields.get?_declared _ (ClassSchema.property_eq_ok hp)
      have hvalue := Option.some.inj (hlookup.symm.trans hfield)
      unfold PropertyKind.isContainer at hk
      cases hcont : p.kind.container with
      | none =>
        rw [hcont] at hk
        cases hk
      | some shape =>
        cases shape <;> simp only [initialField, hcont] at hvalue <;> cases hvalue
    · exact h k e' he'

theorem shaped_setValue {key : ObjectKey} {property : String} {v : Value} (hb : b.view.Keyed)
    (h : b.view.Shaped schema) : (setValue schema key property v b).2.view.Shaped schema := by
  unfold setValue
  split
  · exact h
  · rename_i stored hcheck
    refine shaped_written (fun _ => ⟨rfl, rfl, rfl⟩) hb h fun e he => ?_
    obtain ⟨p, hp, hfits⟩ := fits_of_checkWrite he hcheck
    intro name q w hq hk hfield
    by_cases hname : name = property
    · subst hname
      obtain rfl : q = p := Except.ok.inj (hq.symm.trans hp)
      rw [PropertyKind.isContainer, hfits.1] at hk
      cases hk
    · exact h key e he name q w hq hk ((Fields.get?_put_of_ne e.fields _ hname).symm.trans hfield)

end Batch

theorem Container.Makes.shaped {schema : Schema} {b : Batch} {c : Container} {α : Type}
    {r : Except Error α × Batch} (hr : c.Makes b r) (hb : b.view.Keyed)
    (h : b.view.Shaped schema) : r.2.view.Shaped schema := by
  cases hr with
  | nothing o => exact h
  | edit f a g hentities hkey =>
    have hsame (key : ObjectKey) : a.view.entity? key = b.view.entity? key := by
      rw [Snapshot.entity?, hentities, Snapshot.entity?]
    have hkeyed : a.view.Keyed := hb.congr hentities hkey
    have hshaped : a.view.Shaped schema := fun key e he => h key e (hsame key ▸ he)
    simp only [edit_batch]
    exact Batch.shaped_written (c.writesFields_rewrite f) hkeyed hshaped fun e he =>
      shaped_rewrite (hshaped _ e he)

theorem Container.shaped_deleteObjects {schema : Schema} {b : Batch} {c : Container}
    (h : b.view.Shaped schema) : (c.deleteObjects b).2.view.Shaped schema := by
  have hall (keys : List ObjectKey) : (removeAll b keys).2.view.Shaped schema := by
    induction keys generalizing b with
    | nil => exact h
    | cons key keys ih => exact ih (Batch.shaped_removeEntity key h)
  unfold deleteObjects
  split
  · exact h
  · split
    · exact h
    · exact hall _

namespace Edit

variable {schema : Schema} {b : Batch}

/-- Every write, made or refused and through whatever handle, keeps a content shaped. -/
theorem shaped_apply (e : Edit) (hb : b.view.Keyed) (h : b.view.Shaped schema) :
    (e.apply schema b).view.Shaped schema := by
  cases e with
  | create className fields =>
    simp only [apply]
    split
    · exact h
    · rename_i c hfind
      split
      · exact h
      · refine Batch.shaped_createObject ?_ hb h
        rw [Schema.name_of_find hfind]
        exact hfind
  | delete key => exact Batch.shaped_removeEntity key h
  | setValue key property v => exact Batch.shaped_setValue hb h
  | elements c e =>
    simp only [apply, Container.guarded_batch]
    split
    · cases e with
      | append v => exact (c.makes_append v).shaped hb h
      | insert i v => exact (c.makes_insert i v).shaped hb h
      | remove i => exact (c.makes_remove i).shaped hb h
      | removeValue v => exact (c.makes_removeValue v).shaped hb h
      | replace i v => exact (c.makes_replace i v).shaped hb h
      | clear => exact c.makes_clear.shaped hb h
      | deleteObjects => exact Container.shaped_deleteObjects h
    · exact h
  | assign c vs =>
    simp only [apply, Container.guarded_batch]
    split
    · exact (c.makes_assign vs).shaped hb h
    · exact h

end Edit

end ObjectStore
