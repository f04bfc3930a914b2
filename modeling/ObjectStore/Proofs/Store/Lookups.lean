import ObjectStore.Proofs.Schema.Conformance

/-
  What the steps of a batch do to a lookup.

  A step of a batch is a change of a list of objects, and an object is a list of fields.
  Here the same is said by key and by name: which object stands under a key after a
  step, which field under a name, and which elements in a container. Whatever is not
  written reads as before.

    1. `Snapshot.elementsOf` are the elements of a container, none if it is not there.
    2. `Batch.entity?_written`, `entity?_removeEntity` and `entity?_createObject` are the
       objects after a step.
    3. `Container.elementsOf_edit_self`: the elements of a container that stands are
       edited. `Batch.elementsOf_setValue`, `Batch.elementsOf_removeEntity` and
       `Batch.elementsOf_createObject` are the elements after other steps.
-/

namespace ObjectStore

namespace Fields

theorem get?_put_self (fs : Fields) (name : String) (f : Field) :
    (fs.put name f).get? name = some f := by
  induction fs with
  | nil => simp [put, get?]
  | cons p rest ih =>
    obtain ⟨n, g⟩ := p
    by_cases hn : n = name
    · simp [put, get?, hn]
    · have hne : (name == n) = false := by simpa using Ne.symm hn
      simp only [get?] at ih
      simp [put, get?, hn, List.lookup_cons, hne, ih]

theorem get?_put_of_ne (fs : Fields) {name other : String} (f : Field) (h : other ≠ name) :
    (fs.put name f).get? other = fs.get? other := by
  induction fs with
  | nil =>
    have hne : (other == name) = false := by simpa using h
    simp [put, get?, List.lookup_cons, hne]
  | cons p rest ih =>
    obtain ⟨n, g⟩ := p
    simp only [get?] at ih
    by_cases hn : n = name
    · subst hn
      have hne : (other == n) = false := by simpa using h
      simp [put, get?, List.lookup_cons, hne]
    · simp [put, get?, hn, List.lookup_cons, ih]

theorem mem_of_get? {fs : Fields} {name : String} {f : Field} (h : fs.get? name = some f) :
    (name, f) ∈ fs := by
  obtain ⟨front, back, rfl, -⟩ := List.lookup_eq_some_iff.mp h
  exact List.mem_append_right front List.mem_cons_self

theorem get?_map (fs : Fields) (g : Field → Field) (name : String) :
    Fields.get? (fs.map fun p => (p.1, g p.2)) name = (fs.get? name).map g := by
  induction fs with
  | nil => rfl
  | cons p rest ih =>
    obtain ⟨n, f⟩ := p
    simp only [get?] at ih
    by_cases hn : (name == n) = true
    · simp [get?, List.lookup_cons, hn]
    · simp [get?, List.lookup_cons, Bool.eq_false_iff.mpr hn, ih]

end Fields

namespace Snapshot

/-- The elements of a container; one that is not there has none. -/
def elementsOf (s : Snapshot) (c : ContainerKey) : List Element := (s.elements? c).getD []

variable {s s' : Snapshot}

theorem elementsOf_of_entity? {c : ContainerKey} {e : Entity} (h : s.entity? c.owner = some e) :
    s.elementsOf c = (e.elements? c.property).getD [] := by
  simp only [elementsOf, elements?, h, Option.bind_some]

theorem elementsOf_of_none {c : ContainerKey} (h : s.entity? c.owner = none) :
    s.elementsOf c = [] := by
  simp only [elementsOf, elements?, h, Option.bind_none, Option.getD_none]

theorem elementsOf_congr {c : ContainerKey} (h : s'.entity? c.owner = s.entity? c.owner) :
    s'.elementsOf c = s.elementsOf c := by
  simp only [elementsOf, elements?, h]

theorem Keyed.entity?_eq_none (h : s.Keyed) {key : ObjectKey} (hk : s.nextKey < key.val) :
    s.entity? key = none := by
  cases he : s.entity? key with
  | none => rfl
  | some e =>
    have hle := h.le_of_contains (contains_iff.mpr ⟨e, he⟩)
    exact absurd hle (Nat.not_le_of_lt hk)

theorem exists_entity?_of_mem {c : ContainerKey} {x : Element} (h : x ∈ s.elementsOf c) :
    ∃ e, s.entity? c.owner = some e := by
  cases he : s.entity? c.owner with
  | some e => exact ⟨e, rfl⟩
  | none =>
    rw [elementsOf_of_none he] at h
    cases h

theorem entity?_map {f : Entity → Entity} (hf : ∀ e, (f e).key = e.key)
    (hs : s'.entities = s.entities.map f) (key : ObjectKey) :
    s'.entity? key = (s.entity? key).map f := by
  have hkey : ((fun e : Entity => e.key == key) ∘ f) = fun e => e.key == key := by
    funext e
    simp only [Function.comp, hf]
  rw [entity?, hs, List.find?_map, hkey, entity?]

theorem find?_others (es : List Entity) (key k : ObjectKey) :
    (es.filter (·.key != key)).find? (·.key == k) =
      if k = key then none else es.find? (·.key == k) := by
  rw [List.find?_filter]
  by_cases hk : k = key
  · subst hk
    simp [List.find?_eq_none]
  · simp only [hk, if_false]
    congr 1
    funext e
    by_cases he : e.key = k
    · simp [he, hk]
    · simp [he]

end Snapshot

theorem Container.elementsIn_eq_ok {c : ContainerKey} {s : Snapshot} {es : List Element} :
    elementsIn c s = .ok es ↔ s.contains c.owner = true ∧ es = s.elementsOf c := by
  rw [elementsIn]
  cases he : s.entity? c.owner with
  | none => simp [Snapshot.contains, he]
  | some e =>
    rw [Snapshot.elementsOf_of_entity? he]
    simp [Snapshot.contains, he, eq_comm]

namespace Batch

variable {b : Batch} {key : ObjectKey} {f : Entity → Entity}

/-- The object that is written is stamped, the others stay. -/
theorem entity?_written (h : b.view.Keyed) (hf : WritesFields f) (k : ObjectKey) :
    (b.written key f).view.entity? k =
      if k = key then (b.view.entity? k).map fun e => f { e with revision := b.pending }
      else b.view.entity? k := by
  cases hc : b.working.contains key with
  | false =>
    rw [written_of_not_contains hc]
    by_cases hk : k = key
    · have hnone : b.view.entity? key = none := by
        simpa [Snapshot.contains, view] using hc
      simp [hk, hnone]
    · simp only [hk, if_false]
  | true =>
    have hentities : (b.written key f).view.entities = b.view.entities.map fun e =>
        if e.key = key then f { e with revision := b.pending } else e := by
      rw [written_of_contains hc]
      exact editEntities_eq_map h.ascending
    have hmap := Snapshot.entity?_map (fun e => by split <;> simp [(hf _).1]) hentities k
    rw [hmap]
    cases he : b.view.entity? k with
    | none => simp
    | some e =>
      have hk := Snapshot.key_of_entity? he
      by_cases heq : k = key
      · simp [hk, heq]
      · simp [hk, heq]

/-- A removed object is gone, and the others are without links to it. -/
theorem entity?_removeEntity (h : b.working.contains key = true) (k : ObjectKey) :
    (b.removeEntity key).2.view.entity? k =
      if k = key then none else (b.view.entity? k).map (unlinkEntity key b.pending) := by
  let rest : Snapshot := { b.working with entities := b.working.entities.filter (·.key != key) }
  have hentities : (b.removeEntity key).2.view.entities =
      rest.entities.map (unlinkEntity key b.pending) := by
    simp only [removeEntity, h, if_true, view, rest]
  have hkeys (e : Entity) : (unlinkEntity key b.pending e).key = e.key := rfl
  rw [Snapshot.entity?_map hkeys hentities k]
  have hrest : rest.entity? k = if k = key then none else b.view.entity? k :=
    Snapshot.find?_others _ key k
  rw [hrest]
  split <;> rfl

/-- A new object stands under the next key, the others stay. -/
theorem entity?_createObject {c : ClassSchema} {given : List (Property × Value)}
    (h : b.view.Keyed) (hl : b.view.checkLinks given = .ok ()) (k : ObjectKey) :
    (b.createObject c given).2.view.entity? k =
      if k.val = b.view.nextKey + 1 then
        some ⟨⟨b.view.nextKey + 1⟩, c.name,
          c.properties.map fun p => (p.name, initialField given p), b.pending⟩
      else b.view.entity? k := by
  rw [Snapshot.entity?, entities_createObject h hl, List.find?_append, ← Snapshot.entity?]
  obtain ⟨n⟩ := k
  by_cases hn : n = b.view.nextKey + 1
  · rw [h.entity?_eq_none (Nat.lt_of_lt_of_eq (Nat.lt_succ_self _) hn.symm)]
    simp [hn, view]
  · have hne : ¬b.working.nextKey + 1 = n := fun heq => hn heq.symm
    simp [hn, hne]

/-! ## Elements after a step -/

/-- A value written to a property leaves no elements in it, and those of the other
containers stay. -/
theorem elementsOf_setValue (h : b.view.Keyed) (key : ObjectKey) (property : String) (v : Value)
    (c : ContainerKey) :
    (b.written key fun e => e.put property (.value v)).view.elementsOf c = b.view.elementsOf c ∨
      (b.written key fun e => e.put property (.value v)).view.elementsOf c = [] := by
  have hf : WritesFields fun e => e.put property (.value v) := fun _ => ⟨rfl, rfl, rfl⟩
  have hentity : (b.written key fun e => e.put property (.value v)).view.entity? c.owner = _ :=
    entity?_written h hf c.owner
  by_cases ho : c.owner = key
  · simp only [ho, if_true] at hentity
    cases he : b.view.entity? key with
    | none =>
      rw [he] at hentity
      exact .inr (Snapshot.elementsOf_of_none (by rw [ho, hentity]; rfl))
    | some e =>
      rw [he, Option.map_some] at hentity
      rw [Snapshot.elementsOf_of_entity? (by rw [ho, hentity]),
        Snapshot.elementsOf_of_entity? (by rw [ho, he])]
      by_cases hp : c.property = property
      · refine .inr ?_
        simp [Entity.elements?, Entity.field?, Entity.put, hp, Fields.get?_put_self,
          Field.elements?]
      · refine .inl ?_
        simp [Entity.elements?, Entity.field?, Entity.put, Fields.get?_put_of_ne _ _ hp]
  · simp only [ho, if_false] at hentity
    exact .inl (Snapshot.elementsOf_congr hentity)

/-- The elements that link to a removed object are gone, as are those of its own
containers. -/
theorem elementsOf_removeEntity (h : b.working.contains key = true) (c : ContainerKey) :
    (b.removeEntity key).2.view.elementsOf c =
      if c.owner = key then []
      else (b.view.elementsOf c).filter fun e => !linksTo key e := by
  have hentity := entity?_removeEntity h c.owner
  by_cases ho : c.owner = key
  · simp only [ho, if_true] at hentity ⊢
    exact Snapshot.elementsOf_of_none (by rw [ho, hentity])
  · simp only [ho, if_false] at hentity ⊢
    cases he : b.view.entity? c.owner with
    | none =>
      rw [he] at hentity
      rw [Snapshot.elementsOf_of_none hentity, Snapshot.elementsOf_of_none he, List.filter_nil]
    | some e =>
      rw [he] at hentity
      rw [Snapshot.elementsOf_of_entity? hentity, Snapshot.elementsOf_of_entity? he]
      have hfield : (unlinkEntity key b.pending e).field? c.property =
          (e.field? c.property).map (unlinkField key) := Fields.get?_map _ _ _
      rw [Entity.elements?, hfield, Entity.elements?]
      cases e.field? c.property with
      | none => rfl
      | some field =>
        cases field with
        | value v =>
          simp only [Option.map_some, unlinkField, Option.bind_some]
          by_cases hv : v.asObject = some key <;> simp [hv, Field.elements?]
        | list es => rfl
        | set es => rfl

/-- A new object has no elements yet. -/
theorem elementsOf_createObject {c : ClassSchema} {given : List (Property × Value)}
    (h : b.view.Keyed) (hl : b.view.checkLinks given = .ok ()) (k : ContainerKey) :
    (b.createObject c given).2.view.elementsOf k = b.view.elementsOf k := by
  have hentity := entity?_createObject (c := c) h hl k.owner
  by_cases hk : k.owner.val = b.view.nextKey + 1
  · simp only [hk, if_true] at hentity
    have hnone := h.entity?_eq_none (Nat.lt_of_lt_of_eq (Nat.lt_succ_self _) hk.symm)
    rw [Snapshot.elementsOf_of_entity? hentity, Snapshot.elementsOf_of_none hnone]
    simp only [Entity.elements?, Entity.field?, Fields.get?]
    cases hf : (c.properties.map fun p => (p.name, initialField given p)).lookup k.property with
    | none => rfl
    | some field =>
      obtain ⟨p, -, hp⟩ := List.mem_map.mp (Fields.mem_of_get? hf)
      obtain rfl : initialField given p = field := congrArg Prod.snd hp
      simp only [Option.bind_some, initialField]
      cases p.kind.container with
      | none =>
        simp only
        split <;> rfl
      | some shape => cases shape <;> rfl
  · simp only [hk, if_false] at hentity
    exact Snapshot.elementsOf_congr hentity

end Batch

namespace Container

variable {b : Batch} {c : Container} {f : List Element → List Element}

/-- The owner is there, and the property does not hold a single value. -/
def Stands (c : Container) (s : Snapshot) : Prop :=
  ∃ e, s.entity? c.key.owner = some e ∧ ∀ v, e.field? c.key.property ≠ some (.value v)

theorem stands_of_mem {s : Snapshot} {x : Element} (hx : x ∈ s.elementsOf c.key) : c.Stands s := by
  obtain ⟨e, he⟩ := Snapshot.exists_entity?_of_mem hx
  refine ⟨e, he, fun v hfield => ?_⟩
  rw [Snapshot.elementsOf_of_entity? he, Entity.elements?, hfield] at hx
  cases hx

theorem entity?_edit (h : b.view.Keyed) {e : Entity} (he : b.view.entity? c.key.owner = some e) :
    (c.edit f b).2.view.entity? c.key.owner =
      some (c.rewrite f { e with revision := b.pending }) := by
  rw [edit_batch, Batch.entity?_written h (c.writesFields_rewrite f), if_pos rfl, he,
    Option.map_some]

/-- The field after its elements were edited; it still holds no single value. -/
theorem field?_rewrite {e : Entity} (hs : ∀ v, e.field? c.key.property ≠ some (.value v)) :
    ∃ field, (c.rewrite f e).field? c.key.property = some field ∧ (∀ v, field ≠ .value v) ∧
      field.elements?.getD [] = f ((e.elements? c.key.property).getD []) := by
  have hput (field : Field) : (e.put c.key.property field).field? c.key.property = some field :=
    Fields.get?_put_self _ _ _
  cases hfield : e.field? c.key.property with
  | none =>
    have hempty : (e.elements? c.key.property).getD [] = [] := by
      rw [Entity.elements?, hfield]
      rfl
    simp only [rewrite, hfield, editField, hput, hempty]
    split
    · exact ⟨_, rfl, by simp, rfl⟩
    · exact ⟨_, rfl, by simp, rfl⟩
  | some field =>
    have helements : (e.elements? c.key.property).getD [] = field.elements?.getD [] := by
      rw [Entity.elements?, hfield]
      rfl
    cases field with
    | value v => exact absurd hfield (hs v)
    | list es =>
      simp only [rewrite, hfield, editField, hput, helements]
      exact ⟨_, rfl, by simp, rfl⟩
    | set es =>
      simp only [rewrite, hfield, editField, hput, helements]
      exact ⟨_, rfl, by simp, rfl⟩

/-- The elements of a container that stands are edited. -/
theorem elementsOf_edit_self (h : b.view.Keyed) (hs : c.Stands b.view) :
    (c.edit f b).2.view.elementsOf c.key = f (b.view.elementsOf c.key) := by
  obtain ⟨e, he, hfield⟩ := hs
  obtain ⟨field, hafter, -, helements⟩ :=
    c.field?_rewrite (f := f) (e := { e with revision := b.pending }) hfield
  rw [Snapshot.elementsOf_of_entity? (c.entity?_edit h he), Snapshot.elementsOf_of_entity? he,
    Entity.elements?, hafter]
  exact helements

theorem elementsOf_edit_of_ne (h : b.view.Keyed) {k : ContainerKey} (hk : k ≠ c.key) :
    (c.edit f b).2.view.elementsOf k = b.view.elementsOf k := by
  rw [edit_batch]
  have hentity : (b.written c.key.owner (c.rewrite f)).view.entity? k.owner = _ :=
    Batch.entity?_written h (c.writesFields_rewrite f) k.owner
  by_cases ho : k.owner = c.key.owner
  · have hp : k.property ≠ c.key.property := by
      intro hp
      exact hk (by cases k; cases hc : c.key; simp_all)
    rw [if_pos ho] at hentity
    cases he : b.view.entity? k.owner with
    | none => exact Snapshot.elementsOf_congr (by rw [hentity, he]; rfl)
    | some e =>
      rw [he, Option.map_some] at hentity
      rw [Snapshot.elementsOf_of_entity? hentity, Snapshot.elementsOf_of_entity? he, rewrite]
      split
      · simp only [Entity.elements?, Entity.field?, Entity.put, Fields.get?_put_of_ne _ _ hp]
      · rfl
  · rw [if_neg ho] at hentity
    exact Snapshot.elementsOf_congr hentity

theorem elementsOf_edit (h : b.view.Keyed) (k : ContainerKey) :
    (c.edit f b).2.view.elementsOf k = b.view.elementsOf k ∨
      k = c.key ∧ (c.edit f b).2.view.elementsOf k = f (b.view.elementsOf k) := by
  by_cases hk : k = c.key
  · subst hk
    by_cases hs : c.Stands b.view
    · exact .inr ⟨rfl, elementsOf_edit_self h hs⟩
    · -- nothing can be edited
      refine .inl ?_
      cases he : b.view.entity? c.key.owner with
      | none =>
        refine Snapshot.elementsOf_congr ?_
        rw [edit_batch, Batch.entity?_written h (c.writesFields_rewrite f), if_pos rfl, he]
        rfl
      | some e =>
        obtain ⟨v, hfield⟩ : ∃ v, e.field? c.key.property = some (.value v) := by
          by_contra hno
          exact hs ⟨e, he, fun v hv => hno ⟨v, hv⟩⟩
        have hsame : c.rewrite f { e with revision := b.pending } =
            { e with revision := b.pending } := by
          have hfield' : ({ e with revision := b.pending } : Entity).field? c.key.property =
            some (.value v) := hfield
          simp only [rewrite, hfield', editField]
        rw [Snapshot.elementsOf_of_entity? (c.entity?_edit h he),
          Snapshot.elementsOf_of_entity? he, hsame]
        rfl
  · exact .inl (elementsOf_edit_of_ne h hk)

end Container

end ObjectStore
