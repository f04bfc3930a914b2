import ObjectStore.Proofs.Container.Writes

/-
  Edits of a container are edits of a list, and nothing else changes.

  An operation on a list or set checks its operands against what the batch shows, may take a
  slot, and then edits the elements where they are stored. What was checked is what is edited,
  for a slot that is taken changes no object. So an operation that is made turns the elements
  into what the same operation on a plain list makes of them, stamps the owner, and leaves every
  other field and object as it was (`Container.Turns`).

  The operations fail also after the owner was stamped, if its property holds a single value.
  An operation that succeeds has found none (`Container.stands_of_edit_ok`), so nothing has to be
  assumed of the kind that the property was declared with.

  Of the batch it is only asked that keys and slots are not handed out twice, which holds in all
  that a run comes to (`World.numbered_batch`).

  Two operations may answer that there was nothing to do: a set that is given a value, and a
  container that a value is to be removed from. They are right to say so. An equal element is
  there, or none is.

    1. `Container.Alters`: the owner before and after an edit.
    2. `Container.turns_edit` and `Container.turns_insertNew`: edits with and without a new slot.
    3. One lemma for each operation, and `Container.operations_edit_lists` for all of them. The
       lemmas are sound: what was made is the edit. `Container.Succeeds` is the other half: what
       can be made is made.
-/

namespace ObjectStore

/-- The next element of a batch: it has a new slot, and is stamped like all that is written. -/
def Batch.fresh (b : Batch) (v : Value) : Element := ⟨⟨b.view.nextSlot + 1⟩, v, b.pending⟩

theorem Batch.lt_fresh {b : Batch} (h : b.view.Slotted) {k : ContainerKey} {x : Element}
    (hx : x ∈ b.view.elementsOf k) (v : Value) : x.slot.val < (b.fresh v).slot.val :=
  Nat.lt_succ_of_le (h.bounded k x hx)

namespace Container

/-- The owner of a container before and after its elements were edited: a list stays a list, a set
stays a set, and what was never written becomes what the container is. -/
structure Alters (c : Container) (stamp : Generation) (es : List Element) (e e' : Entity) :
    Prop where
  key : e'.key = e.key
  className : e'.className = e.className
  revision : e'.revision = stamp
  others : ∀ name, name ≠ c.key.property → e'.field? name = e.field? name
  list : ∀ old, e.field? c.key.property = some (.list old) →
    e'.field? c.key.property = some (.list es)
  set : ∀ old, e.field? c.key.property = some (.set old) →
    e'.field? c.key.property = some (.set es)
  unwritten : e.field? c.key.property = none →
    e'.field? c.key.property = some (if c.kind.container = some .set then .set es else .list es)

/-- The batch after an edit of one container: the elements have become `es`, with some slots
newly handed out. The owner is stamped, and all else is as it was. -/
structure Turns (c : Container) (b : Batch) (slots : Nat) (es : List Element) (b' : Batch) :
    Prop where
  elements : b'.view.elementsOf c.key = es
  containers : ∀ k, k ≠ c.key → b'.view.elementsOf k = b.view.elementsOf k
  owner : ∃ e e', b.view.entity? c.key.owner = some e ∧
    b'.view.entity? c.key.owner = some e' ∧ c.Alters b.pending es e e'
  objects : ∀ key, key ≠ c.key.owner → b'.view.entity? key = b.view.entity? key
  base : b'.base = b.base
  generation : b'.view.generation = b.view.generation
  nextKey : b'.view.nextKey = b.view.nextKey
  nextSlot : b'.view.nextSlot = b.view.nextSlot + slots

variable {α : Type} {c : Container} {b b' : Batch} {f : List Element → List Element} {v : Value}
  {i : Nat}

/-! ## Edits -/

theorem stands_of_edit_ok (hb : b.view.Keyed) (ho : b.view.contains c.key.owner = true)
    (h : (c.edit f b).1 = .ok ()) : c.Stands b.view := by
  obtain ⟨e, he⟩ := Snapshot.contains_iff.mp ho
  refine ⟨e, he, fun v hv => ?_⟩
  have hsame : (c.rewrite f { e with revision := b.pending }).field? c.key.property =
      some (.value v) := by
    have hfield : ({ e with revision := b.pending } : Entity).field? c.key.property =
      some (.value v) := hv
    simp only [rewrite, hfield, editField]
  rw [edit_answer_eq ho, c.entity?_edit hb he, Option.bind_some, hsame] at h
  cases h

theorem alters_rewrite (e : Entity) (stamp : Generation) :
    c.Alters stamp (f ((e.elements? c.key.property).getD [])) e
      (c.rewrite f { e with revision := stamp }) := by
  have hwrites := c.writesFields_rewrite f { e with revision := stamp }
  have hfield (name : String) :
      ({ e with revision := stamp } : Entity).field? name = e.field? name := rfl
  have hput (g : Field) : (({ e with revision := stamp } : Entity).put c.key.property g).field?
      c.key.property = some g := Fields.get?_put_self _ _ _
  refine ⟨hwrites.1, hwrites.2.1, hwrites.2.2, fun name hname => ?_, fun old hold => ?_,
    fun old hold => ?_, fun hnone => ?_⟩
  · unfold rewrite
    split
    · exact Fields.get?_put_of_ne _ _ hname
    · rfl
  · simp only [rewrite, hfield, hold, editField, hput, Entity.elements?, Option.bind_some,
      Field.elements?, Option.getD_some]
  · simp only [rewrite, hfield, hold, editField, hput, Entity.elements?, Option.bind_some,
      Field.elements?, Option.getD_some]
  · simp only [rewrite, hfield, hnone, editField, hput, Entity.elements?, Option.bind_none,
      Option.getD_none]

theorem turns_edit (hb : b.view.Keyed) (ho : b.view.contains c.key.owner = true)
    (h : (c.edit f b).1 = .ok ()) :
    c.Turns b 0 (f (b.view.elementsOf c.key)) (c.edit f b).2 := by
  have hstands := stands_of_edit_ok hb ho h
  have hbatch := c.edit_batch f b
  have hwritten := Batch.written_of_contains (f := c.rewrite f) (show b.working.contains
    c.key.owner = true from ho)
  constructor
  case elements => exact elementsOf_edit_self hb hstands
  case containers => exact fun k hk => elementsOf_edit_of_ne hb hk
  case owner =>
    obtain ⟨e, he, -⟩ := hstands
    refine ⟨e, _, he, c.entity?_edit hb he, ?_⟩
    rw [Snapshot.elementsOf_of_entity? he]
    exact alters_rewrite e b.pending
  case objects =>
    intro key hkey
    rw [hbatch, Batch.entity?_written hb (c.writesFields_rewrite f), if_neg hkey]
  case base => rw [hbatch, hwritten]
  case generation => rw [hbatch, hwritten]; rfl
  case nextKey => rw [hbatch, hwritten]; rfl
  case nextSlot => rw [hbatch, hwritten]; rfl

/-- A new element that was put in. -/
theorem turns_insertNew (hb : b.view.Keyed) (ho : b.view.contains c.key.owner = true)
    (h : (c.insertNew i v b).1 = .ok ()) :
    c.Turns b 1 ((b.view.elementsOf c.key).insertIdx i (b.fresh v)) (c.insertNew i v b).2 := by
  have hslot : Batch.Steps False b b.allocateSlot.2 := .single .allocate
  have hturns := turns_edit (b := b.allocateSlot.2) (hslot.keyed hb) ho h
  exact ⟨hturns.elements, hturns.containers, hturns.owner, hturns.objects, hturns.base,
    hturns.generation, hturns.nextKey, hturns.nextSlot⟩

theorem of_map_eq {r : Except Error Unit × Batch} {g : Unit → α} {a : α}
    (h : (r.1.map g, r.2) = (.ok a, b')) : r.1 = .ok () ∧ g () = a ∧ r.2 = b' := by
  obtain ⟨hanswer, hbatch⟩ := Prod.mk.inj h
  cases hr : r.1 with
  | error e =>
    rw [hr] at hanswer
    cases hanswer
  | ok u =>
    rw [hr] at hanswer
    exact ⟨rfl, Except.ok.inj hanswer, hbatch⟩

theorem of_guarded_eq {g : Batch → Except Error α × Batch} {a : α}
    (h : c.guarded g b = (.ok a, b')) :
    b.view.contains c.key.owner = true ∧ g b = (.ok a, b') := by
  unfold guarded at h
  split at h
  · rename_i ho
    exact ⟨ho, h⟩
  · cases h

/-! ## Operations -/

/-- Where a new value goes in a set: between what is less and what is greater. -/
structure Between (es : List Element) (v : Value) (i : Nat) : Prop where
  within : i ≤ es.length
  ordered : Canonical es → v.WellFormed → (∀ y ∈ es.take i, y.value.canonicalCompare v = .lt) ∧
    ∀ y ∈ es.drop i, y.value.canonicalCompare v = .gt

theorem between_of_placeOf {es : List Element} (h : placeOf es v = .free i) : Between es v i := by
  refine ⟨search_free_le h, fun hes hv => ?_⟩
  have hright := hes.right_place hv
  rw [h] at hright
  exact hright.2

theorem eq_of_prepare {s : Snapshot} {k : PropertyKind} {stored : Value}
    (h : prepare s k v = .ok stored) : stored = k.normalize v.unwrap := by
  obtain ⟨-, -, h⟩ := ok_of_bind h
  obtain ⟨-, -, h⟩ := ok_of_bind h
  exact (Except.ok.inj h).symm

theorem of_prepareAt {operation : String} {stored : Value} {es : List Element}
    (h : c.prepareAt operation v b.view = .ok (stored, es)) :
    stored = c.kind.normalize v.unwrap ∧ es = b.view.elementsOf c.key := by
  refine ⟨?_, (elementsIn_eq_ok.mp (elementsIn_of_prepareAt h)).2⟩
  obtain ⟨-, -, h⟩ := ok_of_bind h
  obtain ⟨y, hy, h⟩ := ok_of_bind h
  obtain ⟨ys, -, h⟩ := ok_of_bind h
  cases h
  exact eq_of_prepare hy

section

variable (hb : b.view.Numbered) (ho : b.view.contains c.key.owner = true)

include hb ho

/-- A value that has no place is left out; else it is put in at its place. -/
theorem append_eq_ok {a : Bool} (h : c.append v b = (.ok a, b')) :
    match placeForNew c.kind (b.view.elementsOf c.key) (c.kind.normalize v.unwrap) with
    | none => a = false ∧ b' = b
    | some i => a = true ∧ c.Turns b 1
        ((b.view.elementsOf c.key).insertIdx i (b.fresh (c.kind.normalize v.unwrap))) b' := by
  unfold append at h
  split at h
  · cases h
  · cases h
  · rename_i stored es hprepare hes
    obtain rfl := eq_of_prepare hprepare
    obtain ⟨-, rfl⟩ := elementsIn_eq_ok.mp hes
    cases hplace : placeForNew c.kind (b.view.elementsOf c.key) (c.kind.normalize v.unwrap) with
    | none =>
      rw [hplace] at h
      obtain ⟨hanswer, hbatch⟩ := Prod.mk.inj h
      exact ⟨(Except.ok.inj hanswer).symm, hbatch.symm⟩
    | some i =>
      rw [hplace] at h
      obtain ⟨hmade, hanswer, rfl⟩ := of_map_eq (r := c.insertNew i _ b) h
      exact ⟨hanswer.symm, turns_insertNew hb.keyed ho hmade⟩

theorem turns_append_list {a : Bool} (hlist : c.kind.container ≠ some .set)
    (h : c.append v b = (.ok a, b')) :
    a = true ∧
      c.Turns b 1 (b.view.elementsOf c.key ++ [b.fresh (c.kind.normalize v.unwrap)]) b' := by
  have hanswer := append_eq_ok hb ho h
  rw [placeForNew, if_neg hlist] at hanswer
  obtain ⟨ha, hturns⟩ := hanswer
  rw [List.insertIdx_length_self] at hturns
  exact ⟨ha, hturns⟩

theorem turns_append_set {a : Bool} (hset : c.kind.container = some .set)
    (h : c.append v b = (.ok a, b')) :
    (a = true → ∃ i, Between (b.view.elementsOf c.key) (c.kind.normalize v.unwrap) i ∧
      c.Turns b 1
        ((b.view.elementsOf c.key).insertIdx i (b.fresh (c.kind.normalize v.unwrap))) b') ∧
    (a = false → b' = b ∧ ∃ x ∈ b.view.elementsOf c.key,
      x.value.canonicalCompare (c.kind.normalize v.unwrap) = .eq) := by
  have hanswer := append_eq_ok hb ho h
  rw [placeForNew, if_pos hset] at hanswer
  cases hplace : placeOf (b.view.elementsOf c.key) (c.kind.normalize v.unwrap) with
  | found i =>
    rw [hplace] at hanswer
    obtain ⟨rfl, hbatch⟩ := hanswer
    exact ⟨by simp, fun _ => ⟨hbatch, search_found hplace⟩⟩
  | free i =>
    rw [hplace] at hanswer
    obtain ⟨rfl, hturns⟩ := hanswer
    exact ⟨fun _ => ⟨i, between_of_placeOf hplace, hturns⟩, by simp⟩

theorem turns_insert (h : c.insert i v b = (.ok (), b')) :
    i ≤ (b.view.elementsOf c.key).length ∧
      c.Turns b 1
        ((b.view.elementsOf c.key).insertIdx i (b.fresh (c.kind.normalize v.unwrap))) b' := by
  unfold insert at h
  split at h
  · cases h
  · rename_i stored es hprepare
    obtain ⟨rfl, rfl⟩ := of_prepareAt hprepare
    split at h
    · cases h
    · rename_i hi
      obtain ⟨hanswer, rfl⟩ : (c.insertNew i _ b).1 = .ok () ∧ (c.insertNew i _ b).2 = b' :=
        Prod.mk.inj h
      exact ⟨Nat.le_of_not_lt hi, turns_insertNew hb.keyed ho hanswer⟩

theorem turns_remove {old : Value} (h : c.remove i b = (.ok old, b')) :
    ∃ x, (b.view.elementsOf c.key)[i]? = some x ∧ old = x.value ∧
      c.Turns b 0 ((b.view.elementsOf c.key).eraseIdx i) b' := by
  unfold remove at h
  split at h
  · cases h
  · rename_i es hes
    obtain ⟨-, rfl⟩ := elementsIn_eq_ok.mp hes
    split at h
    · cases h
    · rename_i x hx
      obtain ⟨hanswer, rfl, rfl⟩ := of_map_eq (r := c.edit (fun es => es.eraseIdx i) b) h
      exact ⟨x, hx, rfl, turns_edit hb.keyed ho hanswer⟩

theorem turns_removeValue {a : Bool} (h : c.removeValue v b = (.ok a, b')) :
    a = ((b.view.elementsOf c.key).any fun x => x.value.exactEq v) ∧
      (a = true →
        c.Turns b 0 ((b.view.elementsOf c.key).eraseP fun x => x.value.exactEq v) b') ∧
      (a = false → b' = b) := by
  unfold removeValue at h
  split at h
  · cases h
  · rename_i es hes
    obtain ⟨-, rfl⟩ := elementsIn_eq_ok.mp hes
    rw [← List.findIdx?_isSome, List.eraseP_eq_eraseIdx]
    cases hfind : (b.view.elementsOf c.key).findIdx? fun x => x.value.exactEq v with
    | none =>
      rw [hfind] at h
      obtain ⟨hanswer, hbatch⟩ := Prod.mk.inj h
      obtain rfl := Except.ok.inj hanswer
      exact ⟨rfl, by simp, fun _ => hbatch.symm⟩
    | some i =>
      rw [hfind] at h
      obtain ⟨hmade, rfl, rfl⟩ := of_map_eq (r := c.edit (fun es => es.eraseIdx i) b) h
      exact ⟨rfl, fun _ => turns_edit hb.keyed ho hmade, by simp⟩

theorem turns_replace {old : Value} (h : c.replace i v b = (.ok old, b')) :
    ∃ x, (b.view.elementsOf c.key)[i]? = some x ∧ old = x.value ∧
      c.Turns b 0
        ((b.view.elementsOf c.key).set i ⟨x.slot, c.kind.normalize v.unwrap, b.pending⟩) b' := by
  unfold replace at h
  split at h
  · cases h
  · rename_i stored es hprepare
    obtain ⟨rfl, rfl⟩ := of_prepareAt hprepare
    split at h
    · cases h
    · rename_i x hx
      obtain ⟨hanswer, rfl, rfl⟩ := of_map_eq
        (r := c.edit (fun es => es.set i ⟨x.slot, c.kind.normalize v.unwrap, b.pending⟩) b) h
      exact ⟨x, hx, rfl, turns_edit hb.keyed ho hanswer⟩

theorem turns_clear (h : c.clear b = (.ok (), b')) : c.Turns b 0 [] b' := by
  obtain ⟨hanswer, rfl⟩ := Prod.mk.inj h
  exact turns_edit hb.keyed ho hanswer

end

/-! ## All operations -/

/-- Where a container stands, operations whose operands are right are made. -/
structure Succeeds (c : Container) (b : Batch) : Prop where
  append : c.kind.isContainer = true → ∀ v, Fit b.view c.kind v →
    ∃ a b', c.guarded (c.append v) b = (.ok a, b')
  insert : c.kind.container = some .list → ∀ v, Fit b.view c.kind v →
    ∀ i ≤ (b.view.elementsOf c.key).length, ∃ b', c.guarded (c.insert i v) b = (.ok (), b')
  remove : ∀ i < (b.view.elementsOf c.key).length,
    ∃ old b', c.guarded (c.remove i) b = (.ok old, b')
  removeValue : ∀ v, ∃ a b', c.guarded (c.removeValue v) b = (.ok a, b')
  replace : c.kind.container = some .list → ∀ v, Fit b.view c.kind v →
    ∀ i < (b.view.elementsOf c.key).length, ∃ old b', c.guarded (c.replace i v) b = (.ok old, b')
  clear : ∃ b', c.guarded c.clear b = (.ok (), b')

theorem Ready.succeeds (h : c.Ready b) : c.Succeeds b := by
  have hlength : (c.held b).length = (b.view.elementsOf c.key).length := List.length_map _
  have hget {i : Nat} (hi : i < (b.view.elementsOf c.key).length) :
      ∃ old, (c.held b)[i]? = some old :=
    ⟨_, List.getElem?_eq_getElem (hlength.symm ▸ hi)⟩
  constructor
  case append =>
    intro hk v hv
    rw [h.guarded]
    obtain ⟨shape, hshape⟩ := Option.isSome_iff_exists.mp hk
    cases shape with
    | list => exact ⟨_, _, Prod.ext (h.append_list hshape hv).1 rfl⟩
    | set => exact ⟨_, _, Prod.ext (h.append_set hshape hv).1 rfl⟩
  case insert =>
    intro hlist v hv i hi
    rw [h.guarded]
    exact ⟨_, Prod.ext (h.insert hlist hv (hlength.symm ▸ hi)).1 rfl⟩
  case remove =>
    intro i hi
    rw [h.guarded]
    obtain ⟨old, hold⟩ := hget hi
    exact ⟨_, _, Prod.ext (h.remove hold).1 rfl⟩
  case removeValue =>
    intro v
    rw [h.guarded]
    exact ⟨_, _, Prod.ext (h.removeValue v).1 rfl⟩
  case replace =>
    intro hlist v hv i hi
    rw [h.guarded]
    obtain ⟨old, hold⟩ := hget hi
    exact ⟨_, _, Prod.ext (h.replace hlist hv hold).1 rfl⟩
  case clear =>
    rw [h.guarded]
    exact ⟨_, Prod.ext h.clear.1 rfl⟩

/-- What operations on a list or set are on the list of its elements. -/
structure EditsLists (c : Container) (b : Batch) : Prop where
  /-- The slot of a new element is above all others. -/
  fresh : ∀ v k, ∀ x ∈ b.view.elementsOf k, x.slot.val < (b.fresh v).slot.val
  /-- A value that is appended to a list is put in behind the others. -/
  append_list : c.kind.container ≠ some .set → ∀ v a b',
    c.guarded (c.append v) b = (.ok a, b') → a = true ∧
      c.Turns b 1 (b.view.elementsOf c.key ++ [b.fresh (c.kind.normalize v.unwrap)]) b'
  /-- A value that is appended to a set is put in between the others, or one that is equal to it
  in the canonical order is there, and nothing is done. -/
  append_set : c.kind.container = some .set → ∀ v a b',
    c.guarded (c.append v) b = (.ok a, b') →
      (a = true → ∃ i, Between (b.view.elementsOf c.key) (c.kind.normalize v.unwrap) i ∧
        c.Turns b 1
          ((b.view.elementsOf c.key).insertIdx i (b.fresh (c.kind.normalize v.unwrap))) b') ∧
      (a = false → b' = b ∧ ∃ x ∈ b.view.elementsOf c.key,
        x.value.canonicalCompare (c.kind.normalize v.unwrap) = .eq)
  insert : ∀ i v b', c.guarded (c.insert i v) b = (.ok (), b') →
    i ≤ (b.view.elementsOf c.key).length ∧
      c.Turns b 1
        ((b.view.elementsOf c.key).insertIdx i (b.fresh (c.kind.normalize v.unwrap))) b'
  remove : ∀ i old b', c.guarded (c.remove i) b = (.ok old, b') →
    ∃ x, (b.view.elementsOf c.key)[i]? = some x ∧ old = x.value ∧
      c.Turns b 0 ((b.view.elementsOf c.key).eraseIdx i) b'
  /-- The first element that is exactly equal to a value is taken out. The answer is whether there
  is one, and if there is none, nothing is done. -/
  removeValue : ∀ v a b', c.guarded (c.removeValue v) b = (.ok a, b') →
    a = ((b.view.elementsOf c.key).any fun x => x.value.exactEq v) ∧
      (a = true →
        c.Turns b 0 ((b.view.elementsOf c.key).eraseP fun x => x.value.exactEq v) b') ∧
      (a = false → b' = b)
  /-- A value that is replaced leaves its slot to the new one. -/
  replace : ∀ i v old b', c.guarded (c.replace i v) b = (.ok old, b') →
    ∃ x, (b.view.elementsOf c.key)[i]? = some x ∧ old = x.value ∧
      c.Turns b 0
        ((b.view.elementsOf c.key).set i ⟨x.slot, c.kind.normalize v.unwrap, b.pending⟩) b'
  clear : ∀ b', c.guarded c.clear b = (.ok (), b') → c.Turns b 0 [] b'
  /-- If the owner is there and its property holds no single value, then no operation is refused
  but for its operands. -/
  succeeds : c.Stands b.view → c.Succeeds b

/-- An operation on a list or set that was made is the same operation on the list of elements. All
else is as it was, but for the stamp of the owner; and where the answer is that nothing was to be
done, it was right and nothing was done. -/
theorem operations_edit_lists (hb : b.view.Numbered) (c : Container) : c.EditsLists b := by
  constructor
  case fresh => exact fun v k x hx => Batch.lt_fresh hb.slotted hx v
  case append_list =>
    intro hlist v a b' h
    obtain ⟨ho, h⟩ := of_guarded_eq h
    exact turns_append_list hb ho hlist h
  case append_set =>
    intro hset v a b' h
    obtain ⟨ho, h⟩ := of_guarded_eq h
    exact turns_append_set hb ho hset h
  case insert =>
    intro i v b' h
    obtain ⟨ho, h⟩ := of_guarded_eq h
    exact turns_insert hb ho h
  case remove =>
    intro i old b' h
    obtain ⟨ho, h⟩ := of_guarded_eq h
    exact turns_remove hb ho h
  case removeValue =>
    intro v a b' h
    obtain ⟨ho, h⟩ := of_guarded_eq h
    exact turns_removeValue hb ho h
  case replace =>
    intro i v old b' h
    obtain ⟨ho, h⟩ := of_guarded_eq h
    exact turns_replace hb ho h
  case clear =>
    intro b' h
    obtain ⟨ho, h⟩ := of_guarded_eq h
    exact turns_clear hb ho h
  case succeeds => exact fun hstands => Ready.succeeds ⟨hb.keyed, hstands⟩

/-- Shelves with a list of numbers and a set of labels. -/
def shelves : Schema :=
  ⟨[⟨"Shelf", [⟨"labels", .set .string⟩, ⟨"numbers", .list .integer⟩]⟩]⟩

def shelfNumbers : Container := ⟨⟨⟨1⟩, "numbers"⟩, .list .integer⟩

def shelfLabels : Container := ⟨⟨⟨1⟩, "labels"⟩, .set .string⟩

/-- A shelf with three numbers, the last equal to the first, and a label. -/
def stocking : Batch :=
  [.create "Shelf" [], .elements shelfNumbers (.append (.int64 4)),
    .elements shelfNumbers (.append (.int64 5)), .elements shelfNumbers (.append (.int64 4)),
    .elements shelfLabels (.append (.string "new"))].foldl (Edit.apply shelves) (.start .empty)

def stocked : Batch := .start stocking.published

/-- A number is replaced, and keeps its slot. Of two equal numbers the first is removed, by a
value of another width; a number that is not there is not removed. A label is put in before the
other one, under the next slot. The label that is there already is not put in again. -/
theorem shelf_is_edited : stocked.view.Numbered ∧
    (∃ b', shelfNumbers.guarded (shelfNumbers.replace 0 (.int64 7)) stocked = (.ok (.int64 4), b') ∧
      shelfNumbers.Turns stocked 0
        [⟨⟨1⟩, .int64 7, 2⟩, ⟨⟨2⟩, .int64 5, 1⟩, ⟨⟨3⟩, .int64 4, 1⟩] b') ∧
    (∃ b', shelfNumbers.guarded (shelfNumbers.removeValue (.int8 4)) stocked = (.ok true, b') ∧
      shelfNumbers.Turns stocked 0 [⟨⟨2⟩, .int64 5, 1⟩, ⟨⟨3⟩, .int64 4, 1⟩] b') ∧
    shelfNumbers.guarded (shelfNumbers.removeValue (.int8 6)) stocked = (.ok false, stocked) ∧
    (∃ b', shelfLabels.guarded (shelfLabels.append (.string "cheap")) stocked = (.ok true, b') ∧
      shelfLabels.Turns stocked 1 [⟨⟨5⟩, .string "cheap", 2⟩, ⟨⟨4⟩, .string "new", 1⟩] b') ∧
    shelfLabels.guarded (shelfLabels.append (.string "new")) stocked = (.ok false, stocked) := by
  have hstocking : stocking.view.Numbered :=
    (Batch.advances_foldl shelves _ (b := .start .empty) Snapshot.numbered_empty).numbered
  have hn : stocked.view.Numbered := Batch.numbered_published hstocking
  have hnumbers : stocked.view.elementsOf shelfNumbers.key =
      [⟨⟨1⟩, .int64 4, 1⟩, ⟨⟨2⟩, .int64 5, 1⟩, ⟨⟨3⟩, .int64 4, 1⟩] := rfl
  have hlabels : stocked.view.elementsOf shelfLabels.key = [⟨⟨4⟩, .string "new", 1⟩] := rfl
  refine ⟨hn, ?_, ?_, ?_, ?_, ?_⟩
  · have hreplace : shelfNumbers.guarded (shelfNumbers.replace 0 (.int64 7)) stocked =
        (.ok (.int64 4), _) := rfl
    obtain ⟨x, hx, -, hturns⟩ :=
      (operations_edit_lists hn shelfNumbers).replace 0 _ _ _ hreplace
    rw [hnumbers] at hx hturns
    obtain rfl := Option.some.inj hx
    exact ⟨_, hreplace, hturns⟩
  · have hremove : (shelfNumbers.guarded (shelfNumbers.removeValue (.int8 4)) stocked).1 =
        .ok true := by decide +kernel
    obtain ⟨-, hturns, -⟩ :=
      (operations_edit_lists hn shelfNumbers).removeValue _ _ _ (Prod.ext hremove rfl)
    have hfirst : ((stocked.view.elementsOf shelfNumbers.key).eraseP fun x =>
        x.value.exactEq (.int8 4)) = [⟨⟨2⟩, .int64 5, 1⟩, ⟨⟨3⟩, .int64 4, 1⟩] := by
      decide +kernel
    exact ⟨_, Prod.ext hremove rfl, hfirst ▸ hturns rfl⟩
  · have hremove : (shelfNumbers.guarded (shelfNumbers.removeValue (.int8 6)) stocked).1 =
        .ok false := by decide +kernel
    obtain ⟨-, -, hkept⟩ :=
      (operations_edit_lists hn shelfNumbers).removeValue _ _ _ (Prod.ext hremove rfl)
    exact Prod.ext hremove (hkept rfl)
  · have happend : (shelfLabels.guarded (shelfLabels.append (.string "cheap")) stocked).1 =
        .ok true := by decide +kernel
    obtain ⟨hmade, -⟩ :=
      (operations_edit_lists hn shelfLabels).append_set rfl _ _ _ (Prod.ext happend rfl)
    obtain ⟨i, hplace, hturns⟩ := hmade rfl
    rw [hlabels] at hplace hturns
    have hordered : Canonical [⟨⟨4⟩, .string "new", 1⟩] :=
      ⟨by simp [Value.WellFormed], List.pairwise_singleton _ _⟩
    obtain ⟨hless, -⟩ := hplace.ordered hordered trivial
    -- the label that is there is the greater one
    have hgreater : (Value.string "new").canonicalCompare
        (shelfLabels.kind.normalize (Value.string "cheap").unwrap) = .gt := by decide +kernel
    obtain rfl | rfl : i = 0 ∨ i = 1 := Nat.le_one_iff_eq_zero_or_eq_one.mp hplace.within
    · exact ⟨_, Prod.ext happend rfl, hturns⟩
    · have hlt := hless _ (List.mem_singleton_self _)
      rw [hgreater] at hlt
      cases hlt
  · have happend : (shelfLabels.guarded (shelfLabels.append (.string "new")) stocked).1 =
        .ok false := by decide +kernel
    obtain ⟨-, hheld⟩ :=
      (operations_edit_lists hn shelfLabels).append_set rfl _ _ _ (Prod.ext happend rfl)
    obtain ⟨hkept, -⟩ := hheld rfl
    exact Prod.ext happend hkept

end Container

end ObjectStore
