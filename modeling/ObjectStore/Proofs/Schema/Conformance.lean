import Mathlib.Data.List.Forall2
import Mathlib.Data.List.InsertIdx
import ObjectStore.Proofs.Run.Edit
import ObjectStore.Proofs.Schema.Accepted
import ObjectStore.Proofs.Sorting

/-
  The content of a store conforms to its schema.

  Every object is of a declared class and has exactly the declared properties, one
  field each. Containers are stored as declared, values are accepted by the kind they
  are stored under, and where links have a target they lead to an object of it
  (`Snapshot.Conforming`). No write needs this to hold in order to be made, but every
  write keeps it, because each path checks what it stores against the kind and the
  links, and because a removal takes out every link to what it removes.

    1. `Batch.conforming_written`: an object is written into one that conforms.
    2. `Batch.conforming_removeEntity`: an object is removed with its links.
    3. `Batch.conforming_createObject`: an object is added.
    4. `Container.conforming_edit`: elements are replaced by elements that fit, as those
       are that `Container.fits_of_prepare` lets through.
-/

namespace ObjectStore

/-! ## What conforming is -/

namespace Snapshot

/-- The class of the object of a key. -/
def classOf (s : Snapshot) (key : ObjectKey) : Option String := (s.entity? key).map (·.className)

/-- Under a kind with a target class, a link leads to an object of this class. -/
def Leads (s : Snapshot) (k : PropertyKind) (v : Value) : Prop :=
  ∀ key target, v.asObject = some key → k.target = some target → s.classOf key = some target

/-- Elements that a container of a kind may have. -/
def FitElements (s : Snapshot) (k : PropertyKind) (es : List Element) : Prop :=
  ∀ e ∈ es, k.element.accepts e.value = true ∧ s.Leads k e.value

end Snapshot

/-- A value that a property of one value may have. A link and a property that accepts
every family may be null even if their kind does not accept it. -/
def PropertyKind.Holds (k : PropertyKind) (v : Value) : Prop :=
  k.accepts v = true ∨ v = .null ∧ (k.family = .object ∨ k.family = .any)

/-- What may be stored under a property of a kind. -/
def Field.Fits (s : Snapshot) (k : PropertyKind) : Field → Prop
  | .value v => k.container = none ∧ k.Holds v ∧ s.Leads k v
  | .list es => k.container = some .list ∧ s.FitElements k es
  | .set es => k.container = some .set ∧ s.FitElements k es

def Fields.Match (s : Snapshot) (fs : Fields) (ps : List Property) : Prop :=
  List.Forall₂ (fun f p => f.1 = p.name ∧ f.2.Fits s p.kind) fs ps

/-- An object of a declared class with the fields that this class declares. -/
def Entity.Conforms (schema : Schema) (s : Snapshot) (e : Entity) : Prop :=
  ∃ c, schema.find e.className = .ok c ∧ e.fields.Match s c.properties

/-- A content in which every object conforms to the schema. -/
structure Snapshot.Conforming (schema : Schema) (s : Snapshot) : Prop where
  keyed : s.Keyed
  entities : ∀ e ∈ s.entities, e.Conforms schema s

namespace PropertyKind

theorem holds_default (k : PropertyKind) :
    k.Holds (if k.optional then .null else k.family.defaultValue) := by
  cases ho : k.optional with
  | true => exact .inl ho
  | false =>
    simp only [Bool.false_eq_true, if_false]
    cases hf : k.family with
    | object => exact .inr ⟨rfl, .inl hf⟩
    | any => exact .inr ⟨rfl, .inr hf⟩
    | _ =>
      refine .inl ?_
      simp only [Family.defaultValue, accepts, Value.family?, Value.unwrap, hf, beq_self_eq_true,
        Bool.or_true]

theorem leads_default (k : PropertyKind) (s : Snapshot) :
    s.Leads k (if k.optional then .null else k.family.defaultValue) := by
  have hnone : (if k.optional then Value.null else k.family.defaultValue).asObject = none := by
    cases k.optional with
    | true => rfl
    | false => cases k.family <;> rfl
  intro key target hkey
  rw [hnone] at hkey
  cases hkey

end PropertyKind

/-! ## Classes of objects -/

namespace Snapshot

variable {s s' : Snapshot}

theorem Keyed.classOf_eq_some (h : s.Keyed) {key : ObjectKey} {name : String} :
    s.classOf key = some name ↔ ∃ e ∈ s.entities, e.key = key ∧ e.className = name := by
  rw [classOf, Option.map_eq_some_iff]
  constructor
  · rintro ⟨e, he, hn⟩
    obtain ⟨hm, hk⟩ := h.entity?_eq_some.mp he
    exact ⟨e, hm, hk, hn⟩
  · rintro ⟨e, hm, hk, hn⟩
    exact ⟨e, h.entity?_eq_some.mpr ⟨hm, hk⟩, hn⟩

theorem classOf_of_map (h : s.Keyed) (h' : s'.Keyed) {f : Entity → Entity}
    (hf : ∀ e, (f e).key = e.key ∧ (f e).className = e.className)
    (hs : s'.entities = s.entities.map f) {key : ObjectKey} {name : String}
    (hc : s.classOf key = some name) : s'.classOf key = some name := by
  obtain ⟨e, he, rfl, rfl⟩ := h.classOf_eq_some.mp hc
  refine h'.classOf_eq_some.mpr ⟨f e, ?_, (hf e).1, (hf e).2⟩
  rw [hs]
  exact List.mem_map_of_mem he

theorem leads_of_checkLink {k : PropertyKind} {v : Value} (h : s.checkLink k v = .ok ()) :
    s.Leads k v := by
  intro key target hkey htarget
  simp only [checkLink, hkey, htarget] at h
  split at h
  · cases h
  · rename_i e he
    split at h
    · rename_i hn
      rw [classOf, he, ← hn]
      rfl
    · cases h

theorem checkLink_of_leads {k : PropertyKind} {v : Value} (h : s.Leads k v) :
    s.checkLink k v = .ok () := by
  unfold checkLink
  split
  · rename_i key target hkey htarget
    obtain ⟨e, he, hname⟩ := Option.map_eq_some_iff.mp (h key target hkey htarget)
    simp only [he, hname, if_true]
  · rfl

theorem leads_null (s : Snapshot) (k : PropertyKind) : s.Leads k .null :=
  fun _ _ h => by cases h

theorem leads_normalize {k : PropertyKind} {v : Value} (h : s.Leads k v) :
    s.Leads k (k.normalize v) := by
  intro key target hkey
  rw [PropertyKind.asObject_normalize] at hkey
  exact h key target hkey

end Snapshot

namespace Field

variable {s s' : Snapshot} {k : PropertyKind}

theorem Fits.mono (hc : ∀ key name, s.classOf key = some name → s'.classOf key = some name)
    {f : Field} (h : f.Fits s k) : f.Fits s' k := by
  have hl {v : Value} (hv : s.Leads k v) : s'.Leads k v :=
    fun key target hkey ht => hc key target (hv key target hkey ht)
  cases f with
  | value v => exact ⟨h.1, h.2.1, hl h.2.2⟩
  | list es => exact ⟨h.1, fun e he => ⟨(h.2 e he).1, hl (h.2 e he).2⟩⟩
  | set es => exact ⟨h.1, fun e he => ⟨(h.2 e he).1, hl (h.2 e he).2⟩⟩

theorem Fits.unlink {key : ObjectKey}
    (hc : ∀ key' name, key' ≠ key → s.classOf key' = some name → s'.classOf key' = some name)
    {f : Field} (h : f.Fits s k) : (Batch.unlinkField key f).Fits s' k := by
  have hl {v : Value} (hv : s.Leads k v) (hne : v.asObject ≠ some key) : s'.Leads k v := by
    intro key' target hkey ht
    exact hc key' target (fun heq => hne (by rw [hkey, heq])) (hv key' target hkey ht)
  have hes {es : List Element} (h : s.FitElements k es) :
      s'.FitElements k (es.filter fun e => !Batch.linksTo key e) := by
    intro e he
    obtain ⟨hm, hlink⟩ := List.mem_filter.mp he
    refine ⟨(h e hm).1, hl (h e hm).2 ?_⟩
    simpa [Batch.linksTo] using hlink
  cases f with
  | value v =>
    obtain ⟨hcont, hv, hlead⟩ := h
    simp only [Batch.unlinkField]
    split
    · rename_i ho
      refine ⟨hcont, .inr ⟨rfl, ?_⟩, s'.leads_null k⟩
      rcases hv with hv | ⟨rfl, -⟩
      · exact PropertyKind.family_of_accepts_object hv ho
      · cases ho
    · rename_i ho
      exact ⟨hcont, hv, hl hlead ho⟩
  | list es => exact ⟨h.1, hes h.2⟩
  | set es => exact ⟨h.1, hes h.2⟩

end Field

/-! ## Fields of a class -/

namespace Fields

variable {s s' : Snapshot} {fs : Fields} {ps : List Property}

theorem Match.mono (hc : ∀ key name, s.classOf key = some name → s'.classOf key = some name)
    (h : fs.Match s ps) : fs.Match s' ps :=
  List.Forall₂.imp (fun _ _ hf => ⟨hf.1, hf.2.mono hc⟩) h

theorem Match.unlink {key : ObjectKey}
    (hc : ∀ key' name, key' ≠ key → s.classOf key' = some name → s'.classOf key' = some name)
    (h : fs.Match s ps) :
    Fields.Match s' (fs.map fun p => (p.1, Batch.unlinkField key p.2)) ps := by
  rw [Match, List.forall₂_map_left_iff]
  exact List.Forall₂.imp (fun _ _ hf => ⟨hf.1, hf.2.unlink hc⟩) h

theorem Match.get? {name : String} {p : Property} (h : fs.Match s ps)
    (hp : ps.find? (·.name == name) = some p) :
    ∃ f, fs.get? name = some f ∧ f.Fits s p.kind := by
  induction h with
  | nil => cases hp
  | @cons g q gs qs hg _ ih =>
    obtain ⟨n, f⟩ := g
    obtain ⟨rfl, hfits⟩ := hg
    by_cases hn : q.name = name
    · rw [List.find?_cons_of_pos (by simp [hn])] at hp
      cases hp
      exact ⟨f, by simp [Fields.get?, hn], hfits⟩
    · rw [List.find?_cons_of_neg (by simp [hn])] at hp
      obtain ⟨f', hf', hfits'⟩ := ih hp
      refine ⟨f', ?_, hfits'⟩
      rw [← hf']
      have hne : (name == q.name) = false := by simpa using Ne.symm hn
      simp only [Fields.get?, List.lookup_cons, hne]

theorem Match.put {name : String} {p : Property} {f : Field} (h : fs.Match s ps)
    (hp : ps.find? (·.name == name) = some p) (hf : f.Fits s p.kind) :
    (fs.put name f).Match s ps := by
  induction h with
  | nil => cases hp
  | @cons g q gs qs hg hrest ih =>
    obtain ⟨n, f'⟩ := g
    obtain ⟨rfl, hfits⟩ := hg
    by_cases hn : q.name = name
    · rw [List.find?_cons_of_pos (by simp [hn])] at hp
      cases hp
      simp only [Fields.put, hn, if_true]
      exact .cons ⟨hn.symm, hf⟩ hrest
    · rw [List.find?_cons_of_neg (by simp [hn])] at hp
      simp only [Fields.put, hn, if_false]
      exact .cons ⟨rfl, hfits⟩ (ih hp)

end Fields

/-! ## Objects added, written and removed -/

namespace Entity

variable {schema : Schema} {s s' : Snapshot} {e : Entity}

theorem Conforms.mono (hc : ∀ key name, s.classOf key = some name → s'.classOf key = some name)
    (h : e.Conforms schema s) : e.Conforms schema s' := by
  obtain ⟨c, hfind, hmatch⟩ := h
  exact ⟨c, hfind, hmatch.mono hc⟩

theorem Conforms.field? {name : String} {p : Property} (h : e.Conforms schema s)
    (hp : schema.property e.className name = .ok p) :
    ∃ f, e.field? name = some f ∧ f.Fits s p.kind := by
  obtain ⟨c, hfind, hmatch⟩ := h
  simp only [Schema.property, hfind] at hp
  exact hmatch.get? (ClassSchema.property_eq_ok hp)

theorem Conforms.put {name : String} {p : Property} {f : Field} (h : e.Conforms schema s)
    (hp : schema.property e.className name = .ok p) (hf : f.Fits s p.kind) :
    (e.put name f).Conforms schema s := by
  obtain ⟨c, hfind, hmatch⟩ := h
  simp only [Schema.property, hfind] at hp
  exact ⟨c, hfind, hmatch.put (ClassSchema.property_eq_ok hp) hf⟩

end Entity

namespace Batch

variable {schema : Schema} {b : Batch}

theorem conforming_allocateSlot (h : b.view.Conforming schema) :
    b.allocateSlot.2.view.Conforming schema :=
  have hstep : Step False b b.allocateSlot.2 := .allocate
  ⟨hstep.keyed h.keyed, h.entities⟩

/-- An object is written into one that conforms. -/
theorem conforming_written {key : ObjectKey} {f : Entity → Entity} (hf : WritesFields f)
    (h : b.view.Conforming schema)
    (he : ∀ e, b.view.entity? key = some e → e.Conforms schema b.view →
      (f { e with revision := b.pending }).Conforms schema b.view) :
    (b.written key f).view.Conforming schema := by
  have hstep : Step False b (b.written key f) := .write key f hf
  have hkeyed := hstep.keyed h.keyed
  cases hc : b.working.contains key with
  | false => rwa [written_of_not_contains hc]
  | true =>
    -- the write as a map over all objects, which keeps keys and classes
    let g (e : Entity) : Entity := if e.key = key then f { e with revision := b.pending } else e
    have hg (e : Entity) : (g e).key = e.key ∧ (g e).className = e.className := by
      simp only [g]
      split
      · exact ⟨(hf _).1, (hf _).2.1⟩
      · exact ⟨rfl, rfl⟩
    have hmap : (b.written key f).view.entities = b.view.entities.map g := by
      rw [written_of_contains hc]
      exact editEntities_eq_map h.keyed.ascending
    refine ⟨hkeyed, fun e' he' => ?_⟩
    rw [hmap] at he'
    obtain ⟨e, hm, rfl⟩ := List.mem_map.mp he'
    have hold : (g e).Conforms schema b.view := by
      simp only [g]
      split
      · rename_i hk
        exact he e (h.keyed.entity?_eq_some.mpr ⟨hm, hk⟩) (h.entities e hm)
      · exact h.entities e hm
    exact hold.mono fun _ _ => Snapshot.classOf_of_map h.keyed hkeyed hg hmap

/-- An object is removed with every link to it. -/
theorem conforming_removeEntity (key : ObjectKey) (h : b.view.Conforming schema) :
    (b.removeEntity key).2.view.Conforming schema := by
  have hstep : Step False b (b.removeEntity key).2 := .remove key
  have hkeyed := hstep.keyed h.keyed
  cases hc : b.working.contains key with
  | false => rwa [removeEntity_of_not_contains hc]
  | true =>
    have hmap : (b.removeEntity key).2.view.entities =
        (b.view.entities.filter (·.key != key)).map (unlinkEntity key b.pending) := by
      simp only [removeEntity, hc, if_true, view]
    -- only the removed object is gone
    have hclass (key' : ObjectKey) (name : String) (hne : key' ≠ key)
        (hcls : b.view.classOf key' = some name) :
        (b.removeEntity key).2.view.classOf key' = some name := by
      obtain ⟨e, he, rfl, rfl⟩ := h.keyed.classOf_eq_some.mp hcls
      refine hkeyed.classOf_eq_some.mpr ⟨unlinkEntity key b.pending e, ?_, rfl, rfl⟩
      rw [hmap]
      exact List.mem_map_of_mem (List.mem_filter.mpr ⟨he, by simpa using hne⟩)
    refine ⟨hkeyed, fun e' he' => ?_⟩
    rw [hmap] at he'
    obtain ⟨e, hm, rfl⟩ := List.mem_map.mp he'
    obtain ⟨c, hfind, hmatch⟩ := h.entities e (List.mem_filter.mp hm).1
    exact ⟨c, hfind, hmatch.unlink hclass⟩

theorem entities_createObject {c : ClassSchema} {given : List (Property × Value)}
    (h : b.view.Keyed) (hl : b.view.checkLinks given = .ok ()) :
    (b.createObject c given).2.view.entities = b.view.entities ++
      [⟨⟨b.working.nextKey + 1⟩, c.name,
        c.properties.map fun p => (p.name, initialField given p), b.pending⟩] := by
  -- the object is added without fields first, and then written
  have hkeyed := (Step.insert c.name trivial).keyed h
  let key : ObjectKey := ⟨b.working.nextKey + 1⟩
  have hcontains : (b.insertEntity c.name).2.working.contains key = true := by
    refine Snapshot.contains_iff.mpr ⟨⟨key, c.name, [], b.pending⟩, ?_⟩
    refine hkeyed.entity?_eq_some.mpr ⟨List.mem_append_right _ List.mem_cons_self, rfl⟩
  have hold : ∀ e ∈ b.view.entities, e.key ≠ key := by
    intro e he heq
    have := h.handedOut e he
    rw [heq] at this
    exact absurd this (Nat.not_succ_le_self _)
  simp only [createObject, hl]
  change ((b.insertEntity c.name).2.written key _).view.entities = _
  rw [written_of_contains hcontains]
  refine (editEntities_eq_map hkeyed.ascending).trans ?_
  refine (List.map_append).trans ?_
  congr 1
  · refine (List.map_congr_left fun e he => ?_).trans (List.map_id _)
    simp only [hold e he, if_false, id_eq]
  · simp only [List.map_cons, List.map_nil, key, if_true]
    rfl

/-- A value given for a property that passed the checks may be held by it. -/
def Given (s : Snapshot) (c : ClassSchema) (given : List (Property × Value)) : Prop :=
  ∀ p v, (p, v) ∈ given → p ∈ c.properties ∧ p.kind.accepts v = true ∧ s.Leads p.kind v

theorem given_of_checks {s : Snapshot} {c : ClassSchema} {fields : List (String × Value)}
    {given : List (Property × Value)} (hf : c.checkFields fields = .ok given)
    (hl : s.checkLinks given = .ok ()) : Given s c given := by
  induction fields generalizing given with
  | nil =>
    cases hf
    intro p v hm
    cases hm
  | cons field fields ih =>
    obtain ⟨name, v⟩ := field
    rw [ClassSchema.checkFields] at hf
    obtain ⟨⟨p, stored⟩, hfield, hf⟩ := ok_of_bind hf
    obtain ⟨rest, hrest, hf⟩ := ok_of_bind hf
    cases hf
    obtain ⟨declared, hdeclared, hfield⟩ := ok_of_bind hfield
    obtain ⟨-, -, hfield⟩ := ok_of_bind hfield
    obtain ⟨_, hcheck, hfield⟩ := ok_of_bind hfield
    cases hfield
    obtain ⟨_, hlink, hl⟩ := ok_of_bind hl
    intro q x hm
    rcases List.mem_cons.mp hm with heq | hm
    · cases heq
      refine ⟨List.mem_of_find?_eq_some (ClassSchema.property_eq_ok hdeclared), ?_,
        Snapshot.leads_of_checkLink hlink⟩
      rw [PropertyKind.accepts_normalize]
      exact PropertyKind.accepts_of_check hcheck
    · exact ih hrest hl q x hm

theorem fits_initialField {s : Snapshot} {c : ClassSchema} {given : List (Property × Value)}
    (hc : c.Sound) (hg : Given s c given) {p : Property} (hp : p ∈ c.properties) :
    (initialField given p).Fits s p.kind := by
  unfold initialField
  split
  · rename_i hcont
    exact ⟨hcont, fun e he => by cases he⟩
  · rename_i hcont
    exact ⟨hcont, fun e he => by cases he⟩
  · rename_i hcont
    split
    -- of a name that is given more than once, the last value counts
    · rename_i q v hfind
      have hm : (q, v) ∈ given := List.mem_reverse.mp (List.mem_of_find?_eq_some hfind)
      have hname : q.name = p.name := by simpa using List.find?_some hfind
      obtain ⟨hq, hv, hlead⟩ := hg q v hm
      obtain rfl := hc.eq_of_name_eq hq hp hname
      exact ⟨hcont, .inl hv, hlead⟩
    · exact ⟨hcont, p.kind.holds_default, p.kind.leads_default s⟩

/-- A new object of a sound class conforms, and so do the others still. -/
theorem conforming_createObject {c : ClassSchema} {fields : List (String × Value)}
    {given : List (Property × Value)} (hfind : schema.find c.name = .ok c) (hc : c.Sound)
    (hf : c.checkFields fields = .ok given) (h : b.view.Conforming schema) :
    (b.createObject c given).2.view.Conforming schema := by
  have hkeyed := (createObject_steps trivial c given b).keyed h.keyed
  cases hl : b.view.checkLinks given with
  | error e =>
    simp only [createObject, hl]
    exact h
  | ok u =>
    have hentities := entities_createObject (c := c) h.keyed hl
    have hclass (key : ObjectKey) (name : String) (hcls : b.view.classOf key = some name) :
        (b.createObject c given).2.view.classOf key = some name := by
      obtain ⟨e, he, hk, hn⟩ := h.keyed.classOf_eq_some.mp hcls
      refine hkeyed.classOf_eq_some.mpr ⟨e, ?_, hk, hn⟩
      rw [hentities]
      exact List.mem_append_left _ he
    refine ⟨hkeyed, fun e he => ?_⟩
    rw [hentities] at he
    rcases List.mem_append.mp he with he | he
    · exact (h.entities e he).mono hclass
    · rw [List.mem_singleton.mp he]
      refine ⟨c, hfind, ?_⟩
      rw [Fields.Match, List.forall₂_map_left_iff, List.forall₂_same]
      exact fun p hp => ⟨rfl, (fits_initialField hc (given_of_checks hf hl) hp).mono hclass⟩

theorem fits_of_checkWrite {key : ObjectKey} {property : String} {v stored : Value} {s : Snapshot}
    {e : Entity} (he : s.entity? key = some e)
    (h : checkWrite schema key property v s = .ok stored) :
    ∃ p, schema.property e.className property = .ok p ∧ (Field.value stored).Fits s p.kind := by
  rw [checkWrite, he] at h
  obtain ⟨p, hp, h⟩ := ok_of_bind h
  obtain ⟨_, hscalar, h⟩ := ok_of_bind h
  obtain ⟨_, hcheck, h⟩ := ok_of_bind h
  obtain ⟨_, hlink, h⟩ := ok_of_bind h
  cases h
  refine ⟨p, hp, ?_, .inl ?_, Snapshot.leads_normalize (Snapshot.leads_of_checkLink hlink)⟩
  · unfold Property.requireScalar PropertyKind.isContainer at hscalar
    split at hscalar
    · cases hscalar
    · rename_i hcont
      simpa using hcont
  · rw [PropertyKind.accepts_normalize]
    exact PropertyKind.accepts_of_check hcheck

theorem conforming_setValue {key : ObjectKey} {property : String} {v : Value}
    (h : b.view.Conforming schema) :
    (setValue schema key property v b).2.view.Conforming schema := by
  unfold setValue
  split
  · exact h
  · rename_i stored hcheck
    refine conforming_written (fun _ => ⟨rfl, rfl, rfl⟩) h fun e he hconf => ?_
    obtain ⟨p, hp, hfits⟩ := fits_of_checkWrite he hcheck
    exact hconf.put hp hfits

end Batch

/-! ## Elements of lists and sets -/

namespace Snapshot

variable {s : Snapshot} {k : PropertyKind} {es : List Element}

theorem FitElements.nil (s : Snapshot) (k : PropertyKind) : s.FitElements k [] :=
  fun e he => by cases he

theorem FitElements.insertIdx {i : Nat} {x : Element} (h : s.FitElements k es)
    (hx : k.element.accepts x.value = true ∧ s.Leads k x.value) :
    s.FitElements k (es.insertIdx i x) := by
  intro e he
  rcases List.eq_or_mem_of_mem_insertIdx he with rfl | he
  · exact hx
  · exact h e he

theorem FitElements.eraseIdx (i : Nat) (h : s.FitElements k es) :
    s.FitElements k (es.eraseIdx i) :=
  fun e he => h e (List.mem_of_mem_eraseIdx he)

theorem FitElements.set {i : Nat} {x : Element} (h : s.FitElements k es)
    (hx : k.element.accepts x.value = true ∧ s.Leads k x.value) :
    s.FitElements k (es.set i x) := by
  intro e he
  rcases List.mem_or_eq_of_mem_set he with he | rfl
  · exact h e he
  · exact hx

end Snapshot

namespace Container

variable {schema : Schema} {b : Batch} {c : Container}

/-- The class of the owner declares the property with exactly this kind. -/
def Declared (schema : Schema) (s : Snapshot) (c : Container) : Prop :=
  ∀ e, s.entity? c.key.owner = some e →
    ∃ p, schema.property e.className c.key.property = .ok p ∧ p.kind = c.kind

theorem Declared.targetsLinks {s : Snapshot} (hd : c.Declared schema s)
    (hs : schema.validate = .ok ()) (ho : s.contains c.key.owner = true) :
    c.kind.TargetsLinks := by
  obtain ⟨e, he⟩ := Snapshot.contains_iff.mp ho
  obtain ⟨p, hp, hkind⟩ := hd e he
  unfold Schema.property at hp
  split at hp
  · rename_i cls hcls
    rw [← hkind]
    exact (Schema.sound_of_find hs hcls).targets p
      (List.mem_of_find?_eq_some (ClassSchema.property_eq_ok hp))
  · cases hp

/-- Elements are replaced by elements that fit. -/
theorem conforming_edit {f : List Element → List Element} (hd : c.Declared schema b.view)
    (h : b.view.Conforming schema)
    (hf : ∀ es, b.view.FitElements c.kind es → b.view.FitElements c.kind (f es)) :
    (c.edit f b).2.view.Conforming schema := by
  rw [edit_batch]
  refine Batch.conforming_written (c.writesFields_rewrite f) h fun e he hconf => ?_
  obtain ⟨p, hp, hkind⟩ := hd e he
  obtain ⟨field, hfield, hfits⟩ := hconf.field? hp
  have hfield' : ({ e with revision := b.pending } : Entity).field? c.key.property = some field :=
    hfield
  rw [rewrite, hfield']
  cases field with
  | value v => exact hconf
  | list es =>
    rw [hkind] at hfits
    refine Entity.Conforms.put (e := { e with revision := b.pending }) hconf hp ?_
    rw [hkind]
    exact ⟨hfits.1, hf es hfits.2⟩
  | set es =>
    rw [hkind] at hfits
    refine Entity.Conforms.put (e := { e with revision := b.pending }) hconf hp ?_
    rw [hkind]
    exact ⟨hfits.1, hf es hfits.2⟩

/-- The stored form of an element fits, unless it was wrapped in an improper way. -/
theorem fits_of_prepare {s : Snapshot} {k : PropertyKind} {v stored : Value}
    (hk : k.TargetsLinks) (hv : ¬k.Overwrapped v)
    (h : prepare s k v = .ok stored) : k.element.accepts stored = true ∧ s.Leads k stored := by
  obtain ⟨_, hcheck, h⟩ := ok_of_bind h
  obtain ⟨_, hlink, h⟩ := ok_of_bind h
  cases h
  have haccepts : k.accepts v = true := PropertyKind.accepts_of_check hcheck
  constructor
  · exact (k.accepts_normalize _).trans (PropertyKind.accepts_unwrap haccepts hv)
  · -- the link was checked in the value as it was given
    intro key target hkey ht
    rw [PropertyKind.asObject_normalize,
      PropertyKind.asObject_unwrap haccepts (hk target ht)] at hkey
    exact Snapshot.leads_of_checkLink hlink key target hkey ht

theorem fits_of_prepareAll {s : Snapshot} {k : PropertyKind} {vs stored : List Value}
    (hk : k.TargetsLinks)
    (hv : ∀ v ∈ vs, ¬k.Overwrapped v) (h : prepareAll s k vs = .ok stored) :
    ∀ v ∈ stored, k.element.accepts v = true ∧ s.Leads k v := by
  induction vs generalizing stored with
  | nil =>
    cases h
    intro v hm
    cases hm
  | cons x xs ih =>
    obtain ⟨y, hy, h⟩ := ok_of_bind h
    obtain ⟨ys, hrest, h⟩ := ok_of_bind h
    cases h
    intro v hm
    rcases List.mem_cons.mp hm with rfl | hm
    · exact fits_of_prepare hk (hv x List.mem_cons_self) hy
    · exact ih (fun z hz => hv z (List.mem_cons_of_mem _ hz)) hrest v hm

theorem conforming_insertNew {i : Nat} {v : Value} (hd : c.Declared schema b.view)
    (h : b.view.Conforming schema)
    (hv : c.kind.element.accepts v = true ∧ b.view.Leads c.kind v) :
    (c.insertNew i v b).2.view.Conforming schema :=
  conforming_edit (b := b.allocateSlot.2) hd (Batch.conforming_allocateSlot h)
    fun _ hes => hes.insertIdx hv

theorem conforming_append {v : Value} (hd : c.Declared schema b.view)
    (hk : c.kind.TargetsLinks)
    (h : b.view.Conforming schema) (hv : ¬c.kind.Overwrapped v) :
    (c.append v b).2.view.Conforming schema := by
  unfold append
  split
  · exact h
  · exact h
  · rename_i stored es hprepare _
    split
    · exact h
    · exact conforming_insertNew hd h (fits_of_prepare hk hv hprepare)

theorem prepare_of_prepareAt {operation : String} {v stored : Value} {s : Snapshot}
    {es : List Element} (h : c.prepareAt operation v s = .ok (stored, es)) :
    prepare s c.kind v = .ok stored := by
  obtain ⟨-, -, h⟩ := ok_of_bind h
  obtain ⟨y, hy, h⟩ := ok_of_bind h
  obtain ⟨ys, -, h⟩ := ok_of_bind h
  cases h
  exact hy

theorem conforming_insert {i : Nat} {v : Value} (hd : c.Declared schema b.view)
    (hk : c.kind.TargetsLinks)
    (h : b.view.Conforming schema) (hv : ¬c.kind.Overwrapped v) :
    (c.insert i v b).2.view.Conforming schema := by
  unfold insert
  split
  · exact h
  · rename_i stored es hprepare
    split
    · exact h
    · exact conforming_insertNew hd h (fits_of_prepare hk hv (prepare_of_prepareAt hprepare))

theorem conforming_remove {i : Nat} (hd : c.Declared schema b.view)
    (h : b.view.Conforming schema) : (c.remove i b).2.view.Conforming schema := by
  unfold remove
  split
  · exact h
  · split
    · exact h
    · exact conforming_edit hd h fun _ hes => hes.eraseIdx i

theorem conforming_removeValue {v : Value} (hd : c.Declared schema b.view)
    (h : b.view.Conforming schema) : (c.removeValue v b).2.view.Conforming schema := by
  unfold removeValue
  split
  · exact h
  · split
    · exact h
    · rename_i i _
      exact conforming_edit hd h fun _ hes => hes.eraseIdx i

theorem conforming_replace {i : Nat} {v : Value} (hd : c.Declared schema b.view)
    (hk : c.kind.TargetsLinks)
    (h : b.view.Conforming schema) (hv : ¬c.kind.Overwrapped v) :
    (c.replace i v b).2.view.Conforming schema := by
  unfold replace
  split
  · exact h
  · rename_i stored es hprepare
    split
    · exact h
    · exact conforming_edit hd h fun _ hes =>
        hes.set (fits_of_prepare hk hv (prepare_of_prepareAt hprepare))

/-! ### Bulk operations -/

theorem mem_dropRepeatedAfter {v x : Value} {vs : List Value} (h : x ∈ dropRepeatedAfter v vs) :
    x = v ∨ x ∈ vs := by
  induction vs generalizing v with
  | nil => exact .inl (List.mem_singleton.mp h)
  | cons w ws ih =>
    rw [dropRepeatedAfter] at h
    split at h
    · rcases ih h with h | h
      · exact .inl h
      · exact .inr (List.mem_cons_of_mem _ h)
    · rcases List.mem_cons.mp h with h | h
      · exact .inl h
      · rcases ih h with rfl | h
        · exact .inr List.mem_cons_self
        · exact .inr (List.mem_cons_of_mem _ h)

theorem mem_of_mem_arranged {k : PropertyKind} {x : Value} {vs : List Value}
    (h : x ∈ arranged k vs) : x ∈ vs := by
  unfold arranged at h
  split at h
  · rw [← (stableSort_perm _ vs).mem_iff]
    change x ∈ Value.sort vs
    cases hs : Value.sort vs with
    | nil =>
      rw [hs] at h
      cases h
    | cons y ys =>
      rw [hs] at h
      exact List.mem_cons.mpr (mem_dropRepeatedAfter h)
  · exact h

theorem newElements_spec (vs : List Value) (b : Batch) :
    (newElements b vs).1.map (·.value) = vs ∧
      (newElements b vs).2.view.entities = b.view.entities := by
  induction vs generalizing b with
  | nil => exact ⟨rfl, rfl⟩
  | cons v vs ih =>
    obtain ⟨hvalues, hentities⟩ := ih b.allocateSlot.2
    refine ⟨?_, hentities⟩
    change v :: (newElements b.allocateSlot.2 vs).1.map (·.value) = v :: vs
    rw [hvalues]

theorem entity?_newElements (vs : List Value) (b : Batch) (key : ObjectKey) :
    (newElements b vs).2.view.entity? key = b.view.entity? key := by
  rw [Snapshot.entity?, (newElements_spec vs b).2, Snapshot.entity?]

theorem conforming_newElements (vs : List Value) (h : b.view.Conforming schema) :
    (newElements b vs).2.view.Conforming schema := by
  induction vs generalizing b with
  | nil => exact h
  | cons v vs ih => exact ih (Batch.conforming_allocateSlot h)

theorem conforming_assign {vs : List Value} (hd : c.Declared schema b.view)
    (hk : c.kind.TargetsLinks)
    (h : b.view.Conforming schema) (hv : ∀ v ∈ vs, ¬c.kind.Overwrapped v) :
    (c.assign vs b).2.view.Conforming schema := by
  unfold assign
  split
  · exact h
  · rename_i stored hprepare
    have hfits := fits_of_prepareAll hk hv hprepare
    have hsame := entity?_newElements (arranged c.kind stored) b
    refine conforming_edit (b := (newElements b (arranged c.kind stored)).2)
      (fun e he => hd e (hsame _ ▸ he)) (conforming_newElements _ h) ?_
    intro _ _ e he
    have hmem : e.value ∈ arranged c.kind stored := by
      rw [← (newElements_spec (arranged c.kind stored) b).1]
      exact List.mem_map_of_mem he
    obtain ⟨haccepts, hleads⟩ := hfits e.value (mem_of_mem_arranged hmem)
    refine ⟨haccepts, fun key target hkey ht => ?_⟩
    rw [Snapshot.classOf, hsame]
    exact hleads key target hkey ht

theorem conforming_removeAll (keys : List ObjectKey) (h : b.view.Conforming schema) :
    (removeAll b keys).2.view.Conforming schema := by
  induction keys generalizing b with
  | nil => exact h
  | cons key keys ih => exact ih (Batch.conforming_removeEntity key h)

theorem conforming_deleteObjects (h : b.view.Conforming schema) :
    (c.deleteObjects b).2.view.Conforming schema := by
  unfold deleteObjects
  split
  · exact h
  · split
    · exact h
    · rename_i es _
      exact conforming_removeAll (linkedKeys es) h

end Container

end ObjectStore
