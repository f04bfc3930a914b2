import ObjectStore.Proofs.Run.Building

/-
  The form in which values are stored.

  A value may be offered bare or in a wrapper, whatever the family of the property. Where every
  family is accepted it is stored in a wrapper, which tells its kind, and where one family is
  accepted it needs none. So there is one form for each value (`PropertyKind.form`).

  Everything that writes elements of lists and sets takes the wrapper off before it stores the
  form, also of values that went through a collection of their own. What writes single values
  does not: it stores a wrapper under one family as it is offered. All readings look into a
  wrapper, so that no comparison tells the difference; but the value itself does, when it is read
  back.

    1. `PropertyKind.formed`: what the form looks like. `PropertyKind.normalize_eq_form_iff`: when
       a single value is stored in it.
    2. `Batch.setValue_stores` and `Batch.createObject_stores`: what is read back of single values.
    3. `World.Writing.stores` and `World.Writing.assign_stores`: elements are stored in their form.
    4. `World.stored_forms`: all writes together.
    5. `World.wrapper_is_stored`: one value, read back in two forms.
-/

namespace ObjectStore

/-! ## Forms -/

namespace PropertyKind

variable {k : PropertyKind} {v : Value}

/-- The form of a value under a kind: in a wrapper if every family is accepted, and else in
none. -/
def form (k : PropertyKind) (v : Value) : Value := if k.family = .any then v.any else v.unwrap

/-- What a value looks like that is in the form for a kind. -/
structure Formed (k : PropertyKind) (v : Value) : Prop where
  /-- Under one family there is no wrapper. -/
  bare : k.family ≠ .any → ∀ u, v ≠ .wrapped u
  /-- Else there is one around each value but null, and it tells the kind of the value. -/
  wrapped : k.family = .any → v = .null ∨
    ∃ u, v = .wrapped u ∧ u ≠ .null ∧ (∀ x, u ≠ .wrapped x) ∧ v.wrappedKind? = some u.kind

theorem formed (hv : v.WellFormed) (k : PropertyKind) :
    k.Formed (k.form v) ∧ (k.form v).unwrap = v.unwrap := by
  unfold form
  split
  · rename_i hany
    refine ⟨⟨fun hne => absurd hany hne, fun _ => ?_⟩, ?_⟩
    · cases v with
      | null => exact .inl rfl
      | wrapped u =>
        refine .inr ⟨u, rfl, fun hu => ?_, fun x => hv.unwrap_ne x, rfl⟩
        rw [hu] at hv
        exact hv
      | _ => exact .inr ⟨_, rfl, nofun, fun x => nofun, rfl⟩
    · cases v <;> rfl
  · rename_i hone
    exact ⟨⟨fun _ => hv.unwrap_ne, fun hany => absurd hany hone⟩, hv.unwrap_unwrap⟩

theorem normalize_unwrap (hv : v.WellFormed) (k : PropertyKind) :
    k.normalize v.unwrap = k.form v := by
  unfold normalize form
  split
  · cases v with
    | wrapped u =>
      cases u with
      | null => exact hv.elim
      | wrapped x => exact hv.elim
      | _ => rfl
    | _ => rfl
  · rfl

theorem wellFormed_form (hv : v.WellFormed) (k : PropertyKind) : (k.form v).WellFormed := by
  rw [← normalize_unwrap hv]
  exact (hv.unwrap.normalize k).1

theorem normalize_eq_form_iff :
    k.normalize v = k.form v ↔ k.family = .any ∨ ∀ u, v ≠ .wrapped u := by
  unfold normalize form
  split
  · rename_i hany
    exact iff_of_true rfl (.inl hany)
  · rename_i hone
    rw [or_iff_right hone]
    constructor
    · rintro heq u rfl
      have hsize := congrArg sizeOf heq
      simp [Value.unwrap] at hsize
    · exact fun hbare => (Value.unwrap_of_ne hbare).symm

end PropertyKind

/-! ## Single values -/

/-- A value that may be written to a property of one value. -/
structure Property.Takes (p : Property) (s : Snapshot) (v : Value) : Prop where
  single : p.kind.isContainer = false
  fit : Container.Fit s p.kind v

namespace Property.Takes

variable {p : Property} {s : Snapshot} {v : Value}

theorem requireScalar (h : p.Takes s v) : p.requireScalar = .ok () :=
  if_neg (Bool.eq_false_iff.mp h.single)

theorem check (h : p.Takes s v) : p.kind.check v = .ok () := if_pos h.fit.accepts

theorem container (h : p.Takes s v) : p.kind.container = none :=
  Option.not_isSome_iff_eq_none.mp (Bool.eq_false_iff.mp h.single)

end Property.Takes

namespace Batch

variable {schema : Schema} {b : Batch} {key : ObjectKey} {property : String} {v : Value}

/-- A value that is written can be read back. -/
theorem setValue_stores (hb : b.view.Keyed) {e : Entity} (he : b.view.entity? key = some e)
    {p : Property} (hp : schema.property e.className property = .ok p) (hv : p.Takes b.view v) :
    (setValue schema key property v b).1 = .ok () ∧
      (setValue schema key property v b).2.view.getValue schema key property =
        .ok (p.kind.normalize v) := by
  have hlink := Snapshot.checkLink_of_leads hv.fit.leads
  have hwrite : checkWrite schema key property v b.view = .ok (p.kind.normalize v) := by
    simp only [checkWrite, he, hp, hv.requireScalar, hv.check, hlink, bind, Except.bind, pure,
      Except.pure]
  have hwrites : WritesFields fun e => e.put property (.value (p.kind.normalize v)) :=
    fun _ => ⟨rfl, rfl, rfl⟩
  have hentity : (b.written key fun e => e.put property (.value (p.kind.normalize v))).view.entity?
      key = _ := entity?_written hb hwrites key
  rw [if_pos rfl, he, Option.map_some] at hentity
  rw [setValue, hwrite]
  refine ⟨edit_of_contains (Snapshot.contains_iff.mpr ⟨e, he⟩), ?_⟩
  change (b.written key _).view.getValue schema key property = _
  rw [Snapshot.getValue, hentity]
  simp only [Entity.put, hp, hv.requireScalar, bind, Except.bind, pure, Except.pure, Entity.value?,
    Entity.field?, Fields.get?_put_self, Option.getD_some]

theorem checkFields_of_takes {c : ClassSchema} {s : Snapshot} {fields : List (String × Value)}
    (h : ∀ f ∈ fields, ∃ p, c.property f.1 = .ok p ∧ p.Takes s f.2) :
    ∃ given, c.checkFields fields = .ok given ∧ s.checkLinks given = .ok () ∧
      List.Forall₂ (fun f q => c.property f.1 = .ok q.1 ∧ q.2 = q.1.kind.normalize f.2)
        fields given := by
  induction fields with
  | nil => exact ⟨[], rfl, rfl, .nil⟩
  | cons f fields ih =>
    obtain ⟨name, v⟩ := f
    obtain ⟨p, hp, hv⟩ := h _ List.mem_cons_self
    obtain ⟨given, hgiven, hlinks, hsame⟩ := ih fun f hf => h f (List.mem_cons_of_mem _ hf)
    have hlink : s.checkLink p.kind (p.kind.normalize v) = .ok () :=
      Snapshot.checkLink_of_leads (Snapshot.leads_normalize hv.fit.leads)
    refine ⟨(p, p.kind.normalize v) :: given, ?_, ?_, .cons ⟨hp, rfl⟩ hsame⟩
    · simp only [ClassSchema.checkFields, ClassSchema.checkField, hp, hv.requireScalar, hv.check,
        hgiven, bind, Except.bind, pure, Except.pure]
    · simp only [Snapshot.checkLinks, hlink, hlinks, bind, Except.bind]

theorem find?_of_lookup {c : ClassSchema} {fields : List (String × Value)}
    {given : List (Property × Value)} {name : String} {p : Property}
    (h : List.Forall₂ (fun f q => c.property f.1 = .ok q.1 ∧ q.2 = q.1.kind.normalize f.2)
      fields given) (hlookup : fields.lookup name = some v) (hp : c.property name = .ok p) :
    given.find? (·.1.name == p.name) = some (p, p.kind.normalize v) := by
  have hname {n : String} {q : Property} (hq : c.property n = .ok q) : q.name = n :=
    beq_iff_eq.mp (List.find?_some (p := fun q : Property => q.name == n)
      (ClassSchema.property_eq_ok hq))
  induction h with
  | nil => cases hlookup
  | @cons f q fields given hf _ ih =>
    obtain ⟨n, u⟩ := f
    obtain ⟨q, stored⟩ := q
    obtain ⟨hq, hstored⟩ := hf
    obtain rfl : stored = q.kind.normalize u := hstored
    rw [List.lookup_cons] at hlookup
    rw [List.find?_cons, hname hp, hname hq]
    by_cases hn : name = n
    · subst hn
      rw [beq_self_eq_true] at hlookup
      obtain rfl := Option.some.inj hlookup
      obtain rfl := Except.ok.inj (hp.symm.trans hq)
      simp only [beq_self_eq_true]
    · rw [beq_eq_false_iff_ne.mpr hn] at hlookup
      rw [beq_eq_false_iff_ne.mpr (Ne.symm hn), ← hname hp]
      exact ih hlookup

/-- Of the values given for a new object, the last one under a name can be read back. -/
theorem createObject_stores (hb : b.view.Keyed) {c : ClassSchema}
    (hc : schema.find c.name = .ok c) {fields : List (String × Value)}
    (h : ∀ f ∈ fields, ∃ p, c.property f.1 = .ok p ∧ p.Takes b.view f.2) :
    ∃ given key, c.checkFields fields = .ok given ∧ (createObject c given b).1 = .ok key ∧
      ∀ name v p, fields.reverse.lookup name = some v → c.property name = .ok p →
        (createObject c given b).2.view.getValue schema key name = .ok (p.kind.normalize v) := by
  obtain ⟨given, hgiven, hlinks, hsame⟩ := checkFields_of_takes h
  refine ⟨given, ⟨b.view.nextKey + 1⟩, hgiven, createObject_of_checkLinks hlinks,
    fun name v p hlookup hp => ?_⟩
  have hfind := find?_of_lookup (List.forall₂_reverse_iff.mpr hsame) hlookup hp
  obtain ⟨p', hp', hv⟩ : ∃ p', c.property name = .ok p' ∧ p'.Takes b.view v := by
    obtain ⟨front, back, hsplit, -⟩ := List.lookup_eq_some_iff.mp hlookup
    have hmem : (name, v) ∈ fields.reverse :=
      hsplit ▸ List.mem_append_right front List.mem_cons_self
    exact h _ (List.mem_reverse.mp hmem)
  obtain rfl := Except.ok.inj (hp.symm.trans hp')
  have hproperty : schema.property c.name name = .ok p := by
    rw [Schema.property, hc]
    exact hp
  have hfield : Fields.get? (c.properties.map fun p => (p.name, initialField given p)) name =
      some (initialField given p) := Fields.get?_declared _ (ClassSchema.property_eq_ok hp)
  have hinitial : initialField given p = .value (p.kind.normalize v) := by
    simp only [initialField, hv.container, hfind]
  rw [Snapshot.getValue, entity?_createObject hb hlinks, if_pos rfl]
  simp only [hproperty, hv.requireScalar, bind, Except.bind, pure, Except.pure, Entity.value?,
    Entity.field?, hfield, hinitial, Option.getD_some]

end Batch

/-! ## Values that went through a collection -/

namespace Collection

variable {k : PropertyKind} {vs : List Value}

/-- A collection that is made of values has each of them, apart from wrappers and from what is
like it. -/
theorem ofValues_covers (hk : k.isContainer = true)
    (hvs : ∀ v ∈ vs, v.WellFormed ∧ k.accepts v = true) :
    ∃ zs, ofValues k vs = .ok (.unattached k zs) ∧
      (∀ z ∈ zs, z.WellFormed ∧ ∃ v ∈ vs, z.unwrap = v.unwrap) ∧
      ∀ v ∈ vs, ∃ z ∈ zs, z.canonicalCompare v = .eq := by
  obtain ⟨zs, hofValues, hzs, hthrough⟩ := ofValues_firsts hk hvs
  refine ⟨zs, hofValues, hzs, fun v hv => ?_⟩
  have hplain {us : List Value} (hus : ∀ u ∈ us, u.WellFormed) :
      ∀ u ∈ us.map (·.unwrap), u.WellFormed := by
    intro u hu
    obtain ⟨v, hv, rfl⟩ := List.mem_map.mp hu
    exact (hus v hv).unwrap
  have hwfv := (hvs v hv).1
  have hfirsts : Value.Firsts (zs.map (·.unwrap)) _ :=
    Value.firsts_arranged (k := .set .any) rfl (hplain fun z hz => (hzs z hz).1)
  obtain ⟨x, hx, hlike⟩ := (hthrough _ hfirsts).covers (hplain fun v hv => (hvs v hv).1)
    hwfv.unwrap (List.mem_map_of_mem hv) (Value.isLike_self hwfv.unwrap)
  obtain ⟨z, hz, rfl⟩ := List.mem_map.mp (hfirsts.subset hx)
  refine ⟨z, hz, ?_⟩
  rw [← Value.canonicalCompare_unwrap (hzs z hz).1 hwfv]
  exact Value.isLike_iff.mp hlike

theorem ofValues_list (hk : k.container = some .list) (hvs : ∀ v ∈ vs, k.accepts v = true) :
    ofValues k vs = .ok (.unattached k (vs.map k.normalize)) := by
  have hcheck : ∀ v ∈ vs, k.element.check v = .ok () := fun v hv => if_pos (hvs v hv)
  have hgather := gather_accepted (k := k) hcheck .list []
  simp only [ofValues, hk, hgather, List.nil_append, Except.map]

end Collection

/-- How a value is put into a list or set that shows certain values: in its form, wherever it is
put. -/
structure Collection.Stores (c : Collection) (w : World) (t : Thread) (old : List Value)
    (v : Value) : Prop where
  /-- Behind the others in a list. -/
  append : c.kind.container = some .list → ∃ w', c.append w t v = (.ok true, w') ∧
    c.values w' t = .ok (old ++ [c.kind.form v])
  /-- At a place of a list. -/
  insert : c.kind.container = some .list → ∀ i ≤ old.length, ∃ w',
    c.insert w t i v = (.ok (), w') ∧ c.values w' t = .ok (old.insertIdx i (c.kind.form v))
  /-- In the place of a value in a list. -/
  replace : c.kind.container = some .list → ∀ i u, old[i]? = some u → ∃ w',
    c.replace w t i v = (.ok u, w') ∧ c.values w' t = .ok (old.set i (c.kind.form v))
  /-- Among the values of a set, unless one is equal to it. -/
  take : c.kind.container = some .set → ∃ answer w', c.append w t v = (.ok answer, w') ∧
    if answer then ∃ i ≤ old.length, c.values w' t = .ok (old.insertIdx i (c.kind.form v))
    else c.values w' t = .ok old ∧ ∃ u ∈ old, u.canonicalCompare (c.kind.form v) = .eq

/-! ## Writes of a session -/

namespace World

theorem schemaOf_mutate {α : Type} (w : World) (t : Thread) (s : SessionId)
    (f : Batch → Except Error α × Batch) : (w.mutate t s f).2.schemaOf s = w.schemaOf s := by
  unfold mutate
  cases hgate : w.gate t s with
  | error e => rfl
  | ok x =>
    cases hb : x.batch with
    | none => simp only [hb]
    | some b =>
      have hx : w.sessions[s.index]? = some x := (gate_eq_ok.mp hgate).1
      have hlen := (List.getElem?_eq_some_iff.mp hx).1
      simp only [hb, schemaOf, putSession, session?, List.getElem?_set_self hlen, hx]
      rfl

namespace Writing

variable {w : World} {t : Thread} {s : SessionId} {b : Batch} {c : Container} {v : Value}
  {vs : List Value}

theorem getValue (h : w.Writing t s b) (key : ObjectKey) (property : String) :
    w.getValue t s key property = b.view.getValue (w.schemaOf s) key property := by
  obtain ⟨x, hgate, hb⟩ := h
  simp only [World.getValue, World.read, hgate, Session.view_of_batch hb]

theorem setValue (h : w.Writing t s b) (hb : b.view.Keyed) {key : ObjectKey} {property : String}
    {e : Entity} (he : b.view.entity? key = some e) {p : Property}
    (hp : (w.schemaOf s).property e.className property = .ok p) (hv : p.Takes b.view v) :
    ∃ w', w.setValue t s key property v = (.ok (), w') ∧
      w'.getValue t s key property = .ok (p.kind.normalize v) := by
  obtain ⟨hanswer, hwriting⟩ := h.mutate (Batch.setValue (w.schemaOf s) key property v)
  obtain ⟨hok, hread⟩ := Batch.setValue_stores hb he hp hv
  refine ⟨_, Prod.ext (hanswer.trans hok) rfl, ?_⟩
  rw [World.setValue, hwriting.getValue, schemaOf_mutate, hread]

theorem create (h : w.Writing t s b) (hb : b.view.Keyed) {className : String} {c : ClassSchema}
    (hc : (w.schemaOf s).find className = .ok c) {fields : List (String × Value)}
    (hfields : ∀ f ∈ fields, ∃ p, c.property f.1 = .ok p ∧ p.Takes b.view f.2) :
    ∃ key w', w.create t s className fields = (.ok key, w') ∧
      ∀ name v p, fields.reverse.lookup name = some v → c.property name = .ok p →
        w'.getValue t s key name = .ok (p.kind.normalize v) := by
  obtain rfl := Schema.name_of_find hc
  obtain ⟨given, key, hgiven, hok, hread⟩ := Batch.createObject_stores hb hc hfields
  obtain ⟨hanswer, hwriting⟩ := h.mutate (Batch.createObject c given)
  have hcreate : w.create t s c.name fields = w.mutate t s (Batch.createObject c given) := by
    simp only [World.create, hc, hgiven, bind, Except.bind, pure, Except.pure]
  refine ⟨key, _, hcreate.trans (Prod.ext (hanswer.trans hok) rfl), fun name v p hlookup hp => ?_⟩
  rw [hwriting.getValue, schemaOf_mutate, hread name v p hlookup hp]

theorem shows {α : Type} (h : w.Writing t s b) (hc : c.Ready b)
    {f : Batch → Except Error α × Batch} {a : α}
    (hf : (f b).1 = .ok a ∧ c.Leaves b (f b).2 vs) :
    ∃ w', w.mutate t s (c.guarded f) = (.ok a, w') ∧
      (Collection.bound (.live s) c).values w' t = .ok vs := by
  obtain ⟨hanswer, hwriting⟩ := h.mutate (c.guarded f)
  rw [hc.guarded] at hanswer hwriting
  obtain ⟨hok, hleaves⟩ := hf
  refine ⟨_, Prod.ext (hanswer.trans hok) rfl, ?_⟩
  rw [hwriting.values hleaves.ready, hleaves.held]

/-- Values are put into lists and sets in their form. -/
theorem stores (h : w.Writing t s b) (hc : c.Ready b) (hv : Container.Fit b.view c.kind v) :
    (Collection.bound (.live s) c).Stores w t (c.held b) v := by
  have hform : c.kind.normalize v.unwrap = c.kind.form v :=
    PropertyKind.normalize_unwrap hv.wellFormed c.kind
  constructor
  case append =>
    intro hlist
    have happend := hc.append_list hlist hv
    rw [hform] at happend
    exact h.shows hc happend
  case insert =>
    intro hlist i hi
    have hinsert := hc.insert hlist hv hi
    rw [hform] at hinsert
    exact h.shows hc hinsert
  case replace =>
    intro hlist i u hu
    have hreplace := hc.replace hlist hv hu
    rw [hform] at hreplace
    exact h.shows hc hreplace
  case take =>
    intro hset
    have hanswer := hc.append_set hset hv
    rw [hform, Value.takeIn, Value.isFreeIn] at hanswer
    cases hplace : search (fun x => x.canonicalCompare (c.kind.form v)) (c.held b) with
    | found i =>
      rw [hplace] at hanswer
      obtain ⟨w', happend, hvalues⟩ := h.shows hc hanswer
      exact ⟨false, w', happend, hvalues, search_found hplace⟩
    | free i =>
      rw [hplace] at hanswer
      obtain ⟨w', happend, hvalues⟩ := h.shows hc hanswer
      exact ⟨true, w', happend, i, search_free_le hplace, hvalues⟩

/-- The values of a collection are put into a list or set in their form. Each of them is there,
or one that is equal to it, and from a list to a list they come in their order. -/
theorem assign_stores (h : w.Writing t s b) (hc : c.Ready b) {key : ObjectKey}
    {property : String}
    (hcollection : w.collection t s key property = .ok (.bound (.live s) c))
    (hvs : ∀ v ∈ vs, Container.Fit b.view c.kind v) {k : PropertyKind}
    (hk : k.isContainer = true) (haccepts : ∀ v ∈ vs, k.accepts v = true) :
    ∃ u w' new, Collection.ofValues k vs = .ok u ∧
      w.assign t s key property u = (.ok (.bound (.live s) c), w') ∧
      (Collection.bound (.live s) c).values w' t = .ok new ∧
      (∀ z ∈ new, ∃ v ∈ vs, z = c.kind.form v) ∧
      (∀ v ∈ vs, ∃ z ∈ new, z.canonicalCompare (c.kind.form v) = .eq) ∧
      (c.kind.container = some .list → k.container = some .list →
        new = vs.map c.kind.form) := by
  have hwf : ∀ v ∈ vs, v.WellFormed := fun v hv => (hvs v hv).wellFormed
  obtain ⟨zs, hofValues, hzs, hcovers⟩ :=
    Collection.ofValues_covers hk fun v hv => ⟨hwf v hv, haccepts v hv⟩
  obtain ⟨w', b', hassign, hwriting, hleaves⟩ := h.assign hc hcollection k fun z hz => by
    obtain ⟨hwfz, v, hv, hunwrap⟩ := hzs z hz
    exact (hvs v hv).congr hwfz hunwrap
  let stored (z : Value) : Value := c.kind.normalize z.unwrap
  have hstored : ∀ z ∈ zs, stored z = c.kind.form z :=
    fun z hz => PropertyKind.normalize_unwrap (hzs z hz).1 c.kind
  have hforms : ∀ z ∈ zs.map stored, z.WellFormed := by
    intro y hy
    obtain ⟨z, hz, rfl⟩ := List.mem_map.mp hy
    rw [hstored z hz]
    exact PropertyKind.wellFormed_form (hzs z hz).1 c.kind
  refine ⟨_, w', _, hofValues, hassign, hwriting.values hleaves.ready, ?_⟩
  rw [hleaves.held]
  refine ⟨fun y hy => ?_, fun v hv => ?_, fun hlist hlist' => ?_⟩
  · obtain ⟨z, hz, rfl⟩ := List.mem_map.mp (Container.mem_of_mem_arranged hy)
    obtain ⟨-, v, hv, hunwrap⟩ := hzs z hz
    refine ⟨v, hv, ?_⟩
    rw [hunwrap]
    exact PropertyKind.normalize_unwrap (hwf v hv) c.kind
  · obtain ⟨z, hz, heq⟩ := hcovers v hv
    have hform := PropertyKind.wellFormed_form (hwf v hv) c.kind
    have hmem : stored z ∈ zs.map stored := List.mem_map_of_mem hz
    have hlike : (stored z).canonicalCompare (c.kind.form v) = .eq := by
      rw [← Value.canonicalCompare_unwrap (hforms _ hmem) hform, hstored z hz,
        (PropertyKind.formed (hzs z hz).1 c.kind).2, (PropertyKind.formed (hwf v hv) c.kind).2,
        Value.canonicalCompare_unwrap (hzs z hz).1 (hwf v hv), heq]
    by_cases hset : c.kind.container = some .set
    · have hfirsts := Value.firsts_arranged hset hforms
      obtain ⟨y, hy, hlikey⟩ := hfirsts.covers hforms hform hmem (Value.isLike_iff.mpr hlike)
      exact ⟨y, hy, Value.isLike_iff.mp hlikey⟩
    · rw [Container.arranged, if_neg hset]
      exact ⟨stored z, hmem, hlike⟩
  · have hsame := Collection.ofValues_list hlist' haccepts
    rw [hofValues] at hsame
    obtain ⟨-, rfl⟩ := Collection.unattached.inj (Except.ok.inj hsame)
    have hnot : c.kind.container ≠ some .set := by
      rw [hlist]
      decide
    rw [Container.arranged, if_neg hnot, List.map_map]
    refine List.map_congr_left fun v hv => ?_
    simp only [Function.comp, ((hwf v hv).normalize k).2]
    exact PropertyKind.normalize_unwrap (hwf v hv) c.kind

end Writing

variable {t : Thread} {s : SessionId}

/--
Every well-formed value has one form for a kind. In a run, inside a write,

1. a single value that is written is stored as it is offered, but for the wrapper that it gets
   where every family is accepted. So it is stored in its form just if every family is accepted or
   it is offered bare. It is what is read back;
2. it is the same for values that are given for a new object;
3. a list or set stores each value in its form, wherever it is put, and also the values of a
   collection that is assigned to it.
-/
theorem stored_forms {cs : List Call} {x : Session} {b : Batch}
    (hgate : (empty.run cs).gate t s = .ok x) (hb : x.batch = some b) :
    (∀ (k : PropertyKind) (v : Value), v.WellFormed →
      k.Formed (k.form v) ∧ (k.form v).unwrap = v.unwrap ∧
        (k.normalize v = k.form v ↔ k.family = .any ∨ ∀ u, v ≠ .wrapped u)) ∧
    (∀ key e property p v, b.view.entity? key = some e →
      ((empty.run cs).schemaOf s).property e.className property = .ok p → p.Takes b.view v →
        ∃ w', (empty.run cs).setValue t s key property v = (.ok (), w') ∧
          w'.getValue t s key property = .ok (p.kind.normalize v)) ∧
    (∀ className c fields, ((empty.run cs).schemaOf s).find className = .ok c →
      (∀ f ∈ fields, ∃ p, c.property f.1 = .ok p ∧ p.Takes b.view f.2) →
        ∃ key w', (empty.run cs).create t s className fields = (.ok key, w') ∧
          ∀ name v p, fields.reverse.lookup name = some v → c.property name = .ok p →
            w'.getValue t s key name = .ok (p.kind.normalize v)) ∧
    ∀ key property c, (empty.run cs).collection t s key property = .ok c →
      ∃ old, c.values (empty.run cs) t = .ok old ∧
        (∀ v, Container.Fit b.view c.kind v → c.Stores (empty.run cs) t old v) ∧
        ∀ (k : PropertyKind) vs, k.isContainer = true →
          (∀ v ∈ vs, Container.Fit b.view c.kind v ∧ k.accepts v = true) →
          ∃ u w' new, Collection.ofValues k vs = .ok u ∧
            (empty.run cs).assign t s key property u = (.ok c, w') ∧ c.values w' t = .ok new ∧
            (∀ z ∈ new, ∃ v ∈ vs, z = c.kind.form v) ∧
            (∀ v ∈ vs, ∃ z ∈ new, z.canonicalCompare (c.kind.form v) = .eq) ∧
            (c.kind.container = some .list → k.container = some .list →
              new = vs.map c.kind.form) := by
  have hwriting : (empty.run cs).Writing t s b := ⟨x, hgate, hb⟩
  have hx := (gate_eq_ok.mp hgate).1
  have hw := orderly_run cs
  have hkeyed : b.view.Keyed := ((hw.fits s x hx).held b hb).2.2.keyed (hw.keyed x.database)
  refine ⟨fun k v hv => ?_, fun key e property p v he hp hv => hwriting.setValue hkeyed he hp hv,
    fun className c fields hc hfields => hwriting.create hkeyed hc hfields,
    fun key property c hcollection => ?_⟩
  · obtain ⟨hformed, hunwrap⟩ := PropertyKind.formed hv k
    exact ⟨hformed, hunwrap, PropertyKind.normalize_eq_form_iff⟩
  · obtain ⟨c, rfl, hgives⟩ := gives_of_collection hcollection
    have hready := ready_of_gives hx hb hgives
    refine ⟨c.held b, hwriting.values hready, fun v hv => hwriting.stores hready hv,
      fun k vs hk hvs => ?_⟩
    exact hwriting.assign_stores hready hcollection (fun v hv => (hvs v hv).1) hk
      fun v hv => (hvs v hv).2

/-! ## A number in a wrapper -/

/-- Tickets with a number of their own and a list of numbers. -/
def tickets : Schema :=
  ⟨[⟨"Ticket", [⟨"number", .scalar .integer⟩, ⟨"numbers", .list .integer⟩]⟩]⟩

def three : Value := .wrapped (.int32 3)

def ticketing : List Call :=
  [.openDatabase tickets false, .openSession 0 ⟨0⟩, .begin 0 ⟨0⟩,
    .create 0 ⟨0⟩ "Ticket" [("number", three)]]

def ticketed : Batch :=
  ⟨.empty, ⟨0, [⟨⟨1⟩, "Ticket", [("number", .value three), ("numbers", .list [])], 1⟩], 1, 0⟩⟩

def ticketNumbers : Collection := .bound (.live ⟨0⟩) ⟨⟨⟨1⟩, "numbers"⟩, .list .integer⟩

/-- The wrapped number is read back with its wrapper after the ticket is created and after the
number is written, and without it after it is appended to the list. -/
theorem wrapper_is_stored :
    three.WellFormed ∧ (PropertyKind.scalar .integer).accepts three = true ∧
    (empty.run ticketing).getValue 0 ⟨0⟩ ⟨1⟩ "number" = .ok three ∧
    ((empty.run ticketing).setValue 0 ⟨0⟩ ⟨1⟩ "number" three).2.getValue 0 ⟨0⟩ ⟨1⟩ "number" =
      .ok three ∧
    ticketNumbers.values (ticketNumbers.append (empty.run ticketing) 0 three).2 0 =
      .ok [.int32 3] :=
  ⟨trivial, rfl, rfl, rfl, rfl⟩

/-- The bare number is stored alike by both, and the wrapped one by the list. -/
theorem numbers_are_stored :
    (∃ w', (empty.run ticketing).setValue 0 ⟨0⟩ ⟨1⟩ "number" (.int32 3) = (.ok (), w') ∧
      w'.getValue 0 ⟨0⟩ ⟨1⟩ "number" = .ok (.int32 3)) ∧
    ∃ w', ticketNumbers.append (empty.run ticketing) 0 three = (.ok true, w') ∧
      ticketNumbers.values w' 0 = .ok [.int32 3] := by
  obtain ⟨x, hgate, hb⟩ : ∃ x, (empty.run ticketing).gate 0 ⟨0⟩ = .ok x ∧
      x.batch = some ticketed := ⟨_, rfl, rfl⟩
  have hfit {v : Value} {k : PropertyKind} (hv : v.WellFormed) (haccepts : k.accepts v = true)
      (hlink : ticketed.view.checkLink k v = .ok ()) : Container.Fit ticketed.view k v :=
    ⟨hv, haccepts, Snapshot.leads_of_checkLink hlink⟩
  have hcollection : (empty.run ticketing).collection 0 ⟨0⟩ ⟨1⟩ "numbers" =
      .ok ticketNumbers := rfl
  obtain ⟨-, hset, -, helements⟩ := stored_forms hgate hb
  obtain ⟨old, hold, hstores, -⟩ := helements _ _ _ hcollection
  obtain rfl : [] = old := Except.ok.inj hold
  refine ⟨?_, ?_⟩
  · exact hset _ _ _ ⟨"number", .scalar .integer⟩ _ rfl rfl ⟨rfl, hfit trivial rfl rfl⟩
  · exact (hstores three (hfit trivial rfl rfl)).append rfl

end World

end ObjectStore
