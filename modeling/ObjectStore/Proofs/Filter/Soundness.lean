import ObjectStore.Filter.Expr
import ObjectStore.Filter.Meaning
import ObjectStore.Proofs.Schema.Conformance
import ObjectStore.Proofs.Value.Exact

/-
  A path reaches what its kind says.

  A path is resolved against the schema once, and followed through a content each time that
  a condition is decided. Following never fails: a link that is null, a property that is
  missing and a container where one value is expected all end in null. In a content that
  conforms to the schema only the first of them happens.

    1. `PropertyKind.compareExact?_eq_none`: values of one orderable family compare, unless one of
       them is null or no number.
    2. `Snapshot.Arrives` and `Snapshot.Breaks`: the links of a path lead to an object, or
       one of them is null. `arrives_or_breaks` is the induction along the path.
    3. `Reference.Orders.checked`: what the builders of a condition have checked.
    4. `Reference.resolve_sound` is the result.
-/

namespace ObjectStore

/-! ## Values that compare -/

namespace PropertyKind

variable {k : PropertyKind} {v w : Value}

theorem family?_of_accepts (h : k.accepts v = true) (hk : k.family ≠ .any) :
    v.Void ∨ v.family? = some k.family := by
  cases hf : v.family? with
  | none => exact .inl (Value.family?_eq_none.mp hf)
  | some f =>
    rw [accepts, hf] at h
    simp only [Bool.or_eq_true, beq_iff_eq] at h
    rcases h with h | h
    · exact absurd h hk
    · exact .inr (congrArg some h)

theorem Holds.family? (h : k.Holds v) (hk : k.family ≠ .any) :
    v.Void ∨ v.family? = some k.family := by
  rcases h with h | ⟨rfl, -⟩
  · exact family?_of_accepts h hk
  · exact .inl (.inl rfl)

/-- A value that a property holds and a literal that its kind accepts compare, unless there is
null or something that is no number. -/
theorem compareExact?_eq_none (hk : k.family ≠ .any) (hv : k.Holds v) (hw : k.accepts w = true) :
    v.compareExact? w = none ↔ v.Void ∨ w.Void ∨ v.isNaN = true ∨ w.isNaN = true := by
  rcases hv.family? hk with hvoid | hfv
  · exact iff_of_true (Value.compareExact?_of_void (.inl hvoid)) (.inl hvoid)
  · rcases family?_of_accepts hw hk with hvoid | hfw
    · exact iff_of_true (Value.compareExact?_of_void (.inr hvoid)) (.inr (.inl hvoid))
    · rw [Value.compareExact?_of_family hfv hfw hk]
      have hproper {u : Value} (hu : u.family? = some k.family) : ¬u.Void := by
        intro hvoid
        rw [Value.family?_eq_none.mpr hvoid] at hu
        cases hu
      simp only [hproper hfv, hproper hfw, false_or]

end PropertyKind

/-! ## Objects along a path -/

/-- What a field gives to a path that ends at it. -/
def Field.reached : Field → Reached
  | .value v => .scalar v
  | .list es => .elements es
  | .set es => .elements es

namespace Field.Fits

variable {s : Snapshot} {k : PropertyKind} {f : Field}

theorem reached_value (h : f.Fits s k) (hk : k.isContainer = false) :
    ∃ v, f.reached = .scalar v ∧ k.Holds v := by
  cases f with
  | value v => exact ⟨v, rfl, h.2.1⟩
  | list es =>
    rw [PropertyKind.isContainer, h.1] at hk
    cases hk
  | set es =>
    rw [PropertyKind.isContainer, h.1] at hk
    cases hk

theorem reached_elements (h : f.Fits s k) (hk : k.isContainer = true) :
    ∃ es, f.elements? = some es ∧ f.reached = .elements es ∧
      ∀ x ∈ es, k.element.accepts x.value = true := by
  cases f with
  | value v =>
    rw [PropertyKind.isContainer, h.1] at hk
    cases hk
  | list es => exact ⟨es, rfl, rfl, fun x hx => (h.2 x hx).1⟩
  | set es => exact ⟨es, rfl, rfl, fun x hx => (h.2 x hx).1⟩

end Field.Fits

namespace Snapshot

/-- The links of a path lead from an object to the owner of its last property. -/
inductive Arrives (s : Snapshot) : Entity → List String → Entity → String → Prop
  | last (e : Entity) (name : String) : Arrives s e [name] e name
  | link {e e' owner : Entity} {name next last : String} {rest : List String} {v : Value}
    (hv : e.field? name = some (.value v)) (hlink : v.asObject.bind s.entity? = some e')
    (h : Arrives s e' (next :: rest) owner last) : Arrives s e (name :: next :: rest) owner last

/-- A link on the way of a path is null. -/
inductive Breaks (s : Snapshot) : Entity → List String → Prop
  | null {e : Entity} {name next : String} {rest : List String} {v : Value}
    (hv : e.field? name = some (.value v)) (hnull : v.Void) : Breaks s e (name :: next :: rest)
  | link {e e' : Entity} {name next : String} {rest : List String} {v : Value}
    (hv : e.field? name = some (.value v)) (hlink : v.asObject.bind s.entity? = some e')
    (h : Breaks s e' (next :: rest)) : Breaks s e (name :: next :: rest)

variable {s : Snapshot} {e owner : Entity} {last : String} {segments : List String} {v : Value}

theorem reach_of_arrives (h : s.Arrives e segments owner last)
    (hv : v.asObject.bind s.entity? = some e) {f : Field} (hf : owner.field? last = some f) :
    s.reach v segments = f.reached := by
  induction h generalizing v with
  | last e name =>
    simp only [reach, hv, hf]
    cases f <;> rfl
  | link hw hlink _ ih =>
    rw [reach, hv]
    simp only [hw]
    exact ih hlink hf

theorem reach_of_breaks (h : s.Breaks e segments) (hv : v.asObject.bind s.entity? = some e) :
    s.reach v segments = .scalar .null := by
  induction h generalizing v with
  | null hw hnull =>
    rw [reach, hv]
    simp only [hw, reach]
    rcases hnull with rfl | rfl <;> rfl
  | link hw hlink _ ih =>
    rw [reach, hv]
    simp only [hw]
    exact ih hlink

end Snapshot

/-! ## Paths through the classes of a schema -/

/-- Links to one object may be null, as links are declared. -/
def Schema.LinksOptional (schema : Schema) : Prop :=
  ∀ c ∈ schema.classes, ∀ p ∈ c.properties,
    p.kind.target ≠ none → p.kind.container = none → p.kind.optional = true

instance (schema : Schema) : Decidable schema.LinksOptional :=
  inferInstanceAs (Decidable (∀ c ∈ schema.classes, ∀ p ∈ c.properties,
    p.kind.target ≠ none → p.kind.container = none → p.kind.optional = true))

namespace Schema

variable {schema : Schema} {className name : String} {p : Property}

theorem mem_of_property (h : schema.property className name = .ok p) :
    ∃ c ∈ schema.classes, schema.find className = .ok c ∧ p ∈ c.properties := by
  unfold property at h
  split at h
  · rename_i c hc
    have hmem : c ∈ schema.classes := by
      unfold find at hc
      split at hc
      · rename_i d hd
        cases hc
        exact List.mem_of_find?_eq_some hd
      · cases hc
    exact ⟨c, hmem, hc, List.mem_of_find?_eq_some (ClassSchema.property_eq_ok h)⟩
  · cases h

end Schema

theorem Value.asObject_of_family {v : Value} (h : v.family? = some .object) :
    ∃ key, v.asObject = some key := by
  cases v with
  | object key => exact ⟨key, rfl⟩
  | wrapped u =>
    cases u with
    | object key => exact ⟨key, rfl⟩
    | _ => cases h
  | _ => cases h

namespace Reference

theorem linkTarget_eq_ok {segment target : String} {k : PropertyKind}
    (h : linkTarget segment k = .ok target) : k.target = some target ∧ k.container = none := by
  unfold linkTarget at h
  split at h
  · rename_i t ht hcontainer
    cases h
    exact ⟨ht, hcontainer⟩
  · cases h

theorem optional_of_follow {schema : Schema} {className : String} {segments : List String}
    {k : PropertyKind} (h : follow schema className true segments = .ok k)
    (hk : k.isContainer = false) : k.optional = true := by
  induction segments generalizing className with
  | nil => cases h
  | cons name rest ih =>
    cases rest with
    | nil =>
      rw [follow] at h
      split at h
      · cases h
      · split at h
        · cases h
          rfl
        · rename_i hcontainer
          cases h
          rw [hk] at hcontainer
          exact absurd rfl hcontainer
    | cons next rest =>
      rw [follow] at h
      · split at h
        · cases h
        · split at h
          · cases h
          · exact ih h
      · exact nofun

variable {schema : Schema} {s : Snapshot}

theorem link_of_property (hs : schema.validate = .ok ()) (ho : schema.LinksOptional)
    (hc : s.Conforming schema) {e : Entity} (he : e ∈ s.entities) {name target : String}
    {p : Property} (hp : schema.property e.className name = .ok p)
    (ht : linkTarget name p.kind = .ok target) :
    ∃ v, e.field? name = some (.value v) ∧ p.kind.optional = true ∧
      (v.Void ∨ ∃ e' ∈ s.entities, v.asObject.bind s.entity? = some e' ∧
        e'.className = target) := by
  obtain ⟨htarget, hcontainer⟩ := linkTarget_eq_ok ht
  obtain ⟨c, hmem, hfind, hpc⟩ := Schema.mem_of_property hp
  have hobject := (Schema.sound_of_find hs hfind).targets p hpc target htarget
  have hoptional : p.kind.optional = true :=
    ho c hmem p hpc (by rw [htarget]; exact nofun) hcontainer
  obtain ⟨f, hf, hfits⟩ := (hc.entities e he).field? hp
  cases f with
  | value v =>
    obtain ⟨-, hholds, hleads⟩ := hfits
    refine ⟨v, hf, hoptional, ?_⟩
    rcases hholds.family? (by rw [hobject]; exact nofun) with hvoid | hfamily
    · exact .inl hvoid
    · rw [hobject] at hfamily
      obtain ⟨key, hkey⟩ := Value.asObject_of_family hfamily
      obtain ⟨e', he', hclass⟩ := Option.map_eq_some_iff.mp (hleads key target hkey htarget)
      exact .inr ⟨e', Snapshot.mem_of_entity? he', by rw [hkey]; exact he', hclass⟩
  | list es => cases hcontainer.symm.trans hfits.1
  | set es => cases hcontainer.symm.trans hfits.1

/-- A path that the schema allows arrives at a property whose content fits the kind of the
path, or breaks at a link that is null. -/
theorem arrives_or_breaks (hs : schema.validate = .ok ()) (ho : schema.LinksOptional)
    (hc : s.Conforming schema) {e : Entity} (he : e ∈ s.entities) {optional : Bool}
    {segments : List String} {k : PropertyKind}
    (h : follow schema e.className optional segments = .ok k) :
    (∃ owner last f p, s.Arrives e segments owner last ∧ owner.field? last = some f ∧
        f.Fits s p ∧ (k = p ∨ k = p.nullable ∧ p.isContainer = false)) ∨
      s.Breaks e segments ∧ (k.isContainer = false → k.optional = true) := by
  induction segments generalizing e optional with
  | nil => cases h
  | cons name rest ih =>
    cases rest with
    | nil =>
      rw [follow] at h
      split at h
      · cases h
      · rename_i p hp
        obtain ⟨f, hf, hfits⟩ := (hc.entities e he).field? hp
        refine .inl ⟨e, name, f, p.kind, .last e name, hf, hfits, ?_⟩
        split at h
        · rename_i hboth
          cases h
          simp only [Bool.and_eq_true, Bool.not_eq_true'] at hboth
          exact .inr ⟨rfl, hboth.2⟩
        · cases h
          exact .inl rfl
    | cons next rest =>
      rw [follow] at h
      · split at h
        · cases h
        · rename_i p hp
          split at h
          · cases h
          · rename_i target htarget
            obtain ⟨v, hv, hoptional, hvoid | ⟨e', he', hlink, hclass⟩⟩ :=
              link_of_property hs ho hc he hp htarget
            · rw [hoptional, Bool.or_true] at h
              exact .inr ⟨.null hv hvoid, optional_of_follow h⟩
            -- the rest of the path starts from the object to which the link leads
            · subst hclass
              rcases ih he' h with ⟨owner, last, f, p', harrives, hrest⟩ | ⟨hbreaks, hrest⟩
              · exact .inl ⟨owner, last, f, p', .link hv hlink harrives, hrest⟩
              · exact .inr ⟨.link hv hlink hbreaks, hrest⟩
      · exact nofun

/-! ## What builders check -/

variable {r : Reference} {v : Value}

theorem checkBound_eq_ok (h : r.checkBound v = .ok ()) :
    v.isNull = false ∧ r.kind.accepts v = true := by
  unfold checkBound at h
  split at h
  · cases h
  · rename_i hnull
    split at h
    · cases h
    · rename_i hcheck
      exact ⟨Bool.eq_false_iff.mpr hnull, PropertyKind.accepts_of_check hcheck⟩

theorem requireScalar_eq_ok (h : r.requireScalar = .ok ()) : r.kind.isContainer = false := by
  unfold requireScalar at h
  split at h
  · cases h
  · rename_i hcontainer
    exact Bool.eq_false_iff.mpr hcontainer

/-- A literal of an ordering or a range that the builders accept. -/
inductive Orders (r : Reference) : Value → Prop
  | comparison {op : Comparison} {v : Value} {e : Expr} (heq : op ≠ .eq) (hneq : op ≠ .neq)
    (h : r.compareWith op v = .ok e) : Orders r v
  | lower {b : Bounds} {e : Expr} (h : r.containsRange b = .ok e) : Orders r b.lo
  | upper {b : Bounds} {e : Expr} (h : r.containsRange b = .ok e) : Orders r b.hi

theorem Orders.checked (h : r.Orders v) :
    r.kind.isContainer = false ∧ v.isNull = false ∧ r.kind.accepts v = true := by
  have hrange {b : Bounds} {e : Expr} (h : r.containsRange b = .ok e) :
      r.kind.isContainer = false ∧ r.checkBound b.lo = .ok () ∧ r.checkBound b.hi = .ok () := by
    obtain ⟨_, hscalar, h⟩ := ok_of_bind h
    obtain ⟨_, -, h⟩ := ok_of_bind h
    obtain ⟨_, hbounds, -⟩ := ok_of_bind h
    obtain ⟨_, hlo, hbounds⟩ := ok_of_bind hbounds
    obtain ⟨_, hhi, -⟩ := ok_of_bind hbounds
    exact ⟨requireScalar_eq_ok hscalar, hlo, hhi⟩
  cases h with
  | @comparison op _ e heq hneq h =>
    obtain ⟨_, hscalar, h⟩ := ok_of_bind h
    refine ⟨requireScalar_eq_ok hscalar, checkBound_eq_ok ?_⟩
    cases op with
    | eq => exact absurd rfl heq
    | neq => exact absurd rfl hneq
    | lt | lte | gt | gte =>
      dsimp only at h
      obtain ⟨_, -, h⟩ := ok_of_bind h
      obtain ⟨_, hbound, -⟩ := ok_of_bind h
      exact hbound
  | lower h => exact ⟨(hrange h).1, checkBound_eq_ok (hrange h).2.1⟩
  | upper h => exact ⟨(hrange h).1, checkBound_eq_ok (hrange h).2.2⟩

/-! ## The result -/

/-- What a path of a kind reaches from an object. -/
structure Sound (r : Reference) (s : Snapshot) (e : Entity) : Prop where
  /-- One value, if the kind is no container, and one that the kind allows. -/
  scalar : r.kind.isContainer = false →
    ∃ v, s.reach (.object e.key) r.path.segments = .scalar v ∧ r.kind.Holds v
  /-- The stored elements of the container at which the path arrives, if it does. -/
  elements : r.kind.isContainer = true → ¬s.Breaks e r.path.segments →
    ∃ owner last es, s.Arrives e r.path.segments owner last ∧ owner.elements? last = some es ∧
      s.reach (.object e.key) r.path.segments = .elements es ∧
      ∀ x ∈ es, r.kind.element.accepts x.value = true
  /-- Of a container, null exactly if the path does not arrive. -/
  null : r.kind.isContainer = true →
    (s.reach (.object e.key) r.path.segments = .scalar .null ↔ s.Breaks e r.path.segments)
  /-- With a literal of an ordering or a range, what is reached compares, unless one of the
  two is null, with or without a wrapper, or no number. -/
  compares : r.kind.family ≠ .any → ∀ literal, r.Orders literal →
    let row := (s.reach (.object e.key) r.path.segments).value
    row.compareExact? literal = none ↔
      row.Void ∨ literal = .wrapped .null ∨ row.isNaN = true ∨ literal.isNaN = true

theorem holds_nullable {k : PropertyKind} (h : k.Holds v) : k.nullable.Holds v := by
  rcases h with h | h
  · refine .inl ?_
    rw [PropertyKind.accepts] at h ⊢
    split
    · rfl
    · rename_i f hf
      rw [hf] at h
      exact h
  · exact .inr h

/-- In a content that conforms to a valid schema whose links to one object may be null, every
path that the schema allows reaches, from every object of its class, what its kind says. -/
theorem resolve_sound (hs : schema.validate = .ok ()) (ho : schema.LinksOptional)
    (hc : s.Conforming schema) {e : Entity} (he : e ∈ s.entities) {segments : List String}
    (hr : Reference.resolve schema e.className segments = .ok r) : r.Sound s e := by
  obtain ⟨k, hfollow, rfl⟩ : ∃ k, follow schema e.className false segments = .ok k ∧
      r = ⟨⟨segments⟩, k⟩ := by
    unfold resolve at hr
    split at hr
    · rename_i k hfollow
      cases hr
      exact ⟨k, hfollow, rfl⟩
    · cases hr
  have hlink : (Value.object e.key).asObject.bind s.entity? = some e :=
    hc.keyed.entity?_eq_some.mpr ⟨he, rfl⟩
  have hcases := arrives_or_breaks hs ho hc he hfollow
  -- one value where the kind is no container
  have hscalar : k.isContainer = false →
      ∃ v, s.reach (.object e.key) segments = .scalar v ∧ k.Holds v := by
    intro hk
    rcases hcases with ⟨owner, last, f, p, harrives, hf, hfits, hkind⟩ | ⟨hbreaks, hoptional⟩
    · rw [Snapshot.reach_of_arrives harrives hlink hf]
      rcases hkind with rfl | ⟨rfl, hp⟩
      · exact hfits.reached_value hk
      · obtain ⟨v, hv, hholds⟩ := hfits.reached_value hp
        exact ⟨v, hv, holds_nullable hholds⟩
    · exact ⟨.null, Snapshot.reach_of_breaks hbreaks hlink, .inl (hoptional hk)⟩
  -- elements where it is one, unless the path breaks
  have helements : k.isContainer = true → ¬s.Breaks e segments →
      ∃ owner last es, s.Arrives e segments owner last ∧ owner.elements? last = some es ∧
        s.reach (.object e.key) segments = .elements es ∧
        ∀ x ∈ es, k.element.accepts x.value = true := by
    intro hk hwhole
    rcases hcases with ⟨owner, last, f, p, harrives, hf, hfits, rfl | ⟨rfl, hp⟩⟩ | ⟨hbreaks, -⟩
    · obtain ⟨es, hes, hreached, haccepts⟩ := hfits.reached_elements hk
      refine ⟨owner, last, es, harrives, ?_, ?_, haccepts⟩
      · rw [Entity.elements?, hf, Option.bind_some, hes]
      · rw [Snapshot.reach_of_arrives harrives hlink hf, hreached]
    · rw [show p.nullable.isContainer = p.isContainer from rfl, hp] at hk
      cases hk
    · exact absurd hbreaks hwhole
  refine ⟨hscalar, helements, fun hk => ⟨fun hnull => ?_, fun hbreaks => ?_⟩,
    fun hany literal horders => ?_⟩
  · by_contra hwhole
    obtain ⟨-, -, es, -, -, hreach, -⟩ := helements hk hwhole
    cases hnull.symm.trans hreach
  · exact Snapshot.reach_of_breaks hbreaks hlink
  · obtain ⟨hk, hnotnull, haccepts⟩ := horders.checked
    obtain ⟨v, hreach, hholds⟩ := hscalar hk
    have hvoid : literal.Void ↔ literal = .wrapped .null := by
      refine ⟨fun h => ?_, .inr⟩
      rcases h with rfl | h
      · cases hnotnull
      · exact h
    simp only [hreach, Reached.value, PropertyKind.compareExact?_eq_none hany hholds haccepts,
      hvoid]

/-! ## Dogs and their owners -/

/-- Dogs with an owner, who has an age. -/
def kennel : Schema :=
  ⟨[⟨"Dog", [⟨"owner", .link "Person"⟩]⟩, ⟨"Person", [⟨"age", .scalar .integer⟩]⟩]⟩

def rex : Entity := ⟨⟨2⟩, "Dog", [("owner", .value (.object ⟨1⟩))], 1⟩

/-- The owner, the dog, and a dog without an owner. -/
def kennelled : Snapshot :=
  ⟨1, [⟨⟨1⟩, "Person", [("age", .value (.int64 30))], 1⟩, rex,
    ⟨⟨3⟩, "Dog", [("owner", .value .null)], 1⟩], 3, 0⟩

/-- The age of the owner of a dog, null if there is none. -/
def ownerAge : Reference := ⟨⟨["owner", "age"]⟩, .maybe .integer⟩

theorem conforming_kennelled : kennelled.Conforming kennel := by
  refine ⟨⟨by decide, by decide⟩, fun e he => ?_⟩
  rcases List.mem_cons.mp he with rfl | he
  · exact ⟨_, rfl, .cons ⟨rfl, rfl, .inl rfl, fun _ _ h => by cases h⟩ .nil⟩
  rcases List.mem_cons.mp he with rfl | he
  · refine ⟨_, rfl, .cons ⟨rfl, rfl, .inl rfl, fun key target hkey htarget => ?_⟩ .nil⟩
    cases hkey
    cases htarget
    rfl
  · obtain rfl := List.mem_singleton.mp he
    exact ⟨_, rfl, .cons ⟨rfl, rfl, .inl rfl, fun _ _ h => by cases h⟩ .nil⟩

/-- The age of the owner is reached, and compares. -/
theorem rex_is_sound :
    kennel.validate = .ok () ∧ kennel.LinksOptional ∧ kennelled.Conforming kennel ∧
      rex ∈ kennelled.entities ∧ resolve kennel "Dog" ["owner", "age"] = .ok ownerAge ∧
      kennelled.reach (.object rex.key) ["owner", "age"] = .scalar (.int64 30) ∧
      ownerAge.Sound kennelled rex := by
  have hlinks : kennel.LinksOptional := by decide
  have hrex : rex ∈ kennelled.entities := List.mem_cons_of_mem _ List.mem_cons_self
  have hresolve : resolve kennel rex.className ["owner", "age"] = .ok ownerAge := rfl
  exact ⟨rfl, hlinks, conforming_kennelled, hrex, hresolve, rfl,
    resolve_sound rfl hlinks conforming_kennelled hrex hresolve⟩

/-- Null in a wrapper is accepted as a bound of a kind that may be null, and nothing compares
with it, although what is reached is there and no number is missing. -/
theorem nothing_compares_with_wrapped_null :
    kennel.validate = .ok () ∧ kennel.LinksOptional ∧ kennelled.Conforming kennel ∧
      rex ∈ kennelled.entities ∧ resolve kennel "Dog" ["owner", "age"] = .ok ownerAge ∧
      ownerAge.kind.family ≠ .any ∧ ownerAge.Orders (.wrapped .null) ∧
      kennelled.reach (.object rex.key) ["owner", "age"] = .scalar (.int64 30) ∧
      (Value.int64 30).compareExact? (.wrapped .null) = none ∧
      (Value.int64 30).isNull = false ∧ (Value.int64 30).isNaN = false ∧
      (Value.wrapped .null).isNaN = false := by
  have horders : ownerAge.compareWith .lt (.wrapped .null) =
      .ok (.comparison .lt ownerAge.path (.wrapped .null)) := rfl
  exact ⟨rfl, by decide, conforming_kennelled, List.mem_cons_of_mem _ List.mem_cons_self, rfl,
    by decide, .comparison (by decide) (by decide) horders, rfl, rfl, rfl, rfl, rfl⟩

end Reference

end ObjectStore
