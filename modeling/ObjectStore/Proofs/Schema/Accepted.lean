import Mathlib.Data.List.Nodup
import ObjectStore.Container.Edit
import ObjectStore.Schema.Classes

/-
  What a valid schema and the check of a value guarantee.

    1. `Schema.sound_of_find`: in a valid schema no class declares a property twice,
       and only links have a target. `Schema.named_of_property`: its properties have
       proper names.
    2. `PropertyKind.accepts_normalize`: the stored form of a single value is accepted
       exactly if the value is.
    3. `PropertyKind.accepts_unwrap`: an element is stored without its wrapper, which
       is accepted if the element is, but for one value that is no proper one
       (`PropertyKind.Overwrapped`).
-/

namespace ObjectStore

theorem ok_of_bind {α β : Type} {x : Except Error α} {f : α → Except Error β} {b : β}
    (h : x >>= f = .ok b) : ∃ a, x = .ok a ∧ f a = .ok b := by
  cases x with
  | error e => cases h
  | ok a => exact ⟨a, rfl, h⟩

/-! ## Valid schemas -/

/-- A kind that has a target is one of links. -/
def PropertyKind.TargetsLinks (k : PropertyKind) : Prop :=
  ∀ target, k.target = some target → k.family = .object

/-- No property is declared twice, and only links have a target. -/
structure ClassSchema.Sound (c : ClassSchema) : Prop where
  distinct : (c.properties.map (·.name)).Nodup
  targets : ∀ p ∈ c.properties, p.kind.TargetsLinks

namespace Schema

theorem targetsLinks_of_checkTarget {schema : Schema} {className : String} {p : Property}
    (h : schema.checkTarget className p = .ok ()) : p.kind.TargetsLinks := by
  intro target ht
  unfold checkTarget at h
  rw [ht] at h
  split at h
  · assumption
  · cases h
  · cases h
  · simp_all

theorem sound_of_checkProperties {schema : Schema} {className : String} {seen : List String}
    {ps : List Property} (h : schema.checkProperties className seen ps = .ok ()) :
    (ps.map (·.name)).Nodup ∧ (∀ p ∈ ps, p.name ∉ seen) ∧ ∀ p ∈ ps, p.kind.TargetsLinks := by
  induction ps generalizing seen with
  | nil =>
    refine ⟨List.nodup_nil, ?_, ?_⟩
    · intro p hp
      cases hp
    · intro p hp
      cases hp
  | cons p ps ih =>
    rw [checkProperties] at h
    split at h
    · cases h
    · split at h
      · cases h
      -- the name is new among those before it, which the rest is checked against
      · rename_i hseen
        split at h
        · cases h
        · rename_i htarget
          obtain ⟨hnodup, hnew, htargets⟩ := ih h
          have hp : p.name ∉ seen := by simpa using hseen
          refine ⟨?_, fun q hq => ?_, fun q hq => ?_⟩
          · rw [List.map_cons, List.nodup_cons]
            refine ⟨fun hmem => ?_, hnodup⟩
            obtain ⟨q, hq, hname⟩ := List.mem_map.mp hmem
            exact hnew q hq (by rw [hname]; exact List.mem_cons_self)
          · rcases List.mem_cons.mp hq with rfl | hq
            · exact hp
            · exact fun hmem => hnew q hq (List.mem_cons_of_mem _ hmem)
          · rcases List.mem_cons.mp hq with rfl | hq
            · exact targetsLinks_of_checkTarget htarget
            · exact htargets q hq

theorem named_of_checkProperties {schema : Schema} {className : String} {seen : List String}
    {ps : List Property} (h : schema.checkProperties className seen ps = .ok ()) :
    ∀ p ∈ ps, isIdentifier p.name = true ∧ p.name ≠ "self" := by
  induction ps generalizing seen with
  | nil =>
    intro p hp
    cases hp
  | cons p ps ih =>
    rw [checkProperties] at h
    split at h
    · cases h
    · rename_i hname
      split at h
      · cases h
      · split at h
        · cases h
        · intro q hq
          rcases List.mem_cons.mp hq with rfl | hq
          · simpa using hname
          · exact ih h q hq

theorem checkProperties_of_checkClasses {schema : Schema} {cs : List ClassSchema}
    (h : schema.checkClasses cs = .ok ()) :
    ∀ c ∈ cs, schema.checkProperties c.name [] c.properties = .ok () := by
  induction cs with
  | nil =>
    intro c hc
    cases hc
  | cons d ds ih =>
    rw [checkClasses] at h
    split at h
    · cases h
    · split at h
      · cases h
      · rename_i hd
        intro c hc
        rcases List.mem_cons.mp hc with rfl | hc
        · exact hd
        · exact ih h c hc

theorem name_of_find {schema : Schema} {name : String} {c : ClassSchema}
    (h : schema.find name = .ok c) : c.name = name := by
  unfold find at h
  split at h
  · rename_i d hd
    cases h
    simpa using List.find?_some hd
  · cases h

theorem checkProperties_of_find {schema : Schema} (hs : schema.validate = .ok ()) {name : String}
    {c : ClassSchema} (h : schema.find name = .ok c) :
    schema.checkProperties c.name [] c.properties = .ok () := by
  unfold find at h
  split at h
  · rename_i d hd
    cases h
    exact checkProperties_of_checkClasses hs c (List.mem_of_find?_eq_some hd)
  · cases h

/-- A class of a valid schema is sound. -/
theorem sound_of_find {schema : Schema} (hs : schema.validate = .ok ()) {name : String}
    {c : ClassSchema} (h : schema.find name = .ok c) : c.Sound := by
  obtain ⟨hnodup, -, htargets⟩ := sound_of_checkProperties (checkProperties_of_find hs h)
  exact ⟨hnodup, htargets⟩

end Schema

namespace ClassSchema

theorem property_eq_ok {c : ClassSchema} {name : String} {p : Property}
    (h : c.property name = .ok p) : c.properties.find? (·.name == name) = some p := by
  unfold property at h
  split at h
  · cases h
    assumption
  · cases h

theorem Sound.eq_of_name_eq {c : ClassSchema} (hc : c.Sound) {p q : Property}
    (hp : p ∈ c.properties) (hq : q ∈ c.properties) (h : p.name = q.name) : p = q :=
  List.inj_on_of_nodup_map hc.distinct hp hq h

end ClassSchema

/-- Where a valid schema has a property, its name is a proper one. -/
theorem Schema.named_of_property {schema : Schema} (hs : schema.validate = .ok ())
    {className name : String} {p : Property} (h : schema.property className name = .ok p) :
    isIdentifier name = true ∧ name ≠ "self" := by
  unfold property at h
  split at h
  · rename_i c hc
    have hfind := ClassSchema.property_eq_ok h
    have hname : p.name = name := by simpa using List.find?_some hfind
    rw [← hname]
    exact named_of_checkProperties (checkProperties_of_find hs hc) p
      (List.mem_of_find?_eq_some hfind)
  · cases h

/-! ## Accepted values -/

namespace Value

@[simp] theorem family?_any (v : Value) : v.any.family? = v.family? := by
  cases v <;> rfl

@[simp] theorem asObject_any (v : Value) : v.any.asObject = v.asObject := by
  cases v <;> rfl

theorem family?_of_asObject {v : Value} {key : ObjectKey} (h : v.asObject = some key) :
    v.family? = some .object := by
  unfold asObject at h
  unfold family?
  split at h
  · rename_i hu
    rw [hu]
  · cases h

end Value

namespace PropertyKind

@[simp] theorem accepts_normalize (k : PropertyKind) (v : Value) :
    k.accepts (k.normalize v) = k.accepts v := by
  unfold normalize
  split <;> simp only [accepts, Value.family?_any]

@[simp] theorem asObject_normalize (k : PropertyKind) (v : Value) :
    (k.normalize v).asObject = v.asObject := by
  unfold normalize
  split <;> simp only [Value.asObject_any]

theorem accepts_of_check {k : PropertyKind} {v : Value} (h : k.check v = .ok ()) :
    k.accepts v = true := by
  unfold check at h
  split at h
  · assumption
  · cases h

theorem family_of_accepts_object {k : PropertyKind} {v : Value} {key : ObjectKey}
    (h : k.accepts v = true) (ho : v.asObject = some key) :
    k.family = .object ∨ k.family = .any := by
  rw [accepts, Value.family?_of_asObject ho] at h
  simp only [Bool.or_eq_true, beq_iff_eq] at h
  rcases h with h | h
  · exact .inr h
  · exact .inl h.symm

/-- Null in a wrapper in a wrapper, as an element of a kind that accepts every family
but not null. A wrapper is meant to hold neither null nor another wrapper. -/
def Overwrapped (k : PropertyKind) (v : Value) : Prop :=
  k.family = .any ∧ k.optional = false ∧ v = .wrapped (.wrapped .null)

/-- What is inside of an accepted wrapper is accepted too. -/
theorem accepts_unwrap {k : PropertyKind} {v : Value} (h : k.accepts v = true)
    (hv : ¬k.Overwrapped v) : k.accepts v.unwrap = true := by
  cases v with
  | wrapped u =>
    cases u with
    | wrapped z =>
      -- the family of a wrapper in a wrapper is `any`, which only the kind `any` accepts
      have hany : k.family = .any := by
        simp only [accepts, Value.family?, Value.unwrap, Bool.or_eq_true, beq_iff_eq] at h
        rcases h with h | h
        · exact h
        · exact h.symm
      cases z with
      | null =>
        cases ho : k.optional with
        | true => exact ho
        | false => exact absurd ⟨hany, ho, rfl⟩ hv
      | _ => simp only [accepts, Value.family?, Value.unwrap, hany, beq_self_eq_true, Bool.true_or]
    | _ => exact h
  | _ => exact h

theorem asObject_unwrap {k : PropertyKind} {v : Value} (h : k.accepts v = true)
    (hk : k.family = .object) : v.unwrap.asObject = v.asObject := by
  cases v with
  | wrapped u =>
    cases u with
    | wrapped z =>
      simp only [accepts, Value.family?, Value.unwrap, hk] at h
      cases h
    | _ => rfl
  | _ => rfl

end PropertyKind

end ObjectStore
