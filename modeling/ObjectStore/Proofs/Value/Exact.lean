import ObjectStore.Filter.Meaning
import ObjectStore.Proofs.Value.Order

/-
  The exact comparison beside the canonical one.

  Conditions are decided by the exact comparison, which is defined within one family and
  not at a NaN. Sets and extremes go by the canonical one, which is total. The two agree
  wherever the exact one is defined, except at the two zeros: they are equal as numbers, and
  as patterns the negative one comes first. A NaN has its place among the patterns, behind
  or before all numbers, and equals no value exactly, not even itself.

    1. `Value.compareExact?_of_family`: values of one family compare, unless one of them is
       no number.
    2. `Value.compareExact?_eq_canonicalCompare` and `Value.compareExact?_of_floats`: the
       exact comparison of well-formed values, the floats apart.
    3. `Value.exactEq_iff`: exact equality is canonical equality, but for NaNs and zeros.
    4. `Value.isNaN_congr`, `Value.asObject_congr` and `Value.asInt_congr`: what values share that
       are equal in the canonical order.
    5. `Value.within_of_between`: what lies between two values of a range is in the range.
-/

namespace ObjectStore

open Number

/-! ## Numbers along their patterns -/

namespace Number.Double

variable {x y z : Double}

theorem bits_eq (x : Double) :
    x.bits.toNat = x.magnitude + if x.isNegative then Nat.pow 2 63 else 0 := by
  have hlt := x.bits.toNat_lt
  simp only [magnitude, isNegative, Nat.pow_eq, decide_eq_true_eq] at *
  split <;> omega

theorem eq_of_patternKey_eq (h : x.patternKey = y.patternKey) : x = y := by
  have hbits : x.bits.toNat = y.bits.toNat := by
    rw [bits_eq x, bits_eq y]
    simp only [patternKey] at h
    cases hx : x.isNegative <;> cases hy : y.isNegative <;>
      simp only [hx, hy, Bool.false_eq_true, if_true, if_false] at h ⊢ <;> omega
  cases x
  cases y
  exact congrArg Double.mk (UInt64.toNat_inj.mp hbits)

theorem valueKey_le_of_patternKey_le (h : x.patternKey ≤ y.patternKey) :
    x.valueKey ≤ y.valueKey := by
  simp only [patternKey, valueKey] at h ⊢
  cases hx : x.isNegative <;> cases hy : y.isNegative <;>
    simp only [hx, hy, Bool.false_eq_true, if_true, if_false] at h ⊢ <;> omega

theorem isNaN_of_between (hx : x.isNaN = false) (hz : z.isNaN = false)
    (hxy : x.patternKey ≤ y.patternKey) (hyz : y.patternKey ≤ z.patternKey) : y.isNaN = false := by
  simp only [isNaN, decide_eq_false_iff_not, Nat.not_lt] at hx hz ⊢
  simp only [patternKey] at hxy hyz
  cases hy : y.isNegative
  -- a positive pattern is bounded from above, a negative one from below
  · simp only [hy, Bool.false_eq_true, if_false] at hyz
    split at hyz <;> omega
  · simp only [hy, if_true] at hxy
    split at hxy <;> omega

def OppositeZeros (x y : Double) : Prop :=
  x.magnitude = 0 ∧ y.magnitude = 0 ∧ x.isNegative ≠ y.isNegative

instance (x y : Double) : Decidable (OppositeZeros x y) :=
  inferInstanceAs (Decidable (_ ∧ _ ∧ _))

/-- Numbers of one value have one pattern, unless they are the two zeros. -/
theorem valueKey_eq_iff :
    x.valueKey = y.valueKey ↔ x.patternKey = y.patternKey ∨ OppositeZeros x y := by
  simp only [valueKey, patternKey, OppositeZeros]
  cases x.isNegative <;> cases y.isNegative <;> simp <;> omega

theorem compare?_eq_some_eq :
    x.compare? y = some .eq ↔
      x.totalCompare y = .eq ∧ x.isNaN = false ∨ OppositeZeros x y := by
  have hzero {z : Double} (h : z.magnitude = 0) : z.isNaN = false := by
    simp [isNaN, h]
  simp only [compare?, totalCompare, compare_eq_iff_eq]
  split
  · rename_i hnan
    rw [Bool.or_eq_true] at hnan
    refine iff_of_false nofun ?_
    rintro (⟨hkey, hx⟩ | ⟨hx, hy, -⟩)
    · obtain rfl := eq_of_patternKey_eq hkey
      simp [hx] at hnan
    · simp [hzero hx, hzero hy] at hnan
  · rename_i hnan
    simp only [Bool.or_eq_true, not_or, Bool.not_eq_true] at hnan
    simp only [Option.some.injEq, compare_eq_iff_eq, valueKey_eq_iff, hnan.1, and_true]

end Number.Double

/-! ## Values that compare -/

namespace Value

/-- Null, or null in a wrapper, which is no proper value. -/
def Void (v : Value) : Prop := v = .null ∨ v = .wrapped .null

def isNaN (v : Value) : Bool := v.asDouble.any Number.Double.isNaN

variable {u v w : Value}

theorem family?_eq_none : v.family? = none ↔ v.Void := by
  constructor
  · intro h
    cases v with
    | null => exact .inl rfl
    | wrapped u =>
      cases u with
      | null => exact .inr rfl
      | _ => cases h
    | _ => cases h
  · rintro (rfl | rfl) <;> rfl

theorem unwrap_ne_of_family {f : Family} (h : v.family? = some f) (hf : f ≠ .any) (x : Value) :
    v.unwrap ≠ .wrapped x := by
  intro hx
  rw [family?, hx] at h
  exact hf (Option.some.inj h).symm

/-- Bare values of one family compare, unless one of them is no number. -/
theorem compareExact?_of_bare (hv : ∀ x, v ≠ .wrapped x) (hw : ∀ x, w ≠ .wrapped x)
    (hn : v.family? ≠ none) (h : v.family? = w.family?) :
    v.compareExact? w = none ↔ v.isNaN = true ∨ w.isNaN = true := by
  have hnumbers (x y : Number.Double) :
      x.compare? y = none ↔ x.isNaN = true ∨ y.isNaN = true := by
    rw [Number.Double.compare?, ← Bool.or_eq_true]
    split <;> simp_all
  have hnone {o : Ordering} : (some o = none) ↔ (false = true ∨ false = true) := by simp
  -- values of different kinds are of one family only if they are integers or floats
  cases v <;> cases w <;> first | cases h | exact (hv _ rfl).elim | exact (hw _ rfl).elim
  all_goals first | exact (hn rfl).elim | exact hnumbers _ _ | exact hnone

/-- Values of one proper family compare, unless one of them is no number. -/
theorem compareExact?_of_family {f : Family} (hv : v.family? = some f) (hw : w.family? = some f)
    (hf : f ≠ .any) : v.compareExact? w = none ↔ v.isNaN = true ∨ w.isNaN = true := by
  have hbarev := unwrap_ne_of_family hv hf
  have hbarew := unwrap_ne_of_family hw hf
  have hv' : v.unwrap.family? = v.family? := by rw [family?, unwrap_of_ne hbarev, family?]
  have hw' : w.unwrap.family? = w.family? := by rw [family?, unwrap_of_ne hbarew, family?]
  have hcompare : v.compareExact? w = v.unwrap.compareExact? w.unwrap := by
    simp only [compareExact?, unwrap_of_ne hbarev, unwrap_of_ne hbarew]
  have hnumberv : v.isNaN = v.unwrap.isNaN := by
    simp only [isNaN, asDouble, unwrap_of_ne hbarev]
  have hnumberw : w.isNaN = w.unwrap.isNaN := by
    simp only [isNaN, asDouble, unwrap_of_ne hbarew]
  rw [hcompare, hnumberv, hnumberw]
  refine compareExact?_of_bare hbarev hbarew ?_ ?_
  · rw [hv', hv]
    exact Option.some_ne_none f
  · rw [hv', hv, hw', hw]

theorem compareExact?_of_void (h : v.Void ∨ w.Void) : v.compareExact? w = none := by
  have hnone {u : Value} (hu : u.Void) : u.unwrap.family? = none := by
    rcases hu with rfl | rfl <;> rfl
  rcases h with h | h
  · simp only [compareExact?, hnone h]
  · simp only [compareExact?, hnone h]
    split <;> first | rfl | contradiction

theorem compareExact?_of_asDouble {y : Double} (h : w.asDouble = some y) (a : Value) :
    (wrapped a).compareExact? (wrapped w) = a.asDouble.bind fun x => x.compare? y := by
  cases w with
  | single x =>
    cases h
    cases a with
    | wrapped b => cases b <;> rfl
    | _ => rfl
  | double x =>
    cases h
    cases a with
    | wrapped b => cases b <;> rfl
    | _ => rfl
  | wrapped v =>
    cases v <;> cases h
    all_goals
      cases a with
      | wrapped b => cases b <;> rfl
      | _ => rfl
  | _ => cases h

/-! ## Well-formed values -/

theorem WellFormed.family?_ne_any (h : v.WellFormed) : v.family? ≠ some .any := by
  cases v with
  | wrapped x =>
    cases x with
    | wrapped y => exact h.elim
    | _ => exact nofun
  | _ => exact nofun

theorem WellFormed.eq_null (h : v.WellFormed) (hn : v.family? = none) : v = .null := by
  rcases family?_eq_none.mp hn with rfl | rfl
  · rfl
  · exact h.elim

theorem WellFormed.isNull_iff (h : v.WellFormed) : v.isNull = true ↔ v.family? = none := by
  refine ⟨fun hn => ?_, fun hn => by rw [h.eq_null hn]; rfl⟩
  cases v <;> first | rfl | cases hn

theorem WellFormed.family?_unwrap (h : v.WellFormed) : v.unwrap.family? = v.family? := by
  rw [family?, h.unwrap_unwrap, family?]

theorem asDouble_eq_none : v.asDouble = none ↔ v.family? ≠ some .float := by
  rw [asDouble, family?]
  cases v.unwrap <;> simp

theorem exists_asDouble (h : v.family? = some .float) : ∃ x, v.asDouble = some x :=
  Option.ne_none_iff_exists'.mp fun hnone => asDouble_eq_none.mp hnone h

theorem family?_of_asDouble {x : Double} (h : v.asDouble = some x) : v.family? = some .float := by
  by_contra hne
  rw [asDouble_eq_none.mpr hne] at h
  cases h

theorem isNaN_of_family (h : v.family? ≠ some .float) : v.isNaN = false := by
  rw [isNaN, asDouble_eq_none.mpr h]
  rfl

theorem family?_of_compareExact? {o : Ordering} (h : v.compareExact? w = some o) :
    ∃ f, v.unwrap.family? = some f ∧ w.unwrap.family? = some f := by
  unfold compareExact? at h
  dsimp only at h
  split at h
  · rename_i f g hf hg
    split at h
    · cases h
    · rename_i heq
      exact ⟨f, hf, by rw [hg, not_not.mp heq]⟩
  · cases h

/-- Well-formed values of one family that is not that of the floats compare canonically. -/
theorem compareExact?_eq_canonicalCompare (hv : v.WellFormed) (hw : w.WellFormed) {f : Family}
    (hfv : v.family? = some f) (hfw : w.family? = some f) (hf : f ≠ .float) :
    v.compareExact? w = some (v.canonicalCompare w) := by
  have hany : f ≠ .any := fun h => hv.family?_ne_any (by rw [hfv, h])
  have hnumber {x : Value} (hx : x.family? = some f) : x.isNaN = false :=
    isNaN_of_family (by rw [hx]; exact fun h => hf (Option.some.inj h))
  have hsome : v.compareExact? w ≠ none := by
    rw [ne_eq, compareExact?_of_family hfv hfw hany, hnumber hfv, hnumber hfw]
    simp
  have hunwrap : v.unwrap.compareExact? w.unwrap = v.compareExact? w := by
    simp only [compareExact?, hv.unwrap_unwrap, hw.unwrap_unwrap]
  have hcanonical : v.canonicalCompare w = (v.compareExact? w).getD .eq := by
    simp only [canonicalCompare, hv.family?_unwrap, hw.family?_unwrap, hfv, hfw, hf, hunwrap,
      ne_eq, not_true_eq_false, if_false]
  obtain ⟨o, ho⟩ := Option.ne_none_iff_exists'.mp hsome
  rw [hcanonical, ho, Option.getD_some]

section Floats

variable {x y : Double}

theorem WellFormed.asDouble_unwrap (h : v.WellFormed) : v.unwrap.asDouble = v.asDouble := by
  rw [asDouble, h.unwrap_unwrap, asDouble]

theorem compareExact?_of_floats (hv : v.WellFormed) (hw : w.WellFormed)
    (hx : v.asDouble = some x) (hy : w.asDouble = some y) : v.compareExact? w = x.compare? y := by
  have hcompare := compareExact?_of_asDouble (hw.asDouble_unwrap.trans hy) v.unwrap
  rw [hv.asDouble_unwrap, hx] at hcompare
  exact hcompare

theorem canonicalCompare_of_floats (hv : v.WellFormed) (hw : w.WellFormed)
    (hx : v.asDouble = some x) (hy : w.asDouble = some y) :
    v.canonicalCompare w = x.totalCompare y := by
  simp only [canonicalCompare, hv.family?_unwrap, hw.family?_unwrap, family?_of_asDouble hx,
    family?_of_asDouble hy, hv.asDouble_unwrap, hw.asDouble_unwrap, hx, hy, ne_eq,
    not_true_eq_false, if_false, if_true]

end Floats

/-! ## Equality -/

def OppositeZeros (v w : Value) : Prop :=
  ∃ x y, v.asDouble = some x ∧ w.asDouble = some y ∧ Double.OppositeZeros x y

theorem OppositeZeros.family? (h : v.OppositeZeros w) :
    v.family? = some .float ∧ w.family? = some .float := by
  obtain ⟨x, y, hx, hy, -⟩ := h
  exact ⟨family?_of_asDouble hx, family?_of_asDouble hy⟩

theorem canonicalCompare_ne_eq (hv : v.WellFormed) (hw : w.WellFormed)
    (h : v.family? ≠ w.family?) : v.canonicalCompare w ≠ .eq := by
  intro heq
  have hle := rank_le_of_canonicalCompare hv hw (by rw [heq]; exact nofun)
  have hge := rank_le_of_canonicalCompare hw hv (by
    rw [canonicalCompare_swap hv hw, heq]
    exact nofun)
  exact h (family?_eq_of_rank_eq (Nat.le_antisymm hle hge))

theorem compareExact?_of_family_ne (hv : v.WellFormed) (hw : w.WellFormed)
    (h : v.family? ≠ w.family?) : v.compareExact? w = none := by
  by_contra hne
  obtain ⟨o, ho⟩ := Option.ne_none_iff_exists'.mp hne
  obtain ⟨f, hf, hg⟩ := family?_of_compareExact? ho
  exact h (by rw [← hv.family?_unwrap, ← hw.family?_unwrap, hf, hg])

theorem exactEq_of_family_ne (hv : v.WellFormed) (hw : w.WellFormed)
    (h : v.family? ≠ w.family?) : v.exactEq w = false := by
  rw [exactEq]
  split
  · rename_i hvn hwn
    exact absurd ((hv.isNull_iff.mp hvn).trans (hw.isNull_iff.mp hwn).symm) h
  · rw [compareExact?_of_family_ne hv hw h]
    rfl
  · rfl

theorem exactEq_of_family (hv : v.WellFormed) (hw : w.WellFormed) (hn : v.family? ≠ none)
    (h : v.family? = w.family?) : v.exactEq w = true ↔ v.compareExact? w = some .eq := by
  have hvn : v.isNull = false := by
    rw [Bool.eq_false_iff, ne_eq, hv.isNull_iff]
    exact hn
  have hwn : w.isNull = false := by
    rw [Bool.eq_false_iff, ne_eq, hw.isNull_iff, ← h]
    exact hn
  simp only [exactEq, hvn, hwn, beq_iff_eq]

/-- Exact equality is equality in the canonical order, but that no NaN is equal to itself and
that the zeros are equal to each other. -/
theorem exactEq_iff (hv : v.WellFormed) (hw : w.WellFormed) :
    v.exactEq w = true ↔
      v.canonicalCompare w = .eq ∧ v.isNaN = false ∨ v.OppositeZeros w := by
  by_cases hfam : v.family? = w.family?
  · cases hf : v.family? with
    | none =>
      -- both are null
      obtain rfl := hv.eq_null hf
      obtain rfl := hw.eq_null (hfam ▸ hf)
      exact iff_of_true rfl (.inl ⟨rfl, rfl⟩)
    | some f =>
      have hg : w.family? = some f := hfam ▸ hf
      rw [exactEq_of_family hv hw (by rw [hf]; exact nofun) hfam]
      by_cases hfloat : f = .float
      · subst hfloat
        obtain ⟨x, hx⟩ := exists_asDouble hf
        obtain ⟨y, hy⟩ := exists_asDouble hg
        have hnan : v.isNaN = x.isNaN := by simp [isNaN, hx]
        have hzeros : v.OppositeZeros w ↔ Double.OppositeZeros x y := by
          simp [OppositeZeros, hx, hy]
        rw [compareExact?_of_floats hv hw hx hy, canonicalCompare_of_floats hv hw hx hy, hnan,
          hzeros, Double.compare?_eq_some_eq]
      · have hne : v.family? ≠ some .float := by simp [hf, hfloat]
        have hzeros : ¬v.OppositeZeros w := fun h => hne h.family?.1
        simp [compareExact?_eq_canonicalCompare hv hw hf hg hfloat, isNaN_of_family hne, hzeros]
  · have hzeros : ¬v.OppositeZeros w := fun h => hfam (h.family?.1.trans h.family?.2.symm)
    simp [exactEq_of_family_ne hv hw hfam, hzeros, canonicalCompare_ne_eq hv hw hfam]

theorem OppositeZeros.isNaN (h : v.OppositeZeros w) : w.isNaN = false := by
  obtain ⟨x, y, -, hy, -, hzero, -⟩ := h
  simp [Value.isNaN, hy, Double.isNaN, hzero]

theorem OppositeZeros.canonicalCompare_ne (hv : v.WellFormed) (hw : w.WellFormed)
    (h : v.OppositeZeros w) : v.canonicalCompare w ≠ .eq := by
  obtain ⟨x, y, hx, hy, -, -, hsign⟩ := h
  rw [canonicalCompare_of_floats hv hw hx hy, Double.totalCompare, ne_eq, compare_eq_iff_eq]
  intro hkey
  obtain rfl := Double.eq_of_patternKey_eq hkey
  exact hsign rfl

theorem OppositeZeros.unique (hu : u.WellFormed) (hv : v.WellFormed) (h : u.OppositeZeros w)
    (h' : v.OppositeZeros w) : u.canonicalCompare v = .eq := by
  obtain ⟨x, z, hx, hz, hzero, -, hsign⟩ := h
  obtain ⟨y, z', hy, hz', hzero', -, hsign'⟩ := h'
  obtain rfl := Option.some.inj (hz.symm.trans hz')
  rw [canonicalCompare_of_floats hu hv hx hy, Double.totalCompare, compare_eq_iff_eq]
  have hsame : x.isNegative = y.isNegative := by
    cases hnx : x.isNegative <;> cases hny : y.isNegative <;> simp_all
  simp only [Double.patternKey, hzero, hzero', hsame]

theorem family?_congr (hv : v.WellFormed) (hw : w.WellFormed) (h : v.canonicalCompare w = .eq) :
    v.family? = w.family? := by
  by_contra hne
  exact canonicalCompare_ne_eq hv hw hne h

theorem isNaN_congr (hv : v.WellFormed) (hw : w.WellFormed) (h : v.canonicalCompare w = .eq) :
    v.isNaN = w.isNaN := by
  have hfam := family?_congr hv hw h
  by_cases hfloat : v.family? = some .float
  · obtain ⟨x, hx⟩ := exists_asDouble hfloat
    obtain ⟨y, hy⟩ := exists_asDouble (hfam ▸ hfloat)
    rw [canonicalCompare_of_floats hv hw hx hy, Double.totalCompare, compare_eq_iff_eq] at h
    obtain rfl := Double.eq_of_patternKey_eq h
    simp [isNaN, hx, hy]
  · rw [isNaN_of_family hfloat, isNaN_of_family (hfam ▸ hfloat)]

theorem asObject_congr (hv : v.WellFormed) (hw : w.WellFormed) (h : v.canonicalCompare w = .eq) :
    v.asObject = w.asObject := by
  have hfam := family?_congr hv hw h
  have hcases (x : Value) : x.family? = some .object ∧ (∃ k, x.unwrap = .object k) ∨
      x.family? ≠ some .object ∧ x.asObject = none := by
    rw [family?, asObject]
    cases x.unwrap <;> simp
  rcases hcases v with ⟨hobject, k, hk⟩ | ⟨hother, hnone⟩
  · rcases hcases w with ⟨hobject', l, hl⟩ | ⟨hother', -⟩
    · have hcompare := compareExact?_eq_canonicalCompare hv hw hobject hobject' (by decide)
      have hkeys : v.compareExact? w = some (compare k.val l.val) := by
        simp only [compareExact?, hk, hl]
        rfl
      rw [hkeys, h, Option.some.injEq, compare_eq_iff_eq] at hcompare
      cases k
      cases l
      simp_all [asObject]
    · exact absurd (hfam ▸ hobject) hother'
  · rcases hcases w with ⟨hobject', -⟩ | ⟨-, hnone'⟩
    · exact absurd (hfam ▸ hobject') hother
    · rw [hnone, hnone']

theorem asInt_congr (hv : v.WellFormed) (hw : w.WellFormed) (h : v.canonicalCompare w = .eq) :
    v.asInt = w.asInt := by
  have hcases (x : Value) :
      x.asInt = if x.family? = some .integer then some x.measure else none := by
    rw [asInt, family?, measure]
    cases x.unwrap <;> rfl
  have hmeasure : v.measure = w.measure := by
    rw [canonicalCompare_eq hv hw] at h
    simp only [marks, marksWithin, compareLex, compareOn, Ordering.then_eq_eq] at h
    exact compare_eq_iff_eq.mp h.2.1
  rw [hcases v, hcases w, family?_congr hv hw h, hmeasure]

/-! ## Ranges -/

theorem compareExact?_wrapped_wrapped (hv : ∀ x, v ≠ .wrapped x) (hw : ∀ x, w ≠ .wrapped x) :
    v.compareExact? (wrapped (wrapped w)) =
      if w.family? = some .integer ∨ w.family? = some .float then v.compareExact? w else none := by
  cases w <;> first | exact (hw _ rfl).elim | skip
  all_goals cases v <;> first | exact (hv _ rfl).elim | rfl

/-- To the well-formed values of a family any bound is like a well-formed one of the family,
or it compares with none of them. -/
theorem bound_cases (b : Value) (f : Family) :
    (∀ v : Value, v.WellFormed → v.family? = some f → v.compareExact? b = none) ∨
      ∃ b' : Value, b'.WellFormed ∧ b'.family? = some f ∧
        ∀ v : Value, v.WellFormed → v.family? = some f →
          v.compareExact? b = v.compareExact? b' := by
  by_cases hfam : b.unwrap.family? = some f ∧ f ≠ .any
  · obtain ⟨hfam, hany⟩ := hfam
    by_cases hbare : ∀ x, b.unwrap ≠ .wrapped x
    · refine .inr ⟨b.unwrap, wellFormed_of_bare hbare, hfam, fun v _ _ => ?_⟩
      simp only [compareExact?, unwrap_of_ne hbare]
    · -- the bound is in two wrappers
      obtain ⟨c, hc⟩ := not_forall_not.mp hbare
      obtain rfl : b = wrapped (wrapped c) := by
        cases b <;> cases hc
        rfl
      have hinner : c.family? = some f ∧ ∀ x, c ≠ .wrapped x := by
        cases c with
        | wrapped x => exact absurd (Option.some.inj hfam).symm hany
        | _ => exact ⟨hfam, nofun⟩
      have hout {v : Value} (hv : v.WellFormed) : v.compareExact? (wrapped (wrapped c)) =
          if f = .integer ∨ f = .float then v.compareExact? c else none := by
        have hcompare := compareExact?_wrapped_wrapped hv.unwrap_ne hinner.2
        simp only [hinner.1, Option.some.injEq] at hcompare
        simpa only [compareExact?, hv.unwrap_unwrap] using hcompare
      by_cases hnumber : f = .integer ∨ f = .float
      · exact .inr ⟨c, wellFormed_of_bare hinner.2, hinner.1, fun v hv _ => by
          rw [hout hv, if_pos hnumber]⟩
      · exact .inl fun v hv _ => by rw [hout hv, if_neg hnumber]
  · refine .inl fun v hv hfv => ?_
    by_contra hne
    obtain ⟨o, ho⟩ := Option.ne_none_iff_exists'.mp hne
    obtain ⟨g, hg, hgb⟩ := family?_of_compareExact? ho
    rw [hv.family?_unwrap, hfv] at hg
    cases hg
    exact hfam ⟨hgb, fun h => hv.family?_ne_any (by rw [hfv, h])⟩

/-- Along the canonical order the values of one family, but for the NaNs, rise against every
bound. -/
theorem compareExact?_rises (hu : u.WellFormed) (hv : v.WellFormed) {f : Family}
    (hfu : u.family? = some f) (hfv : v.family? = some f) (hnu : u.isNaN = false)
    (hnv : v.isNaN = false) (huv : u.canonicalCompare v ≠ .gt) (b : Value) :
    u.compareExact? b = none ∧ v.compareExact? b = none ∨
      ∃ o p, u.compareExact? b = some o ∧ v.compareExact? b = some p ∧
        (p = .lt → o = .lt) ∧ (p ≠ .gt → o ≠ .gt) := by
  rcases bound_cases b f with hnone | ⟨b', hb, hfb, hsame⟩
  · exact .inl ⟨hnone u hu hfu, hnone v hv hfv⟩
  rw [hsame u hu hfu, hsame v hv hfv]
  by_cases hfloat : f = .float
  · subst hfloat
    obtain ⟨x, hx⟩ := exists_asDouble hfu
    obtain ⟨y, hy⟩ := exists_asDouble hfv
    obtain ⟨z, hz⟩ := exists_asDouble hfb
    rw [compareExact?_of_floats hu hb hx hz, compareExact?_of_floats hv hb hy hz]
    rw [canonicalCompare_of_floats hu hv hx hy, Double.totalCompare, ne_eq,
      compare_gt_iff_gt, not_lt] at huv
    have hvalues := Double.valueKey_le_of_patternKey_le huv
    have hnx : x.isNaN = false := by simpa [isNaN, hx] using hnu
    have hny : y.isNaN = false := by simpa [isNaN, hy] using hnv
    simp only [Double.compare?, hnx, hny, Bool.false_or]
    split
    · exact .inl ⟨rfl, rfl⟩
    · refine .inr ⟨_, _, rfl, rfl, ?_, ?_⟩
      · simp only [compare_lt_iff_lt]
        omega
      · simp only [ne_eq, compare_gt_iff_gt]
        omega
  · rw [compareExact?_eq_canonicalCompare hu hb hfu hfb hfloat,
      compareExact?_eq_canonicalCompare hv hb hfv hfb hfloat]
    exact .inr ⟨_, _, rfl, rfl, canonicalCompare_lt_of_le_of_lt hu hv hb huv,
      canonicalCompare_le_trans hu hv hb huv⟩

theorem isAtLeast_iff : v.isAtLeast w = true ↔ ∃ o, v.compareExact? w = some o ∧ o ≠ .lt := by
  rw [isAtLeast]
  cases v.compareExact? w with
  | none => simp
  | some o => cases o <;> simp

theorem isAtMost_iff : v.isAtMost w = true ↔ ∃ o, v.compareExact? w = some o ∧ o ≠ .gt := by
  rw [isAtMost]
  cases v.compareExact? w with
  | none => simp
  | some o => cases o <;> simp

theorem isBelow_iff : v.isBelow w = true ↔ v.compareExact? w = some .lt := by
  rw [isBelow, beq_iff_eq]

theorem isNaN_of_compareExact? (hv : v.WellFormed) {o : Ordering} (h : v.compareExact? w = some o) :
    v.isNaN = false := by
  cases hx : v.asDouble with
  | none => simp [isNaN, hx]
  | some x =>
    obtain ⟨f, hf, hfw⟩ := family?_of_compareExact? h
    rw [hv.family?_unwrap, family?_of_asDouble hx] at hf
    cases hf
    obtain ⟨y, hy⟩ := exists_asDouble hfw
    have hcompare := compareExact?_of_asDouble hy v.unwrap
    rw [hv.asDouble_unwrap, hx] at hcompare
    have hsome : x.compare? y = some o := hcompare.symm.trans h
    have hnan : x.isNaN = false := by
      rw [Double.compare?] at hsome
      split at hsome
      · cases hsome
      · rename_i hnot
        simp only [Bool.or_eq_true, not_or, Bool.not_eq_true] at hnot
        exact hnot.1
    simpa [isNaN, hx] using hnan

theorem family?_of_between (hu : u.WellFormed) (hv : v.WellFormed) (hw : w.WellFormed)
    (huv : u.canonicalCompare v ≠ .gt) (hvw : v.canonicalCompare w ≠ .gt)
    (h : u.family? = w.family?) (hnu : u.isNaN = false) (hnw : w.isNaN = false) :
    v.family? = u.family? ∧ v.isNaN = false := by
  have hrank : u.rank = w.rank := by rw [rank, rank, h]
  have hle := rank_le_of_canonicalCompare hu hv huv
  have hge := rank_le_of_canonicalCompare hv hw hvw
  have hfam : v.family? = u.family? := family?_eq_of_rank_eq (by omega)
  refine ⟨hfam, ?_⟩
  by_cases hfloat : u.family? = some .float
  · obtain ⟨x, hx⟩ := exists_asDouble hfloat
    obtain ⟨y, hy⟩ := exists_asDouble (hfam.trans hfloat)
    obtain ⟨z, hz⟩ := exists_asDouble (h ▸ hfloat)
    rw [canonicalCompare_of_floats hu hv hx hy, Double.totalCompare, ne_eq, compare_gt_iff_gt,
      not_lt] at huv
    rw [canonicalCompare_of_floats hv hw hy hz, Double.totalCompare, ne_eq, compare_gt_iff_gt,
      not_lt] at hvw
    simp only [isNaN, hx, hy, hz, Option.any_some] at hnu hnw ⊢
    exact Double.isNaN_of_between hnu hnw huv hvw
  · exact isNaN_of_family (by rwa [hfam])

section Rising

variable {f : Family} (hu : u.WellFormed) (hv : v.WellFormed) (hfu : u.family? = some f)
  (hfv : v.family? = some f) (hnu : u.isNaN = false) (hnv : v.isNaN = false)
  (huv : u.canonicalCompare v ≠ .gt)

include hu hv hfu hfv hnu hnv huv

theorem isAtLeast_of_le {b : Value} (h : u.isAtLeast b = true) : v.isAtLeast b = true := by
  obtain ⟨o, ho, hge⟩ := isAtLeast_iff.mp h
  rcases compareExact?_rises hu hv hfu hfv hnu hnv huv b with ⟨hnone, -⟩ | ⟨o', p, ho', hp, hlt, -⟩
  · cases hnone.symm.trans ho
  · cases ho'.symm.trans ho
    exact isAtLeast_iff.mpr ⟨p, hp, fun h => hge (hlt h)⟩

theorem isAtMost_of_le {b : Value} (h : v.isAtMost b = true) : u.isAtMost b = true := by
  obtain ⟨p, hp, hle⟩ := isAtMost_iff.mp h
  rcases compareExact?_rises hu hv hfu hfv hnu hnv huv b with ⟨-, hnone⟩ | ⟨o, p', ho, hp', -, hgt⟩
  · cases hnone.symm.trans hp
  · cases hp'.symm.trans hp
    exact isAtMost_iff.mpr ⟨o, ho, hgt hle⟩

theorem isBelow_of_le {b : Value} (h : v.isBelow b = true) : u.isBelow b = true := by
  have hp := isBelow_iff.mp h
  rcases compareExact?_rises hu hv hfu hfv hnu hnv huv b with ⟨-, hnone⟩ | ⟨o, p, ho, hp', hlt, -⟩
  · cases hnone.symm.trans hp
  · cases hp'.symm.trans hp
    exact isBelow_iff.mpr (by rw [ho, hlt rfl])

end Rising

/-- What stands between a value that is not before the lower end of a range and one that is
not beyond its upper end is in the range, if the ends are of one family. -/
theorem within_of_between (hu : u.WellFormed) (hv : v.WellFormed) (hw : w.WellFormed)
    (huv : u.canonicalCompare v ≠ .gt) (hvw : v.canonicalCompare w ≠ .gt) {b : Bounds}
    (hb : b.lo.unwrap.family? = b.hi.unwrap.family?) (hlo : u.isAtLeast b.lo = true)
    (hhi : (if b.inclusive then w.isAtMost b.hi else w.isBelow b.hi) = true) :
    v.within b = true := by
  obtain ⟨o, ho, -⟩ := isAtLeast_iff.mp hlo
  obtain ⟨p, hp⟩ : ∃ p, w.compareExact? b.hi = some p := by
    split at hhi
    · obtain ⟨p, hp, -⟩ := isAtMost_iff.mp hhi
      exact ⟨p, hp⟩
    · exact ⟨_, isBelow_iff.mp hhi⟩
  -- both compare with their ends, so they are of the family of the ends
  obtain ⟨f, hfu, hflo⟩ := family?_of_compareExact? ho
  obtain ⟨g, hgw, hghi⟩ := family?_of_compareExact? hp
  obtain rfl : f = g := Option.some.inj (hflo.symm.trans (hb.trans hghi))
  rw [hu.family?_unwrap] at hfu
  rw [hw.family?_unwrap] at hgw
  have hnu := isNaN_of_compareExact? hu ho
  have hnw := isNaN_of_compareExact? hw hp
  obtain ⟨hfv, hnv⟩ := family?_of_between hu hv hw huv hvw (hfu.trans hgw.symm) hnu hnw
  rw [hfu] at hfv
  rw [within, Bool.and_eq_true]
  refine ⟨isAtLeast_of_le hu hv hfu hfv hnu hnv huv hlo, ?_⟩
  cases hinclusive : b.inclusive with
  | true =>
    rw [hinclusive, if_pos rfl] at hhi
    exact isAtMost_of_le hv hw hfv hgw hnv hnw hvw hhi
  | false =>
    rw [hinclusive, if_neg Bool.false_ne_true] at hhi
    exact isBelow_of_le hv hw hfv hgw hnv hnw hvw hhi

end Value

end ObjectStore
