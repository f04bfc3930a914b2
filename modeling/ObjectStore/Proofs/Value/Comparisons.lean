import ObjectStore.Proofs.Value.Exact

/-
  The two comparisons side by side.

  The canonical comparison is a total preorder of the well-formed values, and the exact one
  decides conditions. Neither is written in terms of the other as far as floats go, so that they
  fit together has to be shown: whatever is less or greater exactly is so canonically. The
  converse fails for the floats alone, of which a NaN has no exact order and the two zeros are
  exactly equal.

    1. `Value.compareExact?_swap`: the exact comparison from the other side.
    2. `Value.canonicalCompare_of_compareExact?`: less and greater are the same in both.
    3. `Value.canonicalCompare_eq_iff`: which values have the same place in the canonical order.
    4. `Value.comparisons_agree`: all laws together.
-/

namespace ObjectStore

open Number

namespace Number.Double

variable {x y : Double}

theorem compare?_swap (x y : Double) : y.compare? x = (x.compare? y).map Ordering.swap := by
  rw [compare?, compare?, Bool.or_comm]
  split
  · rfl
  · rw [Option.map_some, ← Std.OrientedCmp.eq_swap]

theorem totalCompare_of_compare? {o : Ordering} (ho : o ≠ .eq) (h : x.compare? y = some o) :
    x.totalCompare y = o := by
  have hvalues : compare x.valueKey y.valueKey = o := by
    rw [compare?] at h
    split at h
    · cases h
    · exact Option.some.inj h
  have hkeys {u v : Double} (hlt : u.valueKey < v.valueKey) : u.patternKey < v.patternKey := by
    by_contra hle
    exact absurd (valueKey_le_of_patternKey_le (Int.not_lt.mp hle)) (Int.not_le.mpr hlt)
  cases o with
  | lt => exact compare_lt_iff_lt.mpr (hkeys (compare_lt_iff_lt.mp hvalues))
  | eq => exact absurd rfl ho
  | gt => exact compare_gt_iff_gt.mpr (hkeys (compare_gt_iff_gt.mp hvalues))

end Number.Double

namespace Value

variable {u v w : Value}

/-- The exact comparison from the other side; it is undefined from both sides or from none. -/
theorem compareExact?_swap (hv : v.WellFormed) (hw : w.WellFormed) :
    w.compareExact? v = (v.compareExact? w).map Ordering.swap := by
  by_cases hfam : v.family? = w.family?
  · cases hf : v.family? with
    | none =>
      have hvoid : v.Void := family?_eq_none.mp hf
      rw [compareExact?_of_void (.inr hvoid), compareExact?_of_void (.inl hvoid), Option.map_none]
    | some f =>
      have hg : w.family? = some f := hfam ▸ hf
      by_cases hfloat : f = .float
      · subst hfloat
        obtain ⟨x, hx⟩ := exists_asDouble hf
        obtain ⟨y, hy⟩ := exists_asDouble hg
        rw [compareExact?_of_floats hw hv hy hx, compareExact?_of_floats hv hw hx hy,
          Double.compare?_swap]
      · rw [compareExact?_eq_canonicalCompare hw hv hg hf hfloat,
          compareExact?_eq_canonicalCompare hv hw hf hg hfloat, Option.map_some,
          canonicalCompare_swap hv hw]
  · rw [compareExact?_of_family_ne hv hw hfam, compareExact?_of_family_ne hw hv (Ne.symm hfam),
      Option.map_none]

/-- What is less or greater exactly is so canonically. -/
theorem canonicalCompare_of_compareExact? (hv : v.WellFormed) (hw : w.WellFormed) {o : Ordering}
    (ho : o ≠ .eq) (h : v.compareExact? w = some o) : v.canonicalCompare w = o := by
  obtain ⟨f, hf, hg⟩ := family?_of_compareExact? h
  rw [hv.family?_unwrap] at hf
  rw [hw.family?_unwrap] at hg
  by_cases hfloat : f = .float
  · subst hfloat
    obtain ⟨x, hx⟩ := exists_asDouble hf
    obtain ⟨y, hy⟩ := exists_asDouble hg
    rw [compareExact?_of_floats hv hw hx hy] at h
    rw [canonicalCompare_of_floats hv hw hx hy]
    exact Double.totalCompare_of_compare? ho h
  · rw [compareExact?_eq_canonicalCompare hv hw hf hg hfloat] at h
    exact Option.some.inj h

/-- Values of one family that have the same place in the canonical order: floats of one pattern,
and else values that are exactly equal. -/
theorem canonicalCompare_eq_iff_of_family (hv : v.WellFormed) (hw : w.WellFormed) {f : Family}
    (hf : v.family? = some f) (hg : w.family? = some f) :
    v.canonicalCompare w = .eq ↔
      (f = .float → v.asDouble = w.asDouble) ∧ (f ≠ .float → v.exactEq w = true) := by
  by_cases hfloat : f = .float
  · subst hfloat
    obtain ⟨x, hx⟩ := exists_asDouble hf
    obtain ⟨y, hy⟩ := exists_asDouble hg
    rw [canonicalCompare_of_floats hv hw hx hy, Double.totalCompare, compare_eq_iff_eq, hx, hy]
    constructor
    · exact fun hkey => ⟨fun _ => congrArg some (Double.eq_of_patternKey_eq hkey),
        fun hne => absurd rfl hne⟩
    · exact fun h => congrArg Double.patternKey (Option.some.inj (h.1 rfl))
  · have hexact : v.exactEq w = true ↔ v.compareExact? w = some .eq :=
      exactEq_of_family hv hw (hf ▸ Option.some_ne_none f) (hf.trans hg.symm)
    rw [hexact, compareExact?_eq_canonicalCompare hv hw hf hg hfloat, Option.some.injEq]
    exact ⟨fun h => ⟨fun heq => absurd heq hfloat, fun _ => h⟩, fun h => h.2 hfloat⟩

/-- Which values have the same place in the canonical order. -/
theorem canonicalCompare_eq_iff (hv : v.WellFormed) (hw : w.WellFormed) :
    v.canonicalCompare w = .eq ↔
      v = .null ∧ w = .null ∨
        ∃ f, v.family? = some f ∧ w.family? = some f ∧
          (f = .float → v.asDouble = w.asDouble) ∧ (f ≠ .float → v.exactEq w = true) := by
  by_cases hfam : v.family? = w.family?
  · cases hf : v.family? with
    | none =>
      obtain rfl := hv.eq_null hf
      obtain rfl := hw.eq_null (hfam ▸ hf)
      exact iff_of_true rfl (.inl ⟨rfl, rfl⟩)
    | some f =>
      have hg : w.family? = some f := hfam ▸ hf
      rw [canonicalCompare_eq_iff_of_family hv hw hf hg]
      constructor
      · exact fun h => .inr ⟨f, rfl, hg, h⟩
      · rintro (⟨rfl, -⟩ | ⟨g, hsame, -, h⟩)
        · cases hf
        · cases hsame
          exact h
  · refine iff_of_false (canonicalCompare_ne_eq hv hw hfam) ?_
    rintro (⟨rfl, rfl⟩ | ⟨f, hf, hg, -⟩)
    · exact hfam rfl
    · exact hfam (hf.trans hg.symm)

/--
The two comparisons of well-formed values.

1. The canonical comparison is total, and transitive: turned round it answers the opposite. What
   is not greater twice in a row is not greater at the ends, and so with each single answer.
2. It answers that two values are equal just if both are null, or they are of one family and
   exactly equal, floats with one pattern once they have 64 bits.
3. Turned round, the exact comparison answers the opposite too, or nothing from both sides.
4. Where it answers less or greater, the canonical comparison answers the same.
-/
theorem comparisons_agree (hu : u.WellFormed) (hv : v.WellFormed) (hw : w.WellFormed) :
    v.canonicalCompare u = (u.canonicalCompare v).swap ∧
      (u.canonicalCompare v ≠ .gt → v.canonicalCompare w ≠ .gt → u.canonicalCompare w ≠ .gt) ∧
      (∀ o, u.canonicalCompare v = o → v.canonicalCompare w = o → u.canonicalCompare w = o) ∧
      (u.canonicalCompare v = .eq ↔
        u = .null ∧ v = .null ∨
          ∃ f, u.family? = some f ∧ v.family? = some f ∧
            (f = .float → u.asDouble = v.asDouble) ∧ (f ≠ .float → u.exactEq v = true)) ∧
      v.compareExact? u = (u.compareExact? v).map Ordering.swap ∧
      ∀ o, o ≠ .eq → u.compareExact? v = some o → u.canonicalCompare v = o :=
  ⟨canonicalCompare_swap hu hv, canonicalCompare_le_trans hu hv hw,
    fun _ => canonicalCompare_trans hu hv hw, canonicalCompare_eq_iff hu hv,
    compareExact?_swap hu hv, fun _ => canonicalCompare_of_compareExact? hu hv⟩

/-- The negative zero in 32 bits, the positive one in 64 bits, and a NaN in a wrapper. The zeros
are exactly equal and yet the negative one comes first. The NaN comes last, and compares exactly
with none of them. -/
theorem zeros_and_nan_compare :
    let negative : Value := .single ⟨0x80000000⟩
    let positive : Value := .double .zero
    let nan : Value := .wrapped (.double ⟨0x7FF8000000000000⟩)
    positive.exactEq negative = true ∧ positive.canonicalCompare negative = .gt ∧
      negative.canonicalCompare nan = .lt ∧ nan.compareExact? positive = none ∧
      nan.canonicalCompare positive = .gt := by
  intro negative positive nan
  have hzeros : negative.canonicalCompare positive = .lt := by decide
  have hnan : positive.canonicalCompare nan = .lt := by decide
  have hnone : positive.compareExact? nan = none := by decide
  obtain ⟨hswap, -, htrans, -, -, -⟩ :=
    comparisons_agree (u := negative) (v := positive) (w := nan) trivial trivial trivial
  obtain ⟨hswap', -, -, -, hexact, -⟩ :=
    comparisons_agree (u := positive) (v := nan) (w := negative) trivial trivial trivial
  refine ⟨by decide, ?_, htrans .lt hzeros hnan, ?_, ?_⟩
  · rw [hswap, hzeros]
    rfl
  · rw [hexact, hnone]
    rfl
  · rw [hswap', hnan]
    rfl

end Value

end ObjectStore
