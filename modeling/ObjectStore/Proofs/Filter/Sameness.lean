import ObjectStore.Proofs.Value.Exact

/-
  Trees of the same data decide alike.

  Literals are compared as data, which is not identity: two decimals may differ in scale and
  two zeros in sign. What decides an expression is the exact comparison, and that tells no
  such two literals apart.

    1. `Value.compareExact?_congr`: the exact comparison with literals of the same data.
    2. `Expr.holds_congr`: trees that are the same have the same meaning.
    3. `Expr.spread` writes a range without its upper end as two comparisons, and
       `Expr.holds_spread` says that this keeps the meaning.
-/

namespace ObjectStore

open Number

/-! ## Literals -/

theorem Number.Double.compare?_congr {x y : Double} (h : x.numericEq y = true) (u : Double) :
    u.compare? x = u.compare? y := by
  simp only [numericEq, compare?, beq_iff_eq] at h
  split at h
  · cases h
  · rename_i hnan
    have hkey : x.valueKey = y.valueKey := compare_eq_iff_eq.mp (Option.some.inj h)
    simp only [Bool.or_eq_true, not_or, Bool.not_eq_true] at hnan
    simp only [compare?, hnan.1, hnan.2, hkey]

theorem Number.Decimal.compare_congr {c d : Decimal} (h : (c.compare d == .eq) = true)
    (a : Decimal) : a.compare c = a.compare d := by
  rw [beq_iff_eq, compare_eq, compare_eq_iff_eq] at h
  rw [compare_eq, compare_eq, h]

namespace Value

variable {v w : Value}

/-- What it means to be the same data: to be the same, but for what numbers tell of their
writing, and for what is inside of a wrapper. -/
theorem same_cases (h : v.same w = true) :
    v = w ∨ (∃ x y, v = .single x ∧ w = .single y ∧ x.numericEq y = true) ∨
      (∃ x y, v = .double x ∧ w = .double y ∧ x.numericEq y = true) ∨
      (∃ c d, v = .decimal c ∧ w = .decimal d ∧ (c.compare d == .eq) = true) ∨
      ∃ a b, v = .wrapped a ∧ w = .wrapped b ∧ a.same b = true := by
  unfold same at h
  split at h
  · exact .inr (.inl ⟨_, _, rfl, rfl, h⟩)
  · exact .inr (.inr (.inl ⟨_, _, rfl, rfl, h⟩))
  · exact .inr (.inr (.inr (.inl ⟨_, _, rfl, rfl, h⟩)))
  · exact .inr (.inr (.inr (.inr ⟨_, _, rfl, rfl, h⟩)))
  · exact .inl (beq_iff_eq.mp h)

theorem isNull_congr (h : v.same w = true) : v.isNull = w.isNull := by
  rcases same_cases h with rfl | ⟨x, y, rfl, rfl, -⟩ | ⟨x, y, rfl, rfl, -⟩ | ⟨c, d, rfl, rfl, -⟩ |
    ⟨a, b, rfl, rfl, -⟩ <;> rfl

theorem compare_number_congr {x y : Double} (hv : v.asDouble = some x) (hw : w.asDouble = some y)
    (h : x.numericEq y = true) (a : Value) :
    (wrapped a).compareExact? (wrapped v) = (wrapped a).compareExact? (wrapped w) := by
  rw [compareExact?_of_asDouble hv, compareExact?_of_asDouble hw]
  congr 1
  funext u
  exact Number.Double.compare?_congr h u

theorem compare_wrapped_congr (h : v.same w = true) (a : Value) :
    (wrapped a).compareExact? (wrapped v) = (wrapped a).compareExact? (wrapped w) := by
  rcases same_cases h with rfl | ⟨x, y, rfl, rfl, hxy⟩ | ⟨x, y, rfl, rfl, hxy⟩ |
    ⟨c, d, rfl, rfl, hcd⟩ | ⟨v, w, rfl, rfl, hvw⟩
  · rfl
  · exact compare_number_congr rfl rfl hxy a
  · exact compare_number_congr rfl rfl hxy a
  · cases a with
    | decimal a => exact congrArg some (Number.Decimal.compare_congr hcd a)
    | wrapped b => cases b <;> rfl
    | _ => rfl
  -- in one wrapper more there can be numbers, and nothing else that is compared by content
  · rcases same_cases hvw with rfl | ⟨x, y, rfl, rfl, hxy⟩ | ⟨x, y, rfl, rfl, hxy⟩ |
      ⟨c, d, rfl, rfl, -⟩ | ⟨v, w, rfl, rfl, -⟩
    · rfl
    · exact compare_number_congr rfl rfl hxy a
    · exact compare_number_congr rfl rfl hxy a
    · cases a with
      | wrapped b => cases b <;> rfl
      | _ => rfl
    · cases a with
      | wrapped b => cases b <;> rfl
      | _ => rfl

/-- Literals of the same data compare alike with every value. -/
theorem compareExact?_congr (h : v.same w = true) (a : Value) :
    a.compareExact? v = a.compareExact? w := by
  -- the wrapper that the values are put into is the one that the comparison takes off
  have hunwrapped := compare_wrapped_congr h a.unwrap
  rcases same_cases h with rfl | ⟨x, y, rfl, rfl, -⟩ | ⟨x, y, rfl, rfl, -⟩ | ⟨c, d, rfl, rfl, -⟩ |
    ⟨v, w, rfl, rfl, hvw⟩
  · rfl
  · exact hunwrapped
  · exact hunwrapped
  · exact hunwrapped
  · exact compare_wrapped_congr hvw a.unwrap

theorem exactEq_congr (h : v.same w = true) (a : Value) : a.exactEq v = a.exactEq w := by
  rw [exactEq, exactEq, isNull_congr h, compareExact?_congr h]

theorem isAtLeast_congr (h : v.same w = true) (a : Value) : a.isAtLeast v = a.isAtLeast w := by
  rw [isAtLeast, isAtLeast, compareExact?_congr h]

theorem isAtMost_congr (h : v.same w = true) (a : Value) : a.isAtMost v = a.isAtMost w := by
  rw [isAtMost, isAtMost, compareExact?_congr h]

theorem isBelow_congr (h : v.same w = true) (a : Value) : a.isBelow v = a.isBelow w := by
  rw [isBelow, isBelow, compareExact?_congr h]

theorem isAbove_congr (h : v.same w = true) (a : Value) : a.isAbove v = a.isAbove w := by
  rw [isAbove, isAbove, compareExact?_congr h]

end Value

/-! ## Expressions -/

theorem Comparison.holds_congr {v w : Value} (h : v.same w = true) (op : Comparison) (a : Value) :
    op.holds a v = op.holds a w := by
  cases op with
  | eq => exact Value.exactEq_congr h a
  | neq => exact congrArg (!·) (Value.exactEq_congr h a)
  | lt => exact Value.isBelow_congr h a
  | lte => exact Value.isAtMost_congr h a
  | gt => exact Value.isAbove_congr h a
  | gte => exact Value.isAtLeast_congr h a

/-- Bounds of the same data. -/
structure Bounds.Same (b b' : Bounds) : Prop where
  lo : b.lo.same b'.lo = true
  hi : b.hi.same b'.hi = true
  inclusive : b.inclusive = b'.inclusive

namespace Bounds.Same

variable {b b' : Bounds}

theorem within (h : b.Same b') (a : Value) : a.within b = a.within b' := by
  rw [Value.within, Value.within, Value.isAtLeast_congr h.lo, Value.isAtMost_congr h.hi,
    Value.isBelow_congr h.hi, h.inclusive]

theorem elementsWithin (h : b.Same b') (es : List Element) :
    ObjectStore.elementsWithin es b = ObjectStore.elementsWithin es b' := by
  simp only [ObjectStore.elementsWithin, Value.isAtLeast_congr h.lo, Value.isAtMost_congr h.hi,
    Value.isBelow_congr h.hi, h.inclusive]

end Bounds.Same

namespace Expr

/-- Trees that are the same are of one shape, with literals of the same data. -/
inductive Same : Expr → Expr → Prop
  | comparison (op : Comparison) (p : Path) {v w : Value} (h : v.same w = true) :
    Same (.comparison op p v) (.comparison op p w)
  | text (op : TextMatch) (p : Path) (part : String) (ignoreCase : Bool) :
    Same (.text op p part ignoreCase) (.text op p part ignoreCase)
  | range (p : Path) {b b' : Bounds} (h : b.Same b') : Same (.range p b) (.range p b')
  | membership (p : Path) {v w : Value} (h : v.same w = true) :
    Same (.membership p v) (.membership p w)
  | allWithin (p : Path) {b b' : Bounds} (h : b.Same b') : Same (.allWithin p b) (.allWithin p b')
  | logical (op : Connective) {es es' : List Expr} (h : sameAll es es' = true) :
    Same (.logical op es) (.logical op es')

theorem same_iff {e e' : Expr} : e.same e' = true ↔ Same e e' := by
  constructor
  · intro h
    unfold same at h
    split at h
    · simp only [Bool.and_eq_true, decide_eq_true_eq] at h
      obtain ⟨⟨rfl, rfl⟩, h⟩ := h
      exact .comparison _ _ h
    · simp only [Bool.and_eq_true, decide_eq_true_eq] at h
      obtain ⟨⟨⟨rfl, rfl⟩, rfl⟩, rfl⟩ := h
      exact .text _ _ _ _
    · simp only [Bool.and_eq_true, decide_eq_true_eq] at h
      obtain ⟨⟨⟨rfl, hlo⟩, hhi⟩, hinclusive⟩ := h
      exact .range _ ⟨hlo, hhi, hinclusive⟩
    · simp only [Bool.and_eq_true, decide_eq_true_eq] at h
      obtain ⟨rfl, h⟩ := h
      exact .membership _ h
    · simp only [Bool.and_eq_true, decide_eq_true_eq] at h
      obtain ⟨⟨⟨rfl, hlo⟩, hhi⟩, hinclusive⟩ := h
      exact .allWithin _ ⟨hlo, hhi, hinclusive⟩
    · simp only [Bool.and_eq_true, decide_eq_true_eq] at h
      obtain ⟨rfl, h⟩ := h
      exact .logical _ h
    · cases h
  · intro h
    cases h with
    | comparison op p h => simp [same, h]
    | text op p part ignoreCase => simp [same]
    | range p h => simp [same, h.lo, h.hi, h.inclusive]
    | membership p h => simp [same, h]
    | allWithin p h => simp [same, h.lo, h.hi, h.inclusive]
    | logical op h => simp [same, h]

theorem sameAll_of_cons {e e' : Expr} {es es' : List Expr} (h : e.same e' = true)
    (hes : sameAll es es' = true) : sameAll (e :: es) (e' :: es') = true := by
  rw [sameAll, h, hes]
  rfl

theorem sameAll_cons {e : Expr} {es es' : List Expr} (h : sameAll (e :: es) es' = true) :
    ∃ e' rest, es' = e' :: rest ∧ e.same e' = true ∧ sameAll es rest = true := by
  cases es' with
  | nil => cases h
  | cons e' rest =>
    simp only [sameAll, Bool.and_eq_true] at h
    exact ⟨e', rest, rfl, h.1, h.2⟩

mutual

/-- Trees that are the same have the same meaning. -/
theorem holds_congr (s : Snapshot) (c : Value) :
    (e e' : Expr) → e.same e' = true → e.holds s c = e'.holds s c
  | .comparison op p v, _, h => by
    cases same_iff.mp h with
    | comparison _ _ hv => exact Comparison.holds_congr hv op _
  | .text op p part ignoreCase, _, h => by
    cases same_iff.mp h with
    | text => rfl
  | .range p b, _, h => by
    cases same_iff.mp h with
    | range _ hb => exact hb.within _
  | .membership p v, _, h => by
    cases same_iff.mp h with
    | membership _ hv => simp only [holds, Value.exactEq_congr hv]
  | .allWithin p b, _, h => by
    cases same_iff.mp h with
    | allWithin _ hb => simp only [holds, hb.elementsWithin]
  | .logical op es, _, h => by
    cases same_iff.mp h with
    | logical _ hes =>
      obtain ⟨hall, hsome⟩ := hold_congr s c es _ hes
      cases op with
      | and => exact hall
      | or => exact hsome

theorem hold_congr (s : Snapshot) (c : Value) :
    (es es' : List Expr) → sameAll es es' = true →
      allHold s c es = allHold s c es' ∧ someHold s c es = someHold s c es'
  | [], [], _ => ⟨rfl, rfl⟩
  | e :: es, _, h => by
    obtain ⟨e', rest, rfl, hfirst, hrest⟩ := sameAll_cons h
    obtain ⟨hall, hsome⟩ := hold_congr s c es rest hrest
    simp only [allHold, someHold, holds_congr s c e e' hfirst, hall, hsome, and_self]

end

/-! ## Ranges as two comparisons -/

mutual

/-- The tree with every range that has no upper end written as two comparisons. -/
def spread : Expr → Expr
  | .range p b =>
    if b.inclusive then .range p b
    else .logical .and [.comparison .gte p b.lo, .comparison .lt p b.hi]
  | .logical op es => .logical op (spreadAll es)
  | e => e

def spreadAll : List Expr → List Expr
  | [] => []
  | e :: es => e.spread :: spreadAll es

end

theorem spreadAll_eq_map (es : List Expr) : spreadAll es = es.map spread := by
  induction es with
  | nil => rfl
  | cons e es ih => rw [spreadAll, ih, List.map_cons]

mutual

/-- Two comparisons say of a value what the range says. -/
theorem holds_spread (s : Snapshot) (c : Value) : (e : Expr) → e.spread.holds s c = e.holds s c
  | .range p b => by
    unfold spread
    split
    · rfl
    · rename_i h
      simp only [holds, allHold, Comparison.holds, Value.within, h, Bool.and_true,
        Bool.false_eq_true, if_false]
  | .logical op es => by
    obtain ⟨hall, hsome⟩ := hold_spreadAll s c es
    cases op with
    | and => exact hall
    | or => exact hsome
  | .comparison op p v => rfl
  | .text op p part ignoreCase => rfl
  | .membership p v => rfl
  | .allWithin p b => rfl

theorem hold_spreadAll (s : Snapshot) (c : Value) : (es : List Expr) →
    allHold s c (spreadAll es) = allHold s c es ∧ someHold s c (spreadAll es) = someHold s c es
  | [] => ⟨rfl, rfl⟩
  | e :: es => by
    obtain ⟨hall, hsome⟩ := hold_spreadAll s c es
    simp only [spreadAll, allHold, someHold, holds_spread s c e, hall, hsome, and_self]

end

end Expr

end ObjectStore
