import ObjectStore.Aggregate
import ObjectStore.Proofs.Value.Exact

/-
  The least and the greatest value are what they are called.

  The values are passed once, and one of them is kept at a time. It gives way only to a value
  that beats it, that is, compares with it as the direction of the search says. What it was
  kept against is then beaten by the new one too, or no better, because the canonical order is
  transitive. So in the end no value beats the one that is kept (`foldl_takeOver`).

  The same is what a stable sort does for its first value: it is passed by those that come before
  it, and by no equal one. So the least value is the first that is not null after sorting, and the
  greatest is the first after sorting from the other end, each with the width and the places that
  it has where it occurs first.

    1. `extreme_cases`: nothing is found just if all values are null. What is found is one of
       the values without its wrapper, and no other one beats it.
    2. `extreme_eq_find?`: it is the first of the sorted values that is not null.
    3. `extremes_are_first_sorted`: the least and the greatest value by sorting.
-/

namespace ObjectStore

variable {keep : Ordering}

/-- The value that is kept in the end is the one kept at first or one of those passed, and none
of them beats it. -/
theorem foldl_takeOver (hkeep : keep ≠ .eq) {vs : List Value} (hvs : ∀ v ∈ vs, v.WellFormed)
    {b : Value} (hb : b.WellFormed) :
    ∃ r, vs.foldl (takeOver keep) (some b) = some r ∧ r ∈ b :: vs ∧
      ∀ v ∈ b :: vs, v.canonicalCompare r ≠ keep := by
  induction vs generalizing b with
  | nil =>
    refine ⟨b, rfl, List.mem_cons_self, fun v hv => ?_⟩
    rw [List.mem_singleton.mp hv, Value.canonicalCompare_self hb]
    exact hkeep.symm
  | cons v vs ih =>
    have hv : v.WellFormed := hvs v List.mem_cons_self
    have hrest : ∀ x ∈ vs, x.WellFormed := fun x hx => hvs x (List.mem_cons_of_mem v hx)
    rw [List.foldl_cons, takeOver]
    split
    · rename_i hbeats
      obtain ⟨r, hr, hmem, hall⟩ := ih hrest hv
      have hwr : r.WellFormed := hvs r hmem
      refine ⟨r, hr, List.mem_cons_of_mem b hmem, fun x hx => ?_⟩
      rcases List.mem_cons.mp hx with rfl | hx
      · exact fun hxr => hall v List.mem_cons_self
          (Value.canonicalCompare_trans hv hb hwr hbeats hxr)
      · exact hall x hx
    · rename_i hnot
      obtain ⟨r, hr, hmem, hall⟩ := ih hrest hb
      have hwr : r.WellFormed := by
        rcases List.mem_cons.mp hmem with rfl | hmem
        · exact hb
        · exact hrest r hmem
      have hbr := hall b List.mem_cons_self
      refine ⟨r, hr, (List.sublist_cons_self v vs).cons_cons b |>.mem hmem, fun x hx => ?_⟩
      rcases List.mem_cons.mp hx with rfl | hx
      · exact hbr
      · rcases List.mem_cons.mp hx with rfl | hx
        · exact Value.canonicalCompare_ne_trans hkeep hv hb hwr hnot hbr
        · exact hall x (List.mem_cons_of_mem b hx)

/-- Nothing is found among nulls. Else the value found is one of those that are not null, and
none of these beats it. -/
theorem extreme_cases (keep : Ordering) (hkeep : keep ≠ .eq) {vs : List Value}
    (hvs : ∀ v ∈ vs, v.WellFormed) :
    extreme keep vs = none ∧ (∀ v ∈ vs, v.isNull = true) ∨
      ∃ r ∈ vs, r.isNull = false ∧ extreme keep vs = some r.unwrap ∧
        ∀ v ∈ vs, v.isNull = false → v.canonicalCompare r ≠ keep := by
  have hmem {v : Value} : v ∈ vs.filter (fun v => !v.isNull) ↔ v ∈ vs ∧ v.isNull = false := by
    rw [List.mem_filter, Bool.not_eq_true']
  rw [extreme]
  cases hfilter : vs.filter fun v => !v.isNull with
  | nil =>
    refine .inl ⟨rfl, fun v hv => ?_⟩
    by_contra hnull
    have hin := hmem.mpr ⟨hv, Bool.not_eq_true _ ▸ hnull⟩
    rw [hfilter] at hin
    cases hin
  | cons b rest =>
    rw [hfilter] at hmem
    have hwf (v : Value) (hv : v ∈ b :: rest) : v.WellFormed := hvs v (hmem.mp hv).1
    obtain ⟨r, hr, hin, hall⟩ := foldl_takeOver hkeep
      (fun v hv => hwf v (List.mem_cons_of_mem b hv)) (hwf b List.mem_cons_self)
    refine .inr ⟨r, (hmem.mp hin).1, (hmem.mp hin).2, ?_, fun v hv hnull => ?_⟩
    · rw [List.foldl_cons, takeOver, hr, Option.map_some]
    · exact hall v (hmem.mpr ⟨hv, hnull⟩)

/-! ## Extremes by sorting -/

/-- Values from the greatest down, equal ones in the order given. -/
def Value.sortDown (vs : List Value) : List Value :=
  stableSort (fun a b => (a.canonicalCompare b).swap == .lt) vs

theorem takeOver_eq_former (keep : Ordering) :
    takeOver keep = former fun a b => a.canonicalCompare b == keep := by
  funext best v
  cases best with
  | none => rfl
  | some b => simp only [takeOver, former, beq_iff_eq]

/-- The extreme value is the first of the sorted values that is not null. -/
theorem extreme_eq_find? (hkeep : keep ≠ .eq) {vs : List Value} (hvs : ∀ v ∈ vs, v.WellFormed) :
    extreme keep vs = ((stableSort (fun a b => a.canonicalCompare b == keep) vs).find?
      fun v => !v.isNull).map Value.unwrap := by
  have hpreorders := Value.preorders_canonicalCompare hkeep
  have hkept : ∀ v ∈ vs.filter (fun v => !v.isNull), v.WellFormed :=
    fun v hv => hvs v (List.mem_filter.mp hv).1
  rw [extreme, takeOver_eq_former, ← head?_stableSort hpreorders hkept,
    stableSort_filter hpreorders hvs, List.head?_filter]

theorem extreme_eq_none (hkeep : keep ≠ .eq) {vs : List Value} (hvs : ∀ v ∈ vs, v.WellFormed) :
    extreme keep vs = none ↔ ∀ v ∈ vs, v.isNull = true := by
  rw [extreme_eq_find? hkeep hvs, Option.map_eq_none_iff, List.find?_eq_none]
  simp only [(stableSort_perm _ vs).mem_iff, Bool.not_eq_true', Bool.not_eq_false]

theorem extreme_earliest (hkeep : keep ≠ .eq) {vs : List Value} (hvs : ∀ v ∈ vs, v.WellFormed)
    {m : Value} (h : extreme keep vs = some m) :
    ∃ r, vs.find? (fun v => v.canonicalCompare m == .eq) = some r ∧ r.unwrap = m := by
  rw [extreme_eq_find? hkeep hvs] at h
  obtain ⟨r, hr, rfl⟩ := Option.map_eq_some_iff.mp h
  obtain ⟨hnull, front, back, hsorted, hfront⟩ := List.find?_eq_some_iff_append.mp hr
  have hwf {v : Value} (hv : v ∈ front ++ r :: back) : v.WellFormed :=
    hvs v ((stableSort_perm _ vs).mem_iff.mp (hsorted ▸ hv))
  have hwr : r.WellFormed := hwf (List.mem_append_right front List.mem_cons_self)
  have hunwrap (v : Value) : v.canonicalCompare r.unwrap = v.canonicalCompare r := by
    simp only [Value.canonicalCompare, hwr.unwrap_unwrap]
  -- equal values keep the order they had, so the first of them is still the first
  have hstable : (stableSort (fun a b => a.canonicalCompare b == keep) vs).find?
      (fun v => v.canonicalCompare r == .eq) = vs.find? fun v => v.canonicalCompare r == .eq := by
    refine find?_stableSort fun v hv w hw hvr hwr' => ?_
    rw [beq_iff_eq] at hvr hwr'
    have hrw : r.canonicalCompare w = .eq := by
      rw [Value.canonicalCompare_swap (hvs w hw) hwr, hwr']
      rfl
    rw [beq_eq_false_iff_ne, Value.canonicalCompare_trans (hvs v hv) hwr (hvs w hw) hvr hrw]
    exact hkeep.symm
  refine ⟨r, ?_, rfl⟩
  simp only [hunwrap]
  rw [← hstable, hsorted]
  refine List.find?_eq_some_iff_append.mpr ⟨?_, front, back, rfl, fun v hv => ?_⟩
  · exact beq_iff_eq.mpr (Value.canonicalCompare_self hwr)
  · have hv' := hwf (List.mem_append_left _ hv)
    have hvnull : v.isNull = true := by simpa using hfront v hv
    rw [Bool.not_eq_true', beq_eq_false_iff_ne]
    refine Value.canonicalCompare_ne_eq hv' hwr fun hfam => ?_
    rw [(hwr.isNull_iff).mpr (hfam ▸ hv'.isNull_iff.mp hvnull)] at hnull
    cases hnull

/-- Well-formed values have a least and a greatest one just if not all of them are null. The least
is the first that is not null if they are sorted, and the greatest the first that is not null if
they are sorted the other way round, both without their wrapper. Each of them is the first in the
order given of all values that are equal to it. -/
theorem extremes_are_first_sorted {vs : List Value} (hvs : ∀ v ∈ vs, v.WellFormed) :
    ((least vs = none ↔ ∀ v ∈ vs, v.isNull = true) ∧
      (greatest vs = none ↔ ∀ v ∈ vs, v.isNull = true)) ∧
    least vs = ((Value.sort vs).find? fun v => !v.isNull).map Value.unwrap ∧
    greatest vs = ((Value.sortDown vs).find? fun v => !v.isNull).map Value.unwrap ∧
    ∀ m, least vs = some m ∨ greatest vs = some m →
      ∃ r, vs.find? (fun v => v.canonicalCompare m == .eq) = some r ∧ r.unwrap = m := by
  have hdown : (fun a b : Value => (a.canonicalCompare b).swap == .lt) =
      fun a b => a.canonicalCompare b == .gt := by
    funext a b
    cases a.canonicalCompare b <;> rfl
  have hlt : Ordering.lt ≠ .eq := nofun
  have hgt : Ordering.gt ≠ .eq := nofun
  refine ⟨⟨extreme_eq_none hlt hvs, extreme_eq_none hgt hvs⟩, extreme_eq_find? hlt hvs, ?_,
    fun m h => ?_⟩
  · rw [Value.sortDown, hdown]
    exact extreme_eq_find? hgt hvs
  · exact h.elim (extreme_earliest hlt hvs) (extreme_earliest hgt hvs)

/-- Of a small and a large one in two widths each, with a null between them, the extremes are
those that come first, the small one without its wrapper. -/
theorem first_widths_are_extreme :
    let vs : List Value := [.int64 9, .wrapped (.int8 1), .null, .int16 9, .int32 1]
    least vs = some (.int8 1) ∧ greatest vs = some (.int64 9) := by
  intro vs
  have hvs : ∀ v ∈ vs, v.WellFormed := by
    simp [vs, Value.WellFormed]
  obtain ⟨-, hleast, hgreatest, -⟩ := extremes_are_first_sorted hvs
  rw [hleast, hgreatest]
  decide

end ObjectStore
