import ObjectStore.Proofs.Value.Exact
import ObjectStore.Proofs.Value.Extremes

/-
  A range around all elements.

  Whether all elements of a container lie in a range is decided by two of them, the least and
  the greatest in the canonical order, while the ends of the range are compared exactly. The
  two orders do not agree: the canonical one goes through the families one after the other,
  and has a place for every NaN. But an element of another family, or a NaN, is never inside
  of two elements that are in the range, so it is noticed at one end or the other.

    1. `Value.compareExact?_unwrap`: what is found comes without its wrapper, which the exact
       comparison does not see.
    2. `Expr.allWithin_iff_range`: the two elements decide for all.
-/

namespace ObjectStore

namespace Value

variable {v : Value}

/-- The exact comparison does not see the wrapper. -/
theorem compareExact?_unwrap (h : v.WellFormed) (w : Value) :
    v.unwrap.compareExact? w = v.compareExact? w := by
  simp only [compareExact?, h.unwrap_unwrap]

theorem isAtLeast_unwrap (h : v.WellFormed) (w : Value) : v.unwrap.isAtLeast w = v.isAtLeast w := by
  rw [isAtLeast, compareExact?_unwrap h, isAtLeast]

theorem isAtMost_unwrap (h : v.WellFormed) (w : Value) : v.unwrap.isAtMost w = v.isAtMost w := by
  rw [isAtMost, compareExact?_unwrap h, isAtMost]

theorem isBelow_unwrap (h : v.WellFormed) (w : Value) : v.unwrap.isBelow w = v.isBelow w := by
  rw [isBelow, compareExact?_unwrap h, isBelow]

end Value

/-- All elements lie in a range, as far as their extremes tell, just if there is an element
that is not null and every such element lies in the range. -/
theorem elementsWithin_iff {es : List Element} (hes : ∀ e ∈ es, e.value.WellFormed) {b : Bounds}
    (hb : b.lo.unwrap.family? = b.hi.unwrap.family?) :
    elementsWithin es b = true ↔
      (∃ e ∈ es, e.value.isNull = false) ∧
        ∀ e ∈ es, e.value.isNull = false → e.value.within b = true := by
  have hwf : ∀ v ∈ es.map (·.value), v.WellFormed := by
    intro v hv
    obtain ⟨e, he, rfl⟩ := List.mem_map.mp hv
    exact hes e he
  rcases extreme_cases .lt nofun hwf with ⟨hleast, hnulls⟩ | ⟨u, hu, hun, hleast, hlow⟩
  · -- nothing to compare
    simp only [elementsWithin, least, hleast]
    refine iff_of_false nofun ?_
    rintro ⟨⟨e, he, hnull⟩, -⟩
    rw [hnulls e.value (List.mem_map_of_mem he)] at hnull
    cases hnull
  rcases extreme_cases .gt nofun hwf with ⟨-, hnulls⟩ | ⟨w, hw, hwn, hgreatest, hhigh⟩
  · rw [hnulls u hu] at hun
    cases hun
  have hwu := hwf u hu
  have hww := hwf w hw
  have hdecide : elementsWithin es b =
      (u.isAtLeast b.lo && if b.inclusive then w.isAtMost b.hi else w.isBelow b.hi) := by
    simp only [elementsWithin, least, hleast, greatest, hgreatest, Value.isAtLeast_unwrap hwu,
      Value.isAtMost_unwrap hww, Value.isBelow_unwrap hww]
  rw [hdecide, Bool.and_eq_true]
  constructor
  · rintro ⟨hlo, hhi⟩
    obtain ⟨e, he, rfl⟩ := List.mem_map.mp hu
    refine ⟨⟨e, he, hun⟩, fun x hx hnull => ?_⟩
    have hmem : x.value ∈ es.map (·.value) := List.mem_map_of_mem hx
    refine Value.within_of_between hwu (hes x hx) hww ?_ (hhigh _ hmem hnull) hb hlo hhi
    rw [ne_eq, Value.canonicalCompare_gt_iff hwu (hes x hx)]
    exact hlow _ hmem hnull
  · rintro ⟨-, hall⟩
    have hin {v : Value} (hv : v ∈ es.map (·.value)) (hnull : v.isNull = false) :
        v.within b = true := by
      obtain ⟨e, he, rfl⟩ := List.mem_map.mp hv
      exact hall e he hnull
    have hlo := hin hu hun
    have hhi := hin hw hwn
    rw [Value.within, Bool.and_eq_true] at hlo hhi
    exact ⟨hlo.1, hhi.2⟩

/-- The ends have to be of one family: else the least element may be compared with the one,
and the greatest with the other. -/
example :
    let b : Bounds := ⟨.int64 0, .double ⟨0x4008000000000000⟩, true⟩
    elementsWithin [⟨⟨1⟩, .int64 1, 1⟩, ⟨⟨2⟩, .double ⟨0x4000000000000000⟩, 1⟩] b = true ∧
      (Value.int64 1).within b = false := by
  decide

namespace Expr

/-- Where a path reaches a container of well-formed values, and the two ends of a range are of
one family, the range holds of all elements as a whole just if there is an element that is not
null, and every element that is not null satisfies the range itself. The family of an end is
the one that a comparison finds in it, its own one if it is well-formed. -/
theorem allWithin_iff_range {s : Snapshot} {candidate : Value} {p : Path} {es : List Element}
    {b : Bounds} (hreach : s.reach candidate p.segments = .elements es)
    (hes : ∀ e ∈ es, e.value.WellFormed) (hb : b.lo.unwrap.family? = b.hi.unwrap.family?) :
    (Expr.allWithin p b).holds s candidate = true ↔
      (∃ e ∈ es, e.value.isNull = false) ∧
        ∀ e ∈ es, e.value.isNull = false → (Expr.range ⟨[]⟩ b).holds s e.value = true := by
  simp only [holds, hreach]
  exact elementsWithin_iff hes hb

/-! ## The readings of a station -/

/-- The negative zero, nothing, one and a half in 32 bits, and a wrapped two. -/
def readings : List Element :=
  [⟨⟨1⟩, .double ⟨0x8000000000000000⟩, 1⟩, ⟨⟨2⟩, .null, 1⟩, ⟨⟨3⟩, .single ⟨0x3fc00000⟩, 1⟩,
    ⟨⟨4⟩, .wrapped (.double ⟨0x4000000000000000⟩), 1⟩]

def station : Snapshot := ⟨1, [⟨⟨1⟩, "Station", [("readings", .list readings)], 1⟩], 1, 4⟩

def zeroToTwo : Bounds := ⟨.double .zero, .double ⟨0x4000000000000000⟩, true⟩

/-- The readings lie in the range, so each of them does but the one that is missing. -/
theorem readings_in_range :
    station.reach (.object ⟨1⟩) ["readings"] = .elements readings ∧
      (∀ e ∈ readings, e.value.WellFormed) ∧
      zeroToTwo.lo.unwrap.family? = zeroToTwo.hi.unwrap.family? ∧
      (∃ e ∈ readings, e.value.isNull = false) ∧
      ∀ e ∈ readings, e.value.isNull = false →
        (Expr.range ⟨[]⟩ zeroToTwo).holds station e.value = true := by
  have hwf : ∀ e ∈ readings, e.value.WellFormed := by
    simp [readings, Value.WellFormed]
  have hholds : (Expr.allWithin ⟨["readings"]⟩ zeroToTwo).holds station (.object ⟨1⟩) = true := by
    decide
  exact ⟨rfl, hwf, rfl, (allWithin_iff_range rfl hwf rfl).mp hholds⟩

end Expr

end ObjectStore
