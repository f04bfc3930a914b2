import ObjectStore.Proofs.Search
import ObjectStore.Proofs.Value.Order

/-
  In strictly ascending order of value.

  Three things are searched by value: the elements of a set, the values of a set that
  belongs to no object yet, and the keys of the rows that a view has taken. All of them are
  kept in strictly ascending order, and for all of them this is what the search relies on
  and what it gives back. Here `f` is what the members are ordered by.

    1. `Value.Ascending.right_place`: a search finds what is there.
    2. `Value.Ascending.insertIdx_iff`: where a new member belongs.
    3. `Value.Ascending.insertIdx_free`: the search answers a place where it belongs.
-/

namespace ObjectStore

namespace Value

variable {α : Type} {f : α → Value} {xs : List α}

/-- Members with well-formed values, in strictly ascending order of these. -/
structure Ascending (f : α → Value) (xs : List α) : Prop where
  wellFormed : ∀ x ∈ xs, (f x).WellFormed
  ascending : xs.Pairwise fun x y => (f x).canonicalCompare (f y) = .lt

namespace Ascending

theorem nil : Ascending f [] := ⟨nofun, .nil⟩

theorem nodup (h : Ascending f xs) : xs.Nodup := by
  refine List.nodup_iff_pairwise_ne.mpr (h.ascending.imp_of_mem fun {x y} hx _ hlt => ?_)
  rintro rfl
  rw [canonicalCompare_self (h.wellFormed x hx)] at hlt
  cases hlt

theorem map (h : Ascending f xs) : Ascending id (xs.map f) := by
  refine ⟨fun v hv => ?_, List.pairwise_map.mpr h.ascending⟩
  obtain ⟨x, hx, rfl⟩ := List.mem_map.mp hv
  exact h.wellFormed x hx

theorem eq_of_canonicalCompare (h : Ascending f xs) {x y : α} (hx : x ∈ xs) (hy : y ∈ xs)
    (heq : (f x).canonicalCompare (f y) = .eq) : x = y := by
  have hnot {a b : α} (ha : a ∈ xs) (hb : b ∈ xs)
      (hab : (f a).canonicalCompare (f b) = .lt) : (f b).canonicalCompare (f a) ≠ .eq := by
    rw [canonicalCompare_swap (h.wellFormed a ha) (h.wellFormed b hb), hab]
    exact nofun
  obtain ⟨i, hi, rfl⟩ := List.getElem_of_mem hx
  obtain ⟨j, hj, rfl⟩ := List.getElem_of_mem hy
  rcases Nat.lt_trichotomy i j with hlt | rfl | hgt
  · rw [List.pairwise_iff_getElem.mp h.ascending i j hi hj hlt] at heq
    cases heq
  · rfl
  · exact absurd heq (hnot hy hx (List.pairwise_iff_getElem.mp h.ascending j i hj hi hgt))

/-- A search by value answers the right place. -/
theorem right_place (h : Ascending f xs) {v : Value} (hv : v.WellFormed) :
    (search (fun x => (f x).canonicalCompare v) xs).Right
      (fun x => (f x).canonicalCompare v) xs := by
  refine search_right (h.ascending.imp_of_mem fun {x y} hx hy hxy => ?_)
  have hx := h.wellFormed x hx
  have hy := h.wellFormed y hy
  constructor
  · intro hgt
    have hvx := (canonicalCompare_gt_iff hx hv).mp hgt
    have hvy := canonicalCompare_lt_trans hv hx hy hvx hxy
    exact (canonicalCompare_gt_iff hy hv).mpr hvy
  · exact canonicalCompare_lt_trans hx hy hv hxy

theorem found_iff (h : Ascending f xs) {v : Value} (hv : v.WellFormed) :
    (∃ i, search (fun x => (f x).canonicalCompare v) xs = .found i) ↔
      ∃ x ∈ xs, (f x).canonicalCompare v = .eq :=
  (h.right_place hv).found_iff

theorem of_free (h : Ascending f xs) {v : Value} (hv : v.WellFormed) {i : Nat}
    (hplace : search (fun x => (f x).canonicalCompare v) xs = .free i) :
    i ≤ xs.length ∧ ∀ x ∈ xs, (f x).canonicalCompare v ≠ .eq := by
  have hright := h.right_place hv
  rw [hplace] at hright
  refine ⟨hright.1, fun x hx heq => ?_⟩
  obtain ⟨j, hj⟩ := (h.found_iff hv).mpr ⟨x, hx, heq⟩
  rw [hplace] at hj
  cases hj

/-- A new member keeps the order if it stands behind what comes before it and before what
comes behind it. -/
theorem insertIdx_iff (h : Ascending f xs) {x : α} (hx : (f x).WellFormed) {i : Nat}
    (hi : i ≤ xs.length) :
    Ascending f (xs.insertIdx i x) ↔
      (∀ y ∈ xs.take i, (f y).canonicalCompare (f x) = .lt) ∧
        ∀ y ∈ xs.drop i, (f x).canonicalCompare (f y) = .lt := by
  rw [insertIdx_eq_take_drop hi]
  constructor
  · intro hc
    obtain ⟨-, hbehind, hbefore⟩ := List.pairwise_append.mp hc.ascending
    exact ⟨fun y hy => hbefore y hy x List.mem_cons_self, (List.pairwise_cons.mp hbehind).1⟩
  · rintro ⟨hbefore, hbehind⟩
    have hsplit := h.ascending
    rw [← List.take_append_drop i xs] at hsplit
    obtain ⟨htake, hdrop, hacross⟩ := List.pairwise_append.mp hsplit
    refine ⟨fun y hy => ?_, List.pairwise_append.mpr
      ⟨htake, List.pairwise_cons.mpr ⟨hbehind, hdrop⟩, fun a ha b hb => ?_⟩⟩
    · rcases List.mem_append.mp hy with hy | hy
      · exact h.wellFormed y (List.mem_of_mem_take hy)
      · rcases List.mem_cons.mp hy with rfl | hy
        · exact hx
        · exact h.wellFormed y (List.mem_of_mem_drop hy)
    · rcases List.mem_cons.mp hb with rfl | hb
      · exact hbefore a ha
      · exact hacross a ha b hb

/-- At the place that the search answers for a value that is not there, a member with this
value keeps the order. -/
theorem insertIdx_free (h : Ascending f xs) {x : α} (hx : (f x).WellFormed) {i : Nat}
    (hplace : search (fun y => (f y).canonicalCompare (f x)) xs = .free i) :
    Ascending f (xs.insertIdx i x) := by
  have hright := h.right_place hx
  rw [hplace] at hright
  obtain ⟨hi, hbefore, hbehind⟩ := hright
  refine (h.insertIdx_iff hx hi).mpr ⟨hbefore, fun y hy => ?_⟩
  exact (canonicalCompare_gt_iff (h.wellFormed y (List.mem_of_mem_drop hy)) hx).mp (hbehind y hy)

end Ascending

end Value

end ObjectStore
