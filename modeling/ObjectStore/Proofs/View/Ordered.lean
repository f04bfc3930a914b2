import ObjectStore.Proofs.Container.Firsts
import ObjectStore.Proofs.View.Rows

/-
  Rows in the order of their keys, and the first row of each key.

  Sorting keeps rows with equal keys in the order they had, and of these only the first is
  kept where a view leaves out repeated keys. The keys that were seen are searched like the
  elements of a set, and so, if a view does both with one key, its rows have as keys what a
  set would hold of them.

    1. `Recipe.order_sorted` and `Recipe.filter_order`: the sorted rows, in either direction.
       `Recipe.order_filter`: rows may be left out before or after sorting.
    2. `Recipe.firsts_cons_cases`: what becomes of one row. From this come
       `Recipe.mem_firsts_iff` and `Recipe.firsts_pairwise`: the rows that are kept, and
       `Recipe.firsts_perm`: those that are kept of rows in another order.
    3. `Recipe.firsts_order`: both together.
-/

namespace ObjectStore

/-- How the key of a row compares with that of a row behind it, if they differ. -/
def SortKey.direction (k : SortKey) : Ordering := if k.ascending then .lt else .gt

theorem SortKey.direction_ne_eq (k : SortKey) : k.direction ≠ .eq := by
  unfold direction
  cases k.ascending <;> exact nofun

namespace Recipe

variable {s : Snapshot} {k : SortKey} {p : Path} {rows : List Row} {seen : List Value}

/-! ## Sorted rows -/

theorem order_some (s : Snapshot) (k : SortKey) (rows : List Row) :
    order s (some k) rows = stableSort
      (fun a b => (keyOf s k.path a).canonicalCompare (keyOf s k.path b) == k.direction) rows := by
  rw [order, SortKey.direction]
  cases k.ascending <;> rfl

theorem preorders_keyOf (s : Snapshot) (k : SortKey) :
    Preorders
      (fun a b : Row => (keyOf s k.path a).canonicalCompare (keyOf s k.path b) == k.direction)
      fun r => (keyOf s k.path r).WellFormed :=
  (Value.preorders_canonicalCompare k.direction_ne_eq).comap (keyOf s k.path)

/-- No row comes before one that stands in front of it. -/
theorem order_sorted (hrows : ∀ r ∈ rows, (keyOf s k.path r).WellFormed) :
    (order s (some k) rows).Pairwise fun a b =>
      (keyOf s k.path b).canonicalCompare (keyOf s k.path a) ≠ k.direction := by
  rw [order_some]
  exact (stableSort_sorted (preorders_keyOf s k) hrows).imp fun h => beq_eq_false_iff_ne.mp h

/-- Rows with one key keep the order they had. -/
theorem filter_order (hrows : ∀ r ∈ rows, (keyOf s k.path r).WellFormed) {v : Value}
    (hv : v.WellFormed) : (order s (some k) rows).filter (fun r => v.isLike (keyOf s k.path r)) =
      rows.filter fun r => v.isLike (keyOf s k.path r) := by
  rw [order_some]
  refine filter_stableSort fun x hx y hy hvx hvy => ?_
  have hxy : (keyOf s k.path y).isLike (keyOf s k.path x) = true := by
    rwa [Value.isLike_congr (hrows x hx) (hrows y hy) hv hvy]
  rw [beq_eq_false_iff_ne, Value.isLike_iff.mp hxy]
  exact k.direction_ne_eq.symm

theorem find?_order (hrows : ∀ r ∈ rows, (keyOf s k.path r).WellFormed) {v : Value}
    (hv : v.WellFormed) : (order s (some k) rows).find? (fun r => v.isLike (keyOf s k.path r)) =
      rows.find? fun r => v.isLike (keyOf s k.path r) := by
  rw [← List.head?_filter, filter_order hrows hv, List.head?_filter]

/-- Rows may be left out before or after sorting. -/
theorem order_filter {sort : Option SortKey} {q : Row → Bool}
    (hrows : ∀ k ∈ sort, ∀ r ∈ rows, (keyOf s k.path r).WellFormed) :
    order s sort (rows.filter q) = (order s sort rows).filter q := by
  cases sort with
  | none => rfl
  | some k =>
    rw [order_some, order_some]
    exact stableSort_filter (preorders_keyOf s k) (hrows k rfl)

/-! ## The first row of each key -/

/-- What becomes of a row: its key was seen, or it is kept and its key is seen from now on. -/
theorem firsts_cons_cases (hseen : Value.Ascending id seen) {x : Row}
    (hx : (keyOf s p x).WellFormed) (rows : List Row) :
    ((∃ v ∈ seen, (keyOf s p x).isLike v = true) ∧
      firsts s p seen (x :: rows) = firsts s p seen rows) ∨
    ((∀ v ∈ seen, (keyOf s p x).isLike v = false) ∧
      ∃ seen', Value.Ascending id seen' ∧ (∀ v, v ∈ seen' ↔ v = keyOf s p x ∨ v ∈ seen) ∧
        firsts s p seen (x :: rows) = x :: firsts s p seen' rows) := by
  rw [firsts]
  cases hplace : search (fun v => v.canonicalCompare (keyOf s p x)) seen with
  | found i =>
    obtain ⟨v, hv, heq⟩ := (hseen.found_iff hx).mp ⟨i, hplace⟩
    exact .inl ⟨⟨v, hv, Value.isLike_iff.mpr heq⟩, rfl⟩
  | free i =>
    obtain ⟨hi, hfree⟩ := hseen.of_free hx hplace
    refine .inr ⟨fun v hv => ?_, seen.insertIdx i (keyOf s p x),
      hseen.insertIdx_free (x := keyOf s p x) hx hplace, fun v => List.mem_insertIdx hi, rfl⟩
    rw [← Bool.not_eq_true, Value.isLike_iff]
    exact hfree v hv

/-- A row is kept if no row before it has its key, and the key was not seen. -/
theorem mem_firsts_iff (hseen : Value.Ascending id seen)
    (hrows : ∀ r ∈ rows, (keyOf s p r).WellFormed) {r : Row} (hr : (keyOf s p r).WellFormed) :
    r ∈ firsts s p seen rows ↔
      rows.find? (fun x => (keyOf s p r).isLike (keyOf s p x)) = some r ∧
        ∀ v ∈ seen, (keyOf s p r).isLike v = false := by
  induction rows generalizing seen with
  | nil => simp [firsts]
  | cons x rows ih =>
    have hx := hrows x List.mem_cons_self
    have hrest : ∀ y ∈ rows, (keyOf s p y).WellFormed :=
      fun y hy => hrows y (List.mem_cons_of_mem x hy)
    rw [List.find?_cons]
    rcases firsts_cons_cases hseen hx rows with ⟨⟨v, hv, hlikev⟩, hfirsts⟩ |
      ⟨hunseen, seen', hseen', hmem, hfirsts⟩
    · rw [hfirsts, ih hseen hrest]
      refine and_congr_left fun hunseen => ?_
      -- a key that was not seen is not the one of this row
      have hnot : (keyOf s p r).isLike (keyOf s p x) = false := by
        rw [← Bool.not_eq_true]
        intro hlike
        have hsame : (keyOf s p x).isLike v = (keyOf s p r).isLike v :=
          Value.isLike_congr (hseen.wellFormed v hv) hx hr hlike
        rw [hlikev, hunseen v hv] at hsame
        cases hsame
      rw [hnot]
    · simp only [hfirsts, List.mem_cons, ih hseen' hrest, hmem, forall_eq_or_imp]
      cases hlike : (keyOf s p r).isLike (keyOf s p x) with
      | true =>
        simp only [Bool.true_eq_false, false_and, and_false, or_false, Option.some.injEq]
        constructor
        · rintro rfl
          exact ⟨rfl, hunseen⟩
        · exact fun h => h.1.symm
      | false =>
        simp only [true_and, or_iff_right_iff_imp]
        rintro rfl
        rw [Value.isLike_self hx] at hlike
        cases hlike

theorem mem_firsts_nil (hrows : ∀ r ∈ rows, (keyOf s p r).WellFormed) {r : Row}
    (hr : (keyOf s p r).WellFormed) : r ∈ firsts s p [] rows ↔
      rows.find? (fun x => (keyOf s p r).isLike (keyOf s p x)) = some r := by
  rw [mem_firsts_iff .nil hrows hr]
  exact and_iff_left nofun

theorem find?_keyOf_congr (hrows : ∀ r ∈ rows, (keyOf s p r).WellFormed) {v w : Value}
    (hv : v.WellFormed) (hw : w.WellFormed) (h : w.isLike v = true) :
    rows.find? (fun r => v.isLike (keyOf s p r)) = rows.find? fun r => w.isLike (keyOf s p r) := by
  rw [← List.head?_filter, ← List.head?_filter]
  exact congrArg List.head? (List.filter_congr fun r hr => Value.isLike_congr (hrows r hr) hv hw h)

theorem exists_firsts (hrows : ∀ r ∈ rows, (keyOf s p r).WellFormed) {x : Row} (hx : x ∈ rows) :
    ∃ y ∈ firsts s p [] rows,
      rows.find? (fun r => (keyOf s p x).isLike (keyOf s p r)) = some y := by
  have hwfx := hrows x hx
  obtain ⟨y, hy⟩ := Option.isSome_iff_exists.mp
    (List.find?_isSome (p := fun r => (keyOf s p x).isLike (keyOf s p r)).mpr
      ⟨x, hx, Value.isLike_self hwfx⟩)
  have hwfy := hrows y (List.mem_of_find?_eq_some hy)
  have hlike : (keyOf s p x).isLike (keyOf s p y) = true :=
    List.find?_some (p := fun r => (keyOf s p x).isLike (keyOf s p r)) hy
  refine ⟨y, (mem_firsts_nil hrows hwfy).mpr ?_, hy⟩
  rw [find?_keyOf_congr hrows hwfy hwfx hlike, hy]

/-- No two rows that are kept have one key. -/
theorem firsts_pairwise (hseen : Value.Ascending id seen)
    (hrows : ∀ r ∈ rows, (keyOf s p r).WellFormed) :
    (firsts s p seen rows).Pairwise fun a b =>
      (keyOf s p a).canonicalCompare (keyOf s p b) ≠ .eq := by
  induction rows generalizing seen with
  | nil => exact .nil
  | cons x rows ih =>
    have hx := hrows x List.mem_cons_self
    have hrest : ∀ y ∈ rows, (keyOf s p y).WellFormed :=
      fun y hy => hrows y (List.mem_cons_of_mem x hy)
    rcases firsts_cons_cases hseen hx rows with ⟨-, hfirsts⟩ | ⟨-, seen', hseen', hmem, hfirsts⟩
    · rw [hfirsts]
      exact ih hseen hrest
    · rw [hfirsts]
      refine List.pairwise_cons.mpr ⟨fun y hy heq => ?_, ih hseen' hrest⟩
      have hy' := hrest y ((firsts_sublist s p seen' rows).mem hy)
      have hunlike := ((mem_firsts_iff hseen' hrest hy').mp hy).2 _ ((hmem _).mpr (.inl rfl))
      rw [Value.isLike_iff.mpr heq] at hunlike
      cases hunlike

theorem nodup_firsts (hrows : ∀ r ∈ rows, (keyOf s p r).WellFormed) :
    (firsts s p [] rows).Nodup := by
  refine (firsts_pairwise .nil hrows).imp_of_mem fun {a b} ha _ hab heq => hab ?_
  rw [heq, Value.canonicalCompare_self]
  exact heq ▸ hrows a ((firsts_sublist s p [] rows).mem ha)

/-- Whatever the order of the rows, one row of each key is kept. Here the rows of a key are told
by the first of them in one order. -/
theorem firsts_perm {rows' : List Row} (hperm : rows'.Perm rows)
    (hrows : ∀ r ∈ rows, (keyOf s p r).WellFormed) :
    ((firsts s p [] rows').map fun x =>
      rows.find? fun r => (keyOf s p x).isLike (keyOf s p r)).Perm
        ((firsts s p [] rows).map some) := by
  have hrows' : ∀ r ∈ rows', (keyOf s p r).WellFormed :=
    fun r hr => hrows r (hperm.mem_iff.mp hr)
  have hkept {x : Row} (hx : x ∈ firsts s p [] rows') : x ∈ rows :=
    hperm.mem_iff.mp ((firsts_sublist s p [] rows').mem hx)
  have hkept' {x : Row} (hx : x ∈ firsts s p [] rows) : x ∈ rows :=
    (firsts_sublist s p [] rows).mem hx
  have hlike {x y : Row} {xs : List Row}
      (h : xs.find? (fun r => (keyOf s p x).isLike (keyOf s p r)) = some y) :
      (keyOf s p x).isLike (keyOf s p y) = true :=
    List.find?_some (p := fun r => (keyOf s p x).isLike (keyOf s p r)) h
  refine (List.perm_ext_iff_of_nodup ?_ ?_).mpr fun o => ?_
  · refine List.pairwise_map.mpr ((firsts_pairwise .nil hrows').imp_of_mem ?_)
    intro x y hx hy hne heq
    have hwfx := hrows x (hkept hx)
    have hwfy := hrows y (hkept hy)
    -- what has the same first row has the same key
    obtain ⟨z, hz, hfind⟩ := exists_firsts hrows (hkept hx)
    have hwfz := hrows z (hkept' hz)
    have hlikey : (keyOf s p y).isLike (keyOf s p z) = true := hlike (heq ▸ hfind)
    refine hne (Value.isLike_iff.mp ?_)
    rw [← Value.isLike_congr hwfx hwfz hwfy hlikey, ← Value.isLike_comm hwfz hwfx]
    exact hlike hfind
  · exact (nodup_firsts hrows).map fun x y h => Option.some.inj h
  · simp only [List.mem_map]
    constructor
    · rintro ⟨x, hx, rfl⟩
      obtain ⟨y, hy, hfind⟩ := exists_firsts hrows (hkept hx)
      exact ⟨y, hy, hfind.symm⟩
    · rintro ⟨y, hy, rfl⟩
      have hwfy := hrows y (hkept' hy)
      obtain ⟨x, hx, hfind⟩ := exists_firsts hrows' (hperm.mem_iff.mpr (hkept' hy))
      refine ⟨x, hx, ?_⟩
      rw [find?_keyOf_congr hrows (hrows x (hkept hx)) hwfy (hlike hfind)]
      exact (mem_firsts_nil hrows hwfy).mp hy

/-- Rows sorted by a key and kept once for each: as keys they have the first occurrences. -/
theorem firsts_order (hrows : ∀ r ∈ rows, (keyOf s p r).WellFormed) :
    Value.Firsts (rows.map (keyOf s p))
      ((firsts s p [] (order s (some ⟨p, true⟩) rows)).map (keyOf s p)) := by
  have hperm := order_perm s (some ⟨p, true⟩) rows
  have hsorted : ∀ r ∈ order s (some ⟨p, true⟩) rows, (keyOf s p r).WellFormed :=
    fun r hr => hrows r (hperm.mem_iff.mp hr)
  have hkept : ∀ r ∈ firsts s p [] (order s (some ⟨p, true⟩) rows), (keyOf s p r).WellFormed :=
    fun r hr => hsorted r ((firsts_sublist s p [] _).mem hr)
  have hmem {r : Row} (hr : (keyOf s p r).WellFormed) :
      r ∈ firsts s p [] (order s (some ⟨p, true⟩) rows) ↔
        rows.find? (fun x => (keyOf s p r).isLike (keyOf s p x)) = some r := by
    have hfirst : (order s (some ⟨p, true⟩) rows).find?
        (fun x => (keyOf s p r).isLike (keyOf s p x)) = _ := find?_order (k := ⟨p, true⟩) hrows hr
    rw [mem_firsts_nil hsorted hr, hfirst]
  refine ⟨?_, fun v => ?_⟩
  · rw [List.pairwise_map]
    have hdistinct := firsts_pairwise .nil hsorted
    have hsublist := firsts_sublist s p [] (order s (some ⟨p, true⟩) rows)
    have hascending : (firsts s p [] (order s (some ⟨p, true⟩) rows)).Pairwise fun a b =>
        (keyOf s p b).canonicalCompare (keyOf s p a) ≠ .lt :=
      (order_sorted (k := ⟨p, true⟩) hrows).sublist hsublist
    refine (hdistinct.and hascending).imp_of_mem fun {a b} ha hb hab => ?_
    obtain ⟨hne, hle⟩ := hab
    rw [ne_eq, ← Value.canonicalCompare_gt_iff (hkept a ha) (hkept b hb)] at hle
    cases hc : (keyOf s p a).canonicalCompare (keyOf s p b) with
    | lt => rfl
    | eq => exact absurd hc hne
    | gt => exact absurd hc hle
  · rw [List.find?_map, Option.map_eq_some_iff, List.mem_map]
    refine exists_congr fun r => and_congr_left fun hr => ?_
    subst hr
    constructor
    · exact fun h => (hmem (hkept r h)).mp h
    · exact fun h => (hmem (hrows r (List.mem_of_find?_eq_some h))).mpr h

end Recipe

end ObjectStore
