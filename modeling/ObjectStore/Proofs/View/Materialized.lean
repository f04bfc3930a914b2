import ObjectStore.Proofs.Store.Removal
import ObjectStore.Proofs.View.Ordered

/-
  What the rows of a view are.

  A view filters the rows of its source, sorts them by a key, and of rows with equal keys it
  keeps the first. The keys of sorting and of leaving out are read along paths, so they are
  values of any family, and null where a link on the way leads nowhere. All that is needed of
  them is that they are well-formed (`Recipe.wellFormed_keyOf`), for then the canonical
  comparison is a total order. The direction of a sort turns the comparison round, not the
  order of rows with equal keys.

  A name stands in the rows at most once where keys and slots are not handed out twice
  (`Snapshot.Numbered`), as it is in every snapshot and batch that a run comes to
  (`World.HeldDuring.numbered`, `World.numbered_batch`).

    1. `Snapshot.Broken`: a path that is cut off on the way reaches null.
    2. `Recipe.order_nulls`: where null stands among sorted rows.
    3. `Recipe.Materialized` says what the rows of a recipe are, `Recipe.materialized` that
       they are so.
-/

namespace ObjectStore

/-! ## Keys -/

theorem Value.eq_null_of_rank {v : Value} (hv : v.WellFormed) (h : v.rank = 0) : v = .null := by
  have hpos (f : Family) : f.rank ≠ 0 := by cases f <;> exact nofun
  cases hf : v.family? with
  | some f =>
    rw [rank, hf] at h
    exact absurd h (hpos f)
  | none =>
    cases v with
    | null => rfl
    | wrapped w =>
      cases w with
      | null => exact hv.elim
      | wrapped u => exact hv.elim
      | _ => cases hf
    | _ => cases hf

namespace Snapshot

variable {s : Snapshot} {v : Value} {names : List String}

theorem WellFormed.reach (hs : s.WellFormed) (hv : v.WellFormed) (names : List String) :
    (s.reach v names).value.WellFormed := by
  induction names generalizing v with
  | nil => exact hv
  | cons name rest ih =>
    rw [Snapshot.reach]
    cases he : v.asObject.bind s.entity? with
    | none => trivial
    | some e =>
      obtain ⟨key, -, hentity⟩ := Option.bind_eq_some_iff.mp he
      cases hf : e.field? name with
      | none => simp only [hf]; trivial
      | some f =>
        cases f with
        | value w =>
          simp only [hf]
          exact ih (hs e (mem_of_entity? hentity) _ (Fields.mem_of_get? hf) w List.mem_cons_self)
        | list es => simp only [hf]; trivial
        | set es => simp only [hf]; trivial

/-- A path comes to a value that links to no object before it ends: to null, or to a link whose
object is gone. -/
def Broken (s : Snapshot) (v : Value) (names : List String) : Prop :=
  ∃ front name rest w, names = front ++ name :: rest ∧ s.reach v front = .scalar w ∧
    w.asObject.bind s.entity? = none

theorem reach_broken (h : s.Broken v names) : s.reach v names = .scalar .null := by
  obtain ⟨front, name, rest, w, rfl, hw, hnone⟩ := h
  induction front generalizing v with
  | nil =>
    obtain rfl : v = w := Reached.scalar.inj hw
    rw [List.nil_append, reach, hnone]
  | cons first front ih =>
    rw [List.cons_append]
    rw [reach] at hw ⊢
    cases he : v.asObject.bind s.entity? with
    | none => rfl
    | some e =>
      simp only [he] at hw ⊢
      cases hf : e.field? first with
      | none => rfl
      | some f =>
        simp only [hf] at hw ⊢
        cases f with
        | value u => exact ih hw
        | list es => cases hw
        | set es => cases hw

end Snapshot

namespace Recipe

variable {s : Snapshot} {k : SortKey} {p : Path} {all rows : List Row}

theorem wellFormed_value (hs : s.WellFormed) {source : Source} {x : Row}
    (hx : x ∈ allRows s source) : x.value.WellFormed := by
  cases source with
  | objects className =>
    obtain ⟨e, -, rfl⟩ := List.mem_map.mp hx
    trivial
  | container key =>
    obtain ⟨e, he, rfl⟩ := List.mem_map.mp hx
    exact hs.element he

theorem wellFormed_keyOf (hs : s.WellFormed) {source : Source} {x : Row}
    (hx : x ∈ allRows s source) (p : Path) : (keyOf s p x).WellFormed :=
  hs.reach (wellFormed_value hs hx) p.segments

/-! ## Sorted rows -/

theorem order_directed (hrows : ∀ r ∈ rows, (keyOf s k.path r).WellFormed) :
    (order s (some k) rows).Pairwise fun x y =>
      (keyOf s k.path x).canonicalCompare (keyOf s k.path y) ≠
        if k.ascending then .gt else .lt := by
  have hmem {r : Row} (hr : r ∈ order s (some k) rows) : (keyOf s k.path r).WellFormed :=
    hrows r ((order_perm s (some k) rows).mem_iff.mp hr)
  refine (order_sorted hrows).imp_of_mem fun {x y} hx hy hxy heq => hxy ?_
  rw [Value.canonicalCompare_swap (hmem hx) (hmem hy), heq, SortKey.direction]
  cases k.ascending <;> rfl

/-- Null comes first in ascending order, and last in descending order. -/
theorem order_nulls (hrows : ∀ r ∈ rows, (keyOf s k.path r).WellFormed) :
    (order s (some k) rows).Pairwise fun x y =>
      if k.ascending then keyOf s k.path y = .null → keyOf s k.path x = .null
      else keyOf s k.path x = .null → keyOf s k.path y = .null := by
  have hmem {r : Row} (hr : r ∈ order s (some k) rows) : (keyOf s k.path r).WellFormed :=
    hrows r ((order_perm s (some k) rows).mem_iff.mp hr)
  have hnull {r : Row} (hr : (keyOf s k.path r).WellFormed) {v : Value} (hv : v = .null)
      (hle : (keyOf s k.path r).rank ≤ v.rank) : keyOf s k.path r = .null := by
    rw [hv] at hle
    exact Value.eq_null_of_rank hr (Nat.le_zero.mp hle)
  refine (order_sorted hrows).imp_of_mem fun {x y} hx hy hxy => ?_
  cases hdir : k.ascending with
  | true =>
    rw [SortKey.direction, hdir, if_pos rfl, ne_eq,
      ← Value.canonicalCompare_gt_iff (hmem hx) (hmem hy)] at hxy
    exact fun hy' => hnull (hmem hx) hy' (Value.rank_le_of_canonicalCompare (hmem hx) (hmem hy) hxy)
  | false =>
    rw [SortKey.direction, hdir, if_neg Bool.false_ne_true] at hxy
    exact fun hx' => hnull (hmem hy) hx' (Value.rank_le_of_canonicalCompare (hmem hy) (hmem hx) hxy)

/-! ## The rows of a recipe -/

/-- Whether the predicate of a recipe lets a row pass. -/
def admits (r : Recipe) (s : Snapshot) (x : Row) : Bool :=
  match r.predicate with
  | none => true
  | some p => p.expr.holds s x.value

theorem keep_eq (r : Recipe) (s : Snapshot) (rows : List Row) :
    keep s r.predicate rows = rows.filter (r.admits s) := by
  unfold admits
  cases r.predicate with
  | none => exact (List.filter_true rows).symm
  | some p => rfl

theorem rows_of_source {r : Recipe} (h : sourceRows s r.source = .ok all) :
    r.rows s = .ok (dedup s r.distinct (order s r.sort (all.filter (r.admits s)))) := by
  rw [← keep_eq, Recipe.rows, h]

theorem rows_error_congr {r r' : Recipe} {err : Error} (hsource : r'.source = r.source)
    (h : r.rows s = .error err) : r'.rows s = .error err := by
  unfold Recipe.rows at h ⊢
  rw [hsource]
  cases hall : sourceRows s r.source with
  | error err' =>
    rw [hall] at h
    exact h
  | ok all =>
    rw [hall] at h
    cases h

theorem exists_source {r : Recipe} (h : r.rows s = .ok rows) :
    sourceRows s r.source = .ok (allRows s r.source) := by
  cases hall : sourceRows s r.source with
  | error err =>
    rw [Recipe.rows, hall] at h
    cases h
  | ok all => rw [sourceRows_of_ok hall]

/-- What the rows of a recipe are, made of all rows of its source. -/
structure Materialized (r : Recipe) (s : Snapshot) (all rows : List Row) : Prop where
  /-- They are rows of the source, and the predicate holds of them. -/
  admitted : ∀ x ∈ rows, x ∈ all ∧ r.admits s x = true
  /-- No name stands in them twice. -/
  once : s.Numbered → (rows.map (·.id)).Nodup
  /-- No row of the source of which the predicate holds is missing. -/
  complete : r.distinct = none → rows.Perm (all.filter (r.admits s))
  /-- Without a sort key they stand in the order of the source. -/
  unsorted : r.sort = none → rows.Sublist all
  /-- They stand in the canonical order of their keys, or in the reverse of it. -/
  sorted : ∀ k ∈ r.sort, rows.Pairwise fun x y =>
    (keyOf s k.path x).canonicalCompare (keyOf s k.path y) ≠ if k.ascending then .gt else .lt
  /-- Rows with one key stand in the order of the source. -/
  stable : ∀ k ∈ r.sort, ∀ x ∈ rows,
    (rows.filter fun y => (keyOf s k.path x).isLike (keyOf s k.path y)).Sublist all
  /-- Null comes first in ascending order, and last in descending order. -/
  nulls : ∀ k ∈ r.sort, rows.Pairwise fun x y =>
    if k.ascending then keyOf s k.path y = .null → keyOf s k.path x = .null
    else keyOf s k.path x = .null → keyOf s k.path y = .null
  /-- The key behind a null or dangling link is null. -/
  broken : ∀ k ∈ r.sort, ∀ x ∈ all, s.Broken x.value k.path.segments → keyOf s k.path x = .null
  /-- No two have one key, if repeated keys are left out. -/
  distinct : ∀ p ∈ r.distinct, rows.Pairwise fun x y =>
    (keyOf s p x).canonicalCompare (keyOf s p y) ≠ .eq
  /-- Then each key is there with its first row, in the order that they would have otherwise. -/
  earliest : ∀ p ∈ r.distinct, ∃ sorted, { r with distinct := none }.rows s = .ok sorted ∧
    rows.Sublist sorted ∧ ∀ x ∈ all, r.admits s x = true → ∃ y ∈ rows,
      sorted.find? (fun z => (keyOf s p x).isLike (keyOf s p z)) = some y

/-- The rows of a recipe are what they should be, in any content of well-formed values that has
its source. -/
theorem materialized (r : Recipe) (hs : s.WellFormed) (hall : sourceRows s r.source = .ok all) :
    ∃ rows, r.rows s = .ok rows ∧ r.Materialized s all rows := by
  have hkeys (p : Path) : ∀ x ∈ all, (keyOf s p x).WellFormed := by
    rw [sourceRows_of_ok hall]
    exact fun x hx => wellFormed_keyOf hs hx p
  let kept := all.filter (r.admits s)
  let sorted := order s r.sort kept
  let rows := dedup s r.distinct sorted
  have hkept : kept.Sublist all := List.filter_sublist
  have hsorted : sorted.Perm kept := order_perm s r.sort kept
  have hrows : rows.Sublist sorted := dedup_sublist s r.distinct sorted
  have hkeptKeys (p : Path) : ∀ x ∈ kept, (keyOf s p x).WellFormed :=
    fun x hx => hkeys p x (hkept.mem hx)
  have hsortedKeys (p : Path) : ∀ x ∈ sorted, (keyOf s p x).WellFormed :=
    fun x hx => hkeptKeys p x (hsorted.mem_iff.mp hx)
  have hmem {x : Row} (hx : x ∈ rows) : x ∈ kept := hsorted.mem_iff.mp (hrows.mem hx)
  have hordered {k : SortKey} (hk : k ∈ r.sort) : rows.Sublist (order s (some k) kept) := by
    rw [← Option.mem_def.mp hk]
    exact hrows
  have hdeduped {p : Path} (hp : p ∈ r.distinct) : rows = firsts s p [] sorted := by
    simp only [rows, Option.mem_def.mp hp, dedup]
  have hanswer : r.rows s = .ok rows := rows_of_source hall
  refine ⟨rows, hanswer, ?_⟩
  constructor
  case admitted => exact fun x hx => List.mem_filter.mp (hmem hx)
  case once =>
    intro hn
    have hnodup := nodup_ids hn r
    rwa [rowsOrNone, hanswer] at hnodup
  case complete =>
    intro hnone
    have hsame : rows = sorted := by simp only [rows, hnone, dedup]
    rwa [hsame]
  case unsorted =>
    intro hnone
    have hsame : sorted = kept := by simp only [sorted, hnone, order]
    rw [hsame] at hrows
    exact hrows.trans hkept
  case sorted => exact fun k hk => (order_directed (hkeptKeys k.path)).sublist (hordered hk)
  case stable =>
    intro k hk x hx
    have hsub := (hordered hk).filter fun y => (keyOf s k.path x).isLike (keyOf s k.path y)
    rw [filter_order (hkeptKeys k.path) (hkeptKeys k.path x (hmem hx))] at hsub
    exact hsub.trans (List.filter_sublist.trans hkept)
  case nulls => exact fun k hk => (order_nulls (hkeptKeys k.path)).sublist (hordered hk)
  case broken =>
    intro k _ x _ hbroken
    rw [keyOf, Snapshot.reach_broken hbroken, Reached.value]
  case distinct =>
    intro p hp
    rw [hdeduped hp]
    exact firsts_pairwise .nil (hsortedKeys p)
  case earliest =>
    intro p hp
    refine ⟨sorted, rows_of_source (r := { r with distinct := none }) hall, hrows,
      fun x hx hadmits => ?_⟩
    rw [hdeduped hp]
    exact exists_firsts (hsortedKeys p)
      (hsorted.mem_iff.mpr (List.mem_filter.mpr ⟨hx, hadmits⟩))

/-- A dog with an age and an owner. -/
def dog (key : Nat) (age owner : Value) : Entity :=
  ⟨⟨key⟩, "Dog", [("age", .value age), ("owner", .value owner)], 1⟩

/-- Two dogs of Ann, one without owner, and one whose owner is gone. -/
def kennel : Snapshot :=
  ⟨1, [dog 1 (.int32 3) (.object ⟨9⟩), dog 2 (.int32 7) (.object ⟨5⟩), dog 3 .null .null,
    dog 4 (.int32 3) (.object ⟨5⟩), ⟨⟨5⟩, "Person", [("name", .value (.string "Ann"))], 1⟩], 5, 0⟩

def rowOf (key : Nat) : Row := ⟨.object ⟨key⟩, .object ⟨key⟩, 1⟩

/-- The dogs by the names of their owners from the last one down, one of each age. -/
def byOwner : Recipe := ⟨.objects "Dog", none, some ⟨⟨["owner", "name"]⟩, false⟩, some ⟨["age"]⟩⟩

/-- The dogs of Ann come first, in the order of their keys. Of the two dogs of age 3 the one
that comes behind them is left out. -/
theorem dogs_by_owner : kennel.WellFormed ∧
    sourceRows kennel byOwner.source = .ok [rowOf 1, rowOf 2, rowOf 3, rowOf 4] ∧
    byOwner.rows kennel = .ok [rowOf 2, rowOf 4, rowOf 3] ∧
    byOwner.Materialized kennel [rowOf 1, rowOf 2, rowOf 3, rowOf 4]
      [rowOf 2, rowOf 4, rowOf 3] := by
  have hw : kennel.WellFormed := by
    simp [Snapshot.WellFormed, kennel, dog, Field.values, Value.WellFormed, or_imp, forall_and]
  have hall : sourceRows kennel byOwner.source = .ok [rowOf 1, rowOf 2, rowOf 3, rowOf 4] :=
    rfl
  have hrows : byOwner.rows kennel = .ok [rowOf 2, rowOf 4, rowOf 3] := by decide +kernel
  obtain ⟨rows, hanswer, hmade⟩ := materialized byOwner hw hall
  obtain rfl : rows = [rowOf 2, rowOf 4, rowOf 3] := Except.ok.inj (hanswer.symm.trans hrows)
  exact ⟨hw, hall, hrows, hmade⟩

end Recipe

end ObjectStore
