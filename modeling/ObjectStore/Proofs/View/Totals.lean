import ObjectStore.Proofs.Run.Isolation
import ObjectStore.Proofs.Value.Exact
import ObjectStore.Proofs.Value.Totals
import ObjectStore.Proofs.View.Materialized

/-
  The sum of a view and of the same view sorted.

  Sorting only rearranges rows, so a view and a sorted version of it add up the same integers.
  Their sums agree as those of any two orders do. One step of a recipe comes after the sorting:
  where repeated keys are left out, the first row of each key is kept, and that may be another
  row once they are sorted. So of such a view it is asked that the rows of one key add the same
  integer (`Recipe.Settled`), as they do if the repeated keys are the integers themselves.

    1. `Recipe.integers_sortedBy`: the same integers in another order.
    2. `Results.sums_in_any_order`: the sums of values in any order, and those of a view and of
       a sorted version.
    3. `Results.sums_depend_on_order`: three integers with a sum in one order only, and a view
       that keeps another person of a team when it is sorted.
-/

namespace ObjectStore

namespace Recipe

variable {s : Snapshot} {r : Recipe} {p of : Path} {rows : List Row}

/-- The rows of the source that the predicate lets pass. -/
def passed (r : Recipe) (s : Snapshot) : List Row := (allRows s r.source).filter (r.admits s)

/-- Where repeated keys are left out, it does not matter for a property which row of a key is
kept. -/
structure Settled (r : Recipe) (s : Snapshot) (of : Path) : Prop where
  wellFormed : ∀ p ∈ r.distinct, ∀ x ∈ r.passed s, (keyOf s p x).WellFormed
  same : ∀ p ∈ r.distinct, ∀ x ∈ r.passed s, ∀ y ∈ r.passed s,
    (keyOf s p x).isLike (keyOf s p y) = true → (keyOf s of x).asInt = (keyOf s of y).asInt

theorem settled_of_wellFormed (hs : s.WellFormed) (h : ∀ p ∈ r.distinct, p = of) :
    r.Settled s of := by
  have hkeys (x : Row) (hx : x ∈ r.passed s) : (keyOf s of x).WellFormed :=
    wellFormed_keyOf hs (List.mem_filter.mp hx).1 of
  constructor
  case wellFormed =>
    intro p hp
    rwa [h p hp]
  case same =>
    intro p hp x hx y hy hlike
    rw [h p hp] at hlike
    exact (Value.asInt_congr (hkeys y hy) (hkeys x hx) (Value.isLike_iff.mp hlike)).symm

theorem integers_firsts {rows' : List Row} (hperm : rows'.Perm rows)
    (hrows : ∀ x ∈ rows, (keyOf s p x).WellFormed)
    (hsame : ∀ x ∈ rows, ∀ y ∈ rows,
      (keyOf s p x).isLike (keyOf s p y) = true → (keyOf s of x).asInt = (keyOf s of y).asInt) :
    (Value.integers ((firsts s p [] rows').map (keyOf s of))).Perm
      (Value.integers ((firsts s p [] rows).map (keyOf s of))) := by
  let first (x : Row) : Option Row := rows.find? fun r => (keyOf s p x).isLike (keyOf s p r)
  let integer (x : Row) : Option Int := (keyOf s of x).asInt
  have hintegers (xs : List Row) : Value.integers (xs.map (keyOf s of)) = xs.filterMap integer :=
    List.filterMap_map
  -- a row has the integer of the first row with its key
  have hfirst : ∀ x ∈ firsts s p [] rows', (first x).bind integer = integer x := by
    intro x hx
    have hx' : x ∈ rows := hperm.mem_iff.mp ((firsts_sublist s p [] rows').mem hx)
    obtain ⟨y, hy, hfind⟩ := exists_firsts hrows hx'
    have hlike : (keyOf s p x).isLike (keyOf s p y) = true :=
      List.find?_some (p := fun r => (keyOf s p x).isLike (keyOf s p r)) hfind
    have hy' : y ∈ rows := (firsts_sublist s p [] rows).mem hy
    rw [show first x = some y from hfind, Option.bind_some]
    exact (hsame x hx' y hy' hlike).symm
  calc Value.integers ((firsts s p [] rows').map (keyOf s of))
    _ = (firsts s p [] rows').filterMap integer := hintegers _
    _ = ((firsts s p [] rows').map first).filterMap fun o => o.bind integer := by
      rw [List.filterMap_map]
      exact (List.filterMap_congr hfirst).symm
    List.Perm _ (((firsts s p [] rows).map some).filterMap fun o => o.bind integer) :=
      (firsts_perm hperm hrows).filterMap _
    _ = (firsts s p [] rows).filterMap integer := List.filterMap_map
    _ = Value.integers ((firsts s p [] rows).map (keyOf s of)) := (hintegers _).symm

/-- Sorted or not, the rows of a recipe have the same integers. -/
theorem integers_sortedBy (key : Reference) (ascending : Bool) (hsettled : r.Settled s of)
    (h : r.rows s = .ok rows) :
    ∃ rows', (r.sortedBy key ascending).rows s = .ok rows' ∧
      (Value.integers (rows'.map (keyOf s of))).Perm
        (Value.integers (rows.map (keyOf s of))) := by
  have hall := exists_source h
  let sort' : Option SortKey := some ⟨key.path, ascending⟩
  have hrows : rows = dedup s r.distinct (order s r.sort (r.passed s)) :=
    Except.ok.inj (h.symm.trans (rows_of_source hall))
  have hperm : (order s r.sort (r.passed s)).Perm (r.passed s) := order_perm s _ _
  have hperm' : (order s sort' (r.passed s)).Perm (order s r.sort (r.passed s)) :=
    (order_perm s _ _).trans hperm.symm
  refine ⟨_, rows_of_source (r := r.sortedBy key ascending) hall, ?_⟩
  change (Value.integers ((dedup s r.distinct (order s sort' (r.passed s))).map _)).Perm _
  rw [hrows]
  cases hd : r.distinct with
  | none => exact (hperm'.map _).filterMap _
  | some p =>
    exact integers_firsts hperm' (fun x hx => hsettled.wellFormed p hd x (hperm.mem_iff.mp hx))
      fun x hx y hy => hsettled.same p hd x (hperm.mem_iff.mp hx) y (hperm.mem_iff.mp hy)

end Recipe

namespace Results

variable {v : Results} {w : World} {t : Thread} {of : Reference}

theorem sum_of_error {err : Error} (h : Aggregate.sum.check of.kind = .error err ∨
      Aggregate.sum.check of.kind = .ok () ∧ (v.rows w t).1 = .error err) :
    (v.sum w t of).1 = .error err := by
  rw [sum, fold_eq]
  rcases h with hcheck | ⟨hcheck, hrows⟩
  · rw [hcheck]
    rfl
  · rw [hcheck, hrows]
    cases hsees : v.binding.sees w t with
    | error err' =>
      rw [rows_of_barred hsees] at hrows
      obtain rfl : err' = err := Except.error.inj hrows
      rfl
    | ok s => rfl

theorem sum_of_ok {s : Snapshot} {rows : List Row} (hcheck : Aggregate.sum.check of.kind = .ok ())
    (hsees : v.binding.sees w t = .ok s) (hrows : (v.rows w t).1 = .ok rows) :
    (v.sum w t of).1 =
      ObjectStore.sum (rows.map (Recipe.keyOf s of.path)) of.kind.family := by
  rw [sum, fold_eq, hcheck, hsees, hrows]
  rfl

/--
The sum of integers is exact or there is none, and the order matters only for whether there is.

1. For values in any order, this is `Sums`.
2. Take any view, of a session or frozen, in any world, and let calls be made, the view be read,
   observed, derived from or frozen. Its sum and that of a sorted version of it fail in the same
   way if the reference or the rows cannot be read. Else both are what the integers of its rows
   may come to, if it does not matter which row of a repeated key is kept.
-/
theorem sums_in_any_order :
    (∀ vs : List Value, Sums vs) ∧
    ∀ (w : World) (b : Binding) (recipe : Recipe) (hs : List Handling) (key : Reference)
      (ascending : Bool) (t : Thread) (of : Reference),
      let r := (⟨w, .ofRecipe b recipe⟩ : Reader).handleAll hs
      let plain := (r.view.sum r.world t of).1
      let sorted := ((r.view.sorted key ascending).sum r.world t of).1
      of.kind.family = .integer →
      (∀ s, r.view.binding.sees r.world t = .ok s → r.view.recipe.Settled s of.path) →
      (∀ err, Aggregate.sum.check of.kind = .error err ∨
        Aggregate.sum.check of.kind = .ok () ∧ (r.view.rows r.world t).1 = .error err →
          plain = .error err ∧ sorted = .error err) ∧
      ∀ rows, Aggregate.sum.check of.kind = .ok () → (r.view.rows r.world t).1 = .ok rows →
        ∃ s, r.view.binding.sees r.world t = .ok s ∧
          SumOf (Value.integers (rows.map (Recipe.keyOf s of.path))) plain ∧
          SumOf (Value.integers (rows.map (Recipe.keyOf s of.path))) sorted := by
  refine ⟨sums, fun w b recipe hs key ascending t of => ?_⟩
  intro r plain sorted hfamily hsettled
  have hcoherent : r.Coherent := (Reader.coherent_ofRecipe w b recipe).handleAll hs
  have hfresh : (r.view.rows r.world t).1 =
      (r.view.binding.sees r.world t).bind r.view.recipe.rows := hcoherent.fresh t
  have hsorted : ((r.view.sorted key ascending).rows r.world t).1 =
      (r.view.binding.sees r.world t).bind (r.view.recipe.sortedBy key ascending).rows :=
    fresh_ofRecipe _ _ r.world t
  constructor
  · intro err herr
    refine ⟨sum_of_error herr, sum_of_error (herr.imp_right (And.imp_right fun hrows => ?_))⟩
    rw [hfresh] at hrows
    rw [hsorted]
    cases hsees : r.view.binding.sees r.world t with
    | error err' =>
      rw [hsees] at hrows
      exact hrows
    | ok s =>
      rw [hsees] at hrows
      have hsource : (r.view.recipe.sortedBy key ascending).source = r.view.recipe.source := rfl
      exact Recipe.rows_error_congr hsource hrows
  · intro rows hcheck hrows
    cases hsees : r.view.binding.sees r.world t with
    | error err =>
      rw [hfresh, hsees] at hrows
      cases hrows
    | ok s =>
      have hrecipe : r.view.recipe.rows s = .ok rows := by
        rw [← hrows, hfresh, hsees]
        rfl
      obtain ⟨rows', hrows', hperm⟩ :=
        Recipe.integers_sortedBy key ascending (hsettled s hsees) hrecipe
      have hanswer : ((r.view.sorted key ascending).rows r.world t).1 = .ok rows' := by
        rw [hsorted, hsees]
        exact hrows'
      refine ⟨s, rfl, ?_, ?_⟩
      · have hplain : plain = _ := sum_of_ok hcheck hsees hrows
        rw [hplain, hfamily]
        exact sumOf_sum (.refl _)
      · have hordered : sorted = _ :=
          sum_of_ok (v := r.view.sorted key ascending) hcheck hsees hanswer
        rw [hordered, hfamily]
        exact sumOf_sum hperm

def persons (ages : List Value) : Snapshot :=
  let person (i : Nat) (age : Value) : Entity :=
    ⟨⟨i + 1⟩, "Person", [("age", .value age), ("team", .value (.string "Red"))], 1⟩
  ⟨1, ages.mapIdx person, ages.length, 0⟩

def age : Reference := ⟨⟨["age"]⟩, .scalar .integer⟩

def everyone (ages : List Value) : Results :=
  .ofRecipe (.frozen (persons ages)) (.ofSource (.objects "Person"))

def captains (ages : List Value) : Results := (everyone ages).distinct ⟨⟨["team"]⟩, .scalar .string⟩

/-- The ages of persons, one of each age. -/
def generations (ages : List Value) : Results := (everyone ages).distinct age

/-- The greatest number and 1 come to no sum before -1 is added. Of two persons of a team, the
older one is kept if the persons are sorted by age from the oldest on. -/
theorem sums_depend_on_order :
    (let vs : List Value := [.int64 9223372036854775807, .int64 1, .wrapped (.int8 (-1))]
      let ws : List Value := [.int64 9223372036854775807, .wrapped (.int8 (-1)), .int64 1]
      ws.Perm vs ∧ (Value.integers vs).sum = 9223372036854775807 ∧
        ObjectStore.sum vs .integer = .error (.executionError .integerSum) ∧
        ObjectStore.sum ws .integer = .ok (.int64 9223372036854775807) ∧
        ((everyone vs).sum .empty 0 age).1 = .error (.executionError .integerSum) ∧
        (((everyone vs).sorted age true).sum .empty 0 age).1 =
          .ok (.int64 9223372036854775807)) ∧
    ((captains [.int64 3, .int64 5]).sum .empty 0 age).1 = .ok (.int64 3) ∧
      (((captains [.int64 3, .int64 5]).sorted age false).sum .empty 0 age).1 = .ok (.int64 5) := by
  refine ⟨⟨?_, ?_, ?_, ?_, ?_, ?_⟩, ?_, ?_⟩
  · exact (List.Perm.swap _ _ []).cons _
  all_goals decide +kernel

/-- Of three persons with two ages, one of them counted in another width, the ages are added up
once each, also if the persons were counted and are sorted by team. -/
theorem generations_add_up :
    let r := (⟨.empty, generations [.int64 3, .int8 3, .int16 4]⟩ : Reader).handleAll
      [.use (.read 0 .count)]
    let sorted := ((r.view.sorted ⟨⟨["team"]⟩, .scalar .string⟩ false).sum r.world 0 age).1
    age.kind.family = .integer ∧
    (∀ s, r.view.binding.sees r.world 0 = .ok s → r.view.recipe.Settled s age.path) ∧
    Aggregate.sum.check age.kind = .ok () ∧
    (r.view.rows r.world 0).1 = .ok [Recipe.rowOf 1, Recipe.rowOf 3] ∧
    SumOf [3, 4] (r.view.sum r.world 0 age).1 ∧ SumOf [3, 4] sorted := by
  intro r sorted
  let ages : List Value := [.int64 3, .int8 3, .int16 4]
  have hw : (persons ages).WellFormed := by
    simp [Snapshot.WellFormed, persons, ages, Field.values, Value.WellFormed, or_imp, forall_and]
  have hpinned : r.Pinned (persons ages) (generations ages).recipe :=
    Reader.pinned_handleAll
      (Reader.pinned_ofRecipe .empty (persons ages) (generations ages).recipe) _
  have hseen (s : Snapshot) (hsees : r.view.binding.sees r.world 0 = .ok s) : persons ages = s := by
    rw [hpinned.binding_eq] at hsees
    exact Except.ok.inj hsees
  have hsettled (s : Snapshot) (hsees : r.view.binding.sees r.world 0 = .ok s) :
      r.view.recipe.Settled s age.path := by
    rw [← hseen s hsees, hpinned.recipe_eq]
    exact Recipe.settled_of_wellFormed hw fun p hp => (Option.some.inj hp).symm
  have hrows : (r.view.rows r.world 0).1 = .ok [Recipe.rowOf 1, Recipe.rowOf 3] := by
    decide +kernel
  have hintegers : Value.integers ([Recipe.rowOf 1, Recipe.rowOf 3].map
      (Recipe.keyOf (persons ages) age.path)) = [3, 4] := by decide +kernel
  obtain ⟨-, hviews⟩ := sums_in_any_order
  obtain ⟨-, hanswer⟩ := hviews .empty (.frozen (persons ages)) (generations ages).recipe
    [.use (.read 0 .count)] ⟨⟨["team"]⟩, .scalar .string⟩ false 0 age rfl hsettled
  obtain ⟨s, hsees, hplain, hsorted⟩ := hanswer _ rfl hrows
  obtain rfl := hseen s hsees
  rw [hintegers] at hplain hsorted
  exact ⟨rfl, hsettled, rfl, hrows, hplain, hsorted⟩

end Results

end ObjectStore
