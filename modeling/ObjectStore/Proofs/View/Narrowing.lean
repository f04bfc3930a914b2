import ObjectStore.Proofs.Filter.Joining
import ObjectStore.Proofs.Run.Isolation
import ObjectStore.Proofs.View.Materialized

/-
  A view narrowed by one more condition.

  A condition is added to the predicate, so it is asked of the rows of the source, before they
  are sorted and before repeated keys are left out. Rows may as well be left out after sorting,
  if the sort keys are well-formed. They may not be left out after the repeated keys: the first
  row of a key may fail the condition, and then another one takes its place. So narrowing only
  drops rows from a view that keeps every key, and may bring up others in one that does not.

    1. `Recipe.rows_narrowed`: the condition may be asked of the sorted rows.
    2. `Recipe.filter_dedup_sublist` and `Recipe.firsts_filter_eq_iff`: the condition asked before
       and after repeated keys are left out, and when it makes no difference.
    3. `Results.filter_narrows`: the rows of a narrowed view, whatever was done with the view
       before.
    4. `Results.narrowing_brings_up_rows`: a narrowed view with a row that was not in the view,
       and one with its rows in another order, sorted by values that are wrapped too often.
-/

namespace ObjectStore

namespace Recipe

variable {s : Snapshot} {p : Path} {q : Row → Bool} {rows : List Row} {seen seen' : List Value}

/-! ## Before and after repeated keys are left out -/

/-- Of rows that are kept and pass, none is lost if the others are left out before: then less was
seen. -/
theorem filter_firsts_sublist (hseen : Value.Ascending id seen)
    (hseen' : Value.Ascending id seen') (hless : ∀ v ∈ seen', ∃ u ∈ seen, v.isLike u = true)
    (hrows : ∀ r ∈ rows, (keyOf s p r).WellFormed) :
    ((firsts s p seen rows).filter q).Sublist (firsts s p seen' (rows.filter q)) := by
  induction rows generalizing seen seen' with
  | nil => exact .refl _
  | cons x rows ih =>
    have hx := hrows x List.mem_cons_self
    have hrest : ∀ y ∈ rows, (keyOf s p y).WellFormed :=
      fun y hy => hrows y (List.mem_cons_of_mem x hy)
    rcases firsts_cons_cases hseen hx rows with ⟨⟨u, hu, hlike⟩, hfirsts⟩ |
      ⟨hunseen, seen₁, hseen₁, hmem, hfirsts⟩
    · rw [hfirsts]
      cases hq : q x with
      | false =>
        rw [List.filter_cons_of_neg (Bool.eq_false_iff.mp hq)]
        exact ih hseen hseen' hless hrest
      | true =>
        rw [List.filter_cons_of_pos hq]
        rcases firsts_cons_cases hseen' hx (rows.filter q) with ⟨-, hfirsts'⟩ |
          ⟨-, seen₁', hseen₁', hmem', hfirsts'⟩
        · rw [hfirsts']
          exact ih hseen hseen' hless hrest
        · rw [hfirsts']
          refine (ih hseen hseen₁' (fun v hv => ?_) hrest).cons x
          rcases (hmem' v).mp hv with rfl | hv
          · exact ⟨u, hu, hlike⟩
          · exact hless v hv
    · have hless₁ : ∀ v ∈ seen', ∃ u ∈ seen₁, v.isLike u = true := by
        intro v hv
        obtain ⟨u, hu, hlike⟩ := hless v hv
        exact ⟨u, (hmem u).mpr (.inr hu), hlike⟩
      rw [hfirsts]
      cases hq : q x with
      | false =>
        rw [List.filter_cons_of_neg (Bool.eq_false_iff.mp hq),
          List.filter_cons_of_neg (Bool.eq_false_iff.mp hq)]
        exact ih hseen₁ hseen' hless₁ hrest
      | true =>
        rw [List.filter_cons_of_pos hq, List.filter_cons_of_pos hq]
        rcases firsts_cons_cases hseen' hx (rows.filter q) with ⟨⟨v, hv, hlikev⟩, -⟩ |
          ⟨-, seen₁', hseen₁', hmem', hfirsts'⟩
        · obtain ⟨u, hu, hlike⟩ := hless v hv
          have hsame : v.isLike u = (keyOf s p x).isLike u :=
            Value.isLike_congr (hseen.wellFormed u hu) (hseen'.wellFormed v hv) hx hlikev
          rw [hlike, hunseen u hu] at hsame
          cases hsame
        · rw [hfirsts']
          refine (ih hseen₁ hseen₁' (fun v hv => ?_) hrest).cons_cons x
          rcases (hmem' v).mp hv with rfl | hv
          · exact ⟨keyOf s p x, (hmem _).mpr (.inl rfl), Value.isLike_self hx⟩
          · exact hless₁ v hv

/-- Rows that are kept and pass are still there if the others are left out before. -/
theorem filter_dedup_sublist {distinct : Option Path}
    (hrows : ∀ p ∈ distinct, ∀ r ∈ rows, (keyOf s p r).WellFormed) :
    ((dedup s distinct rows).filter q).Sublist (dedup s distinct (rows.filter q)) := by
  cases distinct with
  | none => exact .refl _
  | some p => exact filter_firsts_sublist .nil .nil nofun (hrows p rfl)

theorem find?_filter_of_some {f : Row → Bool} {x : Row} (h : rows.find? f = some x)
    (hx : q x = true) : (rows.filter q).find? f = some x := by
  obtain ⟨hf, front, back, rfl, hfront⟩ := List.find?_eq_some_iff_append.mp h
  rw [List.find?_filter]
  refine List.find?_eq_some_iff_append.mpr ⟨?_, front, back, rfl, fun y hy => ?_⟩
  · exact decide_eq_true ⟨hx, hf⟩
  · have hnot : f y = false := by simpa using hfront y hy
    simp [hnot]

theorem firsts_filter_eq_iff (hrows : ∀ r ∈ rows, (keyOf s p r).WellFormed) :
    firsts s p [] (rows.filter q) = (firsts s p [] rows).filter q ↔
      ∀ x ∈ firsts s p [] rows, ∀ y ∈ rows,
        (keyOf s p x).isLike (keyOf s p y) = true → q y = true → q x = true := by
  have hpassing : ∀ r ∈ rows.filter q, (keyOf s p r).WellFormed :=
    fun r hr => hrows r (List.mem_filter.mp hr).1
  have hkept {x : Row} (hx : x ∈ firsts s p [] rows) : (keyOf s p x).WellFormed :=
    hrows x ((firsts_sublist s p [] rows).mem hx)
  have hfirst {x : Row} (hx : x ∈ firsts s p [] rows) :
      rows.find? (fun r => (keyOf s p x).isLike (keyOf s p r)) = some x :=
    (mem_firsts_nil hrows (hkept hx)).mp hx
  constructor
  · intro heq x hx y hy hlike hpass
    obtain ⟨z, hz, hfind⟩ := exists_firsts hpassing (List.mem_filter.mpr ⟨hy, hpass⟩)
    rw [heq] at hz
    obtain ⟨hz, hpassz⟩ := List.mem_filter.mp hz
    have hlikez : (keyOf s p y).isLike (keyOf s p z) = true :=
      List.find?_some (p := fun r => (keyOf s p y).isLike (keyOf s p r)) hfind
    -- both are the first row with the key of `y`
    have hsame : some z = some x :=
      calc
        some z = rows.find? fun r => (keyOf s p z).isLike (keyOf s p r) := (hfirst hz).symm
        _ = rows.find? fun r => (keyOf s p y).isLike (keyOf s p r) :=
          find?_keyOf_congr hrows (hkept hz) (hrows y hy) hlikez
        _ = rows.find? fun r => (keyOf s p x).isLike (keyOf s p r) :=
          find?_keyOf_congr hrows (hrows y hy) (hkept hx) hlike
        _ = some x := hfirst hx
    rwa [← Option.some.inj hsame]
  · intro hpass
    have hsub : ((firsts s p [] rows).filter q).Sublist (firsts s p [] (rows.filter q)) :=
      filter_firsts_sublist .nil .nil nofun hrows
    refine (hsub.eq_of_length_le
      (List.subperm_of_subset (nodup_firsts hpassing) fun z hz => ?_).length_le).symm
    have hmem := (firsts_sublist s p [] (rows.filter q)).mem hz
    obtain ⟨hrow, hpassz⟩ := List.mem_filter.mp hmem
    have hwfz := hrows z hrow
    obtain ⟨x, hx, hfind⟩ := exists_firsts hrows hrow
    have hlike : (keyOf s p x).isLike (keyOf s p z) = true := by
      rw [Value.isLike_comm hwfz (hkept hx)]
      exact List.find?_some (p := fun r => (keyOf s p z).isLike (keyOf s p r)) hfind
    have hpassx : q x = true := hpass x hx z hrow hlike hpassz
    have hfirstz := (mem_firsts_nil hpassing hwfz).mp hz
    rw [find?_filter_of_some hfind hpassx] at hfirstz
    obtain rfl : x = z := Option.some.inj hfirstz
    exact List.mem_filter.mpr ⟨hx, hpassx⟩

/-! ## Narrowed recipes -/

/-- The keys by which a recipe sorts and leaves out are well-formed. -/
structure WellKeyed (r : Recipe) (s : Snapshot) : Prop where
  sort : ∀ k ∈ r.sort, ∀ x ∈ allRows s r.source, (keyOf s k.path x).WellFormed
  distinct : ∀ p ∈ r.distinct, ∀ x ∈ allRows s r.source, (keyOf s p x).WellFormed

theorem wellKeyed_of_wellFormed (hs : s.WellFormed) (r : Recipe) : r.WellKeyed s :=
  ⟨fun k _ _ hx => wellFormed_keyOf hs hx k.path, fun p _ _ hx => wellFormed_keyOf hs hx p⟩

theorem admits_narrowed (r : Recipe) (e : Expr) (s : Snapshot) (x : Row) :
    (r.narrowed e).admits s x = (e.holds s x.value && r.admits s x) := by
  unfold admits narrowed
  cases r.predicate with
  | none => exact (Bool.and_true _).symm
  | some p =>
    have hjoined : (Expr.join .and [p.expr, e]).holds s x.value =
        Expr.together (Expr.holds s x.value) .and [p.expr, e] := Expr.holds_join .and _
    simp only [Expr.together, List.all_cons, List.all_nil, Bool.and_true] at hjoined
    rw [Bool.and_comm, ← hjoined]
    rfl

/-- What becomes of the rows of a recipe if it is narrowed. `every` are the rows with repeated
keys, `rows` those without, and `narrowed` the rows of the narrowed recipe. -/
structure Narrows (r : Recipe) (s : Snapshot) (e : Expr) (every rows narrowed : List Row) :
    Prop where
  /-- If no keys are left out, the rows are those that satisfy the condition. -/
  plain : r.distinct = none → narrowed = rows.filter fun x => e.holds s x.value
  /-- If keys are left out, this comes after the condition. -/
  late : narrowed = dedup s r.distinct (every.filter fun x => e.holds s x.value)
  /-- The rows that satisfy the condition are still there. -/
  kept : (rows.filter fun x => e.holds s x.value).Sublist narrowed
  /-- There are no others just if no key has a row that satisfies the condition behind a first
  row that does not. -/
  exact_iff : (narrowed = rows.filter fun x => e.holds s x.value) ↔
    ∀ p ∈ r.distinct, ∀ x ∈ rows, ∀ y ∈ every,
      (keyOf s p x).isLike (keyOf s p y) = true → e.holds s y.value = true →
        e.holds s x.value = true

/-- The rows of a narrowed recipe are as they should be. -/
theorem rows_narrowed {r : Recipe} (e : Expr) (hkeys : r.WellKeyed s) (h : r.rows s = .ok rows) :
    ∃ every narrowed, { r with distinct := none }.rows s = .ok every ∧
      (r.narrowed e).rows s = .ok narrowed ∧ r.Narrows s e every rows narrowed := by
  let all := allRows s r.source
  have hall : sourceRows s r.source = .ok all := exists_source h
  let passes (x : Row) : Bool := e.holds s x.value
  let kept := all.filter (r.admits s)
  let every := order s r.sort kept
  have hevery : { r with distinct := none }.rows s = .ok every :=
    rows_of_source (r := { r with distinct := none }) hall
  have hrows : rows = dedup s r.distinct every :=
    Except.ok.inj (h.symm.trans (rows_of_source hall))
  have hkept {x : Row} (hx : x ∈ kept) : x ∈ allRows s r.source :=
    (List.mem_filter.mp hx).1
  have hsort : ∀ k ∈ r.sort, ∀ x ∈ kept, (keyOf s k.path x).WellFormed :=
    fun k hk x hx => hkeys.sort k hk x (hkept hx)
  have hdistinct : ∀ p ∈ r.distinct, ∀ x ∈ every, (keyOf s p x).WellFormed :=
    fun p hp x hx => hkeys.distinct p hp x (hkept ((order_perm s r.sort kept).mem_iff.mp hx))
  have hpassed : all.filter ((r.narrowed e).admits s) = kept.filter passes := by
    rw [List.filter_filter]
    exact List.filter_congr fun x _ => admits_narrowed r e s x
  have hnarrowed : (r.narrowed e).rows s = .ok (dedup s r.distinct (every.filter passes)) := by
    rw [rows_of_source (r := r.narrowed e) hall, hpassed]
    exact congrArg (fun xs => Except.ok (dedup s r.distinct xs)) (order_filter hsort)
  refine ⟨every, _, hevery, hnarrowed, ?_⟩
  constructor
  case plain =>
    intro hnone
    rw [hrows, hnone]
    rfl
  case late => rfl
  case kept =>
    rw [hrows]
    exact filter_dedup_sublist hdistinct
  case exact_iff =>
    rw [hrows]
    cases hd : r.distinct with
    | none => exact iff_of_true rfl fun p' hp' => absurd hp' (Option.not_mem_none p')
    | some p =>
      refine (firsts_filter_eq_iff (hdistinct p hd)).trans ⟨fun hfirst p' hp' => ?_, fun hfirst =>
        hfirst p rfl⟩
      obtain rfl := Option.some.inj hp'
      exact hfirst

end Recipe

namespace Results

variable {v : Results} {w : World} {t : Thread}

theorem rows_filter (e : Expr) (hfresh : v.Fresh w t)
    (hkeys : ∀ s, v.binding.sees w t = .ok s → v.recipe.WellKeyed s) :
    (∀ err, (v.rows w t).1 = .error err → ((v.filter e).rows w t).1 = .error err) ∧
    ∀ rows, (v.rows w t).1 = .ok rows → ∃ s every narrowed, v.binding.sees w t = .ok s ∧
      { v.recipe with distinct := none }.rows s = .ok every ∧
      ((v.filter e).rows w t).1 = .ok narrowed ∧ v.recipe.Narrows s e every rows narrowed := by
  have hfilter : ((v.filter e).rows w t).1 =
      (v.binding.sees w t).bind (v.recipe.narrowed e).rows := fresh_ofRecipe _ _ w t
  rw [hfresh, hfilter]
  cases hsees : v.binding.sees w t with
  | error err => exact ⟨fun err' h => h, fun rows h => by cases h⟩
  | ok s =>
    have hsource : (v.recipe.narrowed e).source = v.recipe.source := rfl
    refine ⟨fun err (h : v.recipe.rows s = .error err) => Recipe.rows_error_congr hsource h,
      fun rows h => ?_⟩
    obtain ⟨every, narrowed, hevery, hnarrowed, hnarrows⟩ :=
      Recipe.rows_narrowed e (hkeys s hsees) h
    exact ⟨s, every, narrowed, rfl, hevery, hnarrowed, hnarrows⟩

/-- Take any view, of a session or frozen, in any world, and let calls be made, the view be read,
observed, derived from or frozen. Then narrow it. The narrowed view fails as the view does, and
else has the rows of the view that satisfy the condition, and others only if they are brought up
where repeated keys are left out. -/
theorem filter_narrows (w : World) (b : Binding) (recipe : Recipe) (hs : List Handling) (e : Expr)
    (t : Thread) :
    let r := (⟨w, .ofRecipe b recipe⟩ : Reader).handleAll hs
    (∀ s, r.view.binding.sees r.world t = .ok s → r.view.recipe.WellKeyed s) →
    (∀ err, (r.view.rows r.world t).1 = .error err →
      ((r.view.filter e).rows r.world t).1 = .error err) ∧
    ∀ rows, (r.view.rows r.world t).1 = .ok rows →
      ∃ s every narrowed, r.view.binding.sees r.world t = .ok s ∧
        { r.view.recipe with distinct := none }.rows s = .ok every ∧
        ((r.view.filter e).rows r.world t).1 = .ok narrowed ∧
        r.view.recipe.Narrows s e every rows narrowed := by
  intro r hkeys
  have hcoherent : r.Coherent := (Reader.coherent_ofRecipe w b recipe).handleAll hs
  exact rows_filter e (hcoherent.fresh t) hkeys

/-! ## Views that are not just narrowed -/

def twins : Snapshot :=
  ⟨1, [⟨⟨1⟩, "Person", [("age", .value (.int64 3)), ("name", .value (.string "Ann"))], 1⟩,
    ⟨⟨2⟩, "Person", [("age", .value (.int64 3)), ("name", .value (.string "Bob"))], 1⟩], 2, 0⟩

def oneOfAge : Results :=
  .ofRecipe (.frozen twins) ⟨.objects "Person", none, none, some ⟨["age"]⟩⟩

def isBob : Expr := .comparison .eq ⟨["name"]⟩ (.string "Bob")

/-- Three boxes with values that are wrapped three times. -/
def boxes : Snapshot :=
  let box (n : Nat) (v : Value) : Entity :=
    ⟨⟨n⟩, "Box", [("n", .value (.int64 (.ofNat n))), ("p", .value v.wrapped.wrapped.wrapped)], 1⟩
  ⟨1, [box 1 (.int64 2), box 2 (.string "x"), box 3 (.int64 1)], 3, 0⟩

def byContent : Results :=
  .ofRecipe (.frozen boxes) ⟨.objects "Box", none, some ⟨⟨["p"]⟩, true⟩, none⟩

def notSecond : Expr := .comparison .neq ⟨["n"]⟩ (.int64 2)

/-- Bob is of the age of Ann, and is not in the view before it is narrowed to him. The middle box
compares with no other, and keeps the others apart until it is left out. -/
theorem narrowing_brings_up_rows :
    ((oneOfAge.rows .empty 0).1 = .ok [Recipe.rowOf 1] ∧
      ([Recipe.rowOf 1].filter fun x => isBob.holds twins x.value) = [] ∧
      ((oneOfAge.filter isBob).rows .empty 0).1 = .ok [Recipe.rowOf 2]) ∧
    (byContent.rows .empty 0).1 = .ok [Recipe.rowOf 1, Recipe.rowOf 2, Recipe.rowOf 3] ∧
      ([Recipe.rowOf 1, Recipe.rowOf 2, Recipe.rowOf 3].filter fun x =>
        notSecond.holds boxes x.value) = [Recipe.rowOf 1, Recipe.rowOf 3] ∧
      ((byContent.filter notSecond).rows .empty 0).1 = .ok [Recipe.rowOf 3, Recipe.rowOf 1] := by
  refine ⟨⟨?_, ?_, ?_⟩, ?_, ?_, ?_⟩ <;> decide +kernel

/-- Narrowed to Bob, the view has what the theorem promises, also if its rows were counted before:
of the persons named Bob, one of each age. -/
theorem bob_is_brought_up :
    let r := (⟨.empty, oneOfAge⟩ : Reader).handleAll [.use (.read 0 .count)]
    (r.view.kept.map fun kept => kept.2) = some [Recipe.rowOf 1] ∧
    (∀ s, r.view.binding.sees r.world 0 = .ok s → r.view.recipe.WellKeyed s) ∧
    r.view.recipe.Narrows twins isBob [Recipe.rowOf 1, Recipe.rowOf 2]
      [Recipe.rowOf 1] [Recipe.rowOf 2] := by
  intro r
  have hw : twins.WellFormed := by
    simp [Snapshot.WellFormed, twins, Field.values, Value.WellFormed, or_imp, forall_and]
  have hpinned : r.Pinned twins oneOfAge.recipe :=
    Reader.pinned_handleAll (Reader.pinned_ofRecipe .empty twins oneOfAge.recipe) _
  have hseen (s : Snapshot) (hsees : r.view.binding.sees r.world 0 = .ok s) :
      twins = s := by
    rw [hpinned.binding_eq] at hsees
    exact Except.ok.inj hsees
  have hkeys (s : Snapshot) (hsees : r.view.binding.sees r.world 0 = .ok s) :
      r.view.recipe.WellKeyed s :=
    hseen s hsees ▸ Recipe.wellKeyed_of_wellFormed hw _
  have hkept : (r.view.kept.map fun kept => kept.2) = some [Recipe.rowOf 1] := by decide +kernel
  have hrows : (r.view.rows r.world 0).1 = .ok [Recipe.rowOf 1] := by decide +kernel
  have hevery : { r.view.recipe with distinct := none }.rows twins =
      .ok [Recipe.rowOf 1, Recipe.rowOf 2] := by decide +kernel
  have hnarrowed : ((r.view.filter isBob).rows r.world 0).1 = .ok [Recipe.rowOf 2] := by
    decide +kernel
  obtain ⟨-, hanswer⟩ := filter_narrows .empty (.frozen twins) oneOfAge.recipe
    [.use (.read 0 .count)] isBob 0 hkeys
  obtain ⟨s, every, narrowed, hsees, hevery', hnarrowed', hnarrows⟩ := hanswer _ hrows
  obtain rfl := hseen s hsees
  obtain rfl := Except.ok.inj (hevery.symm.trans hevery')
  obtain rfl := Except.ok.inj (hnarrowed.symm.trans hnarrowed')
  exact ⟨hkept, hkeys, hnarrows⟩

end Results

end ObjectStore
