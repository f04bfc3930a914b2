import ObjectStore.Proofs.Container.Writes
import ObjectStore.Proofs.Run.Answers
import ObjectStore.Proofs.Run.Refusals
import ObjectStore.Proofs.View.Ordered

/-
  However a set is built, it is the same set.

  Values get into a set one by one, or all at once from a collection that belongs to no
  object, which may be a list or a set of its own. And a view on a list can show what a set
  of its elements would hold. Four algorithms do this: insertion by binary search among
  stored elements and among plain values, a stable sort whose neighbours are compared, and
  a sort followed by a search among the keys that were seen. Each of them arrives at the
  first occurrences among the values, in strictly ascending order.

    1. `World.Writing.append` and `World.Writing.fill`: values appended one after the other.
    2. `World.Writing.assign`: the values of a collection in the place of those held before.
    3. `Collection.inOrder_values`: the view of a list.
    4. `World.sets_are_built_alike`: all of them show the same.
-/

namespace ObjectStore

namespace Collection

/-- Values appended one after the other, up to the first that is refused. -/
def fill (c : Collection) (w : World) (t : Thread) : List Value → Except Error Unit × World
  | [] => (.ok (), w)
  | v :: vs =>
    match c.append w t v with
    | (.error e, w) => (.error e, w)
    | (.ok _, w) => c.fill w t vs

def Lists (c : Collection) (w : World) (t : Thread) (vs : List Value) : Prop :=
  ∃ shown, c.values w t = .ok shown ∧ shown.map (·.unwrap) = vs

/-- The elements of a collection in ascending order, each value once. -/
def inOrder (c : Collection) : Except Error Results :=
  (c.sorted true).map fun r => r.distinct c.element

/-- What a view of the elements in ascending order shows are the first occurrences among
them. -/
theorem inOrder_values {w : World} {t : Thread} {binding : Binding} {c : Container}
    {zs : List Value} (h : (bound binding c).values w t = .ok zs)
    (hzs : ∀ z ∈ zs, z.WellFormed) :
    ∃ r us, (bound binding c).inOrder = .ok r ∧ (r.values w t).1 = .ok us ∧
      Value.Firsts zs us := by
  rw [values_eq] at h
  cases hsees : binding.sees w t with
  | error e =>
    rw [hsees] at h
    cases h
  | ok s =>
    rw [hsees] at h
    simp only [Except.bind] at h
    cases hes : Container.elementsIn c.key s with
    | error e =>
      rw [hes] at h
      cases h
    | ok es =>
      rw [hes] at h
      obtain rfl : es.map (·.value) = zs := Except.ok.inj h
      let all := es.map (Recipe.elementRow s)
      let recipe : Recipe := ⟨.container c.key, none, some ⟨⟨[]⟩, true⟩, some ⟨[]⟩⟩
      let rows := Recipe.firsts s ⟨[]⟩ [] (Recipe.order s (some ⟨⟨[]⟩, true⟩) all)
      have hall : all.map (Recipe.keyOf s ⟨[]⟩) = es.map (·.value) := List.map_map
      have hrecipe : recipe.rows s = .ok rows := by
        simp only [Recipe.rows, recipe, Recipe.sourceRows_container, hes, Except.map]
        rfl
      have hrows : ((Results.ofRecipe binding recipe).rows w t).1 = .ok rows := by
        rw [Results.fresh_ofRecipe]
        simp only [Results.ofRecipe, hsees, Except.bind, hrecipe]
      refine ⟨.ofRecipe binding recipe, rows.map (·.value), rfl, ?_, ?_⟩
      · change ((Results.ofRecipe binding recipe).rows w t).1.bind _ = _
        rw [hrows]
        rfl
      · rw [← hall]
        refine Recipe.firsts_order fun r hr => ?_
        obtain ⟨e, he, rfl⟩ := List.mem_map.mp hr
        exact hzs e.value (List.mem_map_of_mem he)

end Collection

namespace Container

variable {c : Container} {b b' b'' : Batch} {vs ws : List Value}

theorem Leaves.trans (h : c.Leaves b b' vs) (h' : c.Leaves b' b'' ws) : c.Leaves b b'' ws :=
  ⟨h'.ready, h'.held, fun key name hc => h'.classes key name (h.classes key name hc)⟩

end Container

namespace World

/-- A session inside a write, with the batch that it writes in. -/
def Writing (w : World) (t : Thread) (s : SessionId) (b : Batch) : Prop :=
  ∃ x, w.gate t s = .ok x ∧ x.batch = some b

namespace Writing

variable {w : World} {t : Thread} {s : SessionId} {b : Batch} {c : Container} {vs : List Value}

theorem mutate {α : Type} (h : w.Writing t s b) (f : Batch → Except Error α × Batch) :
    (w.mutate t s f).1 = (f b).1 ∧ (w.mutate t s f).2.Writing t s (f b).2 := by
  obtain ⟨x, hgate, hb⟩ := h
  obtain ⟨hx, ht, hopen⟩ := gate_eq_ok.mp hgate
  have hlen := (List.getElem?_eq_some_iff.mp hx).1
  simp only [World.mutate, hgate, hb, true_and]
  refine ⟨_, gate_eq_ok.mpr ⟨List.getElem?_set_self hlen, ht, hopen⟩, rfl⟩

theorem values (h : w.Writing t s b) (hc : c.Ready b) :
    (Collection.bound (.live s) c).values w t = .ok (c.held b) := by
  obtain ⟨x, hgate, hb⟩ := h
  rw [Collection.values_eq, Binding.sees_live, hgate]
  simp only [Except.map, Except.bind, Session.view_of_batch hb,
    Container.elementsIn_eq_ok.mpr ⟨hc.owner, rfl⟩, Container.held]

theorem clear (h : w.Writing t s b) (hc : c.Ready b) :
    ∃ w' b', (Collection.bound (.live s) c).clear w t = (.ok (), w') ∧ w'.Writing t s b' ∧
      c.Leaves b b' [] := by
  obtain ⟨hanswer, hwriting⟩ := h.mutate (c.guarded c.clear)
  rw [hc.guarded] at hanswer hwriting
  exact ⟨_, _, Prod.ext (hanswer.trans hc.clear.1) rfl, hwriting, hc.clear.2⟩

/-- A value is appended to a set. -/
theorem append (h : w.Writing t s b) (hc : c.Ready b) (hset : c.kind.container = some .set)
    {v : Value} (hv : Container.Fit b.view c.kind v) :
    ∃ w' b', (Collection.bound (.live s) c).append w t v =
        (.ok ((c.kind.normalize v.unwrap).isFreeIn (c.held b)), w') ∧
      w'.Writing t s b' ∧
      c.Leaves b b' (Value.takeIn (c.held b) (c.kind.normalize v.unwrap)) := by
  obtain ⟨hanswer, hwriting⟩ := h.mutate (c.guarded (c.append v))
  rw [hc.guarded] at hanswer hwriting
  obtain ⟨hok, hleaves⟩ := hc.append_set hset hv
  exact ⟨_, _, Prod.ext (hanswer.trans hok) rfl, hwriting, hleaves⟩

/-- Values are appended to a set one after the other. -/
theorem fill (h : w.Writing t s b) (hc : c.Ready b) (hset : c.kind.container = some .set)
    (hvs : ∀ v ∈ vs, Container.Fit b.view c.kind v) :
    ∃ w' b', (Collection.bound (.live s) c).fill w t vs = (.ok (), w') ∧ w'.Writing t s b' ∧
      c.Leaves b b'
        ((vs.map fun v => c.kind.normalize v.unwrap).foldl Value.takeIn (c.held b)) := by
  induction vs generalizing w b with
  | nil => exact ⟨w, b, rfl, h, hc, rfl, fun _ _ hclass => hclass⟩
  | cons v vs ih =>
    obtain ⟨w₁, b₁, happend, hwriting, hleaves⟩ := h.append hc hset (hvs v List.mem_cons_self)
    obtain ⟨w₂, b₂, hfill, hwriting', hleaves'⟩ := ih hwriting hleaves.ready fun x hx =>
      (hvs x (List.mem_cons_of_mem v hx)).mono hleaves.classes
    rw [hleaves.held] at hleaves'
    refine ⟨w₂, b₂, ?_, hwriting', hleaves.trans hleaves'⟩
    rw [Collection.fill, happend]
    exact hfill

/-- The values of a collection are put in the place of those that a container holds. -/
theorem assign (h : w.Writing t s b) (hc : c.Ready b) {key : ObjectKey} {property : String}
    (hcollection : w.collection t s key property = .ok (.bound (.live s) c)) (k : PropertyKind)
    (hvs : ∀ v ∈ vs, Container.Fit b.view c.kind v) :
    ∃ w' b', w.assign t s key property (.unattached k vs) = (.ok (.bound (.live s) c), w') ∧
      w'.Writing t s b' ∧
      c.Leaves b b' (Container.arranged c.kind (vs.map fun v => c.kind.normalize v.unwrap)) := by
  obtain ⟨hanswer, hwriting⟩ := h.mutate (c.guarded (c.assign vs))
  rw [hc.guarded] at hanswer hwriting
  obtain ⟨hdone, hleaves⟩ := hc.assign hvs
  refine ⟨_, _, ?_, hwriting, hleaves⟩
  simp only [World.assign, Collection.plainValues, hcollection, bind, Except.bind, pure,
    Except.pure, Collection.mutate, hanswer.trans hdone, Except.map]

end Writing

variable {t : Thread} {s : SessionId} {key : ObjectKey} {property : String}

theorem collection_of_set {w : World} {handle : Collection}
    (h : w.set t s key property = .ok handle) :
    w.collection t s key property = .ok handle ∧ handle.kind.container = some .set := by
  obtain ⟨c, hc, h⟩ := ok_of_bind h
  split at h
  · cases h
  · rename_i hshape
    cases h
    exact ⟨hc, not_not.mp hshape⟩

theorem ready_of_gives {cs : List Call} {x : Session} {b : Batch} {c : Container}
    (hx : (empty.run cs).session? s = some x) (hb : x.batch = some b)
    (h : (empty.run cs).Gives s c) : c.Ready b := by
  have hw := orderly_run cs
  obtain ⟨hkind, hdeclared⟩ := h.onDeclared 0 .clear
  obtain ⟨y, e, -, hy, he, -, -⟩ := h.declares
  obtain rfl := Option.some.inj (hx.symm.trans hy)
  have hd := hdeclared x hx
  rw [Session.view_of_batch hb] at hd he
  exact ⟨((hw.fits s x hx).held b hb).2.2.keyed (hw.keyed x.database),
    Container.stands_of_declared ((shaped_run cs).2 s x b hx hb) hd hkind
      (Snapshot.contains_iff.mpr ⟨e, he⟩)⟩

/--
Of well-formed values that a set accepts, in any order and with any repetitions, there is one
sequence `ws` without wrappers, in strictly ascending order, that has of all values that are
alike the first one. A set shows this sequence

1. after it was cleared and the values were appended one after the other;
2. after a collection of the values, a list or a set of any kind that accepts them, was
   assigned to it.

And any list that holds these values shows it in the view of its elements in ascending order
without repetitions.
-/
theorem sets_are_built_alike {cs : List Call} {x : Session} {b : Batch} {c : Collection}
    {vs : List Value} (hgate : (empty.run cs).gate t s = .ok x) (hb : x.batch = some b)
    (hset : (empty.run cs).set t s key property = .ok c)
    (hvs : ∀ v ∈ vs, v.WellFormed ∧ c.kind.accepts v = true ∧
      b.view.checkLink c.kind v = .ok ()) :
    ∃ ws : List Value,
      ws.Pairwise (fun v w => v.canonicalCompare w = .lt) ∧
      (∀ w, w ∈ ws ↔
        (vs.map (·.unwrap)).find? (fun v => v.canonicalCompare w == .eq) = some w) ∧
      (∃ w₁ w₂, c.clear (empty.run cs) t = (.ok (), w₁) ∧ c.fill w₁ t vs = (.ok (), w₂) ∧
        c.Lists w₂ t ws) ∧
      (∀ k : PropertyKind, k.isContainer = true → (∀ v ∈ vs, k.accepts v = true) →
        ∃ u w₁, Collection.ofValues k vs = .ok u ∧
          (empty.run cs).assign t s key property u = (.ok c, w₁) ∧ c.Lists w₁ t ws) ∧
      ∀ w t binding l zs, (Collection.bound binding l).values w t = .ok zs →
        (∀ z ∈ zs, z.WellFormed) → zs.map (·.unwrap) = vs.map (·.unwrap) →
        ∃ r us, (Collection.bound binding l).inOrder = .ok r ∧ (r.values w t).1 = .ok us ∧
          us.map (·.unwrap) = ws := by
  obtain ⟨hcollection, hshape⟩ := collection_of_set hset
  obtain ⟨c, rfl, hgives⟩ := gives_of_collection hcollection
  have hready := ready_of_gives (gate_eq_ok.mp hgate).1 hb hgives
  have hwriting : (empty.run cs).Writing t s b := ⟨x, hgate, hb⟩
  have hwf : ∀ v ∈ vs, v.WellFormed := fun v hv => (hvs v hv).1
  have hfit : ∀ v ∈ vs, Container.Fit b.view c.kind v := fun v hv =>
    ⟨(hvs v hv).1, (hvs v hv).2.1, Snapshot.leads_of_checkLink (hvs v hv).2.2⟩
  have hplain : ∀ u ∈ vs.map (·.unwrap), u.WellFormed := by
    intro u hu
    obtain ⟨v, hv, rfl⟩ := List.mem_map.mp hu
    exact (hwf v hv).unwrap
  have hfirsts := Value.firsts_arranged (k := c.kind) hshape hplain
  refine ⟨_, hfirsts.ascending, hfirsts.mem_iff, ?_, fun k hk haccepts => ?_,
    fun w t binding l zs hvalues hzs hsame => ?_⟩
  · obtain ⟨w₁, b₁, hclear, hwriting₁, hleaves₁⟩ := hwriting.clear hready
    obtain ⟨w₂, b₂, hfill, hwriting₂, hleaves₂⟩ := hwriting₁.fill hleaves₁.ready hshape fun v hv =>
      (hfit v hv).mono hleaves₁.classes
    refine ⟨w₁, w₂, hclear, hfill, _, hwriting₂.values hleaves₂.ready, ?_⟩
    rw [hleaves₂.held, hleaves₁.held]
    have hfold := Value.firsts_foldl .nil nofun fun z hz => by
      obtain ⟨v, hv, rfl⟩ := List.mem_map.mp hz
      exact ((hwf v hv).unwrap.normalize c.kind).1
    exact (Container.firsts_stored c.kind hwf hfold).unique hfirsts hplain
  · obtain ⟨zs, hofValues, hzs, hthrough⟩ :=
      Collection.ofValues_firsts hk fun v hv => ⟨hwf v hv, haccepts v hv⟩
    obtain ⟨w₁, b₁, hassign, hwriting₁, hleaves₁⟩ :=
      hwriting.assign hready hcollection k fun z hz => by
        obtain ⟨hwfz, v, hv, hunwrap⟩ := hzs z hz
        exact (hfit v hv).congr hwfz hunwrap
    refine ⟨_, w₁, hofValues, hassign, _, hwriting₁.values hleaves₁.ready, ?_⟩
    rw [hleaves₁.held]
    have hwfzs : ∀ z ∈ zs, z.WellFormed := fun z hz => (hzs z hz).1
    have hstored : ∀ u ∈ zs.map fun z => c.kind.normalize z.unwrap, u.WellFormed := by
      intro u hu
      obtain ⟨z, hz, rfl⟩ := List.mem_map.mp hu
      exact ((hwfzs z hz).unwrap.normalize c.kind).1
    have harranged := Value.firsts_arranged (k := c.kind) hshape hstored
    exact (hthrough _ (Container.firsts_stored c.kind hwfzs harranged)).unique hfirsts hplain
  · obtain ⟨r, us, hview, hshown, hus⟩ := Collection.inOrder_values hvalues hzs
    refine ⟨r, us, hview, hshown, ?_⟩
    have hview := hus.map_unwrap hzs
    rw [hsame] at hview
    exact hview.unique hfirsts hplain

/-! ## Numbers of several widths -/

/-- Two numbers, both in two widths and one in a wrapper. -/
def widths : List Value := [.int32 2, .wrapped (.int8 1), .int64 2, .int64 1]

/-- A snapshot with a list of these numbers, as a list of any values has them. -/
def listed : Snapshot :=
  ⟨1, [⟨⟨1⟩, "Bag", [("widths", .list (widths.mapIdx fun i v => ⟨⟨i + 1⟩, v.any, 1⟩))], 1⟩], 1, 4⟩

def bagWidths : Container := ⟨⟨⟨1⟩, "widths"⟩, .list .any⟩

/-- The set of the bag, and the view of the list, keep the width that was offered first. -/
theorem first_widths_are_kept :
    (∃ w₁ w₂, (Collection.bound (.live ⟨0⟩) bagNumbers).clear (empty.run bagging) 0 = (.ok (), w₁) ∧
        (Collection.bound (.live ⟨0⟩) bagNumbers).fill w₁ 0 widths = (.ok (), w₂) ∧
        (Collection.bound (.live ⟨0⟩) bagNumbers).Lists w₂ 0 [.int8 1, .int32 2]) ∧
      (∃ u w₁, Collection.ofValues (.set .any) widths = .ok u ∧
        (empty.run bagging).assign 0 ⟨0⟩ ⟨1⟩ "numbers" u =
          (.ok (.bound (.live ⟨0⟩) bagNumbers), w₁) ∧
        (Collection.bound (.live ⟨0⟩) bagNumbers).Lists w₁ 0 [.int8 1, .int32 2]) ∧
      ∃ r us, (Collection.bound (.frozen listed) bagWidths).inOrder = .ok r ∧
        (r.values empty 0).1 = .ok us ∧ us.map (·.unwrap) = [.int8 1, .int32 2] := by
  obtain ⟨x, hgate, hb⟩ : ∃ x, (empty.run bagging).gate 0 ⟨0⟩ = .ok x ∧
      x.batch = some bagged := ⟨_, rfl, rfl⟩
  have hset : (empty.run bagging).set 0 ⟨0⟩ ⟨1⟩ "numbers" =
      .ok (.bound (.live ⟨0⟩) bagNumbers) := rfl
  have hvs : ∀ v ∈ widths, v.WellFormed ∧ bagNumbers.kind.accepts v = true ∧
      bagged.view.checkLink bagNumbers.kind v = .ok () := by
    intro v hv
    simp only [widths, List.mem_cons, List.not_mem_nil, or_false] at hv
    rcases hv with rfl | rfl | rfl | rfl <;> exact ⟨trivial, rfl, rfl⟩
  have hwf : ∀ v ∈ widths, v.WellFormed := fun v hv => (hvs v hv).1
  have hany : ∀ v ∈ widths.map Value.any, v.WellFormed := by
    simp [widths, Value.any, Value.WellFormed]
  obtain ⟨ws, hascending, hfirst, hfill, hassign, hview⟩ :=
    sets_are_built_alike hgate hb hset hvs
  have hplain : ∀ u ∈ widths.map (·.unwrap), u.WellFormed := by
    intro u hu
    obtain ⟨v, hv, rfl⟩ := List.mem_map.mp hu
    exact (hwf v hv).unwrap
  obtain rfl : ws = [.int8 1, .int32 2] :=
    Value.Firsts.unique ⟨hascending, hfirst⟩
      (Value.firsts_arranged (k := bagNumbers.kind) rfl hplain) hplain
  exact ⟨hfill, hassign (.set .any) rfl (by decide),
    hview empty 0 (.frozen listed) bagWidths (widths.map Value.any) rfl hany rfl⟩

end World

end ObjectStore
