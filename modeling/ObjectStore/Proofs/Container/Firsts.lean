import ObjectStore.Collection.Basic
import ObjectStore.Proofs.Container.Sets

/-
  A set keeps the first of equal values.

  Values that compare equal can still be told apart: an integer has a width, a decimal a
  number of places. Of such values a set keeps the one that was offered first, and this is
  what every way to build one comes down to: the values that it keeps are the first
  occurrences among those that were offered, in strictly ascending order (`Value.Firsts`).
  There is only one list of this kind (`Firsts.unique`).

    1. `Value.Firsts.takeIn`: one more value is searched, and put in if it is not there.
    2. `Value.firsts_arranged`: all values are sorted, and the repetitions dropped.
    3. `Value.Firsts.map_unwrap`: wrappers do not matter.
    4. `Collection.ofValues_firsts`: through a collection that belongs to no object yet a set
       comes to the same values.
-/

namespace ObjectStore

namespace Value

variable {u v w : Value} {us vs ws : List Value}

/-! ## Values that are alike -/

/-- Whether a value takes the place of another one in a set. -/
def isLike (w v : Value) : Bool := v.canonicalCompare w == .eq

theorem isLike_iff : w.isLike v = true ↔ v.canonicalCompare w = .eq := beq_iff_eq

theorem isLike_self (hv : v.WellFormed) : v.isLike v = true :=
  isLike_iff.mpr (canonicalCompare_self hv)

theorem isLike_comm (hv : v.WellFormed) (hw : w.WellFormed) : w.isLike v = v.isLike w := by
  rw [isLike, isLike, canonicalCompare_swap hw hv]
  cases w.canonicalCompare v <;> rfl

theorem isLike_congr (hu : u.WellFormed) (hv : v.WellFormed) (hw : w.WellFormed)
    (h : w.isLike v = true) : v.isLike u = w.isLike u := by
  have h' : v.isLike w = true := by rw [← isLike_comm hv hw, h]
  rw [Bool.eq_iff_iff, isLike_iff, isLike_iff]
  exact ⟨fun huv => canonicalCompare_trans hu hv hw huv (isLike_iff.mp h),
    fun huw => canonicalCompare_trans hu hw hv huw (isLike_iff.mp h')⟩

theorem find?_isLike_congr (hvs : ∀ u ∈ vs, u.WellFormed) (hv : v.WellFormed) (hw : w.WellFormed)
    (h : w.isLike v = true) : vs.find? v.isLike = vs.find? w.isLike := by
  rw [← List.head?_filter, List.filter_congr fun u hu => isLike_congr (hvs u hu) hv hw h,
    List.head?_filter]

/-! ## First occurrences -/

/-- The first occurrences among values, in strictly ascending order. -/
structure Firsts (vs ws : List Value) : Prop where
  ascending : ws.Pairwise fun v w => v.canonicalCompare w = .lt
  mem_iff : ∀ w, w ∈ ws ↔ vs.find? w.isLike = some w

namespace Firsts

theorem nil : Firsts [] [] := ⟨.nil, fun w => by simp⟩

theorem subset (h : Firsts vs ws) (hw : w ∈ ws) : w ∈ vs :=
  List.mem_of_find?_eq_some ((h.mem_iff w).mp hw)

theorem wellFormed (h : Firsts vs ws) (hvs : ∀ v ∈ vs, v.WellFormed) : ∀ w ∈ ws, w.WellFormed :=
  fun w hw => hvs w (h.subset hw)

theorem toAscending (h : Firsts vs ws) (hvs : ∀ v ∈ vs, v.WellFormed) : Ascending id ws :=
  ⟨h.wellFormed hvs, h.ascending⟩

theorem covers (h : Firsts vs ws) (hvs : ∀ v ∈ vs, v.WellFormed) (hw : w.WellFormed) (hv : v ∈ vs)
    (hlike : w.isLike v = true) : ∃ x ∈ ws, w.isLike x = true := by
  obtain ⟨x, hx⟩ := Option.isSome_iff_exists.mp (List.find?_isSome.mpr ⟨v, hv, hlike⟩)
  have hlikex := List.find?_some hx
  have hwfx := hvs x (List.mem_of_find?_eq_some hx)
  refine ⟨x, (h.mem_iff x).mpr ?_, hlikex⟩
  rw [find?_isLike_congr hvs hwfx hw hlikex, hx]

/-- Two lists of the first occurrences are the same. -/
theorem unique (h : Firsts vs ws) (h' : Firsts vs us) (hvs : ∀ v ∈ vs, v.WellFormed) :
    ws = us := by
  have hlt {v w : Value} (hv : v ∈ ws) (hw : w ∈ ws) (hvw : v.canonicalCompare w = .lt)
      (hwv : w.canonicalCompare v = .lt) : v = w := by
    have hwf := h.wellFormed hvs
    rw [← canonicalCompare_gt_iff (hwf v hv) (hwf w hw), hvw] at hwv
    cases hwv
  have hnodup {zs : List Value} (hz : Firsts vs zs) : zs.Nodup :=
    hz.ascending.imp_of_mem fun hv _ hvw heq => by
      rw [← heq, canonicalCompare_self (hz.wellFormed hvs _ hv)] at hvw
      cases hvw
  have hperm : ws.Perm us := (List.perm_ext_iff_of_nodup (hnodup h) (hnodup h')).mpr fun w => by
    rw [h.mem_iff, h'.mem_iff]
  refine List.Perm.eq_of_pairwise (fun v w hv hw hvw hwv => ?_) h.ascending h'.ascending hperm
  exact hlt hv (hperm.mem_iff.mpr hw) hvw hwv

theorem self (h : Ascending id vs) : Firsts vs vs := by
  refine ⟨h.ascending, fun w => ⟨fun hw => ?_, List.mem_of_find?_eq_some⟩⟩
  obtain ⟨x, hx⟩ := Option.isSome_iff_exists.mp
    (List.find?_isSome.mpr ⟨w, hw, isLike_self (h.wellFormed w hw)⟩)
  have hmem := List.mem_of_find?_eq_some hx
  rw [hx, h.eq_of_canonicalCompare hmem hw (isLike_iff.mp (List.find?_some hx))]

theorem map_unwrap (h : Firsts vs ws) (hvs : ∀ v ∈ vs, v.WellFormed) :
    Firsts (vs.map (·.unwrap)) (ws.map (·.unwrap)) := by
  have hwf := h.wellFormed hvs
  have hfind {w : Value} (hw : w.WellFormed) :
      (vs.map (·.unwrap)).find? w.unwrap.isLike = (vs.find? w.isLike).map (·.unwrap) := by
    rw [List.find?_map, ← List.head?_filter, ← List.head?_filter (p := w.isLike)]
    refine congrArg (fun zs => (List.head? zs).map Value.unwrap) (List.filter_congr fun v hv => ?_)
    simp only [Function.comp, isLike, canonicalCompare_unwrap (hvs v hv) hw]
  refine ⟨?_, fun u => ⟨fun hu => ?_, fun hu => ?_⟩⟩
  · rw [List.pairwise_map]
    refine h.ascending.imp_of_mem fun {v w} hv hw hvw => ?_
    rwa [canonicalCompare_unwrap (hwf v hv) (hwf w hw)]
  · obtain ⟨w, hw, rfl⟩ := List.mem_map.mp hu
    rw [hfind (hwf w hw), (h.mem_iff w).mp hw, Option.map_some]
  · obtain ⟨w, hw, rfl⟩ := List.mem_map.mp (List.mem_of_find?_eq_some hu)
    rw [hfind (hvs w hw)] at hu
    obtain ⟨x, hx, heq⟩ := Option.map_eq_some_iff.mp hu
    have hxmem := List.mem_of_find?_eq_some hx
    rw [← heq]
    refine List.mem_map_of_mem ((h.mem_iff x).mpr ?_)
    rw [find?_isLike_congr hvs (hvs x hxmem) (hvs w hw) (List.find?_some hx), hx]

theorem again (h : Firsts vs ws) (hvs : ∀ v ∈ vs, v.WellFormed) (h' : Firsts ws us) : us = ws :=
  h'.unique (.self (h.toAscending hvs)) (h.wellFormed hvs)

end Firsts

/-! ## One value after the other -/

/-- A value put among values in strictly ascending order, unless one is like it. -/
def takeIn (kept : List Value) (v : Value) : List Value :=
  match search (fun x => x.canonicalCompare v) kept with
  | .found _ => kept
  | .free i => kept.insertIdx i v

/-- Whether the place of a value is free. -/
def isFreeIn (v : Value) (kept : List Value) : Bool :=
  match search (fun x => x.canonicalCompare v) kept with
  | .found _ => false
  | .free _ => true

/-- With one more value the first occurrences are those that there were, and this value if
none of them is like it. -/
theorem Firsts.takeIn (h : Firsts vs ws) (hvs : ∀ v ∈ vs, v.WellFormed) (hv : v.WellFormed) :
    Firsts (vs ++ [v]) (takeIn ws v) := by
  have hasc := h.toAscending hvs
  have hfind (w : Value) : (vs ++ [v]).find? w.isLike = some w ↔
      vs.find? w.isLike = some w ∨ vs.find? w.isLike = none ∧ w = v := by
    rw [List.find?_append]
    cases hf : vs.find? w.isLike with
    | some x => simp
    | none =>
      simp only [Option.none_or, reduceCtorEq, false_or, true_and]
      constructor
      · exact fun hw => List.mem_singleton.mp (List.mem_of_find?_eq_some hw)
      · rintro rfl
        exact List.find?_cons_of_pos (isLike_self hv)
  unfold Value.takeIn
  cases hplace : search (fun x => x.canonicalCompare v) ws with
  | found i =>
    obtain ⟨x, hx, heq⟩ := (hasc.found_iff hv).mp ⟨i, hplace⟩
    refine ⟨h.ascending, fun w => ?_⟩
    rw [h.mem_iff, hfind, iff_self_or]
    rintro ⟨hnone, rfl⟩
    exact absurd (isLike_iff.mpr heq) (List.find?_eq_none.mp hnone x (h.subset hx))
  | free i =>
    obtain ⟨hi, hfree⟩ := hasc.of_free hv hplace
    have hnot : vs.find? v.isLike = none := by
      refine List.find?_eq_none.mpr fun u hu hlike => ?_
      obtain ⟨x, hx, hlikex⟩ := h.covers hvs hv hu hlike
      exact hfree x hx (isLike_iff.mp hlikex)
    refine ⟨(hasc.insertIdx_free (x := v) hv hplace).ascending, fun w => ?_⟩
    rw [List.mem_insertIdx hi, hfind, h.mem_iff]
    constructor
    · rintro (rfl | hw)
      · exact .inr ⟨hnot, rfl⟩
      · exact .inl hw
    · rintro (hw | ⟨-, rfl⟩)
      · exact .inr hw
      · exact .inl rfl

theorem firsts_foldl (h : Firsts us ws) (hus : ∀ u ∈ us, u.WellFormed)
    (hvs : ∀ v ∈ vs, v.WellFormed) : Firsts (us ++ vs) (vs.foldl takeIn ws) := by
  induction vs generalizing us ws with
  | nil => rwa [List.append_nil]
  | cons v vs ih =>
    have hv := hvs v List.mem_cons_self
    have hus' : ∀ u ∈ us ++ [v], u.WellFormed := by
      intro u hu
      rcases List.mem_append.mp hu with hu | hu
      · exact hus u hu
      · rwa [List.mem_singleton.mp hu]
    have hrest := ih (h.takeIn hus hv) hus' fun x hx => hvs x (List.mem_cons_of_mem v hx)
    rwa [List.append_assoc, List.singleton_append] at hrest

/-! ## All values at once -/

theorem mem_dropRepeatedAfter_iff (hwf : ∀ x ∈ v :: vs, x.WellFormed)
    (hsorted : (v :: vs).Pairwise fun a b => b.canonicalCompare a ≠ .lt) (hw : w.WellFormed) :
    w ∈ Container.dropRepeatedAfter v vs ↔ (v :: vs).find? w.isLike = some w := by
  induction vs generalizing v with
  | nil =>
    rw [Container.dropRepeatedAfter, List.mem_singleton]
    constructor
    · rintro rfl
      exact List.find?_cons_of_pos (isLike_self hw)
    · exact fun h => (List.mem_singleton.mp (List.mem_of_find?_eq_some h))
  | cons u us ih =>
    have hv := hwf v List.mem_cons_self
    have hu := hwf u (List.mem_cons_of_mem v List.mem_cons_self)
    rw [Container.dropRepeatedAfter]
    split
    · -- the second value is dropped, and it was not the first of its kind
      rename_i heq
      have hsub : (v :: us).Sublist (v :: u :: us) := (List.sublist_cons_self u us).cons_cons v
      have hsame : w.isLike u = w.isLike v := by
        rw [isLike_comm hu hw, isLike_comm hv hw, isLike_congr hw hu hv (isLike_iff.mpr heq)]
      rw [ih (fun x hx => hwf x (hsub.mem hx)) (hsorted.sublist hsub), List.find?_cons,
        List.find?_cons, List.find?_cons, hsame]
      cases w.isLike v <;> rfl
    · rename_i hne
      have hlt := Container.head_lt hwf hsorted hne
      rw [List.mem_cons, ih (fun x hx => hwf x (List.mem_cons_of_mem v hx))
        (List.pairwise_cons.mp hsorted).2]
      constructor
      · rintro (rfl | hfind)
        · exact List.find?_cons_of_pos (isLike_self hw)
        · have hnot : w.isLike v ≠ true := by
            rw [ne_eq, isLike_iff, hlt w (List.mem_of_find?_eq_some hfind)]
            decide
          rwa [List.find?_cons_of_neg hnot]
      · intro hfind
        rw [List.find?_cons] at hfind
        split at hfind
        · exact .inl (Option.some.inj hfind).symm
        · exact .inr hfind

/-- Sorted, and without the repetitions, the values are the first occurrences. -/
theorem firsts_arranged {k : PropertyKind} (hk : k.container = some .set)
    (hvs : ∀ v ∈ vs, v.WellFormed) : Firsts vs (Container.arranged k vs) := by
  refine ⟨Container.arranged_ascending hk hvs, fun w => ?_⟩
  have hmem {w : Value} (hw : w.WellFormed) :
      w ∈ Container.arranged k vs ↔ vs.find? w.isLike = some w := by
    have hstable : (sort vs).find? w.isLike = vs.find? w.isLike := by
      refine find?_stableSort fun x hx y hy hwx hwy => ?_
      have hxy : y.isLike x = true := by
        rwa [isLike_congr (hvs x hx) (hvs y hy) hw hwy]
      rw [isLike_iff.mp hxy]
      rfl
    obtain ⟨hwf, hsorted⟩ := Container.sort_sorted hvs
    rw [← hstable, Container.arranged, if_pos hk]
    cases hs : sort vs with
    | nil => simp [Container.dropRepeated]
    | cons v us =>
      rw [hs] at hwf hsorted
      exact mem_dropRepeatedAfter_iff hwf hsorted hw
  constructor
  · exact fun hw => (hmem (hvs w (Container.mem_of_mem_arranged hw))).mp hw
  · exact fun hw => (hmem (hvs w (List.mem_of_find?_eq_some hw))).mpr hw

end Value

/-! ## Collections of values -/

namespace Collection

variable {k : PropertyKind} {vs kept : List Value}

theorem gather_accepted {element : PropertyKind} (h : ∀ v ∈ vs, element.check v = .ok ())
    (shape : Shape) (kept : List Value) : gather element k shape kept vs =
      .ok (match shape with
        | .list => kept ++ vs.map k.normalize
        | .set => (vs.map k.normalize).foldl Value.takeIn kept) := by
  induction vs generalizing kept with
  | nil => cases shape <;> simp [gather]
  | cons v vs ih =>
    have hrest := ih fun x hx => h x (List.mem_cons_of_mem v hx)
    rw [gather, h v List.mem_cons_self]
    cases shape with
    | list =>
      simp only [hrest, List.map_cons, List.append_assoc, List.singleton_append]
    | set =>
      simp only [hrest, List.map_cons, List.foldl_cons, Value.takeIn]
      cases search (fun x => x.canonicalCompare (k.normalize v)) kept <;> rfl

theorem map_normalize (k : PropertyKind) (hvs : ∀ v ∈ vs, v.WellFormed) :
    (vs.map k.normalize).map (·.unwrap) = vs.map (·.unwrap) := by
  rw [List.map_map]
  exact List.map_congr_left fun v hv => ((hvs v hv).normalize k).2

/-- A collection of well-formed values of its kind can be made, and the first occurrences
among its values are those among the values it is made from. -/
theorem ofValues_firsts (hk : k.isContainer = true)
    (hvs : ∀ v ∈ vs, v.WellFormed ∧ k.accepts v = true) :
    ∃ zs, ofValues k vs = .ok (.unattached k zs) ∧
      (∀ z ∈ zs, z.WellFormed ∧ ∃ v ∈ vs, z.unwrap = v.unwrap) ∧
      ∀ us, Value.Firsts (zs.map (·.unwrap)) us → Value.Firsts (vs.map (·.unwrap)) us := by
  have hwf : ∀ v ∈ vs, v.WellFormed := fun v hv => (hvs v hv).1
  have hstored : ∀ z ∈ vs.map k.normalize, z.WellFormed ∧ ∃ v ∈ vs, z.unwrap = v.unwrap := by
    intro z hz
    obtain ⟨v, hv, rfl⟩ := List.mem_map.mp hz
    obtain ⟨hz, hunwrap⟩ := (hwf v hv).normalize k
    exact ⟨hz, v, hv, hunwrap⟩
  have hcheck : ∀ v ∈ vs, k.element.check v = .ok () := by
    intro v hv
    exact if_pos (hvs v hv).2
  obtain ⟨shape, hshape⟩ := Option.isSome_iff_exists.mp hk
  have hgather := gather_accepted (k := k) hcheck shape []
  cases shape with
  | list =>
    refine ⟨vs.map k.normalize, by simp only [ofValues, hshape, hgather]; rfl, hstored, ?_⟩
    rw [map_normalize k hwf]
    exact fun us h => h
  | set =>
    have hfirsts := Value.firsts_foldl .nil nofun fun z hz => (hstored z hz).1
    rw [List.nil_append] at hfirsts
    have hplain := hfirsts.map_unwrap fun z hz => (hstored z hz).1
    rw [map_normalize k hwf] at hplain
    refine ⟨_, by simp only [ofValues, hshape, hgather]; rfl,
      fun z hz => hstored z (hfirsts.subset hz), fun us h => ?_⟩
    have hunwrap : ∀ v ∈ vs.map (·.unwrap), v.WellFormed := by
      intro u hu
      obtain ⟨v, hv, rfl⟩ := List.mem_map.mp hu
      exact (hwf v hv).unwrap
    rwa [hplain.again hunwrap h]

end Collection

end ObjectStore
