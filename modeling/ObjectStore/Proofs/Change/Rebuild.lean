import Mathlib.Data.List.Basic
import Mathlib.Data.List.Nodup
import ObjectStore.Proofs.Change.Replay
import ObjectStore.Proofs.Search

/-
  Sequences of names rebuilt from a change set.

  A change set gives the places of what it deletes in the older sequence, and of what it
  inserts in the newer one. Whoever keeps the sequence itself takes the deleted places
  out and then puts the inserted names in, place by place in ascending order. That gives
  the newer sequence if the names in both stand in the same order in both. The change set
  tells nothing of other rearrangements.

    1. `ChangeSet.rebuild` does this.
    2. `ChangeSet.Rebuilds`: it gives the newer sequence, and all places are strictly
       ascending, valid, and those of the names given with them.
    3. `ChangeSet.rebuilds_between`: so do the differences between two evaluations.
    4. `ChangeSet.common_of_sublist`: when the names in both stand in the same order.
-/

namespace ObjectStore

namespace ChangeSet

/-- A sequence without what stands at some places. -/
def withoutPlaces (places : List Nat) (ids : List ElementId) : List ElementId :=
  (ids.zipIdx.filter fun p => !places.contains p.2).map (·.1)

/-- A sequence into which names are put one after the other, each at its place. -/
def withInserted (ids : List ElementId) (entries : List (Nat × ElementId)) : List ElementId :=
  entries.foldl (fun ids p => ids.insertIdx p.1 p.2) ids

/-- The newer sequence as a change set tells it of an older one. -/
def rebuild (c : ChangeSet) (ids : List ElementId) : List ElementId :=
  withInserted (withoutPlaces c.deletions ids) (c.insertions.zip c.inserted)

/-- Places in a sequence, strictly ascending, and the names that stand there. -/
structure Indexes (places : List Nat) (ids named : List ElementId) : Prop where
  ascending : places.Pairwise (· < ·)
  valid : ∀ i ∈ places, i < ids.length
  named : places.map (ids[·]?) = named.map some

/-- A change set that leads from one sequence of names to another one, order included. -/
structure Rebuilds (c : ChangeSet) (old new : List ElementId) : Prop where
  rebuilt : c.rebuild old = new
  deletions : Indexes c.deletions old c.deleted
  insertions : Indexes c.insertions new c.inserted
  modifications : Indexes c.modifications new c.modified

/-! ## Picked rows -/

section

variable (p : ElementId → Generation → Bool)

theorem pick_eq (start : Nat) (t : Trace) :
    pick p start t =
      ((t.zipIdx start).filter fun x => p x.1.1 x.1.2).map fun x => (x.2, x.1.1) := by
  induction t generalizing start with
  | nil => rfl
  | cons row rest ih =>
    obtain ⟨id, revision⟩ := row
    rw [pick, ih, List.zipIdx_cons, List.filter_cons]
    split <;> rfl

theorem pick_places (start : Nat) (t : Trace) :
    ((pick p start t).map (·.1)).Sublist (List.range' start t.length) := by
  have hplaces : (pick p start t).map (·.1) =
      ((t.zipIdx start).filter fun x => p x.1.1 x.1.2).map (·.2) := by
    rw [pick_eq, List.map_map]
    rfl
  rw [hplaces, ← List.zipIdx_map_snd]
  exact List.filter_sublist.map _

theorem indexes_pick (t : Trace) :
    Indexes ((pick p 0 t).map (·.1)) t.ids ((pick p 0 t).map (·.2)) where
  ascending := List.Pairwise.sublist (pick_places p 0 t) List.pairwise_lt_range'
  valid := by
    intro i hi
    have hmem := (pick_places p 0 t).mem hi
    rw [List.mem_range'_1] at hmem
    simpa [Trace.ids] using hmem
  named := by
    rw [List.map_map, List.map_map]
    refine List.map_congr_left fun x hx => ?_
    rw [pick_eq] at hx
    obtain ⟨y, hy, rfl⟩ := List.mem_map.mp hx
    have hget := List.mem_zipIdx_iff_getElem?.mp (List.mem_filter.mp hy).1
    simp [Trace.ids, hget]

theorem withoutPlaces_pick (q : ElementId → Bool) (t : Trace) :
    withoutPlaces ((pick (fun id _ => q id) 0 t).map (·.1)) t.ids =
      t.ids.filter fun id => !q id := by
  have hfrom (start : Nat) :
      ((t.ids.zipIdx start).filter fun x =>
        !((pick (fun id _ => q id) start t).map (·.1)).contains x.2).map (·.1) =
          t.ids.filter fun id => !q id := by
    induction t generalizing start with
    | nil => rfl
    | cons row rest ih =>
      obtain ⟨id, revision⟩ := row
      have hrest : ((Trace.ids rest).zipIdx (start + 1)).filter (fun x =>
          !((pick (fun id _ => q id) start ((id, revision) :: rest)).map (·.1)).contains x.2) =
            ((Trace.ids rest).zipIdx (start + 1)).filter fun x =>
              !((pick (fun id _ => q id) (start + 1) rest).map (·.1)).contains x.2 := by
        -- the first place is none of those behind it
        refine List.filter_congr fun x hx => ?_
        have hlt : start < x.2 := (List.le_snd_of_mem_zipIdx hx)
        have hne : (x.2 == start) = false := by simpa using Nat.ne_of_gt hlt
        rw [pick]
        split
        · simp only [List.map_cons, List.contains_cons, hne, Bool.false_or]
        · rfl
      have hhead : start ∉ (pick (fun id _ => q id) (start + 1) rest).map (·.1) := by
        intro hmem
        have := (pick_places _ (start + 1) rest).mem hmem
        rw [List.mem_range'_1] at this
        omega
      change (((id :: Trace.ids rest).zipIdx start).filter _).map _ =
        (id :: Trace.ids rest).filter _
      rw [List.zipIdx_cons, List.filter_cons, List.filter_cons, hrest]
      cases hq : q id with
      | true => simpa [pick, hq] using ih (start + 1)
      | false =>
        have hkept : ((pick (fun id _ => q id) start ((id, revision) :: rest)).map
            (·.1)).contains start = false := by
          rw [pick, hq]
          simpa using hhead
        simp only [hkept, Bool.not_false, if_true, List.map_cons, ih (start + 1)]
  exact hfrom 0

theorem withInserted_pick (t : Trace) (front : List ElementId) :
    withInserted (front ++ Trace.ids (t.filter fun x => !p x.1 x.2)) (pick p front.length t) =
      front ++ t.ids := by
  induction t generalizing front with
  | nil => rfl
  | cons row rest ih =>
    obtain ⟨id, revision⟩ := row
    have hnext := ih (front ++ [id])
    rw [List.length_append, List.length_singleton, List.append_assoc, List.append_assoc] at hnext
    cases hp : p id revision with
    | true =>
      have hhead :
          (front ++ Trace.ids (rest.filter fun x => !p x.1 x.2)).insertIdx front.length id =
            front ++ ([id] ++ Trace.ids (rest.filter fun x => !p x.1 x.2)) := by
        rw [insertIdx_eq_take_drop (by simp), List.take_left, List.drop_left, List.singleton_append]
      rw [pick, List.filter_cons]
      simp only [hp, Bool.not_true, Bool.false_eq_true, if_false, if_true]
      rw [withInserted, List.foldl_cons, hhead]
      exact hnext
    | false =>
      rw [pick, List.filter_cons]
      simp only [hp, Bool.not_false, if_true, Bool.false_eq_true, if_false]
      exact hnext

end

/-! ## The differences between two evaluations -/

variable {old new : Trace} {g : Generation}

theorem rebuild_between (hcommon : (old.ids.filter fun id => new.ids.contains id) =
    new.ids.filter fun id => old.ids.contains id) :
    (between old new g).rebuild old.ids = new.ids := by
  have hdeleted : withoutPlaces (between old new g).deletions old.ids =
      Trace.ids (new.filter fun x => !(old.revision? x.1).isNone) := by
    change withoutPlaces ((pick (fun id _ => !new.ids.contains id) 0 old).map (·.1)) old.ids = _
    rw [withoutPlaces_pick]
    simp only [Bool.not_not]
    rw [hcommon, Trace.ids, Trace.ids, List.filter_map]
    refine congrArg _ (List.filter_congr fun x _ => ?_)
    -- a name stands in the older evaluation if it has a revision there
    have hnone : (old.revision? x.1).isNone = true ↔ x.1 ∉ old.ids := isNone_revision?
    cases hr : (old.revision? x.1).isNone with
    | true =>
      have hmem : x.1 ∉ old.ids := hnone.mp hr
      simpa [Trace.ids] using hmem
    | false =>
      have hmem : x.1 ∈ old.ids := by
        by_contra hnot
        rw [hnone.mpr hnot] at hr
        cases hr
      simpa [Trace.ids] using hmem
  have hinserted : (between old new g).insertions.zip (between old new g).inserted =
      pick (fun id _ => (old.revision? id).isNone) 0 new :=
    (List.zip_of_prod rfl rfl).symm
  rw [rebuild, hdeleted, hinserted]
  exact withInserted_pick (fun id _ => (old.revision? id).isNone) new []

theorem rebuilds_between (hcommon : (old.ids.filter fun id => new.ids.contains id) =
    new.ids.filter fun id => old.ids.contains id) :
    (between old new g).Rebuilds old.ids new.ids :=
  ⟨rebuild_between hcommon, indexes_pick _ old, indexes_pick _ new, indexes_pick _ new⟩

theorem Rebuilds.eq_of_isEmpty {c : ChangeSet} {old new : List ElementId} (h : c.Rebuilds old new)
    (hc : c.isEmpty = true) : new = old := by
  simp only [isEmpty, Bool.and_eq_true, List.isEmpty_iff] at hc
  obtain ⟨⟨hdeletions, hinsertions⟩, -⟩ := hc
  have hall : (old.zipIdx.filter fun p => !([] : List Nat).contains p.2) = old.zipIdx :=
    List.filter_eq_self.mpr fun _ _ => rfl
  rw [← h.rebuilt, rebuild, hdeletions, hinsertions, withoutPlaces, hall, List.zip_nil_left,
    List.zipIdx_map_fst]
  rfl

/-! ## Sequences with the same order -/

theorem eq_filter_of_sublist {α : Type} [DecidableEq α] {xs ys : List α} (h : xs.Sublist ys)
    (hys : ys.Nodup) : xs = ys.filter fun y => xs.contains y := by
  induction h with
  | slnil => rfl
  | @cons xs ys y h ih =>
    obtain ⟨hy, hys⟩ := List.nodup_cons.mp hys
    have hnot : xs.contains y = false := by
      simpa using fun hmem => hy (h.mem hmem)
    rw [List.filter_cons, hnot]
    exact ih hys
  | @cons_cons xs ys y h ih =>
    obtain ⟨hy, hys⟩ := List.nodup_cons.mp hys
    have hrest : ys.filter (fun z => (y :: xs).contains z) = ys.filter fun z => xs.contains z := by
      refine List.filter_congr fun z hz => ?_
      have hne : (z == y) = false := by
        refine beq_false_of_ne ?_
        rintro rfl
        exact hy hz
      rw [List.contains_cons, hne, Bool.false_or]
    rw [List.filter_cons, List.contains_cons, beq_self_eq_true, Bool.true_or, if_pos rfl, hrest,
      ← ih hys]

/-- Two sequences taken out of two longer ones have their common names in the same order,
if those that the longer ones have in common stand in the same order. -/
theorem common_of_sublist {α : Type} [DecidableEq α] {xs ys all all' : List α}
    (hxs : xs.Sublist all) (hys : ys.Sublist all') (hall : all.Nodup)
    (horder : (all'.filter fun y => all.contains y).Sublist all) :
    (xs.filter fun x => ys.contains x) = ys.filter fun y => xs.contains y := by
  have hleft : (xs.filter fun x => ys.contains x).Sublist all := List.filter_sublist.trans hxs
  have hright : (ys.filter fun y => xs.contains y).Sublist all := by
    have hwithin : ys.filter (fun y => xs.contains y) =
        (ys.filter fun y => all.contains y).filter fun y => xs.contains y := by
      rw [List.filter_filter]
      refine List.filter_congr fun y _ => ?_
      cases hx : xs.contains y with
      | false => rfl
      | true =>
        have hmem : y ∈ all := hxs.mem (by simpa using hx)
        simpa using hmem
    rw [hwithin]
    exact List.filter_sublist.trans ((hys.filter _).trans horder)
  rw [eq_filter_of_sublist hleft hall, eq_filter_of_sublist hright hall]
  refine List.filter_congr fun z _ => ?_
  rw [Bool.eq_iff_iff]
  simp only [List.contains_iff_mem, List.mem_filter]
  exact and_comm

end ChangeSet

end ObjectStore
