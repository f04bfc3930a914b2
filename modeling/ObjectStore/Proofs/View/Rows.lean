import Mathlib.Data.List.Sort
import ObjectStore.Change.Feed
import ObjectStore.Proofs.Sorting
import ObjectStore.Proofs.Store.Growth

/-
  Where the rows of a view come from.

  Every row of a view is an object of a class or an element of a container. Filtering and
  leaving out repeated keys only drop rows, and sorting rearranges them. So a name stands
  in a view at most once, and without a sort key rows stand in the order of their source.

    1. `Recipe.rowsOrNone_eq`: the rows as a source on which three steps work.
    2. `Recipe.mem_source` and `Recipe.nodup_ids`: rows are of the source, each once.
    3. `Recipe.ids_sublist`: without a sort key they keep its order.
    4. `Recipe.source_order`: the order of a source, from one content to a later one.
-/

namespace ObjectStore

namespace Recipe

/-- Everything a source has; a container whose owner is gone has nothing. -/
def allRows (s : Snapshot) : Source → List Row
  | .objects className => (s.entitiesOf className).map objectRow
  | .container key => (s.elementsOf key).map (elementRow s)

def allIds (s : Snapshot) : Source → List ElementId
  | .objects className => (s.entitiesOf className).map fun e => .object e.key
  | .container key => (s.elementsOf key).map fun x => .slot x.slot

variable {s s' : Snapshot}

theorem ids_allRows (s : Snapshot) (source : Source) :
    (allRows s source).map (·.id) = allIds s source := by
  cases source with
  | objects className => exact List.map_map
  | container key => exact List.map_map

theorem sourceRows_container (s : Snapshot) (key : ContainerKey) :
    sourceRows s (.container key) =
      (Container.elementsIn key s).map fun es => es.map (elementRow s) := by
  simp only [sourceRows, Container.elementsIn]
  cases s.entity? key.owner <;> rfl

theorem sourceRows_of_ok {source : Source} {rows : List Row}
    (h : sourceRows s source = .ok rows) : rows = allRows s source := by
  cases source with
  | objects className =>
    cases h
    rfl
  | container key =>
    simp only [sourceRows] at h
    split at h
    · cases h
    · rename_i owner ho
      cases h
      rw [allRows, Snapshot.elementsOf_of_entity? ho]

theorem allRows_of_error {source : Source} {e : Error} (h : sourceRows s source = .error e) :
    allRows s source = [] := by
  cases source with
  | objects className => cases h
  | container key =>
    simp only [sourceRows] at h
    split at h
    · rename_i ho
      rw [allRows, Snapshot.elementsOf_of_none ho, List.map_nil]
    · cases h

/-! ## The steps of a recipe -/

theorem keep_sublist (s : Snapshot) (p : Option Predicate) (rows : List Row) :
    (keep s p rows).Sublist rows := by
  cases p with
  | none => exact .refl _
  | some p => exact List.filter_sublist

theorem firsts_sublist (s : Snapshot) (p : Path) (seen : List Value) (rows : List Row) :
    (firsts s p seen rows).Sublist rows := by
  induction rows generalizing seen with
  | nil => exact .refl _
  | cons r rows ih =>
    rw [firsts]
    split
    · exact (ih seen).cons r
    · exact (ih _).cons_cons r

theorem dedup_sublist (s : Snapshot) (p : Option Path) (rows : List Row) :
    (dedup s p rows).Sublist rows := by
  cases p with
  | none => exact .refl _
  | some p => exact firsts_sublist s p [] rows

theorem order_perm (s : Snapshot) (k : Option SortKey) (rows : List Row) :
    (order s k rows).Perm rows := by
  cases k with
  | none => exact .refl _
  | some k => exact stableSort_perm _ rows

/-- The rows of a recipe, which has none if the owner of its container is gone. -/
theorem rowsOrNone_eq (r : Recipe) (s : Snapshot) :
    r.rowsOrNone s =
      dedup s r.distinct (order s r.sort (keep s r.predicate (allRows s r.source))) := by
  rw [rowsOrNone, rows]
  cases h : sourceRows s r.source with
  | ok all => rw [sourceRows_of_ok h]
  | error e =>
    have hkeep : keep s r.predicate (allRows s r.source) = [] := by
      rw [allRows_of_error h]
      exact List.sublist_nil.mp (keep_sublist s r.predicate [])
    have hnone : dedup s r.distinct (order s r.sort (keep s r.predicate (allRows s r.source))) =
        [] := by
      rw [hkeep, List.perm_nil.mp (order_perm s r.sort [])]
      exact List.sublist_nil.mp (dedup_sublist s r.distinct [])
    exact hnone.symm

theorem subperm_source (r : Recipe) (s : Snapshot) :
    (r.rowsOrNone s).Subperm (allRows s r.source) := by
  rw [rowsOrNone_eq]
  refine (dedup_sublist s r.distinct _).subperm.trans ?_
  exact (order_perm s r.sort _).subperm.trans (keep_sublist s r.predicate _).subperm

theorem mem_source {r : Recipe} {row : Row} (h : row ∈ r.rowsOrNone s) :
    row ∈ allRows s r.source :=
  (subperm_source r s).subset h

/-- Without a sort key, rows stand in the order of their source. -/
theorem ids_sublist {r : Recipe} (hr : r.sort = none) (s : Snapshot) :
    ((r.rowsOrNone s).map (·.id)).Sublist (allIds s r.source) := by
  rw [← ids_allRows]
  refine List.Sublist.map _ ?_
  rw [rowsOrNone_eq, hr]
  exact (dedup_sublist s r.distinct _).trans (keep_sublist s r.predicate _)

/-! ## Names of a source -/

theorem ascending_entitiesOf (h : s.Keyed) (className : String) :
    ((s.entitiesOf className).map (·.key)).Pairwise fun a b => a.val < b.val := by
  rw [List.pairwise_map]
  exact h.ascending.filter _

theorem nodup_allIds (h : s.Numbered) (source : Source) : (allIds s source).Nodup := by
  cases source with
  | objects className =>
    have hkeys : ((s.entitiesOf className).map (·.key)).Nodup :=
      (ascending_entitiesOf h.keyed className).imp fun hlt heq => by
        rw [heq] at hlt
        exact Nat.lt_irrefl _ hlt
    have hids := hkeys.map (f := ElementId.object) fun _ _ heq => ElementId.object.inj heq
    rwa [List.map_map] at hids
  | container key =>
    have hids := (h.slotted.distinct key).map (f := ElementId.slot) fun _ _ heq =>
      ElementId.slot.inj heq
    rwa [List.map_map] at hids

/-- A name stands in a view at most once. -/
theorem nodup_ids (h : s.Numbered) (r : Recipe) : ((r.rowsOrNone s).map (·.id)).Nodup := by
  obtain ⟨rows, hperm, hsub⟩ := subperm_source r s
  have hids := hsub.map (·.id)
  rw [ids_allRows] at hids
  exact (hperm.map (·.id)).nodup_iff.mp ((nodup_allIds h r.source).sublist hids)

/-! ## Order from one content to a later one -/

theorem common_order_map {α β : Type} [DecidableEq α] [DecidableEq β] {f : α → β}
    (hf : Function.Injective f) {xs ys : List α}
    (h : (ys.filter fun y => xs.contains y).Sublist xs) :
    ((ys.map f).filter fun y => (xs.map f).contains y).Sublist (xs.map f) := by
  have hcommon : ((ys.map f).filter fun y => (xs.map f).contains y) =
      (ys.filter fun y => xs.contains y).map f := by
    rw [List.filter_map]
    refine congrArg _ (List.filter_congr fun y _ => ?_)
    rw [Bool.eq_iff_iff]
    simp only [Function.comp, List.contains_iff_mem]
    exact List.mem_map_of_injective hf
  rw [hcommon]
  exact h.map f

theorem keys_order (hs : s.Keyed) (hs' : s'.Keyed) (className : String) :
    (((s'.entitiesOf className).map (·.key)).filter fun k =>
      ((s.entitiesOf className).map (·.key)).contains k).Sublist
        ((s.entitiesOf className).map (·.key)) := by
  have hold := ascending_entitiesOf hs className
  have hnew := (ascending_entitiesOf hs' className).filter fun k =>
    ((s.entitiesOf className).map (·.key)).contains k
  have : Std.Antisymm fun a b : ObjectKey => a.val < b.val :=
    ⟨fun a b hab hba => absurd hab (Nat.lt_asymm hba)⟩
  refine List.sublist_of_subperm_of_pairwise (List.subperm_of_subset ?_ fun k hk => ?_) hnew hold
  · exact hnew.imp fun hlt heq => by
      rw [heq] at hlt
      exact Nat.lt_irrefl _ hlt
  · exact List.contains_iff_mem.mp (List.mem_filter.mp hk).2

theorem slots_order {g g' : Generation} {written : ObjectKey → Prop} {renewed : SlotId → Prop}
    (hs : s.Slotted) (hd : s.Develops g g' written renewed s') (key : ContainerKey) :
    (((s'.elementsOf key).map (·.slot)).filter fun i =>
      ((s.elementsOf key).map (·.slot)).contains i).Sublist ((s.elementsOf key).map (·.slot)) := by
  have hwithin : ((s'.elementsOf key).map (·.slot)).filter (fun i =>
      ((s.elementsOf key).map (·.slot)).contains i) =
        (((s'.elementsOf key).map (·.slot)).filter fun i => i.val ≤ s.nextSlot).filter fun i =>
          ((s.elementsOf key).map (·.slot)).contains i := by
    rw [List.filter_filter]
    refine List.filter_congr fun i _ => ?_
    cases hi : ((s.elementsOf key).map (·.slot)).contains i with
    | false => rfl
    | true =>
      obtain ⟨x, hx, rfl⟩ := List.mem_map.mp (List.contains_iff_mem.mp hi)
      simpa using hs.bounded key x hx
  rw [hwithin]
  exact List.filter_sublist.trans (hd.order key)

/-- What a source had before and still has stands in the order it had. -/
theorem source_order {g g' : Generation} {written : ObjectKey → Prop} {renewed : SlotId → Prop}
    (hs : s.Numbered) (hs' : s'.Numbered) (hd : s.Develops g g' written renewed s')
    (source : Source) :
    ((allIds s' source).filter fun id => (allIds s source).contains id).Sublist
      (allIds s source) := by
  cases source with
  | objects className =>
    have hids := common_order_map (f := ElementId.object) (fun _ _ => ElementId.object.inj)
      (keys_order hs.keyed hs'.keyed className)
    rwa [List.map_map, List.map_map] at hids
  | container key =>
    have hids := common_order_map (f := ElementId.slot) (fun _ _ => ElementId.slot.inj)
      (slots_order hs.slotted hd key)
    rwa [List.map_map, List.map_map] at hids

end Recipe

end ObjectStore
