import Mathlib.Data.Finset.SDiff
import Mathlib.Data.Finset.Lattice.Basic
import ObjectStore.Change.ChangeSet

/-
  Change sets replayed.

  A change set tells how one evaluation of a view differs from another one. Replayed on
  the names of the older one, taking out the deleted and adding the inserted, it gives
  the names of the newer one. Which rows have changed places it does not tell, so the
  names are compared as sets.

    1. `ChangeSet.replay` replays one change set, `ChangeSet.replayAll` several.
    2. `ChangeSet.Chained`: a sequence in which each change set tells of a change, and
       deletes, inserts and modifies only what it can.
    3. `ChangeSet.replay_between`: the differences lead from the older evaluation to the
       newer one. `ChangeSet.ids_of_isEmpty`: without any the names are the same.
-/

namespace ObjectStore

namespace ChangeSet

/-- The names after a change: without the deleted ones, with the inserted ones. -/
def replay (ids : Finset ElementId) (c : ChangeSet) : Finset ElementId :=
  (ids \ c.deleted.toFinset) ∪ c.inserted.toFinset

/-- The names after several changes, one after the other. -/
def replayAll (ids : Finset ElementId) (cs : List ChangeSet) : Finset ElementId :=
  cs.foldl replay ids

/-- A change set that fits names: it tells of a change, deletes and modifies what is
there, and inserts what is not. -/
structure Fits (ids : Finset ElementId) (c : ChangeSet) : Prop where
  changes : c.isEmpty = false
  deleted : ∀ id ∈ c.deleted, id ∈ ids
  modified : ∀ id ∈ c.modified, id ∈ ids
  inserted : ∀ id ∈ c.inserted, id ∉ ids

/-- Change sets each of which fits the names after those before it. -/
def Chained (ids : Finset ElementId) : List ChangeSet → Prop
  | [] => True
  | c :: cs => c.Fits ids ∧ Chained (c.replay ids) cs

theorem replayAll_append (ids : Finset ElementId) (cs ds : List ChangeSet) :
    replayAll ids (cs ++ ds) = replayAll (replayAll ids cs) ds :=
  List.foldl_append

theorem chained_append {ids : Finset ElementId} {cs ds : List ChangeSet} :
    Chained ids (cs ++ ds) ↔ Chained ids cs ∧ Chained (replayAll ids cs) ds := by
  induction cs generalizing ids with
  | nil => simp only [List.nil_append, Chained, true_and]; rfl
  | cons c cs ih =>
    simp only [List.cons_append, Chained, ih, and_assoc]
    rfl

/-! ## The differences between two evaluations -/

theorem mem_pick {p : ElementId → Generation → Bool} {start : Nat} {t : Trace} {id : ElementId} :
    id ∈ (pick p start t).map (·.2) ↔ ∃ revision, (id, revision) ∈ t ∧ p id revision = true := by
  induction t generalizing start with
  | nil => simp [pick]
  | cons row rest ih =>
    obtain ⟨i, r⟩ := row
    rw [pick]
    split
    · rename_i hp
      rw [List.map_cons, List.mem_cons, ih]
      constructor
      · rintro (rfl | ⟨revision, hm, hr⟩)
        · exact ⟨r, List.mem_cons_self, hp⟩
        · exact ⟨revision, List.mem_cons_of_mem _ hm, hr⟩
      · rintro ⟨revision, hm, hr⟩
        rcases List.mem_cons.mp hm with heq | hm
        · cases heq
          exact .inl rfl
        · exact .inr ⟨revision, hm, hr⟩
    · rename_i hp
      rw [ih]
      constructor
      · rintro ⟨revision, hm, hr⟩
        exact ⟨revision, List.mem_cons_of_mem _ hm, hr⟩
      · rintro ⟨revision, hm, hr⟩
        rcases List.mem_cons.mp hm with heq | hm
        · cases heq
          exact absurd hr hp
        · exact ⟨revision, hm, hr⟩

theorem mem_ids {t : Trace} {id : ElementId} : id ∈ t.ids ↔ ∃ revision, (id, revision) ∈ t := by
  simp [Trace.ids]

theorem isNone_revision? {t : Trace} {id : ElementId} :
    (t.revision? id).isNone = true ↔ id ∉ t.ids := by
  rw [Trace.revision?, Option.isNone_iff_eq_none, List.lookup_eq_none_iff, mem_ids]
  constructor
  · rintro h ⟨revision, hm⟩
    have := h _ (List.mem_reverse.mpr hm)
    simp at this
  · intro h row hrow
    obtain ⟨i, r⟩ := row
    have hne : id ≠ i := by
      rintro rfl
      exact h ⟨r, List.mem_reverse.mp hrow⟩
    simpa using hne

variable {old new : Trace} {g : Generation} {id : ElementId}

theorem mem_deleted_between : id ∈ (between old new g).deleted ↔ id ∈ old.ids ∧ id ∉ new.ids := by
  simp only [between, mem_pick]
  rw [mem_ids (t := old)]
  simp

theorem mem_inserted_between :
    id ∈ (between old new g).inserted ↔ id ∈ new.ids ∧ id ∉ old.ids := by
  simp only [between, mem_pick, isNone_revision?]
  rw [mem_ids (t := new)]
  simp

theorem mem_of_mem_modified_between (h : id ∈ (between old new g).modified) : id ∈ old.ids := by
  simp only [between, mem_pick] at h
  obtain ⟨revision, -, hr⟩ := h
  by_contra hnot
  rw [Option.isNone_iff_eq_none.mp (isNone_revision?.mpr hnot)] at hr
  cases hr

/-- The differences lead from the names of the older evaluation to those of the newer. -/
theorem replay_between (old new : Trace) (g : Generation) :
    (between old new g).replay old.ids.toFinset = new.ids.toFinset := by
  ext id
  simp only [replay, Finset.mem_union, Finset.mem_sdiff, List.mem_toFinset, mem_deleted_between,
    mem_inserted_between]
  by_cases ho : id ∈ old.ids <;> by_cases hn : id ∈ new.ids <;> simp [ho, hn]

theorem fits_between (h : (between old new g).isEmpty = false) :
    (between old new g).Fits old.ids.toFinset := by
  refine ⟨h, fun id hid => ?_, fun id hid => ?_, fun id hid => ?_⟩
  · exact List.mem_toFinset.mpr (mem_deleted_between.mp hid).1
  · exact List.mem_toFinset.mpr (mem_of_mem_modified_between hid)
  · rw [List.mem_toFinset]
    exact (mem_inserted_between.mp hid).2

/-- Without differences the names are the same. -/
theorem ids_of_isEmpty (h : (between old new g).isEmpty = true) :
    new.ids.toFinset = old.ids.toFinset := by
  simp only [isEmpty, Bool.and_eq_true, List.isEmpty_iff] at h
  obtain ⟨⟨hdeletions, hinsertions⟩, -⟩ := h
  have hdeleted : (between old new g).deleted = [] := by
    simp only [between, List.map_eq_nil_iff] at hdeletions ⊢
    exact hdeletions
  have hinserted : (between old new g).inserted = [] := by
    simp only [between, List.map_eq_nil_iff] at hinsertions ⊢
    exact hinsertions
  rw [← replay_between old new g, replay, hdeleted, hinserted]
  simp

end ChangeSet

end ObjectStore
