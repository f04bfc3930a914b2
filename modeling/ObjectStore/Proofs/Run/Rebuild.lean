import ObjectStore.Proofs.Change.Rebuild
import ObjectStore.Proofs.Run.History
import ObjectStore.Proofs.Run.Observers
import ObjectStore.Proofs.View.Rows

/-
  Views rebuilt from what observers are told.

  A change set does not tell that rows have changed places. Without a sort key there is
  nothing to tell: rows stand in the order of their source, and no write ever changes the
  order of objects or elements that stay. So whoever keeps the rows of such a view can
  follow it by its change sets alone.

    1. `World.HeldDuring.rebuilds`: the differences of such a view between any two
       snapshots, however many commits lie between them.
    2. `World.views_rebuilt`: these, and what is queued when a session moves.
-/

namespace ObjectStore

namespace World

variable {cs : List Call} {d : DatabaseId} {s s' : Snapshot}

/-- The differences of a view without a sort key rebuild its rows. -/
theorem HeldDuring.rebuilds (hs : HeldDuring cs d s) (hs' : HeldDuring cs d s')
    (hg : s.generation ≤ s'.generation) {r : Recipe} (hr : r.sort = none) (g : Generation) :
    (ChangeSet.between (Trace.ofRows (r.rowsOrNone s)) (Trace.ofRows (r.rowsOrNone s')) g).Rebuilds
      (Trace.ofRows (r.rowsOrNone s)).ids (Trace.ofRows (r.rowsOrNone s')).ids := by
  have hids (m : Snapshot) :
      (Trace.ofRows (r.rowsOrNone m)).ids = (r.rowsOrNone m).map (·.id) := List.map_map
  refine ChangeSet.rebuilds_between ?_
  rw [hids, hids]
  exact ChangeSet.common_of_sublist (Recipe.ids_sublist hr s) (Recipe.ids_sublist hr s')
    (Recipe.nodup_allIds hs.numbered r.source)
    (Recipe.source_order hs.numbered hs'.numbered (hs.develops hs' hg) r.source)

theorem told_of_advance {c : Call} {t : SessionId} {x x' : Session} {sub : Subscription}
    (hx : (empty.run cs).session? t = some x)
    (hx' : (c.perform (empty.run cs)).session? t = some x')
    (hsub : sub ∈ x.feed.subscriptions) (hlt : x.snapshot.generation < x'.snapshot.generation) :
    (c.queued (empty.run cs) t).filterMap (Notice.update? sub.id) =
      (Feed.update x'.snapshot sub).toList := by
  obtain ⟨y, hy, hears⟩ := Call.hears_perform (orderly_run cs) hx c
  obtain rfl := Option.some.inj (hx'.symm.trans hy)
  have hstays (hsnap : x'.snapshot = x.snapshot) : False := by
    rw [hsnap] at hlt
    exact Nat.lt_irrefl _ hlt
  cases hears with
  | stays keep hsnap hsubs hq hn => exact (hstays hsnap).elim
  | registers r he hsnap hf => exact (hstays hsnap).elim
  | advances hg hf =>
    rw [Call.queued_of_session hx hx', hf]
    simp only [Feed.advance, List.drop_left]
    exact Feed.updates_of_notices (heard_run cs t x hx).distinct hsub x'.snapshot

/--
Views without a sort key are rebuilt from their change sets, whatever calls are made:

1. Between any two snapshots of a database that anything holds at some moments, the
   differences of the view lead from its older rows to its newer ones, order included.
   `ChangeSet.Rebuilds` says what this means.
2. When a call moves a session to a later snapshot, what it queues for an observer of the
   view is one such change set, or nothing if the rows are the same ones.
-/
theorem views_rebuilt (cs : List Call) :
    (∀ d s s' (r : Recipe), HeldDuring cs d s → HeldDuring cs d s' → s.generation ≤ s'.generation →
      r.sort = none →
        let old := Trace.ofRows (r.rowsOrNone s)
        let new := Trace.ofRows (r.rowsOrNone s')
        (ChangeSet.between old new s'.generation).Rebuilds old.ids new.ids) ∧
    ∀ (c : Call) t x x' sub, (empty.run cs).session? t = some x →
      (c.perform (empty.run cs)).session? t = some x' → sub ∈ x.feed.subscriptions →
      x.snapshot.generation < x'.snapshot.generation → sub.recipe.sort = none →
        let old := (Trace.ofRows (sub.recipe.rowsOrNone x.snapshot)).ids
        let new := (Trace.ofRows (sub.recipe.rowsOrNone x'.snapshot)).ids
        let told := (c.queued (empty.run cs) t).filterMap (Notice.update? sub.id)
        (told = [] ∧ new = old) ∨ ∃ changes, told = [changes] ∧ changes.Rebuilds old new := by
  refine ⟨fun d s s' r hs hs' hg hr => hs.rebuilds hs' hg hr _, ?_⟩
  intro c t x x' sub hx hx' hsub hlt hr old new told
  have hcurrent := (heard_run cs t x hx).current sub hsub
  -- both snapshots are held in the run with this call
  have hheld : HeldDuring (cs ++ [c]) x'.database x'.snapshot :=
    ⟨cs ++ [c], List.prefix_rfl, .session t x' (by rwa [run_snoc]) rfl⟩
  obtain ⟨y, hy, hdatabase⟩ := session?_perform c hx
  obtain rfl := Option.some.inj (hx'.symm.trans hy)
  have hheld₀ : HeldDuring (cs ++ [c]) x'.database x.snapshot :=
    ⟨cs, List.prefix_append cs [c], .session t x hx hdatabase.symm⟩
  have hrebuilds := hheld₀.rebuilds hheld (Nat.le_of_lt hlt) hr x'.snapshot.generation
  have htold : told = (Feed.update x'.snapshot sub).toList := told_of_advance hx hx' hsub hlt
  rw [Feed.update, hcurrent] at htold
  cases hempty : (ChangeSet.between (Trace.ofRows (sub.recipe.rowsOrNone x.snapshot))
      (Feed.traceIn x'.snapshot sub) x'.snapshot.generation).isEmpty with
  | true =>
    simp only [hempty, if_true, Option.toList_none] at htold
    exact .inl ⟨htold, hrebuilds.eq_of_isEmpty hempty⟩
  | false =>
    simp only [hempty, Bool.false_eq_true, if_false, Option.toList_some] at htold
    exact .inr ⟨_, htold, hrebuilds⟩

/-! ## A view of three notes -/

def notes : Schema := ⟨[⟨"Note", []⟩]⟩

def makingNotes : List Call :=
  [.openDatabase notes false, .openSession 0 ⟨0⟩, .begin 0 ⟨0⟩, .create 0 ⟨0⟩ "Note" [],
    .create 0 ⟨0⟩ "Note" [], .commit 0 ⟨0⟩]

/-- The first note is deleted, and another one made, in two writes. -/
def changingNotes : List Call :=
  [.begin 0 ⟨0⟩, .delete 0 ⟨0⟩ ⟨1⟩, .commit 0 ⟨0⟩, .begin 0 ⟨0⟩, .create 0 ⟨0⟩ "Note" [],
    .commit 0 ⟨0⟩]

/-- One change set leads over both writes. -/
theorem notes_rebuilt :
    let trace (cs : List Call) : Trace :=
      .ofRows ((Recipe.ofSource (.objects "Note")).rowsOrNone (latestAfter cs))
    (ChangeSet.between (trace makingNotes) (trace (makingNotes ++ changingNotes)) 3).Rebuilds
      [.object ⟨1⟩, .object ⟨2⟩] [.object ⟨2⟩, .object ⟨3⟩] := by
  have hnotes : HeldDuring (makingNotes ++ changingNotes) ⟨0⟩ (latestAfter makingNotes) :=
    heldDuring_latestAfter (List.prefix_append _ _)
  have hchanged : HeldDuring (makingNotes ++ changingNotes) ⟨0⟩
      (latestAfter (makingNotes ++ changingNotes)) := heldDuring_latestAfter List.prefix_rfl
  exact (views_rebuilt (makingNotes ++ changingNotes)).1 ⟨0⟩ _ _ (.ofSource (.objects "Note"))
    hnotes hchanged (by decide) rfl

end World

end ObjectStore
