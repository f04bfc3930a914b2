import Mathlib.Data.List.Induction
import ObjectStore.Proofs.Run.Writers
import ObjectStore.View.Binding

/-
  Commits, one after the other.

  The commits of a database form one sequence, whatever the sessions on it do and in
  whatever order. Each takes the snapshot before it, applies the writes of one
  session since it entered its write, and publishes the result as the next
  generation.

    1. `World.edits` is what a session writes along calls, `World.WrittenSince` that a
       batch holds exactly these writes since its session entered.
    2. `World.HeldDuring` are the snapshots that anything holds at some moment of a
       run: an engine, a session, a batch, or a handle that is frozen then.
    3. `World.commits_serialize`: commits do not conflict and lose nothing, and a
       generation stands for one content.
-/

namespace ObjectStore

/-! ## What a batch holds -/

/-- What a call writes in a session. -/
def Call.edits (w : World) (s : SessionId) (c : Call) : List Edit :=
  match c.effect w with
  | .move s' (.write e) => if s' = s then [e] else []
  | _ => []

namespace World

/-- What a session writes along calls. -/
def edits (w : World) (s : SessionId) (cs : List Call) : List Edit :=
  w.along (fun w c => c.edits w s) cs

def batch? (w : World) (s : SessionId) : Option Batch := (w.session? s).bind (·.batch)

/-- The writes of a schema applied to a snapshot, one after the other. -/
def applied (schema : Schema) (base : Snapshot) (es : List Edit) : Batch :=
  es.foldl (Edit.apply schema) (.start base)

/-- At some call the session entered a write. It has been in it since, and its batch
is the snapshot of then with the writes of the session since then. -/
def WrittenSince (cs : List Call) (s : SessionId) (schema : Schema) (base : Snapshot)
    (b : Batch) : Prop :=
  ∃ before enter during, cs = before ++ enter :: during ∧
    enter.effect (empty.run before) = .move s .enter ∧
    (∀ more, more <+: during → ((empty.run (before ++ enter :: more)).batch? s).isSome = true) ∧
    b = applied schema base ((empty.run (before ++ [enter])).edits s during)

theorem edits_steps (schema : Schema) (es : List Edit) (b : Batch) :
    Batch.Steps True b (es.foldl (Edit.apply schema) b) := by
  induction es generalizing b with
  | nil => exact .refl
  | cons e es ih =>
    have hfirst : Batch.Steps True b (e.apply schema b) :=
      (e.apply_steps schema b).mono fun _ => trivial
    exact hfirst.trans (ih (e.apply schema b))

theorem edits_of_ne {w : World} {c : Call} {s : SessionId} (h : ∀ m, c.effect w ≠ .move s m) :
    c.edits w s = [] := by
  unfold Call.edits
  split
  · rename_i s' e he
    have hs : s' ≠ s := by
      rintro rfl
      exact h _ he
    rw [if_neg hs]
  · rfl

/-- A session that holds a batch after a call has just entered a write, or held a
batch already, to which the call has added what it writes in this session. -/
theorem batch_perform {w : World} (c : Call) {s : SessionId} {x' : Session}
    {b' : Batch} (hx' : (c.perform w).session? s = some x') (hb' : x'.batch = some b') :
    (c.effect w = .move s .enter ∧ b' = .start (w.database x'.database).engine.latest) ∨
      ∃ x b, w.session? s = some x ∧ x.batch = some b ∧ x.database = x'.database ∧
        b' = (c.edits w s).foldl (Edit.apply (w.database x'.database).schema) b := by
  rcases session?_perform_cases c hx' with ⟨x, m, hx, he, rfl⟩ | ⟨hx, hne⟩ | ⟨-, t, d, rfl⟩
  · rw [Move.database_session, Call.edits, he]
    cases m with
    | enter => exact .inl ⟨rfl, (Option.some.inj hb').symm⟩
    | write e =>
      obtain ⟨b, hb, rfl⟩ := Option.map_eq_some_iff.mp hb'
      exact .inr ⟨x, b, hx, hb, rfl, by simp only [if_true, List.foldl_cons, List.foldl_nil]⟩
    | publish =>
      obtain ⟨-, b, hb, -⟩ := Call.enabled_of_effect he hx
      simp only [Move.session, hb, moveTo] at hb'
      cases hb'
    | drop => cases hb'
    | close => cases hb'
    | _ => exact .inr ⟨x, b', hx, hb', rfl, rfl⟩
  · rw [edits_of_ne hne]
    exact .inr ⟨x', b', hx, hb', rfl, rfl⟩
  · cases hb'

/-- A batch holds the writes of its session since it entered, applied to the latest
snapshot. -/
theorem writtenSince_run (cs : List Call) {s : SessionId} {x : Session} {b : Batch}
    (hx : (empty.run cs).session? s = some x) (hb : x.batch = some b) :
    WrittenSince cs s ((empty.run cs).database x.database).schema
      ((empty.run cs).database x.database).engine.latest b := by
  induction cs using List.reverseRecOn generalizing x b with
  | nil => cases hx
  | append_singleton cs c ih =>
    have hw := orderly_run cs
    have hw' := orderly_run (cs ++ [c])
    have hlatest := ((hw'.fits s x hx).held b hb).2.2.base_start
    rw [← hlatest]
    rw [run_snoc] at hx ⊢
    -- the last call is the one that entered, or the session was in its write before it
    rcases batch_perform c hx hb with ⟨he, rfl⟩ | ⟨y, a, hy, ha, hd, rfl⟩
    · refine ⟨cs, c, [], rfl, he, fun more hmore => ?_, rfl⟩
      rw [List.prefix_nil.mp hmore, run_snoc, batch?, hx]
      simp only [Option.bind_some, hb, Option.isSome_some]
    · have hplaced := hw.placed s y hy
      obtain ⟨before, enter, during, hcs, henter, hall, ha'⟩ := ih hy ha
      have hbase := ((hw.fits s y hy).held a ha).2.2.base_start
      rw [(edits_steps _ _ a).base_eq, hbase, ← hd, schema_perform c hplaced]
      refine ⟨before, enter, during ++ [c], by rw [hcs, List.append_assoc]; rfl, henter, ?_, ?_⟩
      · intro more hmore
        rcases List.prefix_concat_iff.mp hmore with rfl | hmore
        · rw [← List.cons_append, ← List.append_assoc, ← hcs, run_snoc, batch?, hx]
          simp only [Option.bind_some, hb, Option.isSome_some]
        · exact hall more hmore
      · have hrun : (empty.run (before ++ [enter])).run during = empty.run cs := by
          rw [hcs, ← run_append, List.append_assoc]
          rfl
        rw [edits, along_snoc, hrun, applied, List.foldl_append, ← applied, ← edits, ← ha']

/-! ## The answer of a commit -/

theorem commit_of_batch {w : World} (h : w.Orderly) {s : SessionId} {x : Session} {b : Batch}
    (hx : w.session? s = some x) (hc : x.closed = false) (hb : x.batch = some b) :
    (w.commit x.owner s).1 = .ok ((w.database x.database).engine.latest.generation + 1) ∧
      ((w.commit x.owner s).2.database x.database).engine.latest = b.published := by
  have hbase := ((h.fits s x hx).held b hb).2.2.base_start
  have hgate : w.gate x.owner s = .ok x := gate_eq_ok.mpr ⟨hx, rfl, hc⟩
  have heffect : w.publishing x.owner s = .move s .publish := by
    rw [publishing, asked_ok hgate]
    simp only [hb, hbase, if_true]
  constructor
  · simp only [commit, hgate, hb, Engine.commit, hbase, if_true, Batch.published, Batch.pending]
  · rw [commit_eq_publishing, heffect, after, engine_move_self hx (h.placed s x hx)]
    simp only [Move.engine, hb]

theorem commit_ne_conflict {w : World} (h : w.Orderly) (t : Thread) (s : SessionId)
    (g g' : Generation) : (w.commit t s).1 ≠ .error (.transactionConflict g g') := by
  cases hg : w.gate t s with
  | error e =>
    intro he
    simp only [commit, hg, Except.error.injEq] at he
    subst he
    revert hg
    unfold gate
    cases w.session? s with
    | none => exact fun he => by cases he
    | some x =>
      simp only
      split
      · exact fun he => by cases he
      · split <;> exact fun he => by cases he
  | ok x =>
    obtain ⟨hx, rfl, hc⟩ := gate_eq_ok.mp hg
    cases hb : x.batch with
    | none =>
      simp only [commit, hg, hb, ne_eq, Except.error.injEq]
      exact fun he => by cases he
    | some b =>
      rw [(commit_of_batch h hx hc hb).1]
      exact fun he => by cases he

/-! ## Snapshots that are held -/

/-- The snapshots of a database that anything in a world holds: its engine, a session
on it, the batch of one, or a handle of one that is frozen now. -/
inductive Holds (w : World) (d : DatabaseId) : Snapshot → Prop
  | engine : Holds w d (w.database d).engine.latest
  | session (s : SessionId) (x : Session) (hx : w.session? s = some x) (hd : x.database = d) :
    Holds w d x.snapshot
  | batch (s : SessionId) (x : Session) (b : Batch) (hx : w.session? s = some x)
    (hd : x.database = d) (hb : x.batch = some b) : Holds w d b.base
  | frozen (t : Thread) (s : SessionId) (x : Session) (snapshot : Snapshot)
    (hx : w.session? s = some x) (hd : x.database = d)
    (hf : (Binding.live s).freeze w t = .ok (.frozen snapshot)) : Holds w d snapshot

/-- The snapshots of a database that anything holds at some moment of a run. A frozen
handle holds for ever what it held when it was frozen. -/
def HeldDuring (cs : List Call) (d : DatabaseId) (snapshot : Snapshot) : Prop :=
  ∃ before, before <+: cs ∧ (empty.run before).Holds d snapshot

theorem snapshot_perform {w : World} (h : w.Orderly) (c : Call) {s : SessionId} {x' : Session}
    (hx' : (c.perform w).session? s = some x') :
    (∃ x, w.session? s = some x ∧ x.database = x'.database ∧ x.snapshot = x'.snapshot) ∨
      x'.snapshot = (w.database x'.database).engine.latest ∨
      x'.snapshot = ((c.perform w).database x'.database).engine.latest := by
  rcases session?_perform_cases c hx' with ⟨x, m, hx, he, rfl⟩ | ⟨hx, -⟩ | ⟨-, t, d, rfl⟩
  · rw [Call.perform_eq, he, after, Move.database_session, engine_move_self hx (h.placed s x hx)]
    cases m with
    | enter => exact .inr (.inl rfl)
    | forward => exact .inr (.inl rfl)
    | publish =>
      obtain ⟨-, b, hb, -⟩ := Call.enabled_of_effect he hx
      refine .inr (.inr ?_)
      simp only [Move.session, Move.engine, hb, moveTo]
    | _ => exact .inl ⟨x, hx, rfl, rfl⟩
  · exact .inl ⟨x', hx, rfl, rfl⟩
  · exact .inr (.inl rfl)

theorem snapshot_was_latest (cs : List Call) {s : SessionId} {x : Session}
    (hx : (empty.run cs).session? s = some x) :
    ∃ before, before <+: cs ∧
      ((empty.run before).database x.database).engine.latest = x.snapshot := by
  induction cs using List.reverseRecOn generalizing x with
  | nil => cases hx
  | append_singleton cs c ih =>
    rw [run_snoc] at hx
    rcases snapshot_perform (orderly_run cs) c hx with ⟨y, hy, hd, hsnap⟩ | hl | hl
    · obtain ⟨before, hpre, hlatest⟩ := ih hy
      exact ⟨before, hpre.trans (List.prefix_append cs [c]), by rw [← hd, ← hsnap, hlatest]⟩
    · exact ⟨cs, List.prefix_append cs [c], hl.symm⟩
    · exact ⟨cs ++ [c], List.prefix_rfl, by rw [run_snoc, hl]⟩

theorem HeldDuring.was_latest {cs : List Call} {d : DatabaseId} {snapshot : Snapshot}
    (h : HeldDuring cs d snapshot) :
    ∃ before, before <+: cs ∧ ((empty.run before).database d).engine.latest = snapshot := by
  obtain ⟨now, hnow, hheld⟩ := h
  have hwas {s : SessionId} {x : Session} (hx : (empty.run now).session? s = some x)
      (hd : x.database = d) :
      ∃ before, before <+: cs ∧ ((empty.run before).database d).engine.latest = x.snapshot := by
    subst hd
    obtain ⟨before, hpre, hlatest⟩ := snapshot_was_latest now hx
    exact ⟨before, hpre.trans hnow, hlatest⟩
  cases hheld with
  | engine => exact ⟨now, hnow, rfl⟩
  | session s x hx hd => exact hwas hx hd
  | batch s x b hx hd hb =>
    have hheld := ((orderly_run now).fits s x hx).held b hb
    rw [hheld.2.2.base_start, ← hheld.2.1]
    exact hwas hx hd
  | frozen t s x snapshot hx hd hf =>
    simp only [Binding.freeze, committed] at hf
    cases hg : (empty.run now).gate t s with
    | error e =>
      rw [hg] at hf
      cases hf
    | ok y =>
      obtain rfl := Option.some.inj (hx.symm.trans (gate_eq_ok.mp hg).1)
      rw [hg] at hf
      simp only at hf
      split at hf
      · cases hf
      · cases hf
        exact hwas hx hd

theorem HeldDuring.eq_of_generation {cs : List Call} {d : DatabaseId} {s s' : Snapshot}
    (h : HeldDuring cs d s) (h' : HeldDuring cs d s') (hg : s.generation = s'.generation) :
    s = s' := by
  obtain ⟨before, hpre, rfl⟩ := h.was_latest
  obtain ⟨before', hpre', rfl⟩ := h'.was_latest
  -- each was the latest one once, and of these moments one came first
  rcases List.prefix_or_prefix_of_prefix hpre hpre' with ⟨more, rfl⟩ | ⟨more, rfl⟩
  · rw [run_append] at hg ⊢
    exact (latest_run (orderly_run before) more d).eq_of_generation hg
  · rw [run_append] at hg ⊢
    exact ((latest_run (orderly_run before') more d).eq_of_generation hg.symm).symm

theorem snapshot_of_refresh_false {w : World} (h : w.Orderly) {t : Thread} {s : SessionId}
    {x : Session} (hx : w.session? s = some x) (hb : x.batch = none)
    (hr : (w.refresh t s).1 = .ok false) :
    x.snapshot = (w.database x.database).engine.latest := by
  unfold refresh at hr
  cases hg : w.gate t s with
  | error e =>
    rw [hg] at hr
    cases hr
  | ok y =>
    obtain rfl := Option.some.inj (hx.symm.trans (gate_eq_ok.mp hg).1)
    rw [hg] at hr
    simp only [hb, Option.isSome_none, Bool.false_eq_true, if_false] at hr
    split at hr
    · rename_i hgen
      exact (h.fits s x hx).precedes.eq_of_generation hgen.symm
    · cases hr

/-! ## The sequence of commits -/

/--
Commits follow one another. Whatever calls are made, from whatever threads and in
whatever order:

1. A batch starts from the latest snapshot of its database, and holds exactly what its
   session has written since it entered the write.
2. The commit of an open session that holds a batch succeeds, alone or at the end of a
   write around an operation, and publishes this batch.
3. No commit is refused because of another one.
4. Any next call leaves the latest snapshot as it is, or makes it the batch of one
   session under the generation after it.
5. Snapshots of one database and one generation that are held at any moments, be it by
   the engine, a session, a batch or a frozen handle, are the same.
6. So a session at the latest generation is at the latest snapshot, and a refresh that
   reports nothing new has skipped nothing.
-/
theorem commits_serialize (cs : List Call) :
    let w := empty.run cs
    (∀ s x b, w.session? s = some x → x.batch = some b →
      b.base = (w.database x.database).engine.latest ∧
      WrittenSince cs s (w.database x.database).schema (w.database x.database).engine.latest b) ∧
    (∀ s x b, w.session? s = some x → x.closed = false → x.batch = some b →
      (w.commit x.owner s).1 = .ok ((w.database x.database).engine.latest.generation + 1) ∧
      (∀ a : Value, (w.leave x.owner s (.ok a)).1 = .ok a) ∧
      ((w.commit x.owner s).2.database x.database).engine.latest = b.published) ∧
    (∀ t s g g', (w.commit t s).1 ≠ .error (.transactionConflict g g')) ∧
    (∀ (c : Call) d,
      ((c.perform w).database d).engine.latest = (w.database d).engine.latest ∨
      ∃ s x b, w.session? s = some x ∧ x.database = d ∧ x.batch = some b ∧
        ((c.perform w).database d).engine.latest = b.published ∧
        b.published.generation = (w.database d).engine.latest.generation + 1) ∧
    (∀ d snapshot snapshot', HeldDuring cs d snapshot → HeldDuring cs d snapshot' →
      snapshot.generation = snapshot'.generation → snapshot = snapshot') ∧
    (∀ s x, w.session? s = some x →
      (x.snapshot.generation = (w.database x.database).engine.latest.generation →
        x.snapshot = (w.database x.database).engine.latest) ∧
      (∀ t, x.batch = none → (w.refresh t s).1 = .ok false →
        x.snapshot = (w.database x.database).engine.latest)) := by
  have hw := orderly_run cs
  refine ⟨fun s x b hx hb => ?_, fun s x b hx hc hb => ?_, commit_ne_conflict hw, fun c d => ?_,
    fun d snapshot snapshot' => HeldDuring.eq_of_generation, fun s x hx => ⟨?_, fun t => ?_⟩⟩
  · exact ⟨((hw.fits s x hx).held b hb).2.2.base_start, writtenSince_run cs hx hb⟩
  · obtain ⟨hanswer, hlatest⟩ := commit_of_batch hw hx hc hb
    refine ⟨hanswer, fun a => ?_, hlatest⟩
    simp only [leave, hanswer, Except.map]
  · rcases latest_perform hw c d with hl | ⟨s, x, b, -, hx, rfl, hb, hl⟩
    · exact .inl hl
    · refine .inr ⟨s, x, b, hx, rfl, hb, hl, ?_⟩
      rw [← ((hw.fits s x hx).held b hb).2.2.base_start]
      rfl
  · exact (hw.fits s x hx).precedes.eq_of_generation
  · exact snapshot_of_refresh_false hw hx

/-- A writer that waits for the lock starts from what the one before it committed. -/
example :
    (((empty.run
      [.openDatabase ⟨[⟨"Dog", []⟩]⟩ false, .openSession 0 ⟨0⟩, .openSession 1 ⟨0⟩,
        .begin 0 ⟨0⟩, .begin 1 ⟨1⟩, .create 0 ⟨0⟩ "Dog" [], .commit 0 ⟨0⟩, .grant ⟨1⟩,
        .create 1 ⟨1⟩ "Dog" [], .commit 1 ⟨1⟩]).database ⟨0⟩).engine.latest.entities.map
      fun e => (e.key.val, e.revision)) = [(1, 1), (2, 2)] := by
  rfl

end World

end ObjectStore
