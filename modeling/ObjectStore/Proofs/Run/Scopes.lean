import ObjectStore.Proofs.Run.Commits
import ObjectStore.Proofs.Run.Handles
import ObjectStore.Proofs.Run.Reads

/-
  A write around an operation happens as a whole or not at all.

  The operation may do anything with its session and the handles of it but commit: it may
  cancel the write and start another one, refresh, close the session, and go on after calls
  that were refused. Whatever it does, the latest snapshot stays what it was when the write
  began, the session stays at it, and the session holds the lock just as long as it holds a
  batch (`Session.Scoped`). So the end of the write finds one of three states, a closed
  session, one outside a write and one with a batch, and leaves the lock free in each.

    1. `Call.Inside` are the calls that the operation may make, and `Call.Inside.effect` is
       what they come down to.
    2. `Session.Scoped` is kept by each of them (`World.scoped_perform`) and by all of them
       together with reads of a view (`Reader.scoped_run`).
    3. `World.ended_leave`: what the end of the write leaves.
    4. `Reader.write_is_whole`: a write that fails has done nothing, also as far as views
       can tell that were made or read in it, and one that succeeds has published what the
       session saw last.
-/

namespace ObjectStore

/-! ## Calls inside a write -/

/-- A call with a session or a handle of it that does not commit. -/
def Call.Inside (s : SessionId) : Call → Prop
  | .begin _ s' => s' = s
  | .cancel _ s' => s' = s
  | .refresh _ s' => s' = s
  | .resolve _ s' _ => s' = s
  | .close s' => s' = s
  | .create _ s' _ _ => s' = s
  | .delete _ s' _ => s' = s
  | .setValue _ s' _ _ _ => s' = s
  | .elements _ (.bound (.live s') _) _ => s' = s
  | .elements _ _ _ => True
  | .assign _ s' _ _ _ => s' = s
  | .observe _ v => ∀ s', v.binding = .live s' → s' = s
  | .cancelObserver s' _ => s' = s
  | .startDelivery _ s' => s' = s
  | .nextNotice s' => s' = s
  | .finishDelivery s' => s' = s
  | _ => False

/-- Nothing, or a move of a session that neither enters a write nor publishes one. -/
inductive Effect.Minor (s : SessionId) : Effect → Prop
  | none : Minor s .none
  | move (m : Move) (henter : m ≠ .enter) (hpublish : m ≠ .publish) : Minor s (.move s m)

namespace World

variable {w : World} {t : Thread} {s : SessionId}

theorem minor_asked {f : Session → Effect} (h : ∀ x, (f x).Minor s) : (w.asked t s f).Minor s := by
  unfold asked
  split
  · exact h _
  · exact .none

theorem minor_forwarding : (w.forwarding t s).Minor s := by
  refine minor_asked fun x => ?_
  split
  · exact .none
  · split
    · exact .none
    · exact .move _ nofun nofun

theorem minor_writing (e : Edit) : (w.writing t s e).Minor s := by
  refine minor_asked fun x => ?_
  split
  · exact .move _ nofun nofun
  · exact .none

theorem begin_effect (w : World) (t : Thread) (s : SessionId) :
    (Call.effect w (.begin t s)).Minor s ∨ Call.effect w (.begin t s) = .move s .enter ∧
      ∀ x, w.session? s = some x → x.closed = false := by
  simp only [Call.effect, checkBegin]
  cases hg : w.gate t s with
  | error e => exact .inl .none
  | ok x =>
    obtain ⟨hx, -, hopen⟩ := gate_eq_ok.mp hg
    cases hb : x.batch.isSome with
    | true =>
      simp only [hb, if_true]
      exact .inl .none
    | false =>
      simp only [hb, Bool.false_eq_true, if_false, entering, hx]
      split
      · exact .inl .none
      · refine .inr ⟨rfl, fun y hy => ?_⟩
        cases hy
        exact hopen

end World

/-- A call inside a write moves no other session and does not publish. -/
theorem Call.Inside.effect {c : Call} {s : SessionId} (h : c.Inside s) (w : World) :
    (c.effect w).Minor s ∨
      c.effect w = .move s .enter ∧ ∀ x, w.session? s = some x → x.closed = false := by
  cases c with
  | begin t s' =>
    obtain rfl := h
    exact w.begin_effect t s'
  | cancel t s' =>
    obtain rfl := h
    exact .inl (World.minor_asked fun x => .move _ (by simp) (by simp))
  | refresh t s' =>
    obtain rfl := h
    exact .inl World.minor_forwarding
  | resolve t s' token =>
    obtain rfl := h
    refine .inl ?_
    simp only [Call.effect]
    split
    · split
      · exact World.minor_forwarding
      · exact .none
    · exact .none
  | close s' =>
    obtain rfl := h
    refine .inl ?_
    simp only [Call.effect]
    split
    · split
      · exact .none
      · exact .move _ (by simp) (by simp)
    · exact .none
  | create t s' className fields =>
    obtain rfl := h
    refine .inl ?_
    simp only [Call.effect]
    split
    · split
      · exact World.minor_writing _
      · exact .none
    · exact .none
  | delete t s' key =>
    obtain rfl := h
    exact .inl (World.minor_writing _)
  | setValue t s' key property v =>
    obtain rfl := h
    exact .inl (World.minor_writing _)
  | elements t handle e =>
    cases handle with
    | unattached kind vs => exact .inl .none
    | bound binding c =>
      cases binding with
      | frozen snapshot => exact .inl .none
      | live s' =>
        obtain rfl : s' = s := h
        exact .inl (World.minor_writing _)
  | assign t s' key property values =>
    obtain rfl := h
    refine .inl ?_
    simp only [Call.effect]
    split
    · rename_i vs handle c _ hc
      obtain ⟨kind, -, hc⟩ := ok_of_bind hc
      split at hc
      · cases hc
      · cases hc
        exact World.minor_writing _
    · exact .none
  | observe t v =>
    refine .inl ?_
    simp only [Call.effect]
    split
    · rename_i s' rows hbinding _
      obtain rfl := h s' hbinding
      exact World.minor_asked fun x => .move _ (by simp) (by simp)
    · exact .none
  | cancelObserver s' o =>
    obtain rfl := h
    exact .inl (.move _ (by simp) (by simp))
  | startDelivery t s' =>
    obtain rfl := h
    refine .inl (World.minor_asked fun x => ?_)
    split
    · exact .none
    · exact .move _ (by simp) (by simp)
  | nextNotice s' =>
    obtain rfl := h
    exact .inl (.move _ (by simp) (by simp))
  | finishDelivery s' =>
    obtain rfl := h
    exact .inl (.move _ (by simp) (by simp))
  | _ => cases h

/-! ## What they keep -/

/-- From the start of a write on its session is at the snapshot that was the latest one
then and still is, and it holds the lock just as long as it holds a batch. -/
structure Session.Scoped (x : Session) (e : Engine) (latest : Snapshot) : Prop where
  latest_eq : e.latest = latest
  snapshot_eq : x.snapshot = latest
  busy_eq : e.busy = x.batch.isSome
  batch_eq : x.closed = true → x.batch = none

theorem Move.owner_session {schema : Schema} {latest : Snapshot} (m : Move) (x : Session) :
    (m.session schema latest x).owner = x.owner := by
  cases m with
  | publish =>
    simp only [session]
    split <;> rfl
  | _ => rfl

theorem Session.Scoped.released {x : Session} {e : Engine} {latest : Snapshot}
    (h : x.Scoped e latest) : (if x.batch.isSome then e.abandon else e) = ⟨latest, false⟩ := by
  rw [← h.latest_eq]
  cases hb : x.batch with
  | some b => rfl
  | none =>
    have hbusy := h.busy_eq
    rw [hb] at hbusy
    simp only [Option.isSome_none, Bool.false_eq_true, if_false]
    rw [← show e.busy = false from hbusy]

theorem Move.scoped {x : Session} {e : Engine} {latest : Snapshot} {schema : Schema} {m : Move}
    (h : x.Scoped e latest) (hpublish : m ≠ .publish) (henter : m = .enter → x.closed = false) :
    (m.session schema e.latest x).Scoped (m.engine x e) latest := by
  cases m with
  | enter =>
    refine ⟨h.latest_eq, h.latest_eq, rfl, fun hc => ?_⟩
    rw [session, henter rfl] at hc
    cases hc
  | write ed =>
    refine ⟨h.latest_eq, h.snapshot_eq, ?_, fun hc => ?_⟩
    · simp only [session, engine, Option.isSome_map]
      exact h.busy_eq
    · simp only [session, h.batch_eq hc, Option.map_none]
  | publish => exact absurd rfl hpublish
  | drop =>
    simp only [session, engine, h.released]
    exact ⟨rfl, h.snapshot_eq, rfl, fun _ => rfl⟩
  | close =>
    simp only [session, engine, h.released]
    exact ⟨rfl, h.snapshot_eq, rfl, fun _ => rfl⟩
  | forward => exact ⟨h.latest_eq, h.latest_eq, h.busy_eq, h.batch_eq⟩
  | _ => exact ⟨h.latest_eq, h.snapshot_eq, h.busy_eq, h.batch_eq⟩

namespace World

variable {w : World} {s : SessionId} {x : Session} {latest : Snapshot}

/-- A session of a database and an owner that is scoped. -/
def HasScoped (w : World) (s : SessionId) (d : DatabaseId) (t : Thread) (latest : Snapshot) :
    Prop :=
  ∃ x, w.session? s = some x ∧ x.database = d ∧ x.owner = t ∧
    x.Scoped (w.database d).engine latest

variable {d : DatabaseId} {t : Thread}

theorem HasScoped.move (hw : w.Orderly) (h : w.HasScoped s d t latest) {m : Move}
    (hpublish : m ≠ .publish)
    (henter : m = .enter → ∀ x, w.session? s = some x → x.closed = false) :
    (w.move s m).HasScoped s d t latest := by
  obtain ⟨x, hx, rfl, rfl, hscoped⟩ := h
  refine ⟨_, session?_move_self hx, Move.database_session m x, Move.owner_session m x, ?_⟩
  rw [engine_move_self hx (hw.placed s x hx)]
  exact Move.scoped hscoped hpublish fun hm => henter hm x hx

theorem HasScoped.after (hw : w.Orderly) (h : w.HasScoped s d t latest) {e : Effect}
    (he : e.Minor s) : (w.after e).HasScoped s d t latest := by
  cases he with
  | none => exact h
  | move m henter hpublish => exact h.move hw hpublish fun hm => absurd hm henter

/-- A call inside a write keeps its session scoped. -/
theorem scoped_perform (hw : w.Orderly) (h : w.HasScoped s d t latest) {c : Call}
    (hc : c.Inside s) : (c.perform w).HasScoped s d t latest := by
  rw [Call.perform_eq]
  rcases hc.effect w with hminor | ⟨henter, hopen⟩
  · exact h.after hw hminor
  · rw [henter]
    exact h.move hw nofun fun _ => hopen

end World

/-- A step of a run in which a view is used that may be made inside a write. -/
def Use.Inside (s : SessionId) : Use → Prop
  | .call c => c.Inside s
  | _ => True

namespace Reader

variable {r : Reader} {s : SessionId} {recipe : Recipe} {d : DatabaseId} {t : Thread}
  {latest : Snapshot}

theorem orderly_perform (h : r.world.Orderly) (u : Use) : (r.perform u).world.Orderly := by
  cases u with
  | call c => exact World.orderly_perform h c
  | read t read => exact h
  | observe t =>
    rw [(observe_cases r t).2]
    exact World.orderly_perform h _

theorem orderly_run (h : r.world.Orderly) (us : List Use) : (r.run us).world.Orderly := by
  induction us generalizing r with
  | nil => exact h
  | cons u us ih => exact ih (orderly_perform h u)

/-- Whatever is done inside a write, its session stays scoped. -/
theorem scoped_run (hs : r.Sound s recipe) (hw : r.world.Orderly)
    (h : r.world.HasScoped s d t latest) {us : List Use} (hus : ∀ u ∈ us, u.Inside s) :
    (r.run us).world.HasScoped s d t latest := by
  induction us generalizing r with
  | nil => exact h
  | cons u us ih =>
    refine ih (sound_perform hs u) (orderly_perform hw u) ?_
      fun u' hu' => hus u' (List.mem_cons_of_mem _ hu')
    have hu := hus u List.mem_cons_self
    cases u with
    | call c => exact World.scoped_perform hw h hu
    | read t read => exact h
    | observe t =>
      rw [(observe_cases r t).2]
      refine World.scoped_perform hw h fun s' hs' => ?_
      exact Binding.live.inj (hs'.symm.trans hs.binding_eq)

end Reader

/-! ## The end of a write -/

namespace World

variable {α : Type} {w : World} {s : SessionId} {d : DatabaseId} {t : Thread}

/-- Outside a write and at the latest snapshot, with a free lock. -/
structure Ended (w : World) (s : SessionId) (d : DatabaseId) (t : Thread) : Prop where
  free : (w.database d).engine.busy = false
  outside : w.isInWrite s = false
  sees : ∀ x, w.session? s = some x → x.database = d ∧ x.owner = t ∧
    x.view = (w.database d).engine.latest

theorem ended_of_scoped {latest : Snapshot} (h : w.HasScoped s d t latest)
    (hb : w.batch? s = none) : w.Ended s d t := by
  obtain ⟨x, hx, hd, ht, hscoped⟩ := h
  rw [batch?, hx, Option.bind_some] at hb
  refine ⟨?_, ?_, fun y hy => ?_⟩
  · rw [hscoped.busy_eq, hb]
    rfl
  · simp only [isInWrite, hx, hb, Option.isSome_none, Bool.and_false]
  · obtain rfl := Option.some.inj (hx.symm.trans hy)
    refine ⟨hd, ht, ?_⟩
    rw [Session.view_of_none hb, hscoped.snapshot_eq, hscoped.latest_eq]

theorem HasScoped.dropped {latest : Snapshot} (hw : w.Orderly) (h : w.HasScoped s d t latest)
    {e : Effect} (he : e = .none ∧ w.batch? s = none ∨ e = .move s .drop) :
    (w.after e).Ended s d t ∧ ((w.after e).database d).engine.latest = latest := by
  have hafter : (w.after e).HasScoped s d t latest ∧ (w.after e).batch? s = none := by
    rcases he with ⟨rfl, hb⟩ | rfl
    · exact ⟨h, hb⟩
    · refine ⟨h.after hw (.move .drop nofun nofun), ?_⟩
      obtain ⟨x, hx, -⟩ := h
      rw [World.after, batch?, session?_move_self hx]
      rfl
  refine ⟨ended_of_scoped hafter.1 hafter.2, ?_⟩
  obtain ⟨x, -, -, -, hscoped⟩ := hafter.1
  exact hscoped.latest_eq

theorem leave_failed {latest : Snapshot} (hw : w.Orderly) (h : w.HasScoped s d t latest)
    {outcome : Except Error α} (ho : (∃ e, outcome = .error e) ∨ w.batch? s = none) :
    (∃ e, (w.leave t s outcome).1 = .error e) ∧ (w.leave t s outcome).2.Ended s d t ∧
      ((w.leave t s outcome).2.database d).engine.latest = latest := by
  rw [leave_eq_effect]
  obtain ⟨x, hx, rfl, rfl, hscoped⟩ := id h
  have hbatch : w.batch? s = x.batch := by rw [batch?, hx, Option.bind_some]
  have hclosed : w.isClosed s = x.closed := by
    cases hc : x.closed <;> simp [isClosed, peek, hx, hc]
  cases outcome with
  | error e =>
    constructor
    · rw [leave, hclosed]
      cases x.closed with
      | true => exact ⟨e, rfl⟩
      | false =>
        rcases w.cancel x.owner s with ⟨done, w'⟩
        cases done <;> exact ⟨_, rfl⟩
    · refine h.dropped hw ?_
      simp only [Except.map, Call.effect, hclosed]
      cases hc : x.closed with
      | true => exact .inl ⟨rfl, hbatch.trans (hscoped.batch_eq hc)⟩
      | false =>
        simp only [Bool.false_eq_true, if_false]
        exact .inr (asked_ok (gate_eq_ok.mpr ⟨hx, rfl, hc⟩))
  | ok a =>
    have hnone : x.batch = none := by
      rcases ho with ⟨e, he⟩ | hb
      · cases he
      · exact hbatch.symm.trans hb
    simp only [leave, commit, Except.map, Call.effect, publishing]
    cases hg : w.gate x.owner s with
    | error e =>
      rw [asked_error hg]
      exact ⟨⟨e, rfl⟩, h.dropped hw (.inl ⟨rfl, hbatch.trans hnone⟩)⟩
    | ok y =>
      obtain rfl := Option.some.inj (hx.symm.trans (gate_eq_ok.mp hg).1)
      simp only [asked_ok hg, hnone]
      exact ⟨⟨_, rfl⟩, h.dropped hw (.inr rfl)⟩

theorem leave_published {latest : Snapshot} (hw : w.Orderly) (h : w.HasScoped s d t latest)
    {b : Batch} (hb : w.batch? s = some b) (a : α) :
    (w.leave t s (.ok a)).1 = .ok a ∧ (w.leave t s (.ok a)).2.Ended s d t ∧
      ((w.leave t s (.ok a)).2.database d).engine.latest =
        { b.view with generation := latest.generation + 1 } := by
  obtain ⟨x, hx, rfl, rfl, hscoped⟩ := h
  rw [batch?, hx, Option.bind_some] at hb
  have hopen : x.closed = false := by
    cases hc : x.closed with
    | false => rfl
    | true =>
      rw [hscoped.batch_eq hc] at hb
      cases hb
  have hbase := ((hw.fits s x hx).held b hb).2.2.base_start
  obtain ⟨hanswer, hlatest⟩ := commit_of_batch hw hx hopen hb
  have hpublished : b.published = { b.view with generation := latest.generation + 1 } := by
    rw [Batch.published, Batch.pending, hbase, hscoped.latest_eq, Batch.view]
  have heffect : w.publishing x.owner s = .move s .publish := by
    rw [publishing, asked_ok (gate_eq_ok.mpr ⟨hx, rfl, hopen⟩)]
    simp only [hb, hbase, if_true]
  have hself := session?_move_self (m := .publish) hx
  simp only [leave, hanswer, Except.map, true_and]
  refine ⟨⟨?_, ?_, fun y hy => ?_⟩, hlatest.trans hpublished⟩
  · rw [commit_eq_publishing, heffect, World.after, engine_move_self hx (hw.placed s x hx)]
    simp only [Move.engine, hb]
  · rw [commit_eq_publishing, heffect, World.after, isInWrite, hself]
    simp only [Move.session, hb, moveTo, Option.isSome_none, Bool.and_false]
  · rw [hlatest]
    rw [commit_eq_publishing, heffect, World.after, hself] at hy
    cases hy
    simp only [Move.session, hb, moveTo, Session.view, and_self]

/-- What the end of a write leaves, and when it has published anything. -/
theorem ended_leave {latest : Snapshot} (hw : w.Orderly) (h : w.HasScoped s d t latest)
    (outcome : Except Error α) :
    (w.leave t s outcome).2.Ended s d t ∧
      ((∃ e, (w.leave t s outcome).1 = .error e) ∧
          ((w.leave t s outcome).2.database d).engine.latest = latest ∨
        (∃ a, (w.leave t s outcome).1 = .ok a) ∧ ∃ x, w.session? s = some x ∧
          ((w.leave t s outcome).2.database d).engine.latest =
            { x.view with generation := latest.generation + 1 }) := by
  have hfailed (ho : (∃ e, outcome = .error e) ∨ w.batch? s = none) := leave_failed hw h ho
  cases outcome with
  | error e =>
    obtain ⟨herror, hended, hlatest⟩ := hfailed (.inl ⟨e, rfl⟩)
    exact ⟨hended, .inl ⟨herror, hlatest⟩⟩
  | ok a =>
    cases hb : w.batch? s with
    | none =>
      obtain ⟨herror, hended, hlatest⟩ := hfailed (.inr hb)
      exact ⟨hended, .inl ⟨herror, hlatest⟩⟩
    | some b =>
      obtain ⟨hok, hended, hlatest⟩ := leave_published hw h hb a
      obtain ⟨x, hx, -⟩ := h
      rw [batch?, hx, Option.bind_some] at hb
      refine ⟨hended, .inr ⟨⟨a, hok⟩, x, hx, ?_⟩⟩
      rw [hlatest, Session.view_of_batch hb]

theorem begin?_eq {x : Session} (hx : w.session? s = some x) (hopen : x.closed = false)
    (hb : x.batch = none) :
    w.begin? x.owner s = if (w.database x.database).engine.busy then none
      else some (.ok (), w.move s .enter) := by
  simp only [begin?, checkBegin, gate_eq_ok.mpr ⟨hx, rfl, hopen⟩, hb, Option.isSome_none,
    Bool.false_eq_true, if_false, install, hx, Engine.beginWrite]
  cases (w.database x.database).engine.busy with
  | true => rfl
  | false => simp only [Bool.false_eq_true, if_false, Option.map_some, move, hx, Move.session,
      Move.engine, Batch.start]

theorem scoped_enter {x : Session} (hw : w.Orderly) (hx : w.session? s = some x)
    (hopen : x.closed = false) :
    (w.move s .enter).HasScoped s x.database x.owner (w.database x.database).engine.latest := by
  refine ⟨_, session?_move_self hx, rfl, rfl, ?_⟩
  rw [engine_move_self hx (hw.placed s x hx)]
  refine ⟨rfl, rfl, rfl, fun hc => ?_⟩
  rw [Move.session, hopen] at hc
  cases hc

end World

namespace Reader

/--
A write around an operation, whatever was called and read before. The operation may make
any calls with the session and its handles but commit, go on after errors or not, and answer
what it likes. A view of the session may be made and read before, in the operation and after
it.

1. From another thread the write is refused and nothing happens. From its own it answers
   if the lock is free, and waits otherwise.
2. When it has answered, the lock is free and the session is outside a write and, if it is
   still open, at the latest snapshot. The view answers from this snapshot, whatever it has
   kept.
3. If the answer is an error, the latest snapshot is the one before the write.
4. If it is none, exactly one new generation was published, and its content is what the
   session saw at the end of the operation.
-/
theorem write_is_whole {α : Type} (s : SessionId) (recipe : Recipe) (us vs : List Use)
    (hvs : ∀ u ∈ vs, u.Inside s) (t : Thread) (f : World → Except Error α × World) :
    let before := (start s recipe).run us
    let inside := before.run (.call (.begin t s) :: vs)
    (f (Call.perform before.world (.begin t s))).2 = inside.world →
    ∀ x, before.world.session? s = some x → x.closed = false → x.batch = none →
      let latest (w : World) := (w.database x.database).engine.latest
      (t ≠ x.owner → before.world.write? t s f = some (.error .wrongThread, before.world)) ∧
      (t = x.owner → (before.world.write? t s f).isSome =
        !(before.world.database x.database).engine.busy) ∧
      (t = x.owner → ∀ answer after, before.world.write? t s f = some (answer, after) →
        (after.Ended s x.database t ∧ inside.view.recipe = recipe ∧
          ∀ y, after.gate t s = .ok y → inside.view.Shows after t (latest after)) ∧
        (∀ e, answer = .error e → latest after = latest before.world) ∧
        (∀ a, answer = .ok a → ∃ y, inside.world.session? s = some y ∧
          latest after =
            { y.view with generation := (latest before.world).generation + 1 })) := by
  intro before inside hf x hx hopen hb latest
  have hsound : before.Sound s recipe := sound_run s recipe us
  have hw : before.world.Orderly := orderly_run World.orderly_empty us
  have hinside : inside.Sound s recipe := hsound.run _
  refine ⟨fun ht => ?_, ?_, ?_⟩
  · simp only [World.write?, World.begin?, World.checkBegin, World.gate, hx, ne_eq, ht,
      not_false_eq_true, if_true]
  · rintro rfl
    rw [World.write?, World.begin?_eq hx hopen hb]
    cases (before.world.database x.database).engine.busy <;> rfl
  · rintro rfl answer after hwrite
    rw [World.write?, World.begin?_eq hx hopen hb] at hwrite
    cases hbusy : (before.world.database x.database).engine.busy with
    | true =>
      rw [hbusy] at hwrite
      cases hwrite
    | false =>
      have hbegin : Call.perform before.world (.begin x.owner s) = before.world.move s .enter := by
        simp only [Call.perform, World.begin?_eq hx hopen hb, hbusy, Bool.false_eq_true, if_false,
          Option.map_some, Option.getD_some]
      rw [hbegin] at hf
      simp only [hbusy, Bool.false_eq_true, if_false, hf, Option.some.injEq] at hwrite
      have hentered : (before.perform (.call (.begin x.owner s))).world.HasScoped s x.database
          x.owner (latest before.world) := by
        rw [perform, hbegin]
        exact World.scoped_enter hw hx hopen
      have hscoped : inside.world.HasScoped s x.database x.owner (latest before.world) :=
        scoped_run (hsound.call _) (orderly_perform hw _) hentered hvs
      have hordered : inside.world.Orderly := orderly_run hw _
      obtain ⟨hended, hanswer⟩ :=
        World.ended_leave hordered hscoped (f (before.world.move s .enter)).1
      -- the end of the write is one call more for the view
      have hafter := hinside.call (.leave x.owner s
        ((f (before.world.move s .enter)).1.map fun _ => ()))
      rw [perform, Call.perform_eq, ← World.leave_eq_effect] at hafter
      rw [hwrite] at hended hanswer hafter
      refine ⟨⟨hended, hinside.recipe_eq, fun y hy => ?_⟩, ?_, ?_⟩
      · have hview : y.view = latest after := (hended.sees y (World.gate_eq_ok.mp hy).1).2.2
        rw [← hview]
        exact hafter.shows hy
      · rintro e rfl
        rcases hanswer with ⟨-, hlatest⟩ | ⟨⟨a, ha⟩, -⟩
        · exact hlatest
        · cases ha
      · rintro a rfl
        rcases hanswer with ⟨⟨e, he⟩, -⟩ | ⟨-, hpublished⟩
        · cases he
        · exact hpublished

def opened : List Use := [.call (.openDatabase dogs false), .call (.openSession 0 ⟨0⟩)]

/-- A dog is created and the dogs are counted, and then a cat is asked for. -/
def dogThenCat : List Use :=
  [.call (.create 0 ⟨0⟩ "Dog" []), .read 0 .count, .call (.create 0 ⟨0⟩ "Cat" [])]

/-- There are no cats, so that the write fails. The dog was counted in it and is not counted
afterwards. -/
theorem dog_before_cat_is_not_counted :
    let before := (start ⟨0⟩ (.ofSource (.objects "Dog"))).run opened
    let inside := before.run (.call (.begin 0 ⟨0⟩) :: dogThenCat)
    let operation (w : World) : Except Error Unit × World :=
      (.error (.unknownClass "Cat"), (Reader.run ⟨w, before.view⟩ dogThenCat).world)
    (inside.view.count inside.world 0).1 = .ok 1 ∧
      ∃ e after, before.world.write? 0 ⟨0⟩ operation = some (.error e, after) ∧
        (inside.view.count after 0).1 = .ok 0 := by
  intro before inside operation
  have hinside : ∀ u ∈ dogThenCat, u.Inside ⟨0⟩ := by
    simp [dogThenCat, Use.Inside, Call.Inside]
  obtain ⟨x, hx, howner, hopen, hb⟩ : ∃ x, before.world.session? ⟨0⟩ = some x ∧ x.owner = 0 ∧
      x.closed = false ∧ x.batch = none := ⟨_, rfl, rfl, rfl, rfl⟩
  obtain ⟨after, y, hwrite, hgate⟩ : ∃ after y,
      before.world.write? 0 ⟨0⟩ operation = some (.error (.unknownClass "Cat"), after) ∧
        after.gate 0 ⟨0⟩ = .ok y := ⟨_, _, rfl, rfl⟩
  have hwhole := (write_is_whole ⟨0⟩ (.ofSource (.objects "Dog")) opened dogThenCat hinside 0
    operation rfl x hx hopen hb).2.2 howner.symm _ after hwrite
  refine ⟨rfl, _, after, hwrite, ?_⟩
  rw [(hwhole.1.2.2 y hgate).count, hwhole.2.1 _ rfl]
  cases hx
  rfl

end Reader

end ObjectStore
