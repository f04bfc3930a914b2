import ObjectStore.Proofs.Run.Scopes

/-
  The write lock.

  The lock of a database is a flag of its engine. A session takes it when it enters a write
  and frees it on each of four ways out: a commit, a cancellation, closing, and the end of
  an operation that is run as one write. A way out may be taken twice, and by then another
  session may be inside a write.

  All of this comes down to what one call can do to a lock (`World.Turns`): leave it alone
  together with every batch, take it for one session, or free it for the one that held it.

    1. `Call.turns` is this for every call, and `LockEvent` is what happened.
    2. `World.Guarded` is the invariant: a taken lock is that of a session with a batch.
    3. `World.paired_run`: what happens to a lock is writes one after the other, each of
       which takes it once and frees it once.
    4. `Call.exit_frees` and `Call.exit_outside` are the ways out, inside a write and
       outside one.
    5. `World.lock_is_never_leaked` puts (1) to (4) together.
-/

namespace ObjectStore

/-! ## What a call does to a lock -/

/-- What happens to the lock of a database. -/
inductive LockEvent where
  | taken (s : SessionId)
  | freed (s : SessionId)
  deriving DecidableEq

/-- What a move of a session does to the lock of its database. Freeing it is what the engine
does with a batch that is published or dropped. -/
def Move.lockEvents (s : SessionId) (x : Session) : Move → List LockEvent
  | .enter => [.taken s]
  | .publish | .drop | .close => if x.batch.isSome then [.freed s] else []
  | _ => []

/-- What a call does to the lock of a database. -/
def Call.lockEvents (d : DatabaseId) (w : World) (c : Call) : List LockEvent :=
  match c.effect w with
  | .move s m =>
    match w.session? s with
    | some x => if x.database = d then m.lockEvents s x else []
    | none => []
  | _ => []

namespace World

/-- A session of a database holds a batch. -/
def HasBatch (w : World) (s : SessionId) (d : DatabaseId) : Prop :=
  ∃ x, w.session? s = some x ∧ x.database = d ∧ x.batch.isSome = true

/-- An open session of a database is inside a write. -/
def IsWriting (w : World) (s : SessionId) (d : DatabaseId) : Prop :=
  ∃ x, w.session? s = some x ∧ x.database = d ∧ x.closed = false ∧ x.batch.isSome = true

/-- What one step can do to the lock of a database and to the batches of its sessions, and
what happened to the lock by it. -/
inductive Turns (w w' : World) (d : DatabaseId) : List LockEvent → Prop
  | keeps (hbusy : (w'.database d).engine.busy = (w.database d).engine.busy)
    (hheld : ∀ s, w'.HasBatch s d ↔ w.HasBatch s d) : Turns w w' d []
  | takes (s : SessionId) (hfree : (w.database d).engine.busy = false)
    (hbusy : (w'.database d).engine.busy = true) (hheld : w'.HasBatch s d) :
    Turns w w' d [.taken s]
  | frees (s : SessionId) (hheld : w.HasBatch s d) (hgone : ¬ w'.HasBatch s d)
    (hfree : (w'.database d).engine.busy = false) : Turns w w' d [.freed s]

variable {w w' : World} {s s' : SessionId} {d : DatabaseId} {x : Session} {m : Move}

theorem isWriting_iff : w.IsWriting s d ↔
    w.HasBatch s d ∧ ∃ x, w.session? s = some x ∧ x.closed = false := by
  constructor
  · rintro ⟨x, hx, hd, hopen, hb⟩
    exact ⟨⟨x, hx, hd, hb⟩, x, hx, hopen⟩
  · rintro ⟨⟨x, hx, hd, hb⟩, y, hy, hopen⟩
    obtain rfl := Option.some.inj (hx.symm.trans hy)
    exact ⟨x, hx, hd, hopen, hb⟩

/-- A move of a session that leaves the lock alone, and the session with a batch or without
one as it was, leaves every lock alone. -/
theorem turns_of_eq (hw : w.Orderly) (hx : w.session? s = some x)
    (hbusy : (m.engine x (w.database x.database).engine).busy =
      (w.database x.database).engine.busy)
    (hbatch : (m.session (w.database x.database).schema (w.database x.database).engine.latest
      x).batch.isSome = x.batch.isSome) (d : DatabaseId) : w.Turns (w.move s m) d [] := by
  refine .keeps ?_ fun s' => ?_
  · by_cases hd : d = x.database
    · rw [hd, engine_move_self hx (hw.placed s x hx), hbusy]
    · rw [engine_move_of_ne hx hd]
  · by_cases hs : s' = s
    · subst hs
      simp only [HasBatch, session?_move_self hx, hx, Option.some.injEq, exists_eq_left',
        Move.database_session, hbatch]
    · simp only [HasBatch, session?_move_of_ne hs]

theorem turns_elsewhere (hx : w.session? s = some x) (hd : x.database ≠ d) :
    w.Turns (w.move s m) d [] := by
  refine .keeps (by rw [engine_move_of_ne hx (Ne.symm hd)]) fun s' => ?_
  by_cases hs : s' = s
  · subst hs
    simp only [HasBatch, session?_move_self hx, hx, Option.some.injEq, exists_eq_left',
      Move.database_session, hd, false_and]
  · simp only [HasBatch, session?_move_of_ne hs]

theorem turns_of_released (hw : w.Orderly) (hx : w.session? s = some x)
    (hheld : x.batch.isSome = true)
    (hbusy : (m.engine x (w.database x.database).engine).busy = false)
    (hbatch : (m.session (w.database x.database).schema (w.database x.database).engine.latest
      x).batch = none) : w.Turns (w.move s m) x.database [.freed s] := by
  refine .frees s ⟨x, hx, rfl, hheld⟩ ?_ ?_
  · rintro ⟨y, hy, -, hb⟩
    obtain rfl := Option.some.inj ((session?_move_self hx).symm.trans hy)
    rw [hbatch] at hb
    cases hb
  · rw [engine_move_self hx (hw.placed s x hx), hbusy]

theorem turns_move (hw : w.Orderly) (hx : w.session? s = some x)
    (hm : m.Enabled x (w.database x.database).engine) (d : DatabaseId) :
    w.Turns (w.move s m) d (if x.database = d then m.lockEvents s x else []) := by
  by_cases hd : x.database = d
  · subst hd
    rw [if_pos rfl]
    have hreleased (hbatch : x.batch.isSome = false → m.engine x (w.database x.database).engine =
        (w.database x.database).engine) (hgone : (m.session (w.database x.database).schema
          (w.database x.database).engine.latest x).batch = none)
        (hfree : x.batch.isSome = true →
          (m.engine x (w.database x.database).engine).busy = false) :
        w.Turns (w.move s m) x.database (if x.batch.isSome then [.freed s] else []) := by
      cases hb : x.batch.isSome with
      | true => exact turns_of_released hw hx hb (hfree hb) hgone
      | false =>
        refine turns_of_eq hw hx (congrArg Engine.busy (hbatch hb)) ?_ x.database
        rw [hgone, hb]
        rfl
    cases m with
    | enter =>
      refine .takes s hm ?_ ⟨_, session?_move_self hx, rfl, rfl⟩
      rw [engine_move_self hx (hw.placed s x hx)]
      rfl
    | write e =>
      refine turns_of_eq hw hx rfl ?_ x.database
      simp only [Move.session, Option.isSome_map]
    | publish =>
      obtain ⟨-, b, hb, -⟩ := hm
      apply hreleased
      · intro hnone
        rw [hb] at hnone
        cases hnone
      · simp only [Move.session, hb, World.moveTo]
      · intro hsome
        simp only [Move.engine, hb]
    | drop =>
      apply hreleased
      · intro hnone
        simp only [Move.engine, hnone, Bool.false_eq_true, if_false]
      · rfl
      · intro hsome
        simp only [Move.engine, hsome, if_true, Engine.abandon]
    | close =>
      apply hreleased
      · intro hnone
        simp only [Move.engine, hnone, Bool.false_eq_true, if_false]
      · rfl
      · intro hsome
        simp only [Move.engine, hsome, if_true, Engine.abandon]
    | _ => exact turns_of_eq hw hx rfl rfl x.database
  · rw [if_neg hd]
    exact turns_elsewhere hx hd

end World

/-- What a call can do to a lock. -/
theorem Call.turns {w : World} (hw : w.Orderly) (c : Call) (d : DatabaseId) :
    w.Turns (c.perform w) d (c.lockEvents d w) := by
  rw [perform_eq, lockEvents]
  cases he : c.effect w with
  | none => exact .keeps rfl fun s => Iff.rfl
  | database schema announces =>
    refine .keeps (by rw [World.engine_openDatabase]) fun s => ?_
    simp only [World.HasBatch, World.session?_openDatabase]
  | session t d' =>
    refine .keeps (by rw [World.database, World.databases_openSession, World.database]) fun s => ?_
    constructor
    · rintro ⟨x, hx, hd, hb⟩
      rcases World.session?_openSession_cases hx with hx | ⟨-, -, rfl⟩
      · exact ⟨x, hx, hd, hb⟩
      · cases hb
    · rintro ⟨x, hx, hd, hb⟩
      exact ⟨x, World.session?_openSession hx, hd, hb⟩
  | move s m =>
    simp only [World.after]
    cases hx : w.session? s with
    | none =>
      rw [World.move_of_none hx]
      exact .keeps rfl fun s => Iff.rfl
    | some x => exact World.turns_move hw hx (enabled_of_effect he hx) d

/-! ## Who holds a lock -/

namespace World

variable {w : World} {s s' : SessionId} {d : DatabaseId} {x : Session}

theorem Orderly.busy_of_hasBatch (hw : w.Orderly) (h : w.HasBatch s d) :
    (w.database d).engine.busy = true := by
  obtain ⟨x, hx, rfl, hb⟩ := h
  obtain ⟨b, hb⟩ := Option.isSome_iff_exists.mp hb
  exact ((hw.fits s x hx).held b hb).1

theorem Orderly.hasBatch_unique (hw : w.Orderly) (h : w.HasBatch s d) (h' : w.HasBatch s' d) :
    s = s' := by
  obtain ⟨x, hx, hd, hb⟩ := h
  obtain ⟨x', hx', hd', hb'⟩ := h'
  exact hw.alone s s' x x' hx hx' (hd.trans hd'.symm) hb hb'

/-- No lock is taken without a session that could free it again: it is that of a session
with a batch, and this session is open. -/
structure Guarded (w : World) : Prop where
  orderly : w.Orderly
  closed : ∀ s x, w.session? s = some x → x.closed = true → x.batch = none
  held : ∀ d, (w.database d).engine.busy = true → ∃ s, w.HasBatch s d

theorem Guarded.isWriting_iff (h : w.Guarded) : w.IsWriting s d ↔ w.HasBatch s d := by
  refine ⟨fun hs => (World.isWriting_iff.mp hs).1, fun hs => World.isWriting_iff.mpr ⟨hs, ?_⟩⟩
  obtain ⟨x, hx, -, hb⟩ := hs
  refine ⟨x, hx, ?_⟩
  cases hc : x.closed with
  | false => rfl
  | true =>
    rw [h.closed s x hx hc] at hb
    cases hb

theorem guarded_empty : World.empty.Guarded := by
  refine ⟨orderly_empty, ?_, fun d hd => ?_⟩
  · intro s x hx
    cases hx
  · rw [engine_of_length_le (Nat.zero_le _)] at hd
    cases hd

end World

/-- A call that is a whole method of a session. The second half of a begin is none. -/
def Call.IsMethod : Call → Prop
  | .grant _ => False
  | _ => True

/-- A call through a session is one that may be made inside a write, or ends one, or is the
second half of a begin. -/
theorem Call.inside_cases {c : Call} {s : SessionId} (h : c.through = some s) :
    c.Inside s ∨ c = .grant s ∨ (∃ t, c = .commit t s) ∨ ∃ t outcome, c = .leave t s outcome := by
  cases c with
  | openDatabase schema announces => cases h
  | openSession t d => cases h
  | grant s' =>
    cases h
    exact .inr (.inl rfl)
  | commit t s' =>
    cases h
    exact .inr (.inr (.inl ⟨t, rfl⟩))
  | leave t s' outcome =>
    cases h
    exact .inr (.inr (.inr ⟨t, outcome, rfl⟩))
  | elements t handle e =>
    cases handle with
    | unattached kind vs => cases h
    | bound binding c =>
      cases binding with
      | frozen snapshot => cases h
      | live s' =>
        cases h
        exact .inl rfl
  | observe t v =>
    refine .inl fun s' hs' => ?_
    simp only [through, hs'] at h
    exact Option.some.inj h
  | _ =>
    cases h
    exact .inl rfl

theorem Call.open_of_enter {w : World} {c : Call} {s : SessionId} {x : Session}
    (hc : c.IsMethod) (he : c.effect w = .move s .enter) (hx : w.session? s = some x) :
    x.closed = false := by
  have hpublishing {t : Thread} : w.publishing t s ≠ .move s .enter := by
    intro h
    rcases (World.of_publishing h hx).1 with h | h <;> cases h
  rcases Call.inside_cases (Call.through_of_effect he) with h | rfl | ⟨t, rfl⟩ | ⟨t, outcome, rfl⟩
  · rcases h.effect w with hminor | ⟨-, hopen⟩
    · rw [he] at hminor
      cases hminor
      contradiction
    · exact hopen x hx
  · exact absurd hc id
  · exact absurd he hpublishing
  · cases outcome with
    | ok u => exact absurd he hpublishing
    | error e =>
      simp only [effect] at he
      split at he
      · cases he
      · cases (World.of_dropping he hx).1

theorem Move.batch_of_closed {schema : Schema} {latest : Snapshot} {x : Session} {m : Move}
    (henter : m = .enter → x.closed = false) (hx : x.closed = true → x.batch = none)
    (hc : (m.session schema latest x).closed = true) :
    (m.session schema latest x).batch = none := by
  cases m with
  | enter =>
    rw [session, henter rfl] at hc
    cases hc
  | write e => simp only [session, hx hc, Option.map_none]
  | publish =>
    cases hb : x.batch with
    | none => simp only [session, hb]
    | some b => simp only [session, hb, World.moveTo]
  | drop => rfl
  | close => rfl
  | _ => exact hx hc

namespace World

variable {w : World} {s : SessionId} {d : DatabaseId}

theorem held_perform (hw : w.Orderly)
    (h : ∀ d, (w.database d).engine.busy = true → ∃ s, w.HasBatch s d) (c : Call)
    (hbusy : ((c.perform w).database d).engine.busy = true) : ∃ s, (c.perform w).HasBatch s d := by
  have hturns := c.turns hw d
  generalize c.lockEvents d w = events at hturns
  cases hturns with
  | keeps hsame hheld =>
    rw [hsame] at hbusy
    obtain ⟨s, hs⟩ := h d hbusy
    exact ⟨s, (hheld s).mpr hs⟩
  | takes s hfree hbusy hheld => exact ⟨s, hheld⟩
  | frees s hheld hgone hfree =>
    rw [hfree] at hbusy
    cases hbusy

theorem held_run (cs : List Call) (d : DatabaseId)
    (hbusy : ((World.empty.run cs).database d).engine.busy = true) :
    ∃ s, (World.empty.run cs).HasBatch s d := by
  induction cs using List.reverseRecOn generalizing d with
  | nil => exact guarded_empty.held d hbusy
  | append_singleton cs c ih =>
    rw [run_snoc] at hbusy ⊢
    exact held_perform (orderly_run cs) ih c hbusy

theorem guarded_perform (h : w.Guarded) {c : Call} (hc : c.IsMethod) : (c.perform w).Guarded := by
  refine ⟨orderly_perform h.orderly c, fun s x' hx' hclosed => ?_,
    fun d => held_perform h.orderly h.held c⟩
  rcases session?_perform_cases c hx' with ⟨x, m, hx, he, rfl⟩ | ⟨hx, -⟩ | ⟨-, t, d, rfl⟩
  · refine Move.batch_of_closed (fun hm => ?_) (h.closed s x hx) hclosed
    subst hm
    exact Call.open_of_enter hc he hx
  · exact h.closed s x' hx hclosed
  · rfl

theorem Guarded.run (h : w.Guarded) {cs : List Call} (hcs : ∀ c ∈ cs, c.IsMethod) :
    (w.run cs).Guarded := by
  induction cs generalizing w with
  | nil => exact h
  | cons c cs ih =>
    apply ih (guarded_perform h (hcs c List.mem_cons_self))
    intro c' hc'
    exact hcs c' (List.mem_cons_of_mem c hc')

end World

/-! ## What happened to a lock -/

/-- Writes one after the other, each of which took the lock and freed it again, and the
write that has taken it now. -/
def LockEvent.history (writes : List SessionId) (now : Option SessionId) : List LockEvent :=
  (writes.flatMap fun s => [.taken s, .freed s]) ++ now.toList.map .taken

theorem LockEvent.history_freed (writes : List SessionId) (s : SessionId) :
    history writes (some s) ++ [.freed s] = history (writes ++ [s]) none := by
  simp [history]

namespace World

/-- Along every run, what happened to a lock is writes one after the other; the last one
goes on as long as its session holds a batch. -/
theorem paired_run (cs : List Call) (d : DatabaseId) :
    ∃ writes now, World.empty.along (Call.lockEvents d) cs = LockEvent.history writes now ∧
      ∀ s, now = some s ↔ (World.empty.run cs).HasBatch s d := by
  induction cs using List.reverseRecOn with
  | nil =>
    refine ⟨[], none, rfl, fun s => ⟨nofun, ?_⟩⟩
    rintro ⟨x, hx, -⟩
    cases hx
  | append_singleton cs c ih =>
    obtain ⟨writes, now, hevents, hnow⟩ := ih
    have hw := orderly_run cs
    have hw' := orderly_perform hw c
    have hturns := c.turns hw d
    rw [along_snoc, hevents, run_snoc]
    generalize c.lockEvents d (World.empty.run cs) = events at hturns ⊢
    cases hturns with
    | keeps hbusy hheld =>
      exact ⟨writes, now, List.append_nil _, fun s => (hnow s).trans (hheld s).symm⟩
    | takes s hfree hbusy hheld =>
      -- the lock was free, so no write was going on
      have hnone : now = none := by
        cases hn : now with
        | none => rfl
        | some s' =>
          rw [hw.busy_of_hasBatch ((hnow s').mp hn)] at hfree
          cases hfree
      subst hnone
      refine ⟨writes, some s, by simp [LockEvent.history], fun s' => ⟨?_, fun hs' => ?_⟩⟩
      · rintro ⟨⟩
        exact hheld
      · exact congrArg some (hw'.hasBatch_unique hheld hs')
    | frees s hheld hgone hfree =>
      obtain rfl := (hnow s).mpr hheld
      refine ⟨writes ++ [s], none, LockEvent.history_freed writes s, fun s' => ⟨nofun, ?_⟩⟩
      intro hs'
      rw [hw'.busy_of_hasBatch hs'] at hfree
      cases hfree

end World

/-! ## Ways out of a write -/

def Move.IsExit : Move → Prop
  | .publish | .drop | .close => True
  | _ => False

theorem Move.IsExit.batch_eq {m : Move} (h : m.IsExit) (schema : Schema) (latest : Snapshot)
    (x : Session) : (m.session schema latest x).batch = none := by
  cases m with
  | publish =>
    cases hb : x.batch with
    | none => simp only [session, hb]
    | some b => simp only [session, hb, World.moveTo]
  | drop => rfl
  | close => rfl
  | _ => exact absurd h id

theorem Move.IsExit.lockEvents_eq {m : Move} (h : m.IsExit) (s : SessionId) (x : Session) :
    m.lockEvents s x = if x.batch.isSome then [.freed s] else [] := by
  cases m with
  | publish => rfl
  | drop => rfl
  | close => rfl
  | _ => exact absurd h id

theorem Move.IsExit.engine_eq {m : Move} (h : m.IsExit) {x : Session} (hb : x.batch = none)
    (e : Engine) : m.engine x e = e := by
  cases m with
  | publish => simp only [engine, hb]
  | drop => simp only [engine, hb, Option.isSome_none, Bool.false_eq_true, if_false]
  | close => simp only [engine, hb, Option.isSome_none, Bool.false_eq_true, if_false]
  | _ => exact absurd h id

namespace Call

/-- A way out of a write of a session: a commit, a cancellation, the end of an operation that
is run as one write, or closing, which is also what dropping the session does. -/
def IsExit (s : SessionId) : Call → Prop
  | .commit _ s' | .cancel _ s' | .leave _ s' _ | .close s' => s' = s
  | _ => False

/-- A way out that the calling thread may take. Only closing is open to all of them. -/
def Exits (w : World) (s : SessionId) : Call → Prop
  | .commit t s' | .cancel t s' | .leave t s' _ =>
    s' = s ∧ ∃ x, w.session? s = some x ∧ t = x.owner
  | .close s' => s' = s
  | _ => False

variable {w : World} {c : Call} {s : SessionId} {d : DatabaseId} {x : Session}

theorem publishing_ends (w : World) (t : Thread) (s : SessionId) :
    (∃ e, w.gate t s = .error e) ∧ w.publishing t s = .none ∨
      ∃ m : Move, m.IsExit ∧ w.publishing t s = .move s m := by
  cases hg : w.gate t s with
  | error e => exact .inl ⟨⟨e, rfl⟩, World.asked_error hg⟩
  | ok x =>
    refine .inr ?_
    rw [World.publishing, World.asked_ok hg]
    split
    · split
      · exact ⟨.publish, trivial, rfl⟩
      · exact ⟨.drop, trivial, rfl⟩
    · exact ⟨.drop, trivial, rfl⟩

theorem exit_effect (hc : c.IsExit s) (w : World) :
    c.effect w = .none ∨ ∃ m : Move, m.IsExit ∧ c.effect w = .move s m := by
  have hdropping {t : Thread} : w.asked t s (fun _ => .move s .drop) = .none ∨
      ∃ m : Move, m.IsExit ∧ w.asked t s (fun _ => .move s .drop) = .move s m := by
    cases hg : w.gate t s with
    | error e => exact .inl (World.asked_error hg)
    | ok x => exact .inr ⟨.drop, trivial, World.asked_ok hg⟩
  cases c with
  | commit t s' =>
    obtain rfl : s' = s := hc
    exact (publishing_ends w t s').imp_left And.right
  | cancel t s' =>
    obtain rfl : s' = s := hc
    exact hdropping
  | leave t s' outcome =>
    obtain rfl : s' = s := hc
    cases outcome with
    | ok u => exact (publishing_ends w t s').imp_left And.right
    | error e =>
      simp only [effect]
      split
      · exact .inl rfl
      · exact hdropping
  | close s' =>
    obtain rfl : s' = s := hc
    simp only [effect]
    split
    · split
      · exact .inl rfl
      · exact .inr ⟨.close, trivial, rfl⟩
    · exact .inl rfl
  | _ => exact absurd hc id

theorem exits_effect (hc : c.Exits w s) (hx : w.session? s = some x) (hopen : x.closed = false) :
    ∃ m : Move, m.IsExit ∧ c.effect w = .move s m := by
  have hgate {t : Thread} (ht : ∃ y, w.session? s = some y ∧ t = y.owner) :
      w.gate t s = .ok x := by
    obtain ⟨y, hy, rfl⟩ := ht
    obtain rfl := Option.some.inj (hx.symm.trans hy)
    exact World.gate_eq_ok.mpr ⟨hx, rfl, hopen⟩
  have hpublishing {t : Thread} (ht : ∃ y, w.session? s = some y ∧ t = y.owner) :
      ∃ m : Move, m.IsExit ∧ w.publishing t s = .move s m := by
    rcases publishing_ends w t s with ⟨⟨e, he⟩, -⟩ | h
    · rw [hgate ht] at he
      cases he
    · exact h
  cases c with
  | commit t s' =>
    obtain ⟨rfl, ht⟩ := hc
    exact hpublishing ht
  | cancel t s' =>
    obtain ⟨rfl, ht⟩ := hc
    exact ⟨.drop, trivial, World.asked_ok (hgate ht)⟩
  | leave t s' outcome =>
    obtain ⟨rfl, ht⟩ := hc
    cases outcome with
    | ok u => exact hpublishing ht
    | error e =>
      have hnot : w.isClosed s' = false := by
        simp only [World.isClosed, World.peek, hx, hopen, Bool.false_eq_true, if_false,
          Option.isNone_some]
      refine ⟨.drop, trivial, ?_⟩
      simp only [effect, hnot, Bool.false_eq_true, if_false]
      exact World.asked_ok (hgate ht)
  | close s' =>
    obtain rfl : s' = s := hc
    refine ⟨.close, trivial, ?_⟩
    simp only [effect, hx, hopen, Bool.false_eq_true, if_false]
  | _ => exact absurd hc id

theorem isInWrite_of_exits (hc : c.Exits w s) (hx : w.session? s = some x) :
    (c.perform w).isInWrite s = false := by
  cases hclosed : x.closed with
  | true =>
    obtain ⟨x', hx', hbecomes⟩ := World.becomes_perform c hx
    simp only [World.isInWrite, hx', hbecomes.closed hclosed, Bool.not_true, Bool.false_and]
  | false =>
    obtain ⟨m, hm, he⟩ := exits_effect hc hx hclosed
    rw [perform_eq, he, World.after]
    simp only [World.isInWrite, World.session?_move_self hx, hm.batch_eq, Option.isSome_none,
      Bool.and_false]

/-- Inside a write a way out frees the lock. -/
theorem exit_frees (hw : w.Orderly) (h : w.IsWriting s d) (hc : c.Exits w s) :
    c.lockEvents d w = [.freed s] ∧ ((c.perform w).database d).engine.busy = false := by
  obtain ⟨x, hx, hd, hopen, hb⟩ := h
  obtain ⟨m, hm, he⟩ := exits_effect hc hx hopen
  have hevents : c.lockEvents d w = [.freed s] := by
    simp only [lockEvents, he, hx, hd, if_true, hm.lockEvents_eq, hb]
  have hturns := c.turns hw d
  rw [hevents] at hturns
  cases hturns with
  | frees s hheld hgone hfree => exact ⟨hevents, hfree⟩

/-- Outside a write a way out changes no database and no other session. -/
theorem exit_outside (hw : w.Guarded) (h : w.isInWrite s = false) (hc : c.IsExit s) :
    (c.perform w).databases = w.databases ∧
      ∀ s', s' ≠ s → (c.perform w).session? s' = w.session? s' := by
  rw [perform_eq]
  rcases exit_effect hc w with he | ⟨m, hm, he⟩
  · rw [he]
    exact ⟨rfl, fun s' hs' => rfl⟩
  · rw [he, World.after]
    refine ⟨?_, fun s' hs' => World.session?_move_of_ne hs'⟩
    cases hx : w.session? s with
    | none => rw [World.move_of_none hx]
    | some x =>
      have hb : x.batch = none := by
        cases hclosed : x.closed with
        | true => exact hw.closed s x hx hclosed
        | false => simpa [World.isInWrite, hx, hclosed] using h
      rw [World.move_of_engine_eq hx (hm.engine_eq hb _)]
      rfl

end Call

namespace World

variable {w : World} {t : Thread} {s : SessionId}

theorem owner_run {x : Session} (hx : w.session? s = some x) (cs : List Call) :
    ∃ x', (w.run cs).session? s = some x' ∧ x'.owner = x.owner := by
  induction cs generalizing w x with
  | nil => exact ⟨x, hx, rfl⟩
  | cons c cs ih =>
    rcases session?_perform_of_some c hx with ⟨m, -, hself⟩ | ⟨hsame, -⟩
    · obtain ⟨x', hx', howner⟩ := ih hself
      exact ⟨x', hx', howner.trans (Move.owner_session m x)⟩
    · exact ih hsame

/-- An operation that consists of calls and is run as one write is refused, or is a run that
ends with its session outside a write, whatever the calls were. -/
theorem outside_after_write {α : Type} {f : World → Except Error α × World} {cs : List Call}
    {out : Except Error α × World} (h : w.write? t s f = some out)
    (hf : ∀ w₁, w.begin? t s = some (.ok (), w₁) → (f w₁).2 = w₁.run cs) :
    out.2 = w ∨ (∃ outcome, out.2 = w.run (.begin t s :: cs ++ [.leave t s outcome])) ∧
      out.2.isInWrite s = false := by
  cases hg : w.gate t s with
  | error e =>
    simp only [write?, begin?, checkBegin, hg] at h
    cases h
    exact .inl rfl
  | ok x =>
    obtain ⟨hx, rfl, -⟩ := gate_eq_ok.mp hg
    rcases write?_eq_run h hf with hsame | ⟨outcome, hrun⟩
    · exact .inl hsame
    · refine .inr ⟨⟨outcome, hrun⟩, ?_⟩
      obtain ⟨x', hx', howner⟩ := owner_run hx (.begin x.owner s :: cs)
      rw [hrun, run_snoc]
      exact Call.isInWrite_of_exits ⟨rfl, x', hx', howner.symm⟩ hx'

/--
Taking each method of a session as one step, in whatever order sessions call them, and from
whatever threads:

1. The lock of a database is taken if and only if exactly one open session of it is inside a
   write. Never are two of them inside one.
2. What has happened to the lock is writes one after the other, each of which took it once and
   freed it once, and at the end the write of the session that is inside one now.
3. A closed session holds no batch.
4. Every way out that a thread may take frees the lock: a commit, a cancellation, closing or
   dropping the session, and the end of an operation that is run as one write.
5. A way out taken again, or outside a write, changes no database and no other session. So it
   frees no lock that another session has taken since.
6. An operation that is run as one write, and may itself commit, cancel, close, begin again or
   fail, leaves its session outside a write.
-/
theorem lock_is_never_leaked (cs : List Call) (hcs : ∀ c ∈ cs, c.IsMethod) :
    let w := empty.run cs
    (∀ d, ((w.database d).engine.busy = true ↔ ∃! s, w.IsWriting s d) ∧
      (∀ s s', w.IsWriting s d → w.IsWriting s' d → s = s') ∧
      ∃ writes now, empty.along (Call.lockEvents d) cs = LockEvent.history writes now ∧
        ∀ s, now = some s ↔ w.IsWriting s d) ∧
    (∀ s x, w.session? s = some x → x.closed = true → x.batch = none) ∧
    (∀ s d (c : Call), w.IsWriting s d → c.Exits w s → c.lockEvents d w = [.freed s] ∧
      ((c.perform w).database d).engine.busy = false ∧ (c.perform w).isInWrite s = false) ∧
    (∀ s (c : Call), w.isInWrite s = false → c.IsExit s →
      (c.perform w).databases = w.databases ∧
      ∀ s', s' ≠ s → (c.perform w).session? s' = w.session? s') ∧
    ∀ (α : Type) (t : Thread) (s : SessionId) (f : World → Except Error α × World)
      (ds : List Call) (out : Except Error α × World), w.write? t s f = some out →
      (∀ w₁, w.begin? t s = some (.ok (), w₁) → (f w₁).2 = w₁.run ds) →
      (∀ c ∈ ds, c.IsMethod) →
      out.2 = w ∨ (∃ es, (∀ c ∈ es, c.IsMethod) ∧ out.2 = empty.run (cs ++ es)) ∧
        out.2.isInWrite s = false := by
  intro w
  have hw : w.Guarded := guarded_empty.run hcs
  have hunique {d : DatabaseId} {s s' : SessionId} (hs : w.IsWriting s d)
      (hs' : w.IsWriting s' d) : s = s' :=
    hw.orderly.hasBatch_unique (hw.isWriting_iff.mp hs) (hw.isWriting_iff.mp hs')
  refine ⟨fun d => ⟨⟨fun hbusy => ?_, ?_⟩, fun s s' hs hs' => hunique hs hs', ?_⟩, hw.closed,
    fun s d c hs hc => ?_, fun s c hs hc => Call.exit_outside hw hs hc,
    fun α t s f ds out h hf hds => ?_⟩
  · obtain ⟨s, hs⟩ := hw.held d hbusy
    exact ⟨s, hw.isWriting_iff.mpr hs, fun s' hs' => hunique hs' (hw.isWriting_iff.mpr hs)⟩
  · rintro ⟨s, hs, -⟩
    exact hw.orderly.busy_of_hasBatch (hw.isWriting_iff.mp hs)
  · obtain ⟨writes, now, hevents, hnow⟩ := paired_run cs d
    exact ⟨writes, now, hevents, fun s => (hnow s).trans hw.isWriting_iff.symm⟩
  · obtain ⟨hevents, hfree⟩ := Call.exit_frees hw.orderly hs hc
    obtain ⟨x, hx, -⟩ := hs
    exact ⟨hevents, hfree, Call.isInWrite_of_exits hc hx⟩
  · rcases outside_after_write h hf with hsame | ⟨⟨outcome, hrun⟩, houtside⟩
    · exact .inl hsame
    · have hes : ∀ c ∈ .begin t s :: ds ++ [.leave t s outcome], Call.IsMethod c := by
        intro c hc
        simp only [List.cons_append, List.mem_cons, List.mem_append, List.not_mem_nil,
          or_false] at hc
        rcases hc with rfl | hc | rfl
        · trivial
        · exact hds c hc
        · trivial
      exact .inr ⟨⟨_, hes, hrun.trans (run_append empty cs _).symm⟩, houtside⟩

/-- A session has cancelled its write, and another one has begun the next. -/
def lockPassedOn : List Call :=
  [.openDatabase Reader.dogs false, .openSession 0 ⟨0⟩, .openSession 1 ⟨0⟩, .begin 0 ⟨0⟩,
    .cancel 0 ⟨0⟩, .begin 1 ⟨1⟩]

/-- Cancelled again, the first write frees nothing. Closing the second session frees the
lock, and then a write in which the first session is closed leaves it free. -/
theorem second_cancel_frees_nothing :
    let w := empty.run lockPassedOn
    let freed := empty.run (lockPassedOn ++ [.close ⟨1⟩])
    let closing (w : World) : Except Error Unit × World := (.ok (), w.close ⟨0⟩)
    w.IsWriting ⟨1⟩ ⟨0⟩ ∧
      empty.along (Call.lockEvents ⟨0⟩) lockPassedOn =
        [.taken ⟨0⟩, .freed ⟨0⟩, .taken ⟨1⟩] ∧
      ((Call.cancel 0 ⟨0⟩).perform w).databases = w.databases ∧
      (freed.database ⟨0⟩).engine.busy = false ∧
      ∃ out, freed.write? 0 ⟨0⟩ closing = some out ∧ out.2.isInWrite ⟨0⟩ = false ∧
        (out.2.database ⟨0⟩).engine.busy = false := by
  intro w freed closing
  have hmethods : ∀ c ∈ lockPassedOn, c.IsMethod := by simp [lockPassedOn, Call.IsMethod]
  have hmethods' : ∀ c ∈ lockPassedOn ++ [.close ⟨1⟩], c.IsMethod := by
    simp [lockPassedOn, Call.IsMethod]
  obtain ⟨-, -, hfrees, houtside, -⟩ := lock_is_never_leaked lockPassedOn hmethods
  obtain ⟨-, -, -, -, hwrite⟩ :=
    lock_is_never_leaked (lockPassedOn ++ [.close ⟨1⟩]) hmethods'
  have hsecond : w.IsWriting ⟨1⟩ ⟨0⟩ := ⟨_, rfl, rfl, rfl, rfl⟩
  refine ⟨hsecond, rfl, (houtside ⟨0⟩ (.cancel 0 ⟨0⟩) rfl rfl).1,
    (hfrees ⟨1⟩ ⟨0⟩ (.close ⟨1⟩) hsecond rfl).2.1, _, rfl, ?_, rfl⟩
  rcases hwrite Unit 0 ⟨0⟩ closing [.close ⟨0⟩] _ rfl (fun w₁ _ => rfl)
    (by simp [Call.IsMethod]) with hsame | ⟨-, houtside⟩
  · rw [hsame]
    rfl
  · exact houtside

end World

end ObjectStore
