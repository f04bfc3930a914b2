import Mathlib.Logic.Function.Basic
import ObjectStore.Proofs.Run.Writers

/-
  Which call made what is stored.

  A key is handed out again if the write that handed it out is abandoned. So the key
  alone does not tell whether two objects seen at two moments are the same one. A
  chronicle is a world together with the number of the call that made each object, for
  every committed snapshot and for every batch. Calls are counted from 1. The world
  does not depend on the numbers (`Chronicle.world_run`).

    1. `Chronicle.maker?` is the call that made the object of a key, as a session
       sees it.
    2. `Chronicle.Turn` is all that one call can do to one session and to the numbers;
       `Chronicle.turn_perform`.
    3. `Chronicle.sound_run`: the numbers of a batch and of an earlier snapshot agree
       with those of the latest snapshot, for all keys that were handed out by then.
-/

namespace ObjectStore

/-- A world, how many calls led to it, and which of them made what is stored. -/
structure Chronicle where
  world : World
  calls : Nat
  committed : DatabaseId → Generation → ObjectKey → Nat
  drafted : SessionId → ObjectKey → Nat

namespace Chronicle

open Function (update)

def start : Chronicle := ⟨.empty, 0, fun _ _ _ => 0, fun _ _ => 0⟩

/-- The numbers of a batch after a call has written it: what has appeared was made by
this call. -/
def written (n : Nat) (before after : Snapshot) (made : ObjectKey → Nat) : ObjectKey → Nat :=
  fun key => if after.contains key && !before.contains key then n else made key

/-- The numbers after a move, made by call `n`. A batch takes over those of the snapshot
that it starts from, and a snapshot those of the batch that it publishes. -/
def moved (h : Chronicle) (n : Nat) (s : SessionId) (x : Session) (m : Move) : Chronicle :=
  let db := h.world.database x.database
  let h' : Chronicle := { h with world := h.world.move s m, calls := n }
  match m, x.batch with
  | .enter, _ =>
    { h' with drafted := update h.drafted s (h.committed x.database db.engine.latest.generation) }
  | .write e, some b =>
    { h' with
      drafted := update h.drafted s
        (written n b.view (e.apply db.schema b).view (h.drafted s)) }
  | .publish, some b =>
    { h' with
      committed := update h.committed x.database
        (update (h.committed x.database) b.pending (h.drafted s)) }
  | _, _ => h'

def perform (h : Chronicle) (c : Call) : Chronicle :=
  match c.effect h.world with
  | .move s m =>
    match h.world.session? s with
    | some x => h.moved (h.calls + 1) s x m
    | none => { h with calls := h.calls + 1 }
  | e => { h with world := h.world.after e, calls := h.calls + 1 }

def run (h : Chronicle) (cs : List Call) : Chronicle := cs.foldl perform h

/-- The chronicle of calls from the empty world. -/
def ofRun (cs : List Call) : Chronicle := start.run cs

/-- The number of a key in what a session sees. -/
def number (h : Chronicle) (s : SessionId) (x : Session) (key : ObjectKey) : Nat :=
  match x.batch with
  | some _ => h.drafted s key
  | none => h.committed x.database x.snapshot.generation key

/-- The call that made the object of a key, as a session sees it. -/
def maker? (h : Chronicle) (s : SessionId) (key : ObjectKey) : Option Nat :=
  match h.world.session? s with
  | some x => if x.view.contains key then some (h.number s x key) else none
  | none => none

theorem calls_moved (h : Chronicle) (n : Nat) (s : SessionId) (x : Session) (m : Move) :
    (h.moved n s x m).calls = n := by
  unfold moved
  split <;> rfl

theorem world_moved (h : Chronicle) (n : Nat) (s : SessionId) (x : Session) (m : Move) :
    (h.moved n s x m).world = h.world.move s m := by
  unfold moved
  split <;> rfl

theorem world_perform (h : Chronicle) (c : Call) : (h.perform c).world = c.perform h.world := by
  rw [Call.perform_eq, perform]
  cases c.effect h.world with
  | none => rfl
  | database schema announces => rfl
  | session t d => rfl
  | move s m =>
    cases hx : h.world.session? s with
    | none => simp only [World.after, World.move, hx]
    | some x => simp only [hx, world_moved, World.after]

theorem calls_perform (h : Chronicle) (c : Call) : (h.perform c).calls = h.calls + 1 := by
  rw [perform]
  cases c.effect h.world with
  | none => rfl
  | database schema announces => rfl
  | session t d => rfl
  | move s m =>
    cases hx : h.world.session? s with
    | none => simp only [hx]
    | some x => simp only [hx, calls_moved]

theorem run_cons (h : Chronicle) (c : Call) (cs : List Call) :
    h.run (c :: cs) = (h.perform c).run cs := rfl

theorem run_append (h : Chronicle) (cs ds : List Call) : h.run (cs ++ ds) = (h.run cs).run ds :=
  List.foldl_append

theorem world_run (h : Chronicle) (cs : List Call) : (h.run cs).world = h.world.run cs := by
  induction cs generalizing h with
  | nil => rfl
  | cons c cs ih => rw [run_cons, ih, world_perform, World.run_cons]

theorem world_ofRun (cs : List Call) : (ofRun cs).world = World.empty.run cs := start.world_run cs

/-! ## What one call can do -/

/-- The latest snapshot of a database and its numbers stay. -/
def Quiet (h h' : Chronicle) (d : DatabaseId) : Prop :=
  (h'.world.database d).engine.latest = (h.world.database d).engine.latest ∧
    h'.committed d = h.committed d

/-- A session publishes its batch, and with it its numbers. -/
def Publishes (h h' : Chronicle) (s : SessionId) (x : Session) (b : Batch) : Prop :=
  h.world.session? s = some x ∧ x.batch = some b ∧
    (h'.world.database x.database).engine.latest = b.published ∧
    h'.committed x.database = update (h.committed x.database) b.pending (h.drafted s)

/-- What a call can do to a session and its numbers. -/
inductive Turn (h h' : Chronicle) (s : SessionId) (x x' : Session) : Prop
  /-- The session and its numbers stay, whatever another one does. -/
  | still (hs : x'.snapshot = x.snapshot) (hb : x'.batch = x.batch)
    (hn : h'.drafted s = h.drafted s)
    (hd : Quiet h h' x.database ∨
      ∃ s₀ x₀ b, x₀.database = x.database ∧ Publishes h h' s₀ x₀ b)
  | enter (hs : x'.snapshot = (h.world.database x.database).engine.latest)
    (hb : x.batch = none)
    (hb' : x'.batch = some (.start (h.world.database x.database).engine.latest))
    (hn : h'.drafted s =
      h.committed x.database (h.world.database x.database).engine.latest.generation)
    (hd : Quiet h h' x.database)
  | write (b : Batch) (e : Edit) (hs : x'.snapshot = x.snapshot) (hb : x.batch = some b)
    (hb' : x'.batch = some (e.apply (h.world.database x.database).schema b))
    (hn : h'.drafted s = written h'.calls b.view
      (e.apply (h.world.database x.database).schema b).view (h.drafted s))
    (hd : Quiet h h' x.database)
  | publish (b : Batch) (hs : x'.snapshot = b.published) (hb' : x'.batch = none)
    (hd : Publishes h h' s x b)
  | drop (hs : x'.snapshot = x.snapshot) (hb' : x'.batch = none) (hd : Quiet h h' x.database)
    (hf : x.batch.isSome = true → (h'.world.database x.database).engine.busy = false)
  | forward (hs : x'.snapshot = (h.world.database x.database).engine.latest)
    (hb : x.batch = none) (hb' : x'.batch = none) (hd : Quiet h h' x.database)

section

variable {h : Chronicle} {s : SessionId} {x : Session} {m : Move}

theorem quiet_moved (ho : h.world.Orderly) (hx : h.world.session? s = some x) (n : Nat)
    {d : DatabaseId} (hm : m ≠ .publish ∨ d ≠ x.database) : Quiet h (h.moved n s x m) d := by
  have hcommitted : (h.moved n s x m).committed d = h.committed d := by
    unfold moved
    split
    · rfl
    · rfl
    · rcases hm with hm | hd
      · exact absurd rfl hm
      · exact Function.update_of_ne hd _ _
    · rfl
  refine ⟨?_, hcommitted⟩
  rw [world_moved]
  by_cases hd : d = x.database
  · subst hd
    rw [World.engine_move_self hx (ho.placed s x hx)]
    rcases m.latest_engine x (h.world.database x.database).engine with hl | ⟨rfl, -⟩
    · exact hl
    · rcases hm with hm | hd
      · exact absurd rfl hm
      · exact absurd rfl hd
  · rw [World.engine_move_of_ne hx hd]

theorem publishes_moved (ho : h.world.Orderly) (hx : h.world.session? s = some x) (n : Nat)
    {b : Batch} (hb : x.batch = some b) : Publishes h (h.moved n s x .publish) s x b := by
  refine ⟨hx, hb, ?_, ?_⟩
  · rw [world_moved, World.engine_move_self hx (ho.placed s x hx)]
    simp only [Move.engine, hb]
  · simp only [moved, hb, Function.update_self]

theorem drafted_moved_of_ne (n : Nat) {s' : SessionId} (hs : s' ≠ s) :
    (h.moved n s x m).drafted s' = h.drafted s' := by
  unfold moved
  split
  · exact Function.update_of_ne hs _ _
  · exact Function.update_of_ne hs _ _
  · rfl
  · rfl

theorem turn_moved_self (ho : h.world.Orderly) (hx : h.world.session? s = some x)
    (hm : m.Enabled x (h.world.database x.database).engine) {x' : Session}
    (hx' : x' = m.session (h.world.database x.database).schema
      (h.world.database x.database).engine.latest x) :
    Turn h (h.moved (h.calls + 1) s x m) s x x' := by
  subst hx'
  have hquiet (hne : m ≠ .publish) : Quiet h (h.moved (h.calls + 1) s x m) x.database :=
    quiet_moved ho hx _ (.inl hne)
  cases m with
  | enter =>
    -- the lock is free, so the session is in no write
    have hnone : x.batch = none := by
      cases hb : x.batch with
      | none => rfl
      | some b =>
        have hbusy := ((ho.fits s x hx).held b hb).1
        rw [show (h.world.database x.database).engine.busy = false from hm] at hbusy
        cases hbusy
    exact .enter rfl hnone rfl (Function.update_self _ _ _) (hquiet fun hp => by cases hp)
  | write e =>
    obtain ⟨-, hsome⟩ := hm
    obtain ⟨b, hb⟩ := Option.isSome_iff_exists.mp hsome
    refine .write b e rfl hb ?_ ?_ (hquiet fun hp => by cases hp)
    · simp only [Move.session, hb, Option.map_some]
    · simp only [moved, hb, Function.update_self]
  | publish =>
    obtain ⟨-, b, hb, -⟩ := hm
    refine .publish b ?_ ?_ (publishes_moved ho hx _ hb)
    · simp only [Move.session, hb, World.moveTo]
    · simp only [Move.session, hb, World.moveTo]
  | drop =>
    refine .drop rfl rfl (hquiet fun hp => by cases hp) fun hb => ?_
    rw [world_moved, World.engine_move_self hx (ho.placed s x hx)]
    simp only [Move.engine, hb, if_true, Engine.abandon]
  | close =>
    refine .drop rfl rfl (hquiet fun hp => by cases hp) fun hb => ?_
    rw [world_moved, World.engine_move_self hx (ho.placed s x hx)]
    simp only [Move.engine, hb, if_true, Engine.abandon]
  | forward => exact .forward rfl hm.2.1 hm.2.1 (hquiet fun hp => by cases hp)
  | _ => exact .still rfl rfl rfl (.inl (hquiet fun hp => by cases hp))

end

theorem perform_cases (h : Chronicle) (c : Call) :
    (∃ s m x, c.effect h.world = .move s m ∧ h.world.session? s = some x ∧
      h.perform c = h.moved (h.calls + 1) s x m) ∨
    (∀ d, Quiet h (h.perform c) d) ∧ (h.perform c).drafted = h.drafted ∧
      ∀ s x', (h.perform c).world.session? s = some x' → h.world.session? s = some x' ∨
        h.world.session? s = none ∧ x'.batch = none ∧
          x'.snapshot = (h.world.database x'.database).engine.latest := by
  rw [perform]
  cases he : c.effect h.world with
  | none => exact .inr ⟨fun d => ⟨rfl, rfl⟩, rfl, fun s x' hx' => .inl hx'⟩
  | database schema announces =>
    refine .inr ⟨fun d => ⟨?_, rfl⟩, rfl, fun s x' hx' => .inl ?_⟩
    · exact congrArg Engine.latest (h.world.engine_openDatabase schema announces d)
    · exact (h.world.session?_openDatabase schema announces s).symm.trans hx'
  | session t d =>
    refine .inr ⟨fun d' => ⟨?_, rfl⟩, rfl, fun s x' hx' => ?_⟩
    · simp only [World.database, World.databases_openSession]
    · rcases World.session?_openSession_cases hx' with hx | ⟨hnone, -, rfl⟩
      · exact .inl hx
      · exact .inr ⟨hnone, rfl, rfl⟩
  | move s m =>
    cases hx : h.world.session? s with
    | none =>
      simp only [hx]
      exact .inr ⟨fun d => ⟨rfl, rfl⟩, trivial, fun s x' hx' => .inl hx'⟩
    | some x => exact .inl ⟨s, m, x, rfl, hx, by simp only [hx]⟩

/-- Every session after a call was there before and made a turn, or was just opened at
the latest snapshot. -/
theorem turn_perform {h : Chronicle} (ho : h.world.Orderly) (c : Call) {s : SessionId}
    {x' : Session} (hx' : (h.perform c).world.session? s = some x') :
    (∃ x, h.world.session? s = some x ∧ x.database = x'.database ∧
      (x.closed = true → x'.closed = true) ∧ Turn h (h.perform c) s x x') ∨
    h.world.session? s = none ∧ x'.batch = none ∧
      x'.snapshot = (h.world.database x'.database).engine.latest ∧
      Quiet h (h.perform c) x'.database := by
  rcases h.perform_cases c with ⟨s₀, m, x₀, he, hx₀, hp⟩ | ⟨hquiet, hdrafted, hsessions⟩
  · have hm := Call.enabled_of_effect he hx₀
    rw [hp] at hx' ⊢
    rw [world_moved] at hx'
    refine .inl ?_
    rcases World.session?_move_cases hx₀ hx' with ⟨rfl, hself⟩ | ⟨hs, hx⟩
    · refine ⟨x₀, hx₀, ?_, ?_, turn_moved_self ho hx₀ hm hself⟩
      · rw [hself, Move.database_session]
      · rw [hself]
        exact Move.closed_session m
    -- another session moves; if it publishes in this database, the latest numbers change
    · refine ⟨x', hx, rfl, id, .still rfl rfl (drafted_moved_of_ne _ hs) ?_⟩
      by_cases hpublish : m = .publish ∧ x'.database = x₀.database
      · obtain ⟨rfl, hd⟩ := hpublish
        obtain ⟨-, b, hb, -⟩ := hm
        exact .inr ⟨s₀, x₀, b, hd.symm, publishes_moved ho hx₀ _ hb⟩
      · rw [not_and_or] at hpublish
        exact .inl (quiet_moved ho hx₀ _ hpublish)
  · rcases hsessions s x' hx' with hx | ⟨hnone, hb, hs⟩
    · refine .inl ⟨x', hx, rfl, id, .still rfl rfl ?_ (.inl (hquiet _))⟩
      rw [hdrafted]
    · exact .inr ⟨hnone, hb, hs, hquiet _⟩

theorem database_perform {h : Chronicle} (ho : h.world.Orderly) (c : Call) (d : DatabaseId) :
    Quiet h (h.perform c) d ∨
      ∃ s x b, x.database = d ∧ Publishes h (h.perform c) s x b := by
  rcases h.perform_cases c with ⟨s, m, x, he, hx, hp⟩ | ⟨hquiet, -⟩
  · have hm := Call.enabled_of_effect he hx
    rw [hp]
    by_cases hpublish : m = .publish ∧ d = x.database
    · obtain ⟨rfl, rfl⟩ := hpublish
      obtain ⟨-, b, hb, -⟩ := hm
      exact .inr ⟨s, x, b, rfl, publishes_moved ho hx _ hb⟩
    · rw [not_and_or] at hpublish
      exact .inl (quiet_moved ho hx _ hpublish)
  · exact .inl (hquiet d)

/-! ## The numbers agree -/

/-- The numbers of a snapshot and of a batch agree with those of the latest snapshot for
all keys that were handed out when the session moved to its snapshot, and all numbers
are of calls that were made. -/
structure Sound (h : Chronicle) : Prop where
  orderly : h.world.Orderly
  latest_le : ∀ d key,
    h.committed d (h.world.database d).engine.latest.generation key ≤ h.calls
  snapshot_le : ∀ s x, h.world.session? s = some x → ∀ key,
    h.committed x.database x.snapshot.generation key ≤ h.calls
  number_le : ∀ s x, h.world.session? s = some x → ∀ key, h.number s x key ≤ h.calls
  snapshot_eq : ∀ s x, h.world.session? s = some x → ∀ key : ObjectKey,
    key.val ≤ x.snapshot.nextKey → h.committed x.database x.snapshot.generation key =
      h.committed x.database (h.world.database x.database).engine.latest.generation key
  number_eq : ∀ s x, h.world.session? s = some x → ∀ key : ObjectKey,
    key.val ≤ x.snapshot.nextKey → h.number s x key =
      h.committed x.database (h.world.database x.database).engine.latest.generation key

section

variable {h h' : Chronicle} {s : SessionId} {x : Session} {b : Batch}

theorem number_of_batch (hb : x.batch = some b) (key : ObjectKey) :
    h.number s x key = h.drafted s key := by
  simp only [number, hb]

theorem number_of_none (hb : x.batch = none) (key : ObjectKey) :
    h.number s x key = h.committed x.database x.snapshot.generation key := by
  simp only [number, hb]

theorem sound_start : start.Sound := by
  refine ⟨World.orderly_empty, fun d key => Nat.le_refl _, ?_, ?_, ?_, ?_⟩ <;>
  · intro s x hx
    cases hx

theorem written_of_le {n : Nat} {schema : Schema} {e : Edit} {made : ObjectKey → Nat}
    (hb : b.view.Keyed) {key : ObjectKey} (hk : key.val ≤ b.view.nextKey) :
    written n b.view (e.apply schema b).view made key = made key := by
  unfold written
  cases hold : b.view.contains key with
  | true => simp only [Bool.not_true, Bool.and_false, Bool.false_eq_true, if_false]
  | false =>
    have hnew : (e.apply schema b).view.contains key = false := by
      refine Bool.eq_false_iff.mpr fun hcontains => ?_
      obtain ⟨x', hx'⟩ := Snapshot.contains_iff.mp hcontains
      obtain ⟨y, hy, -⟩ := ((e.apply_steps schema b).continues hb).earlier hk hx'
      rw [Snapshot.contains_iff.mpr ⟨y, hy⟩] at hold
      cases hold
    simp only [hnew, Bool.false_and, Bool.false_eq_true, if_false]

theorem Publishes.pending_eq (ho : h.world.Orderly) (hp : Publishes h h' s x b) :
    b.pending = (h.world.database x.database).engine.latest.generation + 1 := by
  obtain ⟨hx, hb, -, -⟩ := hp
  rw [← ((ho.fits s x hx).held b hb).2.2.base_start]
  rfl

theorem Publishes.committed_of_le (ho : h.world.Orderly) (hp : Publishes h h' s x b)
    {g : Generation} (hg : g ≤ (h.world.database x.database).engine.latest.generation) :
    h'.committed x.database g = h.committed x.database g := by
  have hne : g ≠ b.pending := by
    rw [hp.pending_eq ho]
    exact Nat.ne_of_lt (Nat.lt_succ_of_le hg)
  rw [hp.2.2.2]
  exact Function.update_of_ne hne _ _

theorem Publishes.committed_latest (hp : Publishes h h' s x b) :
    h'.committed x.database (h'.world.database x.database).engine.latest.generation =
      h.drafted s := by
  rw [hp.2.2.2, hp.2.2.1]
  exact Function.update_self _ _ _

/-- What is known of the numbers of a session. -/
def SoundAt (h : Chronicle) (n : Nat) (s : SessionId) (x : Session) (key : ObjectKey) : Prop :=
  let latest := h.committed x.database (h.world.database x.database).engine.latest.generation key
  h.committed x.database x.snapshot.generation key ≤ n ∧ h.number s x key ≤ n ∧
    (key.val ≤ x.snapshot.nextKey →
      h.committed x.database x.snapshot.generation key = latest ∧ h.number s x key = latest)

theorem Sound.at (hs : h.Sound) (hx : h.world.session? s = some x) (key : ObjectKey) :
    h.SoundAt h.calls s x key :=
  ⟨hs.snapshot_le s x hx key, hs.number_le s x hx key,
    fun hk => ⟨hs.snapshot_eq s x hx key hk, hs.number_eq s x hx key hk⟩⟩

theorem soundAt_latest {n : Nat} {key : ObjectKey} (hb : x.batch = none)
    (hl : x.snapshot = (h.world.database x.database).engine.latest)
    (hn : h.committed x.database (h.world.database x.database).engine.latest.generation key ≤ n) :
    h.SoundAt n s x key := by
  rw [SoundAt, number_of_none hb, hl]
  exact ⟨hn, hn, fun _ => ⟨rfl, rfl⟩⟩

theorem numbers_still (ho : h.world.Orderly) (hx : h.world.session? s = some x) {x' : Session}
    (hd : x.database = x'.database) (hsn : x'.snapshot = x.snapshot) (hb : x'.batch = x.batch)
    (hn : h'.drafted s = h.drafted s)
    (hq : Quiet h h' x.database ∨
      ∃ s₀ x₀ b, x₀.database = x.database ∧ Publishes h h' s₀ x₀ b)
    (key : ObjectKey) :
    h'.committed x.database x.snapshot.generation key =
        h.committed x.database x.snapshot.generation key ∧
      h'.number s x' key = h.number s x key := by
  have hcommitted : h'.committed x.database x.snapshot.generation =
      h.committed x.database x.snapshot.generation := by
    rcases hq with ⟨-, hc⟩ | ⟨s₀, x₀, b, hd₀, hp⟩
    · rw [hc]
    · rw [← hd₀]
      refine hp.committed_of_le ho ?_
      rw [hd₀]
      exact (ho.fits s x hx).precedes.generation_le
  refine ⟨by rw [hcommitted], ?_⟩
  cases hxb : x.batch with
  | some b => rw [number_of_batch hxb, number_of_batch (hb.trans hxb), hn]
  | none =>
    rw [number_of_none hxb, number_of_none (hb.trans hxb), ← hd, hsn, hcommitted]

theorem soundAt_turn (hs : h.Sound) (hcalls : h'.calls = h.calls + 1)
    (hx : h.world.session? s = some x) {x' : Session} (hd : x.database = x'.database)
    (ht : Turn h h' s x x') (key : ObjectKey) : h'.SoundAt h'.calls s x' key := by
  have ho := hs.orderly
  obtain ⟨hsnapshot, hnumber, hagree⟩ := hs.at hx key
  have hfits := ho.fits s x hx
  rw [SoundAt, ← hd, hcalls]
  cases ht with
  | still hsn hb hn hq =>
    obtain ⟨hcommitted, hnum⟩ := numbers_still ho hx hd hsn hb hn hq key
    rw [hsn, hcommitted, hnum]
    refine ⟨Nat.le_succ_of_le hsnapshot, Nat.le_succ_of_le hnumber, fun hk => ?_⟩
    -- a batch that is published has the numbers of the snapshot it started from
    have hlatest : h'.committed x.database
        (h'.world.database x.database).engine.latest.generation key =
          h.committed x.database (h.world.database x.database).engine.latest.generation key := by
      rcases hq with ⟨hl, hc⟩ | ⟨s₀, x₀, b, hd₀, hp⟩
      · rw [hl, hc]
      · rw [← hd₀, hp.committed_latest, ← number_of_batch hp.2.1]
        refine hs.number_eq s₀ x₀ hp.1 key ?_
        rw [((ho.fits s₀ x₀ hp.1).held b hp.2.1).2.1, hd₀]
        exact Nat.le_trans hk hfits.precedes.continues.nextKey_le
    rw [hlatest]
    exact hagree hk
  | enter hsn hb hb' hn hq =>
    rw [number_of_batch hb', hn, hsn, hq.1, hq.2]
    exact ⟨Nat.le_succ_of_le (hs.latest_le _ key), Nat.le_succ_of_le (hs.latest_le _ key),
      fun _ => ⟨rfl, rfl⟩⟩
  | write b e hsn hb hb' hn hq =>
    -- only a key that was not handed out before gets the number of this call
    rw [number_of_batch hb', hn, hsn, hq.1, hq.2, hcalls]
    rw [number_of_batch hb] at hnumber hagree
    refine ⟨Nat.le_succ_of_le hsnapshot, ?_, fun hk => ?_⟩
    · unfold written
      split
      · exact Nat.le_refl _
      · exact Nat.le_succ_of_le hnumber
    · obtain ⟨-, hlatest, hsteps⟩ := hfits.held b hb
      have hkeyed := ho.keyed x.database
      have hk' : key.val ≤ b.view.nextKey := by
        rw [hlatest] at hk
        exact Nat.le_trans hk (hsteps.nextKey_le hkeyed)
      rw [written_of_le (hsteps.keyed hkeyed) hk']
      exact hagree hk
  | publish b hsn hb' hp =>
    have hall : h'.committed x.database x'.snapshot.generation key = h.drafted s key := by
      rw [hsn, ← hp.2.2.1, hp.committed_latest]
    rw [number_of_none hb', ← hd, hall, hp.committed_latest]
    rw [number_of_batch hp.2.1] at hnumber
    exact ⟨Nat.le_succ_of_le hnumber, Nat.le_succ_of_le hnumber, fun _ => ⟨rfl, rfl⟩⟩
  | drop hsn hb' hq _ =>
    rw [number_of_none hb', ← hd, hsn, hq.1, hq.2]
    exact ⟨Nat.le_succ_of_le hsnapshot, Nat.le_succ_of_le hsnapshot,
      fun hk => ⟨(hagree hk).1, (hagree hk).1⟩⟩
  | forward hsn hb hb' hq =>
    rw [number_of_none hb', ← hd, hsn, hq.1, hq.2]
    exact ⟨Nat.le_succ_of_le (hs.latest_le _ key), Nat.le_succ_of_le (hs.latest_le _ key),
      fun _ => ⟨rfl, rfl⟩⟩

theorem sound_perform (hs : h.Sound) (c : Call) : (h.perform c).Sound := by
  have ho := hs.orderly
  have hcalls := h.calls_perform c
  have hsession (s : SessionId) (x' : Session)
      (hx' : (h.perform c).world.session? s = some x') (key : ObjectKey) :
      (h.perform c).SoundAt (h.perform c).calls s x' key := by
    rcases turn_perform ho c hx' with ⟨x, hx, hd, -, ht⟩ | ⟨-, hb, hl, hq⟩
    · exact soundAt_turn hs hcalls hx hd ht key
    · refine soundAt_latest hb (hl.trans hq.1.symm) ?_
      rw [hq.1, hq.2, hcalls]
      exact Nat.le_succ_of_le (hs.latest_le _ key)
  refine ⟨?_, fun d key => ?_, fun s x' hx' key => (hsession s x' hx' key).1,
    fun s x' hx' key => (hsession s x' hx' key).2.1,
    fun s x' hx' key hk => ((hsession s x' hx' key).2.2 hk).1,
    fun s x' hx' key hk => ((hsession s x' hx' key).2.2 hk).2⟩
  · rw [world_perform]
    exact World.orderly_perform ho c
  · rw [hcalls]
    refine Nat.le_succ_of_le ?_
    rcases database_perform ho c d with ⟨hl, hn⟩ | ⟨s, x, b, rfl, hp⟩
    · rw [hl, hn]
      exact hs.latest_le d key
    · rw [hp.committed_latest, ← number_of_batch hp.2.1]
      exact hs.number_le s x hp.1 key

theorem Sound.run (hs : h.Sound) (cs : List Call) : (h.run cs).Sound := by
  induction cs generalizing h with
  | nil => exact hs
  | cons c cs ih => exact ih (sound_perform hs c)

/-- The numbers are sound after any calls. -/
theorem sound_run (cs : List Call) : (ofRun cs).Sound := sound_start.run cs

end

end Chronicle

end ObjectStore
