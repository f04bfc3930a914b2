import ObjectStore.Proofs.Run.Frame

/-
  One writer at a time.

  Sessions only ever compare generations, and a commit only checks the generation
  that its batch started from. Both are enough because of an invariant that links
  the lock of a database, the snapshot of every session on it, and every batch
  (`World.Orderly`). Every call keeps it, in whatever order calls come.

    1. `Session.Fits` is how a session stands to the engine of its database: its
       snapshot is the latest one or an earlier one, and a batch that it holds was
       written from the latest one under the lock.
    2. `World.orderly_run`: every run from the empty world is orderly.
    3. `World.latest_run`: the latest snapshot stays, or its generation grows.
-/

namespace ObjectStore

/-! ## The invariant -/

/-- One snapshot is the other one, or an earlier one from which the other one goes on. -/
def Snapshot.Precedes (s s' : Snapshot) : Prop :=
  s = s' ∨ s.generation < s'.generation ∧ s.Continues s'

/-- How a session stands to the engine of its database. -/
structure Session.Fits (x : Session) (e : Engine) : Prop where
  precedes : x.snapshot.Precedes e.latest
  keyed : x.snapshot.Keyed
  held : ∀ b, x.batch = some b →
    e.busy = true ∧ x.snapshot = e.latest ∧ Batch.Steps True (.start e.latest) b

/-- A world in which every session fits its engine, and at most one session of a
database holds a batch. -/
structure World.Orderly (w : World) : Prop where
  keyed : ∀ d, (w.database d).engine.latest.Keyed
  placed : ∀ s x, w.session? s = some x → x.database.index < w.databases.length
  fits : ∀ s x, w.session? s = some x → x.Fits (w.database x.database).engine
  alone : ∀ s s' x x', w.session? s = some x → w.session? s' = some x' →
    x.database = x'.database → x.batch.isSome = true → x'.batch.isSome = true → s = s'

namespace Snapshot

theorem Precedes.refl (s : Snapshot) : s.Precedes s := .inl rfl

theorem Precedes.trans {s s' s'' : Snapshot} (h : s.Precedes s') (h' : s'.Precedes s'') :
    s.Precedes s'' := by
  rcases h with rfl | ⟨hg, hk⟩
  · exact h'
  · rcases h' with rfl | ⟨hg', hk'⟩
    · exact .inr ⟨hg, hk⟩
    · exact .inr ⟨Nat.lt_trans hg hg', hk.trans hk'⟩

theorem Precedes.generation_le {s s' : Snapshot} (h : s.Precedes s') :
    s.generation ≤ s'.generation := by
  rcases h with rfl | ⟨hg, _⟩
  · exact Nat.le_refl _
  · exact Nat.le_of_lt hg

theorem Precedes.continues {s s' : Snapshot} (h : s.Precedes s') : s.Continues s' := by
  rcases h with rfl | ⟨_, hc⟩
  · exact .refl _
  · exact hc

theorem Precedes.eq_of_generation {s s' : Snapshot} (h : s.Precedes s')
    (hg : s.generation = s'.generation) : s = s' := by
  rcases h with rfl | ⟨hlt, _⟩
  · rfl
  · exact absurd hg (Nat.ne_of_lt hlt)

end Snapshot

/-! ## What one move keeps -/

namespace Batch

theorem Steps.base_start {base : Snapshot} {b : Batch} (h : Steps True (.start base) b) :
    b.base = base :=
  h.base_eq

theorem Steps.generation_published {base : Snapshot} {b : Batch}
    (h : Steps True (.start base) b) : base.generation < b.published.generation := by
  change base.generation < b.base.generation + 1
  rw [h.base_start]
  exact Nat.lt_succ_self _

theorem Steps.precedes_published {base : Snapshot} {b : Batch} (h : Steps True (.start base) b)
    (hb : base.Keyed) : base.Precedes b.published := by
  have hcontinues := h.continues hb
  exact .inr ⟨h.generation_published, hcontinues.nextKey_le, hcontinues.origin⟩

theorem Steps.keyed_published {base : Snapshot} {b : Batch} (h : Steps True (.start base) b)
    (hb : base.Keyed) : b.published.Keyed :=
  ⟨(h.keyed hb).ascending, (h.keyed hb).handedOut⟩

end Batch

namespace Move

variable {x y : Session} {e : Engine} {m : Move} {schema : Schema}

theorem latest_engine (m : Move) (x : Session) (e : Engine) :
    (m.engine x e).latest = e.latest ∨
      m = .publish ∧ ∃ b, x.batch = some b ∧ (m.engine x e).latest = b.published := by
  cases m with
  | publish =>
    cases hb : x.batch with
    | none => exact .inl (by simp only [engine, hb])
    | some b => exact .inr ⟨rfl, b, rfl, by simp only [engine, hb]⟩
  | drop => exact .inl (by simp only [engine]; split <;> rfl)
  | close => exact .inl (by simp only [engine]; split <;> rfl)
  | _ => exact .inl rfl

theorem precedes_engine (hx : x.Fits e) (he : e.latest.Keyed) (m : Move) :
    e.latest.Precedes (m.engine x e).latest := by
  rcases m.latest_engine x e with h | ⟨-, b, hb, h⟩
  · rw [h]
    exact .refl _
  · rw [h]
    exact (hx.held b hb).2.2.precedes_published he

theorem keyed_engine (hx : x.Fits e) (he : e.latest.Keyed) (m : Move) :
    (m.engine x e).latest.Keyed := by
  rcases m.latest_engine x e with h | ⟨-, b, hb, h⟩
  · rwa [h]
  · rw [h]
    exact (hx.held b hb).2.2.keyed_published he

/-- A session holds a batch after a move only if it did before, or has just entered
a write. -/
theorem batch_of_session {latest : Snapshot}
    (h : (m.session schema latest x).batch.isSome = true) :
    x.batch.isSome = true ∨ m = .enter := by
  cases m with
  | enter => exact .inr rfl
  | write e =>
    refine .inl ?_
    simpa only [session, Option.isSome_map] using h
  | publish =>
    cases hb : x.batch with
    | none => rw [session, hb] at h; rw [hb] at h; cases h
    | some b => exact .inl rfl
  | drop => cases h
  | close => cases h
  | _ => exact .inl h

theorem fits_self (hx : x.Fits e) (he : e.latest.Keyed) (hm : m.Enabled x e) :
    (m.session schema e.latest x).Fits (m.engine x e) := by
  cases m with
  | enter =>
    refine ⟨.refl _, he, fun b hb => ⟨rfl, rfl, ?_⟩⟩
    cases hb
    exact .refl
  | write ed =>
    refine ⟨hx.precedes, hx.keyed, fun b' hb' => ?_⟩
    obtain ⟨b, hb, rfl⟩ := Option.map_eq_some_iff.mp hb'
    obtain ⟨hbusy, hsnap, hsteps⟩ := hx.held b hb
    exact ⟨hbusy, hsnap, hsteps.trans ((ed.apply_steps schema b).mono fun _ => trivial)⟩
  | publish =>
    -- the batch was written from the latest snapshot, so it comes after every other one
    obtain ⟨-, b, hb, -⟩ := hm
    have hk := (hx.held b hb).2.2.keyed_published he
    simp only [session, engine, hb, World.moveTo]
    exact ⟨.refl _, hk, fun b' hb' => by cases hb'⟩
  | drop =>
    refine ⟨?_, hx.keyed, fun b hb => by cases hb⟩
    simp only [session, engine]
    split <;> exact hx.precedes
  | close =>
    refine ⟨?_, hx.keyed, fun b hb => by cases hb⟩
    simp only [session, engine]
    split <;> exact hx.precedes
  | forward =>
    obtain ⟨-, hb, -⟩ := hm
    refine ⟨.refl _, he, fun b hb' => ?_⟩
    rw [session, World.moveTo, hb] at hb'
    cases hb'
  | _ => exact ⟨hx.precedes, hx.keyed, hx.held⟩

/-- A session of the same database fits the engine after the move of another one,
since not both of them hold a batch. -/
theorem fits_other (hx : x.Fits e) (he : e.latest.Keyed) (hm : m.Enabled x e) (hy : y.Fits e)
    (halone : x.batch.isSome = true → y.batch = none) : y.Fits (m.engine x e) := by
  refine ⟨hy.precedes.trans (precedes_engine hx he m), hy.keyed, fun b hb => ?_⟩
  obtain ⟨hbusy, hsnap, hsteps⟩ := hy.held b hb
  have hnone : x.batch = none := by
    cases hxb : x.batch with
    | none => rfl
    | some c =>
      rw [halone (by rw [hxb]; rfl)] at hb
      cases hb
  -- without a batch of its own, a session can neither take the lock that `y` holds nor
  -- free it
  have hengine : m.engine x e = e := by
    cases m with
    | enter =>
      rw [show e.busy = false from hm] at hbusy
      cases hbusy
    | publish => simp only [engine, hnone]
    | drop => simp only [engine, hnone, Option.isSome_none, Bool.false_eq_true, if_false]
    | close => simp only [engine, hnone, Option.isSome_none, Bool.false_eq_true, if_false]
    | _ => rfl
  rw [hengine]
  exact ⟨hbusy, hsnap, hsteps⟩

end Move

/-! ## What every call keeps -/

namespace World

variable {w : World}

theorem orderly_empty : World.empty.Orderly := by
  refine ⟨fun d => Snapshot.keyed_empty, ?_, ?_, ?_⟩
  · intro s x hx
    cases hx
  · intro s x hx
    cases hx
  · intro s s' x x' hx
    cases hx

theorem orderly_openDatabase (h : w.Orderly) (schema : Schema) (announces : Bool) :
    (w.after (.database schema announces)).Orderly := by
  refine ⟨fun d => ?_, fun s x hx => ?_, fun s x hx => ?_, fun s s' x x' hx hx' => ?_⟩
  · rw [engine_openDatabase]
    exact h.keyed d
  · rw [session?_openDatabase] at hx
    exact Nat.lt_of_lt_of_le (h.placed s x hx) (w.length_openDatabase schema announces)
  · rw [session?_openDatabase] at hx
    rw [engine_openDatabase]
    exact h.fits s x hx
  · rw [session?_openDatabase] at hx hx'
    exact h.alone s s' x x' hx hx'

theorem orderly_openSession (h : w.Orderly) (t : Thread) (d : DatabaseId) :
    (w.after (.session t d)).Orderly := by
  have hdb (d' : DatabaseId) : (w.after (.session t d)).database d' = w.database d' := by
    rw [database, databases_openSession, database]
  refine ⟨fun d' => ?_, fun s x hx => ?_, fun s x hx => ?_, fun s s' x x' hx hx' hd hb hb' => ?_⟩
  · rw [hdb]
    exact h.keyed d'
  · rw [databases_openSession]
    rcases session?_openSession_cases hx with hx | ⟨-, hd, rfl⟩
    · exact h.placed s x hx
    · exact hd
  · rw [hdb]
    rcases session?_openSession_cases hx with hx | ⟨-, -, rfl⟩
    · exact h.fits s x hx
    · exact ⟨.refl _, h.keyed d, fun b hb => by cases hb⟩
  · rcases session?_openSession_cases hx with hx | ⟨-, -, rfl⟩
    · rcases session?_openSession_cases hx' with hx' | ⟨-, -, rfl⟩
      · exact h.alone s s' x x' hx hx' hd hb hb'
      · cases hb'
    · cases hb

/-- A session that moves in an orderly world does so while no other session of its
database holds a batch, or holds none itself. -/
theorem Orderly.alone_of_ne (h : w.Orderly) {s s' : SessionId} {x x' : Session}
    (hx : w.session? s = some x) (hx' : w.session? s' = some x') (hd : x'.database = x.database)
    (hne : s' ≠ s) (hb : x.batch.isSome = true) : x'.batch = none := by
  cases hb' : x'.batch with
  | none => rfl
  | some b => exact absurd (h.alone s' s x' x hx' hx hd (by rw [hb']; rfl) hb) hne

theorem orderly_move (h : w.Orderly) {s : SessionId} {m : Move} {x : Session}
    (hx : w.session? s = some x) (hm : m.Enabled x (w.database x.database).engine) :
    (w.move s m).Orderly := by
  have hplaced := h.placed s x hx
  have hkeyed := h.keyed x.database
  have hfits := h.fits s x hx
  -- the batch of the moving session excludes those of the others, also afterwards
  have halone {s' : SessionId} {y : Session} (hs : s' ≠ s) (hy : w.session? s' = some y)
      (hd : y.database = x.database) (hb : (m.session (w.database x.database).schema
        (w.database x.database).engine.latest x).batch.isSome = true) : y.batch = none := by
    rcases Move.batch_of_session hb with hb | rfl
    · exact h.alone_of_ne hx hy hd hs hb
    · cases hyb : y.batch with
      | none => rfl
      | some b =>
        have hbusy := ((h.fits s' y hy).held b hyb).1
        rw [hd, show (w.database x.database).engine.busy = false from hm] at hbusy
        cases hbusy
  refine ⟨fun d => ?_, fun s' y hy => ?_, fun s' y hy => ?_,
    fun s₁ s₂ y₁ y₂ hy₁ hy₂ hd hb₁ hb₂ => ?_⟩
  · by_cases hd : d = x.database
    · subst hd
      rw [engine_move_self hx hplaced]
      exact Move.keyed_engine hfits hkeyed m
    · rw [engine_move_of_ne hx hd]
      exact h.keyed d
  · rw [length_databases_move]
    rcases session?_move_cases hx hy with ⟨-, rfl⟩ | ⟨-, hy⟩
    · rw [Move.database_session]
      exact hplaced
    · exact h.placed s' y hy
  · rcases session?_move_cases hx hy with ⟨-, rfl⟩ | ⟨hs, hy⟩
    · rw [Move.database_session, engine_move_self hx hplaced]
      exact Move.fits_self hfits hkeyed hm
    · by_cases hd : y.database = x.database
      · rw [hd, engine_move_self hx hplaced]
        refine Move.fits_other hfits hkeyed hm ?_ (h.alone_of_ne hx hy hd hs)
        rw [← hd]
        exact h.fits s' y hy
      · rw [engine_move_of_ne hx hd]
        exact h.fits s' y hy
  -- of two sessions with a batch, one may be the moving one
  · rcases session?_move_cases hx hy₁ with ⟨rfl, rfl⟩ | ⟨hs₁, hw₁⟩
    · rcases session?_move_cases hx hy₂ with ⟨rfl, -⟩ | ⟨hs₂, hw₂⟩
      · rfl
      · rw [Move.database_session] at hd
        rw [halone hs₂ hw₂ hd.symm hb₁] at hb₂
        cases hb₂
    · rcases session?_move_cases hx hy₂ with ⟨rfl, rfl⟩ | ⟨hs₂, hw₂⟩
      · rw [Move.database_session] at hd
        rw [halone hs₁ hw₁ hd hb₂] at hb₁
        cases hb₁
      · exact h.alone s₁ s₂ y₁ y₂ hw₁ hw₂ hd hb₁ hb₂

theorem orderly_perform (h : w.Orderly) (c : Call) : (c.perform w).Orderly := by
  rw [Call.perform_eq]
  cases he : c.effect w with
  | none => exact h
  | database schema announces => exact orderly_openDatabase h schema announces
  | session t d => exact orderly_openSession h t d
  | move s m =>
    cases hx : w.session? s with
    | none => rwa [after, move_of_none hx]
    | some x => exact orderly_move h hx (Call.enabled_of_effect he hx)

theorem Orderly.run (h : w.Orderly) (cs : List Call) : (w.run cs).Orderly := by
  induction cs generalizing w with
  | nil => exact h
  | cons c cs ih => exact ih (orderly_perform h c)

/-- Every world that calls lead to from the empty one is orderly. -/
theorem orderly_run (cs : List Call) : (World.empty.run cs).Orderly := orderly_empty.run cs

theorem schemaOf_run (h : w.Orderly) {s : SessionId} {x : Session} (hx : w.session? s = some x)
    (cs : List Call) : (w.run cs).schemaOf s = w.schemaOf s := by
  induction cs generalizing w x with
  | nil => rfl
  | cons c cs ih =>
    obtain ⟨x', hx', hd⟩ := session?_perform c hx
    rw [run_cons, ih (orderly_perform h c) hx']
    simp only [schemaOf, hx', hx, hd]
    exact schema_perform c (h.placed s x hx)

/-! ## The latest snapshot over time -/

theorem latest_perform (h : w.Orderly) (c : Call) (d : DatabaseId) :
    ((c.perform w).database d).engine.latest = (w.database d).engine.latest ∨
      ∃ s x b, c.effect w = .move s .publish ∧ w.session? s = some x ∧ x.database = d ∧
        x.batch = some b ∧ ((c.perform w).database d).engine.latest = b.published := by
  rw [Call.perform_eq]
  cases he : c.effect w with
  | none => exact .inl rfl
  | database schema announces => exact .inl (by rw [engine_openDatabase])
  | session t d' => exact .inl (by rw [database, databases_openSession, database])
  | move s m =>
    cases hx : w.session? s with
    | none => exact .inl (by rw [after, move_of_none hx])
    | some x =>
      by_cases hd : d = x.database
      · subst hd
        simp only [after]
        rw [engine_move_self hx (h.placed s x hx)]
        rcases m.latest_engine x (w.database x.database).engine with hl | ⟨rfl, b, hb, hl⟩
        · exact .inl hl
        · exact .inr ⟨s, x, b, rfl, hx, rfl, hb, hl⟩
      · exact .inl (by simp only [after]; rw [engine_move_of_ne hx hd])

theorem precedes_perform (h : w.Orderly) (c : Call) (d : DatabaseId) :
    (w.database d).engine.latest.Precedes ((c.perform w).database d).engine.latest := by
  rcases latest_perform h c d with hl | ⟨s, x, b, -, hx, rfl, hb, hl⟩
  · rw [hl]
    exact .refl _
  · rw [hl]
    exact ((h.fits s x hx).held b hb).2.2.precedes_published (h.keyed x.database)

/-- Whatever calls are made, the latest snapshot of a database stays or moves on. -/
theorem latest_run (h : w.Orderly) (cs : List Call) (d : DatabaseId) :
    (w.database d).engine.latest.Precedes ((w.run cs).database d).engine.latest := by
  induction cs generalizing w with
  | nil => exact .refl _
  | cons c cs ih => exact (precedes_perform h c d).trans (ih (orderly_perform h c))

end World

end ObjectStore
