import ObjectStore.Proofs.Run.Call

/-
  What an effect leaves alone.

  A move touches one session and the engine of its database. Opening a database or
  a session adds one and touches nothing that is there.

    1. `World.session?_move_self` and `World.engine_move_self` are the session and the
       engine after a move; `_of_ne` are the other ones.
    2. `World.engine_openDatabase`: a database that is not there reads as one that has
       just been opened, so opening it changes no engine.
    3. `World.session?_perform_cases` is all that a call can do to one session.
    4. `World.schema_perform`: the schema of a database stays.
    5. `Call.through` is the session through which a call is made; the call moves no other
       one (`Call.through_of_effect`).
-/

namespace ObjectStore

namespace Move

variable {x : Session} {schema : Schema}

theorem database_session {latest : Snapshot} (m : Move) (x : Session) :
    (m.session schema latest x).database = x.database := by
  cases m with
  | publish =>
    simp only [session]
    split <;> rfl
  | _ => rfl

theorem closed_session {latest : Snapshot} (m : Move) (h : x.closed = true) :
    (m.session schema latest x).closed = true := by
  cases m with
  | publish =>
    simp only [session]
    split
    · exact h
    · exact h
  | close => rfl
  | _ => exact h

end Move

namespace World

variable {w : World} {s s' : SessionId} {x : Session} {m : Move} {d : DatabaseId}

/-! ## Moves -/

theorem database_putEngine_self {e : Engine} (hd : d.index < w.databases.length) :
    (w.putEngine d e).database d = { w.database d with engine := e } := by
  simp only [database, putEngine, List.getElem?_modify, if_true]
  rw [List.getElem?_eq_getElem hd]
  rfl

theorem database_putEngine_of_ne {e : Engine} {d' : DatabaseId} (h : d' ≠ d) :
    (w.putEngine d e).database d' = w.database d' := by
  have hi : d.index ≠ d'.index := fun hi => h (by cases d; cases d'; simp_all)
  simp only [database, putEngine, List.getElem?_modify, hi, if_false, id_map']

theorem schema_putEngine (w : World) (d d' : DatabaseId) (e : Engine) :
    ((w.putEngine d e).database d').schema = (w.database d').schema := by
  simp only [database, putEngine, List.getElem?_modify]
  cases w.databases[d'.index]? with
  | none => rfl
  | some y =>
    simp only [Option.map_eq_map, Option.map_some, Option.getD_some]
    split <;> rfl

theorem move_of_session? (hx : w.session? s = some x) :
    w.move s m =
      (w.putEngine x.database (m.engine x (w.database x.database).engine)).putSession s
        (m.session (w.database x.database).schema (w.database x.database).engine.latest x) := by
  simp only [move, hx]

theorem move_of_none (hx : w.session? s = none) : w.move s m = w := by
  simp only [move, hx]

theorem session?_move_self (hx : w.session? s = some x) :
    (w.move s m).session? s = some
      (m.session (w.database x.database).schema (w.database x.database).engine.latest x) := by
  have hs : s.index < w.sessions.length := (List.getElem?_eq_some_iff.mp hx).1
  rw [move_of_session? hx]
  simp only [session?, putSession, putEngine, List.getElem?_set, if_true, hs]

theorem session?_move_of_ne (h : s' ≠ s) : (w.move s m).session? s' = w.session? s' := by
  have hi : s.index ≠ s'.index := fun hi => h (by cases s; cases s'; simp_all)
  unfold move
  cases w.session? s with
  | none => rfl
  | some x => simp only [session?, putSession, putEngine, List.getElem?_set, hi, if_false]

theorem session?_move_cases {y : Session} (hx : w.session? s = some x)
    (hy : (w.move s m).session? s' = some y) :
    s' = s ∧ y = m.session (w.database x.database).schema
        (w.database x.database).engine.latest x ∨
      s' ≠ s ∧ w.session? s' = some y := by
  by_cases hs : s' = s
  · subst hs
    exact .inl ⟨rfl, Option.some.inj (hy.symm.trans (session?_move_self hx))⟩
  · rw [session?_move_of_ne hs] at hy
    exact .inr ⟨hs, hy⟩

/-- The engine after the move of a session of its database. -/
theorem engine_move_self (hx : w.session? s = some x)
    (hd : x.database.index < w.databases.length) :
    ((w.move s m).database x.database).engine = m.engine x (w.database x.database).engine := by
  rw [move_of_session? hx]
  exact congrArg Database.engine (database_putEngine_self hd)

theorem engine_move_of_ne (hx : w.session? s = some x) (hd : d ≠ x.database) :
    ((w.move s m).database d).engine = (w.database d).engine := by
  rw [move_of_session? hx]
  exact congrArg Database.engine (database_putEngine_of_ne hd)

theorem schema_move (w : World) (s : SessionId) (m : Move) (d : DatabaseId) :
    ((w.move s m).database d).schema = (w.database d).schema := by
  cases hx : w.session? s with
  | none => rw [move_of_none hx]
  | some x =>
    rw [move_of_session? hx]
    exact schema_putEngine w x.database d _

theorem length_databases_move (w : World) (s : SessionId) (m : Move) :
    (w.move s m).databases.length = w.databases.length := by
  unfold move
  cases w.session? s with
  | none => rfl
  | some x => simp only [putSession, putEngine, List.length_modify]

/-! ## Opening -/

theorem openDatabase_cases (w : World) (schema : Schema) (announces : Bool) :
    w.after (.database schema announces) = w ∨ schema.validate = .ok () ∧
      w.after (.database schema announces) =
        { w with databases := w.databases ++ [⟨.empty, schema, announces⟩] } := by
  simp only [after, openDatabase]
  split
  · exact .inl rfl
  · rename_i hs
    exact .inr ⟨hs, rfl⟩

theorem session?_openDatabase (w : World) (schema : Schema) (announces : Bool) (s : SessionId) :
    (w.after (.database schema announces)).session? s = w.session? s := by
  rcases w.openDatabase_cases schema announces with h | ⟨-, h⟩
  · rw [h]
  · rw [h]
    rfl

theorem length_openDatabase (w : World) (schema : Schema) (announces : Bool) :
    w.databases.length ≤ (w.after (.database schema announces)).databases.length := by
  rcases w.openDatabase_cases schema announces with h | ⟨-, h⟩
  · exact Nat.le_of_eq (by rw [h])
  · rw [h, List.length_append]
    exact Nat.le_add_right _ _

/-- A database that is not there reads as one without objects and without a writer,
which is what is opened. -/
theorem engine_openDatabase (w : World) (schema : Schema) (announces : Bool) (d : DatabaseId) :
    ((w.after (.database schema announces)).database d).engine = (w.database d).engine := by
  rcases w.openDatabase_cases schema announces with h | ⟨-, h⟩
  · rw [h]
  · rw [h]
    simp only [database]
    rcases Nat.lt_trichotomy d.index w.databases.length with h | h | h
    · rw [List.getElem?_append_left h]
    · rw [List.getElem?_append_right (Nat.le_of_eq h.symm), h, Nat.sub_self,
        List.getElem?_eq_none (Nat.le_refl _)]
      rfl
    · rw [List.getElem?_eq_none (by simp; omega), List.getElem?_eq_none (Nat.le_of_lt h)]

theorem engine_of_length_le (hd : w.databases.length ≤ d.index) :
    (w.database d).engine = .empty := by
  rw [database, List.getElem?_eq_none hd]
  rfl

theorem schema_openDatabase {schema : Schema} {announces : Bool}
    (hd : d.index < w.databases.length) :
    ((w.after (.database schema announces)).database d).schema = (w.database d).schema := by
  rcases w.openDatabase_cases schema announces with h | ⟨-, h⟩
  · rw [h]
  · rw [h]
    simp only [database]
    rw [List.getElem?_append_left hd]

/-- The schema of a database that is not there is the valid one of a database that has
just been opened, or that of a database that is not there. -/
theorem schema_openDatabase_cases {schema : Schema} {announces : Bool}
    (hd : w.databases.length ≤ d.index) :
    ((w.after (.database schema announces)).database d).schema = (w.database d).schema ∨
      schema.validate = .ok () ∧
        ((w.after (.database schema announces)).database d).schema = schema := by
  rcases w.openDatabase_cases schema announces with h | ⟨hs, h⟩
  · exact .inl (by rw [h])
  · rw [h]
    simp only [database]
    rcases Nat.eq_or_lt_of_le hd with hd | hd
    · refine .inr ⟨hs, ?_⟩
      rw [List.getElem?_append_right (Nat.le_of_eq hd), ← hd, Nat.sub_self]
      rfl
    · refine .inl ?_
      rw [List.getElem?_eq_none (by simp; omega), List.getElem?_eq_none (Nat.le_of_lt hd)]

theorem databases_openSession (w : World) (t : Thread) (d : DatabaseId) :
    (w.after (.session t d)).databases = w.databases := by
  simp only [after, openSession]
  split <;> rfl

theorem session?_openSession {t : Thread} (hx : w.session? s = some x) :
    (w.after (.session t d)).session? s = some x := by
  simp only [after, openSession]
  split
  · rw [session?, List.getElem?_append_left (List.getElem?_eq_some_iff.mp hx).1]
    exact hx
  · exact hx

theorem session?_openSession_cases {t : Thread}
    (hx : (w.after (.session t d)).session? s = some x) :
    w.session? s = some x ∨ w.session? s = none ∧ d.index < w.databases.length ∧
      x = ⟨d, t, (w.database d).engine.latest, none, 1, false,
        .empty (w.database d).announces⟩ := by
  simp only [after, openSession] at hx
  split at hx
  · rename_i hd
    rcases Nat.lt_or_ge s.index w.sessions.length with hs | hs
    · rw [session?, List.getElem?_append_left hs] at hx
      exact .inl hx
    · rw [session?, List.getElem?_append_right hs] at hx
      exact .inr ⟨List.getElem?_eq_none hs, hd, List.mem_singleton.mp (List.mem_of_getElem? hx)⟩
  · exact .inl hx

/-! ## Calls -/

theorem session?_perform_of_some (c : Call) (hx : w.session? s = some x) :
    (∃ m, c.effect w = .move s m ∧ (c.perform w).session? s = some
      (m.session (w.database x.database).schema (w.database x.database).engine.latest x)) ∨
    (c.perform w).session? s = some x ∧ ∀ m, c.effect w ≠ .move s m := by
  rw [Call.perform_eq]
  cases c.effect w with
  | none => exact .inr ⟨hx, fun m hm => by cases hm⟩
  | database schema announces =>
    have hx' := (w.session?_openDatabase schema announces s).trans hx
    exact .inr ⟨hx', fun m hm => by cases hm⟩
  | session t d => exact .inr ⟨session?_openSession hx, fun m hm => by cases hm⟩
  | move s' m =>
    by_cases hs : s = s'
    · subst hs
      exact .inl ⟨m, rfl, session?_move_self hx⟩
    · refine .inr ⟨(session?_move_of_ne hs).trans hx, fun m' hm => ?_⟩
      cases hm
      exact hs rfl

theorem session?_perform_of_none (c : Call) (hx : w.session? s = none) {x' : Session}
    (hx' : (c.perform w).session? s = some x') :
    ∃ t d, x' = ⟨d, t, (w.database d).engine.latest, none, 1, false,
      .empty (w.database d).announces⟩ := by
  rw [Call.perform_eq] at hx'
  cases he : c.effect w with
  | none =>
    rw [he] at hx'
    exact absurd (hx.symm.trans hx') (by simp)
  | database schema announces =>
    rw [he, session?_openDatabase] at hx'
    exact absurd (hx.symm.trans hx') (by simp)
  | session t d =>
    rw [he] at hx'
    rcases session?_openSession_cases hx' with hold | ⟨-, -, hnew⟩
    · exact absurd (hx.symm.trans hold) (by simp)
    · exact ⟨t, d, hnew⟩
  | move s' m =>
    rw [he, after] at hx'
    by_cases hs : s = s'
    · subst hs
      rw [move_of_none hx, hx] at hx'
      cases hx'
    · rw [session?_move_of_ne hs] at hx'
      exact absurd (hx.symm.trans hx') (by simp)

/-- A session after a call has made the move that the call comes down to, is as it was,
or has just been opened. -/
theorem session?_perform_cases (c : Call) {x' : Session}
    (hx' : (c.perform w).session? s = some x') :
    (∃ x m, w.session? s = some x ∧ c.effect w = .move s m ∧
      x' = m.session (w.database x.database).schema (w.database x.database).engine.latest x) ∨
    (w.session? s = some x' ∧ ∀ m, c.effect w ≠ .move s m) ∨
    w.session? s = none ∧ ∃ t d, x' = ⟨d, t, (w.database d).engine.latest, none, 1, false,
      .empty (w.database d).announces⟩ := by
  cases hx : w.session? s with
  | none => exact .inr (.inr ⟨rfl, session?_perform_of_none c hx hx'⟩)
  | some x =>
    rcases session?_perform_of_some c hx with ⟨m, he, hself⟩ | ⟨hsame, hne⟩
    · exact .inl ⟨x, m, rfl, he, Option.some.inj (hx'.symm.trans hself)⟩
    · obtain rfl := Option.some.inj (hx'.symm.trans hsame)
      exact .inr (.inl ⟨rfl, hne⟩)

theorem session?_perform (c : Call) (hx : w.session? s = some x) :
    ∃ x', (c.perform w).session? s = some x' ∧ x'.database = x.database := by
  rcases session?_perform_of_some c hx with ⟨m, -, hself⟩ | ⟨hsame, -⟩
  · exact ⟨_, hself, Move.database_session m x⟩
  · exact ⟨x, hsame, rfl⟩

theorem session?_run (hx : w.session? s = some x) (cs : List Call) :
    ∃ x', (w.run cs).session? s = some x' ∧ x'.database = x.database := by
  induction cs generalizing w x with
  | nil => exact ⟨x, hx, rfl⟩
  | cons c cs ih =>
    obtain ⟨y, hy, hd⟩ := session?_perform c hx
    obtain ⟨x', hx', hd'⟩ := ih hy
    exact ⟨x', hx', hd'.trans hd⟩

/-- The schema of a database that exists stays. -/
theorem schema_perform (c : Call) (hd : d.index < w.databases.length) :
    ((c.perform w).database d).schema = (w.database d).schema := by
  rw [Call.perform_eq]
  cases c.effect w with
  | none => rfl
  | database schema announces => exact schema_openDatabase hd
  | session t d' => rw [database, databases_openSession, database]
  | move s m => exact schema_move w s m d

end World

/-! ## Calls through other sessions -/

/-- The session through which a call is made, if there is one. -/
def Call.through : Call → Option SessionId
  | .openDatabase _ _ | .openSession _ _ => none
  | .begin _ s | .grant s | .commit _ s | .cancel _ s | .leave _ s _ | .refresh _ s
  | .resolve _ s _ | .close s | .create _ s _ _ | .delete _ s _ | .setValue _ s _ _ _
  | .assign _ s _ _ _ | .cancelObserver s _ | .startDelivery _ s | .nextNotice s
  | .finishDelivery s => some s
  | .elements _ (.bound (.live s) _) _ => some s
  | .elements _ _ _ => none
  | .observe _ v =>
    match v.binding with
    | .live s => some s
    | .frozen _ => none

namespace World

variable {w : World} {t : Thread} {s s' : SessionId} {m : Move}

theorem session_of_entering (h : w.entering s = .move s' m) : s = s' := by
  unfold entering at h
  split at h
  · split at h <;> cases h
    rfl
  · cases h

theorem session_of_publishing (h : w.publishing t s = .move s' m) : s = s' := by
  obtain ⟨x, -, -, hm⟩ := of_asked h
  split at hm
  · split at hm <;> cases hm <;> rfl
  · cases hm
    rfl

theorem session_of_forwarding (h : w.forwarding t s = .move s' m) : s = s' := by
  obtain ⟨x, -, -, hm⟩ := of_asked h
  split at hm
  · cases hm
  · split at hm <;> cases hm
    rfl

theorem session_of_collection {key : ObjectKey} {property : String} {c : Container}
    (h : w.collection t s key property = .ok (.bound (.live s') c)) : s = s' := by
  simp only [collection, bind, Except.bind] at h
  split at h
  · cases h
  · split at h
    · cases h
    · cases h
      rfl

theorem session_of_writing {e : Edit} (h : w.writing t s e = .move s' m) : s = s' := by
  obtain ⟨x, -, -, hm⟩ := of_asked h
  split at hm <;> cases hm
  rfl

end World

/-- A call moves the session through which it is made, if it moves any. -/
theorem Call.through_of_effect {w : World} {c : Call} {s : SessionId} {m : Move}
    (h : c.effect w = .move s m) : c.through = some s := by
  cases c with
  | openDatabase schema announces => cases h
  | openSession t d => cases h
  | begin t s' =>
    simp only [effect] at h
    split at h
    · exact congrArg some (World.session_of_entering h)
    · cases h
  | grant s' => exact congrArg some (World.session_of_entering h)
  | commit t s' => exact congrArg some (World.session_of_publishing h)
  | cancel t s' =>
    obtain ⟨x, -, -, hm⟩ := World.of_asked h
    cases hm
    rfl
  | leave t s' outcome =>
    cases outcome with
    | ok u => exact congrArg some (World.session_of_publishing h)
    | error e =>
      simp only [effect] at h
      split at h
      · cases h
      · obtain ⟨x, -, -, hm⟩ := World.of_asked h
        cases hm
        rfl
  | refresh t s' => exact congrArg some (World.session_of_forwarding h)
  | resolve t s' token =>
    simp only [effect] at h
    split at h
    · split at h
      · exact congrArg some (World.session_of_forwarding h)
      · cases h
    · cases h
  | close s' =>
    simp only [effect] at h
    split at h
    · split at h <;> cases h
      rfl
    · cases h
  | create t s' className fields =>
    simp only [effect] at h
    split at h
    · split at h
      · exact congrArg some (World.session_of_writing h)
      · cases h
    · cases h
  | delete t s' key => exact congrArg some (World.session_of_writing h)
  | setValue t s' key property v => exact congrArg some (World.session_of_writing h)
  | elements t handle e =>
    cases handle with
    | unattached kind vs => cases h
    | bound binding c =>
      cases binding with
      | frozen snapshot => cases h
      | live s' => exact congrArg some (World.session_of_writing h)
  | assign t s' key property values =>
    simp only [effect] at h
    split at h
    · rename_i vs s₁ c _ hc
      rw [through, World.session_of_collection hc, World.session_of_writing h]
    · cases h
  | observe t v =>
    simp only [effect] at h
    split at h
    · rename_i s' rows hbinding _
      obtain ⟨x, -, -, hm⟩ := World.of_asked h
      cases hm
      simp only [through, hbinding]
    · cases h
  | cancelObserver s' o =>
    cases h
    rfl
  | startDelivery t s' =>
    obtain ⟨x, -, -, hm⟩ := World.of_asked h
    split at hm <;> cases hm
    rfl
  | nextNotice s' =>
    cases h
    rfl
  | finishDelivery s' =>
    cases h
    rfl

namespace World

variable {w : World} {s : SessionId} {x : Session}

theorem session?_perform_of_through {c : Call} (hc : c.through ≠ some s)
    (hx : w.session? s = some x) : (c.perform w).session? s = some x := by
  rcases session?_perform_of_some c hx with ⟨m, he, -⟩ | ⟨hsame, -⟩
  · exact absurd (Call.through_of_effect he) hc
  · exact hsame

end World

end ObjectStore
