import ObjectStore.Collection.Handover
import ObjectStore.Collection.Reads
import ObjectStore.Collection.Writes
import ObjectStore.Proofs.Run.Edit
import ObjectStore.Session.Delivery
import ObjectStore.Session.Objects

/-
  Runs of the store: calls from any threads, in any order.

  `Call` lists the calls that change anything, with their operands, and
  `Call.perform` makes one. A call that has to wait for the write lock does nothing
  yet and may be made again. Starting a write is one call, or its second half alone
  (`Call.grant`), which the lock grants at any later time. Telling observers is a
  sequence of calls, so whatever an observer does stands between two of them.

  Behind its checks every call comes down to very little: a database or a session is
  opened, or one session makes one of eleven moves (`Move`), which touches this
  session and the engine of its database and nothing else.

    1. `Call.effect` is what a call comes down to in a world.
    2. `Call.perform_eq`: making the call is the same as that effect.
    3. `Move.Enabled` is when a call comes down to a move; `Call.enabled_of_effect`.
    4. `World.write?_eq_run`: a write around an operation that consists of calls is
       the run of its begin, these calls, and its end.
-/

namespace ObjectStore

/-- A call that may change something. -/
inductive Call where
  | openDatabase (schema : Schema) (announces : Bool)
  | openSession (t : Thread) (d : DatabaseId)
  | begin (t : Thread) (s : SessionId)
  | grant (s : SessionId)
  | commit (t : Thread) (s : SessionId)
  | cancel (t : Thread) (s : SessionId)
  | leave (t : Thread) (s : SessionId) (outcome : Except Error Unit)
  | refresh (t : Thread) (s : SessionId)
  | resolve (t : Thread) (s : SessionId) (token : HandoverToken)
  | close (s : SessionId)
  | create (t : Thread) (s : SessionId) (className : String) (fields : List (String × Value))
  | delete (t : Thread) (s : SessionId) (key : ObjectKey)
  | setValue (t : Thread) (s : SessionId) (key : ObjectKey) (property : String) (v : Value)
  | elements (t : Thread) (c : Collection) (e : ElementEdit)
  | assign (t : Thread) (s : SessionId) (key : ObjectKey) (property : String)
      (values : Collection)
  | observe (t : Thread) (v : Results)
  | cancelObserver (s : SessionId) (o : ObserverId)
  | startDelivery (t : Thread) (s : SessionId)
  | nextNotice (s : SessionId)
  | finishDelivery (s : SessionId)

/-- The world after a write through a handle on a list or set. -/
def ElementEdit.perform (w : World) (t : Thread) (c : Collection) : ElementEdit → World
  | .append v => (c.append w t v).2
  | .insert i v => (c.insert w t i v).2
  | .remove i => (c.remove w t i).2
  | .removeValue v => (c.removeValue w t v).2
  | .replace i v => (c.replace w t i v).2
  | .clear => (c.clear w t).2
  | .deleteObjects => (c.deleteObjects w t).2

/-- The world after a call. A session is opened on a database that exists; a call
that has to wait has not done anything. -/
def Call.perform (w : World) : Call → World
  | .openDatabase schema announces => (w.openDatabase schema announces).2
  | .openSession t d => if d.index < w.databases.length then (w.openSession t d).2 else w
  | .begin t s => ((w.begin? t s).map (·.2)).getD w
  | .grant s => (w.install s).getD w
  | .commit t s => (w.commit t s).2
  | .cancel t s => (w.cancel t s).2
  | .leave t s outcome => (w.leave t s outcome).2
  | .refresh t s => (w.refresh t s).2
  | .resolve t s token => (w.resolve t s token).2
  | .close s => w.close s
  | .create t s className fields => (w.create t s className fields).2
  | .delete t s key => (w.delete t s key).2
  | .setValue t s key property v => (w.setValue t s key property v).2
  | .elements t c e => e.perform w t c
  | .assign t s key property values => (w.assign t s key property values).2
  | .observe t v => (v.observe w t).2.2
  | .cancelObserver s o => w.cancelObserver s o
  | .startDelivery t s => (w.startDelivery t s).2
  | .nextNotice s => (w.nextNotice s).2
  | .finishDelivery s => w.finishDelivery s

/-- The world after calls, one after the other. -/
def World.run (w : World) (cs : List Call) : World := cs.foldl Call.perform w

@[simp] theorem World.run_nil (w : World) : w.run [] = w := rfl

@[simp] theorem World.run_cons (w : World) (c : Call) (cs : List Call) :
    w.run (c :: cs) = (c.perform w).run cs := rfl

theorem World.run_append (w : World) (cs ds : List Call) :
    w.run (cs ++ ds) = (w.run cs).run ds :=
  List.foldl_append

theorem World.run_snoc (w : World) (cs : List Call) (c : Call) :
    w.run (cs ++ [c]) = c.perform (w.run cs) := by
  rw [run_append]
  rfl

/-- What each call of a run yields, from the world in which it is made. -/
def World.along {α : Type} (f : World → Call → List α) (w : World) : List Call → List α
  | [] => []
  | c :: cs => f w c ++ (c.perform w).along f cs

theorem World.along_append {α : Type} (f : World → Call → List α) (w : World)
    (cs ds : List Call) : w.along f (cs ++ ds) = w.along f cs ++ (w.run cs).along f ds := by
  induction cs generalizing w with
  | nil => rfl
  | cons c cs ih => simp only [List.cons_append, along, ih, run_cons, List.append_assoc]

theorem World.along_snoc {α : Type} (f : World → Call → List α) (w : World) (cs : List Call)
    (c : Call) : w.along f (cs ++ [c]) = w.along f cs ++ f (w.run cs) c := by
  rw [along_append]
  simp only [along, List.append_nil]

/-! ## What a call comes down to -/

/-- What a call can do to one session and to the engine of its database. -/
inductive Move where
  | enter
  | write (e : Edit)
  | publish
  | drop
  | forward
  | close
  | subscribe (r : Recipe)
  | unsubscribe (o : ObserverId)
  | startDelivery
  | takeNotice
  | endDelivery

/-- The session after a move, given the schema and the latest snapshot of its
database. -/
def Move.session (schema : Schema) (latest : Snapshot) (x : Session) : Move → Session
  | .enter =>
    { x with
      snapshot := latest, batch := some (.start latest), version := x.version + 1
      feed :=
        if latest.generation ≠ x.snapshot.generation then x.feed.advance latest else x.feed }
  | .write e =>
    { x with batch := x.batch.map fun b => e.apply schema b, version := x.version + 1 }
  | .publish =>
    match x.batch with
    | some b => World.moveTo { x with batch := none, version := x.version + 1 } b.published
    | none => x
  | .drop => { x with batch := none, version := x.version + 1 }
  | .forward => World.moveTo x latest
  | .close => { x with closed := true, batch := none, feed := x.feed.clear }
  | .subscribe r =>
    { x with feed := (x.feed.register r (r.rowsOrNone x.snapshot) x.snapshot.generation).2 }
  | .unsubscribe o => { x with feed := x.feed.cancel o }
  | .startDelivery => { x with feed := { x.feed with delivering := true } }
  | .takeNotice => { x with feed := x.feed.next.2 }
  | .endDelivery => { x with feed := x.feed.finish }

/-- The engine after a move of a session. -/
def Move.engine (x : Session) (e : Engine) : Move → Engine
  | .enter => { e with busy := true }
  | .publish =>
    match x.batch with
    | some b => ⟨b.published, false⟩
    | none => e
  | .drop | .close => if x.batch.isSome then e.abandon else e
  | _ => e

/-- When a call comes down to a move. Entering needs the lock alone: while it was
waited for, the session may have been closed. -/
def Move.Enabled (x : Session) (e : Engine) : Move → Prop
  | .enter => e.busy = false
  | .write _ => x.closed = false ∧ x.batch.isSome = true
  | .publish =>
    x.closed = false ∧ ∃ b, x.batch = some b ∧ b.base.generation = e.latest.generation
  | .forward =>
    x.closed = false ∧ x.batch = none ∧ e.latest.generation ≠ x.snapshot.generation
  | .drop | .close | .subscribe _ => x.closed = false
  | .startDelivery => x.closed = false ∧ x.feed.delivering = false
  | .unsubscribe _ | .takeNotice | .endDelivery => True

/-- What a call comes down to. -/
inductive Effect where
  | none
  | database (schema : Schema) (announces : Bool)
  | session (t : Thread) (d : DatabaseId)
  | move (s : SessionId) (m : Move)

namespace World

/-- The world after a move of a session. -/
def move (w : World) (s : SessionId) (m : Move) : World :=
  match w.session? s with
  | none => w
  | some x =>
    let db := w.database x.database
    (w.putEngine x.database (m.engine x db.engine)).putSession s
      (m.session db.schema db.engine.latest x)

def after (w : World) : Effect → World
  | .none => w
  | .database schema announces => (w.openDatabase schema announces).2
  | .session t d => if d.index < w.databases.length then (w.openSession t d).2 else w
  | .move s m => w.move s m

/-- The effect of something that a session's own thread asks for. -/
def asked (w : World) (t : Thread) (s : SessionId) (f : Session → Effect) : Effect :=
  match w.gate t s with
  | .ok x => f x
  | .error _ => .none

/-- Entering a write, if the lock is free. -/
def entering (w : World) (s : SessionId) : Effect :=
  match w.session? s with
  | some x => if (w.database x.database).engine.busy then .none else .move s .enter
  | none => .none

/-- Publishing a batch that starts from the latest snapshot; any other is dropped. -/
def publishing (w : World) (t : Thread) (s : SessionId) : Effect :=
  w.asked t s fun x =>
    match x.batch with
    | some b =>
      if b.base.generation = (w.database x.database).engine.latest.generation then
        .move s .publish
      else .move s .drop
    | none => .move s .drop

/-- Moving forward outside a write, if there is anything to move to. -/
def forwarding (w : World) (t : Thread) (s : SessionId) : Effect :=
  w.asked t s fun x =>
    if x.batch.isSome then .none
    else if (w.database x.database).engine.latest.generation = x.snapshot.generation then .none
    else .move s .forward

def writing (w : World) (t : Thread) (s : SessionId) (e : Edit) : Effect :=
  w.asked t s fun x => if x.batch.isSome then .move s (.write e) else .none

end World

/-- What a call comes down to in a world. -/
def Call.effect (w : World) : Call → Effect
  | .openDatabase schema announces => .database schema announces
  | .openSession t d => .session t d
  | .begin t s =>
    match w.checkBegin t s with
    | .ok () => w.entering s
    | .error _ => .none
  | .grant s => w.entering s
  | .commit t s | .leave t s (.ok ()) => w.publishing t s
  | .cancel t s => w.asked t s fun _ => .move s .drop
  | .leave t s (.error _) =>
    if w.isClosed s then .none else w.asked t s fun _ => .move s .drop
  | .refresh t s => w.forwarding t s
  | .resolve t s token =>
    match w.generation t s with
    | .ok generation => if generation < token.generation then w.forwarding t s else .none
    | .error _ => .none
  | .close s =>
    match w.session? s with
    | some x => if x.closed then .none else .move s .close
    | none => .none
  | .create t s className fields =>
    match (w.schemaOf s).find className with
    | .ok c =>
      match c.checkFields fields with
      | .ok _ => w.writing t s (.create className fields)
      | .error _ => .none
    | .error _ => .none
  | .delete t s key => w.writing t s (.delete key)
  | .setValue t s key property v => w.writing t s (.setValue key property v)
  | .elements t (.bound (.live s) c) e => w.writing t s (.elements c e)
  | .elements _ _ _ => .none
  | .assign t s key property values =>
    match values.plainValues, w.collection t s key property with
    | .ok vs, .ok (.bound (.live s) c) => w.writing t s (.assign c vs)
    | _, _ => .none
  | .observe t v =>
    match v.binding, (v.rows w t).1 with
    | .live s, .ok _ => w.asked t s fun _ => .move s (.subscribe v.recipe)
    | _, _ => .none
  | .cancelObserver s o => .move s (.unsubscribe o)
  | .startDelivery t s =>
    w.asked t s fun x => if x.feed.delivering then .none else .move s .startDelivery
  | .nextNotice s => .move s .takeNotice
  | .finishDelivery s => .move s .endDelivery

namespace World

theorem gate_eq_ok {w : World} {t : Thread} {s : SessionId} {x : Session} :
    w.gate t s = .ok x ↔ w.session? s = some x ∧ t = x.owner ∧ x.closed = false := by
  unfold gate
  cases w.session? s with
  | none => simp
  | some y =>
    by_cases ht : t = y.owner
    · cases hc : y.closed with
      | true =>
        simp only [ht, hc, ne_eq, not_true_eq_false, if_false, if_true, reduceCtorEq,
          Option.some.injEq, false_iff]
        rintro ⟨rfl, _, h⟩
        rw [hc] at h
        exact Bool.noConfusion h
      | false =>
        simp only [ht, hc, ne_eq, not_true_eq_false, if_false, Bool.false_eq_true, Except.ok.injEq,
          Option.some.injEq]
        constructor
        · rintro rfl
          exact ⟨rfl, rfl, hc⟩
        · exact fun h => h.1
    · simp only [ne_eq, ht, not_false_eq_true, if_true, reduceCtorEq, Option.some.injEq, false_iff]
      rintro ⟨rfl, h, _⟩
      exact ht h

theorem putEngine_self (w : World) (d : DatabaseId) :
    w.putEngine d (w.database d).engine = w := by
  have h : w.databases.modify d.index (fun y => { y with engine := (w.database d).engine }) =
      w.databases := by
    apply List.ext_getElem?
    intro i
    rw [List.getElem?_modify]
    by_cases hi : d.index = i
    · subst hi
      unfold database
      cases w.databases[d.index]? <;> simp
    · simp [hi]
  unfold putEngine
  rw [h]

theorem move_of_engine_eq {w : World} {s : SessionId} {x : Session} {m : Move}
    (hx : w.session? s = some x)
    (he : m.engine x (w.database x.database).engine = (w.database x.database).engine) :
    w.move s m = w.putSession s (m.session (w.database x.database).schema
      (w.database x.database).engine.latest x) := by
  simp only [move, hx, he, putEngine_self]

theorem asked_ok {w : World} {t : Thread} {s : SessionId} {x : Session} {f : Session → Effect}
    (h : w.gate t s = .ok x) : w.asked t s f = f x := by
  simp only [asked, h]

theorem asked_error {w : World} {t : Thread} {s : SessionId} {e : Error} {f : Session → Effect}
    (h : w.gate t s = .error e) : w.asked t s f = .none := by
  simp only [asked, h]

theorem install_eq_entering (w : World) (s : SessionId) :
    (w.install s).getD w = w.after (w.entering s) := by
  unfold install entering
  cases hx : w.session? s with
  | none => rfl
  | some x =>
    cases hb : (w.database x.database).engine.busy with
    | true => simp [Engine.beginWrite, hb, after]
    | false => simp [Engine.beginWrite, hb, after, move, hx, Move.session, Move.engine, Batch.start]

theorem begin_eq_effect (w : World) (t : Thread) (s : SessionId) :
    ((w.begin? t s).map (·.2)).getD w = w.after (Call.effect w (.begin t s)) := by
  unfold begin?
  simp only [Call.effect]
  cases w.checkBegin t s with
  | error e => rfl
  | ok u =>
    rw [← install_eq_entering]
    cases w.install s <;> rfl

theorem commit_eq_publishing (w : World) (t : Thread) (s : SessionId) :
    (w.commit t s).2 = w.after (w.publishing t s) := by
  unfold commit publishing
  cases hg : w.gate t s with
  | error e => rw [asked_error hg]; rfl
  | ok x =>
    have hx := (gate_eq_ok.mp hg).1
    rw [asked_ok hg]
    cases hb : x.batch with
    | none => simp [after, move_of_engine_eq hx, Move.engine, hb, Move.session]
    | some b =>
      by_cases hgen : b.base.generation = (w.database x.database).engine.latest.generation
      · simp [Engine.commit, hgen, after, move, hx, Move.session, Move.engine, hb]
      · simp [Engine.commit, hgen, after, move, hx, Move.session, Move.engine, hb, Engine.abandon]

theorem cancel_eq_drop (w : World) (t : Thread) (s : SessionId) :
    (w.cancel t s).2 = w.after (w.asked t s fun _ => .move s .drop) := by
  unfold cancel
  cases hg : w.gate t s with
  | error e => rw [asked_error hg]; rfl
  | ok x =>
    have hx := (gate_eq_ok.mp hg).1
    rw [asked_ok hg]
    cases hb : x.batch with
    | none => simp [after, move_of_engine_eq hx, Move.engine, hb, Move.session]
    | some b => simp [after, move, hx, Move.session, Move.engine, hb]

-- The write around an operation that failed ends like a cancelled one, if its session
-- is still open.
theorem leave_eq_effect {α : Type} (w : World) (t : Thread) (s : SessionId)
    (outcome : Except Error α) :
    (w.leave t s outcome).2 = w.after (Call.effect w (.leave t s (outcome.map fun _ => ()))) := by
  cases outcome with
  | ok a =>
    rw [leave]
    exact commit_eq_publishing w t s
  | error e =>
    simp only [leave, Call.effect, Except.map]
    cases hc : w.isClosed s with
    | true => rfl
    | false =>
      simp only [Bool.false_eq_true, if_false]
      rw [← cancel_eq_drop]
      rcases w.cancel t s with ⟨done, w'⟩
      cases done <;> rfl

theorem refresh_eq_forwarding (w : World) (t : Thread) (s : SessionId) :
    (w.refresh t s).2 = w.after (w.forwarding t s) := by
  unfold refresh forwarding
  cases hg : w.gate t s with
  | error e => rw [asked_error hg]; rfl
  | ok x =>
    have hx := (gate_eq_ok.mp hg).1
    rw [asked_ok hg]
    simp only
    split
    · rfl
    · split
      · rfl
      · exact (move_of_engine_eq (m := .forward) hx rfl).symm

theorem resolve_eq_effect (w : World) (t : Thread) (s : SessionId) (token : HandoverToken) :
    (w.resolve t s token).2 = w.after (Call.effect w (.resolve t s token)) := by
  unfold resolve
  simp only [Call.effect]
  cases w.generation t s with
  | error e => rfl
  | ok generation =>
    simp only
    split
    · rw [← refresh_eq_forwarding]
      rcases w.refresh t s with ⟨done, w'⟩
      cases done <;> rfl
    · rfl

theorem close_eq_effect (w : World) (s : SessionId) :
    w.close s = w.after (Call.effect w (.close s)) := by
  unfold close
  simp only [Call.effect]
  cases hx : w.session? s with
  | none => rfl
  | some x =>
    simp only
    split
    · rfl
    · cases hb : x.batch with
      | none => simp [after, move_of_engine_eq hx, Move.engine, hb, Move.session]
      | some b => simp [after, move, hx, Move.session, Move.engine, hb]

theorem mutate_eq_writing {α : Type} (w : World) (t : Thread) (s : SessionId)
    (f : Batch → Except Error α × Batch) (e : Edit)
    (h : ∀ b, (f b).2 = e.apply (w.schemaOf s) b) :
    (w.mutate t s f).2 = w.after (w.writing t s e) := by
  unfold mutate writing
  cases hg : w.gate t s with
  | error e => rw [asked_error hg]; rfl
  | ok x =>
    have hx := (gate_eq_ok.mp hg).1
    rw [asked_ok hg]
    have hs : w.schemaOf s = (w.database x.database).schema := by simp only [schemaOf, hx]
    cases hb : x.batch with
    | none => simp [after, hb]
    | some b =>
      simp only [Option.isSome_some, if_true, after, move_of_engine_eq (m := .write e) hx rfl,
        Move.session, hb, Option.map_some, h, hs]

theorem mutate_eq_elements {α : Type} (w : World) (t : Thread) (s : SessionId) (c : Container)
    (f : Container → Batch → Except Error α × Batch) (e : ElementEdit)
    (h : ∀ b, (f c b).2 = e.apply c b) :
    ((Collection.bound (.live s) c).mutate w t f).2 = w.after (w.writing t s (.elements c e)) := by
  refine mutate_eq_writing w t s (c.guarded (f c)) (.elements c e) fun b => ?_
  rw [Edit.apply, Container.guarded_batch, Container.guarded_batch, h]

theorem elements_eq_effect (w : World) (t : Thread) (c : Collection) (e : ElementEdit) :
    e.perform w t c = w.after (Call.effect w (.elements t c e)) := by
  cases c with
  | unattached kind vs => cases e <;> rfl
  | bound binding c =>
    cases binding with
    | frozen snapshot => cases e <;> rfl
    | live s => cases e <;> exact mutate_eq_elements w t s c _ _ fun _ => rfl

theorem create_eq_effect (w : World) (t : Thread) (s : SessionId) (className : String)
    (fields : List (String × Value)) :
    (w.create t s className fields).2 = w.after (Call.effect w (.create t s className fields)) := by
  simp only [create, Call.effect]
  cases hc : (w.schemaOf s).find className with
  | error e => rfl
  | ok c =>
    cases hf : c.checkFields fields with
    | error e => simp only [bind, Except.bind, hf]; rfl
    | ok given =>
      simp only [bind, Except.bind, hf, pure, Except.pure]
      exact mutate_eq_writing w t s _ _ fun b => by simp only [Edit.apply, hc, hf]

theorem assign_eq_effect (w : World) (t : Thread) (s : SessionId) (key : ObjectKey)
    (property : String) (values : Collection) :
    (w.assign t s key property values).2 =
      w.after (Call.effect w (.assign t s key property values)) := by
  simp only [assign, Call.effect]
  cases hv : values.plainValues with
  | error e => rfl
  | ok vs =>
    cases hc : w.collection t s key property with
    | error e => rfl
    | ok c =>
      simp only [bind, Except.bind, pure, Except.pure]
      cases c with
      | unattached kind xs => rfl
      | bound binding c =>
        cases binding with
        | frozen snapshot => rfl
        | live s =>
          exact mutate_eq_writing w t s (c.guarded (c.assign vs)) (.assign c vs) fun _ => rfl

theorem recipe_of_rows (v : Results) (w : World) (t : Thread) :
    (v.rows w t).2.recipe = v.recipe := by
  have hev : ∀ s version, (v.evaluate s version).2.recipe = v.recipe := by
    intro s version
    unfold Results.evaluate
    split <;> rfl
  unfold Results.rows
  split
  · rfl
  · unfold Results.rowsAt
    split
    · split
      · rfl
      · exact hev _ _
    · exact hev _ _

theorem observe_eq_effect (w : World) (t : Thread) (v : Results) :
    (v.observe w t).2.2 = w.after (Call.effect w (.observe t v)) := by
  simp only [Results.observe, Call.effect]
  cases v.binding with
  | frozen snapshot => rfl
  | live s =>
    rcases hr : v.rows w t with ⟨rows, v'⟩
    have hv : v'.recipe = v.recipe := by rw [← recipe_of_rows v w t, hr]
    cases rows with
    | error e => rfl
    | ok rows =>
      simp only
      cases hg : w.gate t s with
      | error e => rw [asked_error hg]; rfl
      | ok x =>
        have hx := (gate_eq_ok.mp hg).1
        rw [asked_ok hg, after, move_of_engine_eq (m := .subscribe v.recipe) hx rfl, Move.session,
          hv]

theorem startDelivery_eq_effect (w : World) (t : Thread) (s : SessionId) :
    (w.startDelivery t s).2 = w.after (Call.effect w (.startDelivery t s)) := by
  simp only [startDelivery, Call.effect]
  cases hg : w.gate t s with
  | error e => rw [asked_error hg]; rfl
  | ok x =>
    have hx := (gate_eq_ok.mp hg).1
    simp only [asked_ok hg, Feed.begin?]
    cases x.feed.delivering with
    | true => rfl
    | false => exact (move_of_engine_eq (m := .startDelivery) hx rfl).symm

/-- A change to the feed of a session, from whatever thread, is a move. -/
theorem putFeed_eq_move {w : World} {s : SessionId} {x : Session} {m : Move} {f : Feed}
    (hx : w.session? s = some x)
    (he : m.engine x (w.database x.database).engine = (w.database x.database).engine)
    (hm : m.session (w.database x.database).schema (w.database x.database).engine.latest x =
      { x with feed := f }) :
    w.putFeed s x f = w.move s m := by
  rw [putFeed, move_of_engine_eq hx he, hm]

end World

/-- Making a call is the same as what it comes down to. -/
theorem Call.perform_eq (w : World) (c : Call) : c.perform w = w.after (c.effect w) := by
  cases c with
  | openDatabase schema announces => rfl
  | openSession t d => rfl
  | begin t s => exact w.begin_eq_effect t s
  | grant s => exact w.install_eq_entering s
  | commit t s => exact w.commit_eq_publishing t s
  | cancel t s => exact w.cancel_eq_drop t s
  | leave t s outcome =>
    have h := w.leave_eq_effect t s outcome
    cases outcome <;> exact h
  | refresh t s => exact w.refresh_eq_forwarding t s
  | resolve t s token => exact w.resolve_eq_effect t s token
  | close s => exact w.close_eq_effect s
  | create t s className fields => exact w.create_eq_effect t s className fields
  | delete t s key => exact w.mutate_eq_writing t s _ (.delete key) fun _ => rfl
  | setValue t s key property v =>
    exact w.mutate_eq_writing t s _ (.setValue key property v) fun _ => rfl
  | elements t c e => exact w.elements_eq_effect t c e
  | assign t s key property values => exact w.assign_eq_effect t s key property values
  | observe t v => exact w.observe_eq_effect t v
  | cancelObserver s o =>
    simp only [perform, effect, World.after, World.cancelObserver]
    cases hx : w.session? s with
    | none => simp only [World.move, hx]
    | some x => exact World.putFeed_eq_move hx rfl rfl
  | startDelivery t s => exact w.startDelivery_eq_effect t s
  | nextNotice s =>
    simp only [perform, effect, World.after, World.nextNotice]
    cases hx : w.session? s with
    | none => simp only [World.move, hx]
    | some x => exact World.putFeed_eq_move hx rfl rfl
  | finishDelivery s =>
    simp only [perform, effect, World.after, World.finishDelivery]
    cases hx : w.session? s with
    | none => simp only [World.move, hx]
    | some x => exact World.putFeed_eq_move hx rfl rfl

/-! ## When a call comes down to a move -/

theorem World.of_asked {w : World} {t : Thread} {s s' : SessionId} {m : Move}
    {f : Session → Effect} (h : w.asked t s f = .move s' m) :
    ∃ x, w.session? s = some x ∧ x.closed = false ∧ f x = .move s' m := by
  unfold World.asked at h
  split at h
  · rename_i x hg
    obtain ⟨hx, -, hc⟩ := World.gate_eq_ok.mp hg
    exact ⟨x, hx, hc, h⟩
  · cases h

section

variable {w : World} {t : Thread} {s s' : SessionId} {m : Move} {x : Session}

theorem World.of_entering (h : w.entering s = .move s' m) (hx : w.session? s' = some x) :
    m = .enter ∧ m.Enabled x (w.database x.database).engine := by
  unfold World.entering at h
  split at h
  · rename_i y hy
    split at h
    · cases h
    · rename_i hb
      cases h
      obtain rfl : y = x := Option.some.inj (hy.symm.trans hx)
      exact ⟨rfl, by simpa [Move.Enabled] using hb⟩
  · cases h

theorem World.of_dropping (h : w.asked t s (fun _ => .move s .drop) = .move s' m)
    (hx : w.session? s' = some x) :
    m = .drop ∧ m.Enabled x (w.database x.database).engine := by
  obtain ⟨y, hy, hc, hm⟩ := World.of_asked h
  cases hm
  obtain rfl : y = x := Option.some.inj (hy.symm.trans hx)
  exact ⟨rfl, hc⟩

theorem World.of_publishing (h : w.publishing t s = .move s' m) (hx : w.session? s' = some x) :
    (m = .publish ∨ m = .drop) ∧ m.Enabled x (w.database x.database).engine := by
  obtain ⟨y, hy, hc, hm⟩ := World.of_asked h
  split at hm
  · rename_i b hb
    split at hm
    · rename_i hgen
      cases hm
      obtain rfl : y = x := Option.some.inj (hy.symm.trans hx)
      exact ⟨.inl rfl, hc, b, hb, hgen⟩
    · cases hm
      obtain rfl : y = x := Option.some.inj (hy.symm.trans hx)
      exact ⟨.inr rfl, hc⟩
  · cases hm
    obtain rfl : y = x := Option.some.inj (hy.symm.trans hx)
    exact ⟨.inr rfl, hc⟩

theorem World.of_forwarding (h : w.forwarding t s = .move s' m) (hx : w.session? s' = some x) :
    m = .forward ∧ m.Enabled x (w.database x.database).engine := by
  obtain ⟨y, hy, hc, hm⟩ := World.of_asked h
  split at hm
  · cases hm
  · split at hm
    · cases hm
    · rename_i hb hgen
      cases hm
      obtain rfl : y = x := Option.some.inj (hy.symm.trans hx)
      exact ⟨rfl, hc, by simpa using hb, hgen⟩

theorem World.of_writing {e : Edit} (h : w.writing t s e = .move s' m)
    (hx : w.session? s' = some x) :
    m = .write e ∧ m.Enabled x (w.database x.database).engine := by
  obtain ⟨y, hy, hc, hm⟩ := World.of_asked h
  split at hm
  · rename_i hb
    cases hm
    obtain rfl : y = x := Option.some.inj (hy.symm.trans hx)
    exact ⟨rfl, hc, hb⟩
  · cases hm

end

/-- A call comes down to a move only where the move is enabled. -/
theorem Call.enabled_of_effect {w : World} {c : Call} {s : SessionId} {m : Move} {x : Session}
    (h : c.effect w = .move s m) (hx : w.session? s = some x) :
    m.Enabled x (w.database x.database).engine := by
  cases c with
  | openDatabase schema announces => cases h
  | openSession t d => cases h
  | begin t s' =>
    simp only [effect] at h
    split at h
    · exact (World.of_entering h hx).2
    · cases h
  | grant s' => exact (World.of_entering h hx).2
  | commit t s' => exact (World.of_publishing h hx).2
  | cancel t s' => exact (World.of_dropping h hx).2
  | leave t s' outcome =>
    cases outcome with
    | ok u => exact (World.of_publishing h hx).2
    | error e =>
      simp only [effect] at h
      split at h
      · cases h
      · exact (World.of_dropping h hx).2
  | refresh t s' => exact (World.of_forwarding h hx).2
  | resolve t s' token =>
    simp only [effect] at h
    split at h
    · split at h
      · exact (World.of_forwarding h hx).2
      · cases h
    · cases h
  | close s' =>
    simp only [effect] at h
    split at h
    · rename_i y hy
      split at h
      · cases h
      · rename_i hc
        cases h
        obtain rfl : y = x := Option.some.inj (hy.symm.trans hx)
        simpa [Move.Enabled] using hc
    · cases h
  | create t s' className fields =>
    simp only [effect] at h
    split at h
    · split at h
      · exact (World.of_writing h hx).2
      · cases h
    · cases h
  | delete t s' key => exact (World.of_writing h hx).2
  | setValue t s' key property v => exact (World.of_writing h hx).2
  | elements t c e =>
    cases c with
    | unattached kind vs => cases h
    | bound binding c =>
      cases binding with
      | frozen snapshot => cases h
      | live s' => exact (World.of_writing h hx).2
  | assign t s' key property values =>
    simp only [effect] at h
    split at h
    · exact (World.of_writing h hx).2
    · cases h
  | observe t v =>
    simp only [effect] at h
    split at h
    · obtain ⟨y, hy, hc, hm⟩ := World.of_asked h
      cases hm
      obtain rfl : y = x := Option.some.inj (hy.symm.trans hx)
      exact hc
    · cases h
  | cancelObserver s' o => cases h; trivial
  | startDelivery t s' =>
    obtain ⟨y, hy, hc, hm⟩ := World.of_asked h
    split at hm
    · cases hm
    · rename_i hd
      cases hm
      obtain rfl : y = x := Option.some.inj (hy.symm.trans hx)
      exact ⟨hc, by simpa using hd⟩
  | nextNotice s' => cases h; trivial
  | finishDelivery s' => cases h; trivial

/-! ## A write around an operation -/

/-- A write around an operation that consists of calls is a run: its begin, these
calls, and its end. If the begin is refused, nothing happens. -/
theorem World.write?_eq_run {α : Type} {w : World} {t : Thread} {s : SessionId}
    {f : World → Except Error α × World} {cs : List Call} {out : Except Error α × World}
    (h : w.write? t s f = some out)
    (hf : ∀ w₁, w.begin? t s = some (.ok (), w₁) → (f w₁).2 = w₁.run cs) :
    out.2 = w ∨ ∃ outcome, out.2 = w.run (.begin t s :: cs ++ [.leave t s outcome]) := by
  unfold World.write? at h
  cases hb : w.begin? t s with
  | none => rw [hb] at h; cases h
  | some r =>
    rw [hb] at h
    obtain ⟨done, w₁⟩ := r
    cases done with
    | error e =>
      cases h
      refine .inl ?_
      unfold World.begin? at hb
      split at hb
      · cases hb; rfl
      · cases hi : w.install s <;> rw [hi] at hb <;> cases hb
    | ok u =>
      -- the calls are made from the world after the begin, and the end after them
      refine .inr ⟨(f w₁).1.map fun _ => (), ?_⟩
      have hp : Call.perform w (.begin t s) = w₁ := by simp only [Call.perform, hb]; rfl
      simp only [Option.some.injEq] at h
      rw [List.cons_append, World.run_cons, hp, World.run_append, ← hf w₁ hb, World.run_cons,
        World.run_nil, Call.perform_eq, ← h, World.leave_eq_effect]

end ObjectStore
