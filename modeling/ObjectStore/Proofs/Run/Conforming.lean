import ObjectStore.Proofs.Run.Writers
import ObjectStore.Proofs.Schema.Conformance

/-
  Every write keeps the content of a store conforming.

    1. `Edit.Declared`: the handle that is written through has the kind that the class
       of its owner declares.
    2. `Edit.Proper`: no element is null in two wrappers, put where every family is
       accepted but null is not.
    3. `Edit.conforming_apply`: every such write, made or refused, keeps a conforming
       content conforming. The empty one is conforming.
    4. `World.conforming_run`: so is every content along a run of such writes.
    5. `overwrapped_is_stored`: without (2) this fails. The check takes the inner
       wrapper for the element, and the outer one is then taken off.
-/

namespace ObjectStore

namespace Edit

/-- A write through a handle on a list or set goes through one of the declared kind. -/
def Declared (schema : Schema) (s : Snapshot) : Edit → Prop
  | .elements c _ => c.Declared schema s
  | .assign c _ => c.Declared schema s
  | _ => True

/-- The values that a write puts in as elements, with the kind of the container. -/
def offered : Edit → List (PropertyKind × Value)
  | .elements c (.append v) => [(c.kind, v)]
  | .elements c (.insert _ v) => [(c.kind, v)]
  | .elements c (.replace _ v) => [(c.kind, v)]
  | .assign c vs => vs.map fun v => (c.kind, v)
  | _ => []

/-- None of the values put in as elements is wrapped in an improper way. -/
def Proper (e : Edit) : Prop := ∀ k v, (k, v) ∈ e.offered → ¬k.Overwrapped v

variable {schema : Schema} {b : Batch}

theorem conforming_elements {c : Container} {e : ElementEdit} (hs : schema.validate = .ok ())
    (h : b.view.Conforming schema) (hd : c.Declared schema b.view)
    (he : (Edit.elements c e).Proper) :
    ((Edit.elements c e).apply schema b).view.Conforming schema := by
  simp only [apply, Container.guarded_batch]
  cases ho : b.view.contains c.key.owner with
  | false => exact h
  | true =>
    have hk := hd.targetsLinks hs ho
    simp only [if_true]
    cases e with
    | append v => exact Container.conforming_append hd hk h (he _ v List.mem_cons_self)
    | insert i v => exact Container.conforming_insert hd hk h (he _ v List.mem_cons_self)
    | remove i => exact Container.conforming_remove hd h
    | removeValue v => exact Container.conforming_removeValue hd h
    | replace i v => exact Container.conforming_replace hd hk h (he _ v List.mem_cons_self)
    | clear => exact Container.conforming_edit hd h fun _ _ => .nil _ _
    | deleteObjects => exact Container.conforming_deleteObjects h

/-- Every write through handles of the declared kinds keeps a content conforming. -/
theorem conforming_apply {e : Edit} (hs : schema.validate = .ok ())
    (h : b.view.Conforming schema) (hd : e.Declared schema b.view) (he : e.Proper) :
    (e.apply schema b).view.Conforming schema := by
  cases e with
  | create className fields =>
    simp only [apply]
    split
    · exact h
    · rename_i c hfind
      split
      · exact h
      · rename_i given hf
        have hname := Schema.name_of_find hfind
        exact Batch.conforming_createObject (by rw [hname]; exact hfind)
          (Schema.sound_of_find hs hfind) hf h
  | delete key => exact Batch.conforming_removeEntity key h
  | setValue key property v => exact Batch.conforming_setValue h
  | elements c e => exact conforming_elements hs h hd he
  | assign c vs =>
    simp only [apply, Container.guarded_batch]
    cases ho : b.view.contains c.key.owner with
    | false => exact h
    | true =>
      have hk := hd.targetsLinks hs ho
      exact Container.conforming_assign hd hk h fun v hv => he _ v (List.mem_map_of_mem hv)

end Edit

theorem Snapshot.conforming_empty (schema : Schema) : Snapshot.empty.Conforming schema :=
  ⟨Snapshot.keyed_empty, fun e he => by cases he⟩

/--
Under a valid schema the empty content conforms, and every write of a session keeps a
conforming content conforming, whether it is made or refused: objects created with any
values, deleted or written, and the elements of a list or set edited in any way
through a handle of the declared kind, unless an element is offered in the one
improper form.
-/
theorem writes_keep_conforming {schema : Schema} (hs : schema.validate = .ok ()) :
    Snapshot.empty.Conforming schema ∧
      ∀ (b : Batch) (e : Edit), b.view.Conforming schema → e.Declared schema b.view → e.Proper →
        (e.apply schema b).view.Conforming schema :=
  ⟨Snapshot.conforming_empty schema, fun _ _ h hd he => Edit.conforming_apply hs h hd he⟩

/-! ## Along a run -/

namespace Call

/-- A call that writes, if it does, through a handle of the declared kind, and offers
no improper element. -/
def Careful (w : World) (c : Call) : Prop :=
  ∀ s e x b, c.effect w = .move s (.write e) → w.session? s = some x → x.batch = some b →
    e.Declared (w.database x.database).schema b.view ∧ e.Proper

end Call

namespace World

def Careful (w : World) : List Call → Prop
  | [] => True
  | c :: cs => c.Careful w ∧ (c.perform w).Careful cs

/-- Whatever is stored conforms to the schema of its database. -/
structure Conforming (w : World) : Prop where
  valid : ∀ d, (w.database d).schema.validate = .ok ()
  latest : ∀ d, (w.database d).engine.latest.Conforming (w.database d).schema
  snapshot : ∀ s x, w.session? s = some x → x.snapshot.Conforming (w.database x.database).schema
  batch : ∀ s x b, w.session? s = some x → x.batch = some b →
    b.view.Conforming (w.database x.database).schema

variable {w : World}

theorem conforming_empty : World.empty.Conforming := by
  refine ⟨fun d => rfl, fun d => Snapshot.conforming_empty _, ?_, ?_⟩
  · intro s x hx
    cases hx
  · intro s x b hx
    cases hx

theorem conforming_published {schema : Schema} {b : Batch} (h : b.view.Conforming schema) :
    b.published.Conforming schema :=
  ⟨⟨h.keyed.ascending, h.keyed.handedOut⟩, h.entities⟩

theorem conforming_move (hw : w.Orderly) (h : w.Conforming) {s : SessionId} {m : Move}
    {x : Session} (hx : w.session? s = some x)
    (he : ∀ e b, m = .write e → x.batch = some b →
      e.Declared (w.database x.database).schema b.view ∧ e.Proper) :
    (w.move s m).Conforming := by
  have hplaced := hw.placed s x hx
  have hlatest := h.latest x.database
  have hself := session?_move_self (m := m) hx
  refine ⟨fun d => ?_, fun d => ?_, fun s' y hy => ?_, fun s' y b hy hb => ?_⟩
  · rw [schema_move]
    exact h.valid d
  · rw [schema_move]
    by_cases hd : d = x.database
    · subst hd
      rw [engine_move_self hx hplaced]
      rcases m.latest_engine x (w.database x.database).engine with hl | ⟨-, b, hb, hl⟩
      · rw [hl]
        exact hlatest
      · rw [hl]
        exact conforming_published (h.batch s x b hx hb)
    · rw [engine_move_of_ne hx hd]
      exact h.latest d
  · rw [schema_move]
    by_cases hs : s' = s
    · subst hs
      obtain rfl := Option.some.inj (hself.symm.trans hy)
      rw [Move.database_session]
      cases m with
      | enter => exact hlatest
      | forward => exact hlatest
      | publish =>
        cases hb : x.batch with
        | none =>
          simp only [Move.session, hb]
          exact h.snapshot s' x hx
        | some b =>
          simp only [Move.session, hb, moveTo]
          exact conforming_published (h.batch s' x b hx hb)
      | _ => exact h.snapshot s' x hx
    · rw [session?_move_of_ne hs] at hy
      exact h.snapshot s' y hy
  · rw [schema_move]
    by_cases hs : s' = s
    · subst hs
      obtain rfl := Option.some.inj (hself.symm.trans hy)
      rw [Move.database_session]
      cases m with
      | enter =>
        cases hb
        exact hlatest
      | write e =>
        obtain ⟨a, ha, rfl⟩ := Option.map_eq_some_iff.mp hb
        obtain ⟨hdecl, hproper⟩ := he e a rfl ha
        exact Edit.conforming_apply (h.valid x.database) (h.batch s' x a hx ha) hdecl hproper
      | publish =>
        cases ha : x.batch with
        | none =>
          simp only [Move.session, ha] at hb
          cases hb
        | some a =>
          simp only [Move.session, ha, moveTo] at hb
          cases hb
      | drop => cases hb
      | close => cases hb
      | _ => exact h.batch s' x b hx hb
    · rw [session?_move_of_ne hs] at hy
      exact h.batch s' y b hy hb

theorem conforming_openDatabase (hw : w.Orderly) (h : w.Conforming) (schema : Schema)
    (announces : Bool) : (w.after (.database schema announces)).Conforming := by
  have hschema {s : SessionId} {x : Session} (hx : w.session? s = some x) :
      ((w.after (.database schema announces)).database x.database).schema =
        (w.database x.database).schema := schema_openDatabase (hw.placed s x hx)
  refine ⟨fun d => ?_, fun d => ?_, fun s x hx => ?_, fun s x b hx hb => ?_⟩
  · rcases Nat.lt_or_ge d.index w.databases.length with hd | hd
    · rw [schema_openDatabase hd]
      exact h.valid d
    · rcases schema_openDatabase_cases hd with hs | ⟨hvalid, hs⟩
      · rw [hs]
        exact h.valid d
      · rwa [hs]
  · rw [engine_openDatabase]
    rcases Nat.lt_or_ge d.index w.databases.length with hd | hd
    · rw [schema_openDatabase hd]
      exact h.latest d
    · rw [engine_of_length_le hd]
      exact Snapshot.conforming_empty _
  · rw [session?_openDatabase] at hx
    rw [hschema hx]
    exact h.snapshot s x hx
  · rw [session?_openDatabase] at hx
    rw [hschema hx]
    exact h.batch s x b hx hb

theorem conforming_openSession (h : w.Conforming) (t : Thread) (d : DatabaseId) :
    (w.after (.session t d)).Conforming := by
  have hdb (d' : DatabaseId) : (w.after (.session t d)).database d' = w.database d' := by
    rw [database, databases_openSession, database]
  refine ⟨fun d' => ?_, fun d' => ?_, fun s x hx => ?_, fun s x b hx hb => ?_⟩
  · rw [hdb]
    exact h.valid d'
  · rw [hdb]
    exact h.latest d'
  · rw [hdb]
    rcases session?_openSession_cases hx with hx | ⟨-, -, rfl⟩
    · exact h.snapshot s x hx
    · exact h.latest d
  · rw [hdb]
    rcases session?_openSession_cases hx with hx | ⟨-, -, rfl⟩
    · exact h.batch s x b hx hb
    · cases hb

theorem conforming_perform (hw : w.Orderly) (h : w.Conforming) {c : Call} (hc : c.Careful w) :
    (c.perform w).Conforming := by
  rw [Call.perform_eq]
  cases he : c.effect w with
  | none => exact h
  | database schema announces => exact conforming_openDatabase hw h schema announces
  | session t d => exact conforming_openSession h t d
  | move s m =>
    cases hx : w.session? s with
    | none => rwa [after, move_of_none hx]
    | some x =>
      refine conforming_move hw h hx fun e b hm hb => ?_
      subst hm
      exact hc s e x b he hx hb

theorem Conforming.run (hw : w.Orderly) (h : w.Conforming) {cs : List Call}
    (hcs : w.Careful cs) : (w.run cs).Conforming := by
  induction cs generalizing w with
  | nil => exact h
  | cons c cs ih => exact ih (orderly_perform hw c) (conforming_perform hw h hcs.1) hcs.2

/-- Along a run of careful calls from the empty world everything that is stored
conforms. -/
theorem conforming_run {cs : List Call} (hcs : World.empty.Careful cs) :
    (World.empty.run cs).Conforming :=
  Conforming.run orderly_empty conforming_empty hcs

end World

/-! ## One improper value -/

/-- A class with one list of anything but null. -/
def boxes : Schema := ⟨[⟨"Box", [⟨"content", ⟨.any, false, some .list, none⟩⟩]⟩]⟩

/-- A batch in which one box was created. -/
def boxed : Batch := (Edit.create "Box" []).apply boxes (.start .empty)

def boxContent : Container := ⟨⟨⟨1⟩, "content"⟩, ⟨.any, false, some .list, none⟩⟩

theorem conforming_boxed : boxed.view.Conforming boxes :=
  Edit.conforming_apply rfl (Snapshot.conforming_empty boxes) trivial fun _ _ h => by cases h

theorem declared_boxContent : boxContent.Declared boxes boxed.view := by
  intro e he
  cases he
  exact ⟨⟨"content", boxContent.kind⟩, rfl, rfl⟩

/-- A proper element in the box. -/
theorem boxed_truth_conforms : boxes.validate = .ok () ∧
    ((Edit.elements boxContent (.append (.bool true))).apply boxes
      boxed).view.Conforming boxes := by
  refine ⟨rfl, (writes_keep_conforming rfl).2 _ _ conforming_boxed declared_boxContent ?_⟩
  intro k v h hover
  obtain ⟨-, rfl⟩ := Prod.mk.inj (List.mem_singleton.mp h)
  cases hover.2.2

/-- Null in two wrappers passes the check of an element that must not be null, and what
is stored is null in one wrapper, which would not pass it. -/
theorem overwrapped_is_stored :
    boxes.validate = .ok () ∧ boxed.view.Conforming boxes ∧ boxContent.Declared boxes boxed.view ∧
      ¬((Edit.elements boxContent (.append (.wrapped (.wrapped .null)))).apply boxes
        boxed).view.Conforming boxes := by
  refine ⟨rfl, conforming_boxed, declared_boxContent, fun h => ?_⟩
  have hmem := h.entities ⟨⟨1⟩, "Box", [("content", .list [⟨⟨1⟩, .wrapped .null, 1⟩])], 1⟩
    List.mem_cons_self
  have hdecl : boxes.property "Box" "content" = .ok ⟨"content", boxContent.kind⟩ := rfl
  obtain ⟨f, hf, hfits⟩ := hmem.field? hdecl
  cases hf
  have hstored := (hfits.2 ⟨⟨1⟩, .wrapped .null, 1⟩ List.mem_cons_self).1
  cases hstored

end ObjectStore
