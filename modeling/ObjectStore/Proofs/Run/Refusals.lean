import ObjectStore.Proofs.Run.Handles
import ObjectStore.Proofs.Run.Sets
import ObjectStore.Proofs.Run.Stamps
import ObjectStore.Proofs.Schema.Shapes

/-
  A write that is refused has written nothing.

  A write is refused by checks of its operands, by the state of its session, or because the
  owner of a list or set is not there. All of this is known before anything is written,
  except that an edit of elements finds out late whether there are elements at all. Where a
  list or set is declared there always are (`Snapshot.Shaped`), and so nothing is left to
  undo: not a field, not a stamp, not a number that was handed out.

    1. `World.shaped_run`: along every run all contents are shaped.
    2. `Batch.AllOrNothing`: what each operation on a batch does when it is refused.
    3. `World.mutate_refused`: the same for a session and its world.
    4. `World.refusals_leave_no_trace`: so it is for every call that writes.
-/

namespace ObjectStore

/-! ## Contents are shaped -/

namespace World

/-- Along every run, whatever handles are used, all contents are shaped. -/
theorem shaped_run (cs : List Call) :
    (∀ d, ((empty.run cs).database d).engine.latest.Shaped ((empty.run cs).database d).schema) ∧
      ∀ s x b, (empty.run cs).session? s = some x → x.batch = some b →
        b.view.Shaped ((empty.run cs).database x.database).schema := by
  induction cs using List.reverseRecOn with
  | nil => exact ⟨fun d => Snapshot.shaped_empty _, fun s x b hx => by cases hx⟩
  | append_singleton cs c ih =>
    obtain ⟨hlatest, hbatch⟩ := ih
    have hw := orderly_run cs
    rw [run_snoc]
    refine ⟨fun d => ?_, fun s x b hx hb => ?_⟩
    · rcases latest_perform hw c d with hl | ⟨s, x, b, -, hx, rfl, hb, hl⟩
      · rw [hl]
        rcases Nat.lt_or_ge d.index (empty.run cs).databases.length with hd | hd
        · rw [schema_perform c hd]
          exact hlatest d
        · -- a database that is not there is empty under every schema
          rw [engine_of_length_le hd]
          exact Snapshot.shaped_empty _
      · rw [hl, schema_perform c (hw.placed s x hx)]
        exact hbatch s x b hx hb
    · rcases batch_perform c hx hb with ⟨he, rfl⟩ | ⟨y, a, hy, ha, hd, rfl⟩
      · obtain ⟨y, hy, hd⟩ : ∃ y, (empty.run cs).session? s = some y ∧ y.database = x.database := by
          rcases session?_perform_cases c hx with ⟨y, m, hy, -, rfl⟩ | ⟨hy, -⟩ | ⟨-, t, d, rfl⟩
          · exact ⟨y, hy, (Move.database_session m y).symm⟩
          · exact ⟨x, hy, rfl⟩
          · cases hb
        rw [schema_perform c (hd ▸ hw.placed s y hy)]
        exact hlatest x.database
      · have hkeyed := ((hw.fits s y hy).held a ha).2.2.keyed (hw.keyed y.database)
        have hold := hbatch s y a hy ha
        rw [← hd, schema_perform c (hw.placed s y hy)]
        simp only [Call.edits]
        split
        · split
          · exact Edit.shaped_apply _ hkeyed hold
          · exact hold
        · exact hold

end World

/-! ## Operations on a batch -/

namespace Batch

/-- An operation on a batch that is refused leaves the batch as it was. -/
def AllOrNothing {α : Type} (b : Batch) (r : Except Error α × Batch) : Prop :=
  ∀ e, r.1 = .error e → r.2 = b

variable {b : Batch} {α : Type}

theorem AllOrNothing.unwritten (o : Except Error α) : b.AllOrNothing (o, b) := fun _ _ => rfl

theorem AllOrNothing.made {r : Except Error α × Batch} {a : α} (h : r.1 = .ok a) :
    b.AllOrNothing r := by
  intro e he
  rw [h] at he
  cases he

theorem edit_of_contains {key : ObjectKey} {f : Entity → Entity}
    (h : b.view.contains key = true) : (b.edit key f).1 = .ok () := by
  have h' : b.working.contains key = true := h
  simp only [edit, h', if_true]

theorem createObject_of_checkLinks {c : ClassSchema} {given : List (Property × Value)}
    (h : b.view.checkLinks given = .ok ()) :
    (b.createObject c given).1 = .ok ⟨b.view.nextKey + 1⟩ := by
  -- the object that has just been added is there
  have hthere : (b.insertEntity c.name).2.view.contains (b.insertEntity c.name).1 = true := by
    simp only [insertEntity, view, Snapshot.contains, Snapshot.entity?, List.find?_append,
      List.find?_singleton, beq_self_eq_true, if_true, Option.isSome_or, Option.isSome_some,
      Bool.or_true]
  simp only [createObject, h, edit_of_contains hthere, Except.map]
  rfl

theorem allOrNothing_createObject (c : ClassSchema) (given : List (Property × Value)) (b : Batch) :
    b.AllOrNothing (b.createObject c given) := by
  cases h : b.view.checkLinks given with
  | error e =>
    simp only [createObject, h]
    exact .unwritten _
  | ok u => exact .made (createObject_of_checkLinks h)

theorem allOrNothing_setValue (schema : Schema) (key : ObjectKey) (property : String) (v : Value)
    (b : Batch) : b.AllOrNothing (setValue schema key property v b) := by
  unfold setValue
  split
  · exact .unwritten _
  · rename_i stored hcheck
    refine .made (a := ()) (edit_of_contains ?_)
    unfold checkWrite at hcheck
    split at hcheck
    · cases hcheck
    · rename_i e he
      exact Snapshot.contains_iff.mpr ⟨e, he⟩

theorem allOrNothing_deleteObject (key : ObjectKey) (b : Batch) :
    b.AllOrNothing (deleteObject key b) := .made rfl

end Batch

namespace Container

variable {b : Batch} {c : Container} {α : Type}

theorem Makes.allOrNothing {r : Except Error α × Batch} (hr : c.Makes b r) (hb : b.view.Keyed)
    (hs : c.Stands b.view) : b.AllOrNothing r := by
  cases hr with
  | nothing o => exact .unwritten o
  | edit f a g hentities hkey =>
    have hkeyed : a.view.Keyed := hb.congr hentities hkey
    have hstands : c.Stands a.view := by
      obtain ⟨e, he, hfield⟩ := hs
      refine ⟨e, ?_, hfield⟩
      rw [Snapshot.entity?, hentities]
      exact he
    refine .made (a := g ()) ?_
    simp only [edit_ok hkeyed hstands, Except.map]

theorem allOrNothing_deleteObjects (c : Container) (b : Batch) :
    b.AllOrNothing (c.deleteObjects b) := by
  unfold deleteObjects
  split
  · exact .unwritten _
  · split
    · exact .unwritten _
    · exact .made rfl

theorem allOrNothing_guarded {f : Batch → Except Error α × Batch}
    (h : b.view.contains c.key.owner = true → b.AllOrNothing (f b)) :
    b.AllOrNothing (c.guarded f b) := by
  unfold guarded
  split
  · rename_i ho
    exact h ho
  · exact .unwritten _

end Container

/-! ## Calls -/

/-- A write to elements through a handle is refused. -/
def ElementEdit.Refused (w : World) (t : Thread) (c : Collection) : ElementEdit → Prop
  | .append v => ∃ e, (c.append w t v).1 = .error e
  | .insert i v => ∃ e, (c.insert w t i v).1 = .error e
  | .remove i => ∃ e, (c.remove w t i).1 = .error e
  | .removeValue v => ∃ e, (c.removeValue w t v).1 = .error e
  | .replace i v => ∃ e, (c.replace w t i v).1 = .error e
  | .clear => ∃ e, (c.clear w t).1 = .error e
  | .deleteObjects => ∃ e, (c.deleteObjects w t).1 = .error e

namespace Call

/-- A call that writes objects or elements is refused. -/
def Refused (w : World) : Call → Prop
  | .create t s className fields => ∃ e, (w.create t s className fields).1 = .error e
  | .delete t s key => ∃ e, (w.delete t s key).1 = .error e
  | .setValue t s key property v => ∃ e, (w.setValue t s key property v).1 = .error e
  | .elements t c e => e.Refused w t c
  | .assign t s key property values => ∃ e, (w.assign t s key property values).1 = .error e
  | _ => False

def writesIn : Call → Option SessionId
  | .create _ s _ _ => some s
  | .delete _ s _ => some s
  | .setValue _ s _ _ _ => some s
  | .elements _ (.bound (.live s) _) _ => some s
  | .assign _ s _ _ _ => some s
  | _ => none

/-- A call on a live handle is made on one of a list or set, with the kind that the class
of the owner declares. Whoever obtains a handle obtains such a one. -/
def OnDeclared (w : World) : Call → Prop
  | .elements _ (.bound (.live s) c) _ => c.kind.isContainer = true ∧
      ∀ x, w.session? s = some x → c.Declared (w.database x.database).schema x.view
  | _ => True

end Call

namespace World

variable {w : World} {t : Thread} {s : SessionId} {α : Type}

/-- Nothing has changed, but that a session inside a write may have another version. -/
inductive Spared (w : World) (s : SessionId) : World → Prop
  | same : Spared w s w
  | version (x : Session) (hx : w.session? s = some x) (hw : w.isInWrite s = true) :
    Spared w s (w.putSession s { x with version := x.version + 1 })

/-- A writing that is refused, and whose operation is all or nothing, changes nothing. -/
theorem mutate_refused {f : Batch → Except Error α × Batch} {e : Error}
    (he : (w.mutate t s f).1 = .error e)
    (hf : ∀ x b, w.session? s = some x → x.batch = some b → b.AllOrNothing (f b)) :
    w.Spared s (w.mutate t s f).2 := by
  unfold mutate at he ⊢
  cases hg : w.gate t s with
  | error e => exact .same
  | ok x =>
    obtain ⟨hx, -, hopen⟩ := gate_eq_ok.mp hg
    cases hb : x.batch with
    | none =>
      simp only [hb]
      exact .same
    | some b =>
      simp only [hg, hb] at he ⊢
      have hkept := hf x b hx hb e he
      simp only [hkept, ← hb]
      refine .version x hx ?_
      simp only [isInWrite, hx, hopen, hb, Option.isSome_some, Bool.not_false, Bool.and_self]

theorem Spared.view {w' : World} (h : w.Spared s w') :
    w'.databases = w.databases ∧
      ∀ s', (w'.session? s').map Session.view = (w.session? s').map Session.view := by
  cases h with
  | same => exact ⟨rfl, fun s' => rfl⟩
  | version x hx hw =>
    refine ⟨rfl, fun s' => ?_⟩
    simp only [session?, putSession, List.getElem?_set]
    split
    · rename_i hs
      have hx' : w.sessions[s'.index]? = some x := hs ▸ hx
      have hlen := (List.getElem?_eq_some_iff.mp hx').1
      simp only [hs, hlen, if_true, hx', Option.map_some, Session.view]
    · rfl

theorem Spared.eq_of_outside {w' : World} (h : w.Spared s w') (hs : w.isInWrite s = false) :
    w' = w := by
  cases h with
  | same => rfl
  | version x hx hw =>
    rw [hs] at hw
    cases hw

theorem Gives.isContainer {c : Container} (h : w.Gives s c) : c.kind.isContainer = true := by
  cases h with
  | collection t key property h =>
    obtain ⟨kind, -, h⟩ := ok_of_bind h
    split at h
    · cases h
    · rename_i hkind
      cases h
      simpa using hkind
  | handover t token h =>
    unfold locate at h
    split at h
    · cases h
    · cases h
    · obtain ⟨p, -, h⟩ := ok_of_bind h
      split at h
      · cases h
      · rename_i hshape
        cases h
        have hsome : p.kind.container = some token.shape := by simpa using hshape
        simp only [PropertyKind.isContainer, hsome, Option.isSome_some]

theorem Gives.onDeclared {c : Container} (h : w.Gives s c) (t : Thread) (e : ElementEdit) :
    Call.OnDeclared w (.elements t (.bound (.live s) c) e) := by
  refine ⟨h.isContainer, fun x hx e he => ?_⟩
  obtain ⟨y, e', p, hy, he', hp, hkind⟩ := h.declares
  obtain rfl := Option.some.inj (hx.symm.trans hy)
  obtain rfl := Option.some.inj (he.symm.trans he')
  simp only [schemaOf, hx] at hp
  exact ⟨p, hp, hkind⟩

theorem gives_of_collection {key : ObjectKey} {property : String} {handle : Collection}
    (h : w.collection t s key property = .ok handle) :
    ∃ c, handle = .bound (.live s) c ∧ w.Gives s c := by
  have hhandle := h
  obtain ⟨kind, -, h⟩ := ok_of_bind h
  split at h
  · cases h
  · cases h
    exact ⟨_, rfl, .collection t key property hhandle⟩

theorem allOrNothing_of_makes {cs : List Call} {x : Session} {b : Batch} {c : Container}
    {f : Batch → Except Error α × Batch} (hx : (empty.run cs).session? s = some x)
    (hb : x.batch = some b) (hk : c.kind.isContainer = true)
    (hd : c.Declared ((empty.run cs).database x.database).schema x.view)
    (hf : ∀ b, c.Makes b (f b)) : b.AllOrNothing (c.guarded f b) := by
  have hw := orderly_run cs
  rw [Session.view_of_batch hb] at hd
  have hshaped := (shaped_run cs).2 s x b hx hb
  have hkeyed := ((hw.fits s x hx).held b hb).2.2.keyed (hw.keyed x.database)
  exact Container.allOrNothing_guarded fun ho =>
    (hf b).allOrNothing hkeyed (Container.stands_of_declared hshaped hd hk ho)

theorem spared_elements {cs : List Call} {c : Container} {e : ElementEdit}
    (hd : Call.OnDeclared (empty.run cs) (.elements t (.bound (.live s) c) e))
    (hr : e.Refused (empty.run cs) t (.bound (.live s) c)) :
    (empty.run cs).Spared s (e.perform (empty.run cs) t (.bound (.live s) c)) := by
  obtain ⟨hk, hd⟩ := hd
  have hmakes {α : Type} {f : Batch → Except Error α × Batch} (hf : ∀ b, c.Makes b (f b))
      (x : Session) (b : Batch) (hx : (empty.run cs).session? s = some x)
      (hb : x.batch = some b) : b.AllOrNothing (c.guarded f b) :=
    allOrNothing_of_makes hx hb hk (hd x hx) hf
  cases e with
  | append v =>
    obtain ⟨e, he⟩ := hr
    exact mutate_refused he (hmakes fun b => c.makes_append v)
  | insert i v =>
    obtain ⟨e, he⟩ := hr
    exact mutate_refused he (hmakes fun b => c.makes_insert i v)
  | remove i =>
    obtain ⟨e, he⟩ := hr
    exact mutate_refused he (hmakes fun b => c.makes_remove i)
  | removeValue v =>
    obtain ⟨e, he⟩ := hr
    exact mutate_refused he (hmakes fun b => c.makes_removeValue v)
  | replace i v =>
    obtain ⟨e, he⟩ := hr
    exact mutate_refused he (hmakes fun b => c.makes_replace i v)
  | clear =>
    obtain ⟨e, he⟩ := hr
    exact mutate_refused he (hmakes fun b => c.makes_clear)
  | deleteObjects =>
    obtain ⟨e, he⟩ := hr
    exact mutate_refused he fun x b _ _ =>
      Container.allOrNothing_guarded fun _ => c.allOrNothing_deleteObjects b

theorem spared_perform {cs : List Call} {c : Call} (hd : c.OnDeclared (empty.run cs))
    (hr : c.Refused (empty.run cs)) :
    c.perform (empty.run cs) = empty.run cs ∨
      ∃ s, c.writesIn = some s ∧ (empty.run cs).Spared s (c.perform (empty.run cs)) := by
  cases c with
  | create t s className fields =>
    obtain ⟨e, he⟩ := hr
    refine .inr ⟨s, rfl, ?_⟩
    simp only [Call.perform]
    unfold create at he ⊢
    cases hfind : ((empty.run cs).schemaOf s).find className with
    | error e => exact .same
    | ok c =>
      cases hgiven : c.checkFields fields with
      | error e =>
        simp only [bind, Except.bind, hgiven]
        exact .same
      | ok given =>
        simp only [hfind, hgiven, bind, Except.bind, pure, Except.pure] at he ⊢
        exact mutate_refused he fun x b _ _ => Batch.allOrNothing_createObject c given b
  | delete t s key =>
    obtain ⟨e, he⟩ := hr
    exact .inr ⟨s, rfl, mutate_refused he fun x b _ _ => Batch.allOrNothing_deleteObject key b⟩
  | setValue t s key property v =>
    obtain ⟨e, he⟩ := hr
    exact .inr ⟨s, rfl, mutate_refused he fun x b _ _ =>
      Batch.allOrNothing_setValue _ key property v b⟩
  | elements t handle e =>
    cases handle with
    | unattached kind vs => cases e <;> exact .inl rfl
    | bound binding c =>
      cases binding with
      | frozen snapshot => cases e <;> exact .inl rfl
      | live s => exact .inr ⟨s, rfl, spared_elements hd hr⟩
  | assign t s key property values =>
    obtain ⟨e, he⟩ := hr
    refine .inr ⟨s, rfl, ?_⟩
    simp only [Call.perform]
    unfold assign at he ⊢
    cases hv : values.plainValues with
    | error e =>
      simp only [bind, Except.bind]
      exact .same
    | ok vs =>
      cases hc : (empty.run cs).collection t s key property with
      | error e =>
        simp only [bind, Except.bind]
        exact .same
      | ok handle =>
        obtain ⟨c, rfl, hgives⟩ := gives_of_collection hc
        simp only [hv, hc, bind, Except.bind, pure, Except.pure, Collection.mutate] at he ⊢
        obtain ⟨hk, hd⟩ := hgives.onDeclared t .clear
        cases hm : ((empty.run cs).mutate t s (c.guarded (c.assign vs))).1 with
        | ok u =>
          rw [hm] at he
          cases he
        | error e' =>
          exact mutate_refused hm fun x b hx hb =>
            allOrNothing_of_makes hx hb hk (hd x hx) fun b => c.makes_assign vs
  | _ => cases hr

/--
Whatever was called before, and whatever the operands are: if a call that creates, deletes
or writes an object, or writes the elements of a list or set, is refused, then

1. every database is as it was, and every session sees what it saw: the same objects with
   the same fields, elements and stamps, and the same counts of keys and slots;
2. nothing else has changed but the version of the session that the call is for, and that
   only if this session is inside a write;
3. so outside a write nothing changes at all.
-/
theorem refusals_leave_no_trace (cs : List Call) (c : Call) :
    let w := empty.run cs
    c.OnDeclared w → c.Refused w →
      ((c.perform w).databases = w.databases ∧
        ∀ s, ((c.perform w).session? s).map Session.view = (w.session? s).map Session.view) ∧
      (c.perform w = w ∨ ∃ s, c.writesIn = some s ∧ w.Spared s (c.perform w)) ∧
      ((∀ s, c.writesIn = some s → w.isInWrite s = false) → c.perform w = w) := by
  intro w hd hr
  have hspared := spared_perform hd hr
  refine ⟨?_, hspared, fun houtside => ?_⟩
  · rcases hspared with hsame | ⟨s, -, hs⟩
    · rw [hsame]
      exact ⟨rfl, fun s => rfl⟩
    · exact hs.view
  · rcases hspared with hsame | ⟨s, hs, hspared⟩
    · exact hsame
    · exact hspared.eq_of_outside (houtside s hs)

/-- A text is no element of a set of numbers. -/
def textInBag : Call := .elements 0 (.bound (.live ⟨0⟩) bagNumbers) (.append (.string "x"))

/-- One of several values for the set is a text, but not the first one. -/
def textAmongNumbers : Call :=
  .assign 0 ⟨0⟩ ⟨1⟩ "numbers" (.unattached (.list .integer) [.int64 3, .string "x", .int64 4])

/-- Both are refused, and the set still holds the two numbers that it held. -/
theorem bag_keeps_numbers :
    ((textInBag.perform (empty.run bagging)).session? ⟨0⟩).map Session.view = some bagged.view ∧
      ((textAmongNumbers.perform (empty.run bagging)).session? ⟨0⟩).map Session.view =
        some bagged.view := by
  have hview : ((empty.run bagging).session? ⟨0⟩).map Session.view = some bagged.view := rfl
  have hdeclared : textInBag.OnDeclared (empty.run bagging) := by
    refine ⟨rfl, fun x hx => ?_⟩
    cases hx
    exact declared_bagNumbers _ fun e he => by cases he; rfl
  have htext := refusals_leave_no_trace bagging textInBag hdeclared ⟨_, rfl⟩
  have hamong := refusals_leave_no_trace bagging textAmongNumbers trivial ⟨_, rfl⟩
  rw [← hview]
  exact ⟨htext.1.2 ⟨0⟩, hamong.1.2 ⟨0⟩⟩

end World

end ObjectStore
