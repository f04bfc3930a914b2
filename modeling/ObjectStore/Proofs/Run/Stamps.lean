import ObjectStore.Proofs.Store.Growth

/-
  What a write stamps.

  An object carries the generation that last wrote one of its fields, and an element the
  one that last wrote it. Which objects a write writes is told from outside, by what it
  answers and by what is there before and after it (`Edit.Writes`): the object that it is
  for, if it was made; the object that it adds; and every object from which it takes out
  a link to what it removes. An element is written after it was put in only if its value
  is replaced (`Edit.Replaces`).

  There is one way more in which an object is stamped. A handle on a list or set can
  stand on a property of one value, if it was obtained in a write that was abandoned.
  Then the edit of the elements is refused, but only after the owner was stamped
  (`Edit.Misses`).

    1. `Container.Does`: an operation on a container has stamped its owner only if it
       was made or has missed; one lemma for each operation.
    2. `Edit.advances`: no write stamps anything else.
    3. `Among.advances`: nor do several writes.
-/

namespace ObjectStore

/-! ## What a write answers -/

/-- The answer to an edit of elements where the property holds a single value. -/
def Container.missed (c : Container) : Error := .typeMismatch "list or set property" c.key.text

/-- Whether a write to the elements has changed them, if it was made. -/
def ElementEdit.outcome (c : Container) (b : Batch) : ElementEdit → Except Error Bool
  | .append v => (c.append v b).1
  | .insert i v => (c.insert i v b).1.map fun _ => true
  | .remove i => (c.remove i b).1.map fun _ => true
  | .removeValue v => (c.removeValue v b).1
  | .replace i v => (c.replace i v b).1.map fun _ => true
  | .clear => (c.clear b).1.map fun _ => true
  | .deleteObjects => (c.deleteObjects b).1.map fun _ => false

namespace Edit

/-- The container through which a write is made. -/
def container? : Edit → Option Container
  | .elements c _ => some c
  | .assign c _ => some c
  | _ => none

/-- The object whose fields a write is for. -/
def target? : Edit → Option ObjectKey
  | .setValue key _ _ => some key
  | e => e.container?.map (·.key.owner)

/-- Whether a write has changed the fields of its target, if it was made. -/
def outcome (schema : Schema) (b : Batch) : Edit → Except Error Bool
  | .setValue key property v => (Batch.setValue schema key property v b).1.map fun _ => true
  | .elements c e => (c.guarded (fun b => (e.outcome c b, b)) b).1
  | .assign c vs => (c.guarded (c.assign vs) b).1.map fun _ => true
  | _ => .ok false

/-- The objects that a write writes: its target, what it adds, and what loses a link to
an object that it removes. -/
def Writes (key : ObjectKey) (schema : Schema) (b : Batch) (e : Edit) : Prop :=
  e.target? = some key ∧ e.outcome schema b = .ok true ∨
    b.view.contains key = false ∧ (e.apply schema b).view.contains key = true ∨
    Batch.LosesLink b.view (e.apply schema b).view key

/-- A write to the elements of a property that holds a single value. It is refused. -/
def Misses (key : ObjectKey) (schema : Schema) (b : Batch) (e : Edit) : Prop :=
  ∃ c, e.container? = some c ∧ c.key.owner = key ∧ e.outcome schema b = .error c.missed

/-- The elements that a write writes, other than those that it puts in. -/
def Replaces (slot : SlotId) (b : Batch) : Edit → Prop
  | .elements c (.replace i v) =>
    ∃ x old, (b.view.elementsOf c.key)[i]? = some x ∧ x.slot = slot ∧ (c.replace i v b).1 = .ok old
  | _ => False

end Edit

/-! ## Operations on a container -/

namespace Container

variable {b : Batch} {c : Container} {α : Type} {renewed : SlotId → Prop}

/-- An operation on a container that was made, or that has missed. -/
def Reaches (c : Container) (o : Except Error Bool) : Prop := o = .ok true ∨ o = .error c.missed

/-- An operation on a container has stamped its owner only if it has reached it. `changed`
tells from its answer whether it has changed the elements. -/
def Does (c : Container) (renewed : SlotId → Prop) (b : Batch) (changed : α → Bool)
    (r : Except Error α × Batch) : Prop :=
  Batch.Advances (fun key => c.key.owner = key ∧ c.Reaches (r.1.map changed)) renewed b r.2

theorem Does.none {changed : α → Bool} (hb : b.view.Numbered) (o : Except Error α) :
    c.Does renewed b changed (o, b) := .refl hb

theorem edit_answer_eq {f : List Element → List Element}
    (ho : b.view.contains c.key.owner = true) :
    (c.edit f b).1 =
      match ((c.edit f b).2.view.entity? c.key.owner).bind (·.field? c.key.property) with
      | some (.value _) => .error c.missed
      | _ => .ok () := by
  have hwrite (g : Entity → Entity) : (b.edit c.key.owner g).1 = .ok () := by
    have ho' : b.working.contains c.key.owner = true := ho
    simp only [Batch.edit, ho', if_true]
  unfold edit
  split
  · rename_i e b' heq
    have := (hwrite _).symm.trans (congrArg Prod.fst heq)
    cases this
  · simp only
    split
    · rename_i v hv
      simp only [hv, missed]
    · rename_i hv
      split
      · rename_i v hv'
        exact absurd hv' (hv v)
      · rfl

/-- An edit of the elements is made, unless the property holds a single value. -/
theorem edit_answer {f : List Element → List Element}
    (ho : b.view.contains c.key.owner = true) :
    (c.edit f b).1 = .ok () ∨ (c.edit f b).1 = .error c.missed := by
  rw [edit_answer_eq ho]
  split
  · exact .inr rfl
  · exact .inl rfl

theorem edit_ok {f : List Element → List Element} (hb : b.view.Keyed) (hs : c.Stands b.view) :
    (c.edit f b).1 = .ok () := by
  obtain ⟨e, he, hfield⟩ := hs
  obtain ⟨field, hafter, hsingle, -⟩ :=
    c.field?_rewrite (f := f) (e := { e with revision := b.pending }) hfield
  rw [edit_answer_eq (Snapshot.contains_iff.mpr ⟨e, he⟩), c.entity?_edit hb he, Option.bind_some,
    hafter]
  cases field with
  | value v => exact absurd rfl (hsingle v)
  | _ => rfl

theorem reaches_edit {f : List Element → List Element} {changed : Unit → Bool}
    (hchanged : changed () = true) (ho : b.view.contains c.key.owner = true) :
    c.Reaches ((c.edit f b).1.map changed) := by
  rcases c.edit_answer (f := f) ho with h | h
  · exact .inl (by rw [h, Except.map, hchanged])
  · exact .inr (by rw [h, Except.map])

theorem does_edit {f : List Element → List Element} (hb : b.view.Numbered)
    (ho : b.view.contains c.key.owner = true) (changed : Unit → Bool)
    (hchanged : changed () = true)
    (hf : Reworked b.view.nextSlot b.view.nextSlot b.pending renewed (b.view.elementsOf c.key)
      (f (b.view.elementsOf c.key))) :
    c.Does renewed b changed (c.edit f b) :=
  (advances_edit hb rfl rfl (Nat.le_refl _) .refl hf).mono
    (fun _ hk => ⟨hk.symm, reaches_edit hchanged ho⟩) fun _ hr => hr

theorem does_insertNew (hb : b.view.Numbered) (ho : b.view.contains c.key.owner = true)
    (changed : Unit → Bool) (hchanged : changed () = true) (i : Nat) (v : Value) :
    c.Does renewed b changed (c.insertNew i v b) := by
  have hinsert : Reworked b.view.nextSlot (b.view.nextSlot + 1) b.pending renewed
      (b.view.elementsOf c.key)
      ((b.view.elementsOf c.key).insertIdx i ⟨⟨b.view.nextSlot + 1⟩, v, b.pending⟩) :=
    .insertIdx rfl rfl (hb.slotted.bounded c.key) (hb.slotted.distinct c.key)
  exact (advances_edit (a := b.allocateSlot.2) hb rfl rfl (Nat.le_succ _) (.single .allocate)
    hinsert).mono (fun _ hk => ⟨hk.symm, reaches_edit (b := b.allocateSlot.2) hchanged ho⟩)
      fun _ hr => hr

theorem Does.map {β : Type} {changed : α → Bool} {r : Except Error α × Batch} {g : α → β}
    {changed' : β → Bool} (hg : ∀ a, changed' (g a) = changed a) (h : c.Does renewed b changed r) :
    c.Does renewed b changed' (r.1.map g, r.2) := by
  have hanswer : (r.1.map g).map changed' = r.1.map changed := by
    cases r.1 with
    | error e => rfl
    | ok a => simp only [Except.map, hg]
  unfold Does
  rw [hanswer]
  exact h

theorem does_append (hb : b.view.Numbered) (ho : b.view.contains c.key.owner = true) (v : Value) :
    c.Does renewed b id (c.append v b) := by
  unfold append
  split
  · exact .none hb _
  · exact .none hb _
  · split
    · exact .none hb _
    · rename_i stored es _ _ _ i _
      exact (does_insertNew hb ho (fun _ => true) rfl i stored).map fun _ => rfl

theorem does_insert (hb : b.view.Numbered) (ho : b.view.contains c.key.owner = true) (i : Nat)
    (v : Value) : c.Does renewed b (fun _ => true) (c.insert i v b) := by
  unfold insert
  split
  · exact .none hb _
  · split
    · exact .none hb _
    · exact does_insertNew hb ho _ rfl i _

theorem does_erase (hb : b.view.Numbered) (ho : b.view.contains c.key.owner = true) (i : Nat) :
    c.Does renewed b (fun _ => true) (c.edit (fun es => es.eraseIdx i) b) :=
  does_edit hb ho _ rfl (.of_sublist (List.eraseIdx_sublist _ i) (hb.slotted.bounded c.key)
    (hb.slotted.distinct c.key) (Nat.le_refl _))

theorem does_remove (hb : b.view.Numbered) (ho : b.view.contains c.key.owner = true) (i : Nat) :
    c.Does renewed b (fun _ => true) (c.remove i b) := by
  unfold remove
  split
  · exact .none hb _
  · split
    · exact .none hb _
    · exact (does_erase hb ho i).map fun _ => rfl

theorem does_removeValue (hb : b.view.Numbered) (ho : b.view.contains c.key.owner = true)
    (v : Value) : c.Does renewed b id (c.removeValue v b) := by
  unfold removeValue
  split
  · exact .none hb _
  · split
    · exact .none hb _
    · rename_i i _
      exact (does_erase hb ho i).map fun _ => rfl

theorem elementsIn_of_prepareAt {operation : String} {v stored : Value} {s : Snapshot}
    {es : List Element} (h : c.prepareAt operation v s = .ok (stored, es)) :
    elementsIn c.key s = .ok es := by
  obtain ⟨-, -, h⟩ := ok_of_bind h
  obtain ⟨y, -, h⟩ := ok_of_bind h
  obtain ⟨ys, hys, h⟩ := ok_of_bind h
  cases h
  exact hys

theorem does_replace (hb : b.view.Numbered) (ho : b.view.contains c.key.owner = true) (i : Nat)
    (v : Value) :
    c.Does (fun slot => (Edit.elements c (.replace i v)).Replaces slot b) b (fun _ => true)
      (c.replace i v b) := by
  have hreplaces (r : Except Error Value × Batch) (h : c.replace i v b = r) :
      c.Does (fun slot => ∃ x old, (b.view.elementsOf c.key)[i]? = some x ∧ x.slot = slot ∧
        r.1 = .ok old) b (fun _ => true) r := by
    unfold replace at h
    split at h
    · subst h
      exact .none hb _
    · rename_i stored es hprepare
      obtain ⟨-, rfl⟩ := elementsIn_eq_ok.mp (elementsIn_of_prepareAt hprepare)
      split at h
      · subst h
        exact .none hb _
      · rename_i x hx
        subst h
        refine (does_edit hb ho (fun _ => true) rfl ?_).map fun _ => rfl
        refine .set hx rfl rfl ⟨x, x.value, hx, rfl, ?_⟩ (hb.slotted.bounded c.key)
          (hb.slotted.distinct c.key)
        simp only [edit_ok hb.keyed (stands_of_mem (List.mem_of_getElem? hx)), Except.map]
  exact hreplaces _ rfl

theorem does_clear (hb : b.view.Numbered) (ho : b.view.contains c.key.owner = true) :
    c.Does renewed b (fun _ => true) (c.clear b) :=
  does_edit hb ho _ rfl (.of_sublist (List.nil_sublist _) (hb.slotted.bounded c.key)
    (hb.slotted.distinct c.key) (Nat.le_refl _))

theorem newElements_slots (vs : List Value) (b : Batch) :
    (newElements b vs).1.map (·.slot.val) = List.range' (b.view.nextSlot + 1) vs.length ∧
      (∀ x ∈ (newElements b vs).1, x.revision = b.pending) ∧
      (newElements b vs).2.view.nextSlot = b.view.nextSlot + vs.length ∧
      (newElements b vs).1.length = vs.length := by
  induction vs generalizing b with
  | nil => exact ⟨rfl, fun x hx => (by cases hx), rfl, rfl⟩
  | cons v vs ih =>
    obtain ⟨hslots, hrevisions, hnext, hlength⟩ := ih b.allocateSlot.2
    refine ⟨?_, fun x hx => ?_, ?_, ?_⟩
    · change (b.view.nextSlot + 1) :: (newElements b.allocateSlot.2 vs).1.map (·.slot.val) = _
      rw [hslots]
      rfl
    · rcases List.mem_cons.mp hx with rfl | hx
      · rfl
      · exact hrevisions x hx
    · change (newElements b.allocateSlot.2 vs).2.view.nextSlot = _
      rw [hnext]
      change b.view.nextSlot + 1 + vs.length = b.view.nextSlot + (vs.length + 1)
      omega
    · change (newElements b.allocateSlot.2 vs).1.length + 1 = vs.length + 1
      rw [hlength]

theorem does_assign (hb : b.view.Numbered) (ho : b.view.contains c.key.owner = true)
    (vs : List Value) : c.Does renewed b (fun _ => true) (c.assign vs b) := by
  unfold assign
  split
  · exact .none hb _
  · rename_i stored _
    obtain ⟨hslots, hrevisions, hnext, hlength⟩ := newElements_slots (arranged c.kind stored) b
    have hentities := (newElements_spec (arranged c.kind stored) b).2
    have hsteps : Batch.Steps True b (newElements b (arranged c.kind stored)).2 :=
      newElements_steps _ b
    have ho' : (newElements b (arranged c.kind stored)).2.view.contains c.key.owner = true := by
      rw [Snapshot.contains, Snapshot.entity?, hentities]
      exact ho
    refine (advances_edit hb hsteps.base_eq hentities (by omega) hsteps ?_).mono
      (fun _ hk => ⟨hk.symm, reaches_edit rfl ho'⟩) fun _ hr => hr
    rw [hnext, ← hlength]
    exact .all_new (by rw [hlength]; exact hslots) hrevisions

end Container

/-! ## Objects that lose links -/

namespace Batch

variable {b b' b'' : Batch} {renewed : SlotId → Prop}

theorem advances_removeAll (keys : List ObjectKey) (hb : b.view.Numbered) :
    Advances (LosesLink b.view (Container.removeAll b keys).2.view) renewed b
      (Container.removeAll b keys).2 := by
  induction keys generalizing b with
  | nil => exact .refl hb
  | cons key keys ih =>
    have hfirst : Advances _ renewed b _ := advances_removeEntity hb key
    have hrest := ih hfirst.numbered
    have hsteps : Steps False (b.removeEntity key).2 (Container.removeAll b (key :: keys)).2 :=
      Container.removeAll_steps keys _
    have hlast := hsteps.continues hfirst.numbered.keyed
    refine (hfirst.mono ?_ fun _ hr => hr).trans (hrest.mono ?_ fun _ hr => hr)
    -- what is removed first is not added again
    · rintro k ⟨gone, e, hgone, hgone', he, hlink⟩
      refine ⟨gone, e, hgone, Bool.eq_false_iff.mpr fun hback => ?_, he, hlink⟩
      obtain ⟨e', he'⟩ := Snapshot.contains_iff.mp hback
      rcases hsteps.origin hfirst.numbered.keyed he' with ⟨x, hx, -⟩ | ⟨hfalse, -⟩
      · rw [Snapshot.contains_iff.mpr ⟨x, hx⟩] at hgone'
        cases hgone'
      · exact hfalse
    -- a link that is taken out later was there at first
    · rintro k ⟨gone, e, hgone, hgone', he, hlink⟩
      cases hc : b.working.contains key with
      | false =>
        rw [removeEntity_of_not_contains hc] at hgone he
        exact ⟨gone, e, hgone, hgone', he, hlink⟩
      | true =>
        have hgone₀ := ((contains_removeEntity hc gone).mp hgone).2
        rw [entity?_removeEntity hc] at he
        split at he
        · cases he
        · obtain ⟨x, hx, rfl⟩ := Option.map_eq_some_iff.mp he
          exact ⟨gone, x, hgone₀, hgone', hx, refers_of_unlinkEntity hlink⟩

end Batch

/-! ## Writes -/

namespace Edit

variable {schema : Schema} {b : Batch}

def Stamps (key : ObjectKey) (schema : Schema) (b : Batch) (e : Edit) : Prop :=
  e.Writes key schema b ∨ e.Misses key schema b

theorem advances_of_does {α : Type} {changed : α → Bool} {c : Container} {e : Edit}
    {r : Except Error α × Batch} (hcontainer : e.container? = some c)
    (htarget : e.target? = some c.key.owner) (houtcome : e.outcome schema b = r.1.map changed)
    {renewed : SlotId → Prop} (h : c.Does renewed b changed r) :
    Batch.Advances (fun key => e.Stamps key schema b) renewed b r.2 := by
  refine h.mono ?_ fun _ hr => hr
  rintro key ⟨rfl, hok | hmiss⟩
  · exact .inl (.inl ⟨htarget, by rw [houtcome, hok]⟩)
  · exact .inr ⟨c, hcontainer, rfl, by rw [houtcome, hmiss]⟩

theorem map_id_eq {o : Except Error Bool} : o.map id = o := by cases o <;> rfl

theorem advances_elements (hb : b.view.Numbered) (c : Container) (e : ElementEdit) :
    Batch.Advances (fun key => (Edit.elements c e).Stamps key schema b)
      (fun slot => (Edit.elements c e).Replaces slot b) b ((Edit.elements c e).apply schema b) := by
  cases ho : b.view.contains c.key.owner with
  | false =>
    have hrefused : (Edit.elements c e).apply schema b = b := by
      simp only [apply, Container.guarded_batch, ho, Bool.false_eq_true, if_false]
    rw [hrefused]
    exact .refl hb
  | true =>
    have happly : (Edit.elements c e).apply schema b = e.apply c b := by
      simp only [apply, Container.guarded_batch, ho, if_true]
    have houtcome : (Edit.elements c e).outcome schema b = e.outcome c b := by
      simp only [outcome, Container.guarded, ho, if_true]
    rw [happly]
    cases e with
    | append v =>
      exact advances_of_does rfl rfl (houtcome.trans map_id_eq.symm) (Container.does_append hb ho v)
    | insert i v => exact advances_of_does rfl rfl houtcome (Container.does_insert hb ho i v)
    | remove i => exact advances_of_does rfl rfl houtcome (Container.does_remove hb ho i)
    | removeValue v =>
      exact advances_of_does rfl rfl (houtcome.trans map_id_eq.symm)
        (Container.does_removeValue hb ho v)
    | replace i v => exact advances_of_does rfl rfl houtcome (Container.does_replace hb ho i v)
    | clear => exact advances_of_does rfl rfl houtcome (Container.does_clear hb ho)
    | deleteObjects =>
      -- nothing but links is written
      have hremoves (b' : Batch) (h : (c.deleteObjects b).2 = b') :
          Batch.Advances (Batch.LosesLink b.view b'.view)
            (fun slot => (Edit.elements c .deleteObjects).Replaces slot b) b b' := by
        unfold Container.deleteObjects at h
        split at h
        · subst h
          exact .refl hb
        · split at h
          · subst h
            exact .refl hb
          · subst h
            exact Batch.advances_removeAll _ hb
      refine (hremoves _ rfl).mono (fun key hk => .inl (.inr (.inr ?_))) fun _ hr => hr
      rw [happly]
      exact hk

/-- A write stamps the objects and elements that it writes, and the owner of a container
that it misses; nothing else. Slots and keys keep telling everything apart. -/
theorem advances (hb : b.view.Numbered) (e : Edit) :
    Batch.Advances (fun key => e.Stamps key schema b) (fun slot => e.Replaces slot b) b
      (e.apply schema b) := by
  cases e with
  | create className fields =>
    have hcreates (b' : Batch) (h : (Edit.create className fields).apply schema b = b') :
        Batch.Advances (fun key => b.view.contains key = false ∧ b'.view.contains key = true)
          (fun slot => (Edit.create className fields).Replaces slot b) b b' := by
      simp only [apply] at h
      split at h
      · subst h
        exact .refl hb
      · split at h
        · subst h
          exact .refl hb
        · subst h
          exact Batch.advances_createObject hb _ _
    exact (hcreates _ rfl).mono (fun key hk => .inl (.inr (.inl hk))) fun _ hr => hr
  | delete key =>
    exact (Batch.advances_removeEntity hb key).mono (fun k hk => .inl (.inr (.inr hk)))
      fun _ hr => hr
  | setValue key property v =>
    have hwrites (r : Except Error Unit × Batch)
        (h : Batch.setValue schema key property v b = r) :
        Batch.Advances (fun k => k = key ∧ r.1 = .ok ())
          (fun slot => (Edit.setValue key property v).Replaces slot b) b r.2 := by
      unfold Batch.setValue at h
      split at h
      · subst h
        exact .refl hb
      · rename_i stored hcheck
        subst h
        refine (Batch.advances_setValue hb key property stored).mono
          (fun k hk => ⟨hk, ?_⟩) fun _ hr => hr
        -- the checks have found the object
        have ho : b.working.contains key = true := by
          unfold Batch.checkWrite at hcheck
          split at hcheck
          · cases hcheck
          · rename_i e he
            exact Snapshot.contains_iff.mpr ⟨e, he⟩
        simp only [Batch.edit, ho, if_true]
    refine (hwrites _ rfl).mono ?_ fun _ hr => hr
    rintro k ⟨rfl, hok⟩
    refine .inl (.inl ⟨rfl, ?_⟩)
    simp only [outcome, hok, Except.map]
  | elements c e => exact advances_elements hb c e
  | assign c vs =>
    cases ho : b.view.contains c.key.owner with
    | false =>
      have hrefused : (Edit.assign c vs).apply schema b = b := by
        simp only [apply, Container.guarded_batch, ho, Bool.false_eq_true, if_false]
      rw [hrefused]
      exact .refl hb
    | true =>
      have happly : (Edit.assign c vs).apply schema b = (c.assign vs b).2 := by
        simp only [apply, Container.guarded_batch, ho, if_true]
      have houtcome : (Edit.assign c vs).outcome schema b =
          (c.assign vs b).1.map fun _ => true := by
        simp only [outcome, Container.guarded, ho, if_true]
      rw [happly]
      exact advances_of_does rfl rfl houtcome (Container.does_assign hb ho vs)

end Edit

/-! ## Several writes -/

/-- One of several writes satisfies a condition on the batch that it is applied to. -/
def Among (schema : Schema) (p : Batch → Edit → Prop) (b : Batch) : List Edit → Prop
  | [] => False
  | e :: es => p b e ∨ Among schema p (e.apply schema b) es

theorem Batch.advances_foldl (schema : Schema) (es : List Edit) {b : Batch}
    (hb : b.view.Numbered) :
    Advances (fun key => Among schema (Edit.Stamps key schema) b es)
      (fun slot => Among schema (Edit.Replaces slot) b es) b
      (es.foldl (Edit.apply schema) b) := by
  induction es generalizing b with
  | nil => exact .refl hb
  | cons e es ih =>
    have hfirst : Advances _ _ b (e.apply schema b) := e.advances hb
    have hrest := ih hfirst.numbered
    exact (hfirst.mono (fun _ => .inl) fun _ => .inl).trans
      (hrest.mono (fun _ => .inr) fun _ => .inr)

end ObjectStore
