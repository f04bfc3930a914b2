import ObjectStore.Container.Edit
import ObjectStore.Object.Edit
import ObjectStore.Proofs.Store.Keys

/-
  The writes of a session, as data.

  There are eleven ways to write: three on objects and eight on lists and sets.
  `Edit` names them with their operands, and `Edit.apply` is the batch that each
  leaves behind, whether it succeeds or is refused.

    1. `Edit.apply_steps`: every edit is made of the four kinds of step that a batch
       knows, so it keeps whatever they keep. Only a creation adds objects.
-/

namespace ObjectStore

/-- A write to the elements of a list or set through a handle on it. -/
inductive ElementEdit where
  | append (v : Value)
  | insert (i : Nat) (v : Value)
  | remove (i : Nat)
  | removeValue (v : Value)
  | replace (i : Nat) (v : Value)
  | clear
  | deleteObjects

/-- The batch that a write to the elements of a container leaves behind. -/
def ElementEdit.apply (c : Container) (b : Batch) : ElementEdit → Batch
  | .append v => (c.append v b).2
  | .insert i v => (c.insert i v b).2
  | .remove i => (c.remove i b).2
  | .removeValue v => (c.removeValue v b).2
  | .replace i v => (c.replace i v b).2
  | .clear => (c.clear b).2
  | .deleteObjects => (c.deleteObjects b).2

/-- A write of a session. -/
inductive Edit where
  | create (className : String) (fields : List (String × Value))
  | delete (key : ObjectKey)
  | setValue (key : ObjectKey) (property : String) (v : Value)
  | elements (c : Container) (e : ElementEdit)
  | assign (c : Container) (vs : List Value)

def Edit.Creates : Edit → Prop
  | .create _ _ => True
  | _ => False

/-- The batch that a write leaves behind. -/
def Edit.apply (schema : Schema) (b : Batch) : Edit → Batch
  | .create className fields =>
    match schema.find className with
    | .error _ => b
    | .ok c =>
      match c.checkFields fields with
      | .error _ => b
      | .ok given => (b.createObject c given).2
  | .delete key => (b.deleteObject key).2
  | .setValue key property v => (Batch.setValue schema key property v b).2
  | .elements c e => (c.guarded (fun b => (.ok (), e.apply c b)) b).2
  | .assign c vs => (c.guarded (c.assign vs) b).2

namespace Container

variable {adds : Prop}

/-- The object with the elements of one of its containers edited. -/
def rewrite (c : Container) (f : List Element → List Element) (e : Entity) : Entity :=
  match editField c.kind f (e.field? c.key.property) with
  | some field => e.put c.key.property field
  | none => e

theorem writesFields_rewrite (c : Container) (f : List Element → List Element) :
    Batch.WritesFields (c.rewrite f) := by
  intro e
  unfold rewrite
  split <;> exact ⟨rfl, rfl, rfl⟩

theorem edit_batch (c : Container) (f : List Element → List Element) (b : Batch) :
    (c.edit f b).2 = b.written c.key.owner (c.rewrite f) := by
  rw [edit, Batch.written]
  -- what the edit answers depends on the field, but what it leaves does not
  split
  · rename_i e b' heq
    have hb : (b.edit c.key.owner (c.rewrite f)).2 = b' := congrArg Prod.snd heq
    exact hb.symm
  · rename_i b' heq
    have hb : (b.edit c.key.owner (c.rewrite f)).2 = b' := congrArg Prod.snd heq
    rw [hb]
    simp only
    split <;> rfl

theorem guarded_batch {α : Type} (c : Container) (f : Batch → Except Error α × Batch)
    (b : Batch) :
    (c.guarded f b).2 = if b.view.contains c.key.owner then (f b).2 else b := by
  unfold guarded
  split <;> rfl

theorem edit_steps (c : Container) (f : List Element → List Element) (b : Batch) :
    Batch.Steps adds b (c.edit f b).2 := by
  rw [edit_batch]
  exact .single (.write _ _ (c.writesFields_rewrite f))

theorem newElements_steps (vs : List Value) (b : Batch) :
    Batch.Steps adds b (newElements b vs).2 := by
  induction vs generalizing b with
  | nil => exact .refl
  | cons v vs ih => exact .head (.allocate) (ih b.allocateSlot.2)

theorem insertNew_steps (c : Container) (i : Nat) (v : Value) (b : Batch) :
    Batch.Steps adds b (c.insertNew i v b).2 :=
  .head .allocate (c.edit_steps _ b.allocateSlot.2)

theorem append_steps (c : Container) (v : Value) (b : Batch) :
    Batch.Steps adds b (c.append v b).2 := by
  unfold append
  split
  · exact .refl
  · exact .refl
  · split
    · exact .refl
    · exact c.insertNew_steps _ _ b

theorem insert_steps (c : Container) (i : Nat) (v : Value) (b : Batch) :
    Batch.Steps adds b (c.insert i v b).2 := by
  unfold insert
  split
  · exact .refl
  · split
    · exact .refl
    · exact c.insertNew_steps _ _ b

theorem remove_steps (c : Container) (i : Nat) (b : Batch) :
    Batch.Steps adds b (c.remove i b).2 := by
  unfold remove
  split
  · exact .refl
  · split
    · exact .refl
    · exact c.edit_steps _ b

theorem removeValue_steps (c : Container) (v : Value) (b : Batch) :
    Batch.Steps adds b (c.removeValue v b).2 := by
  unfold removeValue
  split
  · exact .refl
  · split
    · exact .refl
    · exact c.edit_steps _ b

theorem replace_steps (c : Container) (i : Nat) (v : Value) (b : Batch) :
    Batch.Steps adds b (c.replace i v b).2 := by
  unfold replace
  split
  · exact .refl
  · split
    · exact .refl
    · exact c.edit_steps _ b

theorem assign_steps (c : Container) (vs : List Value) (b : Batch) :
    Batch.Steps adds b (c.assign vs b).2 := by
  unfold assign
  split
  · exact .refl
  · rename_i stored _
    exact (newElements_steps (arranged c.kind stored) b).trans (c.edit_steps _ _)

theorem removeAll_steps (keys : List ObjectKey) (b : Batch) :
    Batch.Steps adds b (removeAll b keys).2 := by
  induction keys generalizing b with
  | nil => exact .refl
  | cons key keys ih => exact .head (.remove key) (ih (b.removeEntity key).2)

theorem deleteObjects_steps (c : Container) (b : Batch) :
    Batch.Steps adds b (c.deleteObjects b).2 := by
  unfold deleteObjects
  split
  · exact .refl
  · split
    · exact .refl
    · exact removeAll_steps _ b

end Container

theorem ElementEdit.apply_steps {adds : Prop} (c : Container) (b : Batch) (e : ElementEdit) :
    Batch.Steps adds b (e.apply c b) := by
  cases e with
  | append v => exact c.append_steps v b
  | insert i v => exact c.insert_steps i v b
  | remove i => exact c.remove_steps i b
  | removeValue v => exact c.removeValue_steps v b
  | replace i v => exact c.replace_steps i v b
  | clear => exact c.edit_steps _ b
  | deleteObjects => exact c.deleteObjects_steps b

namespace Batch

theorem createObject_steps {adds : Prop} (ha : adds) (c : ClassSchema)
    (given : List (Property × Value)) (b : Batch) :
    Steps adds b (b.createObject c given).2 := by
  unfold createObject
  split
  · exact .refl
  · exact .head (.insert c.name ha) (.single (.write _ _ fun _ => ⟨rfl, rfl, rfl⟩))

theorem setValue_steps {adds : Prop} (schema : Schema) (key : ObjectKey) (property : String)
    (v : Value) (b : Batch) : Steps adds b (setValue schema key property v b).2 := by
  unfold setValue
  split
  · exact .refl
  · exact .single (.write _ _ fun _ => ⟨rfl, rfl, rfl⟩)

end Batch

/-- Every write is made of the four kinds of step, and only a creation adds objects. -/
theorem Edit.apply_steps (schema : Schema) (b : Batch) (e : Edit) :
    Batch.Steps e.Creates b (e.apply schema b) := by
  cases e with
  | create className fields =>
    simp only [apply]
    split
    · exact .refl
    · split
      · exact .refl
      · exact Batch.createObject_steps trivial _ _ b
  | delete key => exact .single (.remove key)
  | setValue key property v => exact Batch.setValue_steps schema key property v b
  | elements c e =>
    simp only [apply, Container.guarded_batch]
    split
    · exact e.apply_steps c b
    · exact .refl
  | assign c vs =>
    simp only [apply, Container.guarded_batch]
    split
    · exact c.assign_steps vs b
    · exact .refl

end ObjectStore
