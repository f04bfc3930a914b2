import ObjectStore.Proofs.Change.Rebuild
import ObjectStore.Proofs.Run.History
import ObjectStore.Proofs.View.Rows

/-
  Modifications that observers are told of.

  A row is reported as modified if its revision has moved. Its revision is that of the
  object it is, or the later one of its element and of the object that the element links
  to. Every write stamps what it writes, also where it only takes a link out. So no
  change of a row goes unreported, whoever made it and however many commits ago.

  The other direction has an exception. A refused write through a handle that stands on a
  property of one value stamps the owner all the same, although it has written nothing.
  Then a row is reported that nobody has modified.

    1. `Trace.modified_of_ne` and `Trace.not_modified_of_eq`: what is reported.
    2. `Recipe.objectRow_of_mem` and `Recipe.elementRow_of_mem`: what a row is.
    3. `World.no_lost_modification`: both directions.
    4. `World.refused_write_is_reported`: the exception.
-/

namespace ObjectStore

/-! ## What is reported -/

namespace Trace

variable {old new : Trace} {id : ElementId} {revision revision' : Generation} {g : Generation}

theorem revision?_of_mem {t : Trace} (ht : t.ids.Nodup) (h : (id, revision) ∈ t) :
    t.revision? id = some revision := by
  cases hr : t.revision? id with
  | none =>
    have hnot := ChangeSet.isNone_revision?.mp (Option.isNone_iff_eq_none.mpr hr)
    exact absurd (List.mem_map_of_mem h) hnot
  | some other =>
    obtain ⟨front, back, hsplit, -⟩ := List.lookup_eq_some_iff.mp hr
    have hother : (id, other) ∈ t := by
      rw [← List.mem_reverse, hsplit]
      exact List.mem_append_right front List.mem_cons_self
    have heq := List.inj_on_of_nodup_map ht h hother rfl
    rw [(Prod.mk.inj heq).2]

/-- A row whose revision has moved is reported at its new place. -/
theorem modified_of_ne (hold : old.ids.Nodup) (h : (id, revision) ∈ old) {j : Nat}
    (hj : new[j]? = some (id, revision')) (hne : revision ≠ revision') :
    (j, id) ∈ (ChangeSet.between old new g).modifications.zip
      (ChangeSet.between old new g).modified := by
  simp only [ChangeSet.between]
  rw [← List.zip_of_prod rfl rfl, ChangeSet.pick_eq]
  refine List.mem_map.mpr ⟨((id, revision'), j), List.mem_filter.mpr ⟨?_, ?_⟩, rfl⟩
  · exact List.mem_zipIdx_iff_getElem?.mpr hj
  · simpa [revision?_of_mem hold h] using hne

/-- A row whose revision has not moved is not reported. -/
theorem not_modified_of_eq (hold : old.ids.Nodup) (hnew : new.ids.Nodup)
    (h : (id, revision) ∈ old) (h' : (id, revision) ∈ new) :
    id ∉ (ChangeSet.between old new g).modified := by
  simp only [ChangeSet.between, ChangeSet.mem_pick, revision?_of_mem hold h]
  rintro ⟨other, hother, hmoved⟩
  have heq := List.inj_on_of_nodup_map hnew h' hother rfl
  rw [← (Prod.mk.inj heq).2] at hmoved
  simp at hmoved

end Trace

/-! ## What a row is -/

namespace Recipe

variable {s : Snapshot} {row : Row}

theorem objectRow_of_mem (h : s.Keyed) {className : String}
    (hrow : row ∈ allRows s (.objects className)) :
    ∃ e, s.entity? e.key = some e ∧ row = objectRow e := by
  obtain ⟨e, he, rfl⟩ := List.mem_map.mp hrow
  exact ⟨e, h.entity?_eq_some.mpr ⟨(List.mem_filter.mp he).1, rfl⟩, rfl⟩

theorem elementRow_of_mem {key : ContainerKey} (hrow : row ∈ allRows s (.container key)) :
    ∃ x ∈ s.elementsOf key, row = elementRow s x := by
  obtain ⟨x, hx, rfl⟩ := List.mem_map.mp hrow
  exact ⟨x, hx, rfl⟩

theorem revision_le_elementRow (s : Snapshot) (x : Element) :
    x.revision ≤ (elementRow s x).revision := by
  simp only [elementRow]
  split
  · exact Nat.le_max_right _ _
  · exact Nat.le_refl _

theorem linked_le_elementRow {x : Element} {key : ObjectKey} {e : Entity}
    (hx : x.value.asObject = some key) (he : s.entity? key = some e) :
    e.revision ≤ (elementRow s x).revision := by
  simp only [elementRow, hx, Option.bind_some, he]
  exact Nat.le_max_left _ _

theorem elementRow_le {x : Element} {g : Generation} (hx : x.revision ≤ g)
    (he : ∀ key e, s.entity? key = some e → e.revision ≤ g) :
    (elementRow s x).revision ≤ g := by
  simp only [elementRow]
  split
  · rename_i e hlink
    obtain ⟨key, -, hkey⟩ := Option.bind_eq_some_iff.mp hlink
    exact Nat.max_le.mpr ⟨he key e hkey, hx⟩
  · exact hx

end Recipe

/-! ## Rows and commits -/

namespace Snapshot

/-- The fields of an object, if it is there. -/
def fieldsOf (s : Snapshot) (key : ObjectKey) : Option Fields := (s.entity? key).map (·.fields)

variable {s s' : Snapshot} {g h : Generation} {written : ObjectKey → Prop}
  {renewed : SlotId → Prop} {key : ObjectKey}

/-- An object that was not written is the same as before, unless it is gone. -/
theorem Develops.same_object (hd : s.Develops g h written renewed s') (hw : ¬written key)
    {e' : Entity} (he' : s'.entity? key = some e') : s.entity? key = some e' := by
  rcases hd.object key e' he' with hold | ⟨hnew, -⟩
  · exact hold
  · exact absurd hnew hw

theorem Develops.lt_revision (hd : s.Develops g h written renewed s')
    (hf : s.fieldsOf key ≠ s'.fieldsOf key) {e' : Entity} (he' : s'.entity? key = some e') :
    g < e'.revision := by
  rcases hd.object key e' he' with hold | ⟨-, hlt, -⟩
  · exact absurd (by rw [fieldsOf, fieldsOf, hold, he']) hf
  · exact hlt

theorem Develops.same_element (hs : s.Slotted) (hd : s.Develops g h written renewed s')
    {c : ContainerKey} {x x' : Element} (hx : x ∈ s.elementsOf c) (hx' : x' ∈ s'.elementsOf c)
    (hslot : x.slot = x'.slot) : x' = x ∨ renewed x.slot ∧ g < x'.revision := by
  rcases hd.element c x' hx' with hold | ⟨hrenewed | hnew, hlt, -⟩
  · exact .inl (List.inj_on_of_nodup_map (hs.distinct c) hold hx hslot.symm)
  · exact .inr ⟨by rwa [hslot], hlt⟩
  · rw [← hslot] at hnew
    exact absurd (hs.bounded c x hx) (Nat.not_le_of_lt hnew)

end Snapshot

namespace World

variable {cs : List Call} {d : DatabaseId} {s s' : Snapshot}

/-- The row has another value, or the object that it is or links to has other fields. -/
def Differs (s s' : Snapshot) (row row' : Row) : Prop :=
  row.value ≠ row'.value ∨
    ∃ key, row.value.asObject = some key ∧ s.fieldsOf key ≠ s'.fieldsOf key

/-- No commit between two snapshots has written the object that a row is or links to, or
tried to through a handle that missed, or has written the element that the row is. -/
structure Unwritten (cs : List Call) (d : DatabaseId) (s s' : Snapshot) (row : Row) : Prop where
  object : ∀ key, row.value.asObject = some key →
    ¬CommittedBetween cs d s.generation s'.generation (Edit.Writes key)
  missed : ∀ key, row.value.asObject = some key →
    ¬CommittedBetween cs d s.generation s'.generation (Edit.Misses key)
  element : ∀ slot, row.id = .slot slot →
    ¬CommittedBetween cs d s.generation s'.generation fun _ => Edit.Replaces slot

theorem Among.or {schema : Schema} {p q : Batch → Edit → Prop} {b : Batch} {es : List Edit}
    (h : Among schema (fun b e => p b e ∨ q b e) b es) :
    Among schema p b es ∨ Among schema q b es := by
  induction es generalizing b with
  | nil => exact h.elim
  | cons e es ih =>
    rcases h with (hp | hq) | h
    · exact .inl (.inl hp)
    · exact .inr (.inl hq)
    · exact (ih h).imp .inr .inr

theorem Unwritten.not_stamped {row : Row} (h : Unwritten cs d s s' row) {key : ObjectKey}
    (hkey : row.value.asObject = some key) :
    ¬StampedBetween cs d s.generation s'.generation key := by
  rintro ⟨schema, base, es, hcommit, hg, hlt, hamong⟩
  rcases Among.or hamong with hwrites | hmisses
  · exact h.object key hkey ⟨schema, base, es, hcommit, hg, hlt, hwrites⟩
  · exact h.missed key hkey ⟨schema, base, es, hcommit, hg, hlt, hmisses⟩

section

variable (hs : HeldDuring cs d s) (hs' : HeldDuring cs d s') (hg : s.generation ≤ s'.generation)

include hs hs' hg

theorem objectRow_between {e e' : Entity} (he : s.entity? e.key = some e)
    (he' : s'.entity? e'.key = some e') (hkey : e.key = e'.key) :
    (Differs s s' (Recipe.objectRow e) (Recipe.objectRow e') →
      (Recipe.objectRow e).revision ≤ s.generation ∧
        s.generation < (Recipe.objectRow e').revision) ∧
    (Unwritten cs d s s' (Recipe.objectRow e) →
      (Recipe.objectRow e).revision = (Recipe.objectRow e').revision) := by
  have hdevelops := hs.develops hs' hg
  constructor
  · rintro (hvalue | ⟨key, hlink, hfields⟩)
    · exact absurd (by simp only [Recipe.objectRow, hkey]) hvalue
    · obtain rfl : e.key = key := Option.some.inj hlink
      rw [← hkey] at he'
      exact ⟨hs.stamps_le.1 e.key e he, hdevelops.lt_revision hfields he'⟩
  · intro hunwritten
    rw [← hkey] at he'
    have hsame := hdevelops.same_object (hunwritten.not_stamped rfl) he'
    obtain rfl := Option.some.inj (he.symm.trans hsame)
    rfl

theorem elementRow_between {c : ContainerKey} {x x' : Element} (hx : x ∈ s.elementsOf c)
    (hx' : x' ∈ s'.elementsOf c) (hslot : x.slot = x'.slot) :
    (Differs s s' (Recipe.elementRow s x) (Recipe.elementRow s' x') →
      (Recipe.elementRow s x).revision ≤ s.generation ∧
        s.generation < (Recipe.elementRow s' x').revision) ∧
    (Unwritten cs d s s' (Recipe.elementRow s x) →
      (Recipe.elementRow s x).revision = (Recipe.elementRow s' x').revision) := by
  have hdevelops := hs.develops hs' hg
  have hle := hs.stamps_le
  rcases hdevelops.same_element hs.numbered.slotted hx hx' hslot with rfl | ⟨hrenewed, hlt⟩
  -- the element was not written; what differs is the object that it links to
  · have hgone {key : ObjectKey} (hlink : x'.value.asObject = some key)
        (hnone : s'.entity? key = none) : s.entity? key = none := by
      cases he : s.entity? key with
      | none => rfl
      | some e =>
        rcases hdevelops.linked c x' hx' key hlink (Snapshot.contains_iff.mpr ⟨e, he⟩) with hc | hlt
        · rw [Snapshot.contains, hnone] at hc
          cases hc
        · exact absurd (hle.2 c x' hx) (Nat.not_le_of_lt hlt)
    constructor
    · rintro (hvalue | ⟨key, hlink, hfields⟩)
      · exact absurd rfl hvalue
      · refine ⟨Recipe.elementRow_le (hle.2 c x' hx) hle.1, ?_⟩
        cases he' : s'.entity? key with
        | some e' =>
          exact Nat.lt_of_lt_of_le (hdevelops.lt_revision hfields he')
            (Recipe.linked_le_elementRow hlink he')
        | none =>
          refine absurd ?_ hfields
          rw [Snapshot.fieldsOf, Snapshot.fieldsOf, hgone hlink he', he']
    · intro hunwritten
      simp only [Recipe.elementRow]
      cases hlink : x'.value.asObject with
      | none => rfl
      | some key =>
        have hsame : s'.entity? key = s.entity? key := by
          cases he' : s'.entity? key with
          | some e' => exact (hdevelops.same_object (hunwritten.not_stamped hlink) he').symm
          | none => exact (hgone hlink he').symm
        simp only [Option.bind_some, hsame]
  · refine ⟨fun _ => ⟨Recipe.elementRow_le (hle.2 c x hx) hle.1, ?_⟩, fun hunwritten => ?_⟩
    · exact Nat.lt_of_lt_of_le hlt (Recipe.revision_le_elementRow s' x')
    · exact absurd hrenewed (hunwritten.element x.slot rfl)

end

/--
No modification is lost. Take a row of a view in two snapshots of a database, the second
of a later generation, that anything holds at some moments of a run:

1. If the row has another value, or the object that it is or links to has other fields,
   then its revision in the first one is not after that generation, its revision in the
   second one is, and it is reported as modified at its new place.
2. If no commit between the two has written the element or this object, and none has
   tried to write the object through a handle that missed, then the revisions are the
   same, and the row is not reported.
-/
theorem no_lost_modification {cs : List Call} {d : DatabaseId} {s s' : Snapshot}
    (hs : HeldDuring cs d s) (hs' : HeldDuring cs d s') (hlt : s.generation < s'.generation)
    (r : Recipe) {i j : Nat} {row row' : Row} (hi : (r.rowsOrNone s)[i]? = some row)
    (hj : (r.rowsOrNone s')[j]? = some row') (hid : row.id = row'.id) :
    let changes := ChangeSet.between (Trace.ofRows (r.rowsOrNone s))
      (Trace.ofRows (r.rowsOrNone s')) s'.generation
    (Differs s s' row row' →
      row.revision ≤ s.generation ∧ s.generation < row'.revision ∧
        (j, row.id) ∈ changes.modifications.zip changes.modified) ∧
    (Unwritten cs d s s' row →
      row.revision = row'.revision ∧ row.id ∉ changes.modified) := by
  intro changes
  have hids (m : Snapshot) :
      (Trace.ofRows (r.rowsOrNone m)).ids = (r.rowsOrNone m).map (·.id) := List.map_map
  have hold : (Trace.ofRows (r.rowsOrNone s)).ids.Nodup := by
    rw [hids]
    exact Recipe.nodup_ids hs.numbered r
  have hnew : (Trace.ofRows (r.rowsOrNone s')).ids.Nodup := by
    rw [hids]
    exact Recipe.nodup_ids hs'.numbered r
  have hrow : row ∈ r.rowsOrNone s := List.mem_of_getElem? hi
  have hrow' : row' ∈ r.rowsOrNone s' := List.mem_of_getElem? hj
  have hin : (row.id, row.revision) ∈ Trace.ofRows (r.rowsOrNone s) :=
    List.mem_map_of_mem (f := fun r : Row => (r.id, r.revision)) hrow
  have hin' : (row.id, row'.revision) ∈ Trace.ofRows (r.rowsOrNone s') := by
    rw [hid]
    exact List.mem_map_of_mem (f := fun r : Row => (r.id, r.revision)) hrow'
  have hplace : (Trace.ofRows (r.rowsOrNone s'))[j]? = some (row.id, row'.revision) := by
    rw [Trace.ofRows, List.getElem?_map, hj, hid]
    rfl
  -- by the source that both rows are of
  have hbetween : (Differs s s' row row' →
      row.revision ≤ s.generation ∧ s.generation < row'.revision) ∧
      (Unwritten cs d s s' row → row.revision = row'.revision) := by
    have hsource := Recipe.mem_source hrow
    have hsource' := Recipe.mem_source hrow'
    cases hr : r.source with
    | objects className =>
      rw [hr] at hsource hsource'
      obtain ⟨e, he, rfl⟩ := Recipe.objectRow_of_mem hs.numbered.keyed hsource
      obtain ⟨e', he', rfl⟩ := Recipe.objectRow_of_mem hs'.numbered.keyed hsource'
      exact objectRow_between hs hs' (Nat.le_of_lt hlt) he he' (ElementId.object.inj hid)
    | container key =>
      rw [hr] at hsource hsource'
      obtain ⟨x, hx, rfl⟩ := Recipe.elementRow_of_mem hsource
      obtain ⟨x', hx', rfl⟩ := Recipe.elementRow_of_mem hsource'
      exact elementRow_between hs hs' (Nat.le_of_lt hlt) hx hx' (ElementId.slot.inj hid)
  refine ⟨fun hdiffers => ?_, fun hunwritten => ?_⟩
  · obtain ⟨hle, hgt⟩ := hbetween.1 hdiffers
    exact ⟨hle, hgt, Trace.modified_of_ne hold hin hplace
      (Nat.ne_of_lt (Nat.lt_of_le_of_lt hle hgt))⟩
  · have hsame := hbetween.2 hunwritten
    rw [← hsame] at hin'
    exact ⟨hsame, Trace.not_modified_of_eq hold hnew hin hin'⟩

/-! ## A refused write -/

/-- Two classes with tags, several for the one and a single one for the other. -/
def tagSchema : Schema :=
  ⟨[⟨"Dog", [⟨"tags", .list .string⟩]⟩, ⟨"Person", [⟨"tags", .scalar .string⟩]⟩]⟩

/-- A dog is created in a write that is cancelled, and a person in another one. -/
def personForDog : List Call :=
  [.openDatabase tagSchema false, .openSession 0 ⟨0⟩, .begin 0 ⟨0⟩, .create 0 ⟨0⟩ "Dog" [],
    .cancel 0 ⟨0⟩, .begin 0 ⟨0⟩, .create 0 ⟨0⟩ "Person" [], .commit 0 ⟨0⟩]

def untagged : Snapshot := ((empty.run personForDog).database ⟨0⟩).engine.latest

def persons : Recipe := .ofSource (.objects "Person")

/-- The person is given a tag in a write of its own. -/
def taggingPerson : List Call :=
  [.begin 0 ⟨0⟩, .setValue 0 ⟨0⟩ ⟨1⟩ "tags" (.string "x"), .commit 0 ⟨0⟩]

/-- The tag is reported. -/
theorem tag_is_reported :
    let tagged := ((empty.run (personForDog ++ taggingPerson)).database ⟨0⟩).engine.latest
    let changes := ChangeSet.between (Trace.ofRows (persons.rowsOrNone untagged))
      (Trace.ofRows (persons.rowsOrNone tagged)) tagged.generation
    (0, .object ⟨1⟩) ∈ changes.modifications.zip changes.modified := by
  have huntagged : HeldDuring (personForDog ++ taggingPerson) ⟨0⟩ untagged :=
    ⟨personForDog, List.prefix_append _ _, .engine⟩
  have htagged : HeldDuring (personForDog ++ taggingPerson) ⟨0⟩
      ((empty.run (personForDog ++ taggingPerson)).database ⟨0⟩).engine.latest :=
    ⟨_, List.prefix_rfl, .engine⟩
  have hlt : untagged.generation <
      ((empty.run (personForDog ++ taggingPerson)).database ⟨0⟩).engine.latest.generation := by
    decide
  have hrow : (persons.rowsOrNone untagged)[0]? = some ⟨.object ⟨1⟩, .object ⟨1⟩, 1⟩ := rfl
  have hrow' : (persons.rowsOrNone
      ((empty.run (personForDog ++ taggingPerson)).database ⟨0⟩).engine.latest)[0]? =
        some ⟨.object ⟨1⟩, .object ⟨1⟩, 2⟩ := rfl
  have hreported := no_lost_modification huntagged htagged hlt persons hrow hrow' rfl
  refine (hreported.1 (.inr ⟨⟨1⟩, rfl, ?_⟩)).2.2
  decide

/-- The tags of the dog that is not there any more. -/
def dogsTags : Container := ⟨⟨⟨1⟩, "tags"⟩, .list .string⟩

/-- A tag is offered to the dog, and the write is committed. -/
def taggingDog : List Call :=
  [.begin 0 ⟨0⟩, .elements 0 (.bound (.live ⟨0⟩) dogsTags) (.append (.string "x")), .commit 0 ⟨0⟩]

def mistagged : Snapshot := ((empty.run (personForDog ++ taggingDog)).database ⟨0⟩).engine.latest

/-- Whether the call at a place of the run publishes a batch. -/
def publishesAt (k : Nat) : Bool :=
  match (personForDog ++ taggingDog)[k]? with
  | some c =>
    match c.effect (empty.run ((personForDog ++ taggingDog).take k)) with
    | .move _ .publish => true
    | _ => false
  | none => false

theorem publishesAt_cases : ∀ k < 11, publishesAt k = true → k = 7 ∨ k = 10 := by decide

/-- The one write in the second commit is refused, and leaves the person as it is but for
the stamp. -/
theorem not_written_in_taggingDog :
    ¬CommittedBetween (personForDog ++ taggingDog) ⟨0⟩ untagged.generation mistagged.generation
      (Edit.Writes ⟨1⟩) := by
  rintro ⟨schema, base, es, ⟨before, publish, t, x, hrun, heffect, -, -, hschema, hbase, hes⟩,
    hg, -, hamong⟩
  obtain ⟨rest, hrest⟩ := hrun
  have hat : (personForDog ++ taggingDog)[before.length]? = some publish := by
    rw [← hrest]
    simp
  have hbefore : (personForDog ++ taggingDog).take before.length = before := by
    rw [← hrest]
    simp
  have hlt : before.length < 11 := (List.getElem?_eq_some_iff.mp hat).1
  have hpublishes : publishesAt before.length = true := by
    rw [publishesAt, hat, hbefore]
    simp only [heffect]
  rcases publishesAt_cases before.length hlt hpublishes with hk | hk
  -- the first commit is that of the person
  · rw [hk] at hbefore
    subst hbefore hbase
    exact absurd hg (by decide)
  · rw [hk] at hat hbefore
    subst hbefore
    obtain rfl : Call.commit 0 ⟨0⟩ = publish := Option.some.inj hat
    cases heffect
    subst hschema hbase hes
    rcases hamong with (⟨-, hanswer⟩ | ⟨hnew, -⟩ | ⟨gone, e, hgone, hgone', -⟩) | hnone
    · exact absurd hanswer (by decide)
    · exact absurd hnew (by decide)
    -- the person is the only object, and stays
    · obtain ⟨y, hy⟩ := Snapshot.contains_iff.mp hgone
      have hall : ∀ y ∈ untagged.entities, y.key = ⟨1⟩ := by decide
      have hkey := hall y (Snapshot.mem_of_entity? hy)
      rw [Snapshot.key_of_entity? hy] at hkey
      subst hkey
      exact absurd hgone' (by decide)
    · exact hnone

/-- The handle on the dog's tags was made by the session, and after the cancellation it
stands on the person. Nothing is written through it, since the tag of a person is no list.
Yet the person is stamped and reported as modified. -/
theorem refused_write_is_reported :
    let cs := personForDog ++ taggingDog
    let changes := ChangeSet.between (Trace.ofRows (persons.rowsOrNone untagged))
      (Trace.ofRows (persons.rowsOrNone mistagged)) mistagged.generation
    (empty.run (personForDog.take 4)).list 0 ⟨0⟩ ⟨1⟩ "tags" = .ok (.bound (.live ⟨0⟩) dogsTags) ∧
      HeldDuring cs ⟨0⟩ untagged ∧ HeldDuring cs ⟨0⟩ mistagged ∧
      untagged.generation < mistagged.generation ∧
      ¬CommittedBetween cs ⟨0⟩ untagged.generation mistagged.generation (Edit.Writes ⟨1⟩) ∧
      persons.rowsOrNone untagged = [⟨.object ⟨1⟩, .object ⟨1⟩, 1⟩] ∧
      persons.rowsOrNone mistagged = [⟨.object ⟨1⟩, .object ⟨1⟩, 2⟩] ∧
      untagged.fieldsOf ⟨1⟩ = mistagged.fieldsOf ⟨1⟩ ∧
      changes.modified = [.object ⟨1⟩] := by
  refine ⟨rfl, ⟨personForDog, List.prefix_append _ _, .engine⟩, ⟨_, List.prefix_rfl, .engine⟩,
    by decide, not_written_in_taggingDog, rfl, rfl, by decide, by decide⟩

end World

end ObjectStore
