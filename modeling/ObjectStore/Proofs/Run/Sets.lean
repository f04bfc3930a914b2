import ObjectStore.Proofs.Container.Sets
import ObjectStore.Proofs.Run.Conforming
import ObjectStore.Proofs.Run.History

/-
  Sets stay in canonical order along a run.

  A search in a set assumes that its elements are in order, and an insertion puts a new
  one where the search says. So the order has to hold in every batch, whatever was written
  in it before, and one element out of place would let later searches miss others. It
  holds as long as handles have the kind that is declared, and no value is wrapped in an
  improper way: of such values the comparison does not make an order.

    1. `Edit.canonical_apply`: what a single write keeps.
    2. `World.canonical_run`: so does every run.
    3. `World.sets_ordered`: what this means for searching and appending.
-/

namespace ObjectStore

namespace Edit

/-- All values that a write puts in as elements are well-formed. -/
def WellFormed (e : Edit) : Prop := ∀ k v, (k, v) ∈ e.offered → v.WellFormed

theorem WellFormed.proper {e : Edit} (h : e.WellFormed) : e.Proper := by
  rintro k v hv ⟨-, -, rfl⟩
  exact h k _ hv

variable {schema : Schema} {b : Batch}

/-- A write of well-formed values through a handle of the declared kind keeps all sets in
order. -/
theorem canonical_apply {e : Edit} (hs : b.view.Conforming schema) (h : b.view.Canonical)
    (hd : e.Declared schema b.view) (he : e.WellFormed) :
    (e.apply schema b).view.Canonical := by
  cases e with
  | create className fields =>
    simp only [apply]
    split
    · exact h
    · split
      · exact h
      · exact Batch.canonical_createObject hs.keyed h
  | delete key => exact Batch.canonical_removeEntity key h
  | setValue key property v => exact Batch.canonical_setValue hs.keyed h
  | elements c e =>
    simp only [apply, Container.guarded_batch]
    split
    · cases e with
      | append v => exact Container.canonical_append hd hs h (he _ v List.mem_cons_self)
      | insert i v => exact Container.canonical_insert hd hs h
      | remove i => exact Container.canonical_remove hd hs h
      | removeValue v => exact Container.canonical_removeValue hd hs h
      | replace i v => exact Container.canonical_replace hd hs h
      | clear => exact Container.canonical_edit hd hs h fun _ => .nil
      | deleteObjects => exact Container.canonical_deleteObjects h
    · exact h
  | assign c vs =>
    simp only [apply, Container.guarded_batch]
    split
    · exact Container.canonical_assign hd hs h fun v hv => he _ v (List.mem_map_of_mem hv)
    · exact h

end Edit

/-! ## Along a run -/

/-- A call that writes, if it does, well-formed values through a handle of the declared
kind. -/
def Call.Regular (w : World) (c : Call) : Prop :=
  ∀ s e x b, c.effect w = .move s (.write e) → w.session? s = some x → x.batch = some b →
    e.Declared (w.database x.database).schema b.view ∧ e.WellFormed

theorem Call.regular_begin (w : World) (t : Thread) (s : SessionId) :
    (Call.begin t s).Regular w := by
  intro s' e x b he
  simp only [Call.effect, World.entering] at he
  split at he
  · split at he
    · split at he <;> cases he
    · cases he
  · cases he

theorem Call.regular_create (w : World) (t : Thread) (s : SessionId) (className : String)
    (fields : List (String × Value)) : (Call.create t s className fields).Regular w := by
  intro s' e x b he
  simp only [Call.effect, World.writing, World.asked] at he
  split at he
  · split at he
    · split at he
      · split at he
        · cases he
          exact fun _ _ => ⟨trivial, fun k v hv => by cases hv⟩
        · cases he
      · cases he
    · cases he
  · cases he

namespace World

def Regular (w : World) : List Call → Prop
  | [] => True
  | c :: cs => c.Regular w ∧ (c.perform w).Regular cs

theorem regular_append {w : World} {cs ds : List Call} :
    w.Regular (cs ++ ds) ↔ w.Regular cs ∧ (w.run cs).Regular ds := by
  induction cs generalizing w with
  | nil => exact ⟨fun h => ⟨trivial, h⟩, And.right⟩
  | cons c cs ih => rw [List.cons_append, Regular, Regular, ih, and_assoc, run_cons]

theorem Regular.careful {w : World} {cs : List Call} (h : w.Regular cs) : w.Careful cs := by
  induction cs generalizing w with
  | nil => trivial
  | cons c cs ih =>
    refine ⟨fun s e x b he hx hb => ?_, ih h.2⟩
    obtain ⟨hd, hwf⟩ := h.1 s e x b he hx hb
    exact ⟨hd, hwf.proper⟩

/-- Along a run of regular calls all sets stay in order, in the latest snapshots and in all
batches. -/
theorem canonical_run {cs : List Call} (hcs : empty.Regular cs) :
    (∀ d, ((empty.run cs).database d).engine.latest.Canonical) ∧
      ∀ s x b, (empty.run cs).session? s = some x → x.batch = some b → b.view.Canonical := by
  induction cs using List.reverseRecOn with
  | nil => exact ⟨fun d => Snapshot.canonical_empty, fun s x b hx => by cases hx⟩
  | append_singleton cs c ih =>
    obtain ⟨hbefore, hlast, -⟩ := regular_append.mp hcs
    obtain ⟨hlatest, hbatch⟩ := ih hbefore
    have hconforming := conforming_run hbefore.careful
    rw [run_snoc]
    refine ⟨fun d => ?_, fun s x b hx hb => ?_⟩
    · rcases latest_perform (orderly_run cs) c d with hl | ⟨s, x, b, -, hx, -, hb, hl⟩
      · rw [hl]
        exact hlatest d
      · rw [hl]
        exact hbatch s x b hx hb
    · rcases batch_perform c hx hb with ⟨-, rfl⟩ | ⟨y, a, hy, ha, hd, rfl⟩
      · exact hlatest x.database
      · have hold := hbatch s y a hy ha
        have hstored := hconforming.batch s y a hy ha
        rw [← hd]
        simp only [Call.edits]
        split
        · rename_i s' e he
          split
          · rename_i hs
            obtain ⟨hdecl, hwf⟩ := hlast s e y a (hs ▸ he) hy ha
            exact Edit.canonical_apply hstored hold hdecl hwf
          · exact hold
        · exact hold

theorem HeldDuring.canonical {cs : List Call} (hcs : empty.Regular cs) {d : DatabaseId}
    {s : Snapshot} (h : HeldDuring cs d s) : s.Canonical := by
  obtain ⟨before, ⟨rest, rfl⟩, rfl⟩ := h.was_latest
  exact (canonical_run (regular_append.mp hcs).1).1 d

/-! ## Appending through a handle -/

theorem append_live {w : World} {t : Thread} {s : SessionId} {x : Session} {b : Batch}
    (hgate : w.gate t s = .ok x) (hb : x.batch = some b) (c : Container) (v : Value) :
    ((Collection.bound (.live s) c).append w t v).1 = (c.guarded (c.append v) b).1 ∧
      ((Collection.bound (.live s) c).append w t v).2.batch? s =
        some (c.guarded (c.append v) b).2 := by
  have hx := (gate_eq_ok.mp hgate).1
  have hlen := (List.getElem?_eq_some_iff.mp hx).1
  simp only [Collection.append, Collection.mutate, mutate, hgate, hb, batch?, true_and, session?,
    putSession, List.getElem?_set_self hlen, Option.bind_some]

/--
Sets are in canonical order, whatever calls are made, as long as they write well-formed
values through handles of the declared kind:

1. In every snapshot that anything holds at some moment, and in every batch, the elements
   of every stored set are in strictly ascending order.
2. In elements in this order the place that a search answers is right, and it is the place
   of an equal element just if there is one.
3. A well-formed value appended through a handle on a declared set is refused, and then
   nothing is written, only if the owner is not there or the value may not be stored. Else
   nothing is written and the answer is false, if an equal element is there; or the value is
   put in as one new element, at the only place that keeps the order, and the answer is true.
-/
theorem sets_ordered {cs : List Call} (hcs : empty.Regular cs) :
    ((∀ d s, HeldDuring cs d s → s.Canonical) ∧
      ∀ s x b, (empty.run cs).session? s = some x → x.batch = some b → b.view.Canonical) ∧
    (∀ es v, Container.Canonical es → v.WellFormed →
      (Container.placeOf es v).Right (fun e => e.value.canonicalCompare v) es ∧
        ((∃ i, Container.placeOf es v = .found i) ↔
          ∃ e ∈ es, e.value.canonicalCompare v = .eq)) ∧
    ∀ t s x b c v, (empty.run cs).gate t s = .ok x → x.batch = some b →
      c.Declared ((empty.run cs).database x.database).schema b.view →
      c.kind.container = some .set → v.WellFormed →
        let after := (Collection.bound (.live s) c).append (empty.run cs) t v
        ∃ b', after.2.batch? s = some b' ∧
          ((∃ e, after.1 = .error e ∧ b' = b ∧ (b.view.contains c.key.owner = false ∨
              Container.prepare b.view c.kind v = .error e)) ∨
            ∃ stored, Container.prepare b.view c.kind v = .ok stored ∧ stored.unwrap = v.unwrap ∧
              c.Added stored b (after.1, b')) := by
  refine ⟨⟨fun d s hs => hs.canonical hcs, (canonical_run hcs).2⟩, fun es v hes hv => ?_,
    fun t s x b c v hgate hb hd hset hv => ?_⟩
  · exact ⟨hes.right_place hv, (hes.right_place hv).found_iff⟩
  · have hx := (gate_eq_ok.mp hgate).1
    have hstored := (conforming_run hcs.careful).batch s x b hx hb
    have hcan := (canonical_run hcs).2 s x b hx hb
    obtain ⟨hanswer, hbatch⟩ := append_live hgate hb c v
    refine ⟨_, hbatch, ?_⟩
    rw [hanswer]
    cases ho : b.view.contains c.key.owner with
    | false =>
      refine .inl ⟨.staleReference (.owner c.key), ?_, ?_, .inl rfl⟩
      · simp only [Container.guarded, ho, Bool.false_eq_true, if_false]
      · simp only [Container.guarded, ho, Bool.false_eq_true, if_false]
    | true =>
      simp only [Container.guarded, ho, if_true]
      cases hprepare : Container.prepare b.view c.kind v with
      | error e =>
        refine .inl ⟨e, ?_, ?_, .inr rfl⟩
        · simp only [Container.append, hprepare]
        · simp only [Container.append, hprepare]
      | ok stored =>
        exact .inr ⟨stored, rfl, (Container.wellFormed_of_prepare hv hprepare).2,
          Container.added_append hd hstored hcan hset hv ho hprepare⟩

/-! ## A set of two numbers -/

def bags : Schema := ⟨[⟨"Bag", [⟨"numbers", .set .integer⟩]⟩]⟩

def bagNumbers : Container := ⟨⟨⟨1⟩, "numbers"⟩, .set .integer⟩

/-- Three numbers, not in order and one of them twice. -/
def numbers : Collection := .unattached (.list .integer) [.int64 2, .int64 1, .int64 2]

/-- A bag is created, and its set is made to hold these numbers. -/
def bagging : List Call :=
  [.openDatabase bags false, .openSession 0 ⟨0⟩, .begin 0 ⟨0⟩, .create 0 ⟨0⟩ "Bag" [],
    .assign 0 ⟨0⟩ ⟨1⟩ "numbers" numbers]

def bagged : Batch :=
  let elements : List Element := [⟨⟨1⟩, .int64 1, 1⟩, ⟨⟨2⟩, .int64 2, 1⟩]
  ⟨.empty, ⟨0, [⟨⟨1⟩, "Bag", [("numbers", .set elements)], 1⟩], 1, 2⟩⟩

theorem declared_bagNumbers (s : Snapshot) (h : ∀ e, s.entity? ⟨1⟩ = some e → e.className = "Bag") :
    bagNumbers.Declared bags s := by
  intro e he
  rw [h e he]
  exact ⟨⟨"numbers", .set .integer⟩, rfl, rfl⟩

theorem regular_bagging : empty.Regular bagging := by
  refine ⟨?_, ?_, Call.regular_begin _ 0 ⟨0⟩, Call.regular_create _ 0 ⟨0⟩ "Bag" [], ?_, trivial⟩
  · intro s e x b he
    cases he
  · intro s e x b he
    cases he
  · intro s e x b he hx hb
    cases he
    cases hx
    cases hb
    refine ⟨declared_bagNumbers _ fun e he => by cases he; rfl, fun k v hv => ?_⟩
    obtain ⟨n, hn, heq⟩ := List.mem_map.mp hv
    cases heq
    have hplain : ∀ n ∈ [Value.int64 2, .int64 1, .int64 2], n.WellFormed := by
      simp [Value.WellFormed]
    exact hplain v hn

/-- The set holds each number once, the smaller one first, and the larger one is found when
it is offered again. -/
theorem bagged_is_found :
    (empty.run bagging).batch? ⟨0⟩ = some bagged ∧
      ((Collection.bound (.live ⟨0⟩) bagNumbers).append (empty.run bagging) 0 (.int64 2)).1 =
        .ok false := by
  refine ⟨rfl, ?_⟩
  obtain ⟨x, hgate, hb, hd⟩ : ∃ x, (empty.run bagging).gate 0 ⟨0⟩ = .ok x ∧
      x.batch = some bagged ∧ ((empty.run bagging).database x.database).schema = bags :=
    ⟨_, rfl, rfl, rfl⟩
  have hdecl := declared_bagNumbers bagged.view fun e he => by cases he; rfl
  obtain ⟨b', -, ⟨e, -, -, hnone | herror⟩ | ⟨stored, hprepare, -, hadded⟩⟩ :=
    (sets_ordered regular_bagging).2.2 0 ⟨0⟩ x bagged bagNumbers (.int64 2) hgate hb
      (by rw [hd]; exact hdecl) rfl trivial
  · cases hnone
  · cases herror
  · cases hprepare
    generalize ((Collection.bound (.live ⟨0⟩) bagNumbers).append (empty.run bagging) 0
      (.int64 2)).1 = answer at hadded ⊢
    cases hadded with
    | kept e he heq => rfl
    | inserted _ x i hx hnew =>
      exact absurd rfl (hnew ⟨⟨2⟩, .int64 2, 1⟩ (List.mem_cons_of_mem _ List.mem_cons_self))

end World

end ObjectStore
