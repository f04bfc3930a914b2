import ObjectStore.Proofs.Run.Commits
import ObjectStore.Proofs.Run.Stamps

/-
  The history of a database.

  Between two committed snapshots lie the commits of the generations after the first one
  and up to the second one. Each publishes what one session wrote since it entered its
  write. So the later snapshot keeps of the earlier one whatever none of these writes has
  touched, and all that a single write keeps.

    1. `World.Commits` is one commit with the writes in it, `World.CommittedBetween` that
       one of the commits between two generations has made a certain write.
    2. `World.HeldDuring.develops`: what any snapshot that is held keeps of an earlier one.
    3. `World.HeldDuring.numbered` and `World.numbered_batch`: in every snapshot that is
       held and in every batch, keys and slots were handed out and tell everything apart.
    4. `World.HeldDuring.stamps_le`: nothing is stamped after the generation it is in.
-/

namespace ObjectStore

/-! ## Commits -/

/-- What a session has written since it last entered a write, after one more call. -/
def Call.draft (w : World) (s : SessionId) (es : List Edit) (c : Call) : List Edit :=
  match c.effect w with
  | .move s' .enter => if s' = s then [] else es
  | .move s' (.write e) => if s' = s then es ++ [e] else es
  | _ => es

namespace World

/-- What a session has written since it last entered a write, after more calls. -/
def draft (s : SessionId) (es : List Edit) (w : World) : List Call → List Edit
  | [] => es
  | c :: cs => draft s (c.draft w s es) (c.perform w) cs

/-- A session has published what it wrote since it entered its write: these writes,
applied to what was the latest snapshot. -/
def Commits (cs : List Call) (d : DatabaseId) (schema : Schema) (base : Snapshot)
    (es : List Edit) : Prop :=
  ∃ before publish s x, before ++ [publish] <+: cs ∧
    publish.effect (empty.run before) = .move s .publish ∧
    (empty.run before).session? s = some x ∧ x.database = d ∧
    schema = ((empty.run before).database d).schema ∧
    base = ((empty.run before).database d).engine.latest ∧ es = draft s [] empty before

/-- A commit of a generation after `g` and up to `h` contains a write that satisfies a
condition on the batch that it was applied to. -/
def CommittedBetween (cs : List Call) (d : DatabaseId) (g h : Generation)
    (p : Schema → Batch → Edit → Prop) : Prop :=
  ∃ schema base es, Commits cs d schema base es ∧ g ≤ base.generation ∧ base.generation < h ∧
    Among schema (p schema) (.start base) es

theorem CommittedBetween.mono {cs cs' : List Call} {d : DatabaseId} {g h h' : Generation}
    {p : Schema → Batch → Edit → Prop} (hc : CommittedBetween cs d g h p) (hcs : cs <+: cs')
    (hh : h ≤ h') : CommittedBetween cs' d g h' p := by
  obtain ⟨schema, base, es, hcommit, hg, hlt, hamong⟩ := hc
  obtain ⟨before, publish, s, x, hrun, hrest⟩ := hcommit
  exact ⟨schema, base, es, ⟨before, publish, s, x, hrun.trans hcs, hrest⟩, hg,
    Nat.lt_of_lt_of_le hlt hh, hamong⟩

theorem draft_snoc (s : SessionId) (es : List Edit) (w : World) (cs : List Call) (c : Call) :
    draft s es w (cs ++ [c]) = c.draft (w.run cs) s (draft s es w cs) := by
  induction cs generalizing w es with
  | nil => rfl
  | cons d cs ih => exact ih _ _

theorem draft_of_batch {w : World} (h : w.Orderly) {s : SessionId} {x : Session}
    (hx : w.session? s = some x) (hb : x.batch.isSome = true) (c : Call) (es : List Edit) :
    c.draft w s es = es ++ c.edits w s := by
  rw [Call.draft, Call.edits]
  cases he : c.effect w with
  | move s' m =>
    cases m with
    | enter =>
      -- the lock is taken, so the session does not enter again
      have hne : s' ≠ s := by
        rintro rfl
        have hfree : (w.database x.database).engine.busy = false := Call.enabled_of_effect he hx
        obtain ⟨b, hb⟩ := Option.isSome_iff_exists.mp hb
        rw [((h.fits s' x hx).held b hb).1] at hfree
        cases hfree
      simp only [hne, if_false, List.append_nil]
    | write e =>
      simp only
      split
      · rfl
      · rw [List.append_nil]
    | _ => simp only [List.append_nil]
  | _ => simp only [List.append_nil]

/-- A batch is the latest snapshot with what its session has written since it entered. -/
theorem batch_eq_draft (cs : List Call) {s : SessionId} {x : Session} {b : Batch}
    (hx : (empty.run cs).session? s = some x) (hb : x.batch = some b) :
    b = applied ((empty.run cs).database x.database).schema
      ((empty.run cs).database x.database).engine.latest (draft s [] empty cs) := by
  induction cs using List.reverseRecOn generalizing x b with
  | nil => cases hx
  | append_singleton cs c ih =>
    have hw := orderly_run cs
    have hbase := (((orderly_run (cs ++ [c])).fits s x hx).held b hb).2.2.base_start
    rw [← hbase, draft_snoc]
    rw [run_snoc] at hx ⊢
    rcases batch_perform c hx hb with ⟨he, rfl⟩ | ⟨y, a, hy, ha, hd, rfl⟩
    · simp only [Call.draft, he, if_true]
      rfl
    · have hsome : y.batch.isSome = true := by rw [ha, Option.isSome_some]
      have hbase := ((hw.fits s y hy).held a ha).2.2.base_start
      rw [draft_of_batch hw hy hsome, (edits_steps _ _ a).base_eq, hbase, ← hd,
        schema_perform c (hw.placed s y hy), applied, List.foldl_append, ← applied, ← ih hy ha]

theorem latest_snoc (cs : List Call) (c : Call) (d : DatabaseId) :
    ((empty.run (cs ++ [c])).database d).engine.latest =
        ((empty.run cs).database d).engine.latest ∨
      ∃ schema es, Commits (cs ++ [c]) d schema ((empty.run cs).database d).engine.latest es ∧
        ((empty.run (cs ++ [c])).database d).engine.latest =
          (applied schema ((empty.run cs).database d).engine.latest es).published := by
  rw [run_snoc]
  rcases latest_perform (orderly_run cs) c d with hl | ⟨s, x, b, he, hx, rfl, hb, hl⟩
  · exact .inl hl
  · refine .inr ⟨_, _, ⟨cs, c, s, x, List.prefix_rfl, he, hx, rfl, rfl, rfl, rfl⟩, ?_⟩
    rw [hl, batch_eq_draft cs hx hb]

/-! ## What is kept from snapshot to snapshot -/

/-- The objects that a commit between two generations has stamped. -/
abbrev StampedBetween (cs : List Call) (d : DatabaseId) (g h : Generation) (key : ObjectKey) :
    Prop :=
  CommittedBetween cs d g h (Edit.Stamps key)

/-- The elements that a commit between two generations has written, other than those that
it has put in. -/
abbrev ReplacedBetween (cs : List Call) (d : DatabaseId) (g h : Generation) (slot : SlotId) :
    Prop :=
  CommittedBetween cs d g h fun _ => Edit.Replaces slot

end World

theorem Snapshot.Develops.published {g h : Generation} {written : ObjectKey → Prop}
    {renewed : SlotId → Prop} {s : Snapshot} {b : Batch}
    (hd : s.Develops g h written renewed b.view) :
    s.Develops g h written renewed b.published where
  continues := ⟨hd.continues.nextKey_le, hd.continues.origin⟩
  nextSlot_le := hd.nextSlot_le
  object := hd.object
  element := hd.element
  order := hd.order
  linked := hd.linked

namespace World

theorem develops_run (cs : List Call) (d : DatabaseId)
    (hs : ((empty.run cs).database d).engine.latest.Numbered) (more : List Call) :
    let s := ((empty.run cs).database d).engine.latest
    let s' := ((empty.run (cs ++ more)).database d).engine.latest
    s'.Numbered ∧ s.generation ≤ s'.generation ∧
      s.Develops s.generation s'.generation
        (StampedBetween (cs ++ more) d s.generation s'.generation)
        (ReplacedBetween (cs ++ more) d s.generation s'.generation) s' := by
  induction more using List.reverseRecOn with
  | nil =>
    rw [List.append_nil]
    exact ⟨hs, Nat.le_refl _, .refl _⟩
  | append_singleton more c ih =>
    obtain ⟨hnumbered, hle, hdevelops⟩ := ih
    have hpre : cs ++ more <+: cs ++ (more ++ [c]) := by
      rw [← List.append_assoc]
      exact List.prefix_append _ _
    rw [← List.append_assoc] at hpre ⊢
    rcases latest_snoc (cs ++ more) c d with hl | ⟨schema, es, hcommit, hl⟩
    · rw [hl]
      exact ⟨hnumbered, hle, hdevelops.mono (fun _ hk => hk.mono hpre (Nat.le_refl _))
        fun _ hr => hr.mono hpre (Nat.le_refl _)⟩
    · -- the writes of the commit that is made now
      have hadvances := Batch.advances_foldl schema es
        (b := .start ((empty.run (cs ++ more)).database d).engine.latest) hnumbered
      have hgeneration : (applied schema ((empty.run (cs ++ more)).database d).engine.latest
          es).published.generation =
            ((empty.run (cs ++ more)).database d).engine.latest.generation + 1 := by
        change (applied schema _ es).base.generation + 1 = _
        rw [applied, hadvances.base_eq]
        rfl
      simp only [hl, hgeneration]
      have hnow {p : Schema → Batch → Edit → Prop}
          (hp : Among schema (p schema)
            (.start ((empty.run (cs ++ more)).database d).engine.latest) es) :
          CommittedBetween (cs ++ more ++ [c]) d
            ((empty.run cs).database d).engine.latest.generation
            (((empty.run (cs ++ more)).database d).engine.latest.generation + 1) p :=
        ⟨schema, _, es, hcommit, hle, Nat.lt_succ_self _, hp⟩
      refine ⟨Batch.numbered_published hadvances.numbered, Nat.le_succ_of_le hle, ?_⟩
      refine ((hdevelops.widen (Nat.le_refl _) (Nat.le_succ _)).mono
        (fun _ hk => hk.mono hpre (Nat.le_succ _))
        fun _ hr => hr.mono hpre (Nat.le_succ _)).trans ?_
      exact ((hadvances.develops.widen hle (Nat.le_refl _)).mono (fun _ hk => hnow hk)
        fun _ hr => hnow (p := fun _ => Edit.Replaces _) hr).published

variable {cs : List Call} {d : DatabaseId} {s s' : Snapshot}

theorem numbered_latest (cs : List Call) (d : DatabaseId) :
    ((empty.run cs).database d).engine.latest.Numbered :=
  (develops_run [] d Snapshot.numbered_empty cs).1

/-- In every snapshot that anything holds, keys and slots tell everything apart. -/
theorem HeldDuring.numbered (h : HeldDuring cs d s) : s.Numbered := by
  obtain ⟨before, -, rfl⟩ := h.was_latest
  exact numbered_latest before d

theorem numbered_batch (cs : List Call) {s : SessionId} {x : Session} {b : Batch}
    (hx : (empty.run cs).session? s = some x) (hb : x.batch = some b) : b.view.Numbered := by
  rw [batch_eq_draft cs hx hb]
  have hstart : (Batch.start ((empty.run cs).database x.database).engine.latest).view.Numbered :=
    numbered_latest cs x.database
  exact (Batch.advances_foldl _ _ hstart).numbered

/-- What a snapshot that is held keeps of an earlier one. -/
theorem HeldDuring.develops (h : HeldDuring cs d s) (h' : HeldDuring cs d s')
    (hg : s.generation ≤ s'.generation) :
    s.Develops s.generation s'.generation (StampedBetween cs d s.generation s'.generation)
      (ReplacedBetween cs d s.generation s'.generation) s' := by
  rcases Nat.lt_or_eq_of_le hg with hlt | heq
  · obtain ⟨before, hpre, rfl⟩ := h.was_latest
    obtain ⟨before', hpre', rfl⟩ := h'.was_latest
    -- the later one became the latest one later
    rcases List.prefix_or_prefix_of_prefix hpre hpre' with ⟨more, rfl⟩ | ⟨more, rfl⟩
    · exact (develops_run before d (numbered_latest before d) more).2.2.mono
        (fun _ hk => hk.mono hpre' (Nat.le_refl _)) fun _ hr => hr.mono hpre' (Nat.le_refl _)
    · have hback := (develops_run before' d (numbered_latest before' d) more).2.1
      exact absurd hlt (Nat.not_lt_of_le hback)
  · rw [h.eq_of_generation h' heq]
    exact .refl s'

/-- The latest snapshot of the first database after some calls. -/
def latestAfter (cs : List Call) : Snapshot := ((empty.run cs).database ⟨0⟩).engine.latest

theorem heldDuring_latestAfter {before : List Call} (h : before <+: cs) :
    HeldDuring cs ⟨0⟩ (latestAfter before) := ⟨before, h, .engine⟩

theorem heldDuring_empty (cs : List Call) (d : DatabaseId) : HeldDuring cs d .empty :=
  ⟨[], List.nil_prefix, .engine⟩

/-- Nothing is stamped after the generation it is in. -/
theorem HeldDuring.stamps_le (h : HeldDuring cs d s) :
    (∀ key e, s.entity? key = some e → e.revision ≤ s.generation) ∧
      ∀ c, ∀ x ∈ s.elementsOf c, x.revision ≤ s.generation := by
  have hdevelops := (heldDuring_empty cs d).develops h (Nat.zero_le _)
  refine ⟨fun key e he => ?_, fun c x hx => ?_⟩
  · rcases hdevelops.object key e he with hnone | ⟨-, -, hle⟩
    · cases hnone
    · exact hle
  · rcases hdevelops.element c x hx with hnone | ⟨-, -, hle⟩
    · cases hnone
    · exact hle

end World

end ObjectStore
