import ObjectStore.Proofs.Run.Answers
import ObjectStore.Proofs.Run.Handover
import ObjectStore.Proofs.Run.Scopes
import ObjectStore.Proofs.Run.Serving

/-
  What other sessions do is not seen.

  A session reads its own snapshot, or its own batch, and nothing that is done through
  another session replaces either. Its generation grows only by its own steps, and a
  snapshot that it moves to has been the latest one.

  A frozen handle reads one snapshot for ever. It keeps rows too, under the one version
  that a snapshot has, so they are always those of its recipe (`Reader.Pinned`).

    1. `Reader.elsewhere_run`: steps through other sessions leave a session alone.
    2. `Reader.generation_run`: the generation of a session never decreases.
    3. `Results.standsFor_of_freeze` and `Collection.standsFor_of_freeze`: a frozen handle
       stands for the live one at the moment of freezing, whatever is done afterwards.
    4. `Reader.Coherent.handleAll`: views keep the right rows, live or frozen.
    5. `Reader.sessions_are_isolated` puts (1) to (3) together.
-/

namespace ObjectStore

/-! ## Steps through other sessions -/

/-- A step that is not made through a session: a call through another one or through none,
or a mere read. -/
def Use.Elsewhere (s : SessionId) : Use → Prop
  | .call c => c.through ≠ some s
  | .read _ _ => True
  | .observe _ => False

namespace Reader

variable {r : Reader} {s : SessionId} {recipe : Recipe} {x : Session}

theorem elsewhere_perform (hr : r.world.Orderly) (hx : r.world.session? s = some x) {u : Use}
    (hu : u.Elsewhere s) : (r.perform u).world.session? s = some x ∧
      (r.perform u).world.schemaOf s = r.world.schemaOf s := by
  cases u with
  | call c =>
    have hx' := World.session?_perform_of_through hu hx
    refine ⟨hx', ?_⟩
    simp only [perform, World.schemaOf, hx, hx']
    exact World.schema_perform c (hr.placed s x hx)
  | read t read => exact ⟨hx, rfl⟩
  | observe t => exact absurd hu id

/-- A session stays as it is while all steps are made through others. -/
theorem elsewhere_run (hr : r.world.Orderly) (hx : r.world.session? s = some x) {us : List Use}
    (hus : ∀ u ∈ us, u.Elsewhere s) : (r.run us).world.session? s = some x ∧
      (r.run us).world.schemaOf s = r.world.schemaOf s := by
  induction us generalizing r with
  | nil => exact ⟨hx, rfl⟩
  | cons u us ih =>
    obtain ⟨hx', hschema⟩ := elsewhere_perform hr hx (hus u List.mem_cons_self)
    obtain ⟨hx'', hschema'⟩ :=
      ih (orderly_perform hr u) hx' fun v hv => hus v (List.mem_cons_of_mem u hv)
    exact ⟨hx'', hschema'.trans hschema⟩

/-! ## Generations -/

theorem world_perform (r : Reader) (u : Use) :
    (r.perform u).world = r.world ∨ ∃ c : Call, (r.perform u).world = c.perform r.world := by
  cases u with
  | call c => exact .inr ⟨c, rfl⟩
  | read t read => exact .inl rfl
  | observe t => exact .inr ⟨_, (observe_cases r t).2⟩

theorem generation_perform (hr : r.world.Orderly) (hx : r.world.session? s = some x) (u : Use) :
    ∃ x', (r.perform u).world.session? s = some x' ∧ x'.database = x.database ∧
      x.snapshot.generation ≤ x'.snapshot.generation := by
  rcases r.world_perform u with hsame | ⟨c, hcalled⟩
  · rw [hsame]
    exact ⟨x, hx, rfl, Nat.le_refl _⟩
  · rw [hcalled]
    obtain ⟨x', hx', hserves⟩ := Call.serves_perform hr hx c
    obtain ⟨y, hy, hd⟩ := World.session?_perform c hx
    obtain rfl := Option.some.inj (hx'.symm.trans hy)
    refine ⟨x', hx', hd, ?_⟩
    cases hserves with
    | stays keep delivering hs => exact Nat.le_of_eq (congrArg Snapshot.generation hs.symm)
    | takes hs => exact Nat.le_of_eq (congrArg Snapshot.generation hs.symm)
    | clears hs => exact Nat.le_of_eq (congrArg Snapshot.generation hs.symm)
    | registers recipe he hs => exact Nat.le_of_eq (congrArg Snapshot.generation hs.symm)
    | advances hg => exact Nat.le_of_lt hg

/-- The generation of a session never decreases. -/
theorem generation_run (hr : r.world.Orderly) (hx : r.world.session? s = some x)
    (us : List Use) : ∃ x', (r.run us).world.session? s = some x' ∧ x'.database = x.database ∧
      x.snapshot.generation ≤ x'.snapshot.generation := by
  induction us generalizing r x with
  | nil => exact ⟨x, hx, rfl, Nat.le_refl _⟩
  | cons u us ih =>
    obtain ⟨y, hy, hd, hle⟩ := generation_perform hr hx u
    obtain ⟨x', hx', hd', hle'⟩ := ih (orderly_perform hr u) hy
    exact ⟨x', hx', hd'.trans hd, Nat.le_trans hle hle'⟩

end Reader

/-! ## Derived views -/

/-- One view derived from another. -/
inductive Derivation where
  | filter (e : Expr)
  | sorted (key : Reference) (ascending : Bool)
  | distinct (key : Reference)

namespace Results

variable {v f : Results} {w : World} {t : Thread}

def derive (v : Results) : Derivation → Results
  | .filter e => v.filter e
  | .sorted key ascending => v.sorted key ascending
  | .distinct key => v.distinct key

/-- The view that derivations give, one after the other. -/
def derived (v : Results) (ds : List Derivation) : Results := ds.foldl derive v

theorem derive_eq (v : Results) (d : Derivation) :
    v.derive d = .ofRecipe v.binding (v.derive d).recipe := by
  cases d <;> rfl

theorem recipe_derive (h : v.recipe = f.recipe) (d : Derivation) :
    (v.derive d).recipe = (f.derive d).recipe := by
  cases d <;> simp only [derive, filter, sorted, distinct, ofRecipe, h]

theorem binding_derived (v : Results) (ds : List Derivation) :
    (v.derived ds).binding = v.binding := by
  induction ds generalizing v with
  | nil => rfl
  | cons d ds ih => exact (ih (v.derive d)).trans (by rw [derive_eq]; rfl)

theorem fresh_derived (h : v.Fresh w t) (ds : List Derivation) : (v.derived ds).Fresh w t := by
  induction ds generalizing v with
  | nil => exact h
  | cons d ds ih =>
    apply ih
    rw [derive_eq]
    exact fresh_ofRecipe _ _ w t

end Results

/-! ## Frozen views -/

/-- What can be done where a view is held: a step of a run, the view replaced by one derived
from it, or by itself frozen. -/
inductive Handling where
  | use (u : Use)
  | derive (d : Derivation)
  | freeze (t : Thread)

namespace Handling

def derivations : List Handling → List Derivation
  | [] => []
  | .derive d :: hs => d :: derivations hs
  | _ :: hs => derivations hs

end Handling

namespace Reader

/-- The world and the view after something is done. -/
def handle (r : Reader) : Handling → Reader
  | .use u => r.perform u
  | .derive d => ⟨r.world, r.view.derive d⟩
  | .freeze t => ⟨r.world, (r.view.freeze r.world t).toOption.getD r.view⟩

/-- The world and the view after much is done. -/
def handleAll (r : Reader) (hs : List Handling) : Reader := hs.foldl handle r

/-- The view is of one snapshot and a recipe, and the rows that it keeps are those of this
recipe there. -/
structure Pinned (r : Reader) (snapshot : Snapshot) (recipe : Recipe) : Prop where
  binding_eq : r.view.binding = .frozen snapshot
  recipe_eq : r.view.recipe = recipe
  kept : ∀ n rows, r.view.kept = some (n, rows) → recipe.rows snapshot = .ok rows

variable {r : Reader} {snapshot : Snapshot} {recipe : Recipe} {t : Thread}

theorem pinned_ofRecipe (w : World) (snapshot : Snapshot) (recipe : Recipe) :
    (⟨w, .ofRecipe (.frozen snapshot) recipe⟩ : Reader).Pinned snapshot recipe :=
  ⟨rfl, rfl, fun n rows h => by cases h⟩

theorem Pinned.rows (h : r.Pinned snapshot recipe) (t : Thread) :
    (r.view.rows r.world t).1 = recipe.rows snapshot ∧
      (⟨r.world, (r.view.rows r.world t).2⟩ : Reader).Pinned snapshot recipe := by
  have hevaluate : (r.view.evaluate snapshot 0).1 = recipe.rows snapshot ∧
      (⟨r.world, (r.view.evaluate snapshot 0).2⟩ : Reader).Pinned snapshot recipe := by
    rw [Results.evaluate, h.recipe_eq]
    cases hrows : recipe.rows snapshot with
    | error e => exact ⟨rfl, h⟩
    | ok rows =>
      refine ⟨rfl, h.binding_eq, rfl, fun n rows' hkept => ?_⟩
      cases hkept
      exact hrows
  rw [Results.rows, Results.source, h.binding_eq]
  simp only [Binding.read, Results.rowsAt]
  split
  · rename_i known rows hkept
    split
    · exact ⟨(h.kept known rows hkept).symm, h⟩
    · exact hevaluate
  · exact hevaluate

theorem Pinned.fresh (h : r.Pinned snapshot recipe) (t : Thread) : r.view.Fresh r.world t := by
  rw [Results.Fresh, (h.rows t).1, h.binding_eq, h.recipe_eq]
  rfl

/-- Whatever is done, a pinned view stays pinned: the recipe changes by derivations only. -/
theorem Pinned.use (h : r.Pinned snapshot recipe) (u : Use) :
    (r.perform u).Pinned snapshot recipe := by
  have hview {w : World} {v : Results} (hv : (⟨r.world, v⟩ : Reader).Pinned snapshot recipe) :
      (⟨w, v⟩ : Reader).Pinned snapshot recipe := ⟨hv.binding_eq, hv.recipe_eq, hv.kept⟩
  cases u with
  | call c => exact hview h
  | read t read =>
    rw [perform]
    rcases after_cases r.world t r.view read with hv | hv
    · rw [hv]
      exact h
    · rw [hv]
      exact (h.rows t).2
  | observe t =>
    show (⟨_, (r.perform (.observe t)).view⟩ : Reader).Pinned snapshot recipe
    rcases (observe_cases r t).1 with hv | hv
    · rw [hv]
      exact hview h
    · rw [hv]
      exact hview (h.rows t).2

theorem Pinned.freeze_eq (h : r.Pinned snapshot recipe) (w : World) (t : Thread) :
    r.view.freeze w t = .ok r.view.clone := by
  rw [Results.freeze, Results.clone, h.binding_eq]
  rfl

theorem Pinned.clone (h : r.Pinned snapshot recipe) :
    (⟨r.world, r.view.clone⟩ : Reader).Pinned snapshot recipe :=
  ⟨h.binding_eq, h.recipe_eq, fun n rows hkept => by cases hkept⟩

theorem pinned_handleAll {v : Results} (h : r.Pinned snapshot v.recipe) (hs : List Handling) :
    (r.handleAll hs).Pinned snapshot (v.derived (Handling.derivations hs)).recipe := by
  induction hs generalizing r v with
  | nil => exact h
  | cons step hs ih =>
    cases step with
    | use u => exact ih (h.use u)
    | derive d =>
      apply ih (v := v.derive d)
      rw [handle, Results.derive_eq, h.binding_eq, Results.recipe_derive h.recipe_eq d]
      exact pinned_ofRecipe r.world snapshot _
    | freeze t =>
      apply ih (v := v)
      rw [handle, h.freeze_eq]
      exact h.clone

end Reader

theorem Binding.of_freeze {b b' : Binding} {w : World} {t : Thread} (h : b.freeze w t = .ok b') :
    ∃ snapshot, b' = .frozen snapshot ∧ b.sees w t = .ok snapshot ∧
      b.generation w t = .ok snapshot.generation := by
  cases b with
  | frozen snapshot =>
    cases h
    exact ⟨snapshot, rfl, rfl, rfl⟩
  | live s =>
    simp only [freeze, World.committed] at h
    cases hg : w.gate t s with
    | error e =>
      rw [hg] at h
      cases h
    | ok x =>
      rw [hg] at h
      simp only at h
      split at h
      · cases h
      · rename_i hb
        cases h
        -- outside a write the view of a session is its snapshot
        have hnone : x.batch = none := by simpa using hb
        refine ⟨x.snapshot, rfl, ?_, ?_⟩
        · rw [sees_live, hg, Except.map, Session.view_of_none hnone]
        · rw [generation, World.generation, hg]
          rfl

theorem Results.of_freeze {v f : Results} {w : World} {t : Thread} (h : v.freeze w t = .ok f) :
    ∃ snapshot, f = .ofRecipe (.frozen snapshot) v.recipe ∧
      v.binding.sees w t = .ok snapshot ∧
      v.binding.generation w t = .ok snapshot.generation := by
  rw [freeze] at h
  cases hb : v.binding.freeze w t with
  | error e =>
    rw [hb] at h
    cases h
  | ok b =>
    rw [hb] at h
    cases h
    obtain ⟨snapshot, rfl, hseen⟩ := Binding.of_freeze hb
    exact ⟨snapshot, rfl, hseen⟩

theorem Collection.of_freeze {s : SessionId} {c : Container} {f : Collection} {w : World}
    {t : Thread} (h : (bound (.live s) c).freeze w t = .ok f) :
    ∃ snapshot es, (Binding.live s).freeze w t = .ok (.frozen snapshot) ∧
      Container.elementsIn c.key snapshot = .ok es ∧ f = .bound (.frozen snapshot) c := by
  rw [freeze_live] at h
  cases hcommitted : w.committed t s with
  | error e =>
    rw [hcommitted] at h
    cases h
  | ok snapshot =>
    rw [hcommitted] at h
    simp only [Except.bind] at h
    cases hes : Container.elementsIn c.key snapshot with
    | error e =>
      rw [hes] at h
      cases h
    | ok es =>
      rw [hes] at h
      cases h
      refine ⟨snapshot, es, ?_, hes, rfl⟩
      rw [Binding.freeze, hcommitted]
      rfl

/-- A view stands for another one as it was in a world: whatever is done where it is held,
and from whatever thread it is read, it answers what the other one with the same derivations
answered there. Freezing it again gives the same view with nothing kept. -/
structure Results.StandsFor (f v : Results) (w : World) (t : Thread) : Prop where
  answer : ∀ hs t' read, Read.answer ((⟨w, f⟩ : Reader).handleAll hs).world t'
    ((⟨w, f⟩ : Reader).handleAll hs).view read =
      Read.answer w t (v.derived (Handling.derivations hs)) read
  generation : ∀ hs t', ((⟨w, f⟩ : Reader).handleAll hs).view.generation
    ((⟨w, f⟩ : Reader).handleAll hs).world t' = v.generation w t
  freeze : ∀ hs t', ((⟨w, f⟩ : Reader).handleAll hs).view.freeze
    ((⟨w, f⟩ : Reader).handleAll hs).world t' =
      .ok ((⟨w, f⟩ : Reader).handleAll hs).view.clone

/-- A frozen view stands for the view that was frozen. -/
theorem Results.standsFor_of_freeze {f v : Results} {w : World} {t : Thread} (hv : v.Fresh w t)
    (h : v.freeze w t = .ok f) : f.StandsFor v w t := by
  obtain ⟨snapshot, rfl, hsees, hgeneration⟩ := of_freeze h
  have hpinned (hs : List Handling) :=
    Reader.pinned_handleAll (Reader.pinned_ofRecipe w snapshot v.recipe) hs
  refine ⟨fun hs t' read => ?_, fun hs t' => ?_, fun hs t' => (hpinned hs).freeze_eq _ _⟩
  · refine read.answer_congr ((hpinned hs).fresh t') (fresh_derived hv _) (hpinned hs).recipe_eq ?_
    rw [(hpinned hs).binding_eq, binding_derived, hsees]
    rfl
  · rw [Results.generation, Results.generation, (hpinned hs).binding_eq, hgeneration]
    rfl

/-! ## Frozen lists and sets -/

/-- A list or set stands for another one as it was in a world: in whatever world and from
whatever thread it is read, it answers what the other one answered there. Freezing it again
gives it back, and its plain view stands for the one of the other. -/
structure Collection.StandsFor (f c : Collection) (w : World) (t : Thread) : Prop where
  answer : ∀ w' t' look, Look.answer w' t' f look = Look.answer w t c look
  freeze : ∀ w' t', f.freeze w' t' = .ok f
  asResults : ∃ v v', c.asResults = .ok v ∧ f.asResults = .ok v' ∧ v'.StandsFor v w t

/-- A frozen list or set stands for the one that was frozen. -/
theorem Collection.standsFor_of_freeze {s : SessionId} {c : Container} {f : Collection}
    {w : World} {t : Thread} (h : (bound (.live s) c).freeze w t = .ok f) :
    f.StandsFor (.bound (.live s) c) w t := by
  obtain ⟨snapshot, es, hb, -, rfl⟩ := of_freeze h
  obtain ⟨snapshot', hsame, hsees, hgeneration⟩ := Binding.of_freeze hb
  cases hsame
  refine ⟨fun w' t' look => ?_, fun w' t' => rfl, _, _, rfl, rfl, ?_⟩
  · exact look.answer_congr (b := .frozen snapshot) hsees.symm hgeneration.symm c
  · apply Results.standsFor_of_freeze (Results.fresh_ofRecipe _ _ w t)
    rw [Results.freeze]
    exact congrArg (Except.map fun b => Results.ofRecipe b (.ofSource (.container c.key))) hb

/-! ## Isolation -/

namespace Reader

variable {r : Reader} {s : SessionId} {recipe : Recipe}

theorem Sound.fresh (h : r.Sound s recipe) (t : Thread) : r.view.Fresh r.world t := by
  rw [Results.Fresh, h.rows_eq, h.binding_eq, h.recipe_eq, Binding.sees_live]
  cases r.world.gate t s <;> rfl

/-- The rows that a view keeps are right, be it of a session or of one snapshot. -/
def Coherent (r : Reader) : Prop :=
  (∃ s recipe, r.Sound s recipe) ∨ ∃ snapshot recipe, r.Pinned snapshot recipe

theorem Coherent.fresh (h : r.Coherent) (t : Thread) : r.view.Fresh r.world t := by
  rcases h with ⟨s, recipe, hsound⟩ | ⟨snapshot, recipe, hpinned⟩
  · exact hsound.fresh t
  · exact hpinned.fresh t

theorem coherent_ofRecipe (w : World) (b : Binding) (recipe : Recipe) :
    (⟨w, .ofRecipe b recipe⟩ : Reader).Coherent := by
  cases b with
  | live s => exact .inl ⟨s, recipe, rfl, rfl, fun n rows h => by cases h⟩
  | frozen snapshot => exact .inr ⟨snapshot, recipe, pinned_ofRecipe w snapshot recipe⟩

theorem Coherent.handle (h : r.Coherent) (step : Handling) : (r.handle step).Coherent := by
  cases step with
  | use u =>
    rcases h with ⟨s, recipe, hsound⟩ | ⟨snapshot, recipe, hpinned⟩
    · exact .inl ⟨s, recipe, sound_perform hsound u⟩
    · exact .inr ⟨snapshot, recipe, hpinned.use u⟩
  | derive d =>
    rw [Reader.handle, Results.derive_eq]
    exact coherent_ofRecipe r.world _ _
  | freeze t =>
    rw [Reader.handle]
    cases hf : r.view.freeze r.world t with
    | error e => exact h
    | ok f =>
      obtain ⟨snapshot, rfl, -⟩ := Results.of_freeze hf
      exact coherent_ofRecipe r.world (.frozen snapshot) r.view.recipe

/-- Whatever is done where a view is held, the rows that it keeps stay right. -/
theorem Coherent.handleAll (h : r.Coherent) (hs : List Handling) : (r.handleAll hs).Coherent := by
  induction hs generalizing r with
  | nil => exact h
  | cons step hs ih => exact ih (h.handle step)

/--
Whatever was called before, by whatever sessions, and whatever reads of a view of a session
were made:

1. Steps that are made through other sessions leave the session as it is, inside a write or
   outside. Every question to it, or to a live list, set or view of it, is answered as
   before, and so is every read of the view with the rows that it keeps. A list or set that
   was live or invalidated is so still.
2. The generation of the session never decreases, and never exceeds the latest one of its
   database.
3. Once the view is frozen, the frozen one stands for it, whatever is done afterwards.
4. So does a frozen list or set.
-/
theorem sessions_are_isolated (s : SessionId) (recipe : Recipe) (us : List Use) :
    let r := (start s recipe).run us
    (∀ x vs, r.world.session? s = some x → (∀ u ∈ vs, u.Elsewhere s) →
      (r.run vs).world.session? s = some x ∧
      (∀ t q, Question.answer (r.run vs).world t s q = q.answer r.world t s) ∧
      (∀ c, (Collection.bound (.live s) c).state (r.run vs).world =
        (Collection.bound (.live s) c).state r.world) ∧
      ∀ t read, Read.answer (r.run vs).world t (r.run vs).view read =
        read.answer r.world t r.view) ∧
    (∀ x vs, r.world.session? s = some x → ∃ x', (r.run vs).world.session? s = some x' ∧
      x'.database = x.database ∧ x.snapshot.generation ≤ x'.snapshot.generation ∧
      x'.snapshot.generation ≤
        ((r.run vs).world.database x.database).engine.latest.generation) ∧
    (∀ t f, r.view.freeze r.world t = .ok f → f.StandsFor r.view r.world t) ∧
    ∀ t c f, (Collection.bound (.live s) c).freeze r.world t = .ok f →
      f.StandsFor (.bound (.live s) c) r.world t := by
  intro r
  have hsound : r.Sound s recipe := sound_run s recipe us
  have hr : r.world.Orderly := orderly_run World.orderly_empty us
  refine ⟨fun x vs hx hvs => ?_, fun x vs hx => ?_, fun t f => ?_, fun t c f => ?_⟩
  · obtain ⟨hx', hschema⟩ := elsewhere_run hr hx hvs
    have hsame : (r.run vs).world.session? s = r.world.session? s := hx'.trans hx.symm
    refine ⟨hx', fun t q => q.answer_congr hsame hschema t, fun c => ?_, fun t read => ?_⟩
    · simp only [Collection.state, World.peek, hsame]
    · have hsound' := hsound.run vs
      apply read.answer_congr (hsound'.fresh t) (hsound.fresh t)
      · rw [hsound'.recipe_eq, hsound.recipe_eq]
      · rw [hsound'.binding_eq, hsound.binding_eq, Binding.sees_live, Binding.sees_live]
        simp only [World.gate, hsame]
  · obtain ⟨x', hx', hd, hle⟩ := generation_run hr hx vs
    have hfits := (orderly_run hr vs).fits s x' hx'
    rw [hd] at hfits
    exact ⟨x', hx', hd, hle, hfits.precedes.generation_le⟩
  · exact Results.standsFor_of_freeze (hsound.fresh t)
  · exact Collection.standsFor_of_freeze

/-- The tags of a dog are read and frozen while it has one of them; then another session
adds a second one. It is not seen before a refresh, and in what was frozen never. -/
theorem new_tag_is_not_seen :
    let r := (start ⟨1⟩ (.ofSource (.container dogTags.key))).run
      (taggedDog.map Use.call ++ [.call (.refresh 1 ⟨1⟩), .read 1 .count])
    let later := r.run (taggedAgain.map Use.call)
    let refreshed := later.run [.call (.refresh 1 ⟨1⟩)]
    Read.answer later.world 1 later.view .count = .ok (.count 1) ∧
      Read.answer refreshed.world 1 refreshed.view .count = .ok (.count 2) ∧
      (∃ f, r.view.freeze r.world 1 = .ok f ∧ f.StandsFor r.view r.world 1) ∧
      ∃ f, (Collection.bound (.live ⟨1⟩) dogTags).freeze r.world 1 = .ok f ∧
        f.StandsFor (.bound (.live ⟨1⟩) dogTags) r.world 1 ∧
        f.values refreshed.world 0 = .ok [.string "old"] := by
  intro r later refreshed
  obtain ⟨hquiet, -, hview, hlist⟩ := sessions_are_isolated ⟨1⟩
    (.ofSource (.container dogTags.key))
    (taggedDog.map Use.call ++ [.call (.refresh 1 ⟨1⟩), .read 1 .count])
  obtain ⟨x, hx⟩ : ∃ x, r.world.session? ⟨1⟩ = some x := ⟨_, rfl⟩
  have helsewhere : ∀ u ∈ taggedAgain.map Use.call, u.Elsewhere ⟨1⟩ := by
    simp [taggedAgain, Use.Elsewhere, Call.through]
  refine ⟨?_, rfl, ⟨_, rfl, hview 1 _ rfl⟩, _, rfl, hlist 1 dogTags _ rfl, rfl⟩
  exact ((hquiet x _ hx helsewhere).2.2.2 1 .count).trans rfl

end Reader

end ObjectStore
