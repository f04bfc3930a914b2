import ObjectStore.Proofs.Run.Commits
import ObjectStore.Proofs.Run.Handles
import ObjectStore.Proofs.Run.Reads
import ObjectStore.Proofs.Store.Lookups

/-
  A collection that is handed over arrives.

  A token names an owner and a property and says at which generation it was made. The
  session that receives it moves to this generation at least. Inside a write it need not:
  a write starts from the latest snapshot and lets nobody else publish, so its session is
  never behind. From there on the owner is what it was, or it is gone: a key that a
  snapshot has handed out is never given to another object.

    1. `export_eq_ok` is what a token tells of the session that made it.
    2. `HeldDuring.precedes`: of two snapshots of one database that are held at any moments,
       the one with the smaller generation comes before the other one.
    3. `resolve_cases` is the session that resolves: not behind, or at the latest snapshot.
    4. `Collection.Shows` are all reads of a collection at once.
    5. `handover_resolves` is the result.
-/

namespace ObjectStore

/-! ## Tokens -/

/-- A token is made by a session outside a write that sees the owner, and tells where the
container stands and at which generation. -/
theorem Collection.export_eq_ok {w : World} {t : Thread} {s : SessionId} {c : Container}
    {token : HandoverToken} (h : (Collection.bound (.live s) c).export w t = .ok token) :
    ∃ x, w.session? s = some x ∧ x.batch = none ∧ token.generation = x.snapshot.generation ∧
      token.owner = c.key.owner ∧ token.property = c.key.property ∧
      c.kind.container = some token.shape := by
  obtain ⟨snapshot, hsnapshot, h⟩ := ok_of_bind h
  obtain ⟨es, -, h⟩ := ok_of_bind h
  unfold World.committed at hsnapshot
  split at hsnapshot
  · cases hsnapshot
  · rename_i x hg
    split at hsnapshot
    · cases hsnapshot
    · rename_i hbatch
      cases hsnapshot
      split at h
      · rename_i shape hshape
        cases h
        rw [Bool.not_eq_true, Option.isSome_eq_false_iff, Option.isNone_iff_eq_none] at hbatch
        exact ⟨x, (World.gate_eq_ok.mp hg).1, hbatch, rfl, rfl, rfl, hshape⟩
      · cases h

namespace World

/-! ## Snapshots in order -/

/-- Of two snapshots of one database that are held at any moments of a run, the one with
the smaller generation comes first. -/
theorem HeldDuring.precedes {cs : List Call} {d : DatabaseId} {s s' : Snapshot}
    (h : HeldDuring cs d s) (h' : HeldDuring cs d s') (hg : s.generation ≤ s'.generation) :
    s.Precedes s' := by
  obtain ⟨before, hpre, rfl⟩ := h.was_latest
  obtain ⟨before', hpre', rfl⟩ := h'.was_latest
  rcases List.prefix_or_prefix_of_prefix hpre hpre' with ⟨more, rfl⟩ | ⟨more, rfl⟩
  · rw [run_append]
    exact latest_run (orderly_run before) more d
  -- the other one was the latest first, so they are the same
  · rw [run_append] at hg ⊢
    have hback := latest_run (orderly_run before') more d
    rw [hback.eq_of_generation (Nat.le_antisymm hback.generation_le hg)]
    exact .refl _

variable {w : World} {s : SessionId} {x : Session}

theorem Orderly.continues_view (h : w.Orderly) (hx : w.session? s = some x) :
    x.snapshot.Continues x.view := by
  cases hb : x.batch with
  | none =>
    rw [Session.view_of_none hb]
    exact .refl _
  | some b =>
    obtain ⟨-, hsnapshot, hsteps⟩ := (h.fits s x hx).held b hb
    rw [Session.view_of_batch hb, hsnapshot]
    exact hsteps.continues (h.keyed x.database)

theorem Orderly.className_view (h : w.Orderly) (hx : w.session? s = some x) {before : Snapshot}
    (hbefore : before.Precedes x.snapshot) (hkeyed : before.Keyed) {key : ObjectKey}
    {e e' : Entity} (he : before.entity? key = some e) (he' : x.view.entity? key = some e') :
    e'.className = e.className := by
  have hcontinues := hbefore.continues.trans (h.continues_view hx)
  have hk := hkeyed.le_of_contains (Snapshot.contains_iff.mpr ⟨e, he⟩)
  obtain ⟨e₀, he₀, hclass⟩ := hcontinues.earlier hk he'
  obtain rfl := Option.some.inj (he.symm.trans he₀)
  exact hclass.symm

theorem schemaOf_later (h : w.Orderly) (hx : w.session? s = some x) (cs : List Call)
    {s' : SessionId} {x' : Session} (hx' : (w.run cs).session? s' = some x')
    (hd : x'.database = x.database) : (w.run cs).schemaOf s' = w.schemaOf s := by
  obtain ⟨y, hy, hyd⟩ := session?_run hx cs
  rw [← schemaOf_run h hx cs]
  simp only [schemaOf, hx', hy, hd, hyd]

/-! ## The session that resolves -/

variable {t : Thread}

theorem refresh_of_behind (hg : w.gate t s = .ok x) (hb : x.batch = none)
    (hlt : x.snapshot.generation < (w.database x.database).engine.latest.generation) :
    (w.refresh t s).1 = .ok true ∧
      (w.refresh t s).2.gate t s = .ok (moveTo x (w.database x.database).engine.latest) := by
  obtain ⟨hx, ht, hopen⟩ := gate_eq_ok.mp hg
  have hne : (w.database x.database).engine.latest.generation ≠ x.snapshot.generation :=
    (Nat.ne_of_lt hlt).symm
  have hlength : s.index < w.sessions.length := (List.getElem?_eq_some_iff.mp hx).1
  simp only [refresh, hg, hb, Option.isSome_none, Bool.false_eq_true, if_false, hne, true_and]
  refine gate_eq_ok.mpr ⟨?_, ht, hopen⟩
  simp only [session?, putSession, List.getElem?_set_self hlength]

/-- A token is resolved by looking its owner up in a session that is not behind it. The
session stays as it is, or moves to the latest snapshot. -/
theorem resolve_cases (h : w.Orderly) (hg : w.gate t s = .ok x) {token : HandoverToken}
    (htoken : token.generation ≤ (w.database x.database).engine.latest.generation) :
    let w' := (w.resolve t s token).2
    (w.resolve t s token).1 = w'.locate t s token ∧
      ∃ x', w'.gate t s = .ok x' ∧ x'.database = x.database ∧
        token.generation ≤ x'.snapshot.generation := by
  have hgeneration : w.generation t s = .ok x.snapshot.generation := by
    rw [generation, hg]
    rfl
  by_cases hlt : x.snapshot.generation < token.generation
  · have hbehind := Nat.lt_of_lt_of_le hlt htoken
    have hnone : x.batch = none := by
      cases hb : x.batch with
      | none => rfl
      | some b =>
        -- inside a write the session is at the latest snapshot
        rw [((h.fits s x (gate_eq_ok.mp hg).1).held b hb).2.1] at hbehind
        exact absurd hbehind (Nat.lt_irrefl _)
    obtain ⟨hdone, hgate⟩ := refresh_of_behind hg hnone hbehind
    have hresolve : w.resolve t s token =
        ((w.refresh t s).2.locate t s token, (w.refresh t s).2) := by
      simp only [resolve, hgeneration, if_pos hlt]
      revert hdone
      rcases w.refresh t s with ⟨_ | _, w'⟩
      · exact fun hdone => by cases hdone
      · exact fun _ => rfl
    rw [hresolve]
    exact ⟨rfl, _, hgate, rfl, htoken⟩
  · have hresolve : w.resolve t s token = (w.locate t s token, w) := by
      simp only [resolve, hgeneration, if_neg hlt]
    rw [hresolve]
    exact ⟨rfl, x, hg, rfl, Nat.le_of_not_lt hlt⟩

/-- Where the owner is of a class that declares the property with the kind of the container,
the token names the container; where there is no owner it names nothing. -/
theorem locate_eq (hg : w.gate t s = .ok x) {c : Container} {token : HandoverToken}
    (howner : token.owner = c.key.owner) (hproperty : token.property = c.key.property)
    (hshape : c.kind.container = some token.shape) {p : Property} (hp : p.kind = c.kind)
    (hclass : ∀ e, x.view.entity? c.key.owner = some e →
      (w.schemaOf s).property e.className c.key.property = .ok p) :
    w.locate t s token =
      .ok (if x.view.contains c.key.owner then some (.bound (.live s) c) else none) := by
  simp only [locate, read, hg, howner, hproperty]
  cases he : x.view.entity? c.key.owner with
  | none => simp only [Snapshot.contains, he, Option.isSome_none, Bool.false_eq_true, if_false]
  | some e =>
    simp only [Snapshot.contains, he, Option.isSome_some, if_true, hclass e he]
    show (if p.kind.container ≠ some token.shape then _ else _) = _
    rw [hp, if_neg (not_not.mpr hshape)]
    rfl

end World

/-! ## Reads of a collection -/

/-- Every read of a collection answers with what a snapshot has in a container. -/
structure Collection.Shows (h : Collection) (w : World) (t : Thread) (c : Container)
    (view : Snapshot) : Prop where
  elements : h.elements w t = .ok (view.elementsOf c.key)
  values : h.values w t = .ok ((view.elementsOf c.key).map (·.value))
  size : h.size w t = .ok (view.elementsOf c.key).length
  isEmpty : h.isEmpty w t = .ok ((view.elementsOf c.key).length == 0)
  get : ∀ i, h.get w t i =
    match (view.elementsOf c.key)[i]? with
    | some e => .ok e.value
    | none => .error (.indexOutOfBounds i (view.elementsOf c.key).length)
  contains : ∀ v, h.contains w t v =
    .ok ((view.elementsOf c.key).any fun e => e.value.exactEq v)
  indexOf : ∀ v, h.indexOf w t v =
    .ok ((view.elementsOf c.key).findIdx? fun e => e.value.exactEq v)
  slotAt : ∀ i, h.slotAt w t i =
    match (view.elementsOf c.key)[i]? with
    | some e => .ok e.slot
    | none => .error (.indexOutOfBounds i (view.elementsOf c.key).length)
  getBySlot : ∀ slot, h.getBySlot w t slot =
    .ok (((view.elementsOf c.key).find? (·.slot == slot)).map (·.value))
  fold : ∀ {α : Type} (a : Aggregate) (f : List Value → Family → Except Error α),
    h.fold w t a f = (a.check c.kind.element).bind fun _ =>
      f ((view.elementsOf c.key).map (·.value)) c.kind.family
  containsWithin : ∀ b, h.containsWithin w t b =
    ((Reference.onOwner c.key.property c.kind).containsAllWithin b).map fun e =>
      e.holds view (.object c.key.owner)
  rows : ∃ r, h.asResults = .ok r ∧
    (r.rows w t).1 = .ok ((view.elementsOf c.key).map (Recipe.elementRow view))

theorem Collection.shows_of_contains {w : World} {t : Thread} {s : SessionId} {x : Session}
    {c : Container} (hg : w.gate t s = .ok x) (hc : x.view.contains c.key.owner = true) :
    (Collection.bound (.live s) c).Shows w t c x.view := by
  have hin : Container.elementsIn c.key x.view = .ok (x.view.elementsOf c.key) :=
    Container.elementsIn_eq_ok.mpr ⟨hc, rfl⟩
  have helements : (Collection.bound (.live s) c).elements w t = .ok (x.view.elementsOf c.key) := by
    show w.read t s (fun view _ => Container.elementsIn c.key view) = _
    simp only [World.read, hg, hin]
  have hvalues : (Collection.bound (.live s) c).values w t =
      .ok ((x.view.elementsOf c.key).map (·.value)) := by
    simp only [Collection.values, helements, Except.map]
  have hsize : (Collection.bound (.live s) c).size w t = .ok (x.view.elementsOf c.key).length := by
    simp only [Collection.size, hvalues, Except.map, List.length_map]
  refine ⟨helements, hvalues, hsize, ?_, fun i => ?_, fun v => ?_, fun v => ?_, fun i => ?_,
    fun slot => ?_, fun a f => ?_, fun b => ?_, ?_⟩
  · simp only [Collection.isEmpty, hsize, Except.map]
  · simp only [Collection.get, hvalues, bind, Except.bind, List.getElem?_map, List.length_map]
    cases (x.view.elementsOf c.key)[i]? <;> rfl
  · simp only [Collection.contains, hvalues, Except.map, List.any_map, Function.comp_def]
  · simp only [Collection.indexOf, hvalues, Except.map, List.findIdx?_map, Function.comp_def]
  · rw [Collection.slotAt, helements]
    show (match (x.view.elementsOf c.key)[i]? with
      | some e => Except.ok e.slot
      | none => .error (Error.indexOutOfBounds i (x.view.elementsOf c.key).length)) = _
    cases (x.view.elementsOf c.key)[i]? <;> rfl
  · simp only [Collection.getBySlot, helements, Except.map]
  · rw [Collection.fold, hvalues]
    rfl
  · show ((Reference.onOwner c.key.property c.kind).containsAllWithin b >>= fun e =>
      w.read t s fun view _ => Container.elementsIn c.key view >>= fun _ =>
        .ok (e.holds view (.object c.key.owner))) = _
    cases (Reference.onOwner c.key.property c.kind).containsAllWithin b with
    | error e => rfl
    | ok e =>
      show w.read t s (fun view _ => Container.elementsIn c.key view >>= fun _ =>
        .ok (e.holds view (.object c.key.owner))) = _
      simp only [World.read, hg, hin]
      rfl
  · refine ⟨_, rfl, ?_⟩
    obtain ⟨e, he⟩ := Snapshot.contains_iff.mp hc
    have hsource : (Results.ofRecipe (.live s) (.ofSource (.container c.key))).source w t =
        .ok (x.view, x.version) := by
      show w.read t s (fun view version => .ok (view, version)) = _
      simp only [World.read, hg]
    have hrows : (Recipe.ofSource (.container c.key)).rows x.view =
        .ok ((x.view.elementsOf c.key).map (Recipe.elementRow x.view)) := by
      simp only [Recipe.rows, Recipe.ofSource, Recipe.sourceRows, he,
        Snapshot.elementsOf_of_entity? he]
      rfl
    rw [Results.rows, hsource]
    simp only [Results.rowsAt, Results.ofRecipe, Results.evaluate, hrows]

/-! ## The result -/

/--
A token of a live collection whose kind is the declared one is always resolved. Whatever
calls are made after it, in any session of its database that is open then, by the thread
that owns the session and inside a write or outside:

1. There is an answer, and the session is open and at the generation of the token or later.
2. The answer is no collection exactly if the session does not see the owner.
3. Otherwise it is the exported property with the exported kind, live in this session, and
   every read of it answers with what the session sees in this property.
-/
theorem handover_resolves (cs ds : List Call) {ta tb : Thread} {a b : SessionId} {c : Container}
    {token : HandoverToken} {xa xb : Session}
    (ha : (World.empty.run cs).session? a = some xa)
    (hdeclares : (World.empty.run cs).Declares a c)
    (hexport : (Collection.bound (.live a) c).export (World.empty.run cs) ta = .ok token)
    (hb : (World.empty.run (cs ++ ds)).gate tb b = .ok xb) (hd : xb.database = xa.database) :
    let resolved := (World.empty.run (cs ++ ds)).resolve tb b token
    ∃ answer x', resolved.1 = .ok answer ∧ resolved.2.gate tb b = .ok x' ∧
      token.generation ≤ x'.snapshot.generation ∧
      (answer = none ↔ x'.view.contains c.key.owner = false) ∧
      ∀ h, answer = some h → h = .bound (.live b) c ∧ h.state resolved.2 = .live ∧
        h.Shows resolved.2 tb c x'.view := by
  intro resolved
  obtain ⟨x, hx, hbatch, hmade, howner, hproperty, hshape⟩ := Collection.export_eq_ok hexport
  obtain rfl := Option.some.inj (ha.symm.trans hx)
  obtain ⟨y, e, p, hy, he, hp, hkind⟩ := hdeclares
  obtain rfl := Option.some.inj (ha.symm.trans hy)
  rw [Session.view_of_none hbatch] at he
  have hfits := (World.orderly_run cs).fits a xa ha
  -- the world afterwards is that of a longer run
  have hafter : resolved.2 = World.empty.run (cs ++ (ds ++ [.resolve tb b token])) := by
    rw [← List.append_assoc, World.run_snoc]
    rfl
  have horderly : resolved.2.Orderly := by
    rw [hafter]
    exact World.orderly_run _
  -- the session is not behind the token
  have hlatest : token.generation ≤
      ((World.empty.run (cs ++ ds)).database xb.database).engine.latest.generation := by
    rw [hmade, hd, World.run_append]
    have hmoved := World.latest_run (World.orderly_run cs) ds xa.database
    exact (hfits.precedes.trans hmoved).generation_le
  obtain ⟨hanswer, x', hgate, hd', hgeneration⟩ :=
    World.resolve_cases (World.orderly_run (cs ++ ds)) hb hlatest
  have hx' := (World.gate_eq_ok.mp hgate).1
  have hprecedes : xa.snapshot.Precedes x'.snapshot := by
    have hold : World.HeldDuring (cs ++ (ds ++ [.resolve tb b token])) xa.database xa.snapshot :=
      ⟨cs, List.prefix_append cs _, .session a xa ha rfl⟩
    have hnew : World.HeldDuring (cs ++ (ds ++ [.resolve tb b token])) xa.database x'.snapshot :=
      ⟨_, List.prefix_rfl, .session b x' (by rw [← hafter]; exact hx') (hd'.trans hd)⟩
    exact hold.precedes hnew (hmade ▸ hgeneration)
  -- so the owner is what it was, or gone
  have hclass : ∀ e', x'.view.entity? c.key.owner = some e' →
      (resolved.2.schemaOf b).property e'.className c.key.property = .ok p := by
    intro e' he'
    have hschema : resolved.2.schemaOf b = (World.empty.run cs).schemaOf a := by
      rw [hafter, World.run_append] at hx' ⊢
      exact World.schemaOf_later (World.orderly_run cs) ha _ hx' (hd'.trans hd)
    rw [hschema, horderly.className_view hx' hprecedes hfits.keyed he he']
    exact hp
  have hlocate := World.locate_eq hgate howner hproperty hshape hkind hclass
  refine ⟨_, x', hanswer.trans hlocate, hgate, hgeneration, ?_, fun h hh => ?_⟩
  · cases hc : x'.view.contains c.key.owner <;> simp
  · cases hc : x'.view.contains c.key.owner with
    | false =>
      rw [hc] at hh
      cases hh
    | true =>
      rw [hc] at hh
      obtain rfl := Option.some.inj hh
      have hlive := World.state_eq_live.mpr ⟨x', hx', (World.gate_eq_ok.mp hgate).2.2, hc⟩
      exact ⟨rfl, hlive, Collection.shows_of_contains hgate hc⟩

/-- A dog that gets a tag, with a session of another thread that has seen nothing yet. -/
def taggedDog : List Call :=
  [.openDatabase petSchema false, .openSession 0 ⟨0⟩, .openSession 1 ⟨0⟩, .begin 0 ⟨0⟩,
    .create 0 ⟨0⟩ "Dog" [], .elements 0 (.bound (.live ⟨0⟩) dogTags) (.append (.string "old")),
    .commit 0 ⟨0⟩]

def taggedAgain : List Call :=
  [.begin 0 ⟨0⟩, .elements 0 (.bound (.live ⟨0⟩) dogTags) (.append (.string "new")), .commit 0 ⟨0⟩]

/-- The tags as they are handed over after the first one. -/
def tagsToken : HandoverToken := ⟨1, ⟨1⟩, "tags", .list⟩

/-- The other session moves forward, past the generation of the token. -/
theorem tags_handed_over :
    let w := World.empty.run (taggedDog ++ taggedAgain)
    let resolved := w.resolve 1 ⟨1⟩ tagsToken
    (Collection.bound (.live ⟨0⟩) dogTags).export (World.empty.run taggedDog) 0 = .ok tagsToken ∧
      (World.empty.run taggedDog).Declares ⟨0⟩ dogTags ∧
      w.generation 1 ⟨1⟩ = .ok 0 ∧ resolved.2.generation 1 ⟨1⟩ = .ok 2 ∧
      (Collection.bound (.live ⟨1⟩) dogTags).values resolved.2 1 =
        .ok [.string "old", .string "new"] ∧
      ∃ answer x', resolved.1 = .ok answer ∧ resolved.2.gate 1 ⟨1⟩ = .ok x' ∧
        tagsToken.generation ≤ x'.snapshot.generation ∧
        (answer = none ↔ x'.view.contains dogTags.key.owner = false) ∧
        ∀ h, answer = some h → h = .bound (.live ⟨1⟩) dogTags ∧ h.state resolved.2 = .live ∧
          h.Shows resolved.2 1 dogTags x'.view := by
  intro w resolved
  obtain ⟨xa, ha, hda⟩ : ∃ xa, (World.empty.run taggedDog).session? ⟨0⟩ = some xa ∧
      xa.database = ⟨0⟩ := ⟨_, rfl, rfl⟩
  obtain ⟨xb, hb, hdb⟩ : ∃ xb, w.gate 1 ⟨1⟩ = .ok xb ∧ xb.database = ⟨0⟩ := ⟨_, rfl, rfl⟩
  have hdeclares : (World.empty.run taggedDog).Declares ⟨0⟩ dogTags :=
    ⟨_, _, _, rfl, rfl, rfl, rfl⟩
  have hexport : (Collection.bound (.live ⟨0⟩) dogTags).export (World.empty.run taggedDog) 0 =
      .ok tagsToken := rfl
  exact ⟨hexport, hdeclares, rfl, rfl, rfl,
    handover_resolves taggedDog taggedAgain ha hdeclares hexport hb (hdb.trans hda.symm)⟩

end ObjectStore
