import ObjectStore.Collection.Reads
import ObjectStore.Proofs.Run.Frame

/-
  Reads of a view that keeps its rows.

  A view keeps the rows of its last read with the version of the session they were
  evaluated in, and answers from them as long as the version is this one. That is right
  because a version stands for one content: whatever moves an open session to another
  content moves its version on, also if it is refused in the end
  (`Session.Becomes`). Closing is the one exception, after which nothing is read.

    1. `Move.becomes` is this for one move, `World.becomes_perform` for one call.
    2. `Use` is a step of a run in which one view is used, `Reader.Sound` what every
       step keeps: kept rows are those of the version that they are kept with.
    3. `Reader.reads_are_fresh`: every read answers as if nothing had been kept, and the
       plain view of a list or set answers as the list or set does.
-/

namespace ObjectStore

/-! ## One version, one content -/

/-- A session and the same one later. It does not open again, and as long as it is open it
has the same view under the same version. -/
structure Session.Becomes (x x' : Session) : Prop where
  closed : x.closed = true → x'.closed = true
  version : x'.closed = false →
    x.version < x'.version ∨ x'.version = x.version ∧ x'.view = x.view

/-- Whatever a session does, it moves on to another version, keeps its view or is closed. -/
theorem Move.becomes (schema : Schema) (latest : Snapshot) (m : Move) (x : Session) :
    x.Becomes (m.session schema latest x) := by
  refine ⟨fun h => closed_session m h, fun hopen => ?_⟩
  cases m with
  | enter => exact .inl (Nat.lt_succ_self _)
  | write e => exact .inl (Nat.lt_succ_self _)
  | publish =>
    cases hb : x.batch with
    | none => exact .inr ⟨by simp only [session, hb], by simp only [session, hb]⟩
    | some b =>
      refine .inl ?_
      simp only [session, hb, World.moveTo]
      exact Nat.lt_succ_of_lt (Nat.lt_succ_self _)
  | drop => exact .inl (Nat.lt_succ_self _)
  | forward => exact .inl (Nat.lt_succ_self _)
  | close => cases hopen
  | _ => exact .inr ⟨rfl, rfl⟩

theorem World.becomes_perform {w : World} {s : SessionId} {x : Session} (c : Call)
    (hx : w.session? s = some x) :
    ∃ x', (c.perform w).session? s = some x' ∧ x.Becomes x' := by
  rcases session?_perform_of_some c hx with ⟨m, -, hself⟩ | ⟨hsame, -⟩
  · exact ⟨_, hself, m.becomes _ _ x⟩
  · exact ⟨x, hsame, fun h => h, fun _ => .inr ⟨rfl, rfl⟩⟩

/-! ## Runs in which a view is used -/

/-- A read of a view. -/
inductive Read where
  | count
  | isEmpty
  | get (i : Nat)
  | first
  | last
  | values
  | ids
  | indexOf (v : Value)
  | min (of : Reference)
  | max (of : Reference)
  | sum (of : Reference)
  | average (of : Reference)

def Read.after (w : World) (t : Thread) (v : Results) : Read → Results
  | .count => (v.count w t).2
  | .isEmpty => (v.isEmpty w t).2
  | .get i => (v.get w t i).2
  | .first => (v.first w t).2
  | .last => (v.last w t).2
  | .values => (v.values w t).2
  | .ids => (v.ids w t).2
  | .indexOf x => (v.indexOf w t x).2
  | .min of => (v.min w t of).2
  | .max of => (v.max w t of).2
  | .sum of => (v.sum w t of).2
  | .average of => (v.average w t of).2

/-- A step of a run in which one view is used: a call of any kind, a read of the view, or
an observer registered on it. -/
inductive Use where
  | call (c : Call)
  | read (t : Thread) (r : Read)
  | observe (t : Thread)

/-- A world and a view that somebody holds in it. -/
structure Reader where
  world : World
  view : Results

namespace Reader

/-- The world and the view after a step. -/
def perform (r : Reader) : Use → Reader
  | .call c => ⟨c.perform r.world, r.view⟩
  | .read t read => ⟨r.world, read.after r.world t r.view⟩
  | .observe t => ⟨(r.view.observe r.world t).2.2, (r.view.observe r.world t).2.1⟩

/-- The world and the view after steps, one after the other. -/
def run (r : Reader) (us : List Use) : Reader := us.foldl perform r

/-- The empty world and a view that has kept nothing yet. Until its first read it does not
matter when a view was made. -/
def start (s : SessionId) (recipe : Recipe) : Reader := ⟨.empty, .ofRecipe (.live s) recipe⟩

@[simp] theorem run_nil (r : Reader) : r.run [] = r := rfl

@[simp] theorem run_cons (r : Reader) (u : Use) (us : List Use) :
    r.run (u :: us) = (r.perform u).run us := rfl

/-- The view is of a session and a recipe, and the rows that it keeps are those of an
earlier version, or of the version as it is. -/
structure Sound (r : Reader) (s : SessionId) (recipe : Recipe) : Prop where
  binding_eq : r.view.binding = .live s
  recipe_eq : r.view.recipe = recipe
  kept : ∀ n rows, r.view.kept = some (n, rows) → ∃ x, r.world.session? s = some x ∧
    (x.closed = false → n < x.version ∨ n = x.version ∧ recipe.rows x.view = .ok rows)

variable {r : Reader} {s : SessionId} {recipe : Recipe}

theorem sound_start (s : SessionId) (recipe : Recipe) : (start s recipe).Sound s recipe :=
  ⟨rfl, rfl, fun _ _ h => by cases h⟩

theorem Sound.call (h : r.Sound s recipe) (c : Call) : (r.perform (.call c)).Sound s recipe := by
  refine ⟨h.binding_eq, h.recipe_eq, fun n rows hkept => ?_⟩
  obtain ⟨x, hx, hrows⟩ := h.kept n rows hkept
  obtain ⟨x', hx', hbecomes⟩ := World.becomes_perform c hx
  refine ⟨x', hx', fun hopen => ?_⟩
  have hopen' : x.closed = false := by
    cases hc : x.closed with
    | false => rfl
    | true => rw [hbecomes.closed hc] at hopen; cases hopen
  rcases hbecomes.version hopen with hlt | ⟨hversion, hview⟩
  · rcases hrows hopen' with hn | ⟨rfl, -⟩
    · exact .inl (Nat.lt_trans hn hlt)
    · exact .inl hlt
  · rw [hversion, hview]
    exact hrows hopen'

theorem Sound.rows_eq (h : r.Sound s recipe) (t : Thread) :
    (r.view.rows r.world t).1 = (r.world.gate t s).bind fun x => recipe.rows x.view := by
  have hevaluate (snapshot : Snapshot) (version : Nat) :
      (r.view.evaluate snapshot version).1 = recipe.rows snapshot := by
    rw [Results.evaluate, h.recipe_eq]
    cases recipe.rows snapshot <;> rfl
  rw [Results.rows, Results.source, h.binding_eq, Binding.read, World.read]
  cases hg : r.world.gate t s with
  | error e => rfl
  | ok x =>
    obtain ⟨hx, -, hopen⟩ := World.gate_eq_ok.mp hg
    simp only [Except.bind, Results.rowsAt]
    split
    · rename_i known rows hkept
      split
      -- the rows that are kept belong to this version
      · rename_i heq
        obtain ⟨y, hy, hrows⟩ := h.kept known rows hkept
        obtain rfl := Option.some.inj (hx.symm.trans hy)
        rcases hrows hopen with hlt | ⟨-, hok⟩
        · exact absurd heq (Nat.ne_of_lt hlt)
        · exact hok.symm
      · exact hevaluate x.view x.version
    · exact hevaluate x.view x.version

theorem Sound.rows (h : r.Sound s recipe) (t : Thread) :
    (⟨r.world, (r.view.rows r.world t).2⟩ : Reader).Sound s recipe := by
  have hevaluate {x : Session} (hx : r.world.session? s = some x) :
      (⟨r.world, (r.view.evaluate x.view x.version).2⟩ : Reader).Sound s recipe := by
    rw [Results.evaluate, h.recipe_eq]
    cases hrows : recipe.rows x.view with
    | error e => exact h
    | ok rows =>
      refine ⟨h.binding_eq, rfl, fun n rows' hkept => ?_⟩
      cases hkept
      exact ⟨x, hx, fun _ => .inr ⟨rfl, hrows⟩⟩
  rw [Results.rows, Results.source, h.binding_eq, Binding.read, World.read]
  cases hg : r.world.gate t s with
  | error e => exact h
  | ok x =>
    have hx := (World.gate_eq_ok.mp hg).1
    simp only [Results.rowsAt]
    split
    · split
      · exact h
      · exact hevaluate hx
    · exact hevaluate hx

theorem after_cases (w : World) (t : Thread) (v : Results) (read : Read) :
    read.after w t v = v ∨ read.after w t v = (v.rows w t).2 := by
  have hfold {α : Type} (a : Aggregate) (of : Reference) (f : List Value → Except Error α) :
      (v.fold w t a of f).2 = v ∨ (v.fold w t a of f).2 = (v.rows w t).2 := by
    rw [Results.fold, Results.rows]
    split
    · exact .inl rfl
    · split
      · exact .inl rfl
      · exact .inr rfl
  cases read with
  | min of => exact hfold .min of _
  | max of => exact hfold .max of _
  | sum of => exact hfold .sum of _
  | average of => exact hfold .average of _
  | _ => exact .inr rfl

theorem observe_cases (r : Reader) (t : Thread) :
    ((r.perform (.observe t)).view = r.view ∨
      (r.perform (.observe t)).view = (r.view.rows r.world t).2) ∧
    (r.perform (.observe t)).world = Call.perform r.world (.observe t r.view) := by
  refine ⟨?_, rfl⟩
  simp only [perform, Results.observe]
  cases r.view.binding with
  | frozen snapshot => exact .inl rfl
  | live s =>
    refine .inr ?_
    rcases r.view.rows r.world t with ⟨rows, v⟩
    cases rows with
    | error e => rfl
    | ok rows =>
      simp only
      split <;> rfl

theorem sound_perform (h : r.Sound s recipe) (u : Use) : (r.perform u).Sound s recipe := by
  cases u with
  | call c => exact h.call c
  | read t read =>
    rw [perform]
    rcases after_cases r.world t r.view read with hv | hv
    · rw [hv]
      exact h
    · rw [hv]
      exact h.rows t
  | observe t =>
    -- the rows are read in the world before the observer is there
    obtain ⟨hv, hw⟩ := observe_cases r t
    have hread : (⟨r.world, (r.perform (.observe t)).view⟩ : Reader).Sound s recipe := by
      rcases hv with hv | hv
      · rw [hv]
        exact h
      · rw [hv]
        exact h.rows t
    have hcalled := hread.call (.observe t r.view)
    rw [perform, ← hw] at hcalled
    exact hcalled

theorem Sound.run (h : r.Sound s recipe) (us : List Use) : (r.run us).Sound s recipe := by
  induction us generalizing r with
  | nil => exact h
  | cons u us ih => exact ih (sound_perform h u)

theorem sound_run (s : SessionId) (recipe : Recipe) (us : List Use) :
    ((start s recipe).run us).Sound s recipe :=
  (sound_start s recipe).run us

end Reader

/-! ## What reads answer -/

/-- A view answers every read by what its recipe gives in a content. -/
structure Results.Shows (v : Results) (w : World) (t : Thread) (s : Snapshot) : Prop where
  count : (v.count w t).1 = (v.recipe.rows s).map List.length
  isEmpty : (v.isEmpty w t).1 = (v.recipe.rows s).map List.isEmpty
  get : ∀ i, (v.get w t i).1 = (v.recipe.rows s).bind fun rows =>
    match rows[i]? with
    | some row => .ok row.value
    | none => .error (.indexOutOfBounds i rows.length)
  first : (v.first w t).1 = (v.recipe.rows s).map fun rows => rows.head?.map (·.value)
  last : (v.last w t).1 = (v.recipe.rows s).map fun rows => rows.getLast?.map (·.value)
  values : (v.values w t).1 = (v.recipe.rows s).map fun rows => rows.map (·.value)
  ids : (v.ids w t).1 = (v.recipe.rows s).map fun rows => rows.map (·.id)
  indexOf : ∀ x, (v.indexOf w t x).1 =
    (v.recipe.rows s).map fun rows => rows.findIdx? fun row => row.value.exactEq x
  min : ∀ of, (v.min w t of).1 = (Aggregate.min.check of.kind).bind fun _ =>
    (v.recipe.rows s).map fun rows => least (rows.map (Recipe.keyOf s of.path))
  max : ∀ of, (v.max w t of).1 = (Aggregate.max.check of.kind).bind fun _ =>
    (v.recipe.rows s).map fun rows => greatest (rows.map (Recipe.keyOf s of.path))
  sum : ∀ of, (v.sum w t of).1 = (Aggregate.sum.check of.kind).bind fun _ =>
    (v.recipe.rows s).bind fun rows =>
      ObjectStore.sum (rows.map (Recipe.keyOf s of.path)) of.kind.family
  average : ∀ of, (v.average w t of).1 = (Aggregate.average.check of.kind).bind fun _ =>
    (v.recipe.rows s).bind fun rows =>
      ObjectStore.average (rows.map (Recipe.keyOf s of.path)) of.kind.family

/-- A view answers every read as the list or set answers it itself. -/
structure Results.Agrees (v : Results) (c : Collection) (w : World) (t : Thread) : Prop where
  size : (v.count w t).1 = c.size w t
  isEmpty : (v.isEmpty w t).1 = c.isEmpty w t
  get : ∀ i, (v.get w t i).1 = c.get w t i
  values : (v.values w t).1 = c.values w t
  indexOf : ∀ x, (v.indexOf w t x).1 = c.indexOf w t x
  min : (v.min w t c.element).1 = c.min w t
  max : (v.max w t c.element).1 = c.max w t
  sum : (v.sum w t c.element).1 = c.sum w t
  average : (v.average w t c.element).1 = c.average w t

namespace Reader

variable {r : Reader} {s : SessionId} {recipe : Recipe}

theorem Sound.readRows_eq {α : Type} (h : r.Sound s recipe) (t : Thread)
    (f : List Row → Except Error α) :
    (r.view.readRows r.world t f).1 =
      (r.world.gate t s).bind fun x => (recipe.rows x.view).bind f := by
  change (r.view.rows r.world t).1.bind f = _
  rw [h.rows_eq]
  cases r.world.gate t s <;> rfl

theorem Sound.fold_eq {α : Type} (h : r.Sound s recipe) (t : Thread) (a : Aggregate)
    (of : Reference) (f : List Value → Except Error α) :
    (r.view.fold r.world t a of f).1 = (a.check of.kind).bind fun _ =>
      (r.world.gate t s).bind fun x => (recipe.rows x.view).bind fun rows =>
        f (rows.map (Recipe.keyOf x.view of.path)) := by
  have hrows := h.rows_eq t
  rw [Results.rows, Results.source, h.binding_eq, Binding.read, World.read] at hrows
  rw [Results.fold, Results.source, h.binding_eq, Binding.read, World.read]
  cases a.check of.kind with
  | error e => rfl
  | ok u =>
    cases hg : r.world.gate t s with
    | error e => rfl
    | ok x =>
      rw [hg] at hrows
      simp only [Except.bind] at hrows ⊢
      rw [hrows]

theorem Sound.shows (h : r.Sound s recipe) {t : Thread} {x : Session}
    (hg : r.world.gate t s = .ok x) : r.view.Shows r.world t x.view := by
  have hread {α : Type} (f : List Row → Except Error α) :
      (r.view.readRows r.world t f).1 = (r.view.recipe.rows x.view).bind f := by
    rw [h.readRows_eq, hg, h.recipe_eq]
    rfl
  have hfold {α : Type} (a : Aggregate) (of : Reference) (f : List Value → Except Error α) :
      (r.view.fold r.world t a of f).1 = (a.check of.kind).bind fun _ =>
        (r.view.recipe.rows x.view).bind fun rows =>
          f (rows.map (Recipe.keyOf x.view of.path)) := by
    rw [h.fold_eq, hg, h.recipe_eq]
    rfl
  exact {
    count := hread _
    isEmpty := hread _
    get := fun i => hread _
    first := hread _
    last := hread _
    values := hread _
    ids := hread _
    indexOf := fun x => hread _
    min := fun of => hfold .min of _
    max := fun of => hfold .max of _
    sum := fun of => hfold .sum of _
    average := fun of => hfold .average of _ }

theorem rows_container (key : ContainerKey) (snapshot : Snapshot) :
    (Recipe.ofSource (.container key)).rows snapshot =
      (Container.elementsIn key snapshot).map fun es => es.map (Recipe.elementRow snapshot) := by
  simp only [Recipe.rows, Recipe.ofSource, Recipe.sourceRows, Container.elementsIn]
  cases snapshot.entity? key.owner <;> rfl

theorem values_eq (w : World) (t : Thread) (s : SessionId) (c : Container) :
    (Collection.bound (.live s) c).values w t = (w.gate t s).bind fun x =>
      ((Recipe.ofSource (.container c.key)).rows x.view).map fun rows => rows.map (·.value) := by
  simp only [Collection.values, Collection.elements, Collection.attached, bind, Except.bind,
    Binding.read, World.read, rows_container]
  cases w.gate t s with
  | error e => rfl
  | ok x =>
    cases hes : Container.elementsIn c.key x.view with
    | error e => simp only [hes, Except.map]
    | ok es =>
      simp only [hes, Except.map, List.map_map]
      rfl

theorem Sound.agrees {c : Container} (h : r.Sound s (.ofSource (.container c.key)))
    (t : Thread) : r.view.Agrees (.bound (.live s) c) r.world t := by
  have hread {α : Type} (f : List Row → Except Error α) :
      (r.view.readRows r.world t f).1 = (r.view.rows r.world t).1.bind f := rfl
  have hvalues : (Collection.bound (.live s) c).values r.world t =
      (r.view.rows r.world t).1.map fun rows => rows.map (·.value) := by
    rw [values_eq, h.rows_eq]
    cases r.world.gate t s <;> rfl
  -- a row is its own key, since the path to the element itself is empty
  have hfold {α : Type} (a : Aggregate) (f : List Value → Except Error α) :
      (r.view.fold r.world t a (Reference.element c.kind) f).1 =
        (Collection.bound (.live s) c).fold r.world t a fun vs _ => f vs := by
    rw [h.fold_eq, Collection.fold, values_eq]
    simp only [Collection.attached, bind, Except.bind, Reference.element]
    cases a.check c.kind.element with
    | error e => rfl
    | ok u =>
      cases r.world.gate t s with
      | error e => rfl
      | ok x =>
        simp only
        cases (Recipe.ofSource (.container c.key)).rows x.view <;> rfl
  refine ⟨?_, ?_, fun i => ?_, ?_, fun x => ?_, hfold .min _, hfold .max _, hfold .sum _,
    hfold .average _⟩
  · rw [Results.count, hread, Collection.size, hvalues]
    cases (r.view.rows r.world t).1 with
    | error e => rfl
    | ok rows => simp only [Except.bind, Except.map, List.length_map]
  · rw [Results.isEmpty, hread, Collection.isEmpty, Collection.size, hvalues]
    cases (r.view.rows r.world t).1 with
    | error e => rfl
    | ok rows => cases rows <;> rfl
  · rw [Results.get, hread, Collection.get, hvalues]
    cases (r.view.rows r.world t).1 with
    | error e => rfl
    | ok rows =>
      simp only [bind, Except.bind, Except.map, List.getElem?_map, List.length_map]
      cases rows[i]? <;> rfl
  · rw [Results.values, hread, hvalues]
    cases (r.view.rows r.world t).1 <;> rfl
  · rw [Results.indexOf, hread, Collection.indexOf, hvalues]
    cases (r.view.rows r.world t).1 with
    | error e => rfl
    | ok rows => simp only [Except.bind, Except.map, List.findIdx?_map, Function.comp_def]

/--
Whatever is called, and whatever reads of a view of a session were made before and in
whatever world:

1. Where its session is open and used by its own thread, the view answers every read by
   what its recipe gives in what the session sees now: the batch inside a write, the
   snapshot outside. This is so also where the answer is an error.
2. If it is the plain view of a list or set, it answers as the list or set itself, also
   where both refuse.
-/
theorem reads_are_fresh (s : SessionId) (recipe : Recipe) (us : List Use) :
    let r := (start s recipe).run us
    (∀ t x, r.world.gate t s = .ok x → r.view.recipe = recipe ∧ r.view.Shows r.world t x.view) ∧
    ∀ t c, (Collection.bound (.live s) c).asResults = .ok (.ofRecipe (.live s) recipe) →
      r.view.Agrees (.bound (.live s) c) r.world t := by
  have hsound := sound_run s recipe us
  refine ⟨fun t x hg => ⟨hsound.recipe_eq, hsound.shows hg⟩, fun t c hc => ?_⟩
  obtain rfl : recipe = .ofSource (.container c.key) := by
    have hview := Except.ok.inj hc
    exact (congrArg Results.recipe hview).symm
  exact hsound.agrees t

def dogs : Schema := ⟨[⟨"Dog", []⟩]⟩

/-- A dog is created in a write, the dogs are counted, and the write is cancelled. -/
def countedInVain : List Use :=
  [.call (.openDatabase dogs false), .call (.openSession 0 ⟨0⟩), .call (.begin 0 ⟨0⟩),
    .call (.create 0 ⟨0⟩ "Dog" []), .read 0 .count, .call (.cancel 0 ⟨0⟩)]

/-- The view still keeps the row of the dog that is no longer there, and does not count
it. -/
theorem cancelled_dog_is_not_counted :
    let r := (start ⟨0⟩ (.ofSource (.objects "Dog"))).run countedInVain
    (r.view.kept.map fun kept => kept.2.length) = some 1 ∧
      (r.view.count r.world 0).1 = .ok 0 := by
  refine ⟨rfl, ?_⟩
  obtain ⟨x, hg, hnone⟩ : ∃ x,
      ((start ⟨0⟩ (.ofSource (.objects "Dog"))).run countedInVain).world.gate 0 ⟨0⟩ = .ok x ∧
        x.view = .empty := ⟨_, rfl, rfl⟩
  have hshows := ((reads_are_fresh ⟨0⟩ (.ofSource (.objects "Dog")) countedInVain).1 0 x hg).2
  rw [hshows.count, hnone]
  rfl

end Reader

end ObjectStore
