import ObjectStore.Collection.Handover
import ObjectStore.Proofs.Run.Reads
import ObjectStore.Session.Objects

/-
  What a session and its handles can be asked, and what they answer.

  There are many reads. Each of them is a value here, and what any of them can answer is a
  `Reply`, so that something can be said of all of them at once.

    1. `Look`, `Read` and `Question` are the reads of a list or set, of a view, and of a
       session together with its live lists, sets and views.
    2. `Look.answer_congr`, `Read.answer_congr` and `Question.answer_congr`: an answer
       depends on what is seen, and on nothing else.
    3. Each read may first check operands that need no content. Where nothing may be seen,
       `answer_barred` says that this check and the reason are all that is answered.
-/

namespace ObjectStore

/-- What is answered to a request. -/
inductive Reply where
  | done
  | truth (b : Bool)
  | count (n : Nat)
  | generation (g : Generation)
  | place (i : Option Nat)
  | value (v : Value)
  | optional (v : Option Value)
  | values (vs : List Value)
  | slot (slot : SlotId)
  | ids (ids : List ElementId)
  | object (key : ObjectKey)
  | collection (c : Collection)
  | located (c : Option Collection)
  | view (v : Results)
  | token (h : HandoverToken)
  | observer (o : SessionId × ObserverId)

/-! ## What a handle sees -/

namespace Binding

def sees (b : Binding) (w : World) (t : Thread) : Except Error Snapshot :=
  b.read w t fun s _ => .ok s

variable {b : Binding} {w : World} {t : Thread} {s : SessionId}

theorem sees_live (w : World) (t : Thread) (s : SessionId) :
    (Binding.live s).sees w t = (w.gate t s).map Session.view := by
  simp only [sees, read, World.read]
  cases w.gate t s <;> rfl

@[simp] theorem sees_frozen (snapshot : Snapshot) (w : World) (t : Thread) :
    (Binding.frozen snapshot).sees w t = .ok snapshot := rfl

theorem read_eq {α : Type} (b : Binding) (w : World) (t : Thread)
    (f : Snapshot → Except Error α) :
    (b.read w t fun s _ => f s) = (b.sees w t).bind f := by
  cases b with
  | frozen snapshot => rfl
  | live s =>
    simp only [sees, read, World.read]
    cases w.gate t s <;> rfl

end Binding

/-! ## Reads of lists and sets -/

/-- A read of a list or set. -/
inductive Look where
  | values
  | size
  | isEmpty
  | get (i : Nat)
  | contains (v : Value)
  | indexOf (v : Value)
  | slotAt (i : Nat)
  | getBySlot (slot : SlotId)
  | containsWithin (b : Bounds)
  | min
  | max
  | sum
  | average
  | generation

/-- The answer to a read of a list or set. -/
def Look.answer (w : World) (t : Thread) (c : Collection) : Look → Except Error Reply
  | .values => (c.values w t).map .values
  | .size => (c.size w t).map .count
  | .isEmpty => (c.isEmpty w t).map .truth
  | .get i => (c.get w t i).map .value
  | .contains v => (c.contains w t v).map .truth
  | .indexOf v => (c.indexOf w t v).map .place
  | .slotAt i => (c.slotAt w t i).map .slot
  | .getBySlot slot => (c.getBySlot w t slot).map .optional
  | .containsWithin b => (c.containsWithin w t b).map .truth
  | .min => (c.min w t).map .optional
  | .max => (c.max w t).map .optional
  | .sum => (c.sum w t).map .value
  | .average => (c.average w t).map .optional
  | .generation => (c.generation w t).map .generation

/-- The check of operands that comes before a list or set is read. -/
def Look.operands (c : Container) : Look → Except Error Unit
  | .containsWithin b =>
    ((Reference.onOwner c.key.property c.kind).containsAllWithin b).map fun _ => ()
  | .min => Aggregate.min.check c.kind.element
  | .max => Aggregate.max.check c.kind.element
  | .sum => Aggregate.sum.check c.kind.element
  | .average => Aggregate.average.check c.kind.element
  | _ => .ok ()

namespace Collection

variable {b b' : Binding} {w w' : World} {t t' : Thread}

theorem elements_eq (b : Binding) (c : Container) (w : World) (t : Thread) :
    (bound b c).elements w t = (b.sees w t).bind fun s => Container.elementsIn c.key s :=
  b.read_eq w t _

theorem values_eq (b : Binding) (c : Container) (w : World) (t : Thread) :
    (bound b c).values w t = ((b.sees w t).bind fun s => Container.elementsIn c.key s).map
      fun es => es.map (·.value) := by
  rw [values, elements_eq]

theorem fold_eq {α : Type} (b : Binding) (c : Container) (w : World) (t : Thread) (a : Aggregate)
    (f : List Value → Family → Except Error α) :
    (bound b c).fold w t a f = (a.check c.kind.element).bind fun _ =>
      ((bound b c).values w t).bind fun vs => f vs c.kind.family := rfl

theorem containsWithin_eq (b : Binding) (c : Container) (w : World) (t : Thread)
    (bounds : Bounds) :
    (bound b c).containsWithin w t bounds =
      ((Reference.onOwner c.key.property c.kind).containsAllWithin bounds).bind fun e =>
        (b.sees w t).bind fun s => (Container.elementsIn c.key s).bind fun _ =>
          .ok (e.holds s (.object c.key.owner)) := by
  simp only [containsWithin, attached, bind, Except.bind, pure, Except.pure]
  cases (Reference.onOwner c.key.property c.kind).containsAllWithin bounds with
  | error e => rfl
  | ok e => exact b.read_eq w t _

theorem freeze_live (s : SessionId) (c : Container) (w : World) (t : Thread) :
    (bound (.live s) c).freeze w t = (w.committed t s).bind fun snapshot =>
      (Container.elementsIn c.key snapshot).map fun _ => .bound (.frozen snapshot) c := by
  simp only [freeze, attached, bind, Except.bind, Binding.isFrozen, Bool.false_eq_true, if_false,
    Binding.freeze, pure, Except.pure]
  cases w.committed t s with
  | error e => rfl
  | ok snapshot => simp only [Except.map, Binding.read]

end Collection

namespace Look

variable {b b' : Binding} {w w' : World} {t t' : Thread}

/-- A list or set answers in the same way wherever the same is seen. -/
theorem answer_congr (hsees : b.sees w t = b'.sees w' t')
    (hgeneration : b.generation w t = b'.generation w' t') (c : Container) (look : Look) :
    look.answer w t (.bound b c) = look.answer w' t' (.bound b' c) := by
  have helements :
      (Collection.bound b c).elements w t = (Collection.bound b' c).elements w' t' := by
    rw [Collection.elements_eq, Collection.elements_eq, hsees]
  have hvalues : (Collection.bound b c).values w t = (Collection.bound b' c).values w' t' := by
    rw [Collection.values_eq, Collection.values_eq, hsees]
  have hfold {α : Type} (a : Aggregate) (f : List Value → Family → Except Error α) :
      (Collection.bound b c).fold w t a f = (Collection.bound b' c).fold w' t' a f := by
    rw [Collection.fold_eq, Collection.fold_eq, hvalues]
  cases look with
  | values => simp only [answer, hvalues]
  | size => simp only [answer, Collection.size, hvalues]
  | isEmpty => simp only [answer, Collection.isEmpty, Collection.size, hvalues]
  | get i => simp only [answer, Collection.get, hvalues]
  | contains v => simp only [answer, Collection.contains, hvalues]
  | indexOf v => simp only [answer, Collection.indexOf, hvalues]
  | slotAt i => simp only [answer, Collection.slotAt, helements]
  | getBySlot slot => simp only [answer, Collection.getBySlot, helements]
  | containsWithin bounds => simp only [answer, Collection.containsWithin_eq, hsees]
  | min => simp only [answer, Collection.min, hfold]
  | max => simp only [answer, Collection.max, hfold]
  | sum => simp only [answer, Collection.sum, hfold]
  | average => simp only [answer, Collection.average, hfold]
  | generation =>
    simp only [answer, Collection.generation, Collection.attached, bind, Except.bind, hgeneration]

/-- Where nothing may be seen, a list or set answers with the reason, if the operands are
right. -/
theorem answer_barred {e : Error} (hsees : b.sees w t = .error e)
    (hgeneration : b.generation w t = .error e) (c : Container) (look : Look) :
    look.answer w t (.bound b c) = (look.operands c).bind fun _ => .error e := by
  have helements : (Collection.bound b c).elements w t = .error e := by
    rw [Collection.elements_eq, hsees]
    rfl
  have hvalues : (Collection.bound b c).values w t = .error e := by
    rw [Collection.values_eq, hsees]
    rfl
  have hfold {α : Type} (a : Aggregate) (f : List Value → Family → Except Error α) :
      (Collection.bound b c).fold w t a f = (a.check c.kind.element).bind fun _ => .error e := by
    rw [Collection.fold_eq, hvalues]
    rfl
  have hmap {α : Type} (f : α → Reply) (check : Except Error Unit) :
      (check.bind fun _ => (.error e : Except Error α)).map f = check.bind fun _ => .error e := by
    cases check <;> rfl
  cases look with
  | containsWithin bounds =>
    simp only [answer, Collection.containsWithin_eq, hsees, operands]
    cases (Reference.onOwner c.key.property c.kind).containsAllWithin bounds <;> rfl
  | min => simp only [answer, Collection.min, hfold, hmap, operands]
  | max => simp only [answer, Collection.max, hfold, hmap, operands]
  | sum => simp only [answer, Collection.sum, hfold, hmap, operands]
  | average => simp only [answer, Collection.average, hfold, hmap, operands]
  | generation =>
    simp only [answer, Collection.generation, Collection.attached, bind, Except.bind, hgeneration]
    rfl
  | slotAt i =>
    simp only [answer, Collection.slotAt, helements, bind, Except.bind]
    rfl
  | getBySlot slot =>
    simp only [answer, Collection.getBySlot, helements]
    rfl
  | get i =>
    simp only [answer, Collection.get, hvalues, bind, Except.bind]
    rfl
  | values => simp only [answer, hvalues]; rfl
  | size => simp only [answer, Collection.size, hvalues]; rfl
  | isEmpty => simp only [answer, Collection.isEmpty, Collection.size, hvalues]; rfl
  | contains v => simp only [answer, Collection.contains, hvalues]; rfl
  | indexOf v => simp only [answer, Collection.indexOf, hvalues]; rfl

end Look

/-! ## Reads of views -/

/-- The answer to a read of a view. -/
def Read.answer (w : World) (t : Thread) (v : Results) : Read → Except Error Reply
  | .count => (v.count w t).1.map .count
  | .isEmpty => (v.isEmpty w t).1.map .truth
  | .get i => (v.get w t i).1.map .value
  | .first => (v.first w t).1.map .optional
  | .last => (v.last w t).1.map .optional
  | .values => (v.values w t).1.map .values
  | .ids => (v.ids w t).1.map .ids
  | .indexOf x => (v.indexOf w t x).1.map .place
  | .min of => (v.min w t of).1.map .optional
  | .max of => (v.max w t of).1.map .optional
  | .sum of => (v.sum w t of).1.map .value
  | .average of => (v.average w t of).1.map .optional

/-- The check of operands that comes before a view is read. -/
def Read.operands : Read → Except Error Unit
  | .min of => Aggregate.min.check of.kind
  | .max of => Aggregate.max.check of.kind
  | .sum of => Aggregate.sum.check of.kind
  | .average of => Aggregate.average.check of.kind
  | _ => .ok ()

namespace Results

variable {v : Results} {w : World} {t : Thread}

/-- The rows are those of the recipe in what is seen, as if nothing had been kept. -/
def Fresh (v : Results) (w : World) (t : Thread) : Prop :=
  (v.rows w t).1 = (v.binding.sees w t).bind v.recipe.rows

theorem sees_eq_source (v : Results) (w : World) (t : Thread) :
    v.binding.sees w t = (v.source w t).map Prod.fst := by
  rw [source]
  cases v.binding with
  | frozen snapshot => rfl
  | live s =>
    simp only [Binding.sees, Binding.read, World.read]
    cases w.gate t s <;> rfl

theorem rows_of_barred {e : Error} (h : v.binding.sees w t = .error e) :
    v.rows w t = (.error e, v) := by
  rw [sees_eq_source] at h
  rw [rows]
  cases hsource : v.source w t with
  | ok p =>
    rw [hsource] at h
    cases h
  | error e' =>
    rw [hsource] at h
    cases h
    rfl

theorem fresh_ofRecipe (b : Binding) (r : Recipe) (w : World) (t : Thread) :
    (Results.ofRecipe b r).Fresh w t := by
  rw [Fresh, sees_eq_source, rows]
  cases (Results.ofRecipe b r).source w t with
  | error e => rfl
  | ok p =>
    simp only [rowsAt, ofRecipe, evaluate, Except.map, Except.bind]
    cases r.rows p.1 <;> rfl

theorem fold_eq {α : Type} (v : Results) (w : World) (t : Thread) (a : Aggregate)
    (of : Reference) (f : List Value → Except Error α) :
    (v.fold w t a of f).1 = (a.check of.kind).bind fun _ => (v.binding.sees w t).bind fun s =>
      (v.rows w t).1.bind fun rows => f (rows.map (Recipe.keyOf s of.path)) := by
  rw [fold, sees_eq_source, rows]
  cases a.check of.kind with
  | error e => rfl
  | ok u => cases v.source w t <;> rfl

end Results

namespace Read

variable {v v' : Results} {w w' : World} {t t' : Thread}

/-- Two views of one recipe answer in the same way wherever they see the same. -/
theorem answer_congr (hfresh : v.Fresh w t) (hfresh' : v'.Fresh w' t')
    (hrecipe : v.recipe = v'.recipe) (hsees : v.binding.sees w t = v'.binding.sees w' t')
    (read : Read) : read.answer w t v = read.answer w' t' v' := by
  have hrows : (v.rows w t).1 = (v'.rows w' t').1 := by
    rw [hfresh, hfresh', hsees, hrecipe]
  have hread {α : Type} (f : List Row → Except Error α) :
      (v.readRows w t f).1 = (v'.readRows w' t' f).1 := by
    change (v.rows w t).1.bind f = (v'.rows w' t').1.bind f
    rw [hrows]
  have hfold {α : Type} (a : Aggregate) (of : Reference) (f : List Value → Except Error α) :
      (v.fold w t a of f).1 = (v'.fold w' t' a of f).1 := by
    rw [Results.fold_eq, Results.fold_eq, hsees, hrows]
  cases read with
  | count => exact congrArg (Except.map _) (hread _)
  | isEmpty => exact congrArg (Except.map _) (hread _)
  | get i => exact congrArg (Except.map _) (hread _)
  | first => exact congrArg (Except.map _) (hread _)
  | last => exact congrArg (Except.map _) (hread _)
  | values => exact congrArg (Except.map _) (hread _)
  | ids => exact congrArg (Except.map _) (hread _)
  | indexOf x => exact congrArg (Except.map _) (hread _)
  | min of => exact congrArg (Except.map _) (hfold .min of _)
  | max of => exact congrArg (Except.map _) (hfold .max of _)
  | sum of => exact congrArg (Except.map _) (hfold .sum of _)
  | average of => exact congrArg (Except.map _) (hfold .average of _)

/-- Where nothing may be seen, a view answers with the reason, if the operands are right. -/
theorem answer_barred {e : Error} (hsees : v.binding.sees w t = .error e) (read : Read) :
    read.answer w t v = read.operands.bind fun _ => .error e := by
  have hread {α : Type} (f : List Row → Except Error α) : (v.readRows w t f).1 = .error e := by
    simp only [Results.readRows, Results.rows_of_barred hsees, Except.bind]
  have hfold {α : Type} (a : Aggregate) (of : Reference) (f : List Value → Except Error α)
      (reply : α → Reply) : (v.fold w t a of f).1.map reply =
        (a.check of.kind).bind fun _ => .error e := by
    rw [Results.fold_eq, hsees]
    cases a.check of.kind <;> rfl
  cases read with
  | count => exact congrArg (Except.map _) (hread _)
  | isEmpty => exact congrArg (Except.map _) (hread _)
  | get i => exact congrArg (Except.map _) (hread _)
  | first => exact congrArg (Except.map _) (hread _)
  | last => exact congrArg (Except.map _) (hread _)
  | values => exact congrArg (Except.map _) (hread _)
  | ids => exact congrArg (Except.map _) (hread _)
  | indexOf x => exact congrArg (Except.map _) (hread _)
  | min of => exact hfold .min of _ _
  | max of => exact hfold .max of _ _
  | sum of => exact hfold .sum of _ _
  | average of => exact hfold .average of _ _

end Read

/-! ## Questions to a session -/

/-- A question to a session, or to a live list, set or view of it. -/
inductive Question where
  | generation
  | getValue (key : ObjectKey) (property : String)
  | objectExists (key : ObjectKey)
  | collection (key : ObjectKey) (property : String)
  | list (key : ObjectKey) (property : String)
  | set (key : ObjectKey) (property : String)
  | locate (token : HandoverToken)
  | look (c : Container) (l : Look)
  | freeze (c : Container)
  | handOver (c : Container)
  | freezeView (recipe : Recipe) (kept : Option (Nat × List Row))

namespace Question

def answer (w : World) (t : Thread) (s : SessionId) : Question → Except Error Reply
  | .generation => (w.generation t s).map .generation
  | .getValue key property => (w.getValue t s key property).map .value
  | .objectExists key => (w.objectExists t s key).map .truth
  | .collection key property => (w.collection t s key property).map .collection
  | .list key property => (w.list t s key property).map .collection
  | .set key property => (w.set t s key property).map .collection
  | .locate token => (w.locate t s token).map .located
  | .look c l => l.answer w t (.bound (.live s) c)
  | .freeze c => ((Collection.bound (.live s) c).freeze w t).map .collection
  | .handOver c => ((Collection.bound (.live s) c).export w t).map .token
  | .freezeView recipe kept => ((⟨.live s, recipe, kept⟩ : Results).freeze w t).map .view

/-- The check of operands that comes before the session is looked at. -/
def operands : Question → Except Error Unit
  | .look c l => l.operands c
  | _ => .ok ()

variable {w w' : World} {t : Thread} {s : SessionId}

/-- A question is answered from the session and the schema of its database. -/
theorem answer_congr (hsession : w.session? s = w'.session? s)
    (hschema : w.schemaOf s = w'.schemaOf s) (t : Thread) (q : Question) :
    q.answer w t s = q.answer w' t s := by
  have hgate : w.gate t s = w'.gate t s := by simp only [World.gate, hsession]
  have hread {α : Type} (f : Snapshot → Nat → Except Error α) : w.read t s f = w'.read t s f := by
    simp only [World.read, hgate]
  have hcommitted : w.committed t s = w'.committed t s := by simp only [World.committed, hgate]
  have hsees : (Binding.live s).sees w t = (Binding.live s).sees w' t := hread fun x _ => .ok x
  have hgeneration : w.generation t s = w'.generation t s := by
    simp only [World.generation, hgate]
  have hcollection (key : ObjectKey) (property : String) :
      w.collection t s key property = w'.collection t s key property := by
    simp only [World.collection, hread, hschema]
  cases q with
  | generation => simp only [answer, hgeneration]
  | getValue key property => simp only [answer, World.getValue, hread, hschema]
  | objectExists key => simp only [answer, World.objectExists, hread]
  | collection key property => simp only [answer, hcollection]
  | list key property => simp only [answer, World.list, World.collectionOf, hcollection]
  | set key property => simp only [answer, World.set, World.collectionOf, hcollection]
  | locate token => simp only [answer, World.locate, hread, hschema]
  | look c l => exact l.answer_congr hsees hgeneration c
  | freeze c => simp only [answer, Collection.freeze_live, hcommitted]
  | handOver c => simp only [answer, Collection.export, hcommitted]
  | freezeView recipe kept => simp only [answer, Results.freeze, Binding.freeze, hcommitted]

/-- Where the session may not be used, a question is answered with the reason, if the
operands are right. -/
theorem answer_barred {e : Error} (h : w.gate t s = .error e) (q : Question) :
    q.answer w t s = q.operands.bind fun _ => .error e := by
  have hread {α : Type} (f : Snapshot → Nat → Except Error α) : w.read t s f = .error e := by
    simp only [World.read, h]
  have hcommitted : w.committed t s = .error e := by simp only [World.committed, h]
  have hsees : (Binding.live s).sees w t = .error e := hread fun x _ => .ok x
  have hgeneration : w.generation t s = .error e := by
    simp only [World.generation, h]
    rfl
  have hcollection (key : ObjectKey) (property : String) :
      w.collection t s key property = .error e := by
    simp only [World.collection, hread]
    rfl
  have hof (key : ObjectKey) (property : String) (shape : Shape) :
      w.collectionOf t s key property shape = .error e := by
    simp only [World.collectionOf, hcollection]
    rfl
  cases q with
  | generation => simp only [answer, hgeneration]; rfl
  | getValue key property => simp only [answer, World.getValue, hread]; rfl
  | objectExists key => simp only [answer, World.objectExists, hread]; rfl
  | collection key property => simp only [answer, hcollection]; rfl
  | list key property => simp only [answer, World.list, hof]; rfl
  | set key property => simp only [answer, World.set, hof]; rfl
  | locate token => simp only [answer, World.locate, hread]; rfl
  | look c l => exact l.answer_barred hsees hgeneration c
  | freeze c => simp only [answer, Collection.freeze_live, hcommitted]; rfl
  | handOver c => simp only [answer, Collection.export, hcommitted]; rfl
  | freezeView recipe kept => simp only [answer, Results.freeze, Binding.freeze, hcommitted]; rfl

end Question

end ObjectStore
