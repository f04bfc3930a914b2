import ObjectStore.View.Binding

/-
  Views on rows.

  A results view is a recipe bound to a session or to one snapshot. Nothing is
  evaluated before a read. A read keeps the rows together with the version of the
  view they were evaluated in, and the next read of the same version takes them
  from there. So every read answers with its outcome and with the view as it is
  afterwards; another view derived from it starts with nothing kept.

    1. `Results.rows` is the read on which all others are built.
    2. `Results.fold` asks for an aggregate of a property of the rows.
    3. `Results.filter`, `sorted` and `distinct` derive, `Results.freeze` pins.
    4. `Results.observe` registers an observer of the view.
-/

namespace ObjectStore

/-- A recipe, what it is bound to, and the rows of the last read with the version
they belong to. -/
structure Results where
  binding : Binding
  recipe : Recipe
  kept : Option (Nat × List Row)
  deriving Inhabited

namespace Results

def ofRecipe (b : Binding) (r : Recipe) : Results := ⟨b, r, none⟩

def clone (v : Results) : Results := { v with kept := none }

/-- The rows evaluated anew, and kept if that succeeds. -/
def evaluate (v : Results) (s : Snapshot) (version : Nat) : Except Error (List Row) × Results :=
  match v.recipe.rows s with
  | .error e => (.error e, v)
  | .ok rows => (.ok rows, { v with kept := some (version, rows) })

/-- The rows of a version: those kept, if they belong to it. -/
def rowsAt (v : Results) (s : Snapshot) (version : Nat) : Except Error (List Row) × Results :=
  match v.kept with
  | some (known, rows) => if known = version then (.ok rows, v) else v.evaluate s version
  | none => v.evaluate s version

/-- The snapshot and the version that a read of the view sees. -/
def source (v : Results) (w : World) (t : Thread) : Except Error (Snapshot × Nat) :=
  v.binding.read w t fun s version => .ok (s, version)

/-- The rows. -/
def rows (v : Results) (w : World) (t : Thread) : Except Error (List Row) × Results :=
  match v.source w t with
  | .error e => (.error e, v)
  | .ok (s, version) => v.rowsAt s version

def readRows {α : Type} (v : Results) (w : World) (t : Thread)
    (f : List Row → Except Error α) : Except Error α × Results :=
  let (rows, v) := v.rows w t
  (rows.bind f, v)

/-! ## Reads -/

def count (v : Results) (w : World) (t : Thread) : Except Error Nat × Results :=
  v.readRows w t fun rows => .ok rows.length

def isEmpty (v : Results) (w : World) (t : Thread) : Except Error Bool × Results :=
  v.readRows w t fun rows => .ok rows.isEmpty

/-- The value of the row at a place. -/
def get (v : Results) (w : World) (t : Thread) (i : Nat) : Except Error Value × Results :=
  v.readRows w t fun rows =>
    match rows[i]? with
    | some r => .ok r.value
    | none => .error (.indexOutOfBounds i rows.length)

def first (v : Results) (w : World) (t : Thread) : Except Error (Option Value) × Results :=
  v.readRows w t fun rows => .ok (rows.head?.map (·.value))

def last (v : Results) (w : World) (t : Thread) : Except Error (Option Value) × Results :=
  v.readRows w t fun rows => .ok (rows.getLast?.map (·.value))

def values (v : Results) (w : World) (t : Thread) : Except Error (List Value) × Results :=
  v.readRows w t fun rows => .ok (rows.map (·.value))

def ids (v : Results) (w : World) (t : Thread) : Except Error (List ElementId) × Results :=
  v.readRows w t fun rows => .ok (rows.map (·.id))

/-- The place of the first row with a value. -/
def indexOf (v : Results) (w : World) (t : Thread) (x : Value) :
    Except Error (Option Nat) × Results :=
  v.readRows w t fun rows => .ok (rows.findIdx? fun r => r.value.exactEq x)

def generation (v : Results) (w : World) (t : Thread) : Except Error Generation :=
  v.binding.generation w t

/-! ## Aggregates of a property -/

/-- An aggregate of what a reference reaches from the rows. The kind of the
reference is checked before anything is read. -/
def fold {α : Type} (v : Results) (w : World) (t : Thread) (a : Aggregate) (of : Reference)
    (f : List Value → Except Error α) : Except Error α × Results :=
  match a.check of.kind with
  | .error e => (.error e, v)
  | .ok () =>
    match v.source w t with
    | .error e => (.error e, v)
    | .ok (s, version) =>
      let (rows, v) := v.rowsAt s version
      (rows.bind fun rows => f (rows.map (Recipe.keyOf s of.path)), v)

def min (v : Results) (w : World) (t : Thread) (of : Reference) :
    Except Error (Option Value) × Results :=
  v.fold w t .min of fun vs => .ok (least vs)

def max (v : Results) (w : World) (t : Thread) (of : Reference) :
    Except Error (Option Value) × Results :=
  v.fold w t .max of fun vs => .ok (greatest vs)

def sum (v : Results) (w : World) (t : Thread) (of : Reference) : Except Error Value × Results :=
  v.fold w t .sum of fun vs => ObjectStore.sum vs of.kind.family

def average (v : Results) (w : World) (t : Thread) (of : Reference) :
    Except Error (Option Value) × Results :=
  v.fold w t .average of fun vs => ObjectStore.average vs of.kind.family

/-! ## Derived views -/

/-- The rows that satisfy one more condition. -/
def filter (v : Results) (e : Expr) : Results := .ofRecipe v.binding (v.recipe.narrowed e)

/-- The rows sorted by a property, null first when ascending. -/
def sorted (v : Results) (key : Reference) (ascending : Bool) : Results :=
  .ofRecipe v.binding (v.recipe.sortedBy key ascending)

/-- The first row of each value of a property. -/
def distinct (v : Results) (key : Reference) : Results :=
  .ofRecipe v.binding (v.recipe.distinctBy key)

/-- The view of what the session has last committed. -/
def freeze (v : Results) (w : World) (t : Thread) : Except Error Results :=
  (v.binding.freeze w t).map fun b => .ofRecipe b v.recipe

/-! ## Observers -/

/-- An observer of the view, told of changes to what the session has committed.
The rows are read once, so that a view that cannot be read is not observed; a
container that only the current write has created has no committed rows yet. -/
def observe (v : Results) (w : World) (t : Thread) :
    Except Error (SessionId × ObserverId) × Results × World :=
  match v.binding with
  | .frozen _ => (.error (.invalidOperation .frozenObservation), v, w)
  | .live s =>
    match v.rows w t with
    | (.error e, v) => (.error e, v, w)
    | (.ok _, v) =>
      match w.gate t s with
      | .error e => (.error e, v, w)
      | .ok x =>
        let rows := v.recipe.rowsOrNone x.snapshot
        let (id, feed) := x.feed.register v.recipe rows x.snapshot.generation
        (.ok (s, id), v, w.putSession s { x with feed })

end Results

namespace World

/-- Every object of a class, in ascending order of key. -/
def objects (w : World) (s : SessionId) (className : String) : Except Error Results :=
  ((w.schemaOf s).find className).map fun _ =>
    .ofRecipe (.live s) (.ofSource (.objects className))

end World

end ObjectStore
