import ObjectStore.Filter.Reference
import ObjectStore.Value.Order

/-
  Predicate expressions.

  An expression is a tree whose leaves are conditions on what a path reaches and
  whose inner nodes join conditions by "and" or "or". Trees are built only by the
  functions of this module, which check the operands once: everything that reads
  a tree relies on it.

    1. `Reference.equals` … `Reference.containsAllWithin` build the leaves.
    2. `Expr.and` and `Expr.or` join two trees. A tree already joined by the same
       word is not nested but continued.
    3. `Expr.all` and `Expr.anyOf` join a list; of none there is no expression.
    4. `Expr.same` is equality of trees, literals compared as data.
-/

namespace ObjectStore

/-- Comparison of a value with a literal. -/
inductive Comparison where
  | eq | neq | lt | lte | gt | gte
  deriving DecidableEq, Repr, Inhabited

def Comparison.symbol : Comparison → String
  | .eq => "=="
  | .neq => "!="
  | .lt => "<"
  | .lte => "<="
  | .gt => ">"
  | .gte => ">="

/-- Comparison of a text with a part of it. -/
inductive TextMatch where
  | beginsWith | endsWith | contains
  deriving DecidableEq, Repr, Inhabited

def TextMatch.keyword : TextMatch → String
  | .beginsWith => "BEGINSWITH"
  | .endsWith => "ENDSWITH"
  | .contains => "CONTAINS"

inductive Connective where
  | and | or
  deriving DecidableEq, Repr, Inhabited

def Connective.symbol : Connective → String
  | .and => "&&"
  | .or => "||"

inductive Expr where
  /-- The value that the path reaches, compared with a literal. -/
  | comparison (op : Comparison) (path : Path) (value : Value)
  /-- The text that the path reaches, compared with a part of it. -/
  | text (op : TextMatch) (path : Path) (part : String) (ignoreCase : Bool)
  /-- The value that the path reaches lies in a range. -/
  | range (path : Path) (bounds : Bounds)
  /-- A literal is an element of the container that the path reaches. -/
  | membership (path : Path) (element : Value)
  /-- All elements of the container that the path reaches lie in a range. -/
  | allWithin (path : Path) (bounds : Bounds)
  /-- Conditions joined by one word. -/
  | logical (op : Connective) (children : List Expr)
  deriving Inhabited

/-! ## Leaves -/

/-- The two ends of a range belong to one family. -/
def Bounds.checkFamilies (b : Bounds) : Except Error Unit :=
  if b.lo.family? = b.hi.family? then .ok ()
  else .error (.typeMismatch b.lo.typeName b.hi.typeName)

namespace Reference

/-- Both ends of a range are literals of an order, and of one family. -/
def checkBounds (r : Reference) (b : Bounds) : Except Error Unit := do
  r.checkBound b.lo
  r.checkBound b.hi
  b.checkFamilies

/-- A comparison with a literal. For equality the kind has to accept the literal,
for the others it has to be a literal of an order. -/
def compareWith (r : Reference) (op : Comparison) (v : Value) : Except Error Expr := do
  r.requireScalar
  match op with
  | .eq | .neq => r.kind.check v
  | _ =>
    r.requireOrderable
    r.checkBound v
  return .comparison op r.path v

/-- The value equals a literal. -/
def equals (r : Reference) (v : Value) : Except Error Expr := r.compareWith .eq v

def notEquals (r : Reference) (v : Value) : Except Error Expr := r.compareWith .neq v

def isNull (r : Reference) : Except Error Expr := r.equals .null

def isNotNull (r : Reference) : Except Error Expr := r.notEquals .null

def containsRange (r : Reference) (b : Bounds) : Except Error Expr := do
  r.requireScalar
  r.requireOrderable
  r.checkBounds b
  return .range r.path b

/-- The value lies in a range with both ends. -/
def between (r : Reference) (lo hi : Value) : Except Error Expr :=
  r.containsRange ⟨lo, hi, true⟩

/-- The text begins with, ends with or contains a part. -/
def matchText (r : Reference) (op : TextMatch) (part : String) (ignoreCase : Bool) :
    Except Error Expr := do
  r.requireScalar
  if r.kind.family ≠ .string then throw (.typeMismatch "string property" r.description)
  return .text op r.path part ignoreCase

/-- A literal is an element of the container. Null may be asked for whether or not
the container allows it. -/
def containsElement (r : Reference) (v : Value) : Except Error Expr := do
  r.requireContainer
  if !v.isNull then r.kind.element.check v
  return .membership r.path v

/-- All elements of the container lie in a range. -/
def containsAllWithin (r : Reference) (b : Bounds) : Except Error Expr := do
  r.requireContainer
  if !r.kind.family.supportsMinMax then
    throw (.unsupportedAggregate "@min/@max" r.kind.element.text)
  r.checkBounds b
  return .allWithin r.path b

end Reference

/-! ## Joining -/

namespace Expr

/-- What a tree contributes to a node of a connective: its children if it is such
a node itself, else the tree. -/
def parts (op : Connective) : Expr → List Expr
  | .logical op' children => if op' = op then children else [.logical op' children]
  | e => [e]

/-- The trees joined by one connective, none of them a node of it. -/
def join (op : Connective) (es : List Expr) : Expr := .logical op (es.flatMap (parts op))

/-- Both hold. -/
def and (a b : Expr) : Expr := join .and [a, b]

/-- One of the two holds. -/
def or (a b : Expr) : Expr := join .or [a, b]

/-- The trees of a list joined; one tree is itself and none is no tree. -/
def joinAll (op : Connective) : List Expr → Option Expr
  | [] => none
  | [e] => some e
  | es => some (join op es)

/-- All hold. -/
def all (es : List Expr) : Option Expr := joinAll .and es

/-- One holds. -/
def anyOf (es : List Expr) : Option Expr := joinAll .or es

/-! ## Equality -/

mutual

/-- One shape, with literals that are the same data. -/
def same : Expr → Expr → Bool
  | .comparison op p v, .comparison op' p' v' => op = op' && p = p' && v.same v'
  | .text op p s i, .text op' p' s' i' => op = op' && p = p' && s = s' && i = i'
  | .range p b, .range p' b' =>
    p = p' && b.lo.same b'.lo && b.hi.same b'.hi && b.inclusive = b'.inclusive
  | .membership p v, .membership p' v' => p = p' && v.same v'
  | .allWithin p b, .allWithin p' b' =>
    p = p' && b.lo.same b'.lo && b.hi.same b'.hi && b.inclusive = b'.inclusive
  | .logical op es, .logical op' es' => op = op' && sameAll es es'
  | _, _ => false

/-- Equality of two lists of trees, one by one. -/
def sameAll : List Expr → List Expr → Bool
  | [], [] => true
  | e :: es, e' :: es' => e.same e' && sameAll es es'
  | _, _ => false

end

end Expr

end ObjectStore
