import ObjectStore.Aggregate
import ObjectStore.Filter.Expr
import ObjectStore.Store.Snapshot
import ObjectStore.Text.Lowercase

/-
  What an expression says about a candidate.

  A candidate is a value, in most cases a link to an object. A path is followed
  from it through a snapshot; behind a null or dangling link everything is null.
  Conditions are decided by the exact comparison of values, so null satisfies no
  order and no range.

    1. `Snapshot.reach` is what a path reaches: a value, or the elements of a
       container.
    2. `Expr.holds` decides an expression.
-/

namespace ObjectStore

inductive Reached where
  | scalar (v : Value)
  | elements (es : List Element)
  deriving DecidableEq, Inhabited

/-- The single value reached; a container counts as null. -/
def Reached.value : Reached → Value
  | .scalar v => v
  | .elements _ => .null

/-- What a path reaches from a value. It ends at the first container. -/
def Snapshot.reach (s : Snapshot) (v : Value) : List String → Reached
  | [] => .scalar v
  | name :: rest =>
    match v.asObject.bind s.entity? with
    | none => .scalar .null
    | some e =>
      match e.field? name with
      | none => .scalar .null
      | some (.value w) => s.reach w rest
      | some (.list es) => .elements es
      | some (.set es) => .elements es

/-! ## Conditions on values -/

namespace Value

/-- The value is the bound or beyond it. -/
def isAtLeast (v bound : Value) : Bool :=
  match v.compareExact? bound with
  | some .gt | some .eq => true
  | _ => false

/-- The value is the bound or before it. -/
def isAtMost (v bound : Value) : Bool :=
  match v.compareExact? bound with
  | some .lt | some .eq => true
  | _ => false

def isBelow (v bound : Value) : Bool := v.compareExact? bound == some .lt

def isAbove (v bound : Value) : Bool := v.compareExact? bound == some .gt

def within (v : Value) (b : Bounds) : Bool :=
  v.isAtLeast b.lo && if b.inclusive then v.isAtMost b.hi else v.isBelow b.hi

end Value

/-- A comparison of a value with a literal. -/
def Comparison.holds : Comparison → Value → Value → Bool
  | .eq, v, literal => v.exactEq literal
  | .neq, v, literal => !v.exactEq literal
  | .lt, v, literal => v.isBelow literal
  | .lte, v, literal => v.isAtMost literal
  | .gt, v, literal => v.isAbove literal
  | .gte, v, literal => v.isAtLeast literal

def occursIn (part : List Char) : List Char → Bool
  | [] => part.isEmpty
  | c :: cs => part.isPrefixOf (c :: cs) || occursIn part cs

/-- A comparison of a text with a part of it. -/
def TextMatch.holds (op : TextMatch) (s part : List Char) : Bool :=
  match op with
  | .beginsWith => part.isPrefixOf s
  | .endsWith => part.isSuffixOf s
  | .contains => occursIn part s

/-- All elements lie in a range, as far as their least and greatest value tell. A
container without either has none to compare. -/
def elementsWithin (es : List Element) (b : Bounds) : Bool :=
  let vs := es.map (·.value)
  match least vs, greatest vs with
  | some lo, some hi =>
    lo.isAtLeast b.lo && if b.inclusive then hi.isAtMost b.hi else hi.isBelow b.hi
  | _, _ => false

/-! ## Expressions -/

namespace Expr

mutual

/-- Whether a candidate satisfies an expression. -/
def holds (s : Snapshot) (candidate : Value) : Expr → Bool
  | .comparison op p literal => op.holds (s.reach candidate p.segments).value literal
  | .text op p part ignoreCase =>
    match (s.reach candidate p.segments).value.asString with
    | none => false
    | some t =>
      if ignoreCase then op.holds (Text.lowercase t.toList) (Text.lowercase part.toList)
      else op.holds t.toList part.toList
  | .range p b => (s.reach candidate p.segments).value.within b
  | .membership p element =>
    match s.reach candidate p.segments with
    | .elements es => es.any fun e => e.value.exactEq element
    | .scalar _ => false
  | .allWithin p b =>
    match s.reach candidate p.segments with
    | .elements es => elementsWithin es b
    | .scalar _ => false
  | .logical .and children => allHold s candidate children
  | .logical .or children => someHold s candidate children

def allHold (s : Snapshot) (candidate : Value) : List Expr → Bool
  | [] => true
  | e :: es => e.holds s candidate && allHold s candidate es

def someHold (s : Snapshot) (candidate : Value) : List Expr → Bool
  | [] => false
  | e :: es => e.holds s candidate || someHold s candidate es

end

end Expr

end ObjectStore
