import ObjectStore.Schema.Kind
import ObjectStore.Value.Order

/-
  Least, greatest, sum and average of a list of values.

  Null takes no part. The least and greatest value are found along the canonical
  comparison, the earliest of equal ones, and come without their wrapper. A sum
  is taken over the values of one family in the order given, in the widest
  representation of the family; what has another family is left out.

    1. `least` and `greatest` of nothing are nothing.
    2. `sum` of nothing is the zero of the family, `average` of nothing nothing.
    3. `Aggregate.check` says which kinds support which aggregate.
-/

namespace ObjectStore

open Number

/-- What can be asked of the elements of a list or set as a whole. -/
inductive Aggregate where
  | min | max | sum | average
  deriving DecidableEq, Repr, Inhabited

namespace Aggregate

/-- The name of an aggregate in messages. -/
def name : Aggregate → String
  | .min => "min"
  | .max => "max"
  | .sum => "sum"
  | .average => "average"

def supports : Aggregate → Family → Bool
  | .min, f => f.supportsMinMax
  | .max, f => f.supportsMinMax
  | .sum, f => f.supportsSum
  | .average, f => f.supportsSum

/-- An aggregate is taken over single values of a family that supports it. -/
def check (a : Aggregate) (k : PropertyKind) : Except Error Unit :=
  if a.supports k.family && !k.isContainer then .ok ()
  else .error (.unsupportedAggregate a.name k.text)

end Aggregate

/-! ## Extremes -/

/-- The value kept so far against the next one, which takes over only if it
compares as `keep` with it. -/
def takeOver (keep : Ordering) (best : Option Value) (v : Value) : Option Value :=
  match best with
  | none => some v
  | some b => if v.canonicalCompare b = keep then some v else some b

/-- The first value that no other compares as `keep` with, nulls left out. -/
def extreme (keep : Ordering) (vs : List Value) : Option Value :=
  ((vs.filter fun v => !v.isNull).foldl (takeOver keep) none).map Value.unwrap

/-- The least value. -/
def least (vs : List Value) : Option Value := extreme .lt vs

/-- The greatest value. -/
def greatest (vs : List Value) : Option Value := extreme .gt vs

/-! ## Totals -/

/-- Whether an integer fits 64 bits with sign. -/
def fitsInt64 (i : Int) : Bool := -(Nat.pow 2 63) ≤ i && i < Nat.pow 2 63

/-- The running sum of integers, each step of which has to fit 64 bits. -/
def addIntegers (total : Int) : List Int → Except Error Int
  | [] => .ok total
  | i :: is =>
    if fitsInt64 (total + i) then addIntegers (total + i) is
    else .error (.executionError .integerSum)

def addDecimals (total : Decimal) : List Decimal → Except Error Decimal
  | [] => .ok total
  | d :: ds =>
    match total.add d with
    | some t => addDecimals t ds
    | none => .error (.executionError .decimalSum)

/-- The sum of the values of a family, in its widest representation. -/
inductive Total where
  | integer (sum : Int)
  | float (sum : Double)
  | decimal (sum : Decimal)

/-- The sum of the values of a family and how many there are. -/
def total (vs : List Value) : Family → Except Error (Total × Nat)
  | .integer =>
    let is := vs.filterMap Value.asInt
    (addIntegers 0 is).map fun t => (.integer t, is.length)
  | .float =>
    let xs := vs.filterMap Value.asDouble
    .ok (.float (xs.foldl Double.add .zero), xs.length)
  | .decimal =>
    let ds := vs.filterMap Value.asDecimal
    (addDecimals .zero ds).map fun t => (.decimal t, ds.length)
  | f => .error (.unsupportedAggregate Aggregate.sum.name f.name)

def Total.value : Total → Value
  | .integer i => .int64 (Int64.ofInt i)
  | .float x => .double x
  | .decimal d => .decimal d

/-- The sum divided by how many there are: a floating point number for integers
and floats, a decimal for decimals. -/
def Total.mean (count : Nat) : Total → Except Error Value
  | .integer i => .ok (.double ((Double.ofInt i).div (.ofInt count)))
  | .float x => .ok (.double (x.div (.ofInt count)))
  | .decimal d =>
    match d.divide count with
    | some q => .ok (.decimal q)
    | none => .error (.executionError .decimalAverage)

/-- The sum of the values of a family. -/
def sum (vs : List Value) (f : Family) : Except Error Value :=
  (total vs f).map fun t => t.1.value

/-- The arithmetic mean of the values of a family. -/
def average (vs : List Value) (f : Family) : Except Error (Option Value) :=
  match total vs f with
  | .error e => .error e
  | .ok (_, 0) => .ok none
  | .ok (t, count) => (t.mean count).map some

end ObjectStore
