/-
  The fewest decimal digits that name a binary number.

  A binary floating point number stands for every real that rounds to it. Among
  the decimals in that interval the ones with the fewest digits are its shortest
  names, and the one nearest to the number itself is the name we print.

  The number is `m * 2 ^ q` with `m > 0`. For a decimal grid `10 ^ g` only the
  two grid points around the number can be the nearest names on that grid; they
  are tested by exact arithmetic on naturals, from the coarsest grid that can
  hold a name to the finest that is ever needed.

    1. `Positive.onGrid` is the nearer of the neighbours on a grid that read back.
    2. `shortest` is the first grid with a neighbour that reads back, and on it
       the nearer neighbour; of two equally near the larger.
    3. `positional` writes digits and an exponent of ten without an exponent.
-/

namespace ObjectStore.Number

/-- A positive binary number `m * 2 ^ q`. `narrowBelow` holds at a power of two,
where the gap to the number below is half the gap to the number above. -/
structure Positive where
  m : Nat
  q : Int
  narrowBelow : Bool
  deriving Repr, DecidableEq

/-- A decimal `digits * 10 ^ exponent`. -/
structure Digits where
  digits : Nat
  exponent : Int
  deriving Repr, DecidableEq

/-- A number seen on the grid `10 ^ g`: the number is `value / unit` steps, and
one unit in the last binary place is `ulp / unit` steps. -/
structure Grid where
  value : Nat
  unit : Nat
  ulp : Nat

/-- The number on the grid `10 ^ g`. -/
def Positive.grid (x : Positive) (g : Int) : Grid :=
  let ulp := Nat.pow 2 x.q.toNat * Nat.pow 10 (-g).toNat
  { value := x.m * ulp, unit := Nat.pow 2 (-x.q).toNat * Nat.pow 10 g.toNat, ulp }

/-- The grid point at or below the number reads back to it: it lies within half
the gap below. The end of the interval belongs to an even number. -/
def Positive.readsBackBelow (x : Positive) (v : Grid) : Bool :=
  let distance := v.value - v.value / v.unit * v.unit
  let doubled := if x.narrowBelow then 4 * distance else 2 * distance
  doubled < v.ulp || (x.m % 2 == 0 && doubled == v.ulp)

/-- The grid point above the number reads back to it. -/
def Positive.readsBackAbove (x : Positive) (v : Grid) : Bool :=
  let doubled := 2 * ((v.value / v.unit + 1) * v.unit - v.value)
  doubled < v.ulp || (x.m % 2 == 0 && doubled == v.ulp)

/-- The name of the number on the grid `10 ^ g`, if a grid point reads back: the
nearer one, and of two equally near the larger. -/
def Positive.onGrid (x : Positive) (g : Int) : Option Nat :=
  let v := x.grid g
  let below := v.value / v.unit
  match x.readsBackBelow v, x.readsBackAbove v with
  | true, true =>
    if 2 * (v.value - below * v.unit) < v.unit then some below else some (below + 1)
  | true, false => some below
  | false, true => some (below + 1)
  | false, false => none

/-- The least power of ten above the number, looked for upwards from `k`. -/
def Positive.powerAbove (x : Positive) : Nat → Int → Int
  | 0, k => k
  | fuel + 1, k =>
    let v := x.grid k
    if v.value < v.unit then k else x.powerAbove fuel (k + 1)

/-- A power of ten at most the number: `2 ^ b` is at most the number for
`b = log2 m + q`, and `1233 / 4096` is just below the logarithm of two. -/
def Positive.powerBelow (x : Positive) : Int :=
  Int.fdiv ((Nat.log2 x.m + x.q) * 1233) 4096 - 1

/-- The first grid of `fuel` many, from `g` downwards, with a name. -/
def Positive.firstName (x : Positive) : Nat → Int → Option Digits
  | 0, _ => none
  | fuel + 1, g =>
    match x.onGrid g with
    | some d => some ⟨d, g⟩
    | none => x.firstName fuel (g - 1)

/-- Zeros at the end of the digits move into the exponent. -/
def Digits.trim : Nat → Digits → Digits
  | 0, d => d
  | fuel + 1, d =>
    if d.digits ≠ 0 ∧ d.digits % 10 = 0 then
      Digits.trim fuel ⟨d.digits / 10, d.exponent + 1⟩
    else d

def Positive.exact (x : Positive) : Digits :=
  let places := (-x.q).toNat
  ⟨x.m * Nat.pow 2 x.q.toNat * Nat.pow 5 places, -(places : Int)⟩

/-- The shortest name of a positive binary number. Seventeen digits always
suffice for the formats in use; the full expansion stands in beyond them. -/
def Positive.shortest (x : Positive) : Digits :=
  let top := x.powerAbove 6 x.powerBelow
  Digits.trim 20 ((x.firstName 18 (top - 1)).getD x.exact)

/-- Digits and exponent without an exponent mark: zeros fill up to the point on
either side, and no point is written after a whole number. -/
def Digits.positional (d : Digits) : String :=
  let cs := (toString d.digits).toList
  let places := (-d.exponent).toNat
  if d.exponent ≥ 0 then String.ofList (cs ++ List.replicate d.exponent.toNat '0')
  else
    let padded := List.replicate (places + 1 - cs.length) '0' ++ cs
    let whole := padded.length - places
    String.ofList (padded.take whole ++ '.' :: padded.drop whole)

end ObjectStore.Number
