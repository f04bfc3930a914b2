import ObjectStore.Text.CaseData

/-
  Lowercase text.

  Every character is replaced by its lowercase form, whatever the language. One
  character depends on its place: the capital sigma becomes the final form at the
  end of a word and the plain form elsewhere. It stands at the end of a word if a
  cased letter comes before it and none after it, where characters that do not
  end a word are passed over on both sides.

    1. `lowerChar` is the form of one character, of one or two characters.
    2. `endsWord` is the condition for the final sigma.
    3. `lowercase` is the form of a text.
-/

namespace ObjectStore.Text

/-- Whether a code point lies in one of the ranges. -/
def inRanges (ranges : List (Nat × Nat)) (n : Nat) : Bool :=
  ranges.any fun r => r.1 ≤ n && n ≤ r.2

def isCased (c : Char) : Bool := inRanges casedRanges c.toNat

/-- Characters that do not end a word. -/
def isCaseIgnorable (c : Char) : Bool := inRanges caseIgnorableRanges c.toNat

/-- Whether the run gives a lowercase form to the code point. -/
def CaseRun.covers (r : CaseRun) (n : Nat) : Bool :=
  r.first ≤ n && n ≤ r.last && (n - r.first) % r.stride == 0

/-- The lowercase form of one character, out of context. -/
def lowerChar (c : Char) : List Char :=
  let n := c.toNat
  if n < 0x80 then [c.toLower]
  else if n = 0x130 then ['i', Char.ofNat 0x307]
  else
    match lowercaseRuns.find? (·.covers n) with
    | some r => [Char.ofNat (n + r.distance).toNat]
    | none => [c]

/-- The next character that is not passed over has a case. -/
def meetsCased (cs : List Char) : Bool :=
  match cs.dropWhile isCaseIgnorable with
  | c :: _ => isCased c
  | [] => false

/-- A capital sigma between these characters ends its word; those before it are
given nearest first. -/
def endsWord (before after : List Char) : Bool :=
  meetsCased before && !meetsCased after

/-- The lowercase form of what follows `before`. -/
def lowerFrom (before : List Char) : List Char → List Char
  | [] => []
  | c :: after =>
    let form :=
      if c = 'Σ' then [if endsWord before after then 'ς' else 'σ'] else lowerChar c
    form ++ lowerFrom (c :: before) after

/-- The lowercase form of a text. -/
def lowercase (cs : List Char) : List Char := lowerFrom [] cs

end ObjectStore.Text
