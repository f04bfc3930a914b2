import ObjectStore.Filter.Expr
import ObjectStore.Value.Text

/-
  The text form of an expression.

  An expression is written as a filter text in which every literal is replaced by
  a placeholder, together with the literals in the order of the placeholders:

    comparison    path OP %@                with OP one of == != < <= > >=
    text          path WORD %@              or path WORD[c] %@ ignoring case
    range         path BETWEEN (%@, %@)     in curly brackets, both ends included
                  path >= %@ && path < %@   without the upper end
    membership    %@ IN path
    all elements  path.@min >= %@ && path.@max <= %@
    joined        child && child …          child || child …

  A form that contains a connective stands in parentheses inside a joined form.

    1. `Expr.emit` writes text and literals side by side.
    2. `Predicate.text` puts the literals back where the placeholders are.
    3. `Predicate.same` compares two predicates by text and literals alone.
-/

namespace ObjectStore

def placeholder : List Char := ['%', '@']

/-- A text with placeholders and the literals that belong to them. -/
structure Emission where
  text : List Char
  arguments : List Value
  deriving DecidableEq, Inhabited

namespace Emission

def nothing : Emission := ⟨[], []⟩

def plain (s : String) : Emission := ⟨s.toList, []⟩

def literal (v : Value) : Emission := ⟨placeholder, [v]⟩

instance : Append Emission := ⟨fun a b => ⟨a.text ++ b.text, a.arguments ++ b.arguments⟩⟩

def parenthesized (wanted : Bool) (e : Emission) : Emission :=
  if wanted then plain "(" ++ e ++ plain ")" else e

end Emission

namespace Expr

def isCompound : Expr → Bool
  | .logical _ _ => true
  | .allWithin _ _ => true
  | .range _ b => !b.inclusive
  | _ => false

open Emission in
def emitLeaf : Expr → Emission
  | .comparison op p v => plain s!"{p.text} {op.symbol} " ++ literal v
  | .text op p part ignoreCase =>
    let mark := if ignoreCase then "[c]" else ""
    plain s!"{p.text} {op.keyword}{mark} " ++ literal (.string part)
  | .range p b =>
    if b.inclusive then
      plain (p.text ++ " BETWEEN \x7b") ++ literal b.lo ++ plain ", " ++ literal b.hi
        ++ plain "\x7d"
    else
      plain s!"{p.text} >= " ++ literal b.lo ++ plain s!" && {p.text} < " ++ literal b.hi
  | .membership p v => literal v ++ plain s!" IN {p.text}"
  | .allWithin p b =>
    let upper := if b.inclusive then "<=" else "<"
    plain s!"{p.text}.@min >= " ++ literal b.lo ++ plain s!" && {p.text}.@max {upper} "
      ++ literal b.hi
  | .logical _ _ => nothing

/-- What is written for a connective without children. -/
def emptyWord : Connective → String
  | .and => "TRUEPREDICATE"
  | .or => "FALSEPREDICATE"

mutual

/-- A tree in writing; `nested` tells that it stands inside a joined form. -/
def emit (nested : Bool) : Expr → Emission
  | .logical op children => Emission.parenthesized nested (emitChildren op true children)
  | e => Emission.parenthesized (nested && e.isCompound) e.emitLeaf

/-- The children of a connective with its sign between them; `first` tells that
none was written before. -/
def emitChildren (op : Connective) (first : Bool) : List Expr → Emission
  | [] => if first then Emission.plain (emptyWord op) else Emission.nothing
  | e :: es =>
    (if first then Emission.nothing else Emission.plain s!" {op.symbol} ")
      ++ emit true e ++ emitChildren op false es

end

end Expr

/-- An expression with its text form. -/
structure Predicate where
  format : String
  arguments : List Value
  expr : Expr
  deriving Inhabited

def Expr.compile (e : Expr) : Predicate :=
  let written := e.emit false
  ⟨String.ofList written.text, written.arguments, e⟩

/-- The text with its placeholders replaced by literals from left to right. One
too many stays as it is. -/
def substitute : List Char → List Value → List Char
  | '%' :: '@' :: cs, v :: vs => v.text.toList ++ substitute cs vs
  | '%' :: '@' :: cs, [] => '%' :: '@' :: substitute cs []
  | c :: cs, vs => c :: substitute cs vs
  | [], _ => []

namespace Predicate

/-- The filter text with the literals in place. -/
def text (p : Predicate) : String := String.ofList (substitute p.format.toList p.arguments)

/-- Equal literals, one by one, as data. -/
def sameArguments : List Value → List Value → Bool
  | [], [] => true
  | v :: vs, w :: ws => v.same w && sameArguments vs ws
  | _, _ => false

/-- Equal texts and equal literals. -/
def same (p q : Predicate) : Bool :=
  p.format == q.format && sameArguments p.arguments q.arguments

end Predicate

end ObjectStore
