import ObjectStore.Proofs.Filter.Canonical

/-
  Placeholders and literals line up.

  The text form of a tree is written side by side with its literals, and the literals are
  put back by going over the finished text. Neither of the two looks at the tree while it
  puts them back, and a literal may itself show the signs of a placeholder. What comes out
  is nevertheless what is printed by one walk over the tree from left to right.

    1. `Expr.walk` is that walk: pieces of plain text, and literals where they stand.
    2. `emit_eq`: text and literals are written as the walk has them.
    3. `Path.Valid.unmarked` and `unmarked_walk`: no plain piece has a percent sign, so
       that a placeholder in the text always stands for a literal (`places_written`).
    4. `substitute_written`: each literal goes where it belongs, and what it shows is not
       looked at again.
    5. `compile_follows` is the result.
-/

namespace ObjectStore

/-! ## The walk over a tree -/

/-- What is met on a walk over a tree. -/
inductive Piece where
  | plain (s : String)
  | literal (v : Value)
  deriving Inhabited

namespace Piece

/-- A piece in writing, a literal as it is asked for. -/
def shown (f : Value → List Char) : Piece → List Char
  | .plain s => s.toList
  | .literal v => f v

def literal? : Piece → Option Value
  | .plain _ => none
  | .literal v => some v

/-- Pieces in writing, with a placeholder for each literal. -/
def written (ps : List Piece) : List Char := ps.flatMap (shown fun _ => placeholder)

/-- Pieces in writing, with the text of each literal. -/
def printed (ps : List Piece) : List Char := ps.flatMap (shown fun v => v.text.toList)

/-- The literals in the order of the walk. -/
def literals (ps : List Piece) : List Value := ps.filterMap literal?

def bracketed (wanted : Bool) (ps : List Piece) : List Piece :=
  if wanted then .plain "(" :: ps ++ [.plain ")"] else ps

end Piece

namespace Expr

mutual

/-- A tree from left to right; `nested` tells that it stands inside a joined form. -/
def walk (nested : Bool) : Expr → List Piece
  | .comparison op p v => [.plain p.text, .plain " ", .plain op.symbol, .plain " ", .literal v]
  | .text op p part ignoreCase =>
    [.plain p.text, .plain " ", .plain (op.word ignoreCase), .plain " ", .literal (.string part)]
  | .range p ⟨lo, hi, true⟩ =>
    [.plain p.text, .plain " BETWEEN \x7b", .literal lo, .plain ", ", .literal hi, .plain "\x7d"]
  | .range p ⟨lo, hi, false⟩ =>
    Piece.bracketed nested [.plain p.text, .plain " >= ", .literal lo, .plain " && ",
      .plain p.text, .plain " < ", .literal hi]
  | .membership p v => [.literal v, .plain " IN ", .plain p.text]
  | .allWithin p ⟨lo, hi, inclusive⟩ =>
    Piece.bracketed nested [.plain p.text, .plain ".@min >= ", .literal lo, .plain " && ",
      .plain p.text, .plain ".@max ", .plain (if inclusive then "<=" else "<"), .plain " ",
      .literal hi]
  | .logical op [] => Piece.bracketed nested [.plain (emptyWord op)]
  | .logical op (e :: es) => Piece.bracketed nested (walk true e ++ walkOthers op es)

/-- The children behind the first one, each behind the sign of the connective. -/
def walkOthers (op : Connective) : List Expr → List Piece
  | [] => []
  | e :: es => [.plain " ", .plain op.symbol, .plain " "] ++ walk true e ++ walkOthers op es

end

mutual

def paths : Expr → List Path
  | .comparison _ p _ => [p]
  | .text _ p _ _ => [p]
  | .range p _ => [p]
  | .membership p _ => [p]
  | .allWithin p _ => [p]
  | .logical _ es => pathsAll es

/-- The paths of the trees of a list. -/
def pathsAll : List Expr → List Path
  | [] => []
  | e :: es => e.paths ++ pathsAll es

end

end Expr

/-! ## Writing follows the walk -/

namespace Emission

open Piece

def ofPieces (ps : List Piece) : Emission := ⟨written ps, literals ps⟩

theorem ofPieces_plain (s : String) (ps : List Piece) :
    ofPieces (.plain s :: ps) = plain s ++ ofPieces ps := rfl

theorem ofPieces_literal (v : Value) (ps : List Piece) :
    ofPieces (.literal v :: ps) = literal v ++ ofPieces ps := rfl

theorem ofPieces_nil : ofPieces [] = nothing := rfl

theorem ofPieces_append (ps qs : List Piece) :
    ofPieces (ps ++ qs) = ofPieces ps ++ ofPieces qs := by
  show Emission.mk _ _ = Emission.mk _ _
  congr 1
  · exact List.flatMap_append
  · exact List.filterMap_append

theorem ofPieces_bracketed (wanted : Bool) (ps : List Piece) :
    ofPieces (bracketed wanted ps) = parenthesized wanted (ofPieces ps) := by
  cases wanted with
  | false => rfl
  | true =>
    simp only [bracketed, parenthesized, if_true, List.cons_append, ofPieces_plain,
      ofPieces_append, ofPieces_nil, append_nothing, append_assoc]

end Emission

namespace Expr

open Emission

mutual

/-- Text and literals of a tree are written as the walk has them. -/
theorem emit_eq (nested : Bool) : (e : Expr) → e.emit nested = ofPieces (e.walk nested)
  | .comparison op p v => by
    rw [(Led.comparison op p v).emit_eq]
    rfl
  | .text op p part ignoreCase => by
    rw [(Led.text op p part ignoreCase).emit_eq]
    rfl
  | .range p ⟨lo, hi, true⟩ => by
    rw [(Led.range p ⟨lo, hi, true⟩ rfl).emit_eq]
    rfl
  | .range p ⟨lo, hi, false⟩ => by
    simp only [walk, ofPieces_bracketed, emit, emitLeaf, isCompound, Bool.not_false, Bool.and_true,
      Bool.false_eq_true, if_false, toString, plain_append, append_assoc]
    rfl
  | .membership p v => by
    simp only [walk, emit, emitLeaf, isCompound, Bool.and_false, parenthesized, toString,
      Bool.false_eq_true, if_false, plain_append, ofPieces_literal, ofPieces_plain, ofPieces_nil,
      append_nothing]
  | .allWithin p ⟨lo, hi, inclusive⟩ => by
    simp only [walk, ofPieces_bracketed, emit, emitLeaf, isCompound, Bool.and_true, toString,
      plain_append, append_assoc]
    rfl
  | .logical op [] => by
    rw [walk, ofPieces_bracketed, emit, emitChildren, if_pos rfl, ofPieces_plain, ofPieces_nil,
      append_nothing]
  | .logical op (e :: es) => by
    rw [walk, ofPieces_bracketed, emit, emitChildren, ofPieces_append, emit_eq, emitChildren_eq]
    rfl

theorem emitChildren_eq (op : Connective) : (es : List Expr) →
    emitChildren op false es = ofPieces (walkOthers op es)
  | [] => rfl
  | e :: es => by
    rw [emitChildren_cons, walkOthers, emit_eq, emitChildren_eq]
    simp only [List.cons_append, List.nil_append, ofPieces_plain, ofPieces_append]

end

end Expr

/-! ## Plain pieces have no percent sign -/

def Unmarked (cs : List Char) : Prop := ∀ c ∈ cs, c ≠ '%'

instance (cs : List Char) : Decidable (Unmarked cs) :=
  List.decidableBAll (· ≠ '%') cs

theorem Path.Valid.unmarked {p : Path} (h : p.Valid) : Unmarked p.text.toList := by
  intro c hc hmark
  have hpath := h.text_chars.2 c hc
  rw [hmark] at hpath
  exact absurd hpath (by decide)

namespace Piece

def AllUnmarked : List Piece → Prop
  | [] => True
  | .plain s :: ps => Unmarked s.toList ∧ AllUnmarked ps
  | .literal _ :: ps => AllUnmarked ps

theorem AllUnmarked.append {ps qs : List Piece} (hp : AllUnmarked ps) (hq : AllUnmarked qs) :
    AllUnmarked (ps ++ qs) := by
  induction ps with
  | nil => exact hq
  | cons p ps ih =>
    cases p with
    | plain s => exact ⟨hp.1, ih hp.2⟩
    | literal v => exact ih hp

theorem AllUnmarked.bracketed {ps : List Piece} (wanted : Bool) (hp : AllUnmarked ps) :
    AllUnmarked (bracketed wanted ps) := by
  cases wanted with
  | false => exact hp
  | true =>
    have hclosing : AllUnmarked [.plain ")"] := ⟨by decide, trivial⟩
    exact ⟨by decide, hp.append hclosing⟩

end Piece

namespace Expr

open Piece

mutual

/-- A percent sign is written for a placeholder only. -/
theorem unmarked_walk (nested : Bool) : (e : Expr) → (∀ p ∈ e.paths, p.Valid) →
    AllUnmarked (e.walk nested)
  | .comparison op p v, h => by
    have hp := (h p List.mem_cons_self).unmarked
    have hop : Unmarked op.symbol.toList := by cases op <;> decide
    exact ⟨hp, by decide, hop, by decide, trivial⟩
  | .text op p part ignoreCase, h => by
    have hp := (h p List.mem_cons_self).unmarked
    have hword : Unmarked (op.word ignoreCase).toList := by
      cases op <;> cases ignoreCase <;> decide
    exact ⟨hp, by decide, hword, by decide, trivial⟩
  | .range p ⟨lo, hi, true⟩, h => by
    have hp := (h p List.mem_cons_self).unmarked
    exact ⟨hp, by decide, by decide, by decide, trivial⟩
  | .range p ⟨lo, hi, false⟩, h => by
    have hp := (h p List.mem_cons_self).unmarked
    exact .bracketed nested ⟨hp, by decide, by decide, hp, by decide, trivial⟩
  | .membership p v, h => by
    have hp := (h p List.mem_cons_self).unmarked
    exact ⟨by decide, hp, trivial⟩
  | .allWithin p ⟨lo, hi, inclusive⟩, h => by
    have hp := (h p List.mem_cons_self).unmarked
    have hupper : Unmarked (if inclusive then "<=" else "<").toList := by
      cases inclusive <;> decide
    exact .bracketed nested
      ⟨hp, by decide, by decide, hp, by decide, hupper, by decide, trivial⟩
  | .logical op [], h => by
    have hempty : Unmarked (emptyWord op).toList := by cases op <;> decide
    exact .bracketed nested ⟨hempty, trivial⟩
  | .logical op (e :: es), h => by
    refine .bracketed nested (.append (unmarked_walk true e ?_) (unmarked_walkOthers op es ?_))
    · exact fun p hp => h p (List.mem_append_left _ hp)
    · exact fun p hp => h p (List.mem_append_right _ hp)

theorem unmarked_walkOthers (op : Connective) : (es : List Expr) → (∀ p ∈ pathsAll es, p.Valid) →
    AllUnmarked (walkOthers op es)
  | [], h => trivial
  | e :: es, h => by
    have hop : Unmarked op.symbol.toList := by cases op <;> decide
    have hsign : AllUnmarked [.plain " ", .plain op.symbol, .plain " "] :=
      ⟨by decide, hop, by decide, trivial⟩
    refine .append (.append hsign (unmarked_walk true e ?_)) (unmarked_walkOthers op es ?_)
    · exact fun p hp => h p (List.mem_append_left _ hp)
    · exact fun p hp => h p (List.mem_append_right _ hp)

end

end Expr

/-! ## Placeholders in a text -/

def places (part text : List Char) : List Nat :=
  (List.range text.length).filter fun i => part.isPrefixOf (text.drop i)

theorem places_append (part u x : List Char) :
    places part (u ++ x) =
      ((List.range u.length).filter fun i => part.isPrefixOf ((u ++ x).drop i)) ++
        (places part x).map (u.length + ·) := by
  have hshift : (fun i => part.isPrefixOf ((u ++ x).drop i)) ∘ (u.length + ·) =
      fun i => part.isPrefixOf (x.drop i) := by
    funext i
    show part.isPrefixOf ((u ++ x).drop (u.length + i)) = part.isPrefixOf (x.drop i)
    rw [← List.drop_drop, List.drop_left]
  rw [places, List.length_append, List.range_add, List.filter_append, List.filter_map, hshift]
  rfl

theorem places_unmarked {u : List Char} (hu : Unmarked u) (x : List Char) :
    places placeholder (u ++ x) = (places placeholder x).map (u.length + ·) := by
  have hnone : ((List.range u.length).filter fun i =>
      placeholder.isPrefixOf ((u ++ x).drop i)) = [] := by
    refine List.filter_eq_nil_iff.mpr fun i hi => ?_
    have hlt := List.mem_range.mp hi
    have hne := hu u[i] (List.getElem_mem hlt)
    rw [List.drop_append_of_le_length (Nat.le_of_lt hlt), List.drop_eq_getElem_cons hlt,
      List.cons_append, placeholder, List.isPrefixOf_cons_cons]
    rw [Bool.and_eq_true, beq_iff_eq]
    exact fun h => hne h.1.symm
  rw [places_append, hnone, List.nil_append]

theorem places_placeholder (x : List Char) :
    places placeholder (placeholder ++ x) =
      0 :: (places placeholder x).map (placeholder.length + ·) := by
  rw [places_append]
  rfl

theorem substitute_unmarked {u : List Char} (hu : Unmarked u) (x : List Char) (vs : List Value) :
    substitute (u ++ x) vs = u ++ substitute x vs := by
  induction u with
  | nil => rfl
  | cons c u ih =>
    have hc : c ≠ '%' := hu c List.mem_cons_self
    rw [List.cons_append, List.cons_append, substitute,
      ih fun d hd => hu d (List.mem_cons_of_mem c hd)]
    · exact fun _ _ _ _ h _ => hc h
    · exact fun _ _ h _ => hc h

namespace Piece

theorem length_places {ps : List Piece} (h : AllUnmarked ps) :
    (places placeholder (written ps)).length = (literals ps).length := by
  induction ps with
  | nil => rfl
  | cons p ps ih =>
    cases p with
    | plain s =>
      calc
        _ = (places placeholder (s.toList ++ written ps)).length := rfl
        _ = (literals ps).length := by rw [places_unmarked h.1, List.length_map, ih h.2]
    | literal v =>
      calc
        _ = (places placeholder (placeholder ++ written ps)).length := rfl
        _ = (literals ps).length + 1 := by
          rw [places_placeholder, List.length_cons, List.length_map, ih h]

/-- A placeholder stands where the walk meets a literal: behind as many others as literals
were met before, and behind what was written before. -/
theorem places_written {before after : List Piece} {v : Value}
    (h : AllUnmarked (before ++ .literal v :: after)) :
    (places placeholder (written (before ++ .literal v :: after)))[(literals before).length]? =
      some (written before).length := by
  induction before with
  | nil =>
    calc
      _ = (places placeholder (placeholder ++ written after))[0]? := rfl
      _ = some 0 := by rw [places_placeholder, List.getElem?_cons_zero]
  | cons p before ih =>
    generalize hrest : before ++ .literal v :: after = rest at ih
    rw [List.cons_append, hrest] at h ⊢
    cases p with
    | plain s =>
      calc
        _ = (places placeholder (s.toList ++ written rest))[(literals before).length]? := rfl
        _ = some (s.toList.length + (written before).length) := by
          rw [places_unmarked h.1, List.getElem?_map, ih h.2, Option.map_some]
        _ = some (written (.plain s :: before)).length := by rw [← List.length_append]; rfl
    | literal w =>
      calc
        _ = (places placeholder (placeholder ++ written rest))[(literals before).length + 1]? := rfl
        _ = some (placeholder.length + (written before).length) := by
          rw [places_placeholder, List.getElem?_cons_succ, List.getElem?_map, ih h,
            Option.map_some]
        _ = some (written (.literal w :: before)).length := by rw [← List.length_append]; rfl

/-- Each literal goes where it belongs, and none is left over. -/
theorem substitute_written {ps : List Piece} (h : AllUnmarked ps) :
    substitute (written ps) (literals ps) = printed ps := by
  induction ps with
  | nil => rfl
  | cons p ps ih =>
    cases p with
    | plain s =>
      calc
        _ = substitute (s.toList ++ written ps) (literals ps) := rfl
        _ = s.toList ++ printed ps := by rw [substitute_unmarked h.1, ih h.2]
    | literal v =>
      calc
        _ = v.text.toList ++ substitute (written ps) (literals ps) := rfl
        _ = v.text.toList ++ printed ps := by rw [ih h]

end Piece

/-! ## The text form -/

/-- A text form has what a walk meets: one placeholder for each literal, the placeholder of
a literal where it is met, and the same text once the literals are put in. -/
structure Predicate.Follows (p : Predicate) (walk : List Piece) : Prop where
  counted : (places placeholder p.format.toList).length = p.arguments.length
  complete : p.arguments = Piece.literals walk
  placed : ∀ before v after, walk = before ++ .literal v :: after →
    p.arguments[(Piece.literals before).length]? = some v ∧
      (places placeholder p.format.toList)[(Piece.literals before).length]? =
        some (Piece.written before).length
  printed : p.text.toList = Piece.printed walk

namespace Expr

/-- The text form of a tree over valid paths follows the walk over the tree, whatever its
literals are. -/
theorem compile_follows {e : Expr}
    (h : ∀ p ∈ e.paths, ∃ r : Reference, r.Proper ∧ r.path = p) :
    e.compile.Follows (e.walk false) := by
  have hvalid : ∀ p ∈ e.paths, p.Valid := by
    intro p hp
    obtain ⟨r, hr, rfl⟩ := h p hp
    exact hr.valid
  have hwalk := unmarked_walk false e hvalid
  have hformat : e.compile.format.toList = Piece.written (e.walk false) := by
    rw [compile, emit_eq]
    exact String.toList_ofList
  have harguments : e.compile.arguments = Piece.literals (e.walk false) := by
    rw [compile, emit_eq]
    rfl
  refine ⟨?_, harguments, fun before v after hsplit => ?_, ?_⟩
  · rw [hformat, harguments]
    exact Piece.length_places hwalk
  · rw [hformat, harguments, hsplit]
    rw [hsplit] at hwalk
    refine ⟨?_, Piece.places_written hwalk⟩
    rw [Piece.literals, Piece.literals, List.filterMap_append,
      List.getElem?_append_right (Nat.le_refl _), Nat.sub_self]
    rfl
  · calc
      e.compile.text.toList = substitute e.compile.format.toList e.compile.arguments :=
        String.toList_ofList
      _ = substitute (Piece.written (e.walk false)) (Piece.literals (e.walk false)) := by
        rw [hformat, harguments]
      _ = Piece.printed (e.walk false) := Piece.substitute_written hwalk

/-- Rows with a count, a label and marks. -/
def rows : Schema :=
  ⟨[⟨"Row", [⟨"count", .scalar .integer⟩, ⟨"label", .scalar .string⟩, ⟨"marks", .list .string⟩]⟩]⟩

/-- The label begins with the signs of a placeholder and a quote, and the count is in a range
or a mark shows such signs again. -/
def marked : Expr :=
  .logical .and
    [.text .beginsWith ⟨["label"]⟩ "%@\" (" true,
      .logical .or [.range ⟨["count"]⟩ ⟨.int32 6, .int32 18, false⟩,
        .membership ⟨["marks"]⟩ (.string ") || %@")]]

/-- Literals that look like parts of a predicate move nothing. -/
theorem marked_follows : (∀ p ∈ marked.paths, ∃ r : Reference, r.Proper ∧ r.path = p) ∧
    marked.compile.format =
      "label BEGINSWITH[c] %@ && ((count >= %@ && count < %@) || %@ IN marks)" ∧
    places placeholder marked.compile.format.toList = [20, 37, 51, 58] ∧
    marked.compile.text =
      "label BEGINSWITH[c] \"%@\\\" (\" && ((count >= 6 && count < 18) || \") || %@\" IN marks)" ∧
    marked.compile.Follows (marked.walk false) := by
  have hlabel : Reference.resolve rows "Row" ["label"] = .ok ⟨⟨["label"]⟩, .scalar .string⟩ := rfl
  have hcount : Reference.resolve rows "Row" ["count"] = .ok ⟨⟨["count"]⟩, .scalar .integer⟩ := rfl
  have hmarks : Reference.resolve rows "Row" ["marks"] = .ok ⟨⟨["marks"]⟩, .list .string⟩ := rfl
  have hproper : ∀ p ∈ marked.paths, ∃ r : Reference, r.Proper ∧ r.path = p := by
    intro p hp
    rcases List.mem_cons.mp hp with rfl | hp
    · exact ⟨_, .resolved rfl hlabel, rfl⟩
    rcases List.mem_cons.mp hp with rfl | hp
    · exact ⟨_, .resolved rfl hcount, rfl⟩
    · obtain rfl := List.mem_singleton.mp hp
      exact ⟨_, .resolved rfl hmarks, rfl⟩
  exact ⟨hproper, by decide, by decide, by decide, compile_follows hproper⟩

end Expr

end ObjectStore
