import ObjectStore.Proofs.Filter.Canonical
import ObjectStore.View.Results

/-
  The algebra of joining.

  A tree that is already joined by a word is continued, and this looks only one level deep.
  That is enough: by whatever steps trees are joined, no child of a node has the word of the
  node, so there is never more to continue. Hence parentheses do not matter, and to join a
  list at once is to join it one by one.

    1. `Expr.Composed` are the trees that are joined from conditions, and `Expr.Flat` is what
       they keep (`Composed.flat`).
    2. `Expr.join_join`: a joined tree among others stands for the trees it was joined from.
       From this come associativity and `Expr.joinAll_cons`.
    3. `Expr.holds_join`: what a joined tree says.
    4. `Recipe.narrowed_narrowed`: narrowing a view twice is narrowing it once.
-/

namespace ObjectStore

namespace Expr

/-- What the children of a tree are joined by; a condition has no children. -/
def connective? : Expr → Option Connective
  | .logical op _ => some op
  | _ => none

/-- In the whole tree, every node has two children or more, none with the word of the node. -/
inductive Flat : Expr → Prop
  | condition {e : Expr} (h : e.connective? = none) : Flat e
  | node (op : Connective) (children : List Expr) (hsize : 2 ≤ children.length)
    (hother : ∀ x ∈ children, x.connective? ≠ some op) (hflat : ∀ x ∈ children, Flat x) :
    Flat (.logical op children)

/-- The trees that are joined from conditions. -/
inductive Composed : Expr → Prop
  | condition {e : Expr} (h : e.connective? = none) : Composed e
  | and {a b : Expr} (ha : Composed a) (hb : Composed b) : Composed (a.and b)
  | or {a b : Expr} (ha : Composed a) (hb : Composed b) : Composed (a.or b)
  | all {es : List Expr} {e : Expr} (hes : ∀ x ∈ es, Composed x) (h : Expr.all es = some e) :
    Composed e
  | anyOf {es : List Expr} {e : Expr} (hes : ∀ x ∈ es, Composed x)
    (h : Expr.anyOf es = some e) : Composed e

theorem Built.composed {e : Expr} (h : e.Built) : e.Composed := by
  induction h with
  | compareWith hr h =>
    rw [Reference.compareWith_eq h]
    exact .condition rfl
  | containsRange hr h =>
    rw [Reference.containsRange_eq h]
    exact .condition rfl
  | matchText hr h =>
    rw [Reference.matchText_eq h]
    exact .condition rfl
  | containsElement hr h =>
    rw [Reference.containsElement_eq h]
    exact .condition rfl
  | containsAllWithin hr h =>
    rw [Reference.containsAllWithin_eq h]
    exact .condition rfl
  | and _ _ ha hb => exact .and ha hb
  | or _ _ ha hb => exact .or ha hb
  | all _ h ih => exact .all ih h
  | anyOf _ h ih => exact .anyOf ih h

variable {op : Connective} {e : Expr} {es : List Expr}

/-! ## The form of joined trees -/

theorem parts_of_ne (h : e.connective? ≠ some op) : parts op e = [e] := by
  cases e with
  | logical op' children => exact if_neg fun hop => h (congrArg some hop)
  | _ => rfl

theorem Flat.parts (op : Connective) (h : e.Flat) :
    Expr.parts op e ≠ [] ∧ ∀ x ∈ Expr.parts op e, x.connective? ≠ some op ∧ x.Flat := by
  by_cases hop : e.connective? = some op
  · cases h with
    | condition h =>
      rw [h] at hop
      cases hop
    | node op' children hsize hother hflat =>
      obtain rfl := Option.some.inj hop
      have hparts : Expr.parts op' (.logical op' children) = children := if_pos rfl
      rw [hparts]
      refine ⟨fun hnil => ?_, fun x hx => ⟨hother x hx, hflat x hx⟩⟩
      rw [hnil] at hsize
      cases hsize
  · rw [parts_of_ne hop]
    refine ⟨List.cons_ne_nil e [], fun x hx => ?_⟩
    obtain rfl := List.mem_singleton.mp hx
    exact ⟨hop, h⟩

theorem length_le_flatMap {f : Expr → List Expr} (h : ∀ e ∈ es, f e ≠ []) :
    es.length ≤ (es.flatMap f).length := by
  induction es with
  | nil => exact Nat.le_refl 0
  | cons e es ih =>
    have hfirst : 0 < (f e).length := List.length_pos_iff.mpr (h e List.mem_cons_self)
    have hrest := ih fun x hx => h x (List.mem_cons_of_mem e hx)
    rw [List.flatMap_cons, List.length_append, List.length_cons]
    omega

theorem Flat.join (hsize : 2 ≤ es.length) (hes : ∀ x ∈ es, x.Flat) : (Expr.join op es).Flat := by
  have hmem {x : Expr} (hx : x ∈ es.flatMap (Expr.parts op)) :
      x.connective? ≠ some op ∧ x.Flat := by
    obtain ⟨y, hy, hx⟩ := List.mem_flatMap.mp hx
    exact ((hes y hy).parts op).2 x hx
  refine .node op _ ?_ (fun x hx => (hmem hx).1) fun x hx => (hmem hx).2
  exact hsize.trans (length_le_flatMap fun y hy => ((hes y hy).parts op).1)

theorem Flat.pair {e' : Expr} (h : e.Flat) (h' : e'.Flat) : (Expr.join op [e, e']).Flat := by
  refine .join (Nat.le_refl 2) fun x hx => ?_
  rcases List.mem_pair.mp hx with rfl | rfl
  · exact h
  · exact h'

theorem Flat.joinAll (hes : ∀ x ∈ es, x.Flat) (h : Expr.joinAll op es = some e) : e.Flat := by
  match es with
  | [] => cases h
  | [x] =>
    rw [← Option.some.inj h]
    exact hes x List.mem_cons_self
  | x :: y :: es =>
    rw [← Option.some.inj h]
    exact .join (Nat.le_add_left 2 es.length) hes

/-- However conditions are joined, the tree is flat. -/
theorem Composed.flat (h : e.Composed) : e.Flat := by
  induction h with
  | condition h => exact .condition h
  | and _ _ ha hb => exact .pair ha hb
  | or _ _ ha hb => exact .pair ha hb
  | all _ h ih => exact .joinAll ih h
  | anyOf _ h ih => exact .joinAll ih h

/-! ## Joining what was joined -/

theorem parts_join (op : Connective) (es : List Expr) :
    parts op (join op es) = es.flatMap (parts op) :=
  if_pos rfl

/-- A joined tree among others stands for the trees it was joined from. -/
theorem join_join (op : Connective) (xs ys zs : List Expr) :
    join op (xs ++ join op ys :: zs) = join op (xs ++ ys ++ zs) := by
  rw [join, List.flatMap_append, List.flatMap_cons, parts_join, ← List.flatMap_append,
    ← List.flatMap_append, ← List.append_assoc]
  rfl

theorem join_assoc (op : Connective) (a b c : Expr) :
    join op [join op [a, b], c] = join op [a, join op [b, c]] :=
  calc
    join op [join op [a, b], c] = join op [a, b, c] := join_join op [] [a, b] [c]
    _ = join op [a, join op [b, c]] := (join_join op [a] [b, c] []).symm

theorem foldl_join (op : Connective) (xs ys : List Expr) :
    ys.foldl (fun a b => join op [a, b]) (join op xs) = join op (xs ++ ys) := by
  induction ys generalizing xs with
  | nil => rw [List.append_nil, List.foldl_nil]
  | cons y ys ih =>
    have hfirst : join op [join op xs, y] = join op (xs ++ [y]) := join_join op [] xs [y]
    rw [List.foldl_cons, hfirst, ih, List.append_assoc, List.singleton_append]

/-- A list is joined at once as it is one by one. -/
theorem joinAll_cons (op : Connective) (e : Expr) (es : List Expr) :
    joinAll op (e :: es) = some (es.foldl (fun a b => join op [a, b]) e) := by
  cases es with
  | nil => rfl
  | cons x es => exact congrArg some (foldl_join op [e, x] es).symm

/-! ## What a joined tree says -/

/-- What trees say together, joined by a word; `f` is what each of them says. -/
def together (f : Expr → Bool) : Connective → List Expr → Bool
  | .and, es => es.all f
  | .or, es => es.any f

variable {s : Snapshot} {candidate : Value}

theorem allHold_eq_all (s : Snapshot) (candidate : Value) (es : List Expr) :
    allHold s candidate es = es.all (holds s candidate) := by
  induction es with
  | nil => rfl
  | cons e es ih => rw [allHold, ih, List.all_cons]

theorem someHold_eq_any (s : Snapshot) (candidate : Value) (es : List Expr) :
    someHold s candidate es = es.any (holds s candidate) := by
  induction es with
  | nil => rfl
  | cons e es ih => rw [someHold, ih, List.any_cons]

theorem holds_logical (op : Connective) (es : List Expr) :
    (logical op es).holds s candidate = together (holds s candidate) op es := by
  cases op with
  | and => rw [holds, allHold_eq_all, together]
  | or => rw [holds, someHold_eq_any, together]

theorem together_singleton (f : Expr → Bool) (op : Connective) (e : Expr) :
    together f op [e] = f e := by
  cases op with
  | and => exact Bool.and_true (f e)
  | or => exact Bool.or_false (f e)

theorem together_parts (op : Connective) (e : Expr) :
    together (holds s candidate) op (parts op e) = e.holds s candidate := by
  by_cases hop : e.connective? = some op
  · cases e with
    | logical op' children =>
      obtain rfl := Option.some.inj hop
      have hparts : parts op' (logical op' children) = children := if_pos rfl
      rw [hparts, holds_logical]
    | _ => cases hop
  · rw [parts_of_ne hop, together_singleton]

/-- A joined tree says what the trees it was joined from say together. -/
theorem holds_join (op : Connective) (es : List Expr) :
    (join op es).holds s candidate = together (holds s candidate) op es := by
  rw [join, holds_logical]
  cases op with
  | and =>
    have hparts (e : Expr) : (parts .and e).all (holds s candidate) = e.holds s candidate :=
      together_parts .and e
    simp only [together, List.all_flatMap, hparts]
  | or =>
    have hparts (e : Expr) : (parts .or e).any (holds s candidate) = e.holds s candidate :=
      together_parts .or e
    simp only [together, List.any_flatMap, hparts]

/-- A list joined at once: the tree, its text form, and what it says. -/
theorem joinAll_laws (op : Connective) (e : Expr) (es : List Expr) :
    joinAll op (e :: es) = some (es.foldl (fun a b => join op [a, b]) e) ∧
    (joinAll op (e :: es)).map compile = some (es.foldl (fun a b => join op [a, b]) e).compile ∧
    ∀ (s : Snapshot) (candidate : Value),
      (joinAll op (e :: es)).map (holds s candidate) =
        some (together (holds s candidate) op (e :: es)) := by
  refine ⟨joinAll_cons op e es, ?_, fun s candidate => ?_⟩
  · rw [joinAll_cons, Option.map_some]
  · cases es with
    | nil => exact congrArg some (together_singleton _ op e).symm
    | cons x es => exact congrArg some (holds_join op (e :: x :: es))

end Expr

/-! ## Views -/

/-- To narrow by two conditions, one after the other, is to narrow by both. -/
theorem Recipe.narrowed_narrowed (r : Recipe) (a b : Expr) :
    (r.narrowed a).narrowed b = r.narrowed (a.and b) := by
  unfold narrowed
  cases r.predicate with
  | none => rfl
  | some p =>
    have hassoc : (p.expr.and a).and b = p.expr.and (a.and b) := Expr.join_assoc .and p.expr a b
    simp only [Expr.compile] at hassoc ⊢
    rw [hassoc]

namespace Expr

/-- The laws of joining: trees stay flat; parentheses do not matter; a list is joined at once as
it is one by one, with the same text form, and says what all or one of its members say; and
narrowing a view twice is narrowing it once. -/
theorem joining_laws :
    (∀ e : Expr, e.Composed → e.Flat) ∧
    (∀ a b c : Expr, (a.and b).and c = a.and (b.and c)) ∧
    (∀ a b c : Expr, (a.or b).or c = a.or (b.or c)) ∧
    (∀ (e : Expr) (es : List Expr),
      Expr.all (e :: es) = some (es.foldl Expr.and e) ∧
      (Expr.all (e :: es)).map Expr.compile = some (es.foldl Expr.and e).compile ∧
      ∀ (s : Snapshot) (candidate : Value),
        (Expr.all (e :: es)).map (holds s candidate) =
          some ((e :: es).all fun x => x.holds s candidate)) ∧
    (∀ (e : Expr) (es : List Expr),
      Expr.anyOf (e :: es) = some (es.foldl Expr.or e) ∧
      (Expr.anyOf (e :: es)).map Expr.compile = some (es.foldl Expr.or e).compile ∧
      ∀ (s : Snapshot) (candidate : Value),
        (Expr.anyOf (e :: es)).map (holds s candidate) =
          some ((e :: es).any fun x => x.holds s candidate)) ∧
    ∀ (v : Results) (a b : Expr),
      ((v.filter a).filter b).recipe.predicate = (v.filter (a.and b)).recipe.predicate ∧
      ∀ (w : World) (t : Thread),
        (((v.filter a).filter b).rows w t).1 = ((v.filter (a.and b)).rows w t).1 := by
  refine ⟨fun e he => he.flat, join_assoc .and, join_assoc .or, joinAll_laws .and,
    joinAll_laws .or, fun v a b => ?_⟩
  have hviews : (v.filter a).filter b = v.filter (a.and b) :=
    congrArg (Results.ofRecipe v.binding) (v.recipe.narrowed_narrowed a b)
  rw [hviews]
  exact ⟨rfl, fun w t => rfl⟩

def grownUp : Expr := .comparison .gte age.path (.int32 18)

/-- Conditions joined by both words, on several levels. -/
def entitled : Expr := ((grownUp.or onA).or grownUp).and (onA.and grownUp)

/-- Each word is written once, with all that it joins as children of one node. -/
theorem entitled_is_flat : entitled.Built ∧ entitled.Composed ∧ entitled.Flat ∧
    entitled = .logical .and [.logical .or [grownUp, onA, grownUp], onA, grownUp] := by
  have hage : age.compareWith .gte (.int32 18) = .ok grownUp := rfl
  have hgrownUp : grownUp.Built := .compareWith proper_age hage
  have hbuilt : entitled.Built :=
    .and (.or (.or hgrownUp built_onA) hgrownUp) (.and built_onA hgrownUp)
  exact ⟨hbuilt, hbuilt.composed, joining_laws.1 entitled hbuilt.composed, rfl⟩

end Expr

end ObjectStore
