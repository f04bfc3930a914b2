import ObjectStore.Filter.Meaning
import ObjectStore.Proofs.Filter.Writing
import ObjectStore.Proofs.Schema.Accepted

/-
  The text form of an expression tells what it means.

  Two predicates are compared by text and literals alone, and their trees are not looked at.
  That is enough: trees that were built by the checked functions have one text form only if
  they are the same tree, but for a range without its upper end, which is written as the two
  comparisons that it stands for.

    1. `Expr.emit_spread`: ranges written as two comparisons change no writing.
    2. `Reference.Proper` are the references that can be had, and their paths are valid.
    3. `Expr.Built` are the trees that can be built. Spread out, they are legible
       (`Built.legible`): joining never leaves a connective with less than two children.
    4. `Expr.compile_tells` is the result.
-/

namespace ObjectStore

/-! ## Writing of spread trees -/

namespace Expr

mutual

/-- A range without its upper end is written as its two comparisons are. -/
theorem emit_spread (nested : Bool) : (e : Expr) → e.spread.emit nested = e.emit nested
  | .range p b => by
    cases hb : b.inclusive with
    | true => simp only [spread, hb, if_true]
    | false =>
      simp only [spread, hb, Bool.false_eq_true, if_false, emit, emitChildren, emitLeaf, if_true,
        isCompound, Bool.not_false, Bool.and_true, Bool.and_false, Emission.parenthesized,
        Connective.symbol, Comparison.symbol, Emission.append_assoc, Emission.nothing_append,
        Emission.append_nothing, toString, Emission.plain_append]
      rfl
  | .logical op es => by
    rw [spread, emit, emit, emitChildren_spreadAll]
  | .comparison op p v => rfl
  | .text op p part ignoreCase => rfl
  | .membership p v => rfl
  | .allWithin p b => rfl

theorem emitChildren_spreadAll (op : Connective) (first : Bool) : (es : List Expr) →
    emitChildren op first (spreadAll es) = emitChildren op first es
  | [] => rfl
  | e :: es => by
    rw [spreadAll, emitChildren, emitChildren, emit_spread, emitChildren_spreadAll]

end

end Expr

/-! ## References -/

namespace Reference

theorem named_of_follow {schema : Schema} (hs : schema.validate = .ok ()) {className : String}
    {optional : Bool} {segments : List String} {k : PropertyKind}
    (h : follow schema className optional segments = .ok k) :
    ∀ name ∈ segments, isIdentifier name = true ∧ name ≠ "self" := by
  induction segments generalizing className optional with
  | nil => cases h
  | cons name rest ih =>
    cases rest with
    | nil =>
      rw [follow] at h
      split at h
      · cases h
      · rename_i p hp
        intro w hw
        obtain rfl := List.mem_singleton.mp hw
        exact Schema.named_of_property hs hp
    | cons next rest =>
      rw [follow] at h
      · split at h
        · cases h
        · rename_i p hp
          split at h
          · cases h
          · intro w hw
            rcases List.mem_cons.mp hw with rfl | hw
            · exact Schema.named_of_property hs hp
            · exact ih h w hw
      · intro hnil
        cases hnil

/-- The references that can be had: paths through the classes of a valid schema, and the
elements of a container. -/
inductive Proper : Reference → Prop
  | resolved {schema : Schema} {className : String} {segments : List String} {r : Reference}
    (hs : schema.validate = .ok ()) (h : resolve schema className segments = .ok r) : Proper r
  | element (k : PropertyKind) : Proper (element k)

theorem Proper.valid {r : Reference} (hr : r.Proper) : r.path.Valid := by
  cases hr with
  | resolved hs h =>
    unfold resolve at h
    split at h
    · rename_i hfollow
      cases h
      exact named_of_follow hs hfollow
    · cases h
  | element k =>
    intro name hname
    cases hname

variable {r : Reference} {e : Expr}

theorem compareWith_eq {op : Comparison} {v : Value} (h : r.compareWith op v = .ok e) :
    e = .comparison op r.path v := by
  obtain ⟨-, -, h⟩ := ok_of_bind h
  cases op with
  | eq | neq =>
    dsimp only at h
    obtain ⟨-, -, h⟩ := ok_of_bind h
    cases h
    rfl
  | lt | lte | gt | gte =>
    dsimp only at h
    obtain ⟨-, -, h⟩ := ok_of_bind h
    obtain ⟨-, -, h⟩ := ok_of_bind h
    cases h
    rfl

theorem containsRange_eq {b : Bounds} (h : r.containsRange b = .ok e) : e = .range r.path b := by
  obtain ⟨-, -, h⟩ := ok_of_bind h
  obtain ⟨-, -, h⟩ := ok_of_bind h
  obtain ⟨-, -, h⟩ := ok_of_bind h
  cases h
  rfl

theorem matchText_eq {op : TextMatch} {part : String} {ignoreCase : Bool}
    (h : r.matchText op part ignoreCase = .ok e) : e = .text op r.path part ignoreCase := by
  obtain ⟨-, -, h⟩ := ok_of_bind h
  split at h
  · cases h
  · cases h
    rfl

theorem containsElement_eq {v : Value} (h : r.containsElement v = .ok e) :
    e = .membership r.path v := by
  obtain ⟨-, -, h⟩ := ok_of_bind h
  split at h
  · dsimp only at h
    obtain ⟨-, -, h⟩ := ok_of_bind h
    cases h
    rfl
  · cases h
    rfl

theorem containsAllWithin_eq {b : Bounds} (h : r.containsAllWithin b = .ok e) :
    e = .allWithin r.path b := by
  obtain ⟨-, -, h⟩ := ok_of_bind h
  split at h
  · cases h
  · obtain ⟨-, -, h⟩ := ok_of_bind h
    cases h
    rfl

end Reference

/-! ## Built trees -/

namespace Expr

/-- The trees that can be built: conditions by the checked functions of references, and trees
joined from them. -/
inductive Built : Expr → Prop
  | compareWith {r : Reference} {op : Comparison} {v : Value} {e : Expr} (hr : r.Proper)
    (h : r.compareWith op v = .ok e) : Built e
  | containsRange {r : Reference} {b : Bounds} {e : Expr} (hr : r.Proper)
    (h : r.containsRange b = .ok e) : Built e
  | matchText {r : Reference} {op : TextMatch} {part : String} {ignoreCase : Bool} {e : Expr}
    (hr : r.Proper) (h : r.matchText op part ignoreCase = .ok e) : Built e
  | containsElement {r : Reference} {v : Value} {e : Expr} (hr : r.Proper)
    (h : r.containsElement v = .ok e) : Built e
  | containsAllWithin {r : Reference} {b : Bounds} {e : Expr} (hr : r.Proper)
    (h : r.containsAllWithin b = .ok e) : Built e
  | and {e e' : Expr} (he : Built e) (he' : Built e') : Built (e.and e')
  | or {e e' : Expr} (he : Built e) (he' : Built e') : Built (e.or e')
  | all {es : List Expr} {e : Expr} (hes : ∀ x ∈ es, Built x) (h : Expr.all es = some e) : Built e
  | anyOf {es : List Expr} {e : Expr} (hes : ∀ x ∈ es, Built x) (h : Expr.anyOf es = some e) :
    Built e

variable {op : Connective} {e : Expr}

theorem Legible.parts (op : Connective) (h : e.spread.Legible) :
    parts op e ≠ [] ∧ ∀ x ∈ parts op e, x.spread.Legible := by
  have hself : [e] ≠ [] ∧ ∀ x ∈ [e], x.spread.Legible :=
    ⟨List.cons_ne_nil e [], fun x hx => by rwa [List.mem_singleton.mp hx]⟩
  cases e with
  | logical op' es =>
    rw [Expr.parts]
    split
    · rw [spread, spreadAll_eq_map] at h
      cases es with
      | nil =>
        cases h with
        | led h hp => cases h
      | cons x xs =>
        refine ⟨List.cons_ne_nil x xs, fun y hy => ?_⟩
        rw [List.map_cons] at h
        cases h with
        | led h hp => cases h
        | logical op x xs hes hne => exact hes y.spread (List.mem_map_of_mem hy)
    · exact hself
  | _ => exact hself

theorem Legible.join {es : List Expr} {x y : Expr} (hes : ∀ z ∈ x :: y :: es, z.spread.Legible) :
    (Expr.join op (x :: y :: es)).spread.Legible := by
  obtain ⟨hx, -⟩ := (hes x List.mem_cons_self).parts op
  obtain ⟨hy, -⟩ := (hes y (List.mem_cons_of_mem x List.mem_cons_self)).parts op
  obtain ⟨u, us, hu⟩ := List.exists_cons_of_ne_nil hx
  have hchildren : (x :: y :: es).flatMap (Expr.parts op) =
      u :: (us ++ (Expr.parts op y ++ es.flatMap (Expr.parts op))) := by
    rw [List.flatMap_cons, List.flatMap_cons, hu, List.cons_append]
  rw [Expr.join, spread, spreadAll_eq_map, hchildren, List.map_cons]
  refine .logical op u.spread _ ?_ ?_
  · rw [← List.map_cons, ← hchildren]
    intro w hw
    obtain ⟨v, hv, rfl⟩ := List.mem_map.mp hw
    obtain ⟨z, hz, hv⟩ := List.mem_flatMap.mp hv
    exact ((hes z hz).parts op).2 v hv
  · intro hnil
    rw [List.map_eq_nil_iff, List.append_eq_nil_iff, List.append_eq_nil_iff] at hnil
    exact hy hnil.2.1

theorem Legible.pair {e' : Expr} (h : e.spread.Legible) (h' : e'.spread.Legible) :
    (Expr.join op [e, e']).spread.Legible := by
  refine .join fun x hx => ?_
  rcases List.mem_pair.mp hx with rfl | rfl
  · exact h
  · exact h'

theorem Legible.joinAll {es : List Expr} (hes : ∀ x ∈ es, x.spread.Legible)
    (h : Expr.joinAll op es = some e) : e.spread.Legible := by
  cases es with
  | nil => cases h
  | cons x es =>
    cases es with
    | nil =>
      rw [← Option.some.inj h]
      exact hes x List.mem_cons_self
    | cons y es =>
      rw [← Option.some.inj h]
      exact .join hes

/-- A tree that was built is legible once it is spread. -/
theorem Built.legible (h : e.Built) : e.spread.Legible := by
  induction h with
  | compareWith hr h =>
    rw [Reference.compareWith_eq h]
    exact .led (.comparison _ _ _) hr.valid
  | @containsRange r b e hr h =>
    rw [Reference.containsRange_eq h, spread]
    split
    · rename_i hb
      exact .led (.range r.path b hb) hr.valid
    · refine .logical .and _ _ (fun x hx => ?_) (List.cons_ne_nil _ _)
      rcases List.mem_cons.mp hx with rfl | hx
      · exact .led (.comparison _ _ _) hr.valid
      · rw [List.mem_singleton.mp hx]
        exact .led (.comparison _ _ _) hr.valid
  | matchText hr h =>
    rw [Reference.matchText_eq h]
    exact .led (.text _ _ _ _) hr.valid
  | containsElement hr h =>
    rw [Reference.containsElement_eq h]
    exact .membership _ _ hr.valid
  | containsAllWithin hr h =>
    rw [Reference.containsAllWithin_eq h]
    exact .allWithin _ _ hr.valid
  | and _ _ ha hb => exact .pair ha hb
  | or _ _ ha hb => exact .pair ha hb
  | all hes h ih => exact .joinAll ih h
  | anyOf hes h ih => exact .joinAll ih h

/-! ## The text form -/

theorem agrees_of_same {a b : Expr} (h : a.compile.same b.compile = true) :
    (a.emit false).Agrees (b.emit false) := by
  rw [Predicate.same, Bool.and_eq_true, beq_iff_eq] at h
  exact ⟨String.ofList_inj.mp h.1, h.2⟩

/-- Built trees with one text form are the same tree, ranges without their upper end being
read as two comparisons, and they have the same meaning. -/
theorem compile_tells {a b : Expr} (ha : a.Built) (hb : b.Built)
    (h : a.compile.same b.compile = true) :
    a.spread.same b.spread = true ∧
      ∀ (s : Snapshot) (candidate : Value), a.holds s candidate = b.holds s candidate := by
  have hagrees : (a.spread.emit false).Agrees (b.spread.emit false) := by
    rw [emit_spread, emit_spread]
    exact agrees_of_same h
  have hsame := same_of_agrees ha.legible hb.legible hagrees
  refine ⟨hsame, fun s candidate => ?_⟩
  calc
    a.holds s candidate = a.spread.holds s candidate := (holds_spread s candidate a).symm
    _ = b.spread.holds s candidate := holds_congr s candidate _ _ hsame
    _ = b.holds s candidate := holds_spread s candidate b

def persons : Schema :=
  ⟨[⟨"Person", [⟨"age", .scalar .integer⟩, ⟨"name", .scalar .string⟩]⟩]⟩

def age : Reference := ⟨⟨["age"]⟩, .scalar .integer⟩

theorem proper_age : age.Proper := by
  have hresolve : Reference.resolve persons "Person" ["age"] = .ok age := rfl
  exact .resolved rfl hresolve

def onA : Expr := .text .beginsWith ⟨["name"]⟩ "A" false

theorem built_onA : onA.Built := by
  have hresolve : Reference.resolve persons "Person" ["name"] = .ok ⟨⟨["name"]⟩, .scalar .string⟩ :=
    rfl
  exact .matchText (.resolved rfl hresolve) rfl

def pupilsOrOnA : Expr := (Expr.range age.path ⟨.int32 6, .int32 18, false⟩).or onA

def comparedOrOnA : Expr :=
  ((Expr.comparison .gte age.path (.int32 6)).and (.comparison .lt age.path (.int32 18))).or onA

/-- A range in a disjunction is told as the conjunction that it stands for. -/
theorem pupils_are_told : pupilsOrOnA.Built ∧ comparedOrOnA.Built ∧
    pupilsOrOnA.compile.same comparedOrOnA.compile = true ∧
    pupilsOrOnA.spread.same comparedOrOnA.spread = true ∧
    ∀ (s : Snapshot) (candidate : Value),
      pupilsOrOnA.holds s candidate = comparedOrOnA.holds s candidate := by
  have hrange : age.containsRange ⟨.int32 6, .int32 18, false⟩ = .ok (.range age.path _) := rfl
  have hlower : age.compareWith .gte (.int32 6) = .ok (.comparison .gte age.path (.int32 6)) := rfl
  have hupper : age.compareWith .lt (.int32 18) = .ok (.comparison .lt age.path (.int32 18)) := rfl
  have hpupils : pupilsOrOnA.Built := .or (.containsRange proper_age hrange) built_onA
  have hcompared : comparedOrOnA.Built :=
    .or (.and (.compareWith proper_age hlower) (.compareWith proper_age hupper)) built_onA
  have hsame : pupilsOrOnA.compile.same comparedOrOnA.compile = true := by decide
  exact ⟨hpupils, hcompared, hsame, compile_tells hpupils hcompared hsame⟩

end Expr

end ObjectStore
