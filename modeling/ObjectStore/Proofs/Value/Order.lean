import Mathlib.Algebra.Order.Ring.Int
import Mathlib.Data.Ordering.Basic
import Mathlib.Order.Compare
import Mathlib.Tactic.Ring
import ObjectStore.Proofs.Sorting
import ObjectStore.Value.Order

/-
  The canonical comparison is a total order.

  It is written family by family, and within a family by the width or the pattern of
  the values. All of this comes down to comparing six marks of a value one after the
  other (`Value.marks`): the rank of its family, one integer, which is enough for every
  family but three, and what these three have besides. A comparison mark by mark is
  transitive, whatever the marks are.

  This is so for well-formed values. Of values in two wrappers or more only some are told
  apart.

    1. `Value.canonicalCompare_eq`: the canonical comparison is the comparison of marks.
    2. `Value.canonicalCompare_swap`, `Value.canonicalCompare_lt_trans` and their kin: the
       laws of an order.
    3. `Value.preorders_canonicalCompare`: values can be sorted by it, in either direction.
-/

namespace ObjectStore

open Number
open Std (compare_self OrientedCmp TransCmp)

/-! ## Comparisons of numbers -/

theorem compare_of_strictMono {α β : Type} [LinearOrder α] [LinearOrder β] {f : α → β}
    (hf : StrictMono f) (x y : α) : compare (f x) (f y) = compare x y := by
  rw [← cmp_eq_compare, hf.cmp_map_eq, cmp_eq_compare]

/-- The coefficient of a decimal that is written with the largest number of places. -/
def Number.Decimal.scaled (d : Decimal) : Int := d.coefficient * 10 ^ (28 - d.scale)

theorem Number.Decimal.compare_eq (c d : Decimal) :
    c.compare d = Ord.compare c.scaled d.scaled := by
  have hmul {k : Int} (hk : 0 < k) (m n : Int) : Ord.compare (m * k) (n * k) = Ord.compare m n :=
    compare_of_strictMono (strictMono_mul_right_of_pos hk) m n
  have hpow (n : Nat) : (0 : Int) < 10 ^ n := pow_pos (by decide) n
  have hplaces (d : Decimal) : (10 : Int) ^ d.scale * 10 ^ (28 - d.scale) = 10 ^ 28 := by
    rw [← pow_add, Nat.add_sub_cancel' d.scale_le]
  -- both sides with all places of both
  have hc : c.coefficient * 10 ^ d.scale * 10 ^ (28 - d.scale) * 10 ^ (28 - c.scale) =
      c.scaled * 10 ^ 28 := by
    rw [← hplaces d, scaled]
    ring
  have hd : d.coefficient * 10 ^ c.scale * 10 ^ (28 - d.scale) * 10 ^ (28 - c.scale) =
      d.scaled * 10 ^ 28 := by
    rw [← hplaces c, scaled]
    ring
  calc c.compare d
      = Ord.compare (c.coefficient * 10 ^ d.scale) (d.coefficient * 10 ^ c.scale) := by
        simp only [compare, Nat.pow_eq, Nat.cast_pow, Nat.cast_ofNat]
    _ = Ord.compare (c.scaled * 10 ^ 28) (d.scaled * 10 ^ 28) := by
        rw [← hc, ← hd, hmul (hpow _), hmul (hpow _)]
    _ = Ord.compare c.scaled d.scaled := hmul (hpow 28) _ _

/-! ## The marks of a value -/

namespace Value

/-- The place of the family of a value; null comes first. -/
def rank (v : Value) : Nat := (v.family?.map Family.rank).getD 0

/-- The integer by which a value is compared with others of its family. Texts and bytes
have none. -/
def measure (v : Value) : Int :=
  match v.unwrap with
  | .bool b => b.toNat
  | .int8 n => n.toInt
  | .int16 n => n.toInt
  | .int32 n => n.toInt
  | .int64 n => n.toInt
  | .single x => x.widen.patternKey
  | .double x => x.patternKey
  | .timestamp t => t.seconds
  | .decimal d => d.scaled
  | .objectId i => i.bits.toNat
  | .uuid i => i.bits.toNat
  | .object k => k.val
  | _ => 0

def fraction (v : Value) : Nat :=
  match v.unwrap with
  | .timestamp t => t.nanos
  | _ => 0

def characters (v : Value) : String := v.asString.getD ""

def octets (v : Value) : List UInt8 :=
  match v.unwrap with
  | .bytes bs => bs
  | _ => []

/-- Two values compared mark by mark, the families apart. -/
def marksWithin : Value → Value → Ordering :=
  compareLex (compareOn measure) <| compareLex (compareOn fraction) <|
    compareLex (compareOn characters) (compareOn octets)

/-- Two values compared mark by mark. -/
def marks : Value → Value → Ordering := compareLex (compareOn rank) marksWithin

instance : TransCmp marksWithin :=
  inferInstanceAs <| TransCmp <| compareLex (compareOn measure) <|
    compareLex (compareOn fraction) <| compareLex (compareOn characters) (compareOn octets)

instance : TransCmp marks := inferInstanceAs <| TransCmp <| compareLex (compareOn rank) marksWithin

variable {u v w : Value}

/-! ## The canonical comparison by marks -/

theorem unwrap_of_ne (h : ∀ x, v ≠ .wrapped x) : v.unwrap = v := by
  cases v with
  | wrapped x => exact (h x rfl).elim
  | _ => rfl

theorem canonicalCompare_of_rank_ne (hv : ∀ x, v ≠ .wrapped x) (hw : ∀ x, w ≠ .wrapped x)
    (h : v.rank ≠ w.rank) : v.canonicalCompare w = compare v.rank w.rank := by
  have hpos (f : Family) : compare 0 f.rank = .lt ∧ compare f.rank 0 = .gt := by
    cases f <;> exact ⟨rfl, rfl⟩
  simp only [rank] at h ⊢
  simp only [canonicalCompare, unwrap_of_ne hv, unwrap_of_ne hw]
  cases hf : v.family? with
  | none =>
    cases hg : w.family? with
    | none => exact absurd (by rw [hf, hg]) h
    | some g => exact (hpos g).1.symm
  | some f =>
    cases hg : w.family? with
    | none => exact (hpos f).2.symm
    | some g =>
      have hne : f ≠ g := fun heq => h (by rw [hf, hg, heq])
      simp only [hne, ne_eq, not_false_eq_true, if_true, Option.map_some, Option.getD_some]

theorem family?_eq_of_rank_eq (h : v.rank = w.rank) : v.family? = w.family? := by
  have hinj (f g : Family) (hfg : f.rank = g.rank) : f = g := by
    cases f <;> cases g <;> first | rfl | cases hfg
  have hpos (f : Family) : f.rank ≠ 0 := by
    cases f <;> exact Nat.succ_ne_zero _
  simp only [rank] at h
  cases hf : v.family? with
  | none =>
    cases hg : w.family? with
    | none => rfl
    | some g =>
      rw [hf, hg] at h
      exact absurd h.symm (hpos g)
  | some f =>
    cases hg : w.family? with
    | none =>
      rw [hf, hg] at h
      exact absurd h (hpos f)
    | some g =>
      rw [hf, hg] at h
      rw [hinj f g h]

theorem eq_marksWithin (hm : v.canonicalCompare w = compare v.measure w.measure)
    (hf : v.fraction = w.fraction) (hc : v.characters = w.characters) (ho : v.octets = w.octets) :
    v.canonicalCompare w = marksWithin v w := by
  simp only [marksWithin, compareLex, compareOn, hm, hf, hc, ho, compare_self, Ordering.then_eq]

theorem canonicalCompare_of_family_eq (hv : ∀ x, v ≠ .wrapped x) (hw : ∀ x, w ≠ .wrapped x)
    (h : v.family? = w.family?) : v.canonicalCompare w = marksWithin v w := by
  have hcast (m n : Nat) : compare m n = compare (m : Int) (n : Int) :=
    (compare_of_strictMono Nat.strictMono_cast m n).symm
  -- values of different kinds are of one family only if they are integers or floats
  cases v <;> cases w <;> first | cases h | exact (hv _ rfl).elim | exact (hw _ rfl).elim
  case bool.bool p q => exact eq_marksWithin (by cases p <;> cases q <;> rfl) rfl rfl rfl
  case decimal.decimal c d => exact eq_marksWithin (c.compare_eq d) rfl rfl rfl
  case objectId.objectId i j => exact eq_marksWithin (hcast _ _) rfl rfl rfl
  case uuid.uuid i j => exact eq_marksWithin (hcast _ _) rfl rfl rfl
  case object.object k l => exact eq_marksWithin (hcast _ _) rfl rfl rfl
  case string.string s t =>
    simp only [marksWithin, compareLex, compareOn, measure, fraction, characters, octets, unwrap,
      asString, Option.getD_some, compare_self, Ordering.then_eq, Ordering.eq_then]
    rfl
  case bytes.bytes s t =>
    simp only [marksWithin, compareLex, compareOn, measure, fraction, characters, octets, unwrap,
      asString, Option.getD_none, compare_self, Ordering.eq_then]
    rfl
  case timestamp.timestamp s t =>
    simp only [marksWithin, compareLex, compareOn, measure, fraction, characters, octets, unwrap,
      asString, Option.getD_none, compare_self, Ordering.then_eq]
    rfl
  -- what remains is null, the integers and the floats
  all_goals exact eq_marksWithin rfl rfl rfl rfl

theorem WellFormed.unwrap_ne (h : v.WellFormed) (x : Value) : v.unwrap ≠ .wrapped x := by
  cases v with
  | wrapped y =>
    cases y with
    | wrapped z => exact h.elim
    | _ => exact Value.noConfusion
  | _ => exact Value.noConfusion

theorem WellFormed.unwrap_unwrap (h : v.WellFormed) : v.unwrap.unwrap = v.unwrap :=
  unwrap_of_ne h.unwrap_ne

theorem wellFormed_of_bare (h : ∀ x, v ≠ .wrapped x) : v.WellFormed := by
  cases v with
  | wrapped x => exact absurd rfl (h x)
  | _ => trivial

theorem WellFormed.unwrap (h : v.WellFormed) : v.unwrap.WellFormed := wellFormed_of_bare h.unwrap_ne

theorem canonicalCompare_unwrap (hv : v.WellFormed) (hw : w.WellFormed) :
    v.unwrap.canonicalCompare w.unwrap = v.canonicalCompare w := by
  simp only [canonicalCompare, hv.unwrap_unwrap, hw.unwrap_unwrap]

/-- The canonical comparison of well-formed values is the comparison of marks. -/
theorem canonicalCompare_eq (hv : v.WellFormed) (hw : w.WellFormed) :
    v.canonicalCompare w = marks v w := by
  have hmarks : marks v w = marks v.unwrap w.unwrap := by
    simp only [marks, marksWithin, compareLex, compareOn, rank, family?, measure, fraction,
      characters, asString, octets, hv.unwrap_unwrap, hw.unwrap_unwrap]
  rw [← canonicalCompare_unwrap hv hw, hmarks]
  by_cases h : v.unwrap.rank = w.unwrap.rank
  · rw [canonicalCompare_of_family_eq hv.unwrap_ne hw.unwrap_ne (family?_eq_of_rank_eq h)]
    simp only [marks, compareLex, compareOn, h, compare_self, Ordering.eq_then]
  · rw [canonicalCompare_of_rank_ne hv.unwrap_ne hw.unwrap_ne h, marks, compareLex, compareOn]
    cases hc : compare v.unwrap.rank w.unwrap.rank with
    | eq => exact absurd (compare_eq_iff_eq.mp hc) h
    | lt => rfl
    | gt => rfl

/-! ## The laws of an order -/

theorem canonicalCompare_swap (hv : v.WellFormed) (hw : w.WellFormed) :
    w.canonicalCompare v = (v.canonicalCompare w).swap := by
  rw [canonicalCompare_eq hv hw, canonicalCompare_eq hw hv]
  exact OrientedCmp.eq_swap

theorem canonicalCompare_gt_iff (hv : v.WellFormed) (hw : w.WellFormed) :
    v.canonicalCompare w = .gt ↔ w.canonicalCompare v = .lt := by
  rw [canonicalCompare_eq hv hw, canonicalCompare_eq hw hv]
  exact OrientedCmp.gt_iff_lt

theorem canonicalCompare_lt_of_lt_of_le (hu : u.WellFormed) (hv : v.WellFormed) (hw : w.WellFormed)
    (huv : u.canonicalCompare v = .lt) (hvw : v.canonicalCompare w ≠ .gt) :
    u.canonicalCompare w = .lt := by
  rw [canonicalCompare_eq hu hv] at huv
  rw [canonicalCompare_eq hv hw] at hvw
  rw [canonicalCompare_eq hu hw]
  exact TransCmp.lt_of_lt_of_isLE huv (Ordering.isLE_iff_ne_gt.mpr hvw)

theorem canonicalCompare_lt_of_le_of_lt (hu : u.WellFormed) (hv : v.WellFormed) (hw : w.WellFormed)
    (huv : u.canonicalCompare v ≠ .gt) (hvw : v.canonicalCompare w = .lt) :
    u.canonicalCompare w = .lt := by
  rw [canonicalCompare_eq hu hv] at huv
  rw [canonicalCompare_eq hv hw] at hvw
  rw [canonicalCompare_eq hu hw]
  exact TransCmp.lt_of_isLE_of_lt (Ordering.isLE_iff_ne_gt.mpr huv) hvw

theorem canonicalCompare_le_trans (hu : u.WellFormed) (hv : v.WellFormed) (hw : w.WellFormed)
    (huv : u.canonicalCompare v ≠ .gt) (hvw : v.canonicalCompare w ≠ .gt) :
    u.canonicalCompare w ≠ .gt := by
  rw [canonicalCompare_eq hu hv] at huv
  rw [canonicalCompare_eq hv hw] at hvw
  rw [canonicalCompare_eq hu hw]
  exact Ordering.isLE_iff_ne_gt.mp
    (TransCmp.isLE_trans (Ordering.isLE_iff_ne_gt.mpr huv) (Ordering.isLE_iff_ne_gt.mpr hvw))

theorem canonicalCompare_lt_trans (hu : u.WellFormed) (hv : v.WellFormed) (hw : w.WellFormed)
    (huv : u.canonicalCompare v = .lt) (hvw : v.canonicalCompare w = .lt) :
    u.canonicalCompare w = .lt :=
  canonicalCompare_lt_of_lt_of_le hu hv hw huv (by rw [hvw]; exact nofun)

theorem canonicalCompare_self (hv : v.WellFormed) : v.canonicalCompare v = .eq := by
  rw [canonicalCompare_eq hv hv]
  exact Std.ReflCmp.compare_self

theorem canonicalCompare_trans (hu : u.WellFormed) (hv : v.WellFormed) (hw : w.WellFormed)
    {o : Ordering} (huv : u.canonicalCompare v = o) (hvw : v.canonicalCompare w = o) :
    u.canonicalCompare w = o := by
  cases o with
  | lt => exact canonicalCompare_lt_trans hu hv hw huv hvw
  | eq =>
    rw [canonicalCompare_eq hu hv] at huv
    rw [canonicalCompare_eq hv hw] at hvw
    rw [canonicalCompare_eq hu hw]
    exact TransCmp.eq_trans huv hvw
  | gt =>
    rw [canonicalCompare_gt_iff hu hv] at huv
    rw [canonicalCompare_gt_iff hv hw] at hvw
    rw [canonicalCompare_gt_iff hu hw]
    exact canonicalCompare_lt_trans hw hv hu hvw huv

theorem canonicalCompare_ne_trans {o : Ordering} (ho : o ≠ .eq) (hu : u.WellFormed)
    (hv : v.WellFormed) (hw : w.WellFormed) (huv : u.canonicalCompare v ≠ o)
    (hvw : v.canonicalCompare w ≠ o) : u.canonicalCompare w ≠ o := by
  cases o with
  | lt =>
    rw [ne_eq, ← canonicalCompare_gt_iff hv hu] at huv
    rw [ne_eq, ← canonicalCompare_gt_iff hw hv] at hvw
    rw [ne_eq, ← canonicalCompare_gt_iff hw hu]
    exact canonicalCompare_le_trans hw hv hu hvw huv
  | eq => exact absurd rfl ho
  | gt => exact canonicalCompare_le_trans hu hv hw huv hvw

/-- To be less, and to be greater, is to come before in an order by which values are sorted. -/
theorem preorders_canonicalCompare {o : Ordering} (ho : o ≠ .eq) :
    Preorders (fun v w : Value => v.canonicalCompare w == o) WellFormed where
  asymm hv hw h := by
    rw [beq_iff_eq] at h
    rw [beq_eq_false_iff_ne, canonicalCompare_swap hv hw, h]
    cases o with
    | lt => exact nofun
    | eq => exact absurd rfl ho
    | gt => exact nofun
  trans hu hv hw huv hvw := by
    rw [beq_eq_false_iff_ne] at huv hvw ⊢
    exact canonicalCompare_ne_trans ho hu hv hw huv hvw

theorem rank_le_of_canonicalCompare (hv : v.WellFormed) (hw : w.WellFormed)
    (h : v.canonicalCompare w ≠ .gt) : v.rank ≤ w.rank := by
  rw [canonicalCompare_eq hv hw, marks, compareLex, compareOn] at h
  by_contra hlt
  have hgt : compare v.rank w.rank = .gt := Nat.compare_eq_gt.mpr (by omega)
  exact h (by rw [hgt]; rfl)

end Value

end ObjectStore
