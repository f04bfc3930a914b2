import Mathlib.Algebra.BigOperators.Group.List.Basic
import Mathlib.Algebra.Ring.Int.Defs
import ObjectStore.Aggregate

/-
  Sums of integers, in any order.

  A sum is taken in the order given, and every running total has to fit 64 bits. So an exact sum
  is never wrong, but whether there is one is not a question of the total alone: a total that
  fits may be reached past one that does not. Some order avoids this, as each element fits: take
  a negative one whenever the running total is not negative, and else another one
  (`exists_steady`). Every order does just if the elements that are not negative have a sum that
  fits, and the negative ones too, for these two are the running totals that are farthest off
  (`sum_between`).

    1. `addIntegers_of_steady` and `addIntegers_of_not_steady`: what a running sum comes to.
    2. `exists_steady` and `forall_steady_iff`: in some order, and in every order.
    3. `sumOf_sum`: what the sum of values comes to by their integers alone.
    4. `exists_sum` and `sum_perm_iff`: the sums of values in other orders. `sums` puts all of
       this together.
-/

namespace ObjectStore

variable {base i j : Int} {is js front : List Int} {vs ws : List Value}

/-! ## Running totals -/

theorem fitsInt64_iff :
    fitsInt64 i = true ↔ -9223372036854775808 ≤ i ∧ i < 9223372036854775808 := by
  simp [fitsInt64]

theorem fitsInt64_add (hi : fitsInt64 i = true) (hj : fitsInt64 j = true)
    (h : 0 ≤ i ∧ j < 0 ∨ i < 0 ∧ 0 ≤ j) : fitsInt64 (i + j) = true := by
  rw [fitsInt64_iff] at *
  omega

/-- All running totals fit, the one at the start and the one in the end among them. -/
def Steady (base : Int) (is : List Int) : Prop :=
  ∀ front, front <+: is → fitsInt64 (base + front.sum) = true

theorem Steady.start (h : Steady base is) : fitsInt64 base = true := by
  have hnil := h [] List.nil_prefix
  rwa [List.sum_nil, Int.add_zero] at hnil

theorem steady_cons :
    Steady base (i :: is) ↔ fitsInt64 base = true ∧ Steady (base + i) is := by
  refine ⟨fun h => ⟨h.start, fun front hfront => ?_⟩, fun h front hfront => ?_⟩
  · have hmore := h (i :: front) (List.cons_prefix_cons.mpr ⟨rfl, hfront⟩)
    rwa [List.sum_cons, ← Int.add_assoc] at hmore
  · rcases List.prefix_cons_iff.mp hfront with rfl | ⟨rest, rfl, hrest⟩
    · rw [List.sum_nil, Int.add_zero]
      exact h.1
    · rw [List.sum_cons, ← Int.add_assoc]
      exact h.2 rest hrest

theorem addIntegers_of_steady (h : Steady base is) :
    addIntegers base is = .ok (base + is.sum) := by
  induction is generalizing base with
  | nil => rw [addIntegers, List.sum_nil, Int.add_zero]
  | cons i is ih =>
    have hrest := (steady_cons.mp h).2
    rw [addIntegers, if_pos hrest.start, ih hrest, List.sum_cons, Int.add_assoc]

theorem addIntegers_of_not_steady (hbase : fitsInt64 base = true) (h : ¬Steady base is) :
    addIntegers base is = .error (.executionError .integerSum) := by
  induction is generalizing base with
  | nil =>
    refine absurd (fun front hfront => ?_) h
    rwa [List.prefix_nil.mp hfront, List.sum_nil, Int.add_zero]
  | cons i is ih =>
    rw [addIntegers]
    split
    · rename_i hnext
      exact ih hnext fun hrest => h (steady_cons.mpr ⟨hbase, hrest⟩)
    · rfl

/-! ## In some order and in every order -/

/-- The sum of the integers that are not negative. -/
def gains (is : List Int) : Int := (is.filter fun i => 0 ≤ i).sum

def losses (is : List Int) : Int := (is.filter fun i => !decide (0 ≤ i)).sum

theorem gains_add_losses (is : List Int) : gains is + losses is = is.sum := by
  rw [gains, losses, ← List.sum_append]
  exact (List.filter_append_perm _ is).sum_eq

/-- The running totals lie between these two. -/
theorem sum_between (h : front.Sublist is) : losses is ≤ front.sum ∧ front.sum ≤ gains is := by
  simp only [gains, losses]
  induction h with
  | slnil => exact ⟨Int.le_refl 0, Int.le_refl 0⟩
  | cons i _ ih =>
    by_cases hi : 0 ≤ i <;> simp [hi] <;> omega
  | cons_cons i _ ih =>
    by_cases hi : 0 ≤ i <;> simp [hi] <;> omega

theorem steady_of_parts (hlosses : fitsInt64 (base + losses is) = true)
    (hgains : fitsInt64 (base + gains is) = true) : Steady base is := by
  intro front hfront
  have hbetween := sum_between hfront.sublist
  rw [fitsInt64_iff] at *
  omega

theorem steady_of_one_sign (hbase : fitsInt64 base = true)
    (htotal : fitsInt64 (base + is.sum) = true)
    (h : (∀ i ∈ is, 0 ≤ i) ∨ ∀ i ∈ is, i < 0) : Steady base is := by
  have hsum := gains_add_losses is
  have hnone : losses is = 0 ∨ gains is = 0 := by
    refine h.imp (fun h => ?_) fun h => ?_
    · rw [losses, List.filter_eq_nil_iff.mpr (by simpa using h), List.sum_nil]
    · rw [gains, List.filter_eq_nil_iff.mpr (by simpa using h), List.sum_nil]
  rcases hnone with hnone | hnone
  · exact steady_of_parts (by rwa [hnone, Int.add_zero]) (by
      rwa [show gains is = is.sum by omega])
  · exact steady_of_parts (by rwa [show losses is = is.sum by omega]) (by
      rwa [hnone, Int.add_zero])

/-- If the total fits, it is reached in some order: an integer of the other sign comes next, as
long as there is one. -/
theorem exists_steady (hbase : fitsInt64 base = true) (his : ∀ i ∈ is, fitsInt64 i = true)
    (htotal : fitsInt64 (base + is.sum) = true) : ∃ js, js.Perm is ∧ Steady base js := by
  induction hn : is.length generalizing base is with
  | zero =>
    obtain rfl := List.length_eq_zero_iff.mp hn
    exact ⟨[], .refl _, steady_of_one_sign hbase htotal (.inl nofun)⟩
  | succ n ih =>
    by_cases hother : ∃ i ∈ is, 0 ≤ base ∧ i < 0 ∨ base < 0 ∧ 0 ≤ i
    · obtain ⟨i, hi, hsigns⟩ := hother
      have hperm : is.Perm (i :: is.erase i) := List.perm_cons_erase hi
      have hsum : base + i + (is.erase i).sum = base + is.sum := by
        rw [hperm.sum_eq, List.sum_cons, Int.add_assoc]
      have hlength : (is.erase i).length = n := by
        rw [List.length_erase_of_mem hi, hn, Nat.add_sub_cancel]
      obtain ⟨js, hjs, hsteady⟩ := ih (fitsInt64_add hbase (his i hi) hsigns)
        (fun j hj => his j (List.mem_of_mem_erase hj)) (by rwa [hsum]) hlength
      exact ⟨i :: js, (hjs.cons i).trans hperm.symm, steady_cons.mpr ⟨hbase, hsteady⟩⟩
    · have hsame (i : Int) (hi : i ∈ is) : ¬(0 ≤ base ∧ i < 0 ∨ base < 0 ∧ 0 ≤ i) :=
        fun hsigns => hother ⟨i, hi, hsigns⟩
      refine ⟨is, .refl _, steady_of_one_sign hbase htotal ?_⟩
      rcases Int.lt_or_le base 0 with hneg | hpos
      · exact .inr fun i hi => by have := hsame i hi; omega
      · exact .inl fun i hi => by have := hsame i hi; omega

theorem forall_steady_iff :
    (∀ js : List Int, js.Perm is → Steady 0 js) ↔
      fitsInt64 (gains is) = true ∧ fitsInt64 (losses is) = true := by
  let pos (i : Int) : Bool := decide (0 ≤ i)
  constructor
  · intro h
    have hsorted : (is.filter pos ++ is.filter fun i => !pos i).Perm is :=
      List.filter_append_perm pos is
    have hgains := h _ hsorted _ (List.prefix_append _ _)
    have hlosses := h _ (List.perm_append_comm.trans hsorted) _ (List.prefix_append _ _)
    rw [Int.zero_add] at hgains hlosses
    exact ⟨hgains, hlosses⟩
  · rintro ⟨hgains, hlosses⟩ js hjs
    have hsame : gains js = gains is ∧ losses js = losses is :=
      ⟨(hjs.filter _).sum_eq, (hjs.filter _).sum_eq⟩
    exact steady_of_parts (by rwa [Int.zero_add, hsame.2]) (by rwa [Int.zero_add, hsame.1])

/-! ## Sums of values -/

theorem exists_perm_filterMap {α β : Type} {f : α → Option β} {xs : List α} {ys : List β}
    (h : ys.Perm (xs.filterMap f)) : ∃ zs : List α, zs.Perm xs ∧ zs.filterMap f = ys := by
  induction xs generalizing ys with
  | nil => exact ⟨[], .refl _, (List.perm_nil.mp h).symm⟩
  | cons x xs ih =>
    cases hx : f x with
    | none =>
      rw [List.filterMap_cons_none hx] at h
      obtain ⟨zs, hzs, rfl⟩ := ih h
      exact ⟨x :: zs, hzs.cons x, List.filterMap_cons_none hx⟩
    | some y =>
      rw [List.filterMap_cons_some hx] at h
      obtain ⟨front, back, rfl⟩ := List.append_of_mem (h.mem_iff.mpr List.mem_cons_self)
      obtain ⟨zs, hzs, hsplit⟩ := ih (List.perm_middle.symm.trans h).cons_inv
      obtain ⟨zs₁, zs₂, rfl, rfl, rfl⟩ := List.filterMap_eq_append_iff.mp hsplit
      refine ⟨zs₁ ++ x :: zs₂, List.perm_middle.trans (hzs.cons x), ?_⟩
      rw [List.filterMap_append, List.filterMap_cons_some hx]

/-- The integers among values, of any width and also in a wrapper. -/
def Value.integers (vs : List Value) : List Int := vs.filterMap Value.asInt

theorem Value.fitsInt64_of_mem (h : i ∈ integers vs) : fitsInt64 i = true := by
  obtain ⟨v, -, hv⟩ := List.mem_filterMap.mp h
  rw [fitsInt64_iff]
  rw [asInt] at hv
  split at hv
  case h_1 n _ | h_2 n _ | h_3 n _ | h_4 n _ =>
    obtain rfl := Option.some.inj hv
    have hlow := n.le_toInt
    have hhigh := n.toInt_lt
    omega
  case h_5 => cases hv

theorem sum_integer (vs : List Value) : sum vs .integer =
    (addIntegers 0 (Value.integers vs)).map fun n => .int64 (Int64.ofInt n) := by
  rw [sum, total, Value.integers]
  cases addIntegers 0 (vs.filterMap Value.asInt) <;> rfl

theorem sum_of_steady (h : Steady 0 (Value.integers vs)) :
    ∃ n : Int64, n.toInt = (Value.integers vs).sum ∧ sum vs .integer = .ok (.int64 n) := by
  have hfits := fitsInt64_iff.mp (h _ (List.prefix_refl _))
  rw [Int.zero_add] at hfits
  refine ⟨Int64.ofInt (Value.integers vs).sum, Int64.toInt_ofInt_of_le hfits.1 hfits.2, ?_⟩
  rw [sum_integer, addIntegers_of_steady h, Int.zero_add, Except.map]

theorem sum_of_not_steady (h : ¬Steady 0 (Value.integers vs)) :
    sum vs .integer = .error (.executionError .integerSum) := by
  rw [sum_integer, addIntegers_of_not_steady rfl h, Except.map]

/-- What the sum of values may be if they have certain integers, in whatever order. -/
structure SumOf (is : List Int) (answer : Except Error Value) : Prop where
  /-- It is exact, or there is none. -/
  exact : (∃ n : Int64, n.toInt = is.sum ∧ answer = .ok (.int64 n)) ∨
    answer = .error (.executionError .integerSum)
  /-- There is none if the exact one does not fit. -/
  outside : fitsInt64 is.sum = false → answer = .error (.executionError .integerSum)
  /-- There is one if both parts fit. -/
  within : fitsInt64 (gains is) = true → fitsInt64 (losses is) = true →
    answer ≠ .error (.executionError .integerSum)

theorem sumOf_sum (h : (Value.integers ws).Perm is) : SumOf is (sum ws .integer) := by
  by_cases hsteady : Steady 0 (Value.integers ws)
  · obtain ⟨n, hn, hsum⟩ := sum_of_steady hsteady
    refine ⟨.inl ⟨n, hn.trans h.sum_eq, hsum⟩, fun hout => ?_, fun _ _ herror => ?_⟩
    · have hfits := hsteady _ (List.prefix_refl _)
      rw [Int.zero_add, h.sum_eq, hout] at hfits
      cases hfits
    · rw [hsum] at herror
      cases herror
  · have hnone := sum_of_not_steady hsteady
    refine ⟨.inr hnone, fun _ => hnone, fun hgains hlosses => absurd ?_ hsteady⟩
    exact forall_steady_iff.mpr ⟨hgains, hlosses⟩ _ h

/-- If the exact sum fits, it is the sum in some order. -/
theorem exists_sum (h : fitsInt64 (Value.integers vs).sum = true) :
    ∃ ws : List Value, ws.Perm vs ∧
      ∃ n : Int64, n.toInt = (Value.integers vs).sum ∧ sum ws .integer = .ok (.int64 n) := by
  have hbase : fitsInt64 0 = true := rfl
  obtain ⟨js, hjs, hsteady⟩ := exists_steady hbase
    (fun _ hi => Value.fitsInt64_of_mem hi) (by rwa [Int.zero_add])
  obtain ⟨ws, hws, rfl⟩ := exists_perm_filterMap hjs
  obtain ⟨n, hn, hsum⟩ : ∃ n : Int64, n.toInt = (Value.integers ws).sum ∧
      sum ws .integer = .ok (.int64 n) := sum_of_steady hsteady
  exact ⟨ws, hws, n, hn.trans hjs.sum_eq, hsum⟩

/-- The order of values does not matter for their sum just if the exact one does not fit, or both
parts of it do. -/
theorem sum_perm_iff :
    (∀ ws : List Value, ws.Perm vs → sum ws .integer = sum vs .integer) ↔
      fitsInt64 (Value.integers vs).sum = false ∨
        fitsInt64 (gains (Value.integers vs)) = true ∧
          fitsInt64 (losses (Value.integers vs)) = true := by
  constructor
  · intro h
    cases hfits : fitsInt64 (Value.integers vs).sum with
    | false => exact .inl rfl
    | true =>
      refine .inr (forall_steady_iff.mp fun js hjs => ?_)
      obtain ⟨us, hus, n, -, hsum⟩ := exists_sum hfits
      obtain ⟨ws, hws, rfl⟩ := exists_perm_filterMap hjs
      by_contra hnot
      have hnone : sum ws .integer = .error (.executionError .integerSum) := sum_of_not_steady hnot
      rw [h ws hws, ← h us hus, hsum] at hnone
      cases hnone
  · intro h ws hws
    have hanswer : SumOf (Value.integers vs) (sum ws .integer) := sumOf_sum (hws.filterMap _)
    have hanswer' : SumOf (Value.integers vs) (sum vs .integer) := sumOf_sum (.refl _)
    rcases h with hout | ⟨hgains, hlosses⟩
    · rw [hanswer.outside hout, hanswer'.outside hout]
    · obtain ⟨n, hn, hsum⟩ := hanswer.exact.resolve_right (hanswer.within hgains hlosses)
      obtain ⟨n', hn', hsum'⟩ := hanswer'.exact.resolve_right (hanswer'.within hgains hlosses)
      rw [hsum, hsum', Int64.toInt_inj.mp (hn.trans hn'.symm)]

/-- What is to be known of the sums of values in one order or another. -/
structure Sums (vs : List Value) : Prop where
  /-- The sum is exact if all running totals fit. -/
  steady : Steady 0 (Value.integers vs) →
    ∃ n : Int64, n.toInt = (Value.integers vs).sum ∧ sum vs .integer = .ok (.int64 n)
  /-- Else there is none. -/
  unsteady : ¬Steady 0 (Value.integers vs) →
    sum vs .integer = .error (.executionError .integerSum)
  /-- In another order it is the same if it is there, and it never is if it does not fit. -/
  perm : ∀ ws : List Value, ws.Perm vs → SumOf (Value.integers vs) (sum ws .integer)
  /-- If it fits, there is an order in which it is there. -/
  attained : fitsInt64 (Value.integers vs).sum = true → ∃ ws : List Value, ws.Perm vs ∧
    ∃ n : Int64, n.toInt = (Value.integers vs).sum ∧ sum ws .integer = .ok (.int64 n)
  /-- When the order does not matter. -/
  alike_iff : (∀ ws : List Value, ws.Perm vs → sum ws .integer = sum vs .integer) ↔
    fitsInt64 (Value.integers vs).sum = false ∨
      fitsInt64 (gains (Value.integers vs)) = true ∧ fitsInt64 (losses (Value.integers vs)) = true

theorem sums (vs : List Value) : Sums vs where
  steady := sum_of_steady
  unsteady := sum_of_not_steady
  perm _ hws := sumOf_sum (hws.filterMap _)
  attained := exists_sum
  alike_iff := sum_perm_iff

end ObjectStore
