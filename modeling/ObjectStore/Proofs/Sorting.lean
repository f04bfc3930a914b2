import ObjectStore.Sorting

/-
  What sorting keeps and what it reaches.

    1. `stableSort_perm`: whatever the comparison, sorting only rearranges.
    2. `stableSort_sorted`: where the comparison is that of a total preorder, the answer
       is in order.
    3. `filter_stableSort`: values of which none comes before another one keep the order
       they had. So the first of them stays the first, `find?_stableSort`.
    4. `stableSort_filter`: it does not matter whether values are left out before or after.
    5. `head?_stableSort`: the value that comes out first is also found in one pass.
-/

namespace ObjectStore

theorem sink_perm {α : Type} (before : α → α → Bool) (x : α) (ys : List α) :
    (sink before x ys).Perm (x :: ys) := by
  induction ys with
  | nil => exact .refl _
  | cons y ys ih =>
    rw [sink]
    split
    · exact (ih.cons y).trans (.swap x y ys)
    · exact .refl _

theorem stableSort_perm {α : Type} (before : α → α → Bool) (xs : List α) :
    (stableSort before xs).Perm xs := by
  have hfold (taken : List α) :
      (xs.foldl (fun taken x => sink before x taken) taken).Perm (taken ++ xs) := by
    induction xs generalizing taken with
    | nil => rw [List.append_nil, List.foldl_nil]
    | cons x xs ih =>
      refine (ih (sink before x taken)).trans ?_
      refine ((sink_perm before x taken).append_right xs).trans ?_
      exact List.perm_middle.symm
  exact (List.reverse_perm _).trans (hfold [])

/-! ## Order -/

/-- Among the values of a kind, coming before another one is a strict weak order. -/
structure Preorders {α : Type} (before : α → α → Bool) (p : α → Prop) : Prop where
  asymm : ∀ {x y}, p x → p y → before x y = true → before y x = false
  trans : ∀ {x y z}, p x → p y → p z → before x y = false → before y z = false →
    before x z = false

variable {α : Type} {before : α → α → Bool} {p : α → Prop}

theorem forall_mem_sink {x : α} {taken : List α} (hx : p x) (ht : ∀ y ∈ taken, p y) :
    ∀ y ∈ sink before x taken, p y := by
  intro y hy
  rcases List.mem_cons.mp ((sink_perm before x taken).mem_iff.mp hy) with rfl | hy
  · exact hx
  · exact ht y hy

theorem sink_sorted (h : Preorders before p) {x : α} {taken : List α} (hx : p x)
    (ht : ∀ y ∈ taken, p y) (hs : taken.Pairwise fun a b => before a b = false) :
    (sink before x taken).Pairwise fun a b => before a b = false := by
  induction taken with
  | nil => exact List.pairwise_singleton _ x
  | cons y ys ih =>
    obtain ⟨hy, hys⟩ := List.pairwise_cons.mp hs
    have hpy : p y := ht y List.mem_cons_self
    have hpys (z : α) (hz : z ∈ ys) : p z := ht z (List.mem_cons_of_mem y hz)
    rw [sink]
    split
    · rename_i hb
      refine List.pairwise_cons.mpr ⟨fun z hz => ?_, ih hpys hys⟩
      rcases List.mem_cons.mp ((sink_perm before x ys).mem_iff.mp hz) with rfl | hz
      · exact h.asymm hx hpy hb
      · exact hy z hz
    · rename_i hb
      have hb : before x y = false := Bool.eq_false_iff.mpr hb
      refine List.pairwise_cons.mpr ⟨fun z hz => ?_, hs⟩
      rcases List.mem_cons.mp hz with rfl | hz
      · exact hb
      · exact h.trans hx hpy (hpys z hz) hb (hy z hz)

/-- No value of the answer comes before one that stands in front of it. -/
theorem stableSort_sorted (h : Preorders before p) {xs : List α} (hxs : ∀ x ∈ xs, p x) :
    (stableSort before xs).Pairwise fun a b => before b a = false := by
  have hfold (taken : List α) (ht : ∀ y ∈ taken, p y)
      (hs : taken.Pairwise fun a b => before a b = false) :
      (xs.foldl (fun taken x => sink before x taken) taken).Pairwise
        fun a b => before a b = false := by
    induction xs generalizing taken with
    | nil => exact hs
    | cons x xs ih =>
      have hx : p x := hxs x List.mem_cons_self
      exact ih (fun z hz => hxs z (List.mem_cons_of_mem x hz)) (sink before x taken)
        (forall_mem_sink hx ht) (sink_sorted h hx ht hs)
  exact List.pairwise_reverse.mpr (hfold [] (fun y hy => by cases hy) .nil)

theorem Preorders.comap {β : Type} (h : Preorders before p) (f : β → α) :
    Preorders (fun a b => before (f a) (f b)) fun b => p (f b) :=
  ⟨h.asymm, h.trans⟩

/-! ## Stability -/

/-- A value passes only values that it comes before, so none of those that it belongs
together with. -/
theorem filter_sink {q : α → Bool} {x : α} {taken : List α}
    (h : ∀ y ∈ taken, q x = true → q y = true → before x y = false) :
    (sink before x taken).filter q = (x :: taken).filter q := by
  induction taken with
  | nil => rfl
  | cons y ys ih =>
    rw [sink]
    split
    · rename_i hb
      have hnot : ¬(q x = true ∧ q y = true) := by
        rintro ⟨hx, hy⟩
        rw [h y List.mem_cons_self hx hy] at hb
        cases hb
      rw [List.filter_cons, ih fun z hz => h z (List.mem_cons_of_mem y hz)]
      cases hx : q x <;> cases hy : q y <;> simp_all
    · rfl

theorem filter_foldl_sink {q : α → Bool} {xs taken : List α}
    (h : ∀ x ∈ taken ++ xs, ∀ y ∈ taken ++ xs, q x = true → q y = true → before x y = false) :
    (xs.foldl (fun taken x => sink before x taken) taken).filter q =
      (xs.reverse ++ taken).filter q := by
  induction xs generalizing taken with
  | nil => rfl
  | cons x xs ih =>
    have hmem {z : α} (hz : z ∈ sink before x taken ++ xs) : z ∈ taken ++ x :: xs := by
      rw [List.mem_append, (sink_perm before x taken).mem_iff, List.mem_cons] at hz
      rcases hz with (rfl | hz) | hz
      · exact List.mem_append_right taken List.mem_cons_self
      · exact List.mem_append_left _ hz
      · exact List.mem_append_right taken (List.mem_cons_of_mem x hz)
    have hsink : (sink before x taken).filter q = (x :: taken).filter q :=
      filter_sink fun y hy => h x (by simp) y (List.mem_append_left _ hy)
    rw [List.foldl_cons, ih fun a ha b hb => h a (hmem ha) b (hmem hb), List.filter_append, hsink,
      ← List.filter_append, List.reverse_cons, List.append_assoc, List.singleton_append]

/-- Values that belong together keep the order they had. -/
theorem filter_stableSort {q : α → Bool} {xs : List α}
    (h : ∀ x ∈ xs, ∀ y ∈ xs, q x = true → q y = true → before x y = false) :
    (stableSort before xs).filter q = xs.filter q := by
  rw [stableSort, List.filter_reverse, filter_foldl_sink h, List.append_nil, List.filter_reverse,
    List.reverse_reverse]

/-- The first of the values that belong together stays the first. -/
theorem find?_stableSort {q : α → Bool} {xs : List α}
    (h : ∀ x ∈ xs, ∀ y ∈ xs, q x = true → q y = true → before x y = false) :
    (stableSort before xs).find? q = xs.find? q := by
  rw [← List.head?_filter, filter_stableSort h, List.head?_filter]

/-! ## Sorting and leaving out -/

theorem sink_of_forall {x : α} {taken : List α} (h : ∀ y ∈ taken, before x y = false) :
    sink before x taken = x :: taken := by
  cases taken with
  | nil => rfl
  | cons y ys => rw [sink, h y List.mem_cons_self, if_neg Bool.false_ne_true]

theorem sink_filter (h : Preorders before p) {q : α → Bool} {x : α} {taken : List α} (hx : p x)
    (ht : ∀ y ∈ taken, p y) (hs : taken.Pairwise fun a b => before a b = false)
    (hq : q x = true) :
    sink before x (taken.filter q) = (sink before x taken).filter q := by
  induction taken with
  | nil => exact (List.filter_cons_of_pos (l := []) hq).symm
  | cons y ys ih =>
    obtain ⟨hy, hys⟩ := List.pairwise_cons.mp hs
    have hpys (z : α) (hz : z ∈ ys) : p z := ht z (List.mem_cons_of_mem y hz)
    cases hb : before x y with
    | true =>
      rw [sink, if_pos hb, List.filter_cons, List.filter_cons, ← ih hpys hys]
      split
      · rw [sink, if_pos hb]
      · rfl
    | false =>
      -- what it does not pass here, it does not pass behind a gap either
      have hall : ∀ z ∈ y :: ys, before x z = false := by
        intro z hz
        rcases List.mem_cons.mp hz with rfl | hz
        · exact hb
        · exact h.trans hx (ht y List.mem_cons_self) (hpys z hz) hb (hy z hz)
      rw [sink_of_forall hall, sink_of_forall fun z hz => hall z (List.mem_filter.mp hz).1,
        List.filter_cons_of_pos hq]

/-- Values may be left out before or after sorting. -/
theorem stableSort_filter (h : Preorders before p) {q : α → Bool} {xs : List α}
    (hxs : ∀ x ∈ xs, p x) : stableSort before (xs.filter q) = (stableSort before xs).filter q := by
  have hfold (taken : List α) (ht : ∀ y ∈ taken, p y)
      (hs : taken.Pairwise fun a b => before a b = false) :
      (xs.filter q).foldl (fun taken x => sink before x taken) (taken.filter q) =
        (xs.foldl (fun taken x => sink before x taken) taken).filter q := by
    induction xs generalizing taken with
    | nil => rfl
    | cons x xs ih =>
      have hx : p x := hxs x List.mem_cons_self
      have hrest := ih (fun z hz => hxs z (List.mem_cons_of_mem x hz)) (sink before x taken)
        (forall_mem_sink hx ht) (sink_sorted h hx ht hs)
      rw [List.foldl_cons, ← hrest]
      cases hq : q x with
      | true => rw [List.filter_cons_of_pos hq, List.foldl_cons, sink_filter h hx ht hs hq]
      | false =>
        have hsink : (sink before x taken).filter q = (x :: taken).filter q :=
          filter_sink fun y _ hqx => absurd (hq.symm.trans hqx) Bool.false_ne_true
        have hnot : ¬q x = true := Bool.eq_false_iff.mp hq
        rw [List.filter_cons_of_neg hnot, hsink, List.filter_cons_of_neg hnot]
  rw [stableSort, stableSort, List.filter_reverse]
  exact congrArg List.reverse (hfold [] nofun .nil)

/-! ## The first value -/

/-- Of the value that is first so far and one more, the first: a value takes over only if it comes
before the other one. -/
def former (before : α → α → Bool) (first : Option α) (x : α) : Option α :=
  match first with
  | none => some x
  | some y => if before x y then some x else some y

/-- The last of the values taken is the first in order. One more passes it only if it comes before
it, and then it has passed all others. -/
theorem getLast?_sink (h : Preorders before p) {x : α} {taken : List α} (hx : p x)
    (ht : ∀ y ∈ taken, p y) (hs : taken.Pairwise fun a b => before a b = false) :
    (sink before x taken).getLast? = former before taken.getLast? x := by
  induction taken with
  | nil => rfl
  | cons y ys ih =>
    obtain ⟨hy, hys⟩ := List.pairwise_cons.mp hs
    have hpys (z : α) (hz : z ∈ ys) : p z := ht z (List.mem_cons_of_mem y hz)
    cases hb : before x y with
    | true =>
      rw [sink, if_pos hb, List.getLast?_cons, ih hpys hys, List.getLast?_cons]
      cases ys.getLast? with
      | none => simp only [former, Option.getD_some, Option.getD_none, hb, if_true]
      | some z =>
        simp only [former, Option.getD_some]
        split <;> rfl
    | false =>
      have hlast : before x (ys.getLast?.getD y) = false := by
        cases hz : ys.getLast? with
        | none => exact hb
        | some z =>
          have hz := List.mem_of_getLast? hz
          exact h.trans hx (ht y List.mem_cons_self) (hpys z hz) hb (hy z hz)
      rw [sink, hb, if_neg Bool.false_ne_true, List.getLast?_cons_cons, List.getLast?_cons, former,
        hlast, if_neg Bool.false_ne_true]

/-- The first of the sorted values is found in one pass. -/
theorem head?_stableSort (h : Preorders before p) {xs : List α} (hxs : ∀ x ∈ xs, p x) :
    (stableSort before xs).head? = xs.foldl (former before) none := by
  have hfold (taken : List α) (ht : ∀ y ∈ taken, p y)
      (hs : taken.Pairwise fun a b => before a b = false) :
      (xs.foldl (fun taken x => sink before x taken) taken).getLast? =
        xs.foldl (former before) taken.getLast? := by
    induction xs generalizing taken with
    | nil => rfl
    | cons x xs ih =>
      have hx : p x := hxs x List.mem_cons_self
      rw [List.foldl_cons, List.foldl_cons, ← getLast?_sink h hx ht hs]
      exact ih (fun z hz => hxs z (List.mem_cons_of_mem x hz)) _ (forall_mem_sink hx ht)
        (sink_sorted h hx ht hs)
  rw [stableSort, List.head?_reverse]
  exact hfold [] nofun .nil

end ObjectStore
