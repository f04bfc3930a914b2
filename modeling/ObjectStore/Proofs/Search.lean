import ObjectStore.Search

/-
  Binary search finds what is there.

  Suppose that behind an element beyond the key all elements are beyond it, and that
  before an element short of the key all are short of it (`Rises`). Then the answer is
  right (`Place.Right`): the place of an element equal to the key, or the place that has
  all that is short of the key before it and all that is beyond the key behind it.

  The window of the search keeps two things: what is behind it lies beyond the key, and
  its first element does not, unless it is the first of all.

    1. `narrow_lt`, `narrow_spec`: what holds of the last place of the window.
    2. `search_right`: the answer. `Place.Right.found_iff`: an equal element is found if
       there is one.
    3. `search_map`: elements that are compared by what they hold.
    4. `insertIdx_eq_take_drop`: what a new element at a place has before and behind it.
-/

namespace ObjectStore

/-- The last place of a window lies in it, whatever the probes give. -/
theorem narrow_lt (probe : Nat → Ordering) {base size : Nat} (hsize : 0 < size) :
    narrow probe base size < base + size := by
  fun_induction narrow probe base size with
  | case1 base size hle => omega
  | case2 base size hlt half middle ih =>
    have hmiddle : middle = base + size / 2 := rfl
    have hhalf : half = size / 2 := rfl
    have hrest := ih (by omega)
    by_cases hprobe : probe middle = .gt
    · simp only [hprobe, ↓reduceDIte, ↓reduceIte] at hrest ⊢
      omega
    · simp only [hprobe, ↓reduceDIte, ↓reduceIte] at hrest ⊢
      omega

/-- The last place of a window: what is behind it lies beyond the key, and so does the
place itself only if nothing is before it. -/
theorem narrow_spec {probe : Nat → Ordering}
    (hup : ∀ i j, i ≤ j → probe i = .gt → probe j = .gt) {base size : Nat} (hsize : 0 < size)
    (hfirst : base = 0 ∨ probe base ≠ .gt) (hbehind : probe (base + size) = .gt) :
    (narrow probe base size = 0 ∨ probe (narrow probe base size) ≠ .gt) ∧
      probe (narrow probe base size + 1) = .gt := by
  fun_induction narrow probe base size with
  | case1 base size hle =>
    obtain rfl : size = 1 := by omega
    exact ⟨hfirst, hbehind⟩
  | case2 base size hlt half middle ih =>
    have hhalf : half = size / 2 := rfl
    have hmiddle : middle = base + half := rfl
    by_cases hprobe : probe middle = .gt
    · simp only [hprobe, ↓reduceDIte, ↓reduceIte] at ih ⊢
      exact ih (by omega) hfirst (hup middle _ (by omega) hprobe)
    · simp only [hprobe, ↓reduceDIte, ↓reduceIte] at ih ⊢
      have hend : middle + (size - half) = base + size := by omega
      exact ih (by omega) (.inr hprobe) (by rwa [hend])

variable {α : Type} {compareKey : α → Ordering} {xs : List α}

/-- A place is right for a key; `compareKey` compares an element with it. -/
def Place.Right (compareKey : α → Ordering) (xs : List α) : Place → Prop
  | .found i => ∃ x, xs[i]? = some x ∧ compareKey x = .eq
  | .free i =>
    i ≤ xs.length ∧ (∀ x ∈ xs.take i, compareKey x = .lt) ∧ ∀ x ∈ xs.drop i, compareKey x = .gt

theorem Place.right_free {i : Nat} (hi : i ≤ xs.length)
    (hbefore : ∀ j x, j < i → xs[j]? = some x → compareKey x = .lt)
    (hbehind : ∀ j x, i ≤ j → xs[j]? = some x → compareKey x = .gt) :
    (Place.free i).Right compareKey xs := by
  refine ⟨hi, fun x hx => ?_, fun x hx => ?_⟩
  · obtain ⟨j, hj⟩ := List.getElem?_of_mem hx
    rw [List.getElem?_take] at hj
    split at hj
    · rename_i hlt
      exact hbefore j x hlt hj
    · cases hj
  · obtain ⟨j, hj⟩ := List.getElem?_of_mem hx
    rw [List.getElem?_drop] at hj
    exact hbehind (i + j) x (Nat.le_add_right i j) hj

/-- The elements are short of the key, then equal to it, then beyond it. -/
def Rises (compareKey : α → Ordering) (xs : List α) : Prop :=
  xs.Pairwise fun x y =>
    (compareKey x = .gt → compareKey y = .gt) ∧ (compareKey y = .lt → compareKey x = .lt)

theorem Rises.of_lt (h : Rises compareKey xs) {i j : Nat} {x y : α} (hij : i < j)
    (hx : xs[i]? = some x) (hy : xs[j]? = some y) :
    (compareKey x = .gt → compareKey y = .gt) ∧ (compareKey y = .lt → compareKey x = .lt) := by
  obtain ⟨hi, rfl⟩ := List.getElem?_eq_some_iff.mp hx
  obtain ⟨hj, rfl⟩ := List.getElem?_eq_some_iff.mp hy
  exact List.pairwise_iff_getElem.mp h i j hi hj hij

/-- What a place has to the key; behind the last one everything is beyond it. -/
def probeAt (compareKey : α → Ordering) (xs : List α) (i : Nat) : Ordering :=
  match xs[i]? with
  | some x => compareKey x
  | none => .gt

theorem probeAt_of_some {i : Nat} {x : α} (hx : xs[i]? = some x) :
    probeAt compareKey xs i = compareKey x := by
  simp only [probeAt, hx]

theorem Rises.probeAt_gt (h : Rises compareKey xs) (i j : Nat) (hij : i ≤ j)
    (hi : probeAt compareKey xs i = .gt) : probeAt compareKey xs j = .gt := by
  cases hy : xs[j]? with
  | none => simp only [probeAt, hy]
  | some y =>
    rcases Nat.lt_or_eq_of_le hij with hlt | rfl
    · have hlen := (List.getElem?_eq_some_iff.mp hy).1
      have hx : xs[i]? = some xs[i] := List.getElem?_eq_getElem (Nat.lt_trans hlt hlen)
      rw [probeAt_of_some hx] at hi
      rw [probeAt_of_some hy]
      exact (h.of_lt hlt hx hy).1 hi
    · exact hi

theorem search_of_isEmpty_false (hempty : xs.isEmpty = false) :
    search compareKey xs =
      match probeAt compareKey xs (narrow (probeAt compareKey xs) 0 xs.length) with
      | .eq => .found (narrow (probeAt compareKey xs) 0 xs.length)
      | .lt => .free (narrow (probeAt compareKey xs) 0 xs.length + 1)
      | .gt => .free (narrow (probeAt compareKey xs) 0 xs.length) := by
  rw [search, hempty]
  rfl

theorem search_free_le {i : Nat} (h : search compareKey xs = .free i) : i ≤ xs.length := by
  cases hempty : xs.isEmpty with
  | true =>
    rw [search, if_pos hempty] at h
    cases h
    exact Nat.zero_le _
  | false =>
    have hlength : 0 < xs.length := List.length_pos_iff.mpr (by simpa using hempty)
    have hlast : narrow (probeAt compareKey xs) 0 xs.length < 0 + xs.length :=
      narrow_lt _ hlength
    rw [search_of_isEmpty_false hempty] at h
    split at h <;> cases h <;> omega

/-- Where a key is found there is an element equal to it, whatever the order of the others. -/
theorem search_found {i : Nat} (h : search compareKey xs = .found i) :
    ∃ x ∈ xs, compareKey x = .eq := by
  cases hempty : xs.isEmpty with
  | true =>
    rw [search, if_pos hempty] at h
    cases h
  | false =>
    rw [search_of_isEmpty_false hempty] at h
    generalize narrow (probeAt compareKey xs) 0 xs.length = last at h
    cases hx : xs[last]? with
    | none =>
      rw [probeAt, hx] at h
      cases h
    | some x =>
      refine ⟨x, List.mem_of_getElem? hx, ?_⟩
      rw [probeAt_of_some hx] at h
      split at h
      · assumption
      · cases h
      · cases h

/-- The place that the search answers is right. -/
theorem search_right (h : Rises compareKey xs) :
    (search compareKey xs).Right compareKey xs := by
  cases hempty : xs.isEmpty with
  | true =>
    obtain rfl := List.isEmpty_iff.mp hempty
    exact Place.right_free (Nat.le_refl _) (fun j x _ hx => by cases hx) fun j x _ hx => by cases hx
  | false =>
    have hlength : 0 < xs.length := List.length_pos_iff.mpr (by simpa using hempty)
    have hend : probeAt compareKey xs (0 + xs.length) = .gt := by
      simp only [probeAt, Nat.zero_add, List.getElem?_eq_none (Nat.le_refl _)]
    have hlast : narrow (probeAt compareKey xs) 0 xs.length < 0 + xs.length :=
      narrow_lt _ hlength
    obtain ⟨hfirst, hbehind⟩ := narrow_spec h.probeAt_gt hlength (.inl rfl) hend
    have hsearch : search compareKey xs = _ := search_of_isEmpty_false hempty
    generalize narrow (probeAt compareKey xs) 0 xs.length = last at hsearch hlast hfirst hbehind
    rw [Nat.zero_add] at hlast
    have hy : xs[last]? = some xs[last] := List.getElem?_eq_getElem hlast
    have hgt (j : Nat) (x : α) (hj : last + 1 ≤ j) (hx : xs[j]? = some x) :
        compareKey x = .gt := by
      have hprobe := h.probeAt_gt _ _ hj hbehind
      rwa [probeAt_of_some hx] at hprobe
    rw [probeAt_of_some hy] at hsearch hfirst
    rw [hsearch]
    cases hc : compareKey xs[last] with
    | eq => exact ⟨xs[last], hy, hc⟩
    | lt =>
      refine Place.right_free hlast (fun j x hj hx => ?_) hgt
      rcases Nat.lt_or_eq_of_le (Nat.le_of_lt_succ hj) with hlt | rfl
      · exact (h.of_lt hlt hx hy).2 hc
      · rwa [← Option.some.inj (hy.symm.trans hx)]
    | gt =>
      -- the key comes before the first element, so before all of them
      obtain rfl : last = 0 := hfirst.resolve_right (not_not_intro hc)
      refine Place.right_free (Nat.zero_le _) (fun j x hj => absurd hj (Nat.not_lt_zero j))
        fun j x _ hx => ?_
      rcases Nat.eq_zero_or_pos j with rfl | hj
      · rwa [← Option.some.inj (hy.symm.trans hx)]
      · exact hgt j x hj hx

/-- At a right place the key is found just if there is an element equal to it. -/
theorem Place.Right.found_iff {p : Place} (h : p.Right compareKey xs) :
    (∃ i, p = .found i) ↔ ∃ x ∈ xs, compareKey x = .eq := by
  cases p with
  | found i =>
    obtain ⟨x, hx, heq⟩ := h
    exact ⟨fun _ => ⟨x, List.mem_of_getElem? hx, heq⟩, fun _ => ⟨i, rfl⟩⟩
  | free i =>
    obtain ⟨-, hbefore, hbehind⟩ := h
    constructor
    · rintro ⟨j, hj⟩
      cases hj
    · rintro ⟨x, hx, heq⟩
      rw [← List.take_append_drop i xs] at hx
      rcases List.mem_append.mp hx with hx | hx
      · rw [hbefore x hx] at heq
        cases heq
      · rw [hbehind x hx] at heq
        cases heq

/-- To search elements by what they hold is to search what they hold. -/
theorem search_map {β : Type} (f : β → α) (ys : List β) :
    search compareKey (ys.map f) = search (fun y => compareKey (f y)) ys := by
  have hprobe : probeAt compareKey (ys.map f) = probeAt (fun y => compareKey (f y)) ys := by
    funext i
    simp only [probeAt, List.getElem?_map]
    cases ys[i]? <;> rfl
  cases hempty : ys.isEmpty with
  | true =>
    obtain rfl := List.isEmpty_iff.mp hempty
    rfl
  | false =>
    have hmap : (ys.map f).isEmpty = false := by rw [List.isEmpty_map, hempty]
    rw [search_of_isEmpty_false hmap, search_of_isEmpty_false hempty, hprobe, List.length_map]

/-- An element put in at a place. -/
theorem insertIdx_eq_take_drop {i : Nat} (hi : i ≤ xs.length) (x : α) :
    xs.insertIdx i x = xs.take i ++ x :: xs.drop i := by
  induction xs generalizing i with
  | nil =>
    obtain rfl := Nat.le_zero.mp hi
    rfl
  | cons y ys ih =>
    cases i with
    | zero => rfl
    | succ i =>
      rw [List.insertIdx_succ_cons, ih (Nat.le_of_succ_le_succ hi), List.take_succ_cons,
        List.drop_succ_cons, List.cons_append]

end ObjectStore
