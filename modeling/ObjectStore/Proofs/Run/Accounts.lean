import Mathlib.Data.List.Induction
import ObjectStore.Proofs.Run.Queue

/-
  What has been told, and what has been queued.

  What is told is taken from the queue, in order, and nothing is told of an observer that
  has ended. While an observer is told of one change it may make any calls, so these facts
  are kept over every call and not over the steps of a delivery alone.

    1. `Session.Accounts`: what has been told and what has been queued, as long as a
       session goes on. `Session.Accounts.perform` is one call, `World.accounts_along`
       are all.
    2. `World.live_of_queued`: what is queued is for an observer, until this observer is
       cancelled or the session is closed. From then on nothing is told of it
       (`World.told_of_ended`).
    3. `World.announces_run`: what an observer is told first.
    4. `World.told_of_emptied`: what has been told when the queue is found empty.
-/

namespace ObjectStore

/-! ## What has been told, and what has been queued -/

/-- The order in which two notices stand in a queue: for one observer, only differences
come after anything else, and each is to a later generation. -/
def Notice.Before (n n' : Notice) : Prop :=
  n.observer = n'.observer → n'.IsUpdate ∧ n.generation < n'.generation

namespace Notice

theorem nodup_of_before {ns : List Notice} (h : ns.Pairwise Notice.Before) : ns.Nodup := by
  apply h.imp
  intro n n' hbefore heq
  subst heq
  exact Nat.lt_irrefl _ (hbefore rfl).2

theorem mem_ofObserver {o : ObserverId} {n : Notice} {ns : List Notice} :
    n ∈ ofObserver o ns ↔ n ∈ ns ∧ n.observer = o := by
  simp only [ofObserver, List.mem_filter, decide_eq_true_eq]

theorem ofObserver_append (o : ObserverId) (ns ms : List Notice) :
    ofObserver o (ns ++ ms) = ofObserver o ns ++ ofObserver o ms := List.filter_append ..

theorem ofObserver_eq_nil {o : ObserverId} {ns : List Notice} (h : ∀ n ∈ ns, n.observer ≠ o) :
    ofObserver o ns = [] := by
  rw [ofObserver, List.filter_eq_nil_iff]
  intro n hn
  simpa only [decide_eq_true_eq] using h n hn

theorem ofObserver_filter_of_active {active : ObserverId → Bool} {o : ObserverId}
    (ho : active o = true) (ns : List Notice) :
    ofObserver o (ns.filter fun n => active n.observer) = ofObserver o ns := by
  rw [ofObserver, List.filter_filter]
  refine List.filter_congr fun n _ => ?_
  by_cases hn : n.observer = o
  · simp only [hn, ho, decide_true, Bool.true_and]
  · simp only [hn, decide_false, Bool.false_and]

theorem ofObserver_filter_of_ended {active : ObserverId → Bool} {o : ObserverId}
    (ho : active o = false) (ns : List Notice) :
    ofObserver o (ns.filter fun n => active n.observer) = [] := by
  refine ofObserver_eq_nil fun n hn heq => ?_
  have hactive := (List.mem_filter.mp hn).2
  rw [heq, ho] at hactive
  cases hactive

end Notice

open Notice

/-- What of `queued` has been `told` while a session came to be as it is. The queue is
what is left of `queued`. Of what was before it, an observer has been told up to its end. -/
structure Session.Accounts (x : Session) (queued told : List Notice) : Prop where
  numbered : ∀ n ∈ queued, n.observer.val < x.feed.nextId
  dated : ∀ n ∈ queued, n.generation ≤ x.snapshot.generation
  ordered : queued.Pairwise Notice.Before
  parted : ∃ passed, queued = passed ++ x.feed.queue ∧ told.Sublist passed ∧
    ∀ o, ofObserver o told <+: ofObserver o passed ∧
      (x.feed.isActive o = true → ofObserver o told = ofObserver o passed)

namespace Session

variable {w : World} {c : Call} {s : SessionId} {x x' : Session} {queued told : List Notice}

theorem accounts_empty {announces : Bool} (hf : x.feed = .empty announces) : x.Accounts [] [] := by
  refine ⟨by simp, by simp, List.Pairwise.nil, [], ?_, List.Sublist.refl _, ?_⟩
  · rw [hf]
    rfl
  · exact fun o => ⟨List.prefix_refl _, fun _ => rfl⟩

theorem Accounts.restart (h : x.Accounts queued told) : x.Accounts x.feed.queue [] := by
  obtain ⟨passed, hqueued, -⟩ := h.parted
  have hsub : x.feed.queue.Sublist queued := hqueued ▸ List.sublist_append_right _ _
  exact ⟨fun n hn => h.numbered n (hsub.subset hn), fun n hn => h.dated n (hsub.subset hn),
    h.ordered.sublist hsub, [], rfl, List.Sublist.refl _,
    fun o => ⟨List.prefix_refl _, fun _ => rfl⟩⟩

theorem Accounts.ne_new (h : x.Accounts queued told) {n : Notice} (hn : n ∈ queued) :
    n.observer ≠ ⟨x.feed.nextId⟩ := by
  intro heq
  have hlt := h.numbered n hn
  rw [heq] at hlt
  exact Nat.lt_irrefl _ hlt

theorem Accounts.ordered_append (h : x.Accounts queued told) (hf : Call.Fresh w c s x x') :
    (queued ++ c.queued w s).Pairwise Notice.Before := by
  refine List.pairwise_append.mpr ⟨h.ordered, hf.apart.imp fun hne heq => absurd heq hne, ?_⟩
  intro n hn n' hn' heq
  obtain ⟨-, -, ⟨hupdate, hlater⟩ | hnew⟩ := hf.each n' hn'
  · exact ⟨hupdate, Nat.lt_of_le_of_lt (h.dated n hn) hlater⟩
  · exact absurd (heq.trans hnew) (h.ne_new hn)

/-- What is told goes on as the queue does: an observer that goes on has been told of all that
was before the queue, and an ended one of what was there before its end. -/
theorem Accounts.parted_append (h : x.Accounts queued told) (hs : Call.Shifts w c s x x') :
    ∃ passed, queued ++ c.queued w s = passed ++ x'.feed.queue ∧
      (told ++ c.told w s).Sublist passed ∧
      ∀ o, ofObserver o (told ++ c.told w s) <+: ofObserver o passed ∧
        (x'.feed.isActive o = true → ofObserver o (told ++ c.told w s) = ofObserver o passed) := by
  obtain ⟨passed, hqueued, hsub, htold⟩ := h.parted
  obtain ⟨gone, left, hsplit, hleft, hnow, -⟩ := hs.flow
  have hnew (ns : List Notice) (hns : ns ⊆ queued) : ofObserver ⟨x.feed.nextId⟩ ns = [] :=
    ofObserver_eq_nil fun n hn => h.ne_new (hns hn)
  have hpassed : passed ⊆ queued := hqueued ▸ List.subset_append_left _ _
  refine ⟨passed ++ gone, ?_, ?_, fun o => ?_⟩
  · calc queued ++ c.queued w s
      _ = passed ++ (gone ++ left) ++ c.queued w s := by rw [hqueued, hsplit]
      _ = passed ++ gone ++ x'.feed.queue := by simp only [hleft, List.append_assoc]
  · rw [hnow]
    exact hsub.append List.filter_sublist
  · rw [ofObserver_append, ofObserver_append, hnow]
    cases ho : x'.feed.isActive o with
    | false =>
      rw [ofObserver_filter_of_ended ho, List.append_nil]
      exact ⟨(htold o).1.trans (List.prefix_append _ _), nofun⟩
    | true =>
      have hsame : ofObserver o told = ofObserver o passed := by
        rcases hs.begins o ho with ho | ⟨rfl, -⟩
        · exact (htold o).2 ho
        · rw [hnew passed hpassed, hnew told (List.Subset.trans hsub.subset hpassed)]
      rw [ofObserver_filter_of_active ho, hsame]
      exact ⟨List.prefix_refl _, fun _ => rfl⟩

theorem Accounts.perform (h : x.Accounts queued told) (hs : Call.Shifts w c s x x')
    (hf : Call.Fresh w c s x x') (hsound : x'.feed.Sound x'.snapshot) :
    x'.Accounts (queued ++ c.queued w s) (told ++ c.told w s) := by
  refine ⟨?_, ?_, h.ordered_append hf, h.parted_append hs⟩
  · intro n hn
    rcases List.mem_append.mp hn with hn | hn
    · exact Nat.lt_of_lt_of_le (h.numbered n hn) hs.numbers
    · obtain ⟨sub, hsub, hid⟩ := Feed.isActive_iff.mp (hf.each n hn).1
      rw [← hid]
      exact hsound.numbered sub hsub
  · intro n hn
    rcases List.mem_append.mp hn with hn | hn
    · exact Nat.le_trans (h.dated n hn) hf.dated
    · exact (hf.each n hn).2.1

end Session

/-! ## Along calls -/

namespace World

def Reached (w : World) : Prop := ∃ cs, empty.run cs = w

section

variable {w : World} {s : SessionId} {x : Session} {o : ObserverId}

theorem Reached.perform (h : w.Reached) (c : Call) : (c.perform w).Reached := by
  obtain ⟨cs, rfl⟩ := h
  exact ⟨cs ++ [c], run_snoc _ _ _⟩

theorem Reached.run (h : w.Reached) (cs : List Call) : (w.run cs).Reached := by
  obtain ⟨before, rfl⟩ := h
  exact ⟨before ++ cs, run_append _ _ _⟩

theorem Reached.heard (h : w.Reached) : w.Heard := by
  obtain ⟨cs, rfl⟩ := h
  exact heard_run cs

theorem Reached.shifts (h : w.Reached) (hx : w.session? s = some x) (c : Call) :
    ∃ x', (c.perform w).session? s = some x' ∧ Call.Shifts w c s x x' ∧ Call.Fresh w c s x x' := by
  obtain ⟨cs, rfl⟩ := h
  exact Call.shifts_perform (orderly_run cs) (heard_run cs) hx c

theorem isObserving_of_session (hx : w.session? s = some x) :
    w.isObserving s o = x.feed.isActive o := by
  simp only [isObserving, hx]

theorem pending_of_session (hx : w.session? s = some x) : w.pending s = x.feed.queue := by
  simp only [pending, hx]

@[simp] theorem told_cons (c : Call) (cs : List Call) :
    w.told s (c :: cs) = c.told w s ++ (c.perform w).told s cs := rfl

@[simp] theorem queued_cons (c : Call) (cs : List Call) :
    w.queued s (c :: cs) = c.queued w s ++ (c.perform w).queued s cs := rfl

theorem told_append (before after : List Call) :
    w.told s (before ++ after) = w.told s before ++ (w.run before).told s after :=
  along_append _ _ _ _

/-- The accounts of a session go on along calls. -/
theorem accounts_along (hw : w.Reached) (hx : w.session? s = some x)
    {queued told : List Notice} (h : x.Accounts queued told) (cs : List Call) :
    ∃ x', (w.run cs).session? s = some x' ∧
      x'.Accounts (queued ++ w.queued s cs) (told ++ w.told s cs) := by
  induction cs generalizing w x queued told with
  | nil =>
    refine ⟨x, hx, ?_⟩
    simpa only [World.queued, World.told, along, List.append_nil] using h
  | cons c cs ih =>
    obtain ⟨x', hx', hshifts, hfresh⟩ := hw.shifts hx c
    have hnext := h.perform hshifts hfresh ((hw.perform c).heard s x' hx')
    obtain ⟨x'', hx'', haccounts⟩ := ih (hw.perform c) hx' hnext
    refine ⟨x'', hx'', ?_⟩
    simpa only [queued_cons, told_cons, List.append_assoc] using haccounts

theorem quiet_of_none {cs : List Call} (hx : (w.run cs).session? s = none) :
    w.queued s cs = [] ∧ w.told s cs = [] := by
  induction cs generalizing w with
  | nil => exact ⟨rfl, rfl⟩
  | cons c cs ih =>
    have hnone : w.session? s = none := by
      cases h : w.session? s with
      | none => rfl
      | some x =>
        obtain ⟨x', hx', -⟩ := session?_run h (c :: cs)
        cases hx.symm.trans hx'
    obtain ⟨hqueued, htold⟩ := ih hx
    simp only [queued_cons, told_cons, hqueued, htold, Call.queued_of_none hnone,
      Call.told_of_none hnone, List.append_nil, and_self]

theorem opening {cs : List Call} (hx : (empty.run cs).session? s = some x) :
    ∃ before since x₀, cs = before ++ since ∧ (empty.run before).session? s = some x₀ ∧
      (∃ announces, x₀.feed = .empty announces) ∧ x₀.closed = false ∧
      empty.queued s before = [] ∧ empty.told s before = [] := by
  induction cs using List.reverseRecOn generalizing x with
  | nil => cases hx
  | append_singleton cs c ih =>
    cases hy : (empty.run cs).session? s with
    | some y =>
      obtain ⟨before, since, x₀, rfl, hbefore⟩ := ih hy
      exact ⟨before, since ++ [c], x₀, List.append_assoc _ _ _, hbefore⟩
    | none =>
      obtain ⟨hqueued, htold⟩ := quiet_of_none hy
      have hx' := hx
      rw [run_snoc] at hx'
      obtain ⟨t, d, rfl⟩ := session?_perform_of_none c hy hx'
      refine ⟨cs ++ [c], [], _, (List.append_nil _).symm, hx, ⟨_, rfl⟩, rfl, ?_, ?_⟩
      · rw [queued, along_snoc, ← queued, hqueued, Call.queued_of_none hy, List.append_nil]
      · rw [told, along_snoc, ← told, htold, Call.told_of_none hy, List.append_nil]

theorem accounts_run (cs : List Call) (hx : (empty.run cs).session? s = some x) :
    x.Accounts (empty.queued s cs) (empty.told s cs) := by
  obtain ⟨before, since, x₀, rfl, hx₀, ⟨announces, hf⟩, -, hqueued, htold⟩ := opening hx
  obtain ⟨x', hx', haccounts⟩ :=
    accounts_along ⟨before, rfl⟩ hx₀ (Session.accounts_empty hf) since
  rw [← run_append] at hx'
  obtain rfl := Option.some.inj (hx.symm.trans hx')
  rw [queued, along_append, ← queued, hqueued, told, along_append, ← told, htold]
  exact haccounts

theorem told_in_order (cs : List Call) (s : SessionId) :
    (empty.queued s cs).Pairwise Notice.Before ∧
      (empty.told s cs).Sublist (empty.queued s cs) ∧
      ∀ o, ofObserver o (empty.told s cs) <+: ofObserver o (empty.queued s cs) := by
  cases hx : (empty.run cs).session? s with
  | none =>
    obtain ⟨hqueued, htold⟩ := quiet_of_none hx
    rw [hqueued, htold]
    exact ⟨List.Pairwise.nil, List.Sublist.refl _, fun o => List.prefix_refl _⟩
  | some x =>
    have haccounts := accounts_run cs hx
    obtain ⟨passed, hqueued, hsub, htold⟩ := haccounts.parted
    refine ⟨haccounts.ordered, ?_, fun o => ?_⟩
    · rw [hqueued]
      exact hsub.trans (List.sublist_append_left _ _)
    · rw [hqueued, ofObserver_append]
      exact (htold o).1.trans (List.prefix_append _ _)

/-! ## Who is told -/

theorem observing_along (hw : w.Reached) (hx : w.session? s = some x)
    (ho : x.feed.isActive o = true) (cs : List Call) :
    (w.run cs).isObserving s o = true ∨ .cancelObserver s o ∈ cs ∨ .close s ∈ cs := by
  induction cs generalizing w x with
  | nil => exact .inl ((isObserving_of_session hx).trans ho)
  | cons c cs ih =>
    obtain ⟨x', hx', hshifts, -⟩ := hw.shifts hx c
    simp only [List.mem_cons]
    rcases hshifts.ends o ho with ho' | rfl | rfl
    · rcases ih (hw.perform c) hx' ho' with h | h | h
      · exact .inl h
      · exact .inr (.inl (.inr h))
      · exact .inr (.inr (.inr h))
    · exact .inr (.inl (.inl rfl))
    · exact .inr (.inr (.inl rfl))

/-- After a notice was queued, its observer was cancelled or the session was closed. -/
def Suppressed (w : World) (s : SessionId) (cs : List Call) (n : Notice) : Prop :=
  ∃ before c after, cs = before ++ c :: after ∧ n ∈ c.queued (w.run before) s ∧
    (.cancelObserver s n.observer ∈ after ∨ .close s ∈ after)

/-- What is queued is for an observer, until it is cancelled or its session is closed. -/
theorem live_of_queued (hw : w.Reached) {cs : List Call} {n : Notice} (hn : n ∈ w.queued s cs) :
    (w.run cs).isObserving s n.observer = true ∨ w.Suppressed s cs n := by
  induction cs generalizing w with
  | nil => cases hn
  | cons c cs ih =>
    rw [queued_cons, List.mem_append] at hn
    rcases hn with hn | hn
    · cases hx : w.session? s with
      | none =>
        rw [Call.queued_of_none hx] at hn
        cases hn
      | some x =>
        obtain ⟨x', hx', -, hfresh⟩ := hw.shifts hx c
        apply (observing_along (hw.perform c) hx' (hfresh.each n hn).1 cs).imp_right
        intro hended
        exact ⟨[], c, cs, rfl, hn, hended⟩
    · apply (ih (hw.perform c) hn).imp_right
      rintro ⟨before, d, after, rfl, hqueued, hended⟩
      exact ⟨c :: before, d, after, rfl, hqueued, hended⟩

/-- Nothing is told of an observer that has ended. -/
theorem told_of_ended (hw : w.Reached) (hx : w.session? s = some x)
    (ho : x.feed.isActive o = false) (hid : o.val < x.feed.nextId) (cs : List Call) :
    ofObserver o (w.told s cs) = [] := by
  induction cs generalizing w x with
  | nil => rfl
  | cons c cs ih =>
    obtain ⟨x', hx', hshifts, -⟩ := hw.shifts hx c
    have ho' : x'.feed.isActive o = false := by
      cases hactive : x'.feed.isActive o with
      | false => rfl
      | true =>
        rcases hshifts.begins o hactive with hactive | ⟨rfl, -⟩
        · cases hactive.symm.trans ho
        · exact absurd hid (Nat.lt_irrefl _)
    obtain ⟨gone, left, -, -, hnow, -⟩ := hshifts.flow
    rw [told_cons, ofObserver_append, hnow, ofObserver_filter_of_ended ho', List.nil_append]
    exact ih (hw.perform c) hx' ho' (Nat.lt_of_lt_of_le hid hshifts.numbers)

theorem told_of_closed (hw : w.Reached) (hx : w.session? s = some x) (hclosed : x.closed = true)
    (ho : ∀ o, x.feed.isActive o = false) (cs : List Call) : w.told s cs = [] := by
  induction cs generalizing w x with
  | nil => rfl
  | cons c cs ih =>
    obtain ⟨x', hx', hshifts, -⟩ := hw.shifts hx c
    have ho' (o : ObserverId) : x'.feed.isActive o = false := by
      cases hactive : x'.feed.isActive o with
      | false => rfl
      | true =>
        rcases hshifts.begins o hactive with hactive | ⟨-, hopen⟩
        · cases hactive.symm.trans (ho o)
        · cases hopen.symm.trans hclosed
    obtain ⟨gone, left, -, -, hnow, -⟩ := hshifts.flow
    rw [told_cons, hnow, ih (hw.perform c) hx' (hshifts.closed hclosed) ho']
    simp only [ho', List.filter_false, List.append_nil]

theorem ended_of_closed (cs : List Call) (hx : (empty.run cs).session? s = some x)
    (hclosed : x.closed = true) (o : ObserverId) : x.feed.isActive o = false := by
  induction cs using List.reverseRecOn generalizing x with
  | nil => cases hx
  | append_singleton cs c ih =>
    rw [run_snoc] at hx
    cases hy : (empty.run cs).session? s with
    | none =>
      obtain ⟨t, d, rfl⟩ := session?_perform_of_none c hy hx
      rfl
    | some y =>
      obtain ⟨x', hx', hshifts, -⟩ := Reached.shifts ⟨cs, rfl⟩ hy c
      obtain rfl := Option.some.inj (hx.symm.trans hx')
      rcases hshifts.closing hclosed with hwas | hnone
      · cases hactive : x.feed.isActive o with
        | false => rfl
        | true =>
          rcases hshifts.begins o hactive with hactive | ⟨-, hopen⟩
          · cases hactive.symm.trans (ih hy hwas)
          · cases hopen.symm.trans hwas
      · exact hnone o

/-! ## First notices -/

theorem initial_of_queued (hw : w.Reached) (hx : w.session? s = some x)
    (ha : x.feed.announces = true) (ho : x.feed.isActive o = false) {cs : List Call} {n : Notice}
    (hn : n ∈ ofObserver o (w.queued s cs)) :
    ∃ count g, ⟨o, .initial count g⟩ ∈ w.queued s cs := by
  induction cs generalizing w x with
  | nil => cases hn
  | cons c cs ih =>
    obtain ⟨x', hx', hshifts, hfresh⟩ := hw.shifts hx c
    obtain ⟨hn, hid⟩ := mem_ofObserver.mp hn
    rw [queued_cons, List.mem_append] at hn
    simp only [queued_cons, List.mem_append]
    cases ho' : x'.feed.isActive o with
    | true =>
      rcases hfresh.initial ha o ho' with hactive | ⟨count, g, hinitial⟩
      · cases hactive.symm.trans ho
      · exact ⟨count, g, .inl hinitial⟩
    | false =>
      rcases hn with hn | hn
      · have hactive := (hfresh.each n hn).1
        rw [hid, ho'] at hactive
        cases hactive
      · obtain ⟨count, g, hinitial⟩ := ih (hw.perform c) hx' (hshifts.announces.trans ha) ho'
          (mem_ofObserver.mpr ⟨hn, hid⟩)
        exact ⟨count, g, .inr hinitial⟩

theorem updates_of_queued (hw : w.Reached) (hx : w.session? s = some x)
    (ha : x.feed.announces = false) {cs : List Call} {n : Notice} (hn : n ∈ w.queued s cs) :
    n.IsUpdate := by
  induction cs generalizing w x with
  | nil => cases hn
  | cons c cs ih =>
    obtain ⟨x', hx', hshifts, hfresh⟩ := hw.shifts hx c
    rw [queued_cons, List.mem_append] at hn
    rcases hn with hn | hn
    · exact hfresh.updates ha n hn
    · exact ih (hw.perform c) hx' (hshifts.announces.trans ha) hn

theorem announces_along (hw : w.Reached) (hx : w.session? s = some x) {x' : Session}
    {cs : List Call} (hx' : (w.run cs).session? s = some x') :
    x'.feed.announces = x.feed.announces := by
  induction cs generalizing w x with
  | nil => rw [Option.some.inj (hx'.symm.trans hx)]
  | cons c cs ih =>
    obtain ⟨y, hy, hshifts, -⟩ := hw.shifts hx c
    exact (ih (hw.perform c) hy hx').trans hshifts.announces

/-- What is queued for an observer starts with the view at registration if its session
announces that, and else has differences only. -/
structure Announces (cs : List Call) (s : SessionId) (x : Session) : Prop where
  initial : x.feed.announces = true → ∀ o n rest,
    ofObserver o (empty.queued s cs) = n :: rest → ∃ count g, n.change = .initial count g
  updates : x.feed.announces = false → ∀ n ∈ empty.queued s cs, n.IsUpdate

theorem announces_run (cs : List Call) (hx : (empty.run cs).session? s = some x) :
    Announces cs s x := by
  have hordered := (accounts_run cs hx).ordered
  obtain ⟨before, since, x₀, rfl, hx₀, ⟨announces, hf⟩, -, hqueued, -⟩ := opening hx
  have ha : x.feed.announces = x₀.feed.announces :=
    announces_along ⟨before, rfl⟩ hx₀ (by rw [← run_append]; exact hx)
  have hsince : empty.queued s (before ++ since) = (empty.run before).queued s since := by
    rw [queued, along_append, ← queued, hqueued]
    rfl
  refine ⟨fun htrue o n rest hfirst => ?_, fun hfalse n hn => ?_⟩
  · have hn : n ∈ ofObserver o (empty.queued s (before ++ since)) :=
      hfirst ▸ List.mem_cons_self
    have hidle : x₀.feed.isActive o = false := by
      rw [hf]
      rfl
    rw [hsince] at hn
    obtain ⟨count, g, hinitial⟩ :=
      initial_of_queued ⟨before, rfl⟩ hx₀ (ha.symm.trans htrue) hidle hn
    rw [← hsince] at hinitial
    have hmem : (⟨o, .initial count g⟩ : Notice) ∈ n :: rest :=
      hfirst ▸ mem_ofObserver.mpr ⟨hinitial, rfl⟩
    rcases List.mem_cons.mp hmem with rfl | hlater
    · exact ⟨count, g, rfl⟩
    · -- after another notice for the same observer it would be a difference
      have hsorted := hordered.sublist (List.filter_sublist (p := fun m => m.observer = o))
      rw [← ofObserver, hfirst, List.pairwise_cons] at hsorted
      have hid : n.observer = o :=
        (mem_ofObserver.mp (hfirst ▸ List.mem_cons_self :
          n ∈ ofObserver o (empty.queued s (before ++ since)))).2
      obtain ⟨⟨changes, hupdate⟩, -⟩ := hsorted.1 _ hlater hid
      cases hupdate
  · rw [hsince] at hn
    exact updates_of_queued ⟨before, rfl⟩ hx₀ (ha.symm.trans hfalse) hn

/-- What stands in the queue has been queued by some call, and what is queued later too. Its
observer has ended only by a cancellation or the closing of the session. -/
theorem suppressed_of_ended {cs during : List Call} {n : Notice}
    (hn : n ∈ (empty.run cs).pending s ++ (empty.run cs).queued s during)
    (hended : ((empty.run cs).run during).isObserving s n.observer = false) :
    empty.Suppressed s (cs ++ during) n := by
  have hqueued : n ∈ empty.queued s (cs ++ during) := by
    rw [queued, along_append, ← queued, ← queued]
    refine List.mem_append.mpr ((List.mem_append.mp hn).imp_left fun hn => ?_)
    unfold pending at hn
    split at hn
    · rename_i x hx
      obtain ⟨passed, hqueued, -⟩ := (accounts_run cs hx).parted
      rw [hqueued]
      exact List.mem_append_right _ hn
    · cases hn
  refine (live_of_queued ⟨[], rfl⟩ hqueued).resolve_left fun hobserving => ?_
  rw [run_nil, run_append, hended] at hobserving
  cases hobserving

/-! ## What is left to tell -/

/-- When a step of a delivery finds nothing to tell, all that stood in the queue at some
earlier time and all that was queued since has been told since, in this order, but for
what is for observers that have ended. -/
theorem told_of_emptied (hw : w.Reached) (hx : w.session? s = some x) {during : List Call}
    (hnone : ((w.run during).nextNotice s).1 = none) :
    (w.told s during).Sublist (w.pending s ++ w.queued s during) ∧
      ∀ n ∈ w.pending s ++ w.queued s during,
        n ∈ w.told s during ∨ (w.run during).isObserving s n.observer = false := by
  obtain ⟨cs, rfl⟩ := hw
  obtain ⟨x', hx', haccounts⟩ :=
    accounts_along ⟨cs, rfl⟩ hx (accounts_run cs hx).restart during
  obtain ⟨passed, hqueued, hsub, htold⟩ := haccounts.parted
  rw [List.nil_append] at hsub htold
  rw [pending_of_session hx, hqueued]
  refine ⟨hsub.trans (List.sublist_append_left _ _), fun n hn => ?_⟩
  rw [isObserving_of_session hx']
  rcases List.mem_append.mp hn with hn | hn
  · cases hactive : x'.feed.isActive n.observer with
    | false => exact .inr rfl
    | true =>
      have hmem : n ∈ ofObserver n.observer passed := mem_ofObserver.mpr ⟨hn, rfl⟩
      rw [← (htold n.observer).2 hactive] at hmem
      exact .inl (mem_ofObserver.mp hmem).1
  · simp only [nextNotice, hx'] at hnone
    exact .inr (Feed.next_eq_none hnone n hn)

theorem told_of_notMem {cs : List Call} (h : .nextNotice s ∉ cs) : w.told s cs = [] := by
  induction cs generalizing w with
  | nil => rfl
  | cons c cs ih =>
    rw [List.mem_cons, not_or] at h
    rw [told_cons, Call.told_of_ne (Ne.symm h.1), ih h.2]
    rfl

/-- A call takes from the front of the queue, and what it queues stands at the end. -/
theorem pending_flow (hw : w.Reached) (c : Call) :
    ∃ gone left, w.pending s = gone ++ left ∧ (c.perform w).pending s = left ++ c.queued w s ∧
      (gone ≠ [] → c = .nextNotice s ∨ c = .close s) := by
  cases hx : w.session? s with
  | none =>
    have hnone : (c.perform w).pending s = [] := by
      unfold pending
      split
      · rename_i x' hx'
        obtain ⟨t, d, rfl⟩ := session?_perform_of_none c hx hx'
        rfl
      · rfl
    refine ⟨[], [], ?_, ?_, fun hne => absurd rfl hne⟩
    · rw [pending, hx]
      rfl
    · rw [hnone, Call.queued_of_none hx, List.append_nil]
  | some x =>
    obtain ⟨x', hx', hshifts, -⟩ := hw.shifts hx c
    obtain ⟨gone, left, hsplit, hleft, -, hgone⟩ := hshifts.flow
    exact ⟨gone, left, (pending_of_session hx).trans hsplit,
      (pending_of_session hx').trans hleft, hgone⟩

theorem pending_perform (hw : w.Reached) {c : Call} (hstep : c ≠ .nextNotice s)
    (hclose : c ≠ .close s) : (c.perform w).pending s = w.pending s ++ c.queued w s := by
  obtain ⟨gone, left, hsplit, hleft, hgone⟩ := pending_flow hw c
  have hnone : gone = [] := by
    by_contra hne
    exact (hgone hne).elim hstep hclose
  rw [hleft, hsplit, hnone, List.nil_append]

/-- Where nothing is queued, the queue only loses what stands in front. -/
theorem pending_suffix (hw : w.Reached) {cs : List Call} (hnone : w.queued s cs = []) :
    (w.run cs).pending s <:+ w.pending s := by
  induction cs generalizing w with
  | nil => exact List.suffix_refl _
  | cons c cs ih =>
    rw [queued_cons, List.append_eq_nil_iff] at hnone
    obtain ⟨gone, left, hsplit, hleft, -⟩ := pending_flow hw c
    have hone : (c.perform w).pending s <:+ w.pending s := by
      rw [hleft, hnone.1, List.append_nil, hsplit]
      exact List.suffix_append gone left
    exact (ih (hw.perform c) hnone.2).trans hone

/-- A change that is told is gone from the queue. -/
theorem length_pending_nextNotice {n : Notice} (htold : (w.nextNotice s).1 = some n) :
    ((w.nextNotice s).2.pending s).length < (w.pending s).length := by
  cases hx : w.session? s with
  | none =>
    simp only [nextNotice, hx] at htold
    cases htold
  | some x =>
    obtain ⟨gone, left, hsplit, hnext, hnow⟩ := x.feed.next_splits
    have hgone : gone ≠ [] := by
      rintro rfl
      simp only [nextNotice, hx] at htold
      rw [htold] at hnow
      cases hnow
    have hafter : (w.nextNotice s).2.session? s = some { x with feed := x.feed.next.2 } := by
      show (Call.perform w (.nextNotice s)).session? s = _
      rw [Call.perform_eq]
      exact session?_move_self hx
    rw [pending_of_session hafter, pending_of_session hx, hnext, hsplit, List.length_append]
    exact Nat.lt_add_of_pos_left (List.length_pos_iff.mpr hgone)

end

end World

end ObjectStore
