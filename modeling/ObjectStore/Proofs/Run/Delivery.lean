import ObjectStore.Proofs.Run.Loop

/-
  The discipline of delivery.

  What is queued is queued once and told once, in order and to those who still observe. These are
  facts about all calls (`World.accounts_along`), and a delivery is made of calls, whatever the
  observers do in it. What is special about a delivery is that it leaves nothing behind: its loop
  ends when the queue is found empty.

    1. `World.told_of_cancelled` and `World.told_of_close`: after what nothing is told.
    2. `World.delivers_of_started`: a delivery that has been begun delivers.
    3. `World.delivery_disciplined`: this and `World.whole` for every run.
-/

namespace ObjectStore

open Notice

namespace World

variable {w : World} {s : SessionId}

theorem nextId_of_observe {t : Thread} {v : Results} {o : ObserverId}
    (h : (v.observe w t).1 = .ok (s, o)) :
    ∃ x', (Call.perform w (.observe t v)).session? s = some x' ∧ o.val < x'.feed.nextId := by
  simp only [Results.observe] at h
  cases hb : v.binding with
  | frozen snapshot =>
    rw [hb] at h
    cases h
  | live s' =>
    rw [hb] at h
    rcases hr : v.rows w t with ⟨rows, v'⟩
    rw [hr] at h
    cases rows with
    | error e => cases h
    | ok rows =>
      simp only at h
      cases hg : w.gate t s' with
      | error e =>
        rw [hg] at h
        cases h
      | ok x =>
        rw [hg] at h
        cases h
        have heffect : Call.effect w (.observe t v) = .move s (.subscribe v.recipe) := by
          simp only [Call.effect, hb, hr, asked_ok hg]
        rw [Call.perform_eq, heffect]
        exact ⟨_, session?_move_self (gate_eq_ok.mp hg).1, Nat.lt_succ_self _⟩

/-! ## The discipline -/

theorem observing_of_told {c : Call} {n : Notice} (hn : n ∈ c.told w s) :
    w.isObserving s n.observer = true := by
  by_cases hc : c = .nextNotice s
  · subst hc
    cases hx : w.session? s with
    | none =>
      rw [Call.told_of_none hx] at hn
      cases hn
    | some x =>
      obtain ⟨gone, left, -, -, hnow⟩ := x.feed.next_splits
      rw [Call.told_nextNotice hx, hnow] at hn
      rw [isObserving_of_session hx]
      exact (List.mem_filter.mp hn).2
  · rw [Call.told_of_ne hc] at hn
    cases hn

theorem numbered_along (hw : w.Reached) {x : Session} (hx : w.session? s = some x) {o : ObserverId}
    (hid : o.val < x.feed.nextId) (cs : List Call) :
    ∃ x', (w.run cs).session? s = some x' ∧ o.val < x'.feed.nextId := by
  induction cs generalizing w x with
  | nil => exact ⟨x, hx, hid⟩
  | cons c cs ih =>
    obtain ⟨x', hx', hshifts, -⟩ := hw.shifts hx c
    exact ih (hw.perform c) hx' (Nat.lt_of_lt_of_le hid hshifts.numbers)

theorem told_of_cancelled (hw : w.Reached) {x : Session} (hx : w.session? s = some x)
    {o : ObserverId} (hid : o.val < x.feed.nextId) (cs : List Call) :
    ofObserver o ((Call.perform w (.cancelObserver s o)).told s cs) = [] := by
  have hx' : (Call.perform w (.cancelObserver s o)).session? s =
      some { x with feed := x.feed.cancel o } := by
    rw [Call.perform_eq]
    exact session?_move_self hx
  refine told_of_ended (hw.perform _) hx' ?_ hid cs
  simp [Feed.isActive, Feed.cancel]

theorem told_of_close (hw : w.Reached) {x : Session} (hx : w.session? s = some x)
    (cs : List Call) : (Call.perform w (.close s)).told s cs = [] := by
  obtain ⟨before, hbefore⟩ := hw.perform (.close s)
  have hclosed : ∃ x', (Call.perform w (.close s)).session? s = some x' ∧ x'.closed = true := by
    rw [Call.perform_eq]
    cases hc : x.closed with
    | true =>
      refine ⟨x, ?_, hc⟩
      simp only [Call.effect, hx, hc, if_true, after]
    | false =>
      simp only [Call.effect, hx, hc, Bool.false_eq_true, if_false, after]
      exact ⟨_, session?_move_self hx, rfl⟩
  obtain ⟨x', hx', hclosed⟩ := hclosed
  rw [← hbefore] at hx' ⊢
  exact told_of_closed ⟨before, rfl⟩ hx' hclosed (ended_of_closed before hx' hclosed) cs

/-- What a delivery has done when its loop is over: of what stood in the queue before it and
what was queued `during` the loop, all has been told in the loop, in this order, unless it was
suppressed. -/
structure Delivers (before : List Call) (s : SessionId) (during : List Call) : Prop where
  emptied : ((empty.run (before ++ during)).nextNotice s).1 = none
  order : ((empty.run before).told s during).Sublist
    ((empty.run before).pending s ++ (empty.run before).queued s during)
  all : ∀ n ∈ (empty.run before).pending s ++ (empty.run before).queued s during,
    n ∈ (empty.run before).told s during ∨ empty.Suppressed s (before ++ during) n

theorem delivers_of_started {before loop : List Call} (hd : (empty.run before).IsDelivering s)
    (hloop : Course s .loop (empty.run before) loop) :
    ∃ during, loop = during ++ [.nextNotice s, .finishDelivery s] ∧ Delivers before s during := by
  obtain ⟨x, hx, -⟩ := id hd
  obtain ⟨during, rfl, hnone⟩ := hloop.of_delivering ⟨before, rfl⟩ hd
  obtain ⟨hsub, hall⟩ := told_of_emptied ⟨before, rfl⟩ hx hnone
  rw [← run_append] at hnone
  refine ⟨during, rfl, hnone, hsub, fun n hn => ?_⟩
  exact (hall n hn).imp_right (suppressed_of_ended hn)

/-- What holds of the notices of a session in a run. -/
structure Disciplined (cs : List Call) (s : SessionId) : Prop where
  /-- What is queued is queued once, and it is told once, in the order of the queue. -/
  once : (empty.queued s cs).Nodup ∧ (empty.told s cs).Sublist (empty.queued s cs)
  /-- An observer is told of what was queued for it, in order and without a gap. -/
  order : ∀ o, ofObserver o (empty.told s cs) <+: ofObserver o (empty.queued s cs)
  /-- For one observer, all notices after the first are differences, to later and later
  generations. -/
  before : (empty.queued s cs).Pairwise Notice.Before
  /-- The first one is the view at registration, if the session announces that. -/
  first : ∀ x, (empty.run cs).session? s = some x → Announces cs s x
  /-- Who is told is observing. -/
  observing : ∀ before c after, cs = before ++ c :: after →
    ∀ n ∈ c.told (empty.run before) s, (empty.run before).isObserving s n.observer = true
  /-- An observer that has been cancelled is told of nothing any more. -/
  cancelled : ∀ before t v o middle after,
    cs = before ++ .observe t v :: middle ++ .cancelObserver s o :: after →
    (v.observe (empty.run before) t).1 = .ok (s, o) →
    ofObserver o ((empty.run (before ++ .observe t v :: middle ++ [.cancelObserver s o])).told s
      after) = []
  /-- After a session has been closed nothing is told in it. -/
  closed : ∀ before after, cs = before ++ .close s :: after →
    (∃ x, (empty.run before).session? s = some x) →
    (empty.run (before ++ [.close s])).told s after = []
  /-- No other call than a step of a delivery takes anything from the queue, but for a
  closing, which discards it. -/
  outside : ∀ c : Call, c ≠ .nextNotice s → c ≠ .close s →
    (c.perform (empty.run cs)).pending s = (empty.run cs).pending s ++ c.queued (empty.run cs) s
  /-- A delivery asked for in the middle of another one is refused, changes nothing and
  tells nothing: whatever code an observer runs. -/
  nested : (empty.run cs).IsDelivering s →
    (∀ t, ((empty.run cs).startDelivery t s).1 ≠ .ok true ∧
      ((empty.run cs).startDelivery t s).2 = empty.run cs) ∧
    ∀ deeds, Course s .code (empty.run cs) deeds → (empty.run cs).told s deeds = []
  /-- A delivery that is begun can be gone through, and delivers what was queued before it
  and in it. -/
  pass : ∀ t, ((empty.run cs).startDelivery t s).1 = .ok true →
    let before := cs ++ [.startDelivery t s]
    (∃ loop, Course s .loop (empty.run before) loop) ∧
    ∀ loop, Course s .loop (empty.run before) loop →
      ∃ during, loop = during ++ [.nextNotice s, .finishDelivery s] ∧ Delivers before s during
  /-- A delivery is begun whenever none is under way. With the code of observers it is gone through
  as a whole, and answers how many changes were told. -/
  whole : Whole (empty.run cs) s

/--
Delivery is disciplined. Whatever calls are made, from whatever threads and in whatever
order, and whatever observers do while they are told of something: `World.Disciplined`
says what is told to whom, and when.
-/
theorem delivery_disciplined (cs : List Call) (s : SessionId) : Disciplined cs s := by
  have hreached (cs : List Call) : (empty.run cs).Reached := ⟨cs, rfl⟩
  obtain ⟨hbefore, hsub, horder⟩ := told_in_order cs s
  constructor
  case once => exact ⟨nodup_of_before hbefore, hsub⟩
  case order => exact horder
  case before => exact hbefore
  case first => exact fun x => announces_run cs
  case observing => exact fun before c after _ n => observing_of_told
  case cancelled =>
    intro before t v o middle after _ hanswer
    obtain ⟨x, hx, hid⟩ := nextId_of_observe hanswer
    rw [← run_snoc] at hx
    obtain ⟨x', hx', hid'⟩ := numbered_along (hreached _) hx hid middle
    rw [← run_append, List.append_assoc] at hx'
    rw [run_snoc]
    exact told_of_cancelled (hreached _) hx' hid' after
  case closed =>
    rintro before after - ⟨x, hx⟩
    rw [run_snoc]
    exact told_of_close (hreached before) hx after
  case outside => exact fun c => pending_perform (hreached cs)
  case nested =>
    refine fun hd => ⟨hd.refuses, fun deeds hdeeds => ?_⟩
    exact told_of_notMem (hdeeds.of_delivering (hreached cs) hd).1
  case pass =>
    intro t hstart before
    have hd : (empty.run before).IsDelivering s := by
      rw [run_snoc]
      exact isDelivering_of_started hstart
    exact ⟨exists_loop (hreached before) hd, fun loop hloop => delivers_of_started hd hloop⟩
  case whole => exact World.whole (hreached cs) s

/-- Two observers of all dogs, in a session that announces the view at registration. -/
def observedTwice : List Call :=
  let dogs : Results := .ofRecipe (.live ⟨0⟩) (.ofSource (.objects "Dog"))
  [.openDatabase ⟨[⟨"Dog", []⟩]⟩ true, .openSession 0 ⟨0⟩, .observe 0 dogs, .observe 0 dogs]

/-- The second observer is cancelled, a delivery is asked for, and a dog is committed. -/
def committingDog : List Call :=
  [.cancelObserver ⟨0⟩ ⟨2⟩, .startDelivery 0 ⟨0⟩, .begin 0 ⟨0⟩, .create 0 ⟨0⟩ "Dog" [],
    .commit 0 ⟨0⟩]

/-- Observers that do so when they are told of the view at registration, and keep a record of all
that they are told of. -/
def committing (n : Notice) (x : World × List (ObserverId × Generation)) :
    World × List (ObserverId × Generation) :=
  match n.change with
  | .initial _ _ => (x.1.run committingDog, x.2 ++ [(n.observer, n.generation)])
  | .update _ => (x.1, x.2 ++ [(n.observer, n.generation)])

/-- The second observer is told of nothing, and the first one of the dog in the same delivery. -/
theorem commit_in_delivery_is_told :
    let during : List Call := .nextNotice ⟨0⟩ :: committingDog ++ [.nextNotice ⟨0⟩]
    ((empty.run observedTwice).startDelivery 0 ⟨0⟩).1 = .ok true ∧
    Delivers (observedTwice ++ [.startDelivery 0 ⟨0⟩]) ⟨0⟩ during ∧
    (empty.run observedTwice).deliver 0 ⟨0⟩ committing [] 2 =
      some (.ok 2,
        empty.run (observedTwice ++ .startDelivery 0 ⟨0⟩ :: during ++
          [.nextNotice ⟨0⟩, .finishDelivery ⟨0⟩]),
        [(⟨1⟩, 0), (⟨1⟩, 1)]) := by
  intro during
  have hdisciplined := delivery_disciplined observedTwice ⟨0⟩
  have hstart : ((empty.run observedTwice).startDelivery 0 ⟨0⟩).1 = .ok true := rfl
  obtain ⟨-, hpass⟩ := hdisciplined.pass 0 hstart
  have hcode : Course ⟨0⟩ .code
      ((empty.run (observedTwice ++ [.startDelivery 0 ⟨0⟩])).nextNotice ⟨0⟩).2 committingDog := by
    refine .call ?_ (.refused ?_ (.call ?_ (.call ?_ (.call ?_ .nothing))))
    · simp [Call.IsStep]
    · exact nofun
    all_goals simp [Call.IsStep]
  obtain ⟨during', hsame, hdelivers⟩ :=
    hpass _ (.tell rfl hcode (.tell rfl .nothing (.done rfl)))
  obtain rfl : during = during' := List.append_cancel_right hsame
  obtain ⟨x, hgate, hidle⟩ := (hdisciplined.whole.begins 0).mp hstart
  have htelling : Telling ⟨0⟩ committing
      (((empty.run observedTwice).startDelivery 0 ⟨0⟩).2, []) _ _ :=
    .tell rfl (.tell rfl (.done rfl))
  refine ⟨hstart, hdelivers, (hdisciplined.whole.answer _ _ _ _ _ _).mpr ?_⟩
  exact ⟨.through hgate hidle htelling, fun k hk => Except.ok.inj hk ▸ Nat.le_refl 2⟩

end World

end ObjectStore
