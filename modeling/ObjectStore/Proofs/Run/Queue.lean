import ObjectStore.Proofs.Run.Observers

/-
  The queue of a session and who is told of it, one call at a time.

  A delivery is a sequence of calls, and an observer that is told of a change may make
  any calls before the next step. So nothing can be said of the delivery alone: what
  stands in the queue, and who is still observing, is followed over every call.

    1. `Call.told` is what observers are told of at a call, `World.told` along calls.
    2. `Call.Shifts`: of the queue, a call takes the front, and what it queues stands at
       the end.
    3. `Call.Fresh`: what a call queues is for observers, and later than all before it.
-/

namespace ObjectStore

/-! ## What is told -/

def Change.generation : Change → Generation
  | .initial _ generation => generation
  | .update changes => changes.generation

namespace Notice

def generation (n : Notice) : Generation := n.change.generation

/-- Whether a notice tells of a difference, not of the view at registration. -/
def IsUpdate (n : Notice) : Prop := ∃ changes, n.change = .update changes

def ofObserver (o : ObserverId) (ns : List Notice) : List Notice := ns.filter (·.observer = o)

end Notice

/-- What observers of a session are told of at a call: the change that a step of a
delivery takes from the queue. -/
def Call.told (w : World) (s : SessionId) : Call → List Notice
  | .nextNotice s' => if s' = s then (w.nextNotice s).1.toList else []
  | _ => []

namespace World

/-- What observers of a session are told of along calls. -/
def told (w : World) (s : SessionId) (cs : List Call) : List Notice :=
  w.along (fun w c => c.told w s) cs

/-- What is queued in a session along calls. -/
def queued (w : World) (s : SessionId) (cs : List Call) : List Notice :=
  w.along (fun w c => c.queued w s) cs

/-- What observers of a session have not been told of. -/
def pending (w : World) (s : SessionId) : List Notice :=
  match w.session? s with
  | some x => x.feed.queue
  | none => []

end World

namespace Call

variable {w : World} {c : Call} {s : SessionId} {x : Session}

theorem told_of_ne (hc : c ≠ .nextNotice s) : c.told w s = [] := by
  cases c with
  | nextNotice s' =>
    rw [told, if_neg]
    rintro rfl
    exact hc rfl
  | _ => rfl

theorem told_of_none (hx : w.session? s = none) : c.told w s = [] := by
  by_cases hc : c = .nextNotice s
  · subst hc
    simp only [told, World.nextNotice, hx, if_true, Option.toList_none]
  · exact told_of_ne hc

theorem queued_of_none (hx : w.session? s = none) : c.queued w s = [] := by
  simp only [queued, hx]

theorem told_nextNotice (hx : w.session? s = some x) :
    (Call.nextNotice s).told w s = x.feed.next.1.toList := by
  simp only [told, if_true, World.nextNotice, hx]

end Call

/-! ## What is left of the queue, and what is new in it -/

namespace Feed

variable {f : Feed} {o : ObserverId}

theorem isActive_iff : f.isActive o = true ↔ ∃ sub ∈ f.subscriptions, sub.id = o := by
  simp only [isActive, List.any_eq_true, beq_iff_eq]

theorem isActive_of_subset {f' : Feed} (hsub : f'.subscriptions ⊆ f.subscriptions)
    (ho : f'.isActive o = true) : f.isActive o = true := by
  obtain ⟨sub, hmem, hid⟩ := isActive_iff.mp ho
  exact isActive_iff.mpr ⟨sub, hsub hmem, hid⟩

theorem noticeOf_eq_some {s : Snapshot} {sub : Subscription} {n : Notice}
    (h : noticeOf s sub = some n) :
    n.observer = sub.id ∧ n.IsUpdate ∧ n.generation = s.generation := by
  simp only [noticeOf] at h
  split at h
  · cases h
  · cases h
    exact ⟨rfl, ⟨_, rfl⟩, rfl⟩

theorem isActive_advance (s : Snapshot) : (f.advance s).isActive o = f.isActive o := by
  simp only [isActive, advance, List.any_map, Function.comp_def]

theorem queue_register (f : Feed) (r : Recipe) (rows : List Row) (g : Generation) :
    (f.register r rows g).2.queue = f.queue ++
      if f.announces then [⟨⟨f.nextId⟩, .initial rows.length g⟩] else [] := rfl

theorem queue_advance (f : Feed) (s : Snapshot) :
    (f.advance s).queue = f.queue ++ f.subscriptions.filterMap (noticeOf s) := rfl

theorem isActive_register {r : Recipe} {rows : List Row} {g : Generation}
    (h : (f.register r rows g).2.isActive o = true) : f.isActive o = true ∨ o = ⟨f.nextId⟩ := by
  simp only [isActive, register, List.any_append, List.any_cons, List.any_nil, Bool.or_false,
    Bool.or_eq_true, beq_iff_eq] at h
  exact h.imp_right Eq.symm

end Feed

/-- What a call leaves of the queue and the observers of a session. -/
structure Call.Shifts (w : World) (c : Call) (s : SessionId) (x x' : Session) : Prop where
  /-- What is told is taken from the front of the queue, and what is new stands at its end.
  Of what is taken, those are told that are observing afterwards. -/
  flow : ∃ gone left, x.feed.queue = gone ++ left ∧ x'.feed.queue = left ++ c.queued w s ∧
    c.told w s = gone.filter (fun n => x'.feed.isActive n.observer) ∧
    (gone ≠ [] → c = .nextNotice s ∨ c = .close s)
  ends : ∀ o, x.feed.isActive o = true →
    x'.feed.isActive o = true ∨ c = .cancelObserver s o ∨ c = .close s
  begins : ∀ o, x'.feed.isActive o = true →
    x.feed.isActive o = true ∨ o = ⟨x.feed.nextId⟩ ∧ x.closed = false
  closed : x.closed = true → x'.closed = true
  closing : x'.closed = true → x.closed = true ∨ ∀ o, x'.feed.isActive o = false
  numbers : x.feed.nextId ≤ x'.feed.nextId
  announces : x'.feed.announces = x.feed.announces
  delivering : x.feed.delivering = true →
    x'.feed.delivering = true ∨ c = .finishDelivery s

/-- What a call puts into the queue of a session. -/
structure Call.Fresh (w : World) (c : Call) (s : SessionId) (x x' : Session) : Prop where
  dated : x.snapshot.generation ≤ x'.snapshot.generation
  /-- What is queued is for an observer, and either a difference to a later generation or
  for an observer that has just been registered. -/
  each : ∀ n ∈ c.queued w s, x'.feed.isActive n.observer = true ∧
    n.generation ≤ x'.snapshot.generation ∧
    (n.IsUpdate ∧ x.snapshot.generation < n.generation ∨ n.observer = ⟨x.feed.nextId⟩)
  apart : (c.queued w s).Pairwise (·.observer ≠ ·.observer)
  updates : x.feed.announces = false → ∀ n ∈ c.queued w s, n.IsUpdate
  initial : x.feed.announces = true → ∀ o, x'.feed.isActive o = true →
    x.feed.isActive o = true ∨ ∃ count g, ⟨o, .initial count g⟩ ∈ c.queued w s

namespace Call

variable {w : World} {c : Call} {s : SessionId} {x x' : Session}

theorem flow_of_append {new : List Notice} (hx : w.session? s = some x)
    (hx' : (c.perform w).session? s = some x') (hc : c ≠ .nextNotice s)
    (hq : x'.feed.queue = x.feed.queue ++ new) :
    c.queued w s = new ∧
      ∃ gone left, x.feed.queue = gone ++ left ∧ x'.feed.queue = left ++ c.queued w s ∧
        c.told w s = gone.filter (fun n => x'.feed.isActive n.observer) ∧
        (gone ≠ [] → c = .nextNotice s ∨ c = .close s) := by
  have hnew : c.queued w s = new := by
    rw [queued_of_session hx hx', hq, List.drop_left]
  refine ⟨hnew, [], x.feed.queue, rfl, ?_, ?_, fun h => absurd rfl h⟩
  · rw [hq, hnew]
  · rw [told_of_ne hc, List.filter_nil]

theorem queued_of_taken (hx : w.session? s = some x)
    (hx' : (c.perform w).session? s = some x')
    (hq : x'.feed.queue.length ≤ x.feed.queue.length) : c.queued w s = [] := by
  rw [queued_of_session hx hx', List.drop_eq_nil_of_le hq]

theorem queued_of_next (hx : w.session? s = some x) (hx' : (c.perform w).session? s = some x')
    (hf : x'.feed = x.feed.next.2) : c.queued w s = [] := by
  obtain ⟨gone, left, hsplit, hnext, -⟩ := x.feed.next_splits
  apply queued_of_taken hx hx'
  rw [hf, hnext, hsplit, List.length_append]
  exact Nat.le_add_left _ _

theorem queued_of_clear (hx : w.session? s = some x) (hx' : (c.perform w).session? s = some x')
    (hf : x'.feed = x.feed.clear) : c.queued w s = [] := by
  apply queued_of_taken hx hx'
  rw [hf]
  exact Nat.zero_le _

theorem Serves.shifts (h : Serves w c s x x') (hx : w.session? s = some x)
    (hx' : (c.perform w).session? s = some x') : Shifts w c s x x' := by
  cases h with
  | stays keep delivering hs hclosed hf hkeep hend hc =>
    have hq : x'.feed.queue = x.feed.queue ++ [] := by rw [hf, List.append_nil]
    refine ⟨(flow_of_append hx hx' hc hq).2, fun o ho => ?_, fun o ho => .inl ?_,
      hclosed.trans, fun h => .inl (hclosed.symm.trans h), ?_, ?_, ?_⟩
    · obtain ⟨sub, hsub, rfl⟩ := Feed.isActive_iff.mp ho
      cases hk : keep sub with
      | true =>
        refine .inl (Feed.isActive_iff.mpr ⟨sub, ?_, rfl⟩)
        rw [hf]
        exact List.mem_filter.mpr ⟨hsub, hk⟩
      | false => exact .inr (.inl (hkeep sub hk))
    · rw [hf] at ho
      exact Feed.isActive_of_subset List.filter_sublist.subset ho
    · rw [hf]
    · rw [hf]
    · rw [hf]
      exact hend
  | takes hs hclosed hf hc =>
    have hnone := queued_of_next hx hx' hf
    obtain ⟨gone, left, hsplit, hnext, htold⟩ := x.feed.next_splits
    rw [hnext] at hf
    have hactive (o : ObserverId) : x'.feed.isActive o = x.feed.isActive o := by
      rw [hf, Feed.isActive, Feed.isActive]
    refine ⟨⟨gone, left, hsplit, ?_, ?_, fun _ => .inl hc⟩, fun o ho => ?_, fun o ho => ?_,
      hclosed.trans, fun h => .inl (hclosed.symm.trans h), ?_, ?_, ?_⟩
    · rw [hnone, hf, List.append_nil]
    · simp only [hactive]
      rw [hc, told_nextNotice hx, htold]
    · rw [hactive]
      exact .inl ho
    · rw [hactive] at ho
      exact .inl ho
    · rw [hf]
    · rw [hf]
    · rw [hf]
      exact .inl
  | clears hs hclosed hf hc =>
    have hactive (o : ObserverId) : x'.feed.isActive o = false := by
      rw [hf]
      rfl
    have hnone := queued_of_clear hx hx' hf
    refine ⟨⟨x.feed.queue, [], (List.append_nil _).symm, ?_, ?_, fun _ => .inr hc⟩,
      fun o ho => .inr (.inr hc), fun o ho => ?_, fun _ => hclosed, fun _ => .inr hactive,
      ?_, ?_, ?_⟩
    · rw [hnone, hf]
      rfl
    · simp only [hactive, List.filter_false]
      rw [hc]
      rfl
    · rw [hactive] at ho
      cases ho
    · rw [hf]
      exact Nat.le_refl _
    · rw [hf]
      rfl
    · rw [hf]
      exact .inl
  | registers r he hs hopen hclosed hf hc =>
    have hq := (congrArg Feed.queue hf).trans (Feed.queue_register _ _ _ _)
    refine ⟨(flow_of_append hx hx' hc hq).2, fun o ho => .inl ?_, fun o ho => ?_,
      hclosed.trans, fun h => .inl (hclosed.symm.trans h), ?_, ?_, ?_⟩
    · rw [hf]
      exact Feed.isActive_of_subset (List.subset_append_left _ _) ho
    · rw [hf] at ho
      exact (Feed.isActive_register ho).imp_right fun hid => ⟨hid, hopen⟩
    · rw [hf]
      exact Nat.le_succ _
    · rw [hf]
      rfl
    · rw [hf]
      exact .inl
  | advances hg hclosed hf hc =>
    have hq := (congrArg Feed.queue hf).trans (Feed.queue_advance _ _)
    have hactive (o : ObserverId) : x'.feed.isActive o = x.feed.isActive o := by
      rw [hf, Feed.isActive_advance]
    refine ⟨(flow_of_append hx hx' hc hq).2, fun o ho => .inl ?_, fun o ho => .inl ?_,
      hclosed.trans, fun h => .inl (hclosed.symm.trans h), ?_, ?_, ?_⟩
    · rw [hactive]
      exact ho
    · rw [← hactive]
      exact ho
    · rw [hf]
      exact Nat.le_refl _
    · rw [hf]
      rfl
    · rw [hf]
      exact .inl

theorem Fresh.of_nil (hs : x'.snapshot = x.snapshot) (hq : c.queued w s = [])
    (hactive : ∀ o, x'.feed.isActive o = true → x.feed.isActive o = true) : Fresh w c s x x' := by
  refine ⟨?_, ?_, ?_, ?_, fun _ o ho => .inl (hactive o ho)⟩
  · rw [hs]
  all_goals simp [hq]

theorem Serves.fresh (h : Serves w c s x x') (hx : w.session? s = some x)
    (hx' : (c.perform w).session? s = some x') (hsound : x.feed.Sound x.snapshot) :
    Fresh w c s x x' := by
  have hshifts := h.shifts hx hx'
  cases h with
  | stays keep delivering hs hclosed hf hkeep hend hc =>
    have hq : x'.feed.queue = x.feed.queue ++ [] := by rw [hf, List.append_nil]
    refine .of_nil hs (flow_of_append hx hx' hc hq).1 fun o ho => ?_
    rw [hf] at ho
    exact Feed.isActive_of_subset List.filter_sublist.subset ho
  | takes hs hclosed hf hc =>
    refine .of_nil hs (queued_of_next hx hx' hf) fun o ho => ?_
    obtain ⟨gone, left, -, hnext, -⟩ := x.feed.next_splits
    rw [hf, hnext] at ho
    exact ho
  | clears hs hclosed hf hc =>
    refine .of_nil hs (queued_of_clear hx hx' hf) fun o ho => ?_
    rw [hf] at ho
    cases ho
  | registers r he hs hopen hclosed hf hc =>
    have hq := (congrArg Feed.queue hf).trans (Feed.queue_register _ _ _ _)
    have hnew := (flow_of_append hx hx' hc hq).1
    have hnewest : x'.feed.isActive ⟨x.feed.nextId⟩ = true := by
      rw [hf]
      exact Feed.isActive_iff.mpr ⟨_, List.mem_append_right _ (List.mem_singleton_self _), rfl⟩
    cases ha : x.feed.announces with
    | false =>
      simp only [ha, Bool.false_eq_true, if_false] at hnew
      refine ⟨?_, ?_, ?_, ?_, fun h => by cases h.symm.trans ha⟩
      · rw [hs]
      all_goals simp [hnew]
    | true =>
      simp only [ha, if_true] at hnew
      refine ⟨?_, fun n hn => ?_, ?_, fun h => ?_, fun _ o ho => ?_⟩
      · rw [hs]
      · rw [hnew, List.mem_singleton] at hn
        subst hn
        refine ⟨hnewest, ?_, .inr rfl⟩
        rw [hs]
        exact Nat.le_refl _
      · rw [hnew]
        exact List.pairwise_singleton _ _
      · cases h.symm.trans ha
      · refine (hshifts.begins o ho).imp_right fun ⟨hid, _⟩ => ?_
        subst hid
        rw [hnew]
        exact ⟨_, _, List.mem_singleton_self _⟩
  | advances hg hclosed hf hc =>
    have hq := (congrArg Feed.queue hf).trans (Feed.queue_advance _ _)
    have hnew := (flow_of_append hx hx' hc hq).1
    have hactive (o : ObserverId) : x'.feed.isActive o = x.feed.isActive o := by
      rw [hf, Feed.isActive_advance]
    have hupdate (n : Notice) (hn : n ∈ c.queued w s) : x'.feed.isActive n.observer = true ∧
        n.IsUpdate ∧ n.generation = x'.snapshot.generation := by
      rw [hnew] at hn
      obtain ⟨sub, hsub, hnotice⟩ := List.mem_filterMap.mp hn
      obtain ⟨hid, hupdate, hgen⟩ := Feed.noticeOf_eq_some hnotice
      rw [hactive]
      exact ⟨Feed.isActive_iff.mpr ⟨sub, hsub, hid.symm⟩, hupdate, hgen⟩
    refine ⟨Nat.le_of_lt hg, fun n hn => ?_, ?_, fun _ n hn => (hupdate n hn).2.1,
      fun _ o ho => .inl ?_⟩
    · obtain ⟨hobserving, hdifference, hgen⟩ := hupdate n hn
      refine ⟨hobserving, Nat.le_of_eq hgen, .inl ⟨hdifference, ?_⟩⟩
      rw [hgen]
      exact hg
    · -- observers have different numbers, and each gets one notice at most
      rw [hnew, List.pairwise_filterMap]
      refine (List.pairwise_map.mp hsound.distinct).imp fun hne n hn n' hn' heq => hne ?_
      rw [← (Feed.noticeOf_eq_some hn).1, heq, (Feed.noticeOf_eq_some hn').1]
    · rw [← hactive]
      exact ho

theorem shifts_perform (ho : w.Orderly) (hh : w.Heard) (hx : w.session? s = some x) (c : Call) :
    ∃ x', (c.perform w).session? s = some x' ∧ Shifts w c s x x' ∧ Fresh w c s x x' := by
  obtain ⟨x', hx', hserves⟩ := serves_perform ho hx c
  exact ⟨x', hx', hserves.shifts hx hx', hserves.fresh hx hx' (hh s x hx)⟩

end Call

end ObjectStore
