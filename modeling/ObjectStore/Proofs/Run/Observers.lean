import Mathlib.Data.List.Induction
import ObjectStore.Proofs.Change.Replay
import ObjectStore.Proofs.Run.Serving

/-
  What observers are told.

  The changes queued for an observer lead from the rows that its view had at
  registration to the rows that it has now. A session moves to another snapshot in
  three ways, and an observer may be registered in the middle of a write, so what is
  queued at each moment has to join without a gap: every view is evaluated on what the
  session has committed, and on nothing else.

    1. `Call.Hears` is all that one call can do to the observers of a session.
    2. `Feed.Sound`: every observer remembers its view as it is. `World.heard_run`.
    3. `World.updates` are the change sets queued for an observer along calls,
       `World.advances` the generations that its session moves to.
    4. `World.notifications_replay`: replayed, (3) lead from the rows at registration to
       the rows as they are.
-/

namespace ObjectStore

/-! ## What is queued -/

/-- The change set of a notice for an observer. -/
def Notice.update? (o : ObserverId) (n : Notice) : Option ChangeSet :=
  match n.change with
  | .update c => if n.observer = o then some c else none
  | .initial _ _ => none

namespace Call

/-- The notices that a call queues in a session. -/
def queued (w : World) (s : SessionId) (c : Call) : List Notice :=
  match w.session? s, (c.perform w).session? s with
  | some x, some x' => x'.feed.queue.drop x.feed.queue.length
  | _, _ => []

/-- The generation that a session moves to at a call. -/
def advance (w : World) (s : SessionId) (c : Call) : List Generation :=
  match w.session? s, (c.perform w).session? s with
  | some x, some x' =>
    if x'.snapshot.generation = x.snapshot.generation then [] else [x'.snapshot.generation]
  | _, _ => []

end Call

namespace World

/-- The change sets queued for an observer along calls. -/
def updates (w : World) (s : SessionId) (o : ObserverId) (cs : List Call) : List ChangeSet :=
  w.along (fun w c => (c.queued w s).filterMap (Notice.update? o)) cs

/-- The generations that a session moves to along calls. -/
def advances (w : World) (s : SessionId) (cs : List Call) : List Generation :=
  w.along (fun w c => c.advance w s) cs

end World

/-! ## What one call can do -/

/-- What a call can do to the snapshot and the observers of a session. -/
inductive Call.Hears (w : World) (c : Call) (s : SessionId) (x x' : Session) : Prop
  /-- Some of the observers end, and nothing is queued. -/
  | stays (keep : Subscription → Bool) (hs : x'.snapshot = x.snapshot)
    (hsub : x'.feed.subscriptions = x.feed.subscriptions.filter keep)
    (hq : x'.feed.queue.length ≤ x.feed.queue.length) (hn : x'.feed.nextId = x.feed.nextId)
  /-- A view is observed. -/
  | registers (r : Recipe) (he : c.effect w = .move s (.subscribe r))
    (hs : x'.snapshot = x.snapshot)
    (hf : x'.feed =
      (x.feed.register r (r.rowsOrNone x.snapshot) x.snapshot.generation).2)
  /-- The session moves to a later snapshot. -/
  | advances (hg : x.snapshot.generation < x'.snapshot.generation)
    (hf : x'.feed = x.feed.advance x'.snapshot)

namespace Call

variable {w : World} {c : Call} {s : SessionId} {x x' : Session}

theorem Serves.hears (h : Serves w c s x x') : Hears w c s x x' := by
  cases h with
  | stays keep delivering hs hclosed hf =>
    refine .stays keep hs ?_ ?_ ?_
    · rw [hf]
    · rw [hf]
    · rw [hf]
  | takes hs hclosed hf =>
    obtain ⟨gone, left, hsplit, hnext, -⟩ := x.feed.next_splits
    rw [hnext] at hf
    refine .stays (fun _ => true) hs ?_ ?_ ?_
    · rw [hf, List.filter_true]
    · rw [hf, hsplit, List.length_append]
      exact Nat.le_add_left _ _
    · rw [hf]
  | clears hs hclosed hf =>
    refine .stays (fun _ => false) hs ?_ ?_ ?_
    · rw [hf, List.filter_false]
      rfl
    · rw [hf]
      exact Nat.zero_le _
    · rw [hf]
      rfl
  | registers r he hs hopen hclosed hf => exact .registers r he hs hf
  | advances hg hclosed hf => exact .advances hg hf

theorem hears_perform (ho : w.Orderly) (hx : w.session? s = some x) (c : Call) :
    ∃ x', (c.perform w).session? s = some x' ∧ Hears w c s x x' := by
  obtain ⟨x', hx', hserves⟩ := serves_perform ho hx c
  exact ⟨x', hx', hserves.hears⟩

theorem queued_of_session (hx : w.session? s = some x)
    (hx' : (c.perform w).session? s = some x') :
    c.queued w s = x'.feed.queue.drop x.feed.queue.length := by
  simp only [queued, hx, hx']

theorem advance_of_eq (hx : w.session? s = some x) (hx' : (c.perform w).session? s = some x')
    (hg : x'.snapshot.generation = x.snapshot.generation) : c.advance w s = [] := by
  simp only [advance, hx, hx', hg, if_true]

theorem advance_of_lt (hx : w.session? s = some x) (hx' : (c.perform w).session? s = some x')
    (hg : x.snapshot.generation < x'.snapshot.generation) :
    c.advance w s = [x'.snapshot.generation] := by
  simp only [advance, hx, hx', Nat.ne_of_gt hg, if_false]

end Call

/-! ## What observers remember -/

/-- Every observer has its own number, and remembers its view as it is in a snapshot. -/
structure Feed.Sound (f : Feed) (snapshot : Snapshot) : Prop where
  distinct : (f.subscriptions.map (·.id)).Nodup
  numbered : ∀ sub ∈ f.subscriptions, sub.id.val < f.nextId
  current : ∀ sub ∈ f.subscriptions, sub.last = Trace.ofRows (sub.recipe.rowsOrNone snapshot)

namespace Feed

variable {f : Feed} {snapshot : Snapshot}

theorem sound_empty (announces : Bool) (snapshot : Snapshot) :
    (Feed.empty announces).Sound snapshot := by
  refine ⟨List.nodup_nil, ?_, ?_⟩
  · intro sub hsub
    cases hsub
  · intro sub hsub
    cases hsub

theorem Sound.filter {f' : Feed} (h : f.Sound snapshot) {keep : Subscription → Bool}
    (hsub : f'.subscriptions = f.subscriptions.filter keep) (hn : f'.nextId = f.nextId) :
    f'.Sound snapshot := by
  refine ⟨?_, fun sub hm => ?_, fun sub hm => ?_⟩
  · rw [hsub]
    exact h.distinct.sublist (List.filter_sublist.map _)
  · rw [hsub] at hm
    rw [hn]
    exact h.numbered sub (List.mem_filter.mp hm).1
  · rw [hsub] at hm
    exact h.current sub (List.mem_filter.mp hm).1

theorem Sound.register (h : f.Sound snapshot) (r : Recipe) (g : Generation) :
    (f.register r (r.rowsOrNone snapshot) g).2.Sound snapshot := by
  refine ⟨?_, fun sub hm => ?_, fun sub hm => ?_⟩
  · simp only [Feed.register, List.map_append, List.map_cons, List.map_nil]
    rw [List.nodup_append]
    refine ⟨h.distinct, List.nodup_singleton _, fun id hid id' hid' heq => ?_⟩
    obtain ⟨sub, hsub, rfl⟩ := List.mem_map.mp hid
    rw [List.mem_singleton.mp hid'] at heq
    have hlt := h.numbered sub hsub
    rw [heq] at hlt
    exact Nat.lt_irrefl _ hlt
  · rcases List.mem_append.mp hm with hm | hm
    · exact Nat.lt_succ_of_lt (h.numbered sub hm)
    · rw [List.mem_singleton.mp hm]
      exact Nat.lt_succ_self _
  · rcases List.mem_append.mp hm with hm | hm
    · exact h.current sub hm
    · rw [List.mem_singleton.mp hm]

theorem Sound.advance (h : f.Sound snapshot) (s : Snapshot) : (f.advance s).Sound s := by
  refine ⟨?_, fun sub hm => ?_, fun sub hm => ?_⟩
  · simp only [Feed.advance, List.map_map]
    exact h.distinct
  · obtain ⟨old, hold, rfl⟩ := List.mem_map.mp hm
    exact h.numbered old hold
  · obtain ⟨old, hold, rfl⟩ := List.mem_map.mp hm
    rfl

end Feed

namespace World

/-- The observers of all sessions remember their views as they are. -/
def Heard (w : World) : Prop := ∀ s x, w.session? s = some x → x.feed.Sound x.snapshot

theorem heard_perform {w : World} (ho : w.Orderly) (h : w.Heard) (c : Call) :
    (c.perform w).Heard := by
  intro s x' hx'
  cases hx : w.session? s with
  | none =>
    obtain ⟨t, d, rfl⟩ := session?_perform_of_none c hx hx'
    exact Feed.sound_empty _ _
  | some x =>
    obtain ⟨y, hy, hears⟩ := Call.hears_perform ho hx c
    obtain rfl := Option.some.inj (hx'.symm.trans hy)
    have hsound := h s x hx
    cases hears with
    | stays keep hs hsub hq hn =>
      rw [hs]
      exact hsound.filter hsub hn
    | registers r he hs hf =>
      rw [hs, hf]
      exact hsound.register r _
    | advances hg hf =>
      rw [hf]
      exact hsound.advance _

theorem Heard.run {w : World} (ho : w.Orderly) (h : w.Heard) (cs : List Call) :
    (w.run cs).Heard := by
  induction cs generalizing w with
  | nil => exact h
  | cons c cs ih => exact ih (orderly_perform ho c) (heard_perform ho h c)

/-- After any calls the observers of all sessions remember their views as they are. -/
theorem heard_run (cs : List Call) : (World.empty.run cs).Heard :=
  Heard.run orderly_empty (fun s x hx => by cases hx) cs

end World

/-! ## What one call queues for an observer -/

namespace Feed

/-- What an observer is told of an advance: the differences, if there are any. -/
def update (s : Snapshot) (sub : Subscription) : Option ChangeSet :=
  let changes := ChangeSet.between sub.last (traceIn s sub) s.generation
  if changes.isEmpty then none else some changes

theorem update?_of_noticeOf (s : Snapshot) (sub : Subscription) (o : ObserverId) :
    (noticeOf s sub).bind (Notice.update? o) = if sub.id = o then update s sub else none := by
  simp only [noticeOf, update]
  cases (ChangeSet.between sub.last (traceIn s sub) s.generation).isEmpty with
  | true => simp only [if_true, Option.bind_none, ite_self]
  | false => simp only [Bool.false_eq_true, if_false, Option.bind_some, Notice.update?]

theorem updates_of_notices {subs : List Subscription} (hd : (subs.map (·.id)).Nodup)
    {sub : Subscription} (hsub : sub ∈ subs) (s : Snapshot) :
    (subs.filterMap (noticeOf s)).filterMap (Notice.update? sub.id) = (update s sub).toList := by
  rw [List.filterMap_filterMap]
  simp only [update?_of_noticeOf]
  induction subs with
  | nil => cases hsub
  | cons a as ih =>
    rw [List.map_cons, List.nodup_cons] at hd
    obtain ⟨hnew, hd⟩ := hd
    rcases List.mem_cons.mp hsub with rfl | hsub
    · have hrest : as.filterMap (fun a => if a.id = sub.id then update s a else none) = [] := by
        rw [List.filterMap_eq_nil_iff]
        intro a ha
        have hne : a.id ≠ sub.id := fun heq => hnew (heq ▸ List.mem_map_of_mem ha)
        simp only [hne, if_false]
      rw [List.filterMap_cons]
      simp only [if_true, hrest]
      cases update s sub <;> rfl
    · have hne : a.id ≠ sub.id := fun heq => hnew (heq ▸ List.mem_map_of_mem hsub)
      rw [List.filterMap_cons]
      simp only [hne, if_false]
      exact ih hd hsub

end Feed

namespace Call

variable {w : World} {s : SessionId} {x x' : Session} {sub' : Subscription}

/-- An observer after a call was registered by it, or was there before with the same
view. In this case what the call queues for it leads from what it remembered to what it
remembers now, and the call queues something only when it moves the session. -/
theorem hears_subscription {c : Call} (hh : Hears w c s x x') (hx : w.session? s = some x)
    (hx' : (c.perform w).session? s = some x') (hsound : x.feed.Sound x.snapshot)
    (hsub' : sub' ∈ x'.feed.subscriptions) :
    (c.effect w = .move s (.subscribe sub'.recipe) ∧ sub'.id = ⟨x.feed.nextId⟩) ∨
      ∃ sub ∈ x.feed.subscriptions, sub.id = sub'.id ∧ sub.recipe = sub'.recipe ∧
        let updates := (c.queued w s).filterMap (Notice.update? sub'.id)
        ChangeSet.Chained sub.last.ids.toFinset updates ∧
        ChangeSet.replayAll sub.last.ids.toFinset updates = sub'.last.ids.toFinset ∧
        (updates.map (·.generation)).Sublist (c.advance w s) := by
  rw [queued_of_session hx hx']
  have hquiet {sub : Subscription} (hsub : sub ∈ x.feed.subscriptions) (hid : sub = sub')
      {updates : List ChangeSet} (hu : updates = []) : ∃ sub ∈ x.feed.subscriptions,
        sub.id = sub'.id ∧ sub.recipe = sub'.recipe ∧
        ChangeSet.Chained sub.last.ids.toFinset updates ∧
        ChangeSet.replayAll sub.last.ids.toFinset updates = sub'.last.ids.toFinset ∧
        (updates.map (·.generation)).Sublist (c.advance w s) := by
    subst hid hu
    exact ⟨sub, hsub, rfl, rfl, trivial, rfl, List.nil_sublist _⟩
  cases hh with
  | stays keep hs hsub hq hn =>
    rw [hsub] at hsub'
    refine .inr (hquiet (List.mem_filter.mp hsub').1 rfl ?_)
    rw [List.drop_eq_nil_of_le hq, List.filterMap_nil]
  | registers r he hs hf =>
    -- at most the first notice of the new observer is queued, which is no change set
    rw [hf] at hsub' ⊢
    rcases List.mem_append.mp hsub' with hsub' | hsub'
    · refine .inr (hquiet hsub' rfl ?_)
      simp only [Feed.register, List.drop_left]
      split <;> rfl
    · rw [List.mem_singleton.mp hsub']
      exact .inl ⟨he, rfl⟩
  | advances hg hf =>
    rw [hf] at hsub' ⊢
    obtain ⟨sub, hsub, rfl⟩ := List.mem_map.mp hsub'
    refine .inr ⟨sub, hsub, rfl, rfl, ?_⟩
    simp only [Feed.advance, List.drop_left]
    rw [Feed.updates_of_notices hsound.distinct hsub, advance_of_lt hx hx' hg, Feed.update]
    cases hempty : (ChangeSet.between sub.last (Feed.traceIn x'.snapshot sub)
        x'.snapshot.generation).isEmpty with
    | true =>
      simp only [if_true, Option.toList_none, List.map_nil]
      exact ⟨trivial, (ChangeSet.ids_of_isEmpty hempty).symm, List.nil_sublist _⟩
    | false =>
      simp only [Bool.false_eq_true, if_false, Option.toList_some, List.map_cons, List.map_nil]
      exact ⟨⟨ChangeSet.fits_between hempty, trivial⟩, ChangeSet.replay_between _ _ _,
        List.Sublist.refl _⟩

theorem queued_of_unpublished {c : Call} {s₁ : SessionId} {m : Move}
    (h : c.effect w = .none ∨ c.effect w = .move s₁ m) (hm : m = .drop ∨ ∃ e, m = .write e)
    (s : SessionId) : c.queued w s = [] := by
  cases hx : w.session? s with
  | none => simp only [queued, hx]
  | some x =>
    have hfeed : ∃ x', (c.perform w).session? s = some x' ∧ x'.feed = x.feed := by
      rcases World.session?_perform_of_some c hx with ⟨m', he, hself⟩ | ⟨hsame, -⟩
      · refine ⟨_, hself, ?_⟩
        rcases h with h | h
        · rw [h] at he
          cases he
        · rw [h] at he
          cases he
          rcases hm with rfl | ⟨e, rfl⟩ <;> rfl
      · exact ⟨x, hsame, rfl⟩
    obtain ⟨x', hx', hf⟩ := hfeed
    rw [queued_of_session hx hx', hf, List.drop_length]

theorem observe_of_effect {c : Call} {r : Recipe} (h : c.effect w = .move s (.subscribe r))
    (hx : w.session? s = some x) :
    ∃ t v, c = .observe t v ∧ v.recipe = r ∧ (v.observe w t).1 = .ok (s, ⟨x.feed.nextId⟩) := by
  cases c with
  | openDatabase schema announces => cases h
  | openSession t d => cases h
  | begin t s' =>
    simp only [effect] at h
    split at h
    · cases (World.of_entering h hx).1
    · cases h
  | grant s' => cases (World.of_entering h hx).1
  | commit t s' => rcases (World.of_publishing h hx).1 with hm | hm <;> cases hm
  | cancel t s' => cases (World.of_dropping h hx).1
  | leave t s' outcome =>
    cases outcome with
    | ok u => rcases (World.of_publishing h hx).1 with hm | hm <;> cases hm
    | error e =>
      simp only [effect] at h
      split at h
      · cases h
      · cases (World.of_dropping h hx).1
  | refresh t s' => cases (World.of_forwarding h hx).1
  | resolve t s' token =>
    simp only [effect] at h
    split at h
    · split at h
      · cases (World.of_forwarding h hx).1
      · cases h
    · cases h
  | close s' =>
    simp only [effect] at h
    split at h
    · split at h <;> cases h
    · cases h
  | create t s' className fields =>
    simp only [effect] at h
    split at h
    · split at h
      · cases (World.of_writing h hx).1
      · cases h
    · cases h
  | delete t s' key => cases (World.of_writing h hx).1
  | setValue t s' key property v => cases (World.of_writing h hx).1
  | elements t c e =>
    cases c with
    | unattached kind vs => cases h
    | bound binding c =>
      cases binding with
      | frozen snapshot => cases h
      | live s' => cases (World.of_writing h hx).1
  | assign t s' key property values =>
    simp only [effect] at h
    split at h
    · cases (World.of_writing h hx).1
    · cases h
  | observe t v =>
    simp only [effect] at h
    split at h
    · rename_i s' rows hbinding hrows
      cases hg : w.gate t s' with
      | error e =>
        rw [World.asked_error hg] at h
        cases h
      | ok y =>
        rw [World.asked_ok hg] at h
        cases h
        obtain rfl := Option.some.inj (hx.symm.trans (World.gate_eq_ok.mp hg).1)
        refine ⟨t, v, rfl, rfl, ?_⟩
        rcases hr : v.rows w t with ⟨read, v'⟩
        rw [hr] at hrows
        simp only at hrows
        simp only [Results.observe, hbinding, hr, hrows, hg, Feed.register]
    · cases h
  | cancelObserver s' o => cases h
  | startDelivery t s' =>
    obtain ⟨y, -, -, hm⟩ := World.of_asked h
    split at hm <;> cases hm
  | nextNotice s' => cases h
  | finishDelivery s' => cases h

end Call

namespace World

/-! ## Along a run -/

theorem advances_increase {w : World} (ho : w.Orderly) {s : SessionId} {x : Session}
    (hx : w.session? s = some x) (cs : List Call) :
    (∀ g ∈ w.advances s cs, x.snapshot.generation < g) ∧
      (w.advances s cs).Pairwise (· < ·) := by
  induction cs generalizing w x with
  | nil =>
    refine ⟨fun g hg => ?_, List.Pairwise.nil⟩
    cases hg
  | cons c cs ih =>
    obtain ⟨x', hx', hears⟩ := Call.hears_perform ho hx c
    obtain ⟨hlater, hincrease⟩ := ih (orderly_perform ho c) hx'
    have hsame (hs : x'.snapshot = x.snapshot) :
        (∀ g ∈ w.advances s (c :: cs), x.snapshot.generation < g) ∧
          (w.advances s (c :: cs)).Pairwise (· < ·) := by
      rw [advances, along, Call.advance_of_eq hx hx' (by rw [hs]), ← hs]
      exact ⟨hlater, hincrease⟩
    cases hears with
    | stays keep hs hsub hq hn => exact hsame hs
    | registers r he hs hf => exact hsame hs
    | advances hg hf =>
      rw [advances, along, Call.advance_of_lt hx hx' hg]
      refine ⟨fun g hmem => ?_, List.pairwise_cons.mpr ⟨hlater, hincrease⟩⟩
      rcases List.mem_cons.mp hmem with rfl | hmem
      · exact hg
      · exact Nat.lt_trans hg (hlater g hmem)

/-- What is queued for an observer along calls leads from some names to others: each
change set fits the names after those before it, each is of another move of the
session, and their generations grow. -/
structure Replays (w : World) (s : SessionId) (o : ObserverId) (cs : List Call)
    (before after : Finset ElementId) : Prop where
  chained : ChangeSet.Chained before (w.updates s o cs)
  leads : ChangeSet.replayAll before (w.updates s o cs) = after
  moves : ((w.updates s o cs).map (·.generation)).Sublist (w.advances s cs)
  increase : ((w.updates s o cs).map (·.generation)).Pairwise (· < ·)

theorem Replays.nil (w : World) (s : SessionId) (o : ObserverId) (ids : Finset ElementId) :
    w.Replays s o [] ids ids :=
  ⟨trivial, rfl, List.Sublist.refl _, List.Pairwise.nil⟩

theorem Replays.snoc {w : World} (ho : w.Orderly) {s : SessionId} {x₀ : Session}
    (hx₀ : w.session? s = some x₀) {o : ObserverId} {cs : List Call}
    {before middle after : Finset ElementId} (h : w.Replays s o cs before middle) {c : Call}
    {told : List ChangeSet}
    (htold : told = (c.queued (w.run cs) s).filterMap (Notice.update? o))
    (hchained : ChangeSet.Chained middle told)
    (hleads : ChangeSet.replayAll middle told = after)
    (hmoves : (told.map (·.generation)).Sublist (c.advance (w.run cs) s)) :
    w.Replays s o (cs ++ [c]) before after := by
  have hsplit : w.updates s o (cs ++ [c]) = w.updates s o cs ++ told := by
    rw [updates, along_snoc, ← updates, htold]
  have hmoves' : ((w.updates s o (cs ++ [c])).map (·.generation)).Sublist
      (w.advances s (cs ++ [c])) := by
    rw [hsplit, List.map_append, advances, along_snoc, ← advances]
    exact h.moves.append hmoves
  refine ⟨?_, ?_, hmoves', (advances_increase ho hx₀ _).2.sublist hmoves'⟩
  · rw [hsplit, ChangeSet.chained_append, h.leads]
    exact ⟨h.chained, hchained⟩
  · rw [hsplit, ChangeSet.replayAll_append, h.leads, hleads]

/-- Every observer was registered by an observation of its view. What was queued for it
since leads from the rows that the view had then to those that it has now. -/
theorem replays_run (cs : List Call) {s : SessionId} {x : Session} {sub : Subscription}
    (hx : (empty.run cs).session? s = some x) (hsub : sub ∈ x.feed.subscriptions) :
    ∃ before t v since x₀, cs = before ++ .observe t v :: since ∧
      (v.observe (empty.run before) t).1 = .ok (s, sub.id) ∧ v.recipe = sub.recipe ∧
      (empty.run (before ++ [.observe t v])).session? s = some x₀ ∧
      (empty.run (before ++ [.observe t v])).Replays s sub.id since
        (Trace.ofRows (sub.recipe.rowsOrNone x₀.snapshot)).ids.toFinset sub.last.ids.toFinset := by
  induction cs using List.reverseRecOn generalizing x sub with
  | nil => cases hx
  | append_singleton cs c ih =>
    -- by the last call: it registers the observer, or what it queues goes on from what
    -- the observer remembered before it
    have ho := orderly_run cs
    have hheard := heard_run (cs ++ [c]) s x hx
    rw [run_snoc] at hx
    cases hy : (empty.run cs).session? s with
    | none =>
      obtain ⟨t, d, rfl⟩ := session?_perform_of_none c hy hx
      cases hsub
    | some y =>
      obtain ⟨x', hx', hears⟩ := Call.hears_perform ho hy c
      obtain rfl := Option.some.inj (hx.symm.trans hx')
      rcases Call.hears_subscription hears hy hx (heard_run cs s y hy) hsub with
        ⟨he, hid⟩ | ⟨old, hold, hid, hrecipe, hchained, hleads, hmoves⟩
      · obtain ⟨t, v, rfl, hrecipe, hanswer⟩ := Call.observe_of_effect he hy
        refine ⟨cs, t, v, [], x, rfl, by rw [hid]; exact hanswer, hrecipe, ?_, ?_⟩
        · rw [run_snoc]
          exact hx
        · rw [← hheard.current sub hsub]
          exact .nil _ _ _ _
      · obtain ⟨before, t, v, since, x₀, hcs, hanswer, hview, hx₀, hreplays⟩ := ih hy hold
        have hrun : (empty.run (before ++ [.observe t v])).run since = empty.run cs := by
          rw [hcs, ← run_append, List.append_assoc]
          rfl
        refine ⟨before, t, v, since ++ [c], x₀, ?_, by rw [← hid]; exact hanswer,
          hview.trans hrecipe, hx₀, ?_⟩
        · rw [hcs, List.append_assoc]
          rfl
        · rw [hid, hrecipe] at hreplays
          refine hreplays.snoc (orderly_run _) hx₀ ?_ hchained hleads ?_
          · rw [hrun]
          · rw [hrun]
            exact hmoves

/--
Observers miss nothing and are told nothing twice. Whatever calls are made, from
whatever threads and in whatever order:

1. What an observer remembers are the rows that its view has in what its session has
   committed, with their revisions; a view of a container whose owner is gone has none.
2. The observer was registered by an observation of its view, and the change sets queued
   for it since lead from the names of the rows that the view had then to the names of
   those that it has now. `World.Replays` says what these change sets are like.
3. A write in progress queues nothing for anyone, and neither does a write that is
   abandoned, alone or at the end of an operation that has failed.
-/
theorem notifications_replay (cs : List Call) :
    let w := empty.run cs
    (∀ s x sub, w.session? s = some x → sub ∈ x.feed.subscriptions →
      sub.last = Trace.ofRows (sub.recipe.rowsOrNone x.snapshot) ∧
      ∃ before t v since x₀, cs = before ++ .observe t v :: since ∧
        (v.observe (empty.run before) t).1 = .ok (s, sub.id) ∧ v.recipe = sub.recipe ∧
        (empty.run (before ++ [.observe t v])).session? s = some x₀ ∧
        (empty.run (before ++ [.observe t v])).Replays s sub.id since
          (Trace.ofRows (sub.recipe.rowsOrNone x₀.snapshot)).ids.toFinset
          (Trace.ofRows (sub.recipe.rowsOrNone x.snapshot)).ids.toFinset) ∧
    (∀ (c : Call) s₁ e, c.effect w = .move s₁ (.write e) → ∀ s, c.queued w s = []) ∧
    (∀ t s₁ s, (Call.cancel t s₁).queued w s = []) ∧
    (∀ t s₁ e s, (Call.leave t s₁ (.error e)).queued w s = []) := by
  intro w
  have hdropped (t : Thread) (s₁ : SessionId) :
      w.asked t s₁ (fun _ => .move s₁ .drop) = .none ∨
        w.asked t s₁ (fun _ => .move s₁ .drop) = .move s₁ .drop := by
    cases hg : w.gate t s₁ with
    | error e => exact .inl (asked_error hg)
    | ok x => exact .inr (asked_ok hg)
  refine ⟨fun s x sub hx hsub => ?_, fun c s₁ e he => ?_, fun t s₁ => ?_, fun t s₁ e => ?_⟩
  · have hcurrent := (heard_run cs s x hx).current sub hsub
    refine ⟨hcurrent, ?_⟩
    rw [← hcurrent]
    exact replays_run cs hx hsub
  · exact Call.queued_of_unpublished (.inr he) (.inr ⟨e, rfl⟩)
  · exact Call.queued_of_unpublished (hdropped t s₁) (.inl rfl)
  · have heffect : (Call.leave t s₁ (.error e)).effect w = .none ∨
        (Call.leave t s₁ (.error e)).effect w = .move s₁ .drop := by
      simp only [Call.effect]
      split
      · exact .inl rfl
      · exact hdropped t s₁
    exact Call.queued_of_unpublished heffect (.inl rfl)

/-- An observer registered in a write is told of what this write commits, and of nothing
that is cancelled. -/
example :
    let dogs : Results := .ofRecipe (.live ⟨0⟩) (.ofSource (.objects "Dog"))
    ((empty.run [.openDatabase ⟨[⟨"Dog", []⟩]⟩ false, .openSession 0 ⟨0⟩, .begin 0 ⟨0⟩,
        .create 0 ⟨0⟩ "Dog" [], .observe 0 dogs]).updates ⟨0⟩ ⟨1⟩
      [.commit 0 ⟨0⟩, .begin 0 ⟨0⟩, .delete 0 ⟨0⟩ ⟨1⟩, .cancel 0 ⟨0⟩, .begin 0 ⟨0⟩,
        .create 0 ⟨0⟩ "Dog" [], .commit 0 ⟨0⟩]).map (fun c => (c.generation, c.inserted)) =
      [(1, [.object ⟨1⟩]), (2, [.object ⟨2⟩])] := by
  rfl

end World

end ObjectStore
