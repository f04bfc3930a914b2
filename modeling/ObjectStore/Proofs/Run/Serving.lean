import Mathlib.Data.List.Basic
import ObjectStore.Proofs.Run.Writers

/-
  What a call can do to the queue and the observers of a session.

    1. `Move.OnlyBy`: what takes from the queue, ends an observer, or ends a delivery is
       in each case one call and no other.
    2. `Feed.next_splits`: a step of a delivery takes changes from the front of the queue.
    3. `Call.Serves` are the five things that a call can do; `Call.serves_perform`.
-/

namespace ObjectStore

/-! ## Which call it was -/

/-- The calls that a move of a session can come from, where only one can. -/
def Move.OnlyBy (s : SessionId) (c : Call) : Move → Prop
  | .close => c = .close s
  | .unsubscribe o => c = .cancelObserver s o
  | .takeNotice => c = .nextNotice s
  | .endDelivery => c = .finishDelivery s
  | _ => True

theorem Call.onlyBy_of_effect {w : World} {c : Call} {s : SessionId} {x : Session} {m : Move}
    (h : c.effect w = .move s m) (hx : w.session? s = some x) : m.OnlyBy s c := by
  have hpublishing {t : Thread} {s' : SessionId} (h : w.publishing t s' = .move s m) :
      m.OnlyBy s c := by
    obtain ⟨rfl | rfl, -⟩ := World.of_publishing h hx <;> trivial
  have hentering {s' : SessionId} (h : w.entering s' = .move s m) : m.OnlyBy s c := by
    obtain ⟨rfl, -⟩ := World.of_entering h hx
    trivial
  have hdropping {t : Thread} {s' : SessionId}
      (h : w.asked t s' (fun _ => .move s' .drop) = .move s m) : m.OnlyBy s c := by
    obtain ⟨rfl, -⟩ := World.of_dropping h hx
    trivial
  have hforwarding {t : Thread} {s' : SessionId} (h : w.forwarding t s' = .move s m) :
      m.OnlyBy s c := by
    obtain ⟨rfl, -⟩ := World.of_forwarding h hx
    trivial
  have hwriting {t : Thread} {s' : SessionId} {e : Edit} (h : w.writing t s' e = .move s m) :
      m.OnlyBy s c := by
    obtain ⟨rfl, -⟩ := World.of_writing h hx
    trivial
  cases c with
  | openDatabase schema announces => cases h
  | openSession t d => cases h
  | begin t s' =>
    simp only [effect] at h
    split at h
    · exact hentering h
    · cases h
  | grant s' => exact hentering h
  | commit t s' => exact hpublishing h
  | cancel t s' => exact hdropping h
  | leave t s' outcome =>
    cases outcome with
    | ok u => exact hpublishing h
    | error e =>
      simp only [effect] at h
      split at h
      · cases h
      · exact hdropping h
  | refresh t s' => exact hforwarding h
  | resolve t s' token =>
    simp only [effect] at h
    split at h
    · split at h
      · exact hforwarding h
      · cases h
    · cases h
  | close s' =>
    simp only [effect] at h
    split at h
    · split at h <;> cases h
      rfl
    · cases h
  | create t s' className fields =>
    simp only [effect] at h
    split at h
    · split at h
      · exact hwriting h
      · cases h
    · cases h
  | delete t s' key => exact hwriting h
  | setValue t s' key property v => exact hwriting h
  | elements t c e =>
    cases c with
    | unattached kind vs => cases h
    | bound binding c =>
      cases binding with
      | frozen snapshot => cases h
      | live s' => exact hwriting h
  | assign t s' key property values =>
    simp only [effect] at h
    split at h
    · exact hwriting h
    · cases h
  | observe t v =>
    simp only [effect] at h
    split at h
    · obtain ⟨y, -, -, hm⟩ := World.of_asked h
      cases hm
      trivial
    · cases h
  | cancelObserver s' o =>
    cases h
    rfl
  | startDelivery t s' =>
    obtain ⟨y, -, -, hm⟩ := World.of_asked h
    split at hm <;> cases hm
    trivial
  | nextNotice s' =>
    cases h
    rfl
  | finishDelivery s' =>
    cases h
    rfl

/-! ## The next change -/

namespace Feed

variable {active : ObserverId → Bool} {queue : List Notice}

theorem firstActive_eq_some {n : Notice} {left : List Notice}
    (h : firstActive active queue = some (n, left)) :
    ∃ skipped, queue = skipped ++ n :: left ∧ (∀ m ∈ skipped, active m.observer = false) ∧
      active n.observer = true := by
  induction queue with
  | nil => cases h
  | cons m queue ih =>
    rw [firstActive] at h
    split at h
    · rename_i hm
      cases h
      exact ⟨[], rfl, by simp, hm⟩
    · rename_i hm
      obtain ⟨skipped, rfl, hskipped, hn⟩ := ih h
      refine ⟨m :: skipped, rfl, ?_, hn⟩
      simpa only [List.forall_mem_cons] using ⟨Bool.eq_false_iff.mpr hm, hskipped⟩

theorem firstActive_eq_none (h : firstActive active queue = none) :
    ∀ m ∈ queue, active m.observer = false := by
  induction queue with
  | nil => simp
  | cons m queue ih =>
    rw [firstActive] at h
    split at h
    · cases h
    · rename_i hm
      simpa only [List.forall_mem_cons] using ⟨Bool.eq_false_iff.mpr hm, ih h⟩

/-- A step of a delivery takes changes from the front of the queue and tells of the one
among them whose observer is active. -/
theorem next_splits (f : Feed) :
    ∃ gone left, f.queue = gone ++ left ∧ f.next.2 = { f with queue := left } ∧
      f.next.1.toList = gone.filter fun n => f.isActive n.observer := by
  unfold next
  split
  · rename_i n left h
    obtain ⟨skipped, hqueue, hskipped, hn⟩ := firstActive_eq_some h
    refine ⟨skipped ++ [n], left, by simp [hqueue], rfl, ?_⟩
    have hnone : (skipped.filter fun m => f.isActive m.observer) = [] := by
      rw [List.filter_eq_nil_iff]
      intro m hm
      simp only [hskipped m hm, Bool.false_eq_true, not_false_eq_true]
    rw [List.filter_append, hnone, List.nil_append, List.filter_singleton, hn]
    rfl
  · rename_i h
    refine ⟨f.queue, [], (List.append_nil _).symm, rfl, ?_⟩
    symm
    simp only [Option.toList_none, List.filter_eq_nil_iff]
    intro m hm
    simp only [firstActive_eq_none h m hm, Bool.false_eq_true, not_false_eq_true]

theorem next_eq_none {f : Feed} (h : f.next.1 = none) :
    ∀ n ∈ f.queue, f.isActive n.observer = false := by
  apply firstActive_eq_none
  unfold next at h
  split at h
  · cases h
  · assumption

end Feed

/-! ## What a call can do to the queue -/

/-- What a call can do to the queue and the observers of a session. -/
inductive Call.Serves (w : World) (c : Call) (s : SessionId) (x x' : Session) : Prop
  /-- Nothing is queued or taken. Only a cancellation ends an observer, and only the end
  of a delivery ends it. -/
  | stays (keep : Subscription → Bool) (delivering : Bool) (hs : x'.snapshot = x.snapshot)
    (hclosed : x'.closed = x.closed) (hf : x'.feed = { x.feed with
      subscriptions := x.feed.subscriptions.filter keep, delivering := delivering })
    (hkeep : ∀ sub, keep sub = false → c = .cancelObserver s sub.id)
    (hend : x.feed.delivering = true → delivering = true ∨ c = .finishDelivery s)
    (hc : c ≠ .nextNotice s)
  /-- A step of a delivery. -/
  | takes (hs : x'.snapshot = x.snapshot) (hclosed : x'.closed = x.closed)
    (hf : x'.feed = x.feed.next.2) (hc : c = .nextNotice s)
  /-- The session is closed. -/
  | clears (hs : x'.snapshot = x.snapshot) (hclosed : x'.closed = true)
    (hf : x'.feed = x.feed.clear) (hc : c = .close s)
  /-- A view is observed, through an open session. -/
  | registers (r : Recipe) (he : c.effect w = .move s (.subscribe r))
    (hs : x'.snapshot = x.snapshot) (hopen : x.closed = false)
    (hclosed : x'.closed = x.closed)
    (hf : x'.feed = (x.feed.register r (r.rowsOrNone x.snapshot) x.snapshot.generation).2)
    (hc : c ≠ .nextNotice s)
  /-- The session moves to a later snapshot. -/
  | advances (hg : x.snapshot.generation < x'.snapshot.generation)
    (hclosed : x'.closed = x.closed) (hf : x'.feed = x.feed.advance x'.snapshot)
    (hc : c ≠ .nextNotice s)

namespace Call

variable {w : World} {c : Call} {s : SessionId} {x x' : Session}

theorem Serves.of_eq (hs : x'.snapshot = x.snapshot) (hclosed : x'.closed = x.closed)
    (hf : x'.feed = x.feed) (hc : c ≠ .nextNotice s) : Serves w c s x x' := by
  refine .stays (fun _ => true) x.feed.delivering hs hclosed ?_ ?_ Or.inl hc
  · rw [hf, List.filter_eq_self.mpr fun _ _ => rfl]
  · intro sub hsub
    cases hsub

theorem serves_move {m : Move} (ho : w.Orderly) (hx : w.session? s = some x)
    (he : c.effect w = .move s m) :
    Serves w c s x (m.session (w.database x.database).schema
      (w.database x.database).engine.latest x) := by
  have hfits := ho.fits s x hx
  have hm := enabled_of_effect he hx
  have honly := onlyBy_of_effect he hx
  by_cases hc : c = .nextNotice s
  · subst hc
    cases he
    exact .takes rfl rfl rfl rfl
  cases m with
  | enter =>
    -- only generations are compared, and equal ones are of one snapshot
    by_cases hgen : (w.database x.database).engine.latest.generation = x.snapshot.generation
    · refine .of_eq (hfits.precedes.eq_of_generation hgen.symm).symm rfl ?_ hc
      simp only [Move.session, hgen, ne_eq, not_true_eq_false, if_false]
    · refine .advances (Nat.lt_of_le_of_ne hfits.precedes.generation_le (Ne.symm hgen)) rfl ?_ hc
      simp only [Move.session, hgen, ne_eq, not_false_eq_true, if_true]
  | write e => exact .of_eq rfl rfl rfl hc
  | publish =>
    obtain ⟨-, b, hb, -⟩ := hm
    simp only [Move.session, hb]
    refine .advances ?_ rfl rfl hc
    rw [(hfits.held b hb).2.1]
    exact (hfits.held b hb).2.2.generation_published
  | drop => exact .of_eq rfl rfl rfl hc
  | forward =>
    obtain ⟨-, -, hgen⟩ := hm
    exact .advances (Nat.lt_of_le_of_ne hfits.precedes.generation_le (Ne.symm hgen)) rfl rfl hc
  | close => exact .clears rfl rfl rfl honly
  | subscribe r => exact .registers r he rfl hm rfl rfl hc
  | unsubscribe o =>
    refine .stays (·.id != o) x.feed.delivering rfl rfl rfl (fun sub hsub => ?_) Or.inl hc
    simp only [bne_eq_false_iff_eq] at hsub
    rw [hsub]
    exact honly
  | startDelivery =>
    refine .stays (fun _ => true) true rfl rfl ?_ (fun sub hsub => ?_) (fun _ => .inl rfl) hc
    · simp only [Move.session, List.filter_true]
    · cases hsub
  | takeNotice => exact .takes rfl rfl rfl honly
  | endDelivery =>
    refine .stays (fun _ => true) false rfl rfl ?_ (fun sub hsub => ?_) (fun _ => .inr honly) hc
    · simp only [Move.session, Feed.finish, List.filter_true]
    · cases hsub

/-- How a session is served by any call. -/
theorem serves_perform (ho : w.Orderly) (hx : w.session? s = some x) (c : Call) :
    ∃ x', (c.perform w).session? s = some x' ∧ Serves w c s x x' := by
  rcases World.session?_perform_of_some c hx with ⟨m, he, hself⟩ | ⟨hsame, hne⟩
  · exact ⟨_, hself, serves_move ho hx he⟩
  · refine ⟨x, hsame, .of_eq rfl rfl rfl ?_⟩
    rintro rfl
    exact hne .takeNotice rfl

end Call

end ObjectStore
