import ObjectStore.Collection.Handover
import ObjectStore.Proofs.Run.Chronicle
import ObjectStore.Proofs.Schema.Accepted

/-
  What a handle on a list or set stands for.

  A handle names its owner by key. Keys are counted in the working copy of a write, so
  when a write is abandoned its keys are handed out again. As long as the session never
  goes back to before the owner's key was handed out (`World.Abandoned`), the handle
  stands for the object that it was made for and for nothing else.

    1. `Chronicle.Kept`: a session sees under a key nothing but the object of one call.
    2. `Chronicle.Lost`: nobody sees an object of this call or an earlier one there.
    3. `Chronicle.kept_or_lost`: it is (1) up to the moment at which a write is
       abandoned, and (2) from then on.
    4. `handle_identity`: a live handle stands for its first owner exactly if no write
       was abandoned in this way; then it has the kind that is declared.
    5. `handle_comes_back`: after a write was abandoned, a handle that is invalidated
       becomes live again, on an object of another class.
-/

namespace ObjectStore

/-- Outside a write, a session reads a snapshot from before a key was handed out. -/
def World.Abandoned (w : World) (s : SessionId) (key : ObjectKey) : Prop :=
  ∃ x, w.session? s = some x ∧ x.batch = none ∧ x.snapshot.nextKey < key.val

theorem Session.view_congr {x x' : Session} (hs : x'.snapshot = x.snapshot)
    (hb : x'.batch = x.batch) : x'.view = x.view := by
  rw [view, hb, hs, view]

theorem Session.view_of_none {x : Session} (hb : x.batch = none) : x.view = x.snapshot := by
  simp only [view, hb]

theorem Session.view_of_batch {x : Session} {b : Batch} (hb : x.batch = some b) :
    x.view = b.view := by
  simp only [view, hb]

namespace Chronicle

/-- Under a key that was handed out a session sees nothing but the object that one call
made, which is of one class. -/
structure Kept (h : Chronicle) (s : SessionId) (key : ObjectKey) (maker : Nat)
    (className : String) (x : Session) : Prop where
  session : h.world.session? s = some x
  handedOut : key.val ≤ x.view.nextKey
  number : h.number s x key = maker
  seen : ∀ e, x.view.entity? key = some e → e.className = className
  stored : ∀ e, x.snapshot.entity? key = some e → e.className = className

/-- Whatever is seen or stored under a key in a database was made after some call. -/
structure Lost (h : Chronicle) (d : DatabaseId) (key : ObjectKey) (maker : Nat) : Prop where
  latest : (h.world.database d).engine.latest.contains key = true →
    maker < h.committed d (h.world.database d).engine.latest.generation key
  stored : ∀ s x, h.world.session? s = some x → x.database = d →
    x.snapshot.contains key = true → maker < h.committed d x.snapshot.generation key
  seen : ∀ s x, h.world.session? s = some x → x.database = d →
    x.view.contains key = true → maker < h.number s x key

variable {h h' : Chronicle} {s : SessionId} {x x' : Session} {key : ObjectKey} {maker : Nat}
  {className : String}

theorem kept_turn (hs : h.Sound) (hk : h.Kept s key maker className x)
    (hx' : h'.world.session? s = some x') (hd : x.database = x'.database)
    (ht : Turn h h' s x x') :
    h'.Kept s key maker className x' ∨
      (∃ b, x.batch = some b) ∧ x'.batch = none ∧ x'.snapshot = x.snapshot ∧
        Quiet h h' x.database ∧ (h'.world.database x.database).engine.busy = false ∧
        x.snapshot.nextKey < key.val := by
  have ho := hs.orderly
  have hfits := ho.fits s x hk.session
  have hlatest := hfits.precedes.continues
  -- the key was handed out, so the numbers agree with those of the latest snapshot
  obtain ⟨-, -, hagree⟩ := hs.at hk.session key
  -- what the latest snapshot has under the key, outside of a write
  have hmoves (hb : x.batch = none) (e : Entity)
      (he : (h.world.database x.database).engine.latest.entity? key = some e) :
      e.className = className := by
    have hhanded := hk.handedOut
    rw [Session.view_of_none hb] at hhanded
    obtain ⟨e', he', hc⟩ := hlatest.earlier hhanded he
    rw [← hc]
    exact hk.stored e' he'
  cases ht with
  | still hsn hb hn hq =>
    have hview : x'.view = x.view := Session.view_congr hsn hb
    have hnum := (numbers_still ho hk.session hd hsn hb hn hq key).2
    exact .inl ⟨hx', by rw [hview]; exact hk.handedOut, hnum.trans hk.number,
      by rw [hview]; exact hk.seen, by rw [hsn]; exact hk.stored⟩
  | enter hsn hb hb' hn hq =>
    have hhanded := hk.handedOut
    rw [Session.view_of_none hb] at hhanded
    have hview : x'.view = (h.world.database x.database).engine.latest := Session.view_of_batch hb'
    refine .inl ⟨hx', ?_, ?_, ?_, ?_⟩
    · rw [hview]
      exact Nat.le_trans hhanded hlatest.nextKey_le
    · rw [number_of_batch hb', hn, ← (hagree hhanded).2, hk.number]
    · rw [hview]
      exact hmoves hb
    · rw [hsn]
      exact hmoves hb
  | write b e hsn hb hb' hn hq =>
    have hhanded := hk.handedOut
    rw [Session.view_of_batch hb] at hhanded
    have hkeyed : b.view.Keyed := (hfits.held b hb).2.2.keyed (ho.keyed x.database)
    have hcontinues := (e.apply_steps (h.world.database x.database).schema b).continues hkeyed
    have hview := Session.view_of_batch hb'
    refine .inl ⟨hx', ?_, ?_, fun y hy => ?_, by rw [hsn]; exact hk.stored⟩
    · rw [hview]
      exact Nat.le_trans hhanded hcontinues.nextKey_le
    · rw [number_of_batch hb', hn, written_of_le hkeyed hhanded, ← hk.number, number_of_batch hb]
    · rw [hview] at hy
      obtain ⟨z, hz, hc⟩ := hcontinues.earlier hhanded hy
      rw [← hc]
      exact hk.seen z (by rw [Session.view_of_batch hb]; exact hz)
  | publish b hsn hb' hp =>
    have hview : x'.view = b.published := (Session.view_of_none hb').trans hsn
    have hseen (y : Entity) (hy : b.published.entity? key = some y) : y.className = className :=
      hk.seen y (by rw [Session.view_of_batch hp.2.1]; exact hy)
    refine .inl ⟨hx', ?_, ?_, ?_, ?_⟩
    · rw [hview]
      have hhanded := hk.handedOut
      rw [Session.view_of_batch hp.2.1] at hhanded
      exact hhanded
    · rw [number_of_none hb', ← hd, hsn, ← hp.2.2.1, hp.committed_latest, ← hk.number,
        number_of_batch hp.2.1]
    · rw [hview]
      exact hseen
    · rw [hsn]
      exact hseen
  | drop hsn hb' hq hf =>
    have hview : x'.view = x.snapshot := (Session.view_of_none hb').trans hsn
    -- was the key handed out in the write that ends here, or before it?
    rcases Nat.lt_or_ge x.snapshot.nextKey key.val with hlt | hle
    · cases hb : x.batch with
      | none =>
        have hhanded := hk.handedOut
        rw [Session.view_of_none hb] at hhanded
        exact absurd hhanded (Nat.not_le_of_lt hlt)
      | some b => exact .inr ⟨⟨b, rfl⟩, hb', hsn, hq, hf (by rw [hb]; rfl), hlt⟩
    · refine .inl ⟨hx', ?_, ?_, ?_, ?_⟩
      · rw [hview]
        exact hle
      · rw [number_of_none hb', ← hd, hsn, hq.2, (hagree hle).1, ← (hagree hle).2, hk.number]
      · rw [hview]
        exact hk.stored
      · rw [hsn]
        exact hk.stored
  | forward hsn hb hb' hq =>
    have hhanded := hk.handedOut
    rw [Session.view_of_none hb] at hhanded
    have hview : x'.view = (h.world.database x.database).engine.latest :=
      (Session.view_of_none hb').trans hsn
    refine .inl ⟨hx', ?_, ?_, ?_, ?_⟩
    · rw [hview]
      exact Nat.le_trans hhanded hlatest.nextKey_le
    · rw [number_of_none hb', ← hd, hsn, hq.2, ← (hagree hhanded).2, hk.number]
    · rw [hview]
      exact hmoves hb
    · rw [hsn]
      exact hmoves hb

theorem lost_of_lt {d : DatabaseId} (ho : h.world.Orderly)
    (hlt : (h.world.database d).engine.latest.nextKey < key.val)
    (hfree : (h.world.database d).engine.busy = false) : h.Lost d key maker := by
  have hstored {s : SessionId} {x : Session} (hx : h.world.session? s = some x)
      (hd : x.database = d) : x.snapshot.contains key = false := by
    refine Bool.eq_false_iff.mpr fun hc => ?_
    have hfits := ho.fits s x hx
    rw [hd] at hfits
    have hle := Nat.le_trans (hfits.keyed.le_of_contains hc) hfits.precedes.continues.nextKey_le
    exact absurd hle (Nat.not_le_of_lt hlt)
  refine ⟨fun hc => ?_, fun s x hx hd hc => ?_, fun s x hx hd hc => ?_⟩
  · exact absurd ((ho.keyed d).le_of_contains hc) (Nat.not_le_of_lt hlt)
  · rw [hstored hx hd] at hc
    cases hc
  · have hnone : x.batch = none := by
      cases hb : x.batch with
      | none => rfl
      | some b =>
        have hbusy := ((ho.fits s x hx).held b hb).1
        rw [hd, hfree] at hbusy
        cases hbusy
    rw [Session.view_of_none hnone, hstored hx hd] at hc
    cases hc

/-- What is lost is lost in every session after a call: under the key it has only what is
made later. -/
theorem lost_session {d : DatabaseId} (hs : h.Sound) (hm : maker ≤ h.calls)
    (hl : h.Lost d key maker) (c : Call) (hx' : (h.perform c).world.session? s = some x')
    (hd' : x'.database = d) :
    (x'.snapshot.contains key = true →
      maker < (h.perform c).committed d x'.snapshot.generation key) ∧
    (x'.view.contains key = true → maker < (h.perform c).number s x' key) := by
  have ho := hs.orderly
  -- a session outside a write sees what is stored
  have hsame (hb' : x'.batch = none) (hstored : x'.snapshot.contains key = true →
      maker < (h.perform c).committed d x'.snapshot.generation key) :
      (x'.snapshot.contains key = true →
        maker < (h.perform c).committed d x'.snapshot.generation key) ∧
      (x'.view.contains key = true → maker < (h.perform c).number s x' key) := by
    rw [Session.view_of_none hb', number_of_none hb', hd']
    exact ⟨hstored, hstored⟩
  rcases turn_perform ho c hx' with ⟨x, hx, hd, -, ht⟩ | ⟨-, hb', hlatest, hq⟩
  · have hdx := hd.trans hd'
    cases ht with
    | still hsn hb hn hq =>
      obtain ⟨hcommitted, hnum⟩ := numbers_still ho hx hd hsn hb hn hq key
      have hview : x'.view = x.view := Session.view_congr hsn hb
      rw [hview, hnum, hsn, ← hdx, hcommitted, hdx]
      exact ⟨hl.stored s x hx hdx, hl.seen s x hx hdx⟩
    | enter hsn hb hb' hn hq =>
      rw [hdx] at hsn hb' hn hq
      rw [Session.view_of_batch hb', number_of_batch hb', hn, hsn, hq.2]
      exact ⟨hl.latest, hl.latest⟩
    | write b e hsn hb hb' hn hq =>
      rw [Session.view_of_batch hb', number_of_batch hb', hn, hsn, ← hdx, hq.2, hdx]
      refine ⟨hl.stored s x hx hdx, fun hc => ?_⟩
      have hseen := hl.seen s x hx hdx
      rw [Session.view_of_batch hb, number_of_batch hb] at hseen
      unfold written
      cases hold : b.view.contains key with
      | true =>
        simp only [Bool.not_true, Bool.and_false, Bool.false_eq_true, if_false]
        exact hseen hold
      | false =>
        -- what appears now is made by this call, which is later than `maker`
        simp only [hc, Bool.not_false, Bool.and_true, if_true, calls_perform]
        exact Nat.lt_succ_of_le hm
    | publish b hsn hb' hp =>
      refine hsame hb' fun hc => ?_
      rw [hsn, ← hp.2.2.1, ← hdx, hp.committed_latest, ← number_of_batch hp.2.1]
      refine hl.seen s x hx hdx ?_
      rw [Session.view_of_batch hp.2.1]
      rw [hsn] at hc
      exact hc
    | drop hsn hb' hq _ =>
      refine hsame hb' ?_
      rw [hsn, ← hdx, hq.2, hdx]
      exact hl.stored s x hx hdx
    | forward hsn hb hb' hq =>
      refine hsame hb' ?_
      rw [hdx] at hsn hq
      rw [hsn, hq.2]
      exact hl.latest
  · refine hsame hb' ?_
    rw [hd'] at hlatest hq
    rw [hlatest, hq.2]
    exact hl.latest

theorem lost_perform {d : DatabaseId} (hs : h.Sound) (hm : maker ≤ h.calls)
    (hl : h.Lost d key maker) (c : Call) : (h.perform c).Lost d key maker := by
  refine ⟨?_, fun s x' hx' hd' => (lost_session hs hm hl c hx' hd').1,
    fun s x' hx' hd' => (lost_session hs hm hl c hx' hd').2⟩
  rcases database_perform hs.orderly c d with ⟨hlatest, hn⟩ | ⟨s, x, b, rfl, hp⟩
  · rw [hlatest, hn]
    exact hl.latest
  · rw [hp.committed_latest, hp.2.2.1, ← number_of_batch hp.2.1]
    intro hc
    refine hl.seen s x hp.1 rfl ?_
    rw [Session.view_of_batch hp.2.1]
    exact hc

theorem Lost.run {d : DatabaseId} (hs : h.Sound) (hm : maker ≤ h.calls)
    (hl : h.Lost d key maker) (cs : List Call) : (h.run cs).Lost d key maker := by
  induction cs generalizing h with
  | nil => exact hl
  | cons c cs ih =>
    refine ih (sound_perform hs c) ?_ (lost_perform hs hm hl c)
    rw [calls_perform]
    exact Nat.le_succ_of_le hm

/-! ## Along a run -/

theorem Kept.not_abandoned (hk : h.Kept s key maker className x) :
    ¬h.world.Abandoned s key := by
  rintro ⟨y, hy, hb, hlt⟩
  obtain rfl := Option.some.inj (hk.session.symm.trans hy)
  have hle := hk.handedOut
  rw [Session.view_of_none hb] at hle
  exact Nat.not_lt_of_le hle hlt

theorem turn_of_session (ho : h.world.Orderly) (c : Call) (hx : h.world.session? s = some x) :
    ∃ x', (h.perform c).world.session? s = some x' ∧ x.database = x'.database ∧
      (x.closed = true → x'.closed = true) ∧ Turn h (h.perform c) s x x' := by
  obtain ⟨x', hx', -⟩ := World.session?_perform c hx
  rw [← world_perform] at hx'
  rcases turn_perform ho c hx' with ⟨y, hy, hd, hc, ht⟩ | ⟨hnone, -⟩
  · obtain rfl := Option.some.inj (hx.symm.trans hy)
    exact ⟨x', hx', hd, hc, ht⟩
  · rw [hx] at hnone
    cases hnone

/-- Up to the moment at which the write that handed out a key is abandoned, a session
sees under it nothing but the object of one call; from then on, only what is made later. -/
theorem kept_or_lost (hs : h.Sound) (hk : h.Kept s key maker className x) (cs : List Call) :
    (∀ more, more <+: cs → ¬(h.run more).world.Abandoned s key) ∧
        (∃ x', x'.database = x.database ∧ (h.run cs).Kept s key maker className x') ∨
      (∃ more, more <+: cs ∧ (h.run more).world.Abandoned s key) ∧
        (h.run cs).Lost x.database key maker := by
  induction cs generalizing h x with
  | nil =>
    refine .inl ⟨fun more hmore => ?_, x, rfl, hk⟩
    rw [List.prefix_nil.mp hmore]
    exact hk.not_abandoned
  | cons c cs ih =>
    have hs' := sound_perform hs c
    obtain ⟨x', hx', hd, -, ht⟩ := turn_of_session hs.orderly c hk.session
    rcases kept_turn hs hk hx' hd ht with hk' | ⟨⟨b, hb⟩, hb', hsn, hq, hfree, hlt⟩
    · rw [hd]
      rcases ih hs' hk' with ⟨hnever, hkept⟩ | ⟨⟨more, hmore, habandoned⟩, hlost⟩
      · refine .inl ⟨fun more hmore => ?_, hkept⟩
        rcases List.prefix_cons_iff.mp hmore with rfl | ⟨more', rfl, hmore'⟩
        · exact hk.not_abandoned
        · exact hnever more' hmore'
      · exact .inr ⟨⟨c :: more, (List.prefix_cons_inj c).mpr hmore, habandoned⟩, hlost⟩
    -- the write is abandoned: nobody has the key now, and the next to get it comes later
    · have hmaker : maker ≤ (h.perform c).calls := by
        rw [calls_perform, ← hk.number]
        exact Nat.le_succ_of_le (hs.number_le s x hk.session key)
      have hlatest : ((h.perform c).world.database x.database).engine.latest.nextKey < key.val := by
        rw [hq.1, ← ((hs.orderly.fits s x hk.session).held b hb).2.1]
        exact hlt
      refine .inr ⟨⟨[c], (List.prefix_cons_inj c).mpr (List.nil_prefix), x', hx', hb', ?_⟩,
        (lost_of_lt hs'.orderly hlatest hfree).run hs' hmaker cs⟩
      rw [hsn]
      exact hlt

/-- A session for which the object of a key is gone for good: it is closed, or the key was
handed out in what it reads, and nothing is there. -/
def Gone (h : Chronicle) (s : SessionId) (key : ObjectKey) : Prop :=
  ∃ x, h.world.session? s = some x ∧ (x.closed = true ∨ key.val ≤ x.snapshot.nextKey ∧
    x.snapshot.contains key = false ∧ x.view.contains key = false)

theorem contains_of_earlier {before after : Snapshot} (hc : before.Continues after)
    (hk : key.val ≤ before.nextKey) (hb : before.contains key = false) :
    after.contains key = false := by
  refine Bool.eq_false_iff.mpr fun ha => ?_
  obtain ⟨e', he'⟩ := Snapshot.contains_iff.mp ha
  obtain ⟨e, he, -⟩ := hc.earlier hk he'
  rw [Snapshot.contains_iff.mpr ⟨e, he⟩] at hb
  cases hb

theorem gone_perform (hs : h.Sound) (hg : h.Gone s key) (c : Call) : (h.perform c).Gone s key := by
  have ho := hs.orderly
  obtain ⟨x, hx, hgone⟩ := hg
  obtain ⟨x', hx', -, hclosed, ht⟩ := turn_of_session ho c hx
  refine ⟨x', hx', ?_⟩
  rcases hgone with hc | ⟨hk, hstored, hseen⟩
  · exact .inl (hclosed hc)
  · refine .inr ?_
    have hlatest := (ho.fits s x hx).precedes.continues
    have hgone := contains_of_earlier hlatest hk hstored
    have hk' := Nat.le_trans hk hlatest.nextKey_le
    cases ht with
    | still hsn hb hn hq =>
      have hview : x'.view = x.view := Session.view_congr hsn hb
      rw [hsn, hview]
      exact ⟨hk, hstored, hseen⟩
    | enter hsn hb hb' hn hq =>
      rw [Session.view_of_batch hb', hsn]
      exact ⟨hk', hgone, hgone⟩
    | write b e hsn hb hb' hn hq =>
      obtain ⟨-, hsnapshot, hsteps⟩ := (ho.fits s x hx).held b hb
      have hkeyed : b.view.Keyed := hsteps.keyed (ho.keyed x.database)
      have hcontinues := (e.apply_steps (h.world.database x.database).schema b).continues hkeyed
      rw [Session.view_of_batch hb] at hseen
      rw [Session.view_of_batch hb', hsn]
      refine ⟨hk, hstored, contains_of_earlier hcontinues ?_ hseen⟩
      exact Nat.le_trans hk' (hsteps.nextKey_le (ho.keyed x.database))
    | publish b hsn hb' hp =>
      have hsteps := ((ho.fits s x hx).held b hp.2.1).2.2
      rw [Session.view_of_batch hp.2.1] at hseen
      rw [Session.view_of_none hb', hsn]
      exact ⟨Nat.le_trans hk' (hsteps.nextKey_le (ho.keyed x.database)), hseen, hseen⟩
    | drop hsn hb' hq _ =>
      rw [Session.view_of_none hb', hsn]
      exact ⟨hk, hstored, hstored⟩
    | forward hsn hb hb' hq =>
      rw [Session.view_of_none hb', hsn]
      exact ⟨hk', hgone, hgone⟩

theorem Gone.run (hs : h.Sound) (hg : h.Gone s key) (cs : List Call) : (h.run cs).Gone s key := by
  induction cs generalizing h with
  | nil => exact hg
  | cons c cs ih => exact ih (sound_perform hs c) (gone_perform hs hg c)

end Chronicle

/-! ## Handles -/

namespace World

/-- The live handles that a session gives out: on a property of an object that it sees,
or for a token. -/
inductive Gives (w : World) (s : SessionId) (c : Container) : Prop
  | collection (t : Thread) (key : ObjectKey) (property : String)
    (h : w.collection t s key property = .ok (.bound (.live s) c))
  | handover (t : Thread) (token : HandoverToken)
    (h : w.locate t s token = .ok (some (.bound (.live s) c)))

/-- The owner is there, and its class declares the property with exactly this kind. -/
def Declares (w : World) (s : SessionId) (c : Container) : Prop :=
  ∃ x e p, w.session? s = some x ∧ x.view.entity? c.key.owner = some e ∧
    (w.schemaOf s).property e.className c.key.property = .ok p ∧ p.kind = c.kind

variable {w : World} {s : SessionId} {c : Container}

theorem of_read {α : Type} {t : Thread} {f : Snapshot → Nat → Except Error α} {a : α}
    (h : w.read t s f = .ok a) :
    ∃ x, w.session? s = some x ∧ f x.view x.version = .ok a := by
  unfold read at h
  split at h
  · cases h
  · rename_i x hg
    exact ⟨x, (gate_eq_ok.mp hg).1, h⟩

theorem Gives.declares (h : w.Gives s c) : w.Declares s c := by
  cases h with
  | collection t key property h =>
    obtain ⟨kind, hread, h⟩ := ok_of_bind h
    obtain ⟨x, hx, hread⟩ := of_read hread
    split at hread
    · cases hread
    · rename_i e he
      cases hp : (w.schemaOf s).property e.className property with
      | error err =>
        rw [hp] at hread
        cases hread
      | ok p =>
        rw [hp] at hread
        cases hread
        split at h
        · cases h
        · cases h
          exact ⟨x, e, p, hx, he, hp, rfl⟩
  | handover t token h =>
    unfold locate at h
    split at h
    · cases h
    · cases h
    · rename_i e hread
      obtain ⟨x, hx, hread⟩ := of_read hread
      obtain ⟨p, hp, h⟩ := ok_of_bind h
      split at h
      · cases h
      · cases h
        exact ⟨x, e, p, hx, Except.ok.inj hread, hp, rfl⟩

theorem state_eq_live : (Collection.bound (.live s) c).state w = .live ↔
    ∃ x, w.session? s = some x ∧ x.closed = false ∧ x.view.contains c.key.owner = true := by
  simp only [Collection.state, peek]
  cases hx : w.session? s with
  | none => simp
  | some x =>
    cases hc : x.closed with
    | true => simp [hc]
    | false =>
      cases hv : x.view.contains c.key.owner with
      | true => simp [hv, hc]
      | false => simp [hc, hv]

theorem Orderly.keyed_view (h : w.Orderly) {x : Session} (hx : w.session? s = some x) :
    x.view.Keyed := by
  have hfits := h.fits s x hx
  cases hb : x.batch with
  | none =>
    rw [Session.view_of_none hb]
    exact hfits.keyed
  | some b =>
    rw [Session.view_of_batch hb]
    exact (hfits.held b hb).2.2.keyed (h.keyed x.database)

end World

namespace Chronicle

theorem kept_of_seen {h : Chronicle} (hs : h.Sound) {s : SessionId} {x : Session}
    (hx : h.world.session? s = some x) {key : ObjectKey} {e : Entity}
    (he : x.view.entity? key = some e) : h.Kept s key (h.number s x key) e.className x := by
  have ho := hs.orderly
  have hfits := ho.fits s x hx
  refine ⟨hx, (ho.keyed_view hx).le_of_contains (Snapshot.contains_iff.mpr ⟨e, he⟩), rfl,
    fun y hy => ?_, fun y hy => ?_⟩
  · obtain rfl := Option.some.inj (he.symm.trans hy)
    rfl
  · cases hb : x.batch with
    | none =>
      rw [Session.view_of_none hb] at he
      obtain rfl := Option.some.inj (he.symm.trans hy)
      rfl
    | some b =>
      obtain ⟨-, hsnapshot, hsteps⟩ := hfits.held b hb
      rw [Session.view_of_batch hb] at he
      have hk := hfits.keyed.le_of_contains (Snapshot.contains_iff.mpr ⟨y, hy⟩)
      rw [hsnapshot] at hy hk
      obtain ⟨z, hz, hc⟩ := (hsteps.continues (ho.keyed x.database)).earlier hk he
      obtain rfl := Option.some.inj (hy.symm.trans hz)
      exact hc

theorem maker?_of_seen {h : Chronicle} {s : SessionId} {x : Session}
    (hx : h.world.session? s = some x) {key : ObjectKey} (hc : x.view.contains key = true) :
    h.maker? s key = some (h.number s x key) := by
  simp only [maker?, hx, hc, if_true]

/-- What a session sees under a key is still of the same call exactly if the write that
handed out the key was not abandoned. -/
theorem number_eq_iff {h : Chronicle} (hs : h.Sound) {s : SessionId} {x x' : Session}
    {key : ObjectKey} {maker : Nat} {className : String} (hk : h.Kept s key maker className x)
    {cs : List Call} (hx' : (h.run cs).world.session? s = some x')
    (hc : x'.view.contains key = true) :
    (h.run cs).number s x' key = h.number s x key ↔
      ∀ more, more <+: cs → ¬(h.run more).world.Abandoned s key := by
  rw [hk.number]
  rcases kept_or_lost hs hk cs with ⟨hnever, y, -, hkept⟩ | ⟨⟨more, hmore, habandoned⟩, hlost⟩
  · obtain rfl := Option.some.inj (hkept.session.symm.trans hx')
    exact ⟨fun _ => hnever, fun _ => hkept.number⟩
  · constructor
    · intro heq
      obtain ⟨y, hy, hd⟩ := World.session?_run hk.session cs
      rw [← world_run] at hy
      obtain rfl := Option.some.inj (hx'.symm.trans hy)
      have hlater := hlost.seen s x' hx' hd hc
      rw [heq] at hlater
      exact absurd hlater (Nat.lt_irrefl _)
    · intro hnever
      exact absurd habandoned (hnever more hmore)

theorem className_of_never {h : Chronicle} (hs : h.Sound) {s : SessionId} {x x' : Session}
    {key : ObjectKey} {maker : Nat} {className : String} (hk : h.Kept s key maker className x)
    {cs : List Call} (hx' : (h.run cs).world.session? s = some x') {e : Entity}
    (he : x'.view.entity? key = some e)
    (hnever : ∀ more, more <+: cs → ¬(h.run more).world.Abandoned s key) :
    e.className = className := by
  rcases kept_or_lost hs hk cs with ⟨-, y, -, hkept⟩ | ⟨⟨more, hmore, habandoned⟩, -⟩
  · obtain rfl := Option.some.inj (hkept.session.symm.trans hx')
    exact hkept.seen e he
  · exact absurd habandoned (hnever more hmore)

/-- A session outside a write that does not see an object, but sees one under its key
later, is back before the key was handed out. -/
theorem abandoned_of_unseen {h : Chronicle} (hs : h.Sound) {s : SessionId} {x x' : Session}
    {key : ObjectKey} (hx : h.world.session? s = some x) (hb : x.batch = none)
    (hunseen : x.closed = true ∨ x.view.contains key = false) {cs : List Call}
    (hx' : (h.run cs).world.session? s = some x') (hopen : x'.closed = false)
    (hc : x'.view.contains key = true) : h.world.Abandoned s key := by
  by_contra hnot
  have hk : key.val ≤ x.snapshot.nextKey :=
    Nat.le_of_not_lt fun hlt => hnot ⟨x, hx, hb, hlt⟩
  -- the owner was removed, not forgotten, so it is gone for good
  have hgone : h.Gone s key := by
    refine ⟨x, hx, ?_⟩
    rcases hunseen with hclosed | hunseen
    · exact .inl hclosed
    · refine .inr ⟨hk, ?_, hunseen⟩
      rwa [Session.view_of_none hb] at hunseen
  obtain ⟨y, hy, hstill⟩ := hgone.run hs cs
  obtain rfl := Option.some.inj (hx'.symm.trans hy)
  rcases hstill with hclosed | ⟨-, -, hunseen⟩
  · rw [hopen] at hclosed
    cases hclosed
  · rw [hc] at hunseen
    cases hunseen

end Chronicle

open Chronicle in
/--
A handle that is live again, or still, stands for the object that it was made for
exactly if its session was at no moment since outside a write and before the owner's
key was handed out. Then the class of the owner declares the property with exactly the
kind of the handle. And if the handle was invalidated meanwhile, with the session
outside a write, this was such a moment.
-/
theorem handle_identity (cs ds : List Call) (s : SessionId) (c : Container)
    (hgives : (World.empty.run cs).Gives s c)
    (hlive : (Collection.bound (.live s) c).state (World.empty.run (cs ++ ds)) = .live) :
    ((ofRun (cs ++ ds)).maker? s c.key.owner = (ofRun cs).maker? s c.key.owner ↔
      ∀ more, more <+: ds → ¬(World.empty.run (cs ++ more)).Abandoned s c.key.owner) ∧
    ((∀ more, more <+: ds → ¬(World.empty.run (cs ++ more)).Abandoned s c.key.owner) →
      (World.empty.run (cs ++ ds)).Declares s c) ∧
    (∀ more x, more <+: ds → (World.empty.run (cs ++ more)).session? s = some x →
      x.batch = none →
      (Collection.bound (.live s) c).state (World.empty.run (cs ++ more)) = .invalidated →
      (World.empty.run (cs ++ more)).Abandoned s c.key.owner) := by
  have hs := sound_run cs
  have hrun (more : List Call) :
      ((ofRun cs).run more).world = World.empty.run (cs ++ more) := by
    rw [world_run, world_ofRun, World.run_append]
  obtain ⟨x, e, p, hx, he, hp, hkind⟩ := hgives.declares
  obtain ⟨x', hx', hopen, hcontains⟩ := World.state_eq_live.mp hlive
  have hx₀ : (ofRun cs).world.session? s = some x := by rw [world_ofRun]; exact hx
  have hx₁ : ((ofRun cs).run ds).world.session? s = some x' := by rw [hrun]; exact hx'
  have hkept := kept_of_seen hs hx₀ he
  have hmaker := maker?_of_seen hx₀ (Snapshot.contains_iff.mpr ⟨e, he⟩)
  have hmaker' := maker?_of_seen hx₁ hcontains
  have hsame := number_eq_iff hs hkept hx₁ hcontains
  simp only [hrun] at hsame
  refine ⟨?_, fun hnever => ?_, fun more y hmore hy hb hgone => ?_⟩
  · rw [show ofRun (cs ++ ds) = (ofRun cs).run ds from start.run_append cs ds, hmaker, hmaker',
      Option.some.injEq]
    exact hsame
  · obtain ⟨e', he'⟩ := Snapshot.contains_iff.mp hcontains
    have hclass := className_of_never hs hkept hx₁ he' (by simp only [hrun]; exact hnever)
    refine ⟨x', e', p, hx', he', ?_, hkind⟩
    rw [hclass, World.run_append, World.schemaOf_run (World.orderly_run cs) hx]
    exact hp
  · obtain ⟨rest, rfl⟩ := hmore
    have hunseen : y.closed = true ∨ y.view.contains c.key.owner = false := by
      cases hclosed : y.closed with
      | true => exact .inl rfl
      | false =>
        refine .inr (Bool.eq_false_iff.mpr fun hseen => ?_)
        rw [World.state_eq_live.mpr ⟨y, hy, hclosed, hseen⟩] at hgone
        cases hgone
    rw [run_append] at hx₁
    rw [← hrun] at hy ⊢
    exact abandoned_of_unseen (hs.run more) hy hb hunseen hx₁ hopen hcontains

/-! ## A handle that comes back -/

def petSchema : Schema :=
  ⟨[⟨"Dog", [⟨"tags", .list .string⟩]⟩, ⟨"Person", [⟨"notes", .list .integer⟩]⟩]⟩

/-- A write in which a dog is created. -/
def creatingDog : List Call :=
  [.openDatabase petSchema false, .openSession 0 ⟨0⟩, .begin 0 ⟨0⟩, .create 0 ⟨0⟩ "Dog" []]

/-- The write is cancelled, and a person is created in another one. -/
def cancelledForPerson : List Call :=
  [.cancel 0 ⟨0⟩, .begin 0 ⟨0⟩, .create 0 ⟨0⟩ "Person" [], .commit 0 ⟨0⟩]

def dogTags : Container := ⟨⟨⟨1⟩, "tags"⟩, .list .string⟩

/-- The handle is made by the session, and after a commit it stands for the dog still. -/
theorem dog_keeps_tags :
    (World.empty.run creatingDog).Gives ⟨0⟩ dogTags ∧
      (Collection.bound (.live ⟨0⟩) dogTags).state
        (World.empty.run (creatingDog ++ [.commit 0 ⟨0⟩])) = .live ∧
      (World.empty.run (creatingDog ++ [.commit 0 ⟨0⟩])).Declares ⟨0⟩ dogTags := by
  have hgives : (World.empty.run creatingDog).Gives ⟨0⟩ dogTags := .collection 0 ⟨1⟩ "tags" rfl
  have hlive : (Collection.bound (.live ⟨0⟩) dogTags).state
      (World.empty.run (creatingDog ++ [.commit 0 ⟨0⟩])) = .live := rfl
  refine ⟨hgives, hlive, (handle_identity creatingDog _ _ _ hgives hlive).2.1 ?_⟩
  rintro more hmore ⟨x, hx, hb, hlt⟩
  rcases List.prefix_cons_iff.mp hmore with rfl | ⟨rest, rfl, hrest⟩
  · cases hx
    cases hb
  · rw [List.prefix_nil.mp hrest] at hx
    cases hx
    exact absurd hlt (by decide)

/-- After the cancellation the handle on the dog's tags is invalidated, with its session
outside a write. After the commit it is live again, on a person, which has no tags. -/
theorem handle_comes_back :
    let cancelled := World.empty.run (creatingDog ++ [.cancel 0 ⟨0⟩])
    let after := World.empty.run (creatingDog ++ cancelledForPerson)
    (World.empty.run creatingDog).Gives ⟨0⟩ dogTags ∧
      (Collection.bound (.live ⟨0⟩) dogTags).state cancelled = .invalidated ∧
      cancelled.isInWrite ⟨0⟩ = false ∧
      (Collection.bound (.live ⟨0⟩) dogTags).state after = .live ∧
      (Chronicle.ofRun creatingDog).maker? ⟨0⟩ ⟨1⟩ = some 4 ∧
      (Chronicle.ofRun (creatingDog ++ cancelledForPerson)).maker? ⟨0⟩ ⟨1⟩ = some 7 ∧
      ¬after.Declares ⟨0⟩ dogTags := by
  refine ⟨.collection 0 ⟨1⟩ "tags" rfl, rfl, rfl, rfl, rfl, rfl, ?_⟩
  rintro ⟨x, e, p, hx, he, hp, -⟩
  cases hx
  cases he
  cases hp

end ObjectStore
