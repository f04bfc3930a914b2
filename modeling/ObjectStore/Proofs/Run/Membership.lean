import ObjectStore.Proofs.Run.Building
import ObjectStore.Proofs.Value.Exact

/-
  Insertion into a set, and membership of it.

  A set has one place for every value in the canonical order, and a value is appended unless
  its place is taken. Whether a value is contained, and which value is removed, goes by exact
  equality instead, like conditions on values. So membership and insertion agree, but for the
  floats for which the two equalities differ. A NaN has a place, and equals nothing. And each
  of the two zeros has a place of its own, and equals the other one.

    1. `Value.any_exactEq_iff`: which values a set contains.
    2. `Value.any_exactEq_takeIn` and `Value.any_exactEq_eraseP`: so after a value was
       appended or removed.
    3. `World.membership_of_sets`: how the two belong together, in every set of a run.
    4. `World.nan_is_not_contained`: they can disagree.
-/

namespace ObjectStore

/-- Without the first member that passes a test there is one left just if two members pass. -/
theorem any_eraseP {α : Type} {p : α → Bool} {xs : List α} (h : xs.Nodup) :
    (xs.eraseP p).any p = true ↔ ∃ x ∈ xs, ∃ y ∈ xs, x ≠ y ∧ p x = true ∧ p y = true := by
  induction xs with
  | nil => simp
  | cons a xs ih =>
    obtain ⟨hnotin, hnodup⟩ := List.nodup_cons.mp h
    rw [List.eraseP_cons]
    cases ha : p a with
    | true =>
      rw [cond_true, List.any_eq_true]
      constructor
      · rintro ⟨x, hx, hpx⟩
        exact ⟨x, List.mem_cons_of_mem a hx, a, List.mem_cons_self, fun h => hnotin (h ▸ hx),
          hpx, ha⟩
      · rintro ⟨x, hx, y, hy, hne, hpx, hpy⟩
        rcases List.mem_cons.mp hx with rfl | hx
        · exact ⟨y, (List.mem_cons.mp hy).resolve_left hne.symm, hpy⟩
        · exact ⟨x, hx, hpx⟩
    | false =>
      rw [cond_false, List.any_cons, ha, Bool.false_or, ih hnodup]
      have hrest {x : α} (hpx : p x = true) : x ∈ a :: xs ↔ x ∈ xs := by
        rw [List.mem_cons, or_iff_right]
        rintro rfl
        simp [ha] at hpx
      constructor
      · rintro ⟨x, hx, y, hy, hne, hpx, hpy⟩
        exact ⟨x, (hrest hpx).mpr hx, y, (hrest hpy).mpr hy, hne, hpx, hpy⟩
      · rintro ⟨x, hx, y, hy, hne, hpx, hpy⟩
        exact ⟨x, (hrest hpx).mp hx, y, (hrest hpy).mp hy, hne, hpx, hpy⟩

namespace Value

variable {u v z : Value} {us : List Value}

/-- The place of a value in the canonical order is taken. -/
def HeldIn (v : Value) (us : List Value) : Prop := ∃ u ∈ us, u.canonicalCompare v = .eq

/-- The zero of the other sign is there. -/
def TwinIn (v : Value) (us : List Value) : Prop := ∃ u ∈ us, u.OppositeZeros v

theorem TwinIn.isNaN (h : v.TwinIn us) : v.isNaN = false := by
  obtain ⟨u, -, hzeros⟩ := h
  exact hzeros.isNaN

theorem heldIn_congr (hus : ∀ u ∈ us, u.WellFormed) (hz : z.WellFormed) (hv : v.WellFormed)
    (hzv : z.canonicalCompare v = .eq) : z.HeldIn us ↔ v.HeldIn us := by
  have hvz : v.canonicalCompare z = .eq := by
    rw [canonicalCompare_swap hz hv, hzv]
    rfl
  constructor
  · rintro ⟨u, hu, huz⟩
    exact ⟨u, hu, canonicalCompare_trans (hus u hu) hz hv huz hzv⟩
  · rintro ⟨u, hu, huv⟩
    exact ⟨u, hu, canonicalCompare_trans (hus u hu) hv hz huv hvz⟩

theorem isFreeIn_eq_false (hus : Ascending id us) (hz : z.WellFormed) :
    z.isFreeIn us = false ↔ z.HeldIn us := by
  have hfound : (∃ i, search (fun x => x.canonicalCompare z) us = .found i) ↔ z.HeldIn us :=
    hus.found_iff hz
  rw [← hfound, isFreeIn]
  cases search (fun x => x.canonicalCompare z) us with
  | found i => exact iff_of_true rfl ⟨i, rfl⟩
  | free i => exact iff_of_false (by simp) (by simp)

theorem canonicalCompare_stored (hv : v.WellFormed) (k : PropertyKind) :
    (k.normalize v.unwrap).WellFormed ∧ (k.normalize v.unwrap).canonicalCompare v = .eq := by
  obtain ⟨hstored, hunwrap⟩ := hv.unwrap.normalize k
  refine ⟨hstored, ?_⟩
  rw [← canonicalCompare_unwrap hstored hv, hunwrap, hv.unwrap_unwrap]
  exact canonicalCompare_self hv.unwrap

/-- One of the values equals another one exactly. -/
theorem any_exactEq_iff (hus : ∀ u ∈ us, u.WellFormed) (hv : v.WellFormed) :
    us.any (fun u => u.exactEq v) = true ↔ v.HeldIn us ∧ v.isNaN = false ∨ v.TwinIn us := by
  have hone {u : Value} (hu : u ∈ us) :
      u.exactEq v = true ↔ u.canonicalCompare v = .eq ∧ v.isNaN = false ∨ u.OppositeZeros v := by
    rw [exactEq_iff (hus u hu) hv]
    refine or_congr_left (and_congr_right fun heq => ?_)
    rw [isNaN_congr (hus u hu) hv heq]
  rw [List.any_eq_true]
  constructor
  · rintro ⟨u, hu, heq⟩
    rcases (hone hu).mp heq with ⟨hheld, hnan⟩ | htwin
    · exact .inl ⟨⟨u, hu, hheld⟩, hnan⟩
    · exact .inr ⟨u, hu, htwin⟩
  · rintro (⟨⟨u, hu, hheld⟩, hnan⟩ | ⟨u, hu, htwin⟩)
    · exact ⟨u, hu, (hone hu).mpr (.inl ⟨hheld, hnan⟩)⟩
    · exact ⟨u, hu, (hone hu).mpr (.inr htwin)⟩

/-- A value that was taken in is contained, unless it is a NaN. -/
theorem any_exactEq_takeIn (hus : Ascending id us) (hz : z.WellFormed) (hv : v.WellFormed)
    (hzv : z.canonicalCompare v = .eq) :
    (takeIn us z).any (fun u => u.exactEq v) = !v.isNaN := by
  have htaken : (∀ u ∈ takeIn us z, u.WellFormed) ∧ v.HeldIn (takeIn us z) := by
    rw [takeIn]
    cases hplace : search (fun x => x.canonicalCompare z) us with
    | found i =>
      obtain ⟨u, hu, heq⟩ := (hus.found_iff hz).mp ⟨i, hplace⟩
      exact ⟨hus.wellFormed, u, hu, canonicalCompare_trans (hus.wellFormed u hu) hz hv heq hzv⟩
    | free i =>
      have hi := (hus.of_free hz hplace).1
      have hinserted := hus.insertIdx_free (x := z) hz hplace
      exact ⟨hinserted.wellFormed, z, (List.mem_insertIdx hi).mpr (.inl rfl), hzv⟩
  rw [Bool.eq_iff_iff, any_exactEq_iff htaken.1 hv, Bool.not_eq_true']
  constructor
  · rintro (⟨-, hnan⟩ | htwin)
    · exact hnan
    · exact htwin.isNaN
  · exact fun hnan => .inl ⟨htaken.2, hnan⟩

/-- A value that was removed is still contained just if its own place and that of the zero of
the other sign were taken. -/
theorem any_exactEq_eraseP (hus : Ascending id us) (hv : v.WellFormed) :
    (us.eraseP fun u => u.exactEq v).any (fun u => u.exactEq v) = true ↔
      v.HeldIn us ∧ v.TwinIn us := by
  have hwf : ∀ u ∈ us, u.WellFormed := hus.wellFormed
  have hone {u : Value} (hu : u ∈ us) := exactEq_iff (hwf u hu) hv
  rw [any_eraseP hus.nodup]
  constructor
  · rintro ⟨u, hu, z, hz, hne, hequ, heqz⟩
    rcases (hone hu).mp hequ with ⟨hheld, -⟩ | htwin
    · rcases (hone hz).mp heqz with ⟨hheld', -⟩ | htwin'
      -- one place is not taken twice
      · have hvz : v.canonicalCompare z = .eq := by
          rw [canonicalCompare_swap (hwf z hz) hv, hheld']
          rfl
        have huz := canonicalCompare_trans (hwf u hu) hv (hwf z hz) hheld hvz
        exact absurd (hus.eq_of_canonicalCompare hu hz huz) hne
      · exact ⟨⟨u, hu, hheld⟩, z, hz, htwin'⟩
    · rcases (hone hz).mp heqz with ⟨hheld', -⟩ | htwin'
      · exact ⟨⟨z, hz, hheld'⟩, u, hu, htwin⟩
      · have huz := htwin.unique (hwf u hu) (hwf z hz) htwin'
        exact absurd (hus.eq_of_canonicalCompare hu hz huz) hne
  · rintro ⟨⟨u, hu, hheld⟩, z, hz, htwin⟩
    refine ⟨u, hu, z, hz, ?_, (hone hu).mpr ?_, (hone hz).mpr (.inr htwin)⟩
    · rintro rfl
      exact htwin.canonicalCompare_ne (hwf u hu) hv hheld
    · exact .inl ⟨hheld, (isNaN_congr (hwf u hu) hv hheld).trans htwin.isNaN⟩

theorem leads_of_like {s : Snapshot} {k : PropertyKind} (hus : ∀ u ∈ us, u.WellFormed)
    (hv : v.WellFormed) (hleads : ∀ u ∈ us, s.Leads k u) (h : v.HeldIn us ∨ v.TwinIn us) :
    s.Leads k v := by
  rcases h with ⟨u, hu, hheld⟩ | ⟨u, -, hzeros⟩
  · intro key target hkey
    rw [← asObject_congr (hus u hu) hv hheld] at hkey
    exact hleads u hu key target hkey
  · -- a zero is no link
    intro key target hkey
    have hfloat := hzeros.family?.2
    rw [family?] at hfloat
    rw [asObject] at hkey
    cases hplain : v.unwrap <;> rw [hplain] at hfloat hkey <;> cases hfloat <;> cases hkey

end Value

namespace Container

theorem append_of_broken {c : Container} {b : Batch} {v : Value} {e : Error}
    (haccepts : c.kind.accepts v = true) (h : b.view.checkLink c.kind v = .error e) :
    c.append v b = (.error e, b) := by
  have hcheck : c.kind.element.check v = .ok () := if_pos haccepts
  simp only [append, prepare, hcheck, h, bind, Except.bind]

end Container

namespace World

namespace Writing

variable {w : World} {t : Thread} {s : SessionId} {b : Batch} {c : Container}

theorem contains (h : w.Writing t s b) (hc : c.Ready b) (v : Value) :
    (Collection.bound (.live s) c).contains w t v =
      .ok ((c.held b).any fun u => u.exactEq v) := by
  rw [Collection.contains, h.values hc]
  rfl

theorem removeValue (h : w.Writing t s b) (hc : c.Ready b) (v : Value) :
    ∃ w' b', (Collection.bound (.live s) c).removeValue w t v =
        (.ok ((c.held b).any fun u => u.exactEq v), w') ∧
      w'.Writing t s b' ∧ c.Leaves b b' ((c.held b).eraseP fun u => u.exactEq v) := by
  obtain ⟨hanswer, hwriting⟩ := h.mutate (c.guarded (c.removeValue v))
  rw [hc.guarded] at hanswer hwriting
  obtain ⟨hok, hleaves⟩ := hc.removeValue v
  exact ⟨_, _, Prod.ext (hanswer.trans hok) rfl, hwriting, hleaves⟩

theorem append_of_broken (h : w.Writing t s b) (hc : c.Ready b) {v : Value} {e : Error}
    (haccepts : c.kind.accepts v = true) (hlink : b.view.checkLink c.kind v = .error e) :
    ∃ w', (Collection.bound (.live s) c).append w t v = (.error e, w') ∧ w'.Writing t s b := by
  obtain ⟨hanswer, hwriting⟩ := h.mutate (c.guarded (c.append v))
  rw [hc.guarded, Container.append_of_broken haccepts hlink] at hanswer hwriting
  exact ⟨_, Prod.ext hanswer rfl, hwriting⟩

end Writing

variable {t : Thread} {s : SessionId} {key : ObjectKey} {property : String}

/-- In a run that keeps sets in order, what a set that is asked for holds is in order, and its
links lead where they should. -/
theorem held_of_gives {cs : List Call} {x : Session} {b : Batch} {c : Container}
    (hcs : empty.Regular cs) (hx : (empty.run cs).session? s = some x) (hb : x.batch = some b)
    (h : (empty.run cs).Gives s c) (hset : c.kind.container = some .set) :
    Value.Ascending id (c.held b) ∧ ∀ u ∈ c.held b, b.view.Leads c.kind u := by
  have hd := (h.onDeclared 0 .clear).2 x hx
  rw [Session.view_of_batch hb] at hd
  have hs := (conforming_run hcs.careful).batch s x b hx hb
  have hcanonical := (canonical_run hcs).2 s x b hx hb
  refine ⟨(Container.canonical_elementsOf hd hs hcanonical hset).byValue.map, fun u hu => ?_⟩
  obtain ⟨e, he, rfl⟩ := List.mem_map.mp hu
  exact (Container.fitElements_elementsOf hd hs hset e he).2

/--
How insertion into a set and membership of it belong together, for every well-formed value
that the set accepts, in every run of regular calls. `us` is what the set holds, in ascending
order, and `before` whether the value is contained.

1. The value is contained just if its place in the canonical order is taken and it is no NaN,
   or the zero of the other sign is there.
2. A link that does not lead to an object of the target class is not contained, and appending
   it is refused and changes nothing.
3. Appending anything else answers false just if its place was taken. Then it is contained,
   unless it is a NaN.
4. Removing the value answers whether it was contained. Then it is contained only if both its
   place was taken and the zero of the other sign was there.

So a value that is no NaN and whose opposite zero is not there is appended just if it was not
contained, and is contained then; and it is not contained any more after it was removed.
-/
theorem membership_of_sets {cs : List Call} {x : Session} {b : Batch} {c : Collection} {v : Value}
    (hcs : empty.Regular cs) (hgate : (empty.run cs).gate t s = .ok x) (hb : x.batch = some b)
    (hset : (empty.run cs).set t s key property = .ok c) (hv : v.WellFormed)
    (haccepts : c.kind.accepts v = true) :
    ∃ us before, c.values (empty.run cs) t = .ok us ∧
      c.contains (empty.run cs) t v = .ok before ∧
      (before = true ↔ v.HeldIn us ∧ v.isNaN = false ∨ v.TwinIn us) ∧
      (∀ e, b.view.checkLink c.kind v = .error e →
        before = false ∧ ∃ w', c.append (empty.run cs) t v = (.error e, w') ∧
          c.values w' t = .ok us) ∧
      (b.view.checkLink c.kind v = .ok () →
        ∃ appended w', c.append (empty.run cs) t v = (.ok appended, w') ∧
          (appended = false ↔ v.HeldIn us) ∧ c.contains w' t v = .ok (!v.isNaN)) ∧
      ∃ after w', c.removeValue (empty.run cs) t v = (.ok before, w') ∧
        c.contains w' t v = .ok after ∧ (after = true ↔ v.HeldIn us ∧ v.TwinIn us) := by
  obtain ⟨hcollection, hshape⟩ := collection_of_set hset
  obtain ⟨c, rfl, hgives⟩ := gives_of_collection hcollection
  have hx := (gate_eq_ok.mp hgate).1
  have hready := ready_of_gives hx hb hgives
  have hwriting : (empty.run cs).Writing t s b := ⟨x, hgate, hb⟩
  obtain ⟨hus, hleads⟩ := held_of_gives hcs hx hb hgives hshape
  have hbefore := Value.any_exactEq_iff hus.wellFormed hv
  refine ⟨c.held b, _, hwriting.values hready, hwriting.contains hready v, hbefore,
    fun e hlink => ⟨?_, ?_⟩, fun hlink => ?_, ?_⟩
  · rw [Bool.eq_false_iff, ne_eq, hbefore]
    intro h
    have hleads := Value.leads_of_like hus.wellFormed hv hleads (h.imp_left And.left)
    cases hlink.symm.trans (Snapshot.checkLink_of_leads hleads)
  · obtain ⟨w', happend, hwriting'⟩ := hwriting.append_of_broken hready haccepts hlink
    exact ⟨w', happend, hwriting'.values hready⟩
  · obtain ⟨w', b', happend, hwriting', hleaves⟩ :=
      hwriting.append hready hshape ⟨hv, haccepts, Snapshot.leads_of_checkLink hlink⟩
    obtain ⟨hstored, hlike⟩ := Value.canonicalCompare_stored hv c.kind
    refine ⟨_, w', happend, ?_, ?_⟩
    · rw [← Value.heldIn_congr hus.wellFormed hstored hv hlike]
      exact Value.isFreeIn_eq_false hus hstored
    · rw [hwriting'.contains hleaves.ready v, hleaves.held,
        Value.any_exactEq_takeIn hus hstored hv hlike]
  · obtain ⟨w', b', hremove, hwriting', hleaves⟩ := hwriting.removeValue hready v
    refine ⟨_, w', hremove, hwriting'.contains hleaves.ready v, ?_⟩
    rw [hleaves.held]
    exact Value.any_exactEq_eraseP hus hv

/-! ## Zeros and a number that is none -/

/-- A class with one set of floats, null among them. -/
def scales : Schema := ⟨[⟨"Scale", [⟨"weights", (PropertyKind.set .float).nullable⟩]⟩]⟩

def scaleWeights : Collection :=
  .bound (.live ⟨0⟩) ⟨⟨⟨1⟩, "weights"⟩, (PropertyKind.set .float).nullable⟩

def nan : Value := .double ⟨0x7FF8000000000000⟩

def one : Value := .double ⟨0x3FF0000000000000⟩

def zeros : List Value := [.double .zero, .double ⟨0x8000000000000000⟩]

def emptyScale : List Call :=
  [.openDatabase scales false, .openSession 0 ⟨0⟩, .begin 0 ⟨0⟩, .create 0 ⟨0⟩ "Scale" []]

def zeroScale : List Call :=
  emptyScale ++ [.assign 0 ⟨0⟩ ⟨1⟩ "weights" (.unattached (.list .float) zeros)]

/-- A NaN is taken in and not contained then, like null in a wrapper, which is no proper
value. And after a zero was removed it is still contained, if the other one was there too. -/
theorem nan_is_not_contained :
    (empty.run emptyScale).set 0 ⟨0⟩ ⟨1⟩ "weights" = .ok scaleWeights ∧
      (∀ v ∈ [nan, .wrapped .null], scaleWeights.kind.accepts v = true ∧
        ∃ w, scaleWeights.append (empty.run emptyScale) 0 v = (.ok true, w) ∧
          scaleWeights.contains w 0 v = .ok false) ∧
      ∃ w, scaleWeights.removeValue (empty.run zeroScale) 0 (.double .zero) = (.ok true, w) ∧
        scaleWeights.contains w 0 (.double .zero) = .ok true := by
  refine ⟨rfl, fun v hv => ?_, ⟨_, rfl, rfl⟩⟩
  simp only [List.mem_cons, List.not_mem_nil, or_false] at hv
  rcases hv with rfl | rfl <;> exact ⟨rfl, _, rfl, rfl⟩

theorem regular_zeroScale : empty.Regular zeroScale := by
  refine ⟨?_, ?_, Call.regular_begin _ 0 ⟨0⟩, Call.regular_create _ 0 ⟨0⟩ "Scale" [], ?_, trivial⟩
  · intro s e x b he
    cases he
  · intro s e x b he
    cases he
  · intro s e x b he hx hb
    cases he
    cases hx
    cases hb
    refine ⟨fun e he => ?_, fun k v hv => ?_⟩
    · cases he
      exact ⟨⟨"weights", (PropertyKind.set .float).nullable⟩, rfl, rfl⟩
    · obtain ⟨n, hn, heq⟩ := List.mem_map.mp hv
      cases heq
      have hplain : ∀ n ∈ zeros, n.WellFormed := by
        simp [zeros, Value.WellFormed]
      exact hplain v hn

/-- In a set of both zeros a zero is found, and removing it leaves the other one, which is
equal to it. A one is taken in, and is contained only then. -/
theorem zeros_are_found :
    (∃ w, scaleWeights.append (empty.run zeroScale) 0 (.double .zero) = (.ok false, w)) ∧
      (∃ w, scaleWeights.removeValue (empty.run zeroScale) 0 (.double .zero) = (.ok true, w) ∧
        scaleWeights.contains w 0 (.double .zero) = .ok true) ∧
      (∃ w, scaleWeights.append (empty.run zeroScale) 0 one = (.ok true, w) ∧
        scaleWeights.contains w 0 one = .ok true) ∧
      ∃ w, scaleWeights.removeValue (empty.run zeroScale) 0 one = (.ok false, w) := by
  obtain ⟨x, b, hgate, hb, hlink⟩ : ∃ x b, (empty.run zeroScale).gate 0 ⟨0⟩ = .ok x ∧
      x.batch = some b ∧ ∀ v, b.view.checkLink scaleWeights.kind v = .ok () := by
    refine ⟨_, _, rfl, rfl, fun v => ?_⟩
    exact Snapshot.checkLink_of_leads fun key target _ h => by cases h
  have hset : (empty.run zeroScale).set 0 ⟨0⟩ ⟨1⟩ "weights" = .ok scaleWeights := rfl
  have hheld : scaleWeights.values (empty.run zeroScale) 0 = .ok zeros.reverse := rfl
  have hzero : (Value.double .zero).HeldIn zeros.reverse ∧
      (Value.double .zero).TwinIn zeros.reverse := by
    refine ⟨⟨.double .zero, by decide, rfl⟩, .double ⟨0x8000000000000000⟩, by decide, ?_⟩
    exact ⟨⟨0x8000000000000000⟩, .zero, rfl, rfl, by decide⟩
  have hone : ¬one.HeldIn zeros.reverse ∧ ¬one.TwinIn zeros.reverse := by
    refine ⟨?_, ?_⟩
    · rintro ⟨u, hu, heq⟩
      simp only [zeros, List.mem_reverse, List.mem_cons, List.not_mem_nil, or_false] at hu
      rcases hu with rfl | rfl <;> cases heq
    · rintro ⟨u, -, y, z, -, hz, -, hmagnitude, -⟩
      cases hz
      cases hmagnitude
  obtain ⟨us, before, hvalues, -, hbefore, -, happend, after, w, hremove, hafter, hleft⟩ :=
    membership_of_sets regular_zeroScale hgate hb hset (v := .double .zero) trivial rfl
  obtain rfl := Except.ok.inj (hheld.symm.trans hvalues)
  obtain ⟨appended, w₁, hanswer, htaken, -⟩ := happend (hlink _)
  rw [htaken.mpr hzero.1] at hanswer
  rw [hbefore.mpr (.inr hzero.2)] at hremove
  rw [hleft.mpr hzero] at hafter
  obtain ⟨us, before', hvalues', -, hbefore', -, happend', after', w₂, hremove', -⟩ :=
    membership_of_sets regular_zeroScale hgate hb hset (v := one) trivial rfl
  obtain rfl := Except.ok.inj (hheld.symm.trans hvalues')
  obtain ⟨appended', w₃, hanswer', htaken', hcontained⟩ := happend' (hlink _)
  have hnot : ¬before' = true := fun h => (hbefore'.mp h).elim (fun h => hone.1 h.1) hone.2
  rw [Bool.eq_true_of_not_eq_false fun h => hone.1 (htaken'.mp h)] at hanswer'
  rw [Bool.eq_false_of_not_eq_true hnot] at hremove'
  exact ⟨⟨w₁, hanswer⟩, ⟨w, hremove, hafter⟩, ⟨w₃, hanswer', hcontained⟩, w₂, hremove'⟩

end World

end ObjectStore
