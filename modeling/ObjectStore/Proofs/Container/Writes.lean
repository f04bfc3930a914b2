import ObjectStore.Proofs.Container.Firsts

/-
  The values that a write leaves in a container.

  Once its operands have passed their checks, a write to a container that stands goes
  through. Then the container holds the values that it should hold, it can be written again,
  and no object has another class than before, so that links lead where they led
  (`Container.Leaves`). So writes can be put one behind the other.

    1. `Container.Ready.edit`: one edit of the elements.
    2. `Container.Ready.append_list` and `append_set`, `insert`, `replace`, `remove`,
       `removeValue` and `assign`: what is held after a value was put in or removed, and after
       others were put in the place of all.
-/

namespace ObjectStore

namespace Container

variable {c : Container} {b b' : Batch} {v : Value} {vs : List Value}

/-- A container whose elements can be edited. -/
structure Ready (c : Container) (b : Batch) : Prop where
  keyed : b.view.Keyed
  stands : c.Stands b.view

def held (c : Container) (b : Batch) : List Value := (b.view.elementsOf c.key).map (·.value)

/-- What is left by a write after which a container holds certain values. -/
structure Leaves (c : Container) (b b' : Batch) (vs : List Value) : Prop where
  ready : c.Ready b'
  held : c.held b' = vs
  classes : ∀ key name, b.view.classOf key = some name → b'.view.classOf key = some name

/-- A value that may be put into a container of a kind. -/
structure Fit (s : Snapshot) (k : PropertyKind) (v : Value) : Prop where
  wellFormed : v.WellFormed
  accepts : k.accepts v = true
  leads : s.Leads k v

theorem Fit.mono {s s' : Snapshot} {k : PropertyKind} (h : Fit s k v)
    (hc : ∀ key name, s.classOf key = some name → s'.classOf key = some name) : Fit s' k v :=
  ⟨h.wellFormed, h.accepts, fun key target hkey htarget => hc _ _ (h.leads key target hkey htarget)⟩

theorem Fit.congr {s : Snapshot} {k : PropertyKind} {z : Value} (h : Fit s k v)
    (hz : z.WellFormed) (hunwrap : z.unwrap = v.unwrap) : Fit s k z := by
  have hfamily : z.family? = v.family? := by rw [Value.family?, Value.family?, hunwrap]
  have hobject : z.asObject = v.asObject := by rw [Value.asObject, Value.asObject, hunwrap]
  refine ⟨hz, ?_, fun key target hkey => h.leads key target (hobject ▸ hkey)⟩
  rw [PropertyKind.accepts, hfamily]
  exact h.accepts

theorem Ready.owner (h : c.Ready b) : b.view.contains c.key.owner = true := by
  obtain ⟨e, he, -⟩ := h.stands
  exact Snapshot.contains_iff.mpr ⟨e, he⟩

theorem Ready.guarded {α : Type} (h : c.Ready b) (f : Batch → Except Error α × Batch) :
    c.guarded f b = f b := if_pos h.owner

theorem Fit.prepare {s : Snapshot} {k : PropertyKind} (h : Fit s k v) :
    prepare s k v = .ok (k.normalize v.unwrap) := by
  have hcheck : k.element.check v = .ok () := if_pos h.accepts
  have hlink : s.checkLink k v = .ok () := Snapshot.checkLink_of_leads h.leads
  simp only [Container.prepare, hcheck, hlink, bind, Except.bind, pure, Except.pure]

theorem prepareAll_of_fit {s : Snapshot} {k : PropertyKind} (h : ∀ v ∈ vs, Fit s k v) :
    prepareAll s k vs = .ok (vs.map fun v => k.normalize v.unwrap) := by
  induction vs with
  | nil => rfl
  | cons v vs ih =>
    have hrest := ih fun x hx => h x (List.mem_cons_of_mem v hx)
    simp only [prepareAll, (h v List.mem_cons_self).prepare, hrest, bind, Except.bind, pure,
      Except.pure, List.map_cons]

theorem firsts_stored (k : PropertyKind) (hvs : ∀ v ∈ vs, v.WellFormed) {us : List Value}
    (h : Value.Firsts (vs.map fun v => k.normalize v.unwrap) us) :
    Value.Firsts (vs.map (·.unwrap)) (us.map (·.unwrap)) := by
  have hunwrap : (vs.map fun v => k.normalize v.unwrap).map (·.unwrap) = vs.map (·.unwrap) := by
    rw [List.map_map]
    refine List.map_congr_left fun v hv => ?_
    exact ((hvs v hv).unwrap.normalize k).2.trans (hvs v hv).unwrap_unwrap
  rw [← hunwrap]
  refine h.map_unwrap fun z hz => ?_
  obtain ⟨v, hv, rfl⟩ := List.mem_map.mp hz
  exact ((hvs v hv).unwrap.normalize k).1

/-! ## Edits -/

/-- The elements are edited, and the container can be edited again. -/
theorem Ready.edit (h : c.Ready b) (f : List Element → List Element) :
    (c.edit f b).1 = .ok () ∧
      c.Leaves b (c.edit f b).2 ((f (b.view.elementsOf c.key)).map (·.value)) := by
  obtain ⟨e, he, hfield⟩ := h.stands
  obtain ⟨field, hafter, hsingle, -⟩ :=
    c.field?_rewrite (f := f) (e := { e with revision := b.pending }) hfield
  have hsteps : Batch.Steps False b (c.edit f b).2 := c.edit_steps f b
  refine ⟨edit_ok h.keyed h.stands, ⟨hsteps.keyed h.keyed, _, c.entity?_edit h.keyed he,
    fun v hv => ?_⟩, ?_, fun key name hclass => ?_⟩
  · rw [hafter] at hv
    exact hsingle v (Option.some.inj hv)
  · rw [Container.held, elementsOf_edit_self h.keyed h.stands]
  · rw [edit_batch, Snapshot.classOf, Batch.entity?_written h.keyed (c.writesFields_rewrite f)]
    split
    · rename_i hk
      rw [Option.map_map]
      obtain ⟨e', he', rfl⟩ := Option.map_eq_some_iff.mp hclass
      rw [he', Option.map_some]
      exact congrArg some (c.writesFields_rewrite f _).2.1
    · exact hclass

theorem Ready.newElements (h : c.Ready b) (vs : List Value) :
    c.Ready (Container.newElements b vs).2 := by
  obtain ⟨e, he, hfield⟩ := h.stands
  have hsteps : Batch.Steps False b (Container.newElements b vs).2 := newElements_steps vs b
  refine ⟨hsteps.keyed h.keyed, e, ?_, hfield⟩
  rw [entity?_newElements, he]

theorem Ready.clear (h : c.Ready b) : (c.clear b).1 = .ok () ∧ c.Leaves b (c.clear b).2 [] :=
  h.edit fun _ => []

theorem Ready.elementsIn (h : c.Ready b) :
    Container.elementsIn c.key b.view = .ok (b.view.elementsOf c.key) :=
  elementsIn_eq_ok.mpr ⟨h.owner, rfl⟩

theorem Ready.insertNew (h : c.Ready b) (i : Nat) (v : Value) :
    (c.insertNew i v b).1 = .ok () ∧
      c.Leaves b (c.insertNew i v b).2 ((c.held b).insertIdx i v) := by
  have hready : c.Ready b.allocateSlot.2 := h.newElements [.null]
  let x : Element := ⟨⟨b.view.nextSlot + 1⟩, v, b.pending⟩
  obtain ⟨hanswer, hleaves⟩ := hready.edit fun es => es.insertIdx i x
  refine ⟨hanswer, hleaves.ready, hleaves.held.trans ?_, hleaves.classes⟩
  rw [List.map_insertIdx]
  rfl

theorem Ready.append_list (h : c.Ready b) (hlist : c.kind.container = some .list)
    (hv : Fit b.view c.kind v) :
    (c.append v b).1 = .ok true ∧
      c.Leaves b (c.append v b).2 (c.held b ++ [c.kind.normalize v.unwrap]) := by
  have hlength : (b.view.elementsOf c.key).length = (c.held b).length :=
    (List.length_map _).symm
  obtain ⟨hanswer, hleaves⟩ := h.insertNew (c.held b).length (c.kind.normalize v.unwrap)
  rw [List.insertIdx_length_self] at hleaves
  simp only [append, hv.prepare, h.elementsIn, placeForNew, hlist, Option.some.injEq, reduceCtorEq,
    if_false, hlength, hanswer, Except.map]
  exact ⟨trivial, hleaves⟩

/-- A value appended to a set is taken in among those that it holds; the answer is whether its
place was free. -/
theorem Ready.append_set (h : c.Ready b) (hset : c.kind.container = some .set)
    (hv : Fit b.view c.kind v) :
    (c.append v b).1 = .ok ((c.kind.normalize v.unwrap).isFreeIn (c.held b)) ∧
      c.Leaves b (c.append v b).2 (Value.takeIn (c.held b) (c.kind.normalize v.unwrap)) := by
  have hplace : search (fun x => x.canonicalCompare (c.kind.normalize v.unwrap)) (c.held b) =
      placeOf (b.view.elementsOf c.key) (c.kind.normalize v.unwrap) := search_map _ _
  simp only [append, hv.prepare, h.elementsIn, placeForNew, hset, if_true, Value.takeIn,
    Value.isFreeIn, hplace]
  cases placeOf (b.view.elementsOf c.key) (c.kind.normalize v.unwrap) with
  | found i => exact ⟨rfl, h, rfl, fun _ _ hclass => hclass⟩
  | free i =>
    obtain ⟨hanswer, hleaves⟩ := h.insertNew i (c.kind.normalize v.unwrap)
    simp only [hanswer, Except.map]
    exact ⟨trivial, hleaves⟩

theorem Ready.prepareAt (h : c.Ready b) (hlist : c.kind.container = some .list)
    (hv : Fit b.view c.kind v) (operation : String) :
    c.prepareAt operation v b.view =
      .ok (c.kind.normalize v.unwrap, b.view.elementsOf c.key) := by
  simp only [Container.prepareAt, requireList, hlist, if_true, hv.prepare, h.elementsIn, bind,
    Except.bind, pure, Except.pure]

/-- A value inserted at a place of a list. -/
theorem Ready.insert (h : c.Ready b) (hlist : c.kind.container = some .list)
    (hv : Fit b.view c.kind v) {i : Nat} (hi : i ≤ (c.held b).length) :
    (c.insert i v b).1 = .ok () ∧
      c.Leaves b (c.insert i v b).2 ((c.held b).insertIdx i (c.kind.normalize v.unwrap)) := by
  have hnot : ¬i > (b.view.elementsOf c.key).length := by
    rw [held, List.length_map] at hi
    exact Nat.not_lt.mpr hi
  simp only [Container.insert, h.prepareAt hlist hv, if_neg hnot]
  exact h.insertNew i (c.kind.normalize v.unwrap)

/-- A value in the place of the one at a place of a list, which is the answer. -/
theorem Ready.replace (h : c.Ready b) (hlist : c.kind.container = some .list)
    (hv : Fit b.view c.kind v) {i : Nat} {old : Value} (hi : (c.held b)[i]? = some old) :
    (c.replace i v b).1 = .ok old ∧
      c.Leaves b (c.replace i v b).2 ((c.held b).set i (c.kind.normalize v.unwrap)) := by
  rw [held, List.getElem?_map] at hi
  obtain ⟨x, hx, rfl⟩ := Option.map_eq_some_iff.mp hi
  let renewed : Element := ⟨x.slot, c.kind.normalize v.unwrap, b.pending⟩
  obtain ⟨hanswer, hleaves⟩ := h.edit fun es => es.set i renewed
  rw [List.map_set] at hleaves
  simp only [Container.replace, h.prepareAt hlist hv, hx]
  refine ⟨?_, hleaves⟩
  rw [hanswer]
  rfl

theorem Ready.remove (h : c.Ready b) {i : Nat} {old : Value} (hi : (c.held b)[i]? = some old) :
    (c.remove i b).1 = .ok old ∧ c.Leaves b (c.remove i b).2 ((c.held b).eraseIdx i) := by
  rw [held, List.getElem?_map] at hi
  obtain ⟨x, hx, rfl⟩ := Option.map_eq_some_iff.mp hi
  obtain ⟨hanswer, hleaves⟩ := h.edit fun es => es.eraseIdx i
  rw [← List.eraseIdx_map] at hleaves
  simp only [Container.remove, h.elementsIn, hx]
  refine ⟨?_, hleaves⟩
  rw [hanswer]
  rfl

/-- The first value that equals another one is removed; the answer is whether there was one. -/
theorem Ready.removeValue (h : c.Ready b) (v : Value) :
    (c.removeValue v b).1 = .ok ((c.held b).any fun x => x.exactEq v) ∧
      c.Leaves b (c.removeValue v b).2 ((c.held b).eraseP fun x => x.exactEq v) := by
  have herase : (c.held b).eraseP (fun x => x.exactEq v) =
      ((b.view.elementsOf c.key).eraseP fun e => e.value.exactEq v).map (·.value) :=
    List.eraseP_map
  have hany : ((c.held b).any fun x => x.exactEq v) =
      (b.view.elementsOf c.key).any fun e => e.value.exactEq v := List.any_map
  simp only [Container.removeValue, h.elementsIn, herase, hany, List.eraseP_eq_eraseIdx]
  cases hfind : (b.view.elementsOf c.key).findIdx? fun e => e.value.exactEq v with
  | none =>
    have hnone : ((b.view.elementsOf c.key).any fun e => e.value.exactEq v) = false := by
      rw [← List.findIdx?_isSome, hfind]
      rfl
    exact ⟨by rw [hnone], h, rfl, fun _ _ hclass => hclass⟩
  | some i =>
    have hsome : ((b.view.elementsOf c.key).any fun e => e.value.exactEq v) = true := by
      rw [← List.findIdx?_isSome, hfind]
      rfl
    obtain ⟨hanswer, hleaves⟩ := h.edit fun es => es.eraseIdx i
    simp only [hanswer, Except.map, hsome]
    exact ⟨trivial, hleaves⟩

/-- Other values in the place of those that a container holds. -/
theorem Ready.assign (h : c.Ready b) (hvs : ∀ v ∈ vs, Fit b.view c.kind v) :
    (c.assign vs b).1 = .ok () ∧
      c.Leaves b (c.assign vs b).2
        (arranged c.kind (vs.map fun v => c.kind.normalize v.unwrap)) := by
  have hnew := h.newElements (arranged c.kind (vs.map fun v => c.kind.normalize v.unwrap))
  simp only [Container.assign, prepareAll_of_fit hvs]
  obtain ⟨hanswer, hleaves⟩ := hnew.edit fun _ =>
    (Container.newElements b (arranged c.kind (vs.map fun v => c.kind.normalize v.unwrap))).1
  refine ⟨hanswer, hleaves.ready, hleaves.held.trans (newElements_spec _ b).1,
    fun key name hclass => hleaves.classes key name ?_⟩
  rw [Snapshot.classOf, entity?_newElements]
  exact hclass

end Container

end ObjectStore
