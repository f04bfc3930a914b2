import ObjectStore.Proofs.Run.History

/-
  Names are never given twice.

  A write that is abandoned gives back the keys and slots that it has handed out, and the
  next one hands them out again. What was committed is not affected: counters only grow
  from one commit to the next, and whatever appears later has a number that had not been
  handed out by then. So a key or slot in two committed snapshots names one thing, which
  was there all the time in between.

    1. `Snapshot.Develops.slot_earlier` and `Snapshot.Continues.earlier`: what has an old
       number was there before.
    2. `World.identities_unique`: the whole history.
-/

namespace ObjectStore

namespace Snapshot

variable {g h : Generation} {written : ObjectKey → Prop} {renewed : SlotId → Prop}
  {s s' : Snapshot}

/-- An element whose slot had been handed out before was in the same container before. -/
theorem Develops.slot_earlier (hd : s.Develops g h written renewed s') {c : ContainerKey}
    {x : Element} (hx : x ∈ s'.elementsOf c) (hslot : x.slot.val ≤ s.nextSlot) :
    ∃ y ∈ s.elementsOf c, y.slot = x.slot := by
  have hmem : x.slot ∈ ((s'.elementsOf c).map (·.slot)).filter fun i => i.val ≤ s.nextSlot :=
    List.mem_filter.mpr ⟨List.mem_map_of_mem hx, decide_eq_true hslot⟩
  exact List.mem_map.mp ((hd.order c).mem hmem)

end Snapshot

namespace World

variable {cs : List Call} {d : DatabaseId} {s m s' : Snapshot}

theorem slot_between (hs : HeldDuring cs d s) (hm : HeldDuring cs d m) (hs' : HeldDuring cs d s')
    (hsm : s.generation ≤ m.generation) (hms' : m.generation ≤ s'.generation)
    {c c' : ContainerKey} {x y : Element} (hx : x ∈ s.elementsOf c) (hy : y ∈ s'.elementsOf c')
    (hxy : x.slot = y.slot) : c = c' ∧ ∃ z ∈ m.elementsOf c, z.slot = x.slot := by
  have hbound : x.slot.val ≤ s.nextSlot := hs.numbered.slotted.bounded c x hx
  have hfirst := hs.develops hm hsm
  -- back from the later snapshot to the one in between, and from there to the first one
  obtain ⟨z, hz, hzy⟩ := (hm.develops hs' hms').slot_earlier hy (by
    rw [← hxy]
    exact Nat.le_trans hbound hfirst.nextSlot_le)
  have hzx : z.slot = x.slot := hzy.trans hxy.symm
  obtain ⟨a, ha, haz⟩ := hfirst.slot_earlier hz (by rwa [hzx])
  obtain rfl : c = c' := hs.numbered.slotted.apart c c' x hx a ha (by rw [haz, hzx])
  exact ⟨rfl, z, hz, hzx⟩

theorem key_between (hs : HeldDuring cs d s) (hm : HeldDuring cs d m) (hs' : HeldDuring cs d s')
    (hsm : s.generation ≤ m.generation) (hms' : m.generation ≤ s'.generation)
    {key : ObjectKey} {e e' : Entity} (he : s.entity? key = some e)
    (he' : s'.entity? key = some e') :
    e.className = e'.className ∧
      ∃ z, m.entity? key = some z ∧ z.className = e.className := by
  have hbound := hs.numbered.keyed.le_of_contains (Snapshot.contains_iff.mpr ⟨e, he⟩)
  have hfirst := (hs.develops hm hsm).continues
  obtain ⟨z, hz, hzc⟩ := (hm.develops hs' hms').continues.earlier
    (Nat.le_trans hbound hfirst.nextKey_le) he'
  obtain ⟨a, ha, hac⟩ := hfirst.earlier hbound hz
  obtain rfl := Option.some.inj (he.symm.trans ha)
  exact ⟨hac.trans hzc, z, hz, hac.symm⟩

/--
Names are unique along the history, whatever calls are made:

1. In every snapshot that anything holds at some moment, and in every batch, every key and
   every slot was handed out, and no two objects have one key and no two elements one slot.
2. The counters never fall from an earlier snapshot of a database to a later one.
3. A slot in both belongs to the same property of the same owner, and is stored in every
   snapshot between them.
4. A key in both is of the same class, and exists in every snapshot between them.
-/
theorem identities_unique (cs : List Call) :
    (∀ d s, HeldDuring cs d s → s.Numbered) ∧
    (∀ s x b, (empty.run cs).session? s = some x → x.batch = some b → b.view.Numbered) ∧
    ∀ d s s', HeldDuring cs d s → HeldDuring cs d s' → s.generation ≤ s'.generation →
      (s.nextKey ≤ s'.nextKey ∧ s.nextSlot ≤ s'.nextSlot) ∧
      (∀ c c', ∀ x ∈ s.elementsOf c, ∀ y ∈ s'.elementsOf c', x.slot = y.slot →
        c = c' ∧ ∀ m, HeldDuring cs d m → s.generation ≤ m.generation →
          m.generation ≤ s'.generation → ∃ z ∈ m.elementsOf c, z.slot = x.slot) ∧
      ∀ key e e', s.entity? key = some e → s'.entity? key = some e' →
        e.className = e'.className ∧ ∀ m, HeldDuring cs d m → s.generation ≤ m.generation →
          m.generation ≤ s'.generation →
            ∃ z, m.entity? key = some z ∧ z.className = e.className := by
  refine ⟨fun d s hs => hs.numbered, fun s x b hx hb => numbered_batch cs hx hb,
    fun d s s' hs hs' hg => ⟨?_, fun c c' x hx y hy hxy => ?_, fun key e e' he he' => ?_⟩⟩
  · have hdevelops := hs.develops hs' hg
    exact ⟨hdevelops.continues.nextKey_le, hdevelops.nextSlot_le⟩
  · refine ⟨(slot_between hs hs hs' (Nat.le_refl _) hg hx hy hxy).1, fun m hm hsm hms' => ?_⟩
    exact (slot_between hs hm hs' hsm hms' hx hy hxy).2
  · refine ⟨(key_between hs hs hs' (Nat.le_refl _) hg he he').1, fun m hm hsm hms' => ?_⟩
    exact (key_between hs hm hs' hsm hms' he he').2

/-! ## A list of three numbers -/

def pads : Schema := ⟨[⟨"Pad", [⟨"lines", .list .integer⟩]⟩]⟩

def padLines : Container := ⟨⟨⟨1⟩, "lines"⟩, .list .integer⟩

/-- A number is put behind the others in a write of its own. -/
def addingLine (v : Value) : List Call :=
  [.begin 0 ⟨0⟩, .elements 0 (.bound (.live ⟨0⟩) padLines) (.append v), .commit 0 ⟨0⟩]

def padWithLine : List Call :=
  [.openDatabase pads false, .openSession 0 ⟨0⟩, .begin 0 ⟨0⟩, .create 0 ⟨0⟩ "Pad" [],
    .commit 0 ⟨0⟩] ++ addingLine (.int64 7)

/-- While two more numbers are added, the first one stays under its slot. -/
theorem line_keeps_slot :
    let second := padWithLine ++ addingLine (.int64 8)
    let third := second ++ addingLine (.int64 9)
    (latestAfter third).elementsOf padLines.key =
        [⟨⟨1⟩, .int64 7, 2⟩, ⟨⟨2⟩, .int64 8, 3⟩, ⟨⟨3⟩, .int64 9, 4⟩] ∧
      ∃ z ∈ (latestAfter second).elementsOf padLines.key, z.slot = ⟨1⟩ := by
  intro second third
  have hbefore : second <+: third := List.prefix_append _ _
  have hfirst : HeldDuring third ⟨0⟩ (latestAfter padWithLine) :=
    heldDuring_latestAfter ((List.prefix_append _ _).trans hbefore)
  have hthird : HeldDuring third ⟨0⟩ (latestAfter third) := heldDuring_latestAfter List.prefix_rfl
  have hline : (latestAfter padWithLine).elementsOf padLines.key = [⟨⟨1⟩, .int64 7, 2⟩] := rfl
  have hlines : (latestAfter third).elementsOf padLines.key =
      [⟨⟨1⟩, .int64 7, 2⟩, ⟨⟨2⟩, .int64 8, 3⟩, ⟨⟨3⟩, .int64 9, 4⟩] := rfl
  obtain ⟨-, hslots, -⟩ := (identities_unique third).2.2 ⟨0⟩ _ _ hfirst hthird (by decide)
  obtain ⟨-, hbetween⟩ := hslots padLines.key padLines.key ⟨⟨1⟩, .int64 7, 2⟩
    (by rw [hline]; exact List.mem_cons_self) ⟨⟨1⟩, .int64 7, 2⟩
    (by rw [hlines]; exact List.mem_cons_self) rfl
  exact ⟨hlines, hbetween (latestAfter second) (heldDuring_latestAfter hbefore) (by decide)
    (by decide)⟩

end World

end ObjectStore
