import ObjectStore.Proofs.Run.Accounts

/-
  The thread of a session, and a delivery as its loop.

  The thread of a session runs code, and while it delivers, a loop: the observers that are told
  of changes run their code between the steps of the loop. This code may make any calls, also ask
  for a delivery. While one is under way that is refused, so that loops are never nested.

  `World.deliver` is this loop with the code of observers as a function. Observers may queue
  changes for ever, so it is given the most changes that it may tell. What it comes to without
  that bound is a relation (`World.Telling`), whose steps are those of the loop.

    1. `World.startDelivery_cases`: when a delivery is begun.
    2. `World.Course`: the calls of the thread. `World.Course.of_delivering` is what code and loop
       leave of a delivery that is under way.
    3. `World.tellAll_eq_some_iff` and `World.deliver_eq_some_iff`: what a delivery answers.
    4. `World.Telling.course`: with observers whose code makes calls, a delivery is a course.
       `World.exists_telling`: with observers that queue nothing it comes to its end.
    5. `World.whole`: (1) to (4) together.
-/

namespace ObjectStore

/-! ## Begun and under way -/

namespace World

section

variable {w : World} {s : SessionId} {t : Thread}

/-- A delivery is refused, finds another one under way, or is begun. -/
theorem startDelivery_cases (w : World) (t : Thread) (s : SessionId) :
    (∃ e, w.gate t s = .error e ∧ w.startDelivery t s = (.error e, w)) ∨
    (∃ x, w.gate t s = .ok x ∧ x.feed.delivering = true ∧
      w.startDelivery t s = (.ok false, w)) ∨
    ∃ x, w.gate t s = .ok x ∧ x.feed.delivering = false ∧
      w.startDelivery t s = (.ok true, w.putFeed s x { x.feed with delivering := true }) := by
  unfold startDelivery
  cases hgate : w.gate t s with
  | error e => exact .inl ⟨e, rfl, rfl⟩
  | ok x =>
    cases hd : x.feed.delivering with
    | true =>
      refine .inr (.inl ⟨x, rfl, hd, ?_⟩)
      simp only [Feed.begin?, hd, if_true]
    | false =>
      refine .inr (.inr ⟨x, rfl, hd, ?_⟩)
      simp only [Feed.begin?, hd, Bool.false_eq_true, if_false]

/-- A thread that may use a session begins a delivery unless one is under way. -/
theorem startDelivery_eq_true_iff : (w.startDelivery t s).1 = .ok true ↔
    ∃ x, w.gate t s = .ok x ∧ x.feed.delivering = false := by
  obtain ⟨e, hgate, hstart⟩ | ⟨x, hgate, hd, hstart⟩ | ⟨x, hgate, hd, hstart⟩ :=
    startDelivery_cases w t s
  · rw [hstart, hgate]
    exact iff_of_false nofun nofun
  · rw [hstart, hgate]
    refine iff_of_false nofun ?_
    rintro ⟨y, hy, hidle⟩
    rw [← Except.ok.inj hy, hd] at hidle
    cases hidle
  · rw [hstart]
    exact iff_of_true rfl ⟨x, hgate, hd⟩

/-- Whether a delivery of a session is under way. -/
def IsDelivering (w : World) (s : SessionId) : Prop :=
  ∃ x, w.session? s = some x ∧ x.feed.delivering = true

/-- A delivery is under way until it is ended. -/
theorem IsDelivering.perform (h : w.IsDelivering s) (hw : w.Reached) {c : Call}
    (hc : c ≠ .finishDelivery s) : (c.perform w).IsDelivering s := by
  obtain ⟨x, hx, hd⟩ := h
  obtain ⟨x', hx', hshifts, -⟩ := hw.shifts hx c
  exact ⟨x', hx', (hshifts.delivering hd).resolve_right hc⟩

theorem session?_startDelivery (h : (w.startDelivery t s).1 = .ok true) :
    ∃ x, w.session? s = some x ∧ (w.startDelivery t s).2.session? s =
      some { x with feed := { x.feed with delivering := true } } := by
  obtain ⟨x, hgate, hidle⟩ := startDelivery_eq_true_iff.mp h
  have heffect : Call.effect w (.startDelivery t s) = .move s .startDelivery := by
    simp only [Call.effect, asked_ok hgate, hidle, Bool.false_eq_true, if_false]
  have hx := (gate_eq_ok.mp hgate).1
  refine ⟨x, hx, ?_⟩
  rw [startDelivery_eq_effect, heffect]
  exact session?_move_self hx

theorem isDelivering_of_started (h : (w.startDelivery t s).1 = .ok true) :
    (w.startDelivery t s).2.IsDelivering s := by
  obtain ⟨x, -, hx⟩ := session?_startDelivery h
  exact ⟨_, hx, rfl⟩

theorem pending_of_started (h : (w.startDelivery t s).1 = .ok true) :
    (w.startDelivery t s).2.pending s = w.pending s := by
  obtain ⟨x, hx, hx'⟩ := session?_startDelivery h
  rw [pending_of_session hx, pending_of_session hx']

theorem IsDelivering.refuses (h : w.IsDelivering s) (t : Thread) :
    (w.startDelivery t s).1 ≠ .ok true ∧ (w.startDelivery t s).2 = w := by
  obtain ⟨x, hx, hd⟩ := h
  obtain ⟨e, -, hstart⟩ | ⟨y, -, -, hstart⟩ | ⟨y, hgate, hidle, -⟩ := startDelivery_cases w t s
  · rw [hstart]
    exact ⟨nofun, rfl⟩
  · rw [hstart]
    exact ⟨nofun, rfl⟩
  · obtain rfl := Option.some.inj (hx.symm.trans (gate_eq_ok.mp hgate).1)
    rw [hd] at hidle
    cases hidle

end

end World

/-! ## The thread of a session -/

def Call.IsStep (s : SessionId) (c : Call) : Prop :=
  (∃ t, c = .startDelivery t s) ∨ c = .nextNotice s ∨ c = .finishDelivery s

/-- What the thread of a session runs: its own code or that of an observer, or the loop of
a delivery. -/
inductive World.Part where
  | code
  | loop

/-- The calls that are made while the thread of a session runs code or a loop. The code makes
any calls, and other threads do too. A delivery that is begun goes through its loop,
and one that is refused is over. In the loop, an observer that is told of a change runs
code before the next step; the first step that tells nobody is the last. -/
inductive World.Course (s : SessionId) : Part → World → List Call → Prop
  | nothing {w : World} : Course s .code w []
  | call {w : World} {c : Call} {cs : List Call} (hc : ¬ c.IsStep s)
    (next : Course s .code (c.perform w) cs) : Course s .code w (c :: cs)
  | refused {w : World} {t : Thread} {cs : List Call}
    (answer : (w.startDelivery t s).1 ≠ .ok true)
    (next : Course s .code (w.startDelivery t s).2 cs) :
    Course s .code w (.startDelivery t s :: cs)
  | delivery {w : World} {t : Thread} {pass cs : List Call}
    (answer : (w.startDelivery t s).1 = .ok true)
    (loop : Course s .loop (w.startDelivery t s).2 pass)
    (next : Course s .code ((w.startDelivery t s).2.run pass) cs) :
    Course s .code w (.startDelivery t s :: (pass ++ cs))
  | tell {w : World} {n : Notice} {deeds pass : List Call}
    (told : (w.nextNotice s).1 = some n)
    (observer : Course s .code (w.nextNotice s).2 deeds)
    (next : Course s .loop ((w.nextNotice s).2.run deeds) pass) :
    Course s .loop w (.nextNotice s :: (deeds ++ pass))
  | done {w : World} (told : (w.nextNotice s).1 = none) :
    Course s .loop w [.nextNotice s, .finishDelivery s]

namespace World

variable {w : World} {s : SessionId}

theorem Course.of_delivering {p : Part} {cs : List Call} (h : Course s p w cs)
    (hw : w.Reached) (hd : w.IsDelivering s) :
    match p with
    | .code => .nextNotice s ∉ cs ∧ (w.run cs).IsDelivering s
    | .loop => ∃ during, cs = during ++ [.nextNotice s, .finishDelivery s] ∧
        ((w.run during).nextNotice s).1 = none := by
  induction h with
  | nothing => exact ⟨List.not_mem_nil, hd⟩
  | @call w c cs hc next ih =>
    have hfinish : c ≠ .finishDelivery s := fun h => hc (.inr (.inr h))
    obtain ⟨hnone, hstill⟩ := ih (hw.perform c) (hd.perform hw hfinish)
    refine ⟨?_, hstill⟩
    rw [List.mem_cons, not_or]
    exact ⟨fun h => hc (.inr (.inl h.symm)), hnone⟩
  | @refused w t cs answer next ih =>
    obtain ⟨hnone, hstill⟩ :=
      ih (hw.perform (.startDelivery t s)) (hd.perform (c := .startDelivery t s) hw (by simp))
    refine ⟨?_, hstill⟩
    rw [List.mem_cons, not_or]
    exact ⟨nofun, hnone⟩
  | delivery answer loop next => exact absurd answer (hd.refuses _).1
  | @tell w n deeds pass told observer next ihdeeds ihpass =>
    have hw' := hw.perform (.nextNotice s)
    have hd' : (w.nextNotice s).2.IsDelivering s := hd.perform (c := .nextNotice s) hw (by simp)
    obtain ⟨-, hstill⟩ := ihdeeds hw' hd'
    obtain ⟨during, rfl, hnone⟩ := ihpass (hw'.run deeds) hstill
    refine ⟨.nextNotice s :: (deeds ++ during), ?_, ?_⟩
    · simp only [List.cons_append, List.append_assoc]
    · rw [run_cons, run_append]
      exact hnone
  | done told => exact ⟨[], rfl, told⟩

/-! ## A delivery with the code of observers -/

section

variable {σ : Type} {tell : Notice → World × σ → World × σ} {x out : World × σ} {kept : σ}
  {ns : List Notice} {t : Thread}

/-- Observers are told of changes, one after the other, until there is none left. -/
inductive Telling (s : SessionId) (tell : Notice → World × σ → World × σ) :
    World × σ → List Notice → World × σ → Prop
  | done {x : World × σ} (told : (x.1.nextNotice s).1 = none) :
    Telling s tell x [] ((x.1.nextNotice s).2.finishDelivery s, x.2)
  | tell {x out : World × σ} {n : Notice} {ns : List Notice}
    (told : (x.1.nextNotice s).1 = some n)
    (next : Telling s tell (tell n ((x.1.nextNotice s).2, x.2)) ns out) :
    Telling s tell x (n :: ns) out

/-- The loop answers how often somebody is told in it. It answers if it comes to its end with no
more told than there may be, and else it does not. -/
theorem tellAll_eq_some_iff {most k : Nat} : tellAll s tell most x = some (k, out) ↔
    ∃ ns, Telling s tell x ns out ∧ k = ns.length ∧ ns.length ≤ most := by
  constructor
  · intro h
    fun_induction tellAll s tell most x generalizing k with
    | case1 most x w hnext =>
      obtain ⟨rfl, rfl⟩ := Prod.mk.inj (Option.some.inj h)
      obtain ⟨htold, rfl⟩ := Prod.mk.inj hnext
      exact ⟨[], .done htold, rfl, Nat.zero_le most⟩
    | case2 x n w hnext => cases h
    | case3 x n w hnext most ih =>
      obtain ⟨⟨count, rest⟩, hrest, hanswer⟩ := Option.map_eq_some_iff.mp h
      obtain ⟨rfl, rfl⟩ := Prod.mk.inj hanswer
      obtain ⟨htold, rfl⟩ := Prod.mk.inj hnext
      obtain ⟨ns, htelling, rfl, hmost⟩ := ih hrest
      exact ⟨n :: ns, .tell htold htelling, rfl, Nat.succ_le_succ hmost⟩
  · rintro ⟨ns, htelling, rfl, hmost⟩
    induction htelling generalizing most with
    | @done x told =>
      have hnext : x.1.nextNotice s = (none, (x.1.nextNotice s).2) := Prod.ext told rfl
      unfold tellAll
      rw [hnext]
      rfl
    | @tell x out n ns told next ih =>
      have hnext : x.1.nextNotice s = (some n, (x.1.nextNotice s).2) := Prod.ext told rfl
      obtain ⟨most, rfl⟩ := Nat.exists_eq_add_one_of_ne_zero (Nat.ne_zero_of_lt hmost)
      unfold tellAll
      rw [hnext]
      exact Option.map_eq_some_iff.mpr ⟨_, ih (Nat.le_of_succ_le_succ hmost), rfl⟩

/-- What a delivery comes to: it is refused, it tells nobody within another one, or it goes
through its loop and counts what is told. -/
inductive Delivered (t : Thread) (s : SessionId) (tell : Notice → World × σ → World × σ)
    (w : World) (kept : σ) : Except Error Nat × World × σ → Prop
  | refused {e : Error} (gate : w.gate t s = .error e) :
    Delivered t s tell w kept (.error e, w, kept)
  | nested {x : Session} (gate : w.gate t s = .ok x) (busy : x.feed.delivering = true) :
    Delivered t s tell w kept (.ok 0, w, kept)
  | through {x : Session} {ns : List Notice} {out : World × σ} (gate : w.gate t s = .ok x)
    (idle : x.feed.delivering = false)
    (telling : Telling s tell ((w.startDelivery t s).2, kept) ns out) :
    Delivered t s tell w kept (.ok ns.length, out)

/-- A delivery answers what it comes to, unless that is that more is told than may be, or that it
comes to no end. -/
theorem deliver_eq_some_iff {most : Nat} {out : Except Error Nat × World × σ} :
    w.deliver t s tell kept most = some out ↔
      Delivered t s tell w kept out ∧ ∀ k, out.1 = .ok k → k ≤ most := by
  obtain ⟨e, hgate, hstart⟩ | ⟨x, hgate, hd, hstart⟩ | ⟨x, hgate, hd, hstart⟩ :=
    startDelivery_cases w t s
  · rw [deliver, hstart, Option.some.injEq]
    constructor
    · rintro rfl
      exact ⟨.refused hgate, fun k hk => by cases hk⟩
    · rintro ⟨⟨hgate'⟩ | ⟨hgate', -⟩ | ⟨hgate', -, -⟩, -⟩
      all_goals cases hgate.symm.trans hgate'
      rfl
  · rw [deliver, hstart, Option.some.injEq]
    constructor
    · rintro rfl
      exact ⟨.nested hgate hd, fun k hk => Except.ok.inj hk ▸ Nat.zero_le most⟩
    · rintro ⟨⟨hgate'⟩ | ⟨hgate', -⟩ | ⟨hgate', hidle, -⟩, -⟩
      all_goals cases hgate.symm.trans hgate'
      · rfl
      · cases hd.symm.trans hidle
  · rw [deliver, hstart, Option.map_eq_some_iff]
    constructor
    · rintro ⟨⟨k, out⟩, htellAll, rfl⟩
      obtain ⟨ns, htelling, rfl, hmost⟩ := tellAll_eq_some_iff.mp htellAll
      refine ⟨.through hgate hd ?_, fun k hk => Except.ok.inj hk ▸ hmost⟩
      rwa [hstart]
    · rintro ⟨⟨hgate'⟩ | ⟨hgate', hbusy⟩ | ⟨hgate', -, htelling⟩, hmost⟩
      all_goals cases hgate.symm.trans hgate'
      · cases hd.symm.trans hbusy
      · rw [hstart] at htelling
        exact ⟨_, tellAll_eq_some_iff.mpr ⟨_, htelling, rfl, hmost _ rfl⟩, rfl⟩

/-- Observers whose code makes calls, on the thread of the session that tells them. -/
def MakesCalls (s : SessionId) (tell : Notice → World × σ → World × σ) : Prop :=
  ∀ n w kept, ∃ deeds, Course s .code w deeds ∧ (tell n (w, kept)).1 = w.run deeds

/-- Observers whose code queues nothing for anyone. -/
def QueuesNothing (s : SessionId) (tell : Notice → World × σ → World × σ) : Prop :=
  ∀ n w kept, ∃ deeds, w.queued s deeds = [] ∧ (tell n (w, kept)).1 = w.run deeds

/-- With observers whose code makes calls, a delivery is a course, and nothing is told in it but
by its own loop. -/
theorem Telling.course (h : Telling s tell x ns out) (htell : MakesCalls s tell)
    (hw : x.1.Reached) (hd : x.1.IsDelivering s) :
    ∃ loop, Course s .loop x.1 loop ∧ out.1 = x.1.run loop ∧ x.1.told s loop = ns := by
  induction h with
  | @done x told =>
    refine ⟨_, .done told, rfl, ?_⟩
    rw [told_cons, told_of_notMem (by simp), Call.told, if_pos rfl, told]
    rfl
  | @tell x out n ns told next ih =>
    have hw' := hw.perform (.nextNotice s)
    have hd' : (x.1.nextNotice s).2.IsDelivering s := hd.perform (c := .nextNotice s) hw (by simp)
    obtain ⟨deeds, hdeeds, hrun⟩ := htell n (x.1.nextNotice s).2 x.2
    obtain ⟨hnotMem, hstill⟩ := hdeeds.of_delivering hw' hd'
    rw [hrun] at ih
    obtain ⟨pass, hpass, hout, htold⟩ := ih (hw'.run deeds) hstill
    refine ⟨_, .tell told hdeeds hpass, ?_, ?_⟩
    · rw [run_cons, run_append]
      exact hout
    · have hown : Call.told x.1 s (.nextNotice s) = [n] := by
        rw [Call.told, if_pos rfl, told]
        rfl
      rw [told_cons, told_append, hown, told_of_notMem hnotMem]
      exact congrArg (n :: ·) htold

/-- A delivery whose observers queue nothing comes to its end: with every change told the queue
is shorter. -/
theorem exists_telling (htell : QueuesNothing s tell) (hw : x.1.Reached) :
    ∃ ns out, Telling s tell x ns out ∧ ns.length ≤ (x.1.pending s).length := by
  induction hk : (x.1.pending s).length using Nat.strongRecOn generalizing x with
  | ind k ih =>
    cases htold : (x.1.nextNotice s).1 with
    | none => exact ⟨[], _, .done htold, Nat.zero_le _⟩
    | some n =>
      have hw' := hw.perform (.nextNotice s)
      obtain ⟨deeds, hnone, hrun⟩ := htell n (x.1.nextNotice s).2 x.2
      have hshorter : ((tell n ((x.1.nextNotice s).2, x.2)).1.pending s).length < k := by
        rw [hrun, ← hk]
        exact Nat.lt_of_le_of_lt (pending_suffix hw' hnone).length_le
          (length_pending_nextNotice htold)
      have hreached : (tell n ((x.1.nextNotice s).2, x.2)).1.Reached := by
        rw [hrun]
        exact hw'.run deeds
      obtain ⟨ns, out, htelling, hlength⟩ := ih _ hshorter hreached rfl
      exact ⟨n :: ns, out, .tell htold htelling, Nat.lt_of_le_of_lt hlength (hk ▸ hshorter)⟩

/-- A delivery can be gone through: observers may do nothing. -/
theorem exists_loop (hw : w.Reached) (hd : w.IsDelivering s) : ∃ loop, Course s .loop w loop := by
  let idle (_ : Notice) (x : World × Unit) : World × Unit := x
  have hsilent : QueuesNothing s idle := fun _ _ _ => ⟨[], rfl, rfl⟩
  obtain ⟨ns, out, htelling, -⟩ := exists_telling (x := (w, ())) hsilent hw
  obtain ⟨loop, hloop, -⟩ :=
    htelling.course (fun _ _ _ => ⟨[], .nothing, rfl⟩) hw hd
  exact ⟨loop, hloop⟩

/-- What deliveries do in a world that calls lead to, with any code of observers. -/
structure Whole (w : World) (s : SessionId) : Prop where
  /-- One is begun by a thread that may use the session, unless one is under way. -/
  begins : ∀ t, (w.startDelivery t s).1 = .ok true ↔
    ∃ x, w.gate t s = .ok x ∧ x.feed.delivering = false
  /-- It answers what it comes to, unless more is told than may be. -/
  answer : ∀ (σ : Type) t tell (kept : σ) most out, w.deliver t s tell kept most = some out ↔
    Delivered t s tell w kept out ∧ ∀ k, out.1 = .ok k → k ≤ most
  /-- With observers whose code makes calls it is a course, in which just that is told which the
  observers are given. -/
  course : ∀ (σ : Type) t tell (kept : σ) ns out, (w.startDelivery t s).1 = .ok true →
    MakesCalls s tell → Telling s tell ((w.startDelivery t s).2, kept) ns out →
    ∃ loop, Course s .loop (w.startDelivery t s).2 loop ∧
      out.1 = (w.startDelivery t s).2.run loop ∧ (w.startDelivery t s).2.told s loop = ns
  /-- With observers that queue nothing there is an answer, and no more is told than was queued. -/
  ends : ∀ (σ : Type) t tell (kept : σ), QueuesNothing s tell →
    (w.deliver t s tell kept (w.pending s).length).isSome = true

theorem whole (hw : w.Reached) (s : SessionId) : Whole w s := by
  have hbegun (t : Thread) : (w.startDelivery t s).2.Reached := hw.perform (.startDelivery t s)
  constructor
  case begins => exact fun t => startDelivery_eq_true_iff
  case answer => exact fun σ t tell kept most out => deliver_eq_some_iff
  case course =>
    intro σ t tell kept ns out hstart htell htelling
    exact htelling.course htell (hbegun t) (isDelivering_of_started hstart)
  case ends =>
    intro σ t tell kept htell
    suffices h : ∃ out, Delivered t s tell w kept out ∧
        ∀ k, out.1 = .ok k → k ≤ (w.pending s).length by
      obtain ⟨out, hout⟩ := h
      rw [deliver_eq_some_iff.mpr hout]
      rfl
    obtain ⟨e, hgate, -⟩ | ⟨x, hgate, hd, -⟩ | ⟨x, hgate, hd, hstart⟩ :=
      startDelivery_cases w t s
    · exact ⟨_, .refused hgate, fun k hk => by cases hk⟩
    · exact ⟨_, .nested hgate hd, fun k hk => Except.ok.inj hk ▸ Nat.zero_le _⟩
    · obtain ⟨ns, out, htelling, hlength⟩ :=
        exists_telling (x := ((w.startDelivery t s).2, kept)) htell (hbegun t)
      refine ⟨_, .through hgate hd htelling, fun k hk => Except.ok.inj hk ▸ ?_⟩
      rwa [pending_of_started (congrArg Prod.fst hstart)] at hlength

end

end World

end ObjectStore
