import Mathlib.Data.List.Infix
import ObjectStore.Proofs.Run.Lock

/-
  Waiting for the write lock.

  A begin has two steps. The check comes first, then the session waits, and when the lock is
  granted the batch is put into it. Only closing may come from another thread, and it may
  come between the two. The second step does not check again, so a session that was closed
  while it waited gets a batch which nobody can end.

    1. `Lobby` is a world with the sessions that wait in it, `Lobby.run` any interleaving of
       calls and of the two steps. More of them are allowed than there are: nothing keeps a
       thread from calling while it waits.
    2. `World.stranded_perform` and `World.stranded_cases`: a closed session keeps its batch,
       and it gets one only by the second step of a begin.
    3. `Lobby.stranded_iff_admitted_closed`: a lock is stranded exactly where a session is
       admitted after it was closed, and then for ever.
    4. `Lobby.closing_strands_the_lock` is an interleaving in which that happens.
-/

namespace ObjectStore

/-! ## The two steps of a begin -/

/-- A world and the sessions that wait in it, each between the two steps of a begin. -/
structure Lobby where
  world : World
  waiting : List SessionId

/-- A step of an interleaving: a whole method, the check of a begin, or its second step. -/
inductive Lobby.Act where
  | call (c : Call) (hc : c.IsMethod)
  | ask (t : Thread) (s : SessionId)
  | grant (s : SessionId)

namespace Lobby

def empty : Lobby := ⟨.empty, []⟩

/-- What a step does. Only who waits is admitted, and only when the lock is free. -/
def perform (l : Lobby) : Act → Lobby
  | .call c _ => ⟨c.perform l.world, l.waiting⟩
  | .ask t s =>
    match l.world.checkBegin t s with
    | .ok () => ⟨l.world, l.waiting ++ [s]⟩
    | .error _ => l
  | .grant s =>
    if s ∈ l.waiting then
      match l.world.install s with
      | some w => ⟨w, l.waiting.erase s⟩
      | none => l
    else l

/-- What steps do, one after the other. -/
def run (l : Lobby) (acts : List Act) : Lobby := acts.foldl perform l

theorem run_append (l : Lobby) (acts more : List Act) :
    l.run (acts ++ more) = (l.run acts).run more :=
  List.foldl_append

theorem run_snoc (l : Lobby) (acts : List Act) (a : Act) :
    l.run (acts ++ [a]) = (l.run acts).perform a := by
  rw [run_append]
  rfl

theorem world_perform (l : Lobby) (a : Act) :
    (l.perform a).world = l.world ∨
      (∃ c : Call, c.IsMethod ∧ (l.perform a).world = c.perform l.world) ∨
      ∃ s, a = .grant s ∧ s ∈ l.waiting ∧
        (l.perform a).world = Call.perform l.world (.grant s) := by
  cases a with
  | call c hc => exact .inr (.inl ⟨c, hc, rfl⟩)
  | ask t s =>
    simp only [perform]
    cases l.world.checkBegin t s <;> exact .inl rfl
  | grant s =>
    simp only [perform]
    split
    · rename_i hs
      refine .inr (.inr ⟨s, rfl, hs, ?_⟩)
      rw [Call.perform]
      cases l.world.install s <;> rfl
    · exact .inl rfl

theorem world_run (l : Lobby) (acts : List Act) : ∃ cs, (l.run acts).world = l.world.run cs := by
  induction acts generalizing l with
  | nil => exact ⟨[], rfl⟩
  | cons a acts ih =>
    obtain ⟨cs, hcs⟩ := ih (l.perform a)
    rcases l.world_perform a with hsame | ⟨c, -, hcalled⟩ | ⟨s, -, -, hgranted⟩
    · exact ⟨cs, by rw [← hsame]; exact hcs⟩
    · exact ⟨c :: cs, by rw [World.run_cons, ← hcalled]; exact hcs⟩
    · exact ⟨.grant s :: cs, by rw [World.run_cons, ← hgranted]; exact hcs⟩

end Lobby

/-! ## Batches that nobody can end -/

namespace World

variable {w : World} {s : SessionId} {d : DatabaseId}

/-- A closed session of a database holds a batch. -/
def Stranded (w : World) (s : SessionId) (d : DatabaseId) : Prop :=
  ∃ x, w.session? s = some x ∧ x.database = d ∧ x.closed = true ∧ x.batch.isSome = true

theorem Stranded.hasBatch (h : w.Stranded s d) : w.HasBatch s d := by
  obtain ⟨x, hx, hd, -, hb⟩ := h
  exact ⟨x, hx, hd, hb⟩

theorem Stranded.not_isWriting (h : w.Stranded s d) : ¬ w.IsWriting s d := by
  obtain ⟨x, hx, -, hclosed, -⟩ := h
  rintro ⟨y, hy, -, hopen, -⟩
  obtain rfl := Option.some.inj (hx.symm.trans hy)
  rw [hclosed] at hopen
  cases hopen

theorem HasBatch.cases (h : w.HasBatch s d) : w.IsWriting s d ∨ w.Stranded s d := by
  obtain ⟨x, hx, hd, hb⟩ := h
  cases hclosed : x.closed with
  | false => exact .inl ⟨x, hx, hd, hclosed, hb⟩
  | true => exact .inr ⟨x, hx, hd, hclosed, hb⟩

/-- A closed session keeps its batch, whatever is called: every way out is behind the check
that the session is open. -/
theorem stranded_perform (hw : w.Orderly) (h : w.Stranded s d) (c : Call) :
    (c.perform w).Stranded s d := by
  have hbusy := hw.busy_of_hasBatch h.hasBatch
  obtain ⟨x, hx, rfl, hclosed, hb⟩ := h
  rcases session?_perform_of_some c hx with ⟨m, he, hself⟩ | ⟨hsame, -⟩
  · have hm := Call.enabled_of_effect he hx
    have hnot {p : Prop} (hopen : x.closed = false) : p := by
      rw [hclosed] at hopen
      cases hopen
    refine ⟨_, hself, Move.database_session m x, Move.closed_session m hclosed, ?_⟩
    cases m with
    | enter => exact absurd (hm.symm.trans hbusy) Bool.false_ne_true
    | write e => exact hnot hm.1
    | publish => exact hnot hm.1
    | drop => exact hnot hm
    | close => exact hnot hm
    | forward => exact hnot hm.1
    | subscribe r => exact hnot hm
    | startDelivery => exact hnot hm.1
    | unsubscribe o => exact hb
    | takeNotice => exact hb
    | endDelivery => exact hb
  · exact ⟨x, hsame, rfl, hclosed, hb⟩

theorem stranded_run (hw : w.Orderly) (h : w.Stranded s d) (cs : List Call) :
    (w.run cs).Stranded s d := by
  induction cs generalizing w with
  | nil => exact h
  | cons c cs ih => exact ih (orderly_perform hw c) (stranded_perform hw h c)

/-- A closed session has had its batch before, or was closed when the lock was granted
to it. -/
theorem stranded_cases (c : Call) (h : (c.perform w).Stranded s d) :
    w.Stranded s d ∨ c = .grant s ∧ ∃ x, w.session? s = some x ∧ x.database = d ∧
      x.closed = true ∧ (w.database d).engine.busy = false := by
  obtain ⟨x', hx', rfl, hclosed, hb⟩ := h
  rcases session?_perform_cases c hx' with ⟨x, m, hx, he, rfl⟩ | ⟨hx, -⟩ | ⟨-, t, d, rfl⟩
  · have hm := Call.enabled_of_effect he hx
    rw [Move.database_session]
    have hnone {p : Prop} (hexit : m.IsExit) : p := by
      rw [hexit.batch_eq] at hb
      cases hb
    cases m with
    | enter =>
      refine .inr ⟨?_, x, hx, rfl, hclosed, hm⟩
      by_cases hc : c.IsMethod
      · exact absurd ((Call.open_of_enter hc he hx).symm.trans hclosed) Bool.false_ne_true
      · cases c with
        | grant s' =>
          have hthrough := Call.through_of_effect he
          cases hthrough
          rfl
        | _ => exact absurd trivial hc
    | write e => exact absurd (hm.1.symm.trans hclosed) Bool.false_ne_true
    | publish => exact hnone trivial
    | drop => exact hnone trivial
    | close => exact hnone trivial
    | _ => exact .inl ⟨x, hx, rfl, hclosed, hb⟩
  · exact .inl ⟨x', hx, rfl, hclosed, hb⟩
  · cases hclosed

theorem install_of_free {x : Session} (hx : w.session? s = some x)
    (hfree : (w.database x.database).engine.busy = false) :
    w.install s = some (w.move s .enter) := by
  simp only [install, hx, Engine.beginWrite, hfree, Bool.false_eq_true, if_false, move,
    Move.session, Move.engine, Batch.start]

end World

/-! ## Admitted after closing -/

namespace Lobby

variable {l : Lobby} {s : SessionId} {d : DatabaseId} {acts : List Lobby.Act}

/-- A session that was closed while it waits, and whose lock is free to be granted to it. -/
def AdmitsClosed (l : Lobby) (s : SessionId) (d : DatabaseId) : Prop :=
  s ∈ l.waiting ∧ ∃ x, l.world.session? s = some x ∧ x.database = d ∧ x.closed = true ∧
    (l.world.database d).engine.busy = false

theorem orderly_run (acts : List Act) : (empty.run acts).world.Orderly := by
  obtain ⟨cs, hcs⟩ := empty.world_run acts
  rw [hcs]
  exact World.orderly_run cs

theorem stranded_cases {a : Act} (h : (l.perform a).world.Stranded s d) :
    l.world.Stranded s d ∨ a = .grant s ∧ l.AdmitsClosed s d := by
  rcases l.world_perform a with hsame | ⟨c, hc, hcalled⟩ | ⟨s', rfl, hwaits, hgranted⟩
  · rw [hsame] at h
    exact .inl h
  · rw [hcalled] at h
    rcases World.stranded_cases c h with hold | ⟨rfl, -⟩
    · exact .inl hold
    · exact absurd hc id
  · rw [hgranted] at h
    rcases World.stranded_cases _ h with hold | ⟨hsame, hclosed⟩
    · exact .inl hold
    · cases hsame
      exact .inr ⟨rfl, hwaits, hclosed⟩

theorem stranded_of_admitsClosed (h : l.AdmitsClosed s d) :
    (l.perform (.grant s)).world.Stranded s d := by
  obtain ⟨hwaits, x, hx, rfl, hclosed, hfree⟩ := h
  simp only [perform, hwaits, if_true, World.install_of_free hx hfree]
  exact ⟨_, World.session?_move_self hx, rfl, hclosed, rfl⟩

/-- A batch is stranded exactly if its session was admitted after it was closed. -/
theorem stranded_iff_admitted_closed (acts : List Act) (s : SessionId) (d : DatabaseId) :
    (empty.run acts).world.Stranded s d ↔ ∃ before after,
      acts = before ++ .grant s :: after ∧ (empty.run before).AdmitsClosed s d := by
  constructor
  · intro h
    induction acts using List.reverseRecOn with
    | nil =>
      obtain ⟨x, hx, -⟩ := h
      cases hx
    | append_singleton acts a ih =>
      rw [run_snoc] at h
      rcases stranded_cases h with hold | ⟨rfl, hadmits⟩
      · obtain ⟨before, after, rfl, hadmits⟩ := ih hold
        exact ⟨before, after ++ [a], by simp, hadmits⟩
      · exact ⟨acts, [], rfl, hadmits⟩
  · rintro ⟨before, after, rfl, hadmits⟩
    have hs : (empty.run (before ++ [.grant s])).world.Stranded s d := by
      rw [run_snoc]
      exact stranded_of_admitsClosed hadmits
    obtain ⟨cs, hcs⟩ := (empty.run (before ++ [.grant s])).world_run after
    rw [List.append_cons, run_append, hcs]
    exact World.stranded_run (orderly_run _) hs cs

theorem isWriting_of_begin {x : Session} (hx : l.world.session? s = some x)
    (hopen : x.closed = false) (hb : x.batch = none)
    (hfree : (l.world.database x.database).engine.busy = false) :
    ((l.perform (.ask x.owner s)).perform (.grant s)).world.IsWriting s x.database := by
  have hcheck : l.world.checkBegin x.owner s = .ok () := by
    simp only [World.checkBegin, World.gate_eq_ok.mpr ⟨hx, rfl, hopen⟩, hb, Option.isSome_none,
      Bool.false_eq_true, if_false]
  have hasked : l.perform (.ask x.owner s) = ⟨l.world, l.waiting ++ [s]⟩ := by
    simp only [perform, hcheck]
  rw [hasked]
  simp only [perform, List.mem_append, List.mem_singleton, or_true, if_true,
    World.install_of_free hx hfree]
  exact ⟨_, World.session?_move_self hx, rfl, hopen, rfl⟩

/--
Whatever is called, from whatever threads, and however the two steps of begins lie between
the calls:

1. The lock of a database is taken if and only if an open session of it is inside a write, or
   a closed one holds a batch.
2. A closed session holds a batch exactly if it was admitted after it was closed.
3. So if no session is closed while it waits, no closed session holds a batch. Then the lock
   of a database is free whenever no open session of it is inside a write, and whichever
   begins next is granted it.
4. But once a closed session holds a batch, the lock is taken for ever, and no open session
   is ever inside a write again.
-/
theorem lock_returns_unless_stranded (acts : List Lobby.Act) :
    let l := empty.run acts
    (∀ d, (l.world.database d).engine.busy = true ↔
      (∃ s, l.world.IsWriting s d) ∨ ∃ s, l.world.Stranded s d) ∧
    (∀ s d, l.world.Stranded s d ↔ ∃ before after,
      acts = before ++ .grant s :: after ∧ (empty.run before).AdmitsClosed s d) ∧
    ((∀ before, before <+: acts → ∀ s ∈ (empty.run before).waiting,
        (empty.run before).world.isClosed s = false) →
      (∀ s d, ¬ l.world.Stranded s d) ∧
      ∀ d, (∀ s, ¬ l.world.IsWriting s d) → (l.world.database d).engine.busy = false ∧
        ∀ s x, l.world.session? s = some x → x.database = d → x.closed = false →
          ((l.perform (.ask x.owner s)).perform (.grant s)).world.IsWriting s d) ∧
    ∀ s d, l.world.Stranded s d → ∀ more, ((l.run more).world.database d).engine.busy = true ∧
      ∀ s', ¬ (l.run more).world.IsWriting s' d := by
  intro l
  have hw : l.world.Orderly := orderly_run acts
  have hbusy (d : DatabaseId) : (l.world.database d).engine.busy = true ↔
      (∃ s, l.world.IsWriting s d) ∨ ∃ s, l.world.Stranded s d := by
    constructor
    · intro hbusy
      obtain ⟨cs, hcs⟩ := empty.world_run acts
      have hheld : ∃ s, l.world.HasBatch s d := by
        rw [show l.world = _ from hcs] at hbusy ⊢
        exact World.held_run cs d hbusy
      obtain ⟨s, hs⟩ := hheld
      exact hs.cases.imp (fun h => ⟨s, h⟩) fun h => ⟨s, h⟩
    · rintro (⟨s, hs⟩ | ⟨s, hs⟩)
      · exact hw.busy_of_hasBatch (World.isWriting_iff.mp hs).1
      · exact hw.busy_of_hasBatch hs.hasBatch
  refine ⟨hbusy, stranded_iff_admitted_closed acts, fun hopen => ?_, fun s d hs more => ?_⟩
  · have hnone (s : SessionId) (d : DatabaseId) : ¬ l.world.Stranded s d := by
      intro hs
      obtain ⟨before, after, rfl, hwaits, x, hx, -, hclosed, -⟩ :=
        (stranded_iff_admitted_closed acts s d).mp hs
      have hstill := hopen before (List.prefix_append _ _) s hwaits
      simp only [World.isClosed, World.peek, hx, hclosed, if_true, Option.isNone_none] at hstill
      cases hstill
    refine ⟨hnone, fun d hquiet => ?_⟩
    have hfree : (l.world.database d).engine.busy = false := by
      apply Bool.eq_false_iff.mpr
      intro htaken
      rcases (hbusy d).mp htaken with ⟨s, hs⟩ | ⟨s, hs⟩
      · exact hquiet s hs
      · exact hnone s d hs
    refine ⟨hfree, fun s x hx hd hopen => ?_⟩
    subst hd
    have hb : x.batch = none := by
      cases hb : x.batch with
      | none => rfl
      | some b => exact absurd ⟨x, hx, rfl, hopen, by rw [hb]; rfl⟩ (hquiet s)
    exact isWriting_of_begin hx hopen hb hfree
  · obtain ⟨cs, hcs⟩ := l.world_run more
    have hw' : (l.run more).world.Orderly := by
      rw [hcs]
      exact hw.run cs
    have hs' : (l.run more).world.Stranded s d := by
      rw [hcs]
      exact World.stranded_run hw hs cs
    refine ⟨hw'.busy_of_hasBatch hs'.hasBatch, fun s' hs'' => ?_⟩
    obtain rfl := hw'.hasBatch_unique hs'.hasBatch (World.isWriting_iff.mp hs'').1
    exact hs'.not_isWriting hs''

/-- Two sessions of two threads; the second one waits while the first one is inside a
write. -/
def secondWaits : List Lobby.Act :=
  [.call (.openDatabase Reader.dogs false) trivial, .call (.openSession 0 ⟨0⟩) trivial,
    .call (.openSession 1 ⟨0⟩) trivial, .ask 0 ⟨0⟩, .grant ⟨0⟩, .ask 1 ⟨1⟩]

/-- The first write ends, the second one is admitted and ends too. -/
def bothWrite : List Lobby.Act :=
  secondWaits ++ [.call (.commit 0 ⟨0⟩) trivial, .grant ⟨1⟩, .call (.cancel 1 ⟨1⟩) trivial]

/-- Nobody was closed, so the lock is free again and the first session is granted it. -/
theorem lock_returns_after_both :
    let l := empty.run bothWrite
    (l.world.database ⟨0⟩).engine.busy = false ∧
      ((l.perform (.ask 0 ⟨0⟩)).perform (.grant ⟨0⟩)).world.IsWriting ⟨0⟩ ⟨0⟩ := by
  intro l
  obtain ⟨-, -, hreturns, -⟩ := lock_returns_unless_stranded bothWrite
  have hopen : ∀ before, before <+: bothWrite → ∀ s ∈ (empty.run before).waiting,
      (empty.run before).world.isClosed s = false := by
    have hall : (bothWrite.inits.all fun before => (empty.run before).waiting.all fun s =>
        !(empty.run before).world.isClosed s) = true := rfl
    intro before hbefore s hs
    have hthen := List.all_eq_true.mp hall before ((List.mem_inits before bothWrite).mpr hbefore)
    simpa using List.all_eq_true.mp hthen s hs
  have hquiet : ∀ s, ¬ l.world.IsWriting s ⟨0⟩ := by
    intro s hs
    have hw : l.world.Orderly := orderly_run bothWrite
    exact Bool.false_ne_true (hw.busy_of_hasBatch (World.isWriting_iff.mp hs).1)
  obtain ⟨hfree, hgranted⟩ := (hreturns hopen).2 ⟨0⟩ hquiet
  exact ⟨hfree, hgranted ⟨0⟩ _ rfl rfl rfl⟩

/-- The second session is closed while it waits, and admitted when the first write ends. -/
def closedWhileWaiting : List Lobby.Act :=
  secondWaits ++ [.call (.close ⟨1⟩) trivial, .call (.commit 0 ⟨0⟩) trivial, .grant ⟨1⟩]

/-- Nobody is inside a write and nobody waits, but the closed session holds a batch, and
the first session has to wait for the lock. -/
theorem closing_strands_the_lock :
    let l := empty.run closedWhileWaiting
    l.world.Stranded ⟨1⟩ ⟨0⟩ ∧ (∀ s, ¬ l.world.IsWriting s ⟨0⟩) ∧ l.waiting = [] ∧
      (l.world.database ⟨0⟩).engine.busy = true ∧ l.world.isClosed ⟨0⟩ = false ∧
      l.world.begin? 0 ⟨0⟩ = none := by
  intro l
  have hs : l.world.Stranded ⟨1⟩ ⟨0⟩ := ⟨_, rfl, rfl, rfl, rfl⟩
  refine ⟨hs, fun s hs' => ?_, rfl, rfl, rfl, rfl⟩
  have hw : l.world.Orderly := orderly_run closedWhileWaiting
  obtain rfl := hw.hasBatch_unique hs.hasBatch (World.isWriting_iff.mp hs').1
  exact hs.not_isWriting hs'

end Lobby

end ObjectStore
