import ObjectStore.Proofs.Run.Delivery
import ObjectStore.Proofs.Run.Isolation

/-
  Whom a session serves.

  A session serves the thread that opened it, and until it is closed. Everything that can be
  asked of it, or of a live handle of it, is a `Request`. The check of thread and closing
  comes before the first effect of each of them, and only operands that need no content are
  looked at before.

    1. `World.gate_of_barred`: what the check says, the thread first.
    2. `Request.answer_barred`: a request is answered with that and nothing else happens.
    3. `World.write?_of_barred` and `World.startDelivery_of_barred`: the operation of a write
       is not run, and no observer is told.
    4. `World.sessions_are_gated` puts (1) to (3) together. Frozen handles are not concerned.
-/

namespace ObjectStore

/-! ## Requests -/

/-- What a thread can ask of a session or of a live list, set or view of it. -/
inductive Request where
  | ask (q : Question)
  | read (recipe : Recipe) (kept : Option (Nat × List Row)) (r : Read)
  | begin
  | commit
  | cancel
  | refresh
  | deliver
  | resolve (token : HandoverToken)
  | create (className : String) (fields : List (String × Value))
  | delete (key : ObjectKey)
  | setValue (key : ObjectKey) (property : String) (v : Value)
  | edit (c : Container) (e : ElementEdit)
  | assign (key : ObjectKey) (property : String) (values : Collection)
  | observe (c : Container)
  | observeView (recipe : Recipe) (kept : Option (Nat × List Row))

/-- An outcome with its value put as a reply. -/
def replying {α : Type} (f : α → Reply) (out : Except Error α × World) :
    Except Error Reply × World :=
  (out.1.map f, out.2)

/-- The answer to a write of elements, and the world afterwards. -/
def ElementEdit.answer (w : World) (t : Thread) (c : Collection) :
    ElementEdit → Except Error Reply × World
  | .append v => replying .truth (c.append w t v)
  | .insert i v => replying (fun _ => .done) (c.insert w t i v)
  | .remove i => replying .value (c.remove w t i)
  | .removeValue v => replying .truth (c.removeValue w t v)
  | .replace i v => replying .value (c.replace w t i v)
  | .clear => replying (fun _ => .done) (c.clear w t)
  | .deleteObjects => replying .count (c.deleteObjects w t)

namespace Request

/-- The answer to a request, and the world afterwards; nothing if it has to wait. -/
def answer (w : World) (t : Thread) (s : SessionId) :
    Request → Option (Except Error Reply × World)
  | .ask q => some (q.answer w t s, w)
  | .read recipe kept r => some (r.answer w t ⟨.live s, recipe, kept⟩, w)
  | .begin => (w.begin? t s).map (replying fun _ => .done)
  | .commit => some (replying .generation (w.commit t s))
  | .cancel => some (replying (fun _ => .done) (w.cancel t s))
  | .refresh => some (replying .truth (w.refresh t s))
  | .deliver => some (replying .truth (w.startDelivery t s))
  | .resolve token => some (replying .located (w.resolve t s token))
  | .create className fields => some (replying .object (w.create t s className fields))
  | .delete key => some (replying .truth (w.delete t s key))
  | .setValue key property v => some (replying (fun _ => .done) (w.setValue t s key property v))
  | .edit c e => some (e.answer w t (.bound (.live s) c))
  | .assign key property values =>
    some (replying .collection (w.assign t s key property values))
  | .observe c => some (replying .observer ((Collection.bound (.live s) c).observe w t))
  | .observeView recipe kept =>
    let (id, _, w) := (⟨.live s, recipe, kept⟩ : Results).observe w t
    some (replying .observer (id, w))

/-- The check of operands that comes before the session is looked at: of what an aggregate
is asked of, of the fields of a new object, and of the values for a list or set. -/
def operands (schema : Schema) : Request → Except Error Unit
  | .ask q => q.operands
  | .read _ _ r => r.operands
  | .create className fields => do
    let c ← schema.find className
    let _ ← c.checkFields fields
  | .assign _ _ values => values.plainValues.map fun _ => ()
  | _ => .ok ()

end Request

/-! ## Where a session may not be used -/

/-- Why a thread may not use a session. -/
def Session.refusal (x : Session) (t : Thread) (s : SessionId) : Error :=
  if t ≠ x.owner then .wrongThread else .staleReference (.session s)

namespace World

variable {w : World} {t : Thread} {s : SessionId} {x : Session} {e : Error} {α : Type}

theorem gate_of_barred (hx : w.session? s = some x) (h : t ≠ x.owner ∨ x.closed = true) :
    w.gate t s = .error (x.refusal t s) := by
  simp only [gate, hx, Session.refusal]
  by_cases ht : t ≠ x.owner
  · rw [if_pos ht, if_pos ht]
  · rw [if_neg ht, if_neg ht, if_pos (h.resolve_left ht)]

theorem mutate_of_barred (h : w.gate t s = .error e) (f : Batch → Except Error α × Batch) :
    w.mutate t s f = (.error e, w) := by
  simp only [mutate, h]

theorem elements_of_barred (h : w.gate t s = .error e) (c : Container) (ed : ElementEdit) :
    ed.answer w t (.bound (.live s) c) = (.error e, w) := by
  cases ed <;>
    simp only [ElementEdit.answer, Collection.append, Collection.insert, Collection.remove,
      Collection.removeValue, Collection.replace, Collection.clear, Collection.deleteObjects,
      Collection.mutate, mutate_of_barred h, replying, Except.map]

theorem create_of_barred (h : w.gate t s = .error e) (className : String)
    (fields : List (String × Value)) :
    w.create t s className fields =
      (((w.schemaOf s).find className).bind fun c =>
        (c.checkFields fields).bind fun _ => .error e, w) := by
  simp only [create, bind, Except.bind]
  cases (w.schemaOf s).find className with
  | error e' => rfl
  | ok c =>
    simp only
    cases c.checkFields fields with
    | error e' => rfl
    | ok given =>
      simp only [pure, Except.pure]
      exact mutate_of_barred h _

theorem assign_of_barred (h : w.gate t s = .error e) (key : ObjectKey) (property : String)
    (values : Collection) :
    w.assign t s key property values = (values.plainValues.bind fun _ => .error e, w) := by
  have hcollection : w.collection t s key property = .error e := by
    simp only [collection, read, h]
    rfl
  simp only [assign, bind, Except.bind]
  cases values.plainValues with
  | error e' => rfl
  | ok vs => simp only [hcollection]

theorem observe_of_barred (h : w.gate t s = .error e) (recipe : Recipe)
    (kept : Option (Nat × List Row)) :
    (⟨.live s, recipe, kept⟩ : Results).observe w t = (.error e, ⟨.live s, recipe, kept⟩, w) := by
  have hrows := Results.rows_of_barred (v := ⟨.live s, recipe, kept⟩) (w := w) (t := t) (e := e)
    (by rw [Binding.sees_live, h]; rfl)
  simp only [Results.observe, hrows]

/-- The operation of a write is not run. -/
theorem write?_of_barred (h : w.gate t s = .error e) (f : World → Except Error α × World) :
    w.write? t s f = some (.error e, w) := by
  simp only [write?, begin?, checkBegin, h]

theorem startDelivery_of_barred (h : w.gate t s = .error e) :
    w.startDelivery t s = (.error e, w) := by
  simp only [startDelivery, h]

theorem course_of_barred (h : w.gate t s = .error e) {cs : List Call}
    (hcourse : Course s .code w (.startDelivery t s :: cs)) : Course s .code w cs := by
  generalize hall : (Call.startDelivery t s :: cs) = all at hcourse
  cases hcourse with
  | nothing => cases hall
  | call hc next =>
    cases hall
    exact absurd (.inl ⟨t, rfl⟩) hc
  | refused answer next =>
    cases hall
    rw [startDelivery_of_barred h] at next
    exact next
  | delivery answer loop next =>
    cases hall
    rw [startDelivery_of_barred h] at answer
    cases answer

end World

/-- Where a session may not be used, every request is answered with the reason, if its
operands are right, and nothing happens. -/
theorem Request.answer_barred {w : World} {t : Thread} {s : SessionId} {e : Error}
    (h : w.gate t s = .error e) (q : Request) :
    q.answer w t s = some ((q.operands (w.schemaOf s)).bind fun _ => .error e, w) := by
  have hgeneration : w.generation t s = .error e := by
    simp only [World.generation, h]
    rfl
  cases q with
  | ask q => simp only [answer, operands, q.answer_barred h]
  | read recipe kept r =>
    have hsees : (⟨.live s, recipe, kept⟩ : Results).binding.sees w t = .error e := by
      rw [Binding.sees_live, h]
      rfl
    simp only [answer, operands, r.answer_barred hsees]
  | begin =>
    simp only [answer, World.begin?, World.checkBegin, h, Option.map_some]
    rfl
  | commit => simp only [answer, World.commit, h]; rfl
  | cancel => simp only [answer, World.cancel, h]; rfl
  | refresh => simp only [answer, World.refresh, h]; rfl
  | deliver => simp only [answer, World.startDelivery, h]; rfl
  | resolve token => simp only [answer, World.resolve, hgeneration]; rfl
  | create className fields =>
    simp only [answer, World.create_of_barred h, replying, operands, bind, Except.bind]
    cases (w.schemaOf s).find className with
    | error e' => rfl
    | ok c =>
      simp only
      cases c.checkFields fields <;> rfl
  | delete key => simp only [answer, World.delete, World.mutate_of_barred h]; rfl
  | setValue key property v => simp only [answer, World.setValue, World.mutate_of_barred h]; rfl
  | edit c ed => simp only [answer, World.elements_of_barred h]; rfl
  | assign key property values =>
    simp only [answer, World.assign_of_barred h, replying, operands]
    cases values.plainValues <;> rfl
  | observe c =>
    simp only [answer, Collection.observe, Collection.asResults, Collection.attached, Except.map,
      Results.ofRecipe, World.observe_of_barred h]
    rfl
  | observeView recipe kept => simp only [answer, World.observe_of_barred h]; rfl

/-! ## The gate -/

theorem Collection.values_of_freeze {s : SessionId} {c : Container} {f : Collection}
    {w₀ : World} {t₀ : Thread} (h : (bound (.live s) c).freeze w₀ t₀ = .ok f) (w : World)
    (t : Thread) : ∃ vs, f.values w t = .ok vs := by
  obtain ⟨snapshot, es, -, hes, rfl⟩ := of_freeze h
  refine ⟨es.map (·.value), ?_⟩
  rw [values_eq, Binding.sees_frozen]
  simp only [Except.bind, hes, Except.map]

theorem Results.answer_of_freeze {b : Binding} {recipe : Recipe} {f : Results} {w₀ : World}
    {t₀ : Thread} (h : (ofRecipe b recipe).freeze w₀ t₀ = .ok f) (w : World) (t : Thread)
    (r : Read) : r.answer w t f = r.answer w₀ t₀ (ofRecipe b recipe) := by
  obtain ⟨snapshot, rfl, hsees, -⟩ := of_freeze h
  apply r.answer_congr (fresh_ofRecipe (.frozen snapshot) recipe w t)
    (fresh_ofRecipe b recipe w₀ t₀) rfl
  exact hsees.symm

namespace World

/--
In every world, for a thread other than the one that has opened a session, and for every
thread once the session is closed:

1. Every request to the session, or to a live list, set or view of it, is refused at once:
   because of the thread, or else because the session is closed, unless operands that need
   no content are wrong. All databases with their locks stay as they are, and so do all
   sessions with their views, versions and queues.
2. A view that is read keeps just what it kept.
3. The operation of a write is not run, whatever it would do. No observer is told: the loop
   of a delivery is not begun.
4. What has been frozen of the session in an earlier world is read as it was there.
-/
theorem sessions_are_gated {w : World} {t : Thread} {s : SessionId} {x : Session}
    (hx : w.session? s = some x) (h : t ≠ x.owner ∨ x.closed = true) :
    (∀ q : Request, q.answer w t s =
      some ((q.operands (w.schemaOf s)).bind fun _ => .error (x.refusal t s), w)) ∧
    (∀ recipe kept (r : Read),
      r.after w t ⟨.live s, recipe, kept⟩ = ⟨.live s, recipe, kept⟩) ∧
    (∀ (α : Type) (f : World → Except Error α × World),
      w.write? t s f = some (.error (x.refusal t s), w)) ∧
    (∀ cs, Course s .code w (.startDelivery t s :: cs) → Course s .code w cs) ∧
    (∀ c w₀ t₀ f, (Collection.bound (.live s) c).freeze w₀ t₀ = .ok f →
      (∃ vs, f.values w t = .ok vs) ∧
        ∀ l : Look, l.answer w t f = l.answer w₀ t₀ (.bound (.live s) c)) ∧
    ∀ recipe w₀ t₀ f, (Results.ofRecipe (.live s) recipe).freeze w₀ t₀ = .ok f →
      ∀ r : Read, r.answer w t f = r.answer w₀ t₀ (.ofRecipe (.live s) recipe) := by
  have hgate := gate_of_barred hx h
  refine ⟨fun q => q.answer_barred hgate, fun recipe kept r => ?_,
    fun α f => write?_of_barred hgate f, fun cs hcs => course_of_barred hgate hcs,
    fun c w₀ t₀ f hf => ⟨Collection.values_of_freeze hf w t, fun l => ?_⟩,
    fun recipe w₀ t₀ f hf r => Results.answer_of_freeze hf w t r⟩
  · have hrows : (⟨.live s, recipe, kept⟩ : Results).rows w t =
        (.error (x.refusal t s), ⟨.live s, recipe, kept⟩) := by
      apply Results.rows_of_barred
      rw [Binding.sees_live, hgate]
      rfl
    rcases Reader.after_cases w t ⟨.live s, recipe, kept⟩ r with hafter | hafter
    · exact hafter
    · rw [hafter, hrows]
  · exact (Collection.standsFor_of_freeze hf).answer w t l

/-- The tags of a dog are frozen, and the session is closed. Before, it does not commit for
another thread, and afterwards for none; the frozen tags are read by that other thread. -/
theorem closed_session_refuses :
    let before := empty.run taggedDog
    let after := empty.run (taggedDog ++ [.close ⟨0⟩])
    Request.commit.answer before 1 ⟨0⟩ = some (.error .wrongThread, before) ∧
      Request.commit.answer after 0 ⟨0⟩ =
        some (.error (.staleReference (.session ⟨0⟩)), after) ∧
      ∃ f, (Collection.bound (.live ⟨0⟩) dogTags).freeze before 0 = .ok f ∧
        Look.answer after 1 f .values = .ok (.values [.string "old"]) := by
  intro before after
  obtain ⟨x, hx⟩ : ∃ x, before.session? ⟨0⟩ = some x := ⟨_, rfl⟩
  obtain ⟨y, hy, hclosed⟩ : ∃ y, after.session? ⟨0⟩ = some y ∧ y.closed = true := ⟨_, rfl, rfl⟩
  have howner : x.owner = 0 := by
    cases hx
    rfl
  have howner' : y.owner = 0 := by
    cases hy
    rfl
  have hother : (1 : Thread) ≠ x.owner := by
    rw [howner]
    decide
  have hwrong := (sessions_are_gated hx (.inl hother)).1 .commit
  obtain ⟨hstale, -, -, -, hlist, -⟩ := sessions_are_gated hy (t := 1) (.inr hclosed)
  have hrefused := (sessions_are_gated hy (t := 0) (.inr hclosed)).1 .commit
  refine ⟨?_, ?_, _, rfl, ((hlist dogTags before 0 _ rfl).2 .values).trans rfl⟩
  · rw [hwrong, Session.refusal, if_pos hother]
    rfl
  · rw [hrefused, Session.refusal, howner']
    rfl

end World

end ObjectStore
