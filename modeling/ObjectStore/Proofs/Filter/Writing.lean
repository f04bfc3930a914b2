import ObjectStore.Filter.Predicate
import ObjectStore.Proofs.Filter.Sameness

/-
  The writing of a tree tells the tree.

  A writing is read from left to right. Its first character tells a path from a placeholder
  and from a bracket. A path ends where no more characters of names and points come, and
  the word behind it, up to the next space, tells which condition on it is meant. Whatever
  contains a connective stands in brackets inside a joined form, so that a sign between two
  children belongs to the node that is being read.

    1. `Emission.Agrees`: writings are compared by text, and by literals as data. The text
       is taken off piece by piece (`Agrees.plain`, `Agrees.literal`, `Agrees.word`).
    2. `Path.text_injective`: paths of valid names are told apart.
    3. `Expr.Led` are the conditions that begin with a path. The word tells them apart
       (`Led.same`).
    4. `Expr.told` is the main induction: a tree is told by its writing, whatever is
       written behind it. `Expr.same_of_agrees` is the same for a whole writing.
-/

namespace ObjectStore

theorem cut_eq {q : Char → Bool} {u u' x x' : List Char} (hu : ∀ c ∈ u, q c = true)
    (hu' : ∀ c ∈ u', q c = true) (hx : ∀ c ∈ x.head?, q c = false)
    (hx' : ∀ c ∈ x'.head?, q c = false) (h : u ++ x = u' ++ x') : u = u' ∧ x = x' := by
  have hstop {y : List Char} (hy : ∀ c ∈ y.head?, q c = false) : y.takeWhile q = [] := by
    cases y with
    | nil => rfl
    | cons c cs => simp only [List.takeWhile_cons, hy c rfl, Bool.false_eq_true, if_false]
  have htake := congrArg (List.takeWhile q) h
  rw [List.takeWhile_append_of_pos hu, List.takeWhile_append_of_pos hu', hstop hx, hstop hx',
    List.append_nil, List.append_nil] at htake
  subst htake
  exact ⟨rfl, List.append_cancel_left h⟩

/-! ## Writings -/

namespace Emission

theorem append_assoc (a b c : Emission) : a ++ b ++ c = a ++ (b ++ c) := by
  show Emission.mk _ _ = Emission.mk _ _
  congr 1
  · exact List.append_assoc _ _ _
  · exact List.append_assoc _ _ _

theorem append_nothing (a : Emission) : a ++ nothing = a := by
  show Emission.mk (a.text ++ []) (a.arguments ++ []) = a
  rw [List.append_nil, List.append_nil]

theorem nothing_append (a : Emission) : nothing ++ a = a := rfl

theorem plain_append (s t : String) : plain (s ++ t) = plain s ++ plain t := by
  show Emission.mk _ _ = Emission.mk _ _
  rw [String.toList_append]
  rfl

/-- Equal texts, and literals of the same data. -/
structure Agrees (m m' : Emission) : Prop where
  text : m.text = m'.text
  arguments : Predicate.sameArguments m.arguments m'.arguments = true

variable {m m' r r' : Emission} {s s' : String}

theorem Agrees.plain (h : (Emission.plain s ++ r).Agrees (Emission.plain s ++ r')) :
    r.Agrees r' :=
  ⟨List.append_cancel_left h.text, h.arguments⟩

theorem Agrees.bracketed (h : m.Agrees m') :
    (Emission.plain "(" ++ (m ++ Emission.plain ")")).Agrees
      (Emission.plain "(" ++ (m' ++ Emission.plain ")")) := by
  refine ⟨?_, ?_⟩
  · show _ ++ (m.text ++ _) = _ ++ (m'.text ++ _)
    rw [h.text]
  · show Predicate.sameArguments ([] ++ (m.arguments ++ [])) ([] ++ (m'.arguments ++ [])) = true
    rw [List.nil_append, List.nil_append, List.append_nil, List.append_nil]
    exact h.arguments

/-- Placeholders are taken off with their literals. -/
theorem Agrees.literal {v w : Value}
    (h : (Emission.literal v ++ r).Agrees (Emission.literal w ++ r')) :
    v.same w = true ∧ r.Agrees r' := by
  have harguments : (v.same w && Predicate.sameArguments r.arguments r'.arguments) = true :=
    h.arguments
  rw [Bool.and_eq_true] at harguments
  exact ⟨harguments.1, List.append_cancel_left h.text, harguments.2⟩

/-- Words over characters of a kind are taken off, where something else follows. -/
theorem Agrees.word (q : Char → Bool) (hs : ∀ c ∈ s.toList, q c = true)
    (hs' : ∀ c ∈ s'.toList, q c = true) (hr : ∀ c ∈ r.text.head?, q c = false)
    (hr' : ∀ c ∈ r'.text.head?, q c = false)
    (h : (Emission.plain s ++ r).Agrees (Emission.plain s' ++ r')) : s = s' ∧ r.Agrees r' := by
  obtain ⟨hword, hrest⟩ := cut_eq hs hs' hr hr' h.text
  exact ⟨String.toList_inj.mp hword, hrest, h.arguments⟩

end Emission

/-! ## Paths -/

def isNameChar (c : Char) : Bool := c.isAlphanum || c == '_'

def isPathChar (c : Char) : Bool := isNameChar c || c == '.'

theorem nameChar_of_identifier {name : String} (h : isIdentifier name = true) :
    name.toList ≠ [] ∧ ∀ c ∈ name.toList, isNameChar c = true := by
  unfold isIdentifier at h
  split at h
  · cases h
  · rename_i c cs hname
    rw [hname]
    rw [Bool.and_eq_true, List.all_eq_true] at h
    refine ⟨List.cons_ne_nil c cs, fun d hd => ?_⟩
    rcases List.mem_cons.mp hd with rfl | hd
    · unfold isNameChar Char.isAlphanum
      rcases Bool.or_eq_true _ _ ▸ h.1 with halpha | hunderscore
      · rw [halpha]
        rfl
      · rw [hunderscore, Bool.or_true]
    · exact h.2 d hd

/-- Names that a schema may declare, one after the other. -/
def Path.Valid (p : Path) : Prop :=
  ∀ name ∈ p.segments, isIdentifier name = true ∧ name ≠ "self"

namespace Path

variable {p p' : Path}

def pointed (names : List String) : List Char := names.flatMap fun name => '.' :: name.toList

def first (p : Path) : String := p.segments.headD "self"

theorem text_toList (p : Path) : p.text.toList = p.first.toList ++ pointed p.segments.tail := by
  obtain ⟨segments⟩ := p
  cases segments with
  | nil => decide
  | cons name names =>
    simp only [text, first, List.isEmpty_cons, Bool.false_eq_true, if_false,
      String.toList_intercalate, List.headD_cons, List.tail_cons]
    induction names generalizing name with
    | nil => rfl
    | cons next names ih =>
      rw [List.map_cons, List.map_cons, List.intercalate_cons_cons, ← List.map_cons, ih next,
        List.append_assoc]
      rfl

theorem Valid.first_identifier (h : p.Valid) : isIdentifier p.first = true := by
  obtain ⟨segments⟩ := p
  cases segments with
  | nil => decide
  | cons name names => exact (h name List.mem_cons_self).1

theorem Valid.tail_identifiers (h : p.Valid) : ∀ w ∈ p.segments.tail, isIdentifier w = true :=
  fun w hw => (h w (List.mem_of_mem_tail hw)).1

theorem names_injective {w w' : String} {ws ws' : List String}
    (hw : isIdentifier w = true) (hw' : isIdentifier w' = true)
    (hws : ∀ v ∈ ws, isIdentifier v = true) (hws' : ∀ v ∈ ws', isIdentifier v = true)
    (h : w.toList ++ pointed ws = w'.toList ++ pointed ws') : w = w' ∧ ws = ws' := by
  have hstop (names : List String) : ∀ c ∈ (pointed names).head?, isNameChar c = false := by
    intro c hc
    cases names with
    | nil => cases hc
    | cons name names =>
      cases hc
      decide
  obtain ⟨hfirst, hrest⟩ := cut_eq (nameChar_of_identifier hw).2 (nameChar_of_identifier hw').2
    (hstop ws) (hstop ws') h
  refine ⟨String.toList_inj.mp hfirst, ?_⟩
  induction ws generalizing w w' ws' with
  | nil =>
    cases ws' with
    | nil => rfl
    | cons v' vs' => cases hrest
  | cons v vs ih =>
    cases ws' with
    | nil => cases hrest
    | cons v' vs' =>
      have hv := hws v List.mem_cons_self
      have hv' := hws' v' List.mem_cons_self
      have hnext : v.toList ++ pointed vs = v'.toList ++ pointed vs' := (List.cons.inj hrest).2
      obtain ⟨hname, hmore⟩ := cut_eq (nameChar_of_identifier hv).2 (nameChar_of_identifier hv').2
        (hstop vs) (hstop vs') hnext
      rw [String.toList_inj.mp hname]
      congr 1
      exact ih hv hv' (fun x hx => hws x (List.mem_cons_of_mem _ hx))
        (fun x hx => hws' x (List.mem_cons_of_mem _ hx)) hnext hname hmore

/-- A valid path is told by its text. -/
theorem text_injective (hp : p.Valid) (hp' : p'.Valid) (h : p.text = p'.text) : p = p' := by
  rw [← String.toList_inj, text_toList, text_toList] at h
  obtain ⟨hfirst, htail⟩ := names_injective hp.first_identifier hp'.first_identifier
    hp.tail_identifiers hp'.tail_identifiers h
  obtain ⟨segments⟩ := p
  obtain ⟨segments'⟩ := p'
  -- no name is the word for the element itself
  cases segments with
  | nil =>
    cases segments' with
    | nil => rfl
    | cons name names => exact absurd hfirst.symm (hp' name List.mem_cons_self).2
  | cons name names =>
    cases segments' with
    | nil => exact absurd hfirst (hp name List.mem_cons_self).2
    | cons name' names' =>
      obtain rfl : name = name' := hfirst
      obtain rfl : names = names' := htail
      rfl

theorem Valid.text_chars (h : p.Valid) :
    (∃ c cs, p.text.toList = c :: cs ∧ isNameChar c = true) ∧
      ∀ c ∈ p.text.toList, isPathChar c = true := by
  have hpath {w : String} (hw : isIdentifier w = true) : ∀ c ∈ w.toList, isPathChar c = true := by
    intro c hc
    rw [isPathChar, (nameChar_of_identifier hw).2 c hc, Bool.true_or]
  obtain ⟨hne, hchars⟩ := nameChar_of_identifier h.first_identifier
  obtain ⟨c, cs, hcs⟩ := List.exists_cons_of_ne_nil hne
  rw [text_toList]
  constructor
  · refine ⟨c, cs ++ pointed p.segments.tail, by rw [hcs]; rfl, hchars c ?_⟩
    rw [hcs]
    exact List.mem_cons_self
  · intro d hd
    rcases List.mem_append.mp hd with hd | hd
    · exact hpath h.first_identifier d hd
    · obtain ⟨w, hw, hd⟩ := List.mem_flatMap.mp hd
      rcases List.mem_cons.mp hd with rfl | hd
      · decide
      · exact hpath (h.tail_identifiers w hw) d hd

end Path

/-! ## Conditions that begin with a path -/

/-- The word of a text comparison with its mark. -/
def TextMatch.word (op : TextMatch) (ignoreCase : Bool) : String :=
  op.keyword ++ if ignoreCase then "[c]" else ""

theorem Comparison.symbol_injective {op op' : Comparison} (h : op.symbol = op'.symbol) :
    op = op' := by
  revert h
  cases op <;> cases op' <;> decide

theorem TextMatch.word_injective {op op' : TextMatch} {i i' : Bool} (h : op.word i = op'.word i') :
    op = op' ∧ i = i' := by
  revert h
  cases op <;> cases op' <;> cases i <;> cases i' <;> decide

theorem Comparison.symbol_ne_word (op : Comparison) (op' : TextMatch) (i : Bool) :
    op.symbol ≠ op'.word i := by
  cases op <;> cases op' <;> cases i <;> decide

theorem Comparison.symbol_ne_between (op : Comparison) : op.symbol ≠ "BETWEEN" := by
  cases op <;> decide

theorem TextMatch.word_ne_between (op : TextMatch) (i : Bool) : op.word i ≠ "BETWEEN" := by
  cases op <;> cases i <;> decide

namespace Expr

open Emission

/-- A condition that is written as a path, a word and literals. -/
inductive Led : Expr → Path → String → Emission → Prop
  | comparison (op : Comparison) (p : Path) (v : Value) :
    Led (.comparison op p v) p op.symbol (literal v)
  | text (op : TextMatch) (p : Path) (part : String) (ignoreCase : Bool) :
    Led (.text op p part ignoreCase) p (op.word ignoreCase) (literal (.string part))
  | range (p : Path) (b : Bounds) (hb : b.inclusive = true) :
    Led (.range p b) p "BETWEEN"
      (plain "\x7b" ++ (literal b.lo ++ (plain ", " ++ (literal b.hi ++ plain "\x7d"))))

variable {e e' : Expr} {p p' : Path} {word word' : String} {m m' r r' : Emission}

theorem Led.emit_eq (h : Led e p word m) (nested : Bool) :
    e.emit nested = plain p.text ++ (plain " " ++ (plain word ++ (plain " " ++ m))) := by
  cases h with
  | comparison op p v =>
    simp only [emit, isCompound, Bool.and_false, parenthesized, Bool.false_eq_true, if_false,
      emitLeaf, toString, plain_append, append_assoc]
  | text op p part ignoreCase =>
    simp only [emit, isCompound, Bool.and_false, parenthesized, Bool.false_eq_true, if_false,
      emitLeaf, toString, plain_append, append_assoc, TextMatch.word]
  | range p b hb =>
    simp only [emit, isCompound, hb, Bool.not_true, Bool.and_false, parenthesized,
      Bool.false_eq_true, if_false, if_true, emitLeaf, append_assoc]
    rw [plain_append, append_assoc]
    rfl

theorem Led.word_chars (h : Led e p word m) : ∀ c ∈ word.toList, (c != ' ') = true := by
  rw [← List.all_eq_true]
  cases h with
  | comparison op p v => cases op <;> rfl
  | text op p part ignoreCase => cases op <;> cases ignoreCase <;> rfl
  | range p b hb => rfl

/-- The word tells which condition on a path is meant, and the literals tell the rest. -/
theorem Led.same (h : Led e p word m) (h' : Led e' p' word' m') (hp : p = p') (hw : word = word')
    (hm : (m ++ r).Agrees (m' ++ r')) : e.same e' = true ∧ r.Agrees r' := by
  subst hp
  cases h with
  | comparison op p v =>
    cases h' with
    | comparison op' p v' =>
      obtain rfl := Comparison.symbol_injective hw
      obtain ⟨hv, hrest⟩ := hm.literal
      exact ⟨same_iff.mpr (.comparison op p hv), hrest⟩
    | text op' p part i => exact absurd hw (Comparison.symbol_ne_word op op' i)
    | range p b hb => exact absurd hw (Comparison.symbol_ne_between op)
  | text op p part i =>
    cases h' with
    | comparison op' p v' => exact absurd hw.symm (Comparison.symbol_ne_word op' op i)
    | text op' p part' i' =>
      obtain ⟨rfl, rfl⟩ := TextMatch.word_injective hw
      obtain ⟨hpart, hrest⟩ := hm.literal
      obtain rfl : part = part' := by simpa [Value.same] using hpart
      exact ⟨same_iff.mpr (.text op p part i), hrest⟩
    | range p b hb => exact absurd hw (TextMatch.word_ne_between op i)
  | range p b hb =>
    cases h' with
    | comparison op' p v' => exact absurd hw.symm (Comparison.symbol_ne_between op')
    | text op' p part i => exact absurd hw.symm (TextMatch.word_ne_between op' i)
    | range p b' hb' =>
      simp only [append_assoc] at hm
      obtain ⟨hlo, hm⟩ := hm.plain.literal
      obtain ⟨hhi, hm⟩ := hm.plain.literal
      exact ⟨same_iff.mpr (.range p ⟨hlo, hhi, hb.trans hb'.symm⟩), hm.plain⟩

/-! ## Trees -/

/-- Trees with valid paths, ranges that have both ends, and at least two children at every
connective. -/
inductive Legible : Expr → Prop
  | led {e : Expr} {p : Path} {word : String} {m : Emission} (h : Led e p word m) (hp : p.Valid) :
    Legible e
  | membership (p : Path) (v : Value) (hp : p.Valid) : Legible (.membership p v)
  | allWithin (p : Path) (b : Bounds) (hp : p.Valid) : Legible (.allWithin p b)
  | logical (op : Connective) (e : Expr) (es : List Expr) (hes : ∀ x ∈ e :: es, Legible x)
    (hne : es ≠ []) : Legible (.logical op (e :: es))

/-- What the writing of a nested tree begins with. -/
inductive Opening where
  | name
  | placeholder
  | bracket

def Opening.of (c : Char) : Opening :=
  if c = '(' then .bracket else if c = '%' then .placeholder else .name

/-- What the writing of a tree begins with. -/
def opening : Expr → Opening
  | .membership _ _ => .placeholder
  | .allWithin _ _ => .bracket
  | .logical _ _ => .bracket
  | _ => .name

theorem opening_of_nameChar {c : Char} (h : isNameChar c = true) : Opening.of c = .name := by
  unfold Opening.of
  split
  · rename_i hc
    rw [hc] at h
    exact absurd h (by decide)
  · split
    · rename_i hc
      rw [hc] at h
      exact absurd h (by decide)
    · rfl

theorem emit_membership (p : Path) (v : Value) :
    (membership p v).emit true = literal v ++ (plain " IN " ++ plain p.text) := by
  rw [← plain_append]
  rfl

theorem emit_of_simple (h : e.isCompound = false) : e.emit true = e.emit false := by
  cases e with
  | logical op es => cases h
  | _ => simp only [emit, h, Bool.and_false]

theorem emit_of_compound (h : e.isCompound = true) :
    e.emit true = plain "(" ++ (e.emit false ++ plain ")") := by
  cases e <;>
    simp only [emit, h, Bool.and_true, parenthesized, Bool.false_eq_true, if_true, if_false,
      append_assoc]

theorem emit_allWithin (p : Path) (b : Bounds) :
    (allWithin p b).emit false = plain p.text ++ (plain "." ++ (plain "@min >= " ++
      (literal b.lo ++ (plain " && " ++ (plain p.text ++ (plain ".@max " ++
        (plain (if b.inclusive then "<=" else "<") ++ (plain " " ++ literal b.hi)))))))) := by
  simp only [emit, Bool.false_and, parenthesized, Bool.false_eq_true, if_false, emitLeaf, toString,
    plain_append, append_assoc]
  rfl

theorem emit_allWithin_nested (p : Path) (b : Bounds) :
    (allWithin p b).emit true = plain "(" ++ ((allWithin p b).emit false ++ plain ")") :=
  emit_of_compound rfl

theorem emit_logical (op : Connective) (e : Expr) (es : List Expr) :
    (logical op (e :: es)).emit false = e.emit true ++ emitChildren op false es := by
  simp only [emit, parenthesized, Bool.false_eq_true, if_false, emitChildren, if_true,
    nothing_append]

theorem emit_logical_nested (op : Connective) (es : List Expr) :
    (logical op es).emit true = plain "(" ++ ((logical op es).emit false ++ plain ")") :=
  emit_of_compound rfl

theorem emitChildren_cons (op : Connective) (e : Expr) (es : List Expr) :
    emitChildren op false (e :: es) = plain " " ++ (plain op.symbol ++ (plain " " ++
      (e.emit true ++ emitChildren op false es))) := by
  simp only [emitChildren, Bool.false_eq_true, if_false, toString, plain_append, append_assoc]

theorem Legible.opens (h : e.Legible) (r : Emission) :
    ∃ c cs, (e.emit true ++ r).text = c :: cs ∧ Opening.of c = e.opening := by
  cases h with
  | @led _ p word m h hp =>
    obtain ⟨c, cs, htext, hc⟩ := hp.text_chars.1
    refine ⟨c, cs ++ (plain " " ++ (plain word ++ (plain " " ++ m)) ++ r).text, ?_, ?_⟩
    · rw [h.emit_eq, append_assoc]
      show p.text.toList ++ _ = _
      rw [htext]
      rfl
    · rw [opening_of_nameChar hc]
      cases h <;> rfl
  | membership p v hp => exact ⟨'%', _, rfl, rfl⟩
  | allWithin p b hp =>
    rw [emit_allWithin_nested]
    exact ⟨'(', _, rfl, rfl⟩
  | logical op e es hes hne =>
    rw [emit_logical_nested]
    exact ⟨'(', _, rfl, rfl⟩

theorem opening_eq (he : e.Legible) (he' : e'.Legible)
    (h : (e.emit true ++ r).text = (e'.emit true ++ r').text) : e.opening = e'.opening := by
  obtain ⟨c, cs, hc, ho⟩ := he.opens r
  obtain ⟨c', cs', hc', ho'⟩ := he'.opens r'
  rw [hc, hc'] at h
  rw [← ho, ← ho', (List.cons.inj h).1]

/-- What is written behind a nested tree: nothing, or something that begins with a space or
closes a bracket. -/
def Closes (r : Emission) : Prop := ∀ c ∈ r.text.head?, c = ' ' ∨ c = ')'

theorem Closes.not_path (h : Closes r) : ∀ c ∈ r.text.head?, isPathChar c = false := by
  intro c hc
  rcases h c hc with rfl | rfl <;> decide

theorem not_path_space (r : Emission) :
    ∀ c ∈ (plain " " ++ r).text.head?, isPathChar c = false := by
  intro c hc
  cases hc
  decide

theorem not_path_least (r : Emission) :
    ∀ c ∈ (plain "@min >= " ++ r).text.head?, isPathChar c = false := by
  intro c hc
  cases hc
  decide

theorem path_told (hp : p.Valid) (hp' : p'.Valid) (hr : ∀ c ∈ r.text.head?, isPathChar c = false)
    (hr' : ∀ c ∈ r'.text.head?, isPathChar c = false)
    (h : (plain p.text ++ r).Agrees (plain p'.text ++ r')) : p = p' ∧ r.Agrees r' := by
  obtain ⟨htext, hrest⟩ := h.word isPathChar hp.text_chars.2 hp'.text_chars.2 hr hr'
  exact ⟨Path.text_injective hp hp' htext, hrest⟩

theorem pointed_chars (hp : p.Valid) : ∀ c ∈ (p.text ++ ".").toList, isPathChar c = true := by
  intro c hc
  rw [String.toList_append] at hc
  rcases List.mem_append.mp hc with hc | hc
  · exact hp.text_chars.2 c hc
  · rw [List.mem_singleton.mp hc]
    decide

theorem pointed_told (hp : p.Valid) (hp' : p'.Valid)
    (hr : ∀ c ∈ r.text.head?, isPathChar c = false)
    (hr' : ∀ c ∈ r'.text.head?, isPathChar c = false)
    (h : (plain p.text ++ (plain "." ++ r)).Agrees (plain p'.text ++ (plain "." ++ r'))) :
    p = p' ∧ r.Agrees r' := by
  rw [← append_assoc, ← append_assoc, ← plain_append, ← plain_append] at h
  obtain ⟨htext, hrest⟩ := h.word isPathChar (pointed_chars hp) (pointed_chars hp') hr hr'
  refine ⟨Path.text_injective hp hp' ?_, hrest⟩
  rw [← String.toList_inj, String.toList_append, String.toList_append] at htext
  exact String.toList_inj.mp (List.append_cancel_right htext)

theorem space_stops (r : Emission) : ∀ c ∈ (plain " " ++ r).text.head?, (c != ' ') = false := by
  intro c hc
  cases hc
  rfl

/-- Conditions that begin with a path are told. -/
theorem Led.told (h : Led e p word m) (h' : Led e' p' word' m') (hp : p.Valid) (hp' : p'.Valid)
    (hm : (e.emit true ++ r).Agrees (e'.emit true ++ r')) : e.same e' = true ∧ r.Agrees r' := by
  rw [h.emit_eq, h'.emit_eq] at hm
  simp only [append_assoc] at hm
  obtain ⟨hpath, hm⟩ := path_told hp hp' (not_path_space _) (not_path_space _) hm
  obtain ⟨hword, hm⟩ := hm.plain.word (· != ' ') h.word_chars h'.word_chars (space_stops _)
    (space_stops _)
  exact h.same h' hpath hword hm.plain

theorem bounded_ne (hp : p.Valid) (he : e.Legible) :
    (plain p.text ++ (plain "." ++ (plain "@min >= " ++ r))).text ≠ (e.emit true ++ r').text := by
  intro h
  obtain ⟨c, cs, hc, hopen⟩ := he.opens r'
  obtain ⟨d, ds, hd, hname⟩ := hp.text_chars.1
  have hcd : d = c := by
    rw [← h] at hc
    have hc' : p.text.toList ++ (plain "." ++ (plain "@min >= " ++ r)).text = c :: cs := hc
    rw [hd] at hc'
    exact (List.cons.inj hc').1
  rw [← hcd, opening_of_nameChar hname] at hopen
  cases he with
  | @led _ p' word m hl hp' =>
    rw [hl.emit_eq] at h
    simp only [append_assoc] at h
    rw [← append_assoc, ← plain_append] at h
    have hrest :=
      (cut_eq (pointed_chars hp) hp'.text_chars.2 (not_path_least r) (not_path_space _) h).2
    cases hrest
  | membership p' v hp' => cases hopen
  | allWithin p' b hp' => cases hopen
  | logical op e es hes hne => cases hopen

theorem Led.opening_eq (h : Led e p word m) : e.opening = .name := by
  cases h <;> rfl

/-- A tree is told by its writing, whatever is written behind it. -/
def Told (e : Expr) : Prop :=
  ∀ (e' : Expr) (r r' : Emission), e'.Legible → Closes r → Closes r' →
    (e.emit true ++ r).Agrees (e'.emit true ++ r') → e.same e' = true ∧ r.Agrees r'

theorem closes_children (op : Connective) (es : List Expr) (r : Emission) :
    Closes (emitChildren op false es ++ (plain ")" ++ r)) := by
  intro c hc
  cases es with
  | nil =>
    cases hc
    exact .inr rfl
  | cons e es =>
    rw [emitChildren_cons] at hc
    cases hc
    exact .inl rfl

theorem children_told {op : Connective} {es es' : List Expr} (hes : ∀ x ∈ es, Told x)
    (hes' : ∀ x ∈ es', Legible x)
    (h : (emitChildren op false es ++ (plain ")" ++ r)).Agrees
      (emitChildren op false es' ++ (plain ")" ++ r'))) :
    sameAll es es' = true ∧ r.Agrees r' := by
  induction es generalizing es' with
  | nil =>
    cases es' with
    | nil => exact ⟨rfl, h.plain⟩
    | cons x xs =>
      rw [emitChildren_cons] at h
      cases h.text
  | cons e es ih =>
    cases es' with
    | nil =>
      rw [emitChildren_cons] at h
      cases h.text
    | cons e' es' =>
      rw [emitChildren_cons, emitChildren_cons] at h
      simp only [append_assoc] at h
      obtain ⟨hfirst, hrest⟩ := hes e List.mem_cons_self e' _ _ (hes' e' List.mem_cons_self)
        (closes_children op es r) (closes_children op es' r') h.plain.plain.plain
      obtain ⟨hall, hr⟩ := ih (fun x hx => hes x (List.mem_cons_of_mem _ hx))
        (fun x hx => hes' x (List.mem_cons_of_mem _ hx)) hrest
      exact ⟨sameAll_of_cons hfirst hall, hr⟩

theorem connective_told {op op' : Connective} {es es' : List Expr} (hne : es ≠ [])
    (hne' : es' ≠ [])
    (h : (emitChildren op false es ++ r).Agrees (emitChildren op' false es' ++ r')) : op = op' := by
  obtain ⟨e, es, rfl⟩ := List.exists_cons_of_ne_nil hne
  obtain ⟨e', es', rfl⟩ := List.exists_cons_of_ne_nil hne'
  rw [emitChildren_cons, emitChildren_cons] at h
  simp only [append_assoc] at h
  have htext := h.plain.text
  cases op with
  | and =>
    cases op' with
    | and => rfl
    | or => cases htext
  | or =>
    cases op' with
    | and => cases htext
    | or => rfl

theorem told_membership (p : Path) (v : Value) (hp : p.Valid) : Told (.membership p v) := by
  intro e' r r' he' hr hr' hm
  have hopen := opening_eq (.membership p v hp) he' hm.text
  cases he' with
  | led h' hp' =>
    rw [h'.opening_eq] at hopen
    cases hopen
  | membership p' v' hp' =>
    rw [emit_membership, emit_membership] at hm
    simp only [append_assoc] at hm
    obtain ⟨hv, hm⟩ := hm.literal
    obtain ⟨rfl, hrest⟩ := path_told hp hp' hr.not_path hr'.not_path hm.plain
    exact ⟨same_iff.mpr (.membership p hv), hrest⟩
  | allWithin p' b' hp' => cases hopen
  | logical op' e' es' hes' hne' => cases hopen

theorem told_allWithin (p : Path) (b : Bounds) (hp : p.Valid) : Told (.allWithin p b) := by
  intro e' r r' he' hr hr' hm
  have hopen := opening_eq (.allWithin p b hp) he' hm.text
  cases he' with
  | led h' hp' =>
    rw [h'.opening_eq] at hopen
    cases hopen
  | membership p' v' hp' => cases hopen
  | allWithin p' b' hp' =>
    rw [emit_allWithin_nested, emit_allWithin_nested, emit_allWithin, emit_allWithin] at hm
    simp only [append_assoc] at hm
    obtain ⟨rfl, hm⟩ := pointed_told hp hp' (not_path_least _) (not_path_least _) hm.plain
    obtain ⟨hlo, hm⟩ := hm.plain.literal
    have hupper (b : Bounds) :
        ∀ c ∈ (if b.inclusive then "<=" else "<").toList, (c != ' ') = true := by
      rw [← List.all_eq_true]
      cases b.inclusive <;> rfl
    obtain ⟨hword, hm⟩ := hm.plain.plain.plain.word (· != ' ') (hupper b) (hupper b')
      (space_stops _) (space_stops _)
    obtain ⟨hhi, hm⟩ := hm.plain.literal
    have hinclusive : b.inclusive = b'.inclusive := by
      revert hword
      cases b.inclusive <;> cases b'.inclusive <;> decide
    exact ⟨same_iff.mpr (.allWithin p ⟨hlo, hhi, hinclusive⟩), hm.plain⟩
  | logical op' e' es' hes' hne' =>
    rw [emit_allWithin_nested, emit_logical_nested, emit_allWithin, emit_logical] at hm
    simp only [append_assoc] at hm
    exact absurd hm.plain.text (bounded_ne hp (hes' e' List.mem_cons_self))

theorem told_logical (op : Connective) (e : Expr) (es : List Expr)
    (hl : (logical op (e :: es)).Legible) (hes : ∀ x ∈ e :: es, Told x) (hne : es ≠ []) :
    Told (.logical op (e :: es)) := by
  intro e' r r' he' hr hr' hm
  have hopen := opening_eq hl he' hm.text
  cases he' with
  | led h' hp' =>
    rw [h'.opening_eq] at hopen
    cases hopen
  | membership p' v' hp' => cases hopen
  | allWithin p' b' hp' =>
    rw [emit_allWithin_nested, emit_logical_nested, emit_allWithin, emit_logical] at hm
    simp only [append_assoc] at hm
    cases hl with
    | led h hp => cases h
    | logical op e es hlegible hne =>
      exact absurd hm.plain.text.symm (bounded_ne hp' (hlegible e List.mem_cons_self))
  | logical op' e' es' hes' hne' =>
    rw [emit_logical_nested, emit_logical_nested, emit_logical, emit_logical] at hm
    simp only [append_assoc] at hm
    obtain ⟨hfirst, hrest⟩ := hes e List.mem_cons_self e' _ _ (hes' e' List.mem_cons_self)
      (closes_children op es r) (closes_children op' es' r') hm.plain
    obtain rfl := connective_told hne hne' hrest
    obtain ⟨hall, hr⟩ := children_told (fun x hx => hes x (List.mem_cons_of_mem _ hx))
      (fun x hx => hes' x (List.mem_cons_of_mem _ hx)) hrest
    exact ⟨same_iff.mpr (.logical op (sameAll_of_cons hfirst hall)), hr⟩

/-- Every legible tree is told by its writing. -/
theorem told (he : e.Legible) : Told e := by
  induction he with
  | led h hp =>
    intro e' r r' he' hr hr' hm
    have hopen := opening_eq (.led h hp) he' hm.text
    rw [h.opening_eq] at hopen
    cases he' with
    | led h' hp' => exact h.told h' hp hp' hm
    | membership p' v' hp' => cases hopen
    | allWithin p' b' hp' => cases hopen
    | logical op' e' es' hes' hne' => cases hopen
  | membership p v hp => exact told_membership p v hp
  | allWithin p b hp => exact told_allWithin p b hp
  | logical op e es hes hne ih => exact told_logical op e es (.logical op e es hes hne) ih hne

/-! ## Whole writings -/

theorem closes_nothing : Closes nothing := by
  intro c hc
  cases hc

theorem Legible.compound_cases (he : e.Legible) (hc : e.isCompound = true) :
    (∃ p r, Path.Valid p ∧
      e.emit false = plain p.text ++ (plain "." ++ (plain "@min >= " ++ r))) ∨
    ∃ x r, Legible x ∧ Closes r ∧ r.text ≠ [] ∧ e.emit false = x.emit true ++ r := by
  cases he with
  | led h hp =>
    cases h with
    | comparison op p v => cases hc
    | text op p part ignoreCase => cases hc
    | range p b hb =>
      rw [isCompound, hb] at hc
      cases hc
  | membership p v hp => cases hc
  | allWithin p b hp => exact .inl ⟨p, _, hp, emit_allWithin p b⟩
  | logical op x xs hes hne =>
    obtain ⟨y, ys, rfl⟩ := List.exists_cons_of_ne_nil hne
    refine .inr ⟨x, _, hes x List.mem_cons_self, ?_, ?_, emit_logical op x (y :: ys)⟩
    · intro c hc
      rw [emitChildren_cons] at hc
      cases hc
      exact .inl rfl
    · rw [emitChildren_cons]
      exact List.cons_ne_nil _ _

theorem compound_ne_simple (he : e.Legible) (he' : e'.Legible) (hc : e.isCompound = true)
    (hs : e'.isCompound = false) : ¬(e.emit false).Agrees (e'.emit false) := by
  intro h
  rw [← emit_of_simple hs, ← append_nothing (e'.emit true)] at h
  rcases he.compound_cases hc with ⟨p, r, hp, hemit⟩ | ⟨x, r, hx, hr, hne, hemit⟩
  · rw [hemit] at h
    exact bounded_ne hp he' h.text
  · rw [hemit] at h
    exact hne (told hx e' r nothing he' hr closes_nothing h).2.text

theorem simple_ne_compound (he : e.Legible) (he' : e'.Legible) (hs : e.isCompound = false)
    (hc : e'.isCompound = true) : ¬(e.emit false).Agrees (e'.emit false) := by
  intro h
  rw [← emit_of_simple hs, ← append_nothing (e.emit true)] at h
  rcases he'.compound_cases hc with ⟨p, r, hp, hemit⟩ | ⟨x, r, hx, hr, hne, hemit⟩
  · rw [hemit] at h
    exact bounded_ne hp he h.text.symm
  · rw [hemit] at h
    exact hne (told he x nothing r hx closes_nothing hr h).2.text.symm

/-- Legible trees that are written alike are the same. -/
theorem same_of_agrees (he : e.Legible) (he' : e'.Legible)
    (h : (e.emit false).Agrees (e'.emit false)) : e.same e' = true := by
  have hnested : (e.emit true ++ nothing).Agrees (e'.emit true ++ nothing) := by
    rw [append_nothing, append_nothing]
    cases hc : e.isCompound with
    | false =>
      cases hc' : e'.isCompound with
      | false =>
        rw [emit_of_simple hc, emit_of_simple hc']
        exact h
      | true => exact absurd h (simple_ne_compound he he' hc hc')
    | true =>
      cases hc' : e'.isCompound with
      | false => exact absurd h (compound_ne_simple he he' hc hc')
      | true =>
        rw [emit_of_compound hc, emit_of_compound hc']
        exact h.bracketed
  exact (told he e' nothing nothing he' closes_nothing closes_nothing hnested).1

end Expr

end ObjectStore
