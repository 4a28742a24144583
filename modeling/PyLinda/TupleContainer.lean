import PyLinda.Match

/-!
# TupleContainer

The stored tuples of a tuplespace, in the order they were added. Searching and
deleting run the same test on one stored tuple after another; `delete` takes a
tuple to look for, not a position.
-/

namespace PyLinda

structure TupleContainer where
  contain : List Tuple

/-- One turn of the loops of `matchTuples` and `delete`: `none` goes on to the
next stored tuple. -/
def tryMatch (t template : Tuple) : Except PyExc (Option Tuple) :=
  if template.length ≠ t.length then .ok none
  else match doesMatch t template with
    | .ok r => .ok (some r)
    | .error .noTupleMatch => .ok none
    | .error e => .error e

/-- `matchTuples` up to its first `yield`. -/
def matchFirst (template : Tuple) : List Tuple → Except PyExc (Option (Tuple × Tuple))
  | [] => .ok none
  | t :: ts =>
    match tryMatch t template with
    | .ok (some r) => .ok (some (t, r))
    | .ok none => matchFirst template ts
    | .error e => .error e

/-- `matchTuples` iterated to its end. -/
def matchAll (template : Tuple) : List Tuple → Except PyExc (List (Tuple × Tuple))
  | [] => .ok []
  | t :: ts =>
    match tryMatch t template with
    | .error e => .error e
    | .ok m =>
      match matchAll template ts with
      | .error e => .error e
      | .ok l => .ok ((m.map fun r => (t, r)).toList ++ l)

/-- The loop of `delete`. -/
def deleteFirst (tup : Tuple) : List Tuple → Except PyExc (List Tuple)
  | [] => .ok []
  | t :: ts =>
    match tryMatch t tup with
    | .ok (some _) => .ok ts
    | .ok none =>
      match deleteFirst tup ts with
      | .ok ts' => .ok (t :: ts')
      | .error e => .error e
    | .error e => .error e

namespace TupleContainer

def add (c : TupleContainer) (tup : Tuple) : TupleContainer := ⟨c.contain ++ [tup]⟩

/-- `none` is `StopIteration`. -/
def matchOneTuple (c : TupleContainer) (template : Tuple) :
    Except PyExc (Option (Tuple × Tuple)) :=
  matchFirst template c.contain

def matchTuples (c : TupleContainer) (template : Tuple) : Except PyExc (List (Tuple × Tuple)) :=
  matchAll template c.contain

def delete (c : TupleContainer) (tup : Tuple) : Except PyExc TupleContainer :=
  match deleteFirst tup c.contain with
  | .ok ts => .ok ⟨ts⟩
  | .error e => .error e

end TupleContainer

/-! ## One turn -/

/-- `doesMatch` raises something that the loops do not catch. -/
def Raises (t templ : Tuple) (e : PyExc) : Prop := e ≠ .noTupleMatch ∧ doesMatch t templ = .error e

/-- The loops pass `t` over. -/
def Skips (t templ : Tuple) : Prop := doesMatch t templ = .error .noTupleMatch

/-- The length test in front of the matcher only anticipates its answer. -/
theorem tryMatch_eq (t templ : Tuple) :
    tryMatch t templ = match doesMatch t templ with
      | .ok r => .ok (some r)
      | .error .noTupleMatch => .ok none
      | .error e => .error e := by
  unfold tryMatch
  split
  · have : doesMatch t templ = .error .noTupleMatch := by
      unfold doesMatch
      rw [if_pos (by omega)]
    simp [this]
  · rfl

theorem tryMatch_some {t templ r : Tuple} :
    tryMatch t templ = .ok (some r) ↔ Matches t templ ∧ r = t := by
  rw [tryMatch_eq]
  rcases h : doesMatch t templ with e | q
  · cases e <;> simp [Matches, h]
  · obtain rfl := doesMatch_eq_ok h
    simp [Matches, h, eq_comm]

theorem tryMatch_none {t templ : Tuple} : tryMatch t templ = .ok none ↔ Skips t templ := by
  rw [tryMatch_eq]
  rcases h : doesMatch t templ with e | q
  · cases e <;> simp [Skips, h]
  · simp [Skips, h]

theorem tryMatch_error {t templ : Tuple} {e : PyExc} :
    tryMatch t templ = .error e ↔ Raises t templ e := by
  rw [tryMatch_eq]
  rcases h : doesMatch t templ with e' | q
  · cases e' <;> simp [Raises, h] <;> grind
  · simp [Raises, h]

theorem Matches.not_skips {t templ : Tuple} (h : Matches t templ) : ¬ Skips t templ := by
  intro h'
  rw [Matches, h'] at h
  cases h

/-! ## The loops -/

/-- What a search finds, and what it passed over to get there. -/
theorem matchFirst_cases (template : Tuple) (l : List Tuple) :
    (matchFirst template l = .ok none ∧ ∀ t ∈ l, Skips t template) ∨
    (∃ pre t post, l = pre ++ t :: post ∧ (∀ x ∈ pre, Skips x template) ∧ Matches t template ∧
      matchFirst template l = .ok (some (t, t))) ∨
    (∃ pre t post e, l = pre ++ t :: post ∧ (∀ x ∈ pre, Skips x template) ∧
      Raises t template e ∧ matchFirst template l = .error e) := by
  induction l with
  | nil => exact .inl ⟨rfl, by simp⟩
  | cons a l ih =>
    rcases h : tryMatch a template with e | _ | r
    · exact .inr (.inr ⟨[], a, l, e, rfl, by simp, tryMatch_error.1 h, by simp [matchFirst, h]⟩)
    · have ha := tryMatch_none.1 h
      have he : matchFirst template (a :: l) = matchFirst template l := by simp [matchFirst, h]
      rw [he]
      rcases ih with ⟨h1, h2⟩ | ⟨pre, t, post, rfl, h2, h3, h4⟩ |
        ⟨pre, t, post, e, rfl, h2, h3, h4⟩
      · exact .inl ⟨h1, by simpa using ⟨ha, h2⟩⟩
      · exact .inr (.inl ⟨a :: pre, t, post, rfl, by simpa using ⟨ha, h2⟩, h3, h4⟩)
      · exact .inr (.inr ⟨a :: pre, t, post, e, rfl, by simpa using ⟨ha, h2⟩, h3, h4⟩)
    · obtain ⟨hm, rfl⟩ := tryMatch_some.1 h
      exact .inr (.inl ⟨[], r, l, rfl, by simp, hm, by simp [matchFirst, h]⟩)

/-- Everything before the first match is passed over. -/
theorem matchFirst_skips {template : Tuple} {l : List Tuple} (h : ∀ t ∈ l, Skips t template) :
    matchFirst template l = .ok none := by
  induction l with
  | nil => rfl
  | cons a l ih =>
    rw [List.forall_mem_cons] at h
    simp [matchFirst, tryMatch_none.2 h.1, ih h.2]

theorem matchFirst_append {template t : Tuple} {pre post : List Tuple}
    (hpre : ∀ x ∈ pre, Skips x template) (ht : Matches t template) :
    matchFirst template (pre ++ t :: post) = .ok (some (t, t)) := by
  induction pre with
  | nil => simp [matchFirst, tryMatch_some.2 ⟨ht, rfl⟩]
  | cons a pre ih =>
    rw [List.forall_mem_cons] at hpre
    simp [matchFirst, tryMatch_none.2 hpre.1, ih hpre.2]

theorem matchFirst_some {template t r : Tuple} {l : List Tuple}
    (h : matchFirst template l = .ok (some (t, r))) :
    r = t ∧ Matches t template ∧
      ∃ pre post, l = pre ++ t :: post ∧ ∀ x ∈ pre, Skips x template := by
  rcases matchFirst_cases template l with ⟨h1, -⟩ | ⟨pre, t', post, rfl, h2, h3, h4⟩ |
    ⟨pre, t', post, e, rfl, h2, h3, h4⟩
  · rw [h1] at h; cases h
  · rw [h4] at h
    cases h
    exact ⟨rfl, h3, pre, post, rfl, h2⟩
  · rw [h4] at h; cases h

theorem matchFirst_none {template : Tuple} {l : List Tuple}
    (h : matchFirst template l = .ok none) : ∀ t ∈ l, Skips t template := by
  rcases matchFirst_cases template l with ⟨-, h2⟩ | ⟨pre, t', post, rfl, h2, h3, h4⟩ |
    ⟨pre, t', post, e, rfl, h2, h3, h4⟩
  · exact h2
  · rw [h4] at h; cases h
  · rw [h4] at h; cases h

/-- A complete scan returns every match, each as itself, in stored order. -/
theorem matchAll_ok {template : Tuple} {l : List Tuple} {m : List (Tuple × Tuple)}
    (h : matchAll template l = .ok m) :
    m = (l.filter fun t => Matches t template).map (fun t => (t, t)) ∧
      ∀ t ∈ l, Matches t template ∨ Skips t template := by
  induction l generalizing m with
  | nil =>
    cases h
    simp
  | cons a l ih =>
    simp only [matchAll] at h
    rcases ha : tryMatch a template with e | r
    · simp [ha] at h
    rcases hl : matchAll template l with e | m'
    · simp [ha, hl] at h
    obtain ⟨rfl, h2⟩ := ih hl
    simp only [ha, hl, Except.ok.injEq] at h
    rcases r with _ | r
    · have hs := tryMatch_none.1 ha
      have hn : ¬ Matches a template := fun hm => hm.not_skips hs
      refine ⟨by simp [← h, hn], by simpa [hs] using h2⟩
    · obtain ⟨hm, rfl⟩ := tryMatch_some.1 ha
      exact ⟨by simp [← h, hm], by simpa [hm] using h2⟩

theorem matchAll_error {template : Tuple} {l : List Tuple} {e : PyExc}
    (h : matchAll template l = .error e) : ∃ t ∈ l, Raises t template e := by
  induction l with
  | nil => cases h
  | cons a l ih =>
    simp only [matchAll] at h
    rcases ha : tryMatch a template with e' | r
    · simp only [ha, Except.error.injEq] at h
      exact ⟨a, by simp, h ▸ tryMatch_error.1 ha⟩
    rcases hl : matchAll template l with e' | m'
    · simp only [ha, hl, Except.error.injEq] at h
      obtain ⟨t, ht, hr⟩ := ih (by rw [hl, h])
      exact ⟨t, by simp [ht], hr⟩
    · simp [ha, hl] at h

/-- `delete` removes the tuple that the search for its argument finds, and
raises when the search raises. -/
theorem deleteFirst_cases (tup : Tuple) (l : List Tuple) :
    (matchFirst tup l = .ok none ∧ deleteFirst tup l = .ok l) ∨
    (∃ pre t post, l = pre ++ t :: post ∧ (∀ x ∈ pre, Skips x tup) ∧ Matches t tup ∧
      deleteFirst tup l = .ok (pre ++ post)) ∨
    (∃ e, matchFirst tup l = .error e ∧ deleteFirst tup l = .error e) := by
  induction l with
  | nil => exact .inl ⟨rfl, rfl⟩
  | cons a l ih =>
    rcases h : tryMatch a tup with e | _ | r
    · exact .inr (.inr ⟨e, by simp [matchFirst, h], by simp [deleteFirst, h]⟩)
    · have ha := tryMatch_none.1 h
      simp only [matchFirst, deleteFirst, h]
      rcases ih with ⟨h1, h2⟩ | ⟨pre, t, post, rfl, h2, h3, h4⟩ | ⟨e, h1, h2⟩
      · exact .inl ⟨h1, by simp [h2]⟩
      · exact .inr (.inl ⟨a :: pre, t, post, rfl, by simpa using ⟨ha, h2⟩, h3, by simp [h4]⟩)
      · exact .inr (.inr ⟨e, h1, by simp [h2]⟩)
    · obtain ⟨hm, rfl⟩ := tryMatch_some.1 h
      exact .inr (.inl ⟨[], r, l, rfl, by simp, hm, by simp [deleteFirst, h]⟩)

/-- `delete` raises exactly when the search for its argument does. -/
theorem deleteFirst_error_iff {tup : Tuple} {l : List Tuple} {e : PyExc} :
    deleteFirst tup l = .error e ↔ matchFirst tup l = .error e := by
  rcases deleteFirst_cases tup l with ⟨h1, h2⟩ | ⟨pre, t, post, rfl, h1, h2, h3⟩ | ⟨e', h1, h2⟩
  · simp [h1, h2]
  · simp [matchFirst_append h1 h2, h3]
  · simp [h1, h2]

theorem deleteFirst_append {tup t : Tuple} {pre post : List Tuple}
    (hpre : ∀ x ∈ pre, Skips x tup) (ht : Matches t tup) :
    deleteFirst tup (pre ++ t :: post) = .ok (pre ++ post) := by
  induction pre with
  | nil => simp [deleteFirst, tryMatch_some.2 ⟨ht, rfl⟩]
  | cons a pre ih =>
    rw [List.forall_mem_cons] at hpre
    simp [deleteFirst, tryMatch_none.2 hpre.1, ih hpre.2]

theorem deleteFirst_sublist {tup : Tuple} {l l' : List Tuple} (h : deleteFirst tup l = .ok l') :
    l'.Sublist l := by
  rcases deleteFirst_cases tup l with ⟨-, h2⟩ | ⟨pre, t, post, rfl, -, -, h2⟩ | ⟨e, -, h2⟩
  · rw [h2] at h
    cases h
    exact List.Sublist.refl l
  · rw [h2] at h
    cases h
    exact List.Sublist.append_left (List.sublist_cons_self t post) pre
  · rw [h2] at h; cases h

end PyLinda
