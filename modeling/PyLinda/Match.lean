import PyLinda.Value

/-!
# The matcher

`doesMatch_notypes` and the comparison of types it uses. The first argument is
the one whose shape drives the recursion and the one that is returned, so the
function is not symmetric: a type formal is a formal only on the right.
-/

namespace PyLinda

/-- What the right-hand side of a nested comparison can be: a value, or the
one-character string that indexing a string gives. -/
inductive Templ where
  | val (v : Value)
  | chr (c : UInt8)

def Templ.len : Templ → Except PyExc Int
  | .val v => v.len
  | .chr _ => .ok 1

/-- The items `zip` draws from the right-hand side (`linda_Value_item`). -/
def Templ.items : Templ → Except PyExc (List Templ)
  | .val (.tuple vs) => .ok (vs.map .val)
  | .val (.string s) => .ok (s.toByteArray.data.toList.map .chr)
  | .val (.type ⟨name, .product bs⟩) => .ok (bs.map fun b => .val (.type ⟨name, b⟩))
  | .val (.type ⟨name, .sum bs⟩) => .ok (bs.map fun b => .val (.type ⟨name, b⟩))
  | .val _ => .error .typeError
  | .chr c => .ok [.chr c]

/-- `compare`, that is `compare_notypes`: every failed assertion is the same
exception. -/
def compare (t1 t2 : Option TypeVal) : Except PyExc Bool :=
  match t1.bind TypeVal.id?, t2.bind TypeVal.id? with
  | some a, some b => .ok (a = b)
  | _, _ => .error .assertionError

/-- The branches of `doesMatch_notypes` for a `tup` that is not a tuple. -/
def doesMatchLeaf (tup : Value) : Templ → Except PyExc Unit
  | .chr _ => .error .attributeError
  | .val (.type t) =>
    match compare tup.type? (some t) with
    | .ok true => .ok ()
    | .ok false => .error .noTupleMatch
    | .error e => .error e
  | .val v =>
    match compare tup.type? v.type? with
    | .ok true => if tup.pyEq v then .ok () else .error .noTupleMatch
    | .ok false => .error .noTupleMatch
    | .error e => .error e

mutual

/-- `doesMatch_notypes` on an element; what it returns is dropped by the loop
of the caller. -/
def doesMatchValue : Value → Templ → Except PyExc Unit
  | .tuple vs, templ =>
    match templ.len with
    | .error e => .error e
    | .ok n =>
      if (vs.length : Int) ≠ n then .error .noTupleMatch
      -- `zip` fetches every item before the first comparison, and none for an empty `tup`
      else if vs.isEmpty then .ok ()
      else match templ.items with
        | .error e => .error e
        | .ok ts => doesMatchZip vs ts
  | v, templ => doesMatchLeaf v templ

/-- The `for` loop of `doesMatch_notypes`. -/
def doesMatchZip : List Value → List Templ → Except PyExc Unit
  | v :: vs, t :: ts =>
    match doesMatchValue v t with
    | .error e => .error e
    | .ok () => doesMatchZip vs ts
  | _, _ => .ok ()

end

/-- `doesMatch_notypes` on two Python tuples. -/
def doesMatch (tup templ : Tuple) : Except PyExc Tuple :=
  if tup.length ≠ templ.length then .error .noTupleMatch
  else match doesMatchZip tup (templ.map .val) with
    | .error e => .error e
    | .ok () => .ok tup

/-- The test of the two scans over stored tuples: the lengths agree and the
matcher succeeds. -/
def Matches (t templ : Tuple) : Prop := doesMatch t templ = .ok t

instance (t templ : Tuple) : Decidable (Matches t templ) :=
  match h : doesMatchZip t (templ.map .val), decEq t.length templ.length with
  | .ok (), .isTrue hl => .isTrue (by simp [Matches, doesMatch, h, hl])
  | .ok (), .isFalse hl => .isFalse (by simp [Matches, doesMatch, hl])
  | .error e, _ => .isFalse (by unfold Matches doesMatch; split <;> simp [h])

/-! ## What a match returns -/

/-- A successful match returns its first argument. -/
theorem doesMatch_eq_ok {tup templ r : Tuple} (h : doesMatch tup templ = .ok r) : r = tup := by
  unfold doesMatch at h
  split at h
  · cases h
  · split at h
    · cases h
    · cases h; rfl

theorem matches_of_ok {tup templ r : Tuple} (h : doesMatch tup templ = .ok r) :
    Matches tup templ := by
  rw [Matches, h, doesMatch_eq_ok h]

theorem Matches.length_eq {tup templ : Tuple} (h : Matches tup templ) :
    tup.length = templ.length := by
  unfold Matches doesMatch at h
  split at h
  · cases h
  · omega

theorem matches_iff {tup templ : Tuple} :
    Matches tup templ ↔
      tup.length = templ.length ∧ doesMatchZip tup (templ.map .val) = .ok () := by
  constructor
  · intro h
    refine ⟨h.length_eq, ?_⟩
    unfold Matches doesMatch at h
    split at h
    · cases h
    · split at h
      · cases h
      · assumption
  · rintro ⟨hl, hz⟩
    simp [Matches, doesMatch, hl, hz]

/-- The three ways a call of the matcher ends. -/
theorem doesMatch_cases (tup templ : Tuple) :
    Matches tup templ ∨ doesMatch tup templ = .error .noTupleMatch ∨
      ∃ e, e ≠ .noTupleMatch ∧ doesMatch tup templ = .error e := by
  rcases h : doesMatch tup templ with e | r
  · by_cases he : e = .noTupleMatch
    · exact .inr (.inl (by rw [he]))
    · exact .inr (.inr ⟨e, he, rfl⟩)
  · exact .inl (matches_of_ok h)

/-! ## Atoms

Ints, booleans, strings and tuplespace references, with type formals allowed in
a template. -/

def Value.IsAtom : Value → Prop
  | .boolean _ | .integer _ | .uinteger _ | .string _ | .tsref _ => True
  | _ => False

/-- A tuple of atoms. -/
def Tuple.IsAtoms (t : Tuple) : Prop := ∀ v ∈ t, v.IsAtom

/-- A template of atoms and type formals. -/
def Tuple.IsTemplate (p : Tuple) : Prop := ∀ v ∈ p, v.IsAtom ∨ v.isType = true

/-- Some element of the template is a type formal. -/
def Tuple.HasFormal (p : Tuple) : Prop := ∃ v ∈ p, v.isType = true

theorem doesMatchValue_leaf {v : Value} (h : v.isTuple = false) (t : Templ) :
    doesMatchValue v t = doesMatchLeaf v t := by
  cases v <;> simp_all [doesMatchValue, Value.isTuple]

theorem compare_some {a b : TypeVal} {s t : String} (ha : a.id? = some s) (hb : b.id? = some t) :
    compare (some a) (some b) = .ok (s = t) := by
  simp [compare, ha, hb]

theorem builtinType_id? (name id : String) : (builtinType name id).id? = some id := rfl

@[simp] theorem compare_builtinType (m s n t : String) :
    compare (some (builtinType m s)) (some (builtinType n t)) = .ok (s = t) :=
  compare_some (builtinType_id? m s) (builtinType_id? n t)

/-- Two atoms match exactly when they are the same. -/
theorem doesMatchValue_atom {a b : Value} (ha : a.IsAtom) (hb : b.IsAtom) :
    (doesMatchValue a (.val b) = .ok () ∧ a = b) ∨
      (doesMatchValue a (.val b) = .error .noTupleMatch ∧ a ≠ b) := by
  cases a <;> cases b <;>
    simp_all [Value.IsAtom, doesMatchValue, doesMatchLeaf, Value.type?, boolType, longType,
      stringType, tupleSpaceType, Value.pyEq, Value.cmp, Value.kind, strcmp_eq_zero] <;>
    grind

/-- On the left a type is a value of type `type`, which no atom equals. -/
theorem doesMatchValue_type_atom {b : Value} (t : TypeVal) (hb : b.IsAtom) :
    doesMatchValue (.type t) (.val b) = .error .noTupleMatch := by
  cases b <;>
    simp_all [Value.IsAtom, doesMatchValue, doesMatchLeaf, Value.type?, boolType, longType,
      stringType, tupleSpaceType, typeType]

/-- With a tuple of atoms on the right a template matches exactly when it is
that tuple, and nothing but `NoTupleMatch` is raised. -/
theorem doesMatchZip_atoms {p t : Tuple} (hp : p.IsTemplate) (ht : t.IsAtoms)
    (hl : p.length = t.length) :
    (doesMatchZip p (t.map .val) = .ok () ∧ p = t) ∨
      (doesMatchZip p (t.map .val) = .error .noTupleMatch ∧ p ≠ t) := by
  induction p generalizing t with
  | nil => cases t <;> simp_all [doesMatchZip]
  | cons a p ih =>
    rcases t with _ | ⟨b, t⟩
    · simp at hl
    have hb : b.IsAtom := ht b (by simp)
    have hrest := ih (t := t) (fun v hv => hp v (by simp [hv])) (fun v hv => ht v (by simp [hv]))
      (by simpa using hl)
    rcases hp a (by simp) with ha | ha
    · rcases doesMatchValue_atom ha hb with ⟨h, rfl⟩ | ⟨h, hne⟩
      · simpa [doesMatchZip, h] using hrest
      · simp [doesMatchZip, h, hne]
    · obtain ⟨ty, rfl⟩ : ∃ ty, a = .type ty := by cases a <;> simp_all [Value.isType]
      have hne : Value.type ty ≠ b := by rintro rfl; exact hb
      simp [doesMatchZip, doesMatchValue_type_atom ty hb, hne]

/-- `doesMatch_notypes(pattern, tup)` on a template and a tuple of atoms. -/
theorem doesMatch_atoms {p t : Tuple} (hp : p.IsTemplate) (ht : t.IsAtoms) :
    (Matches p t ∧ p = t) ∨ (doesMatch p t = .error .noTupleMatch ∧ p ≠ t) := by
  by_cases hl : p.length = t.length
  · rcases doesMatchZip_atoms hp ht hl with ⟨h, he⟩ | ⟨h, he⟩
    · exact .inl ⟨matches_iff.2 ⟨hl, h⟩, he⟩
    · exact .inr ⟨by simp [doesMatch, hl, h], he⟩
  · exact .inr ⟨by simp [doesMatch, hl], fun he => hl (by rw [he])⟩

theorem matches_atoms_iff {p t : Tuple} (hp : p.IsTemplate) (ht : t.IsAtoms) :
    Matches p t ↔ p = t := by
  rcases doesMatch_atoms hp ht with ⟨h, he⟩ | ⟨h, he⟩
  · exact ⟨fun _ => he, fun _ => h⟩
  · simp [Matches, h, he]

theorem Tuple.IsAtoms.isTemplate {t : Tuple} (h : t.IsAtoms) : t.IsTemplate :=
  fun v hv => .inl (h v hv)

/-- A template without formals is a tuple of atoms. -/
theorem Tuple.IsTemplate.isAtoms {p : Tuple} (h : p.IsTemplate) (hf : ¬ p.HasFormal) :
    p.IsAtoms := by
  intro v hv
  rcases h v hv with ha | ha
  · exact ha
  · exact absurd ⟨v, hv, ha⟩ hf

theorem Tuple.IsAtoms.not_hasFormal {t : Tuple} (h : t.IsAtoms) : ¬ t.HasFormal := by
  rintro ⟨v, hv, ht⟩
  have := h v hv
  cases v <;> simp_all [Value.IsAtom, Value.isType]

/-! ## Data

Atoms and nested tuples of data; a pattern may hold type formals as well. Where
a pattern on the left matches other data on the right, an empty tuple meets an
empty string: both have length 0. -/

inductive Value.IsData : Value → Prop where
  | atom {v : Value} : v.IsAtom → v.IsData
  | tuple {vs : List Value} : (∀ v ∈ vs, v.IsData) → (Value.tuple vs).IsData

inductive Value.IsPattern : Value → Prop where
  | atom {v : Value} : v.IsAtom → v.IsPattern
  | formal (t : TypeVal) : (Value.type t).IsPattern
  | tuple {vs : List Value} : (∀ v ∈ vs, v.IsPattern) → (Value.tuple vs).IsPattern

theorem Value.IsData.isPattern {v : Value} (h : v.IsData) : v.IsPattern := by
  induction h with
  | atom h => exact .atom h
  | tuple _ ih => exact .tuple ih

/-- No empty string occurs at any depth. -/
inductive Value.NoEmptyString : Value → Prop where
  | leaf {v : Value} : v.isTuple = false → v ≠ .string "" → v.NoEmptyString
  | tuple {vs : List Value} : (∀ v ∈ vs, v.NoEmptyString) → (Value.tuple vs).NoEmptyString

theorem Value.IsAtom.not_isTuple {v : Value} (h : v.IsAtom) : v.isTuple = false := by
  cases v <;> simp_all [Value.IsAtom, Value.isTuple]

theorem doesMatchZip_cons_ok {v : Value} {vs : List Value} {t : Templ} {ts : List Templ}
    (h : doesMatchZip (v :: vs) (t :: ts) = .ok ()) :
    doesMatchValue v t = .ok () ∧ doesMatchZip vs ts = .ok () := by
  simp only [doesMatchZip] at h
  split at h
  · cases h
  · exact ⟨by assumption, h⟩

/-- No pattern matches a character of a string. -/
theorem doesMatchValue_chr {a : Value} (ha : a.IsPattern) (c : UInt8) :
    doesMatchValue a (.chr c) ≠ .ok () := by
  induction ha with
  | atom h => simp [doesMatchValue_leaf h.not_isTuple, doesMatchLeaf]
  | formal t => simp [doesMatchValue, doesMatchLeaf]
  | @tuple vs _ ih =>
    rcases vs with _ | ⟨v, vs⟩
    · simp [doesMatchValue, Templ.len]
    intro h
    simp only [doesMatchValue, Templ.len, Templ.items] at h
    split at h
    · cases h
    · exact ih v (by simp) (doesMatchZip_cons_ok h).1

/-- A tuple that matches a tuple does so element by element. -/
theorem doesMatchValue_tuple_iff {vs ws : List Value} :
    doesMatchValue (.tuple vs) (.val (.tuple ws)) = .ok () ↔ Matches vs ws := by
  rw [matches_iff]
  rcases vs with _ | ⟨v, vs⟩
  · rcases ws with _ | ⟨w, ws⟩ <;>
      simp [doesMatchValue, Templ.len, Value.len, doesMatchZip]
    omega
  · simp only [doesMatchValue, Templ.len, Value.len, Templ.items]
    split
    · constructor
      · intro h; cases h
      · rintro ⟨h, -⟩; omega
    · constructor
      · intro h; exact ⟨by omega, h⟩
      · rintro ⟨-, h⟩; exact h

theorem matches_cons_iff {a b : Value} {as bs : Tuple} :
    Matches (a :: as) (b :: bs) ↔ doesMatchValue a (.val b) = .ok () ∧ Matches as bs := by
  simp only [matches_iff, List.length_cons, List.map_cons]
  constructor
  · rintro ⟨hl, h⟩
    have := doesMatchZip_cons_ok h
    exact ⟨this.1, by omega, this.2⟩
  · rintro ⟨h, hl, hz⟩
    exact ⟨by omega, by simp [doesMatchZip, h, hz]⟩

/-- Elementwise: if each element of `as` only matches itself then `as` does. -/
theorem eq_of_matches {as bs : Tuple}
    (ih : ∀ a ∈ as, ∀ b ∈ bs, doesMatchValue a (.val b) = .ok () → a = b)
    (h : Matches as bs) : as = bs := by
  induction as generalizing bs with
  | nil =>
    have := h.length_eq
    cases bs <;> simp_all
  | cons a as iha =>
    rcases bs with _ | ⟨b, bs⟩
    · have := h.length_eq; simp at this
    obtain ⟨hab, hrest⟩ := matches_cons_iff.1 h
    have he : a = b := ih a (by simp) b (by simp) hab
    have hes : as = bs :=
      iha (fun x hx y hy => ih x (by simp [hx]) y (by simp [hy])) hrest
    rw [he, hes]

theorem matches_self {t : Tuple} (h : ∀ v ∈ t, doesMatchValue v (.val v) = .ok ()) :
    Matches t t := by
  induction t with
  | nil => exact matches_iff.2 ⟨rfl, rfl⟩
  | cons a t ih =>
    rw [List.forall_mem_cons] at h
    exact matches_cons_iff.2 ⟨h.1, ih h.2⟩

theorem doesMatchValue_self {v : Value} (h : v.IsData) : doesMatchValue v (.val v) = .ok () := by
  induction h with
  | atom h => exact ((doesMatchValue_atom h h).resolve_right fun hn => hn.2 rfl).1
  | tuple _ ih => exact doesMatchValue_tuple_iff.2 (matches_self ih)

/-- Against a string only the empty tuple succeeds, and only when the string is
empty too. -/
theorem doesMatchValue_tuple_string {vs : List Value} {s : String} (hvs : ∀ v ∈ vs, v.IsPattern)
    (h : doesMatchValue (.tuple vs) (.val (.string s)) = .ok ()) : vs = [] ∧ s = "" := by
  simp only [doesMatchValue, Templ.len, Value.len, Templ.items] at h
  split at h
  · cases h
  rename_i hl
  have hlen : vs.length = (s.toByteArray.data.toList.map Templ.chr).length := by
    simp only [List.length_map, Array.length_toList]
    have : s.toByteArray.data.size = s.utf8ByteSize := rfl
    omega
  rcases vs with _ | ⟨v, vs⟩
  · refine ⟨rfl, String.utf8ByteSize_eq_zero_iff.1 ?_⟩
    simp at hl
    omega
  · rcases hc : s.toByteArray.data.toList with _ | ⟨c, cs⟩
    · simp [hc] at hlen
    · rw [hc] at h
      exact absurd (doesMatchZip_cons_ok h).1 (doesMatchValue_chr (hvs v (by simp)) c)

/-- Data without an empty string are matched only by themselves. -/
theorem eq_of_doesMatchValue {a b : Value} (ha : a.IsPattern) (hb : b.IsData)
    (hs : b.NoEmptyString) (h : doesMatchValue a (.val b) = .ok ()) : a = b := by
  induction ha generalizing b with
  | @atom a ha =>
    rcases hb with hb | @⟨ws, -⟩
    · rcases doesMatchValue_atom ha hb with ⟨-, he⟩ | ⟨he, -⟩
      · exact he
      · rw [he] at h; cases h
    · cases a <;>
        simp_all [Value.IsAtom, doesMatchValue, doesMatchLeaf, compare, Value.type?]
  | formal t =>
    rcases hb with hb | @⟨ws, -⟩
    · rw [doesMatchValue_type_atom t hb] at h; cases h
    · simp [doesMatchValue, doesMatchLeaf, compare, Value.type?] at h
  | @tuple vs hvs ih =>
    rcases hb with hb | @⟨ws, hws⟩
    · cases b with
      | string s =>
        obtain ⟨-, rfl⟩ := doesMatchValue_tuple_string hvs h
        rcases hs with ⟨-, hs⟩
        exact absurd rfl hs
      | _ => simp_all [Value.IsAtom, doesMatchValue, Templ.len, Value.len]
    · rcases hs with hs | ⟨hs⟩
      · simp [Value.isTuple] at *
      · rw [eq_of_matches (fun a ha b hb' => ih a ha (hws b hb') (hs b hb'))
          (doesMatchValue_tuple_iff.1 h)]

/-- `eq_of_doesMatchValue` on whole tuples. -/
theorem eq_of_matches_data {p t : Tuple} (hp : ∀ v ∈ p, v.IsPattern) (ht : ∀ v ∈ t, v.IsData)
    (hs : ∀ v ∈ t, v.NoEmptyString) (h : Matches p t) : p = t :=
  eq_of_matches (fun a ha b hb => eq_of_doesMatchValue (hp a ha) (ht b hb) (hs b hb)) h

end PyLinda
