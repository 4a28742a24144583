import PyLinda.Minimal.NameMap

/-!
# Equality and order of values

`Minimal_Value_eq` and `Minimal_Value_ge` on nil, booleans, integers, strings, references to
tuplespaces, tuples and sums. Of two tuples of one size `eq` looks at the first elements only,
and `ge` goes on where `eq` says so.
-/

namespace PyLinda.ValueFuncs

/-- A `MinimalValue`; a string is what `strcmp` sees of it. -/
inductive Val where
  | nil
  | boolean (b : UInt8)
  | integer (i : Int)
  | uinteger (n : Nat)
  | string (s : String)
  | tsref (tsid : String)
  | tuple (values : List Val)
  | sum (value : Val) (sumPos : Int)

namespace Val

/-- The number of the `M_*`. -/
def type : Val → Nat
  | nil => 0
  | boolean _ => 1
  | integer _ => 2
  | uinteger _ => 3
  | string _ => 6
  | tsref _ => 8
  | tuple _ => 9
  | sum _ _ => 10

@[elab_as_elim]
theorem induct {motive : Val → Prop} (nil : motive nil) (boolean : ∀ b, motive (boolean b))
    (integer : ∀ i, motive (integer i)) (uinteger : ∀ n, motive (uinteger n))
    (string : ∀ s, motive (string s)) (tsref : ∀ s, motive (tsref s))
    (tuple : ∀ vs, (∀ v ∈ vs, motive v) → motive (tuple vs))
    (sum : ∀ v i, motive v → motive (sum v i)) (v : Val) : motive v := by
  refine @Val.rec motive (fun vs => ∀ v ∈ vs, motive v) nil boolean integer uinteger string tsref
    tuple sum ?_ ?_ v
  · intro v hv
    cases hv
  · intro v vs hv hvs w hw
    cases List.mem_cons.1 hw with
    | inl h => exact h ▸ hv
    | inr h => exact hvs w h

/-- Induction for two values at once: they are of two types, or of one. -/
@[elab_as_elim]
theorem induct₂ {motive : Val → Val → Prop} (differ : ∀ a b, a.type ≠ b.type → motive a b)
    (nil : motive nil nil) (boolean : ∀ a b, motive (boolean a) (boolean b))
    (integer : ∀ a b, motive (integer a) (integer b))
    (uinteger : ∀ a b, motive (uinteger a) (uinteger b))
    (string : ∀ a b, motive (string a) (string b)) (tsref : ∀ a b, motive (tsref a) (tsref b))
    (tuple : ∀ as bs, (∀ a ∈ as, ∀ b, motive a b) → motive (tuple as) (tuple bs))
    (sum : ∀ a b i j, motive a b → motive (sum a i) (sum b j)) (a b : Val) : motive a b := by
  by_cases h : a.type = b.type
  · induction a using Val.induct generalizing b with
    | nil => cases b <;> first | exact nil | cases h
    | boolean a => cases b <;> first | exact boolean a _ | cases h
    | integer a => cases b <;> first | exact integer a _ | cases h
    | uinteger a => cases b <;> first | exact uinteger a _ | cases h
    | string a => cases b <;> first | exact string a _ | cases h
    | tsref a => cases b <;> first | exact tsref a _ | cases h
    | tuple as ih =>
      cases b with
      | tuple bs =>
        refine tuple as bs fun a ha b => ?_
        by_cases hab : a.type = b.type
        · exact ih a ha b hab
        · exact differ a b hab
      | _ => cases h
    | sum a i ih =>
      cases b with
      | sum b j =>
        refine sum a b i j ?_
        by_cases hab : a.type = b.type
        · exact ih b hab
        · exact differ a b hab
      | _ => cases h
  · exact differ a b h

end Val

open Val

section
variable (strcmp : String → String → Int)

mutual

/-- `Minimal_Value_eq`. -/
def eq (op1 op2 : Val) : Bool :=
  if op1.type ≠ op2.type then false
  else match op1, op2 with
    | .nil, .nil => false
    | .boolean a, .boolean b => a = b
    | .integer a, .integer b => a = b
    | .uinteger a, .uinteger b => a = b
    | .string a, .string b => if strcmp a b = 0 then true else false
    | .tsref a, .tsref b => if strcmp a b = 0 then true else false
    | .tuple as, .tuple bs =>
      if as.length > bs.length then false
      else if as.length < bs.length then false
      else eqLoop as bs
    | .sum a _, .sum b _ => eq a b
    | _, _ => false

/-- The loop over the values of two tuples. -/
def eqLoop (as bs : List Val) : Bool :=
  match as, bs with
  | a :: as, b :: bs =>
    if eq a b then true
    else if !eq a b then false
    else eqLoop as bs
  | _, _ => false

end

mutual

/-- `Minimal_Value_ge`. -/
def ge (op1 op2 : Val) : Bool :=
  if op1.type ≠ op2.type then op1.type > op2.type
  else match op1, op2 with
    | .nil, .nil => false
    | .boolean a, .boolean b => if a ≠ 0 ∧ b = 0 then true else false
    | .integer a, .integer b => a > b
    | .uinteger a, .uinteger b => a > b
    | .string a, .string b => if strcmp a b = 1 then true else false
    | .tsref a, .tsref b => if strcmp a b = 1 then true else false
    | .tuple as, .tuple bs =>
      if as.length > bs.length then true
      else if as.length < bs.length then false
      else geLoop as bs
    | .sum a _, .sum b _ => ge a b
    | _, _ => false

/-- The loop over the values of two tuples. -/
def geLoop (as bs : List Val) : Bool :=
  match as, bs with
  | a :: as, b :: bs =>
    if ge a b then true
    else if !eq strcmp a b then false
    else geLoop as bs
  | _, _ => false

end

end

/-! ## What the functions look at -/

/-- The values are alike in what `Minimal_Value_eq` looks at: sizes, first elements, what is in
a sum. -/
def Alike : Val → Val → Prop
  | .nil, .nil => True
  | .boolean a, .boolean b => a = b
  | .integer a, .integer b => a = b
  | .uinteger a, .uinteger b => a = b
  | .string a, .string b => a = b
  | .tsref a, .tsref b => a = b
  | .tuple as, .tuple bs =>
    match as, bs with
    | [], [] => True
    | a :: as, b :: bs => as.length = bs.length ∧ Alike a b
    | _, _ => False
  | .sum a _, .sum b _ => Alike a b
  | _, _ => False

/-- `a` is greater than `b` in what the functions look at. -/
def Above : Val → Val → Prop
  | .boolean a, .boolean b => a ≠ 0 ∧ b = 0
  | .integer a, .integer b => b < a
  | .uinteger a, .uinteger b => b < a
  | .string a, .string b => b < a
  | .tsref a, .tsref b => b < a
  | .tuple as, .tuple bs =>
    match as, bs with
    | a :: as, b :: bs => bs.length < as.length ∨ as.length = bs.length ∧ Above a b
    | as, bs => bs.length < as.length
  | .sum a _, .sum b _ => Above a b
  | a, b => b.type < a.type

/-- There is something to tell there: the values do not both begin with nil or an empty tuple,
bytes for true are the same, and `strcmp` says 1 for one of two strings. -/
def Decides (strcmp : String → String → Int) : Val → Val → Prop
  | .nil, .nil => False
  | .boolean a, .boolean b => a = b ∨ (a = 0 ↔ b ≠ 0)
  | .string a, .string b => a = b ∨ strcmp a b = 1 ∨ strcmp b a = 1
  | .tsref a, .tsref b => a = b ∨ strcmp a b = 1 ∨ strcmp b a = 1
  | .tuple as, .tuple bs =>
    match as, bs with
    | [], [] => False
    | a :: as, b :: bs => as.length = bs.length → Decides strcmp a b
    | _, _ => True
  | .sum a _, .sum b _ => Decides strcmp a b
  | _, _ => True

/-! ## One step -/

section
variable {strcmp : String → String → Int}

theorem eq_of_type_ne {a b : Val} (h : a.type ≠ b.type) : eq strcmp a b = false := by
  unfold eq
  rw [if_pos h]

theorem ge_of_type_ne {a b : Val} (h : a.type ≠ b.type) :
    ge strcmp a b = decide (b.type < a.type) := by
  unfold ge
  rw [if_pos h]

theorem Alike.type {a b : Val} (h : Alike a b) : a.type = b.type := by
  cases a <;> cases b <;> first | rfl | cases h

theorem above_of_type_ne {a b : Val} (h : a.type ≠ b.type) : Above a b ↔ b.type < a.type := by
  cases a <;> cases b <;> first | exact absurd rfl h | exact Iff.rfl

theorem decides_of_type_ne {a b : Val} (h : a.type ≠ b.type) : Decides strcmp a b := by
  cases a <;> cases b <;> first | exact absurd rfl h | trivial

theorem eq_nil : eq strcmp .nil .nil = false := rfl

theorem ge_nil : ge strcmp .nil .nil = false := rfl

@[simp] theorem eq_boolean (a b : UInt8) : eq strcmp (.boolean a) (.boolean b) = decide (a = b) := rfl

@[simp] theorem ge_boolean (a b : UInt8) :
    ge strcmp (.boolean a) (.boolean b) = decide (a ≠ 0 ∧ b = 0) := by
  show (if a ≠ 0 ∧ b = 0 then true else false) = _
  by_cases h : a ≠ 0 ∧ b = 0 <;> simp [h]

@[simp] theorem eq_integer (a b : Int) : eq strcmp (.integer a) (.integer b) = decide (a = b) := rfl

@[simp] theorem ge_integer (a b : Int) : ge strcmp (.integer a) (.integer b) = decide (b < a) := rfl

@[simp] theorem eq_uinteger (a b : Nat) :
    eq strcmp (.uinteger a) (.uinteger b) = decide (a = b) := rfl

@[simp] theorem ge_uinteger (a b : Nat) :
    ge strcmp (.uinteger a) (.uinteger b) = decide (b < a) := rfl

@[simp] theorem eq_string (a b : String) :
    eq strcmp (.string a) (.string b) = decide (strcmp a b = 0) := by
  show (if strcmp a b = 0 then true else false) = _
  by_cases h : strcmp a b = 0 <;> simp [h]

@[simp] theorem ge_string (a b : String) :
    ge strcmp (.string a) (.string b) = decide (strcmp a b = 1) := by
  show (if strcmp a b = 1 then true else false) = _
  by_cases h : strcmp a b = 1 <;> simp [h]

@[simp] theorem eq_tsref (a b : String) :
    eq strcmp (.tsref a) (.tsref b) = decide (strcmp a b = 0) := by
  show (if strcmp a b = 0 then true else false) = _
  by_cases h : strcmp a b = 0 <;> simp [h]

@[simp] theorem ge_tsref (a b : String) :
    ge strcmp (.tsref a) (.tsref b) = decide (strcmp a b = 1) := by
  show (if strcmp a b = 1 then true else false) = _
  by_cases h : strcmp a b = 1 <;> simp [h]

@[simp] theorem eq_sum (a b : Val) (i j : Int) :
    eq strcmp (.sum a i) (.sum b j) = eq strcmp a b := by
  rfl

@[simp] theorem ge_sum (a b : Val) (i j : Int) :
    ge strcmp (.sum a i) (.sum b j) = ge strcmp a b := by
  rfl

theorem eqLoop_cons (a b : Val) (as bs : List Val) :
    eqLoop strcmp (a :: as) (b :: bs) = eq strcmp a b := by
  unfold eqLoop
  cases eq strcmp a b <;> rfl

theorem geLoop_cons (a b : Val) (as bs : List Val) :
    geLoop strcmp (a :: as) (b :: bs) =
      (ge strcmp a b || eq strcmp a b && geLoop strcmp as bs) := by
  conv => lhs; unfold geLoop
  cases ge strcmp a b <;> cases eq strcmp a b <;> rfl

theorem eq_tuple (as bs : List Val) :
    eq strcmp (.tuple as) (.tuple bs) = (decide (as.length = bs.length) && eqLoop strcmp as bs) := by
  show (if as.length > bs.length then false
    else if as.length < bs.length then false else eqLoop strcmp as bs) = _
  by_cases hgt : as.length > bs.length
  · rw [if_pos hgt, decide_eq_false (by omega)]
    rfl
  · by_cases hlt : as.length < bs.length
    · rw [if_neg hgt, if_pos hlt, decide_eq_false (by omega)]
      rfl
    · rw [if_neg hgt, if_neg hlt, decide_eq_true (by omega)]
      rfl

theorem ge_tuple (as bs : List Val) :
    ge strcmp (.tuple as) (.tuple bs) =
      (decide (bs.length < as.length) ||
        decide (as.length = bs.length) && geLoop strcmp as bs) := by
  show (if as.length > bs.length then true
    else if as.length < bs.length then false else geLoop strcmp as bs) = _
  by_cases hgt : as.length > bs.length
  · rw [if_pos hgt, decide_eq_true (show bs.length < as.length from hgt)]
    rfl
  · rw [if_neg hgt, decide_eq_false (show ¬ bs.length < as.length from hgt)]
    by_cases hlt : as.length < bs.length
    · rw [if_pos hlt, decide_eq_false (by omega)]
      rfl
    · rw [if_neg hlt, decide_eq_true (by omega)]
      rfl

/-! ## Equality -/

theorem Alike.refl (a : Val) : Alike a a := by
  induction a using Val.induct with
  | nil => trivial
  | boolean | integer | uinteger | string | tsref => exact rfl
  | tuple vs ih =>
    cases vs with
    | nil => trivial
    | cons v vs => exact ⟨rfl, ih v (List.mem_cons_self ..)⟩
  | sum v i ih => exact ih

/-- `Minimal_Value_eq` looks at the first elements. -/
theorem eq_tuple_cons (a b : Val) (as bs : List Val) :
    eq strcmp (.tuple (a :: as)) (.tuple (b :: bs)) =
      (decide (as.length = bs.length) && eq strcmp a b) := by
  rw [eq_tuple, eqLoop_cons]
  simp

theorem ge_tuple_cons (a b : Val) (as bs : List Val) :
    ge strcmp (.tuple (a :: as)) (.tuple (b :: bs)) = (decide (bs.length < as.length) ||
      decide (as.length = bs.length) &&
        (ge strcmp a b || eq strcmp a b && geLoop strcmp as bs)) := by
  rw [ge_tuple, geLoop_cons]
  simp

theorem eq_tuple_nil_left (bs : List Val) : eq strcmp (.tuple []) (.tuple bs) = false := by
  rw [eq_tuple]
  cases bs <;> rfl

theorem eq_tuple_nil_right (as : List Val) : eq strcmp (.tuple as) (.tuple []) = false := by
  rw [eq_tuple]
  cases as <;> rfl

theorem alike_of_eq (hc : Conforming strcmp) {a b : Val} (h : eq strcmp a b = true) :
    Alike a b := by
  induction a, b using Val.induct₂ with
  | differ a b hne =>
    rw [eq_of_type_ne hne] at h
    cases h
  | nil => trivial
  | boolean | integer | uinteger => simpa [Alike] using h
  | string | tsref => simpa [Alike, hc.zero] using h
  | tuple as bs ih =>
    cases as with
    | nil =>
      rw [eq_tuple_nil_left] at h
      cases h
    | cons a as =>
      cases bs with
      | nil =>
        rw [eq_tuple_nil_right] at h
        cases h
      | cons b bs =>
        rw [eq_tuple_cons, Bool.and_eq_true, decide_eq_true_eq] at h
        exact ⟨h.1, ih a (List.mem_cons_self ..) b h.2⟩
  | sum a b i j ih =>
    rw [eq_sum] at h
    exact ih h

theorem eq_of_alike (hc : Conforming strcmp) {a b : Val} (hd : Decides strcmp a b)
    (h : Alike a b) : eq strcmp a b = true := by
  induction a, b using Val.induct₂ with
  | differ a b hne => exact absurd h.type hne
  | nil => exact hd.elim
  | boolean | integer | uinteger => simpa [Alike] using h
  | string | tsref => simpa [Alike, hc.zero] using h
  | tuple as bs ih =>
    cases as with
    | nil =>
      cases bs with
      | nil => exact hd.elim
      | cons b bs => exact h.elim
    | cons a as =>
      cases bs with
      | nil => exact h.elim
      | cons b bs =>
        rw [eq_tuple_cons, Bool.and_eq_true, decide_eq_true_eq]
        exact ⟨h.1, ih a (List.mem_cons_self ..) b (hd h.1) h.2⟩
  | sum a b i j ih =>
    rw [eq_sum]
    exact ih hd h

theorem eq_swap (hc : Conforming strcmp) (a b : Val) : eq strcmp a b = eq strcmp b a := by
  induction a, b using Val.induct₂ with
  | differ a b hne => rw [eq_of_type_ne hne, eq_of_type_ne (Ne.symm hne)]
  | nil => rfl
  | boolean | integer | uinteger => simp [eq_comm]
  | string | tsref => simp [hc.zero, eq_comm]
  | tuple as bs ih =>
    cases as with
    | nil => rw [eq_tuple_nil_left, eq_tuple_nil_right]
    | cons a as =>
      cases bs with
      | nil => rw [eq_tuple_nil_left, eq_tuple_nil_right]
      | cons b bs =>
        rw [eq_tuple_cons, eq_tuple_cons, ih a (List.mem_cons_self ..) b]
        simp [eq_comm]
  | sum a b i j ih =>
    rw [eq_sum, eq_sum]
    exact ih

/-! ## Order -/

theorem ge_self (hc : Conforming strcmp) (a : Val) : ge strcmp a a = false := by
  have hself (s : String) : ¬ strcmp s s = 1 := by
    have := (hc.zero s s).2 rfl
    omega
  induction a using Val.induct with
  | nil => exact ge_nil
  | boolean a =>
    rw [ge_boolean]
    exact decide_eq_false fun h => h.1 h.2
  | integer | uinteger => simp
  | string s | tsref s => simpa using hself s
  | tuple vs ih =>
    rw [ge_tuple]
    simp only [Nat.lt_irrefl, decide_false, decide_true, Bool.false_or, Bool.true_and]
    induction vs with
    | nil => unfold geLoop; rfl
    | cons v vs ihs =>
      rw [geLoop_cons, ih v (List.mem_cons_self ..),
        ihs fun w hw => ih w (List.mem_cons_of_mem _ hw)]
      simp
  | sum v i ih =>
    rw [ge_sum]
    exact ih

theorem Above.type {a b : Val} (h : Above a b) : b.type ≤ a.type := by
  by_cases htype : a.type = b.type
  · omega
  · have := (above_of_type_ne htype).1 h
    omega

theorem Above.not_alike {a b : Val} (h : Above a b) : ¬ Alike a b := by
  induction a, b using Val.induct₂ with
  | differ a b hne => exact fun ha => hne ha.type
  | nil => exact absurd h (Nat.lt_irrefl _)
  | boolean a b =>
    rintro rfl
    exact h.1 h.2
  | integer a b =>
    intro ha
    have h : b < a := h
    have ha : a = b := ha
    omega
  | uinteger a b =>
    intro ha
    have h : b < a := h
    have ha : a = b := ha
    omega
  | string a b | tsref a b =>
    rintro rfl
    exact String.lt_irrefl _ h
  | tuple as bs ih =>
    cases as with
    | nil =>
      cases bs with
      | nil => exact absurd h (Nat.lt_irrefl _)
      | cons b bs => exact fun ha => ha
    | cons a as =>
      cases bs with
      | nil => exact fun ha => ha
      | cons b bs =>
        intro ha
        rcases h with h | h
        · have := ha.1
          omega
        · exact ih a (List.mem_cons_self ..) b h.2 ha.2
  | sum a b i j ih => exact ih h

theorem above_tuple_cons {a b : Val} {as bs : List Val} :
    Above (.tuple (a :: as)) (.tuple (b :: bs)) ↔
      bs.length < as.length ∨ as.length = bs.length ∧ Above a b := Iff.rfl

theorem Above.length {as bs : List Val} (h : Above (.tuple as) (.tuple bs)) :
    bs.length ≤ as.length := by
  cases as with
  | nil =>
    have h : bs.length < 0 := by cases bs <;> exact h
    omega
  | cons a as =>
    cases bs with
    | nil => exact Nat.zero_le _
    | cons b bs =>
      simp only [List.length_cons]
      rcases above_tuple_cons.1 h with h | h <;> omega

theorem above_of_length {as bs : List Val} (h : bs.length < as.length) :
    Above (.tuple as) (.tuple bs) := by
  cases as with
  | nil => cases h
  | cons a as =>
    cases bs with
    | nil => exact h
    | cons b bs => exact Or.inl (by simpa using h)

theorem Above.trans_differ {a b c : Val} (h : Above a b) (h' : Above b c)
    (hne : b.type ≠ c.type) : Above a c := by
  have hcb := (above_of_type_ne hne).1 h'
  have hba := h.type
  exact (above_of_type_ne (by omega)).2 (by omega)

theorem Above.trans {a b c : Val} (h : Above a b) (h' : Above b c) : Above a c := by
  by_cases hbc : b.type = c.type
  · induction a, b using Val.induct₂ generalizing c with
    | differ a b hne =>
      have hab := (above_of_type_ne hne).1 h
      exact (above_of_type_ne (by omega)).2 (by omega)
    | nil => exact absurd h (Nat.lt_irrefl _)
    | boolean a b =>
      cases c with
      | boolean c => exact absurd h.2 h'.1
      | _ => cases hbc
    | integer a b =>
      cases c with
      | integer c => exact Int.lt_trans h' h
      | _ => cases hbc
    | uinteger a b =>
      cases c with
      | uinteger c => exact Nat.lt_trans h' h
      | _ => cases hbc
    | string a b =>
      cases c with
      | string c => exact String.lt_trans h' h
      | _ => cases hbc
    | tsref a b =>
      cases c with
      | tsref c => exact String.lt_trans h' h
      | _ => cases hbc
    | tuple as bs ih =>
      cases c with
      | tuple cs =>
        have hab := h.length
        have hbc := h'.length
        by_cases hlen : cs.length < as.length
        · exact above_of_length hlen
        · cases as with
          | nil => exact absurd h (by cases bs <;> exact Nat.not_lt_zero _)
          | cons a as =>
            cases bs with
            | nil =>
              simp only [List.length_cons, List.length_nil] at hbc hlen
              omega
            | cons b bs =>
              cases cs with
              | nil => simp at hlen
              | cons c cs =>
                simp only [List.length_cons] at hab hbc hlen
                obtain ⟨-, hhead⟩ := (above_tuple_cons.1 h).resolve_left (by omega)
                obtain ⟨-, hhead'⟩ := (above_tuple_cons.1 h').resolve_left (by omega)
                refine above_tuple_cons.2 (Or.inr ⟨by omega, ?_⟩)
                by_cases htype : b.type = c.type
                · exact ih a (List.mem_cons_self ..) b hhead hhead' htype
                · exact hhead.trans_differ hhead' htype
      | _ => cases hbc
    | sum a b i j ih =>
      cases c with
      | sum c k =>
        by_cases htype : b.type = c.type
        · exact ih (c := c) h h' htype
        · exact Above.trans_differ (a := a) h h' htype
      | _ => cases hbc
  · exact h.trans_differ h' hbc

/-- Something to tell is what the functions tell. -/
theorem decides_iff (hc : Conforming strcmp) (a b : Val) : Decides strcmp a b ↔
    ge strcmp a b = true ∨ eq strcmp a b = true ∨ ge strcmp b a = true := by
  induction a, b using Val.induct₂ with
  | differ a b hne =>
    refine iff_of_true (decides_of_type_ne hne) ?_
    rw [ge_of_type_ne hne, ge_of_type_ne (Ne.symm hne), decide_eq_true_eq, decide_eq_true_eq]
    omega
  | nil => simp [Decides, ge_nil, eq_nil]
  | boolean a b =>
    simp only [Decides, ge_boolean, eq_boolean, decide_eq_true_eq]
    by_cases ha : a = 0 <;> by_cases hb : b = 0 <;> simp [ha, hb]
  | integer a b =>
    simp only [Decides, ge_integer, eq_integer, decide_eq_true_eq, true_iff]
    omega
  | uinteger a b =>
    simp only [Decides, ge_uinteger, eq_uinteger, decide_eq_true_eq, true_iff]
    omega
  | string a b =>
    simp only [Decides, ge_string, eq_string, decide_eq_true_eq, hc.zero]
    exact or_left_comm
  | tsref a b =>
    simp only [Decides, ge_tsref, eq_tsref, decide_eq_true_eq, hc.zero]
    exact or_left_comm
  | tuple as bs ih =>
    cases as with
    | nil =>
      cases bs with
      | nil => simp [Decides, ge_tuple, eq_tuple, eqLoop, geLoop]
      | cons b bs => exact iff_of_true trivial (Or.inr (Or.inr (by simp [ge_tuple])))
    | cons a as =>
      cases bs with
      | nil => exact iff_of_true trivial (Or.inl (by simp [ge_tuple]))
      | cons b bs =>
        have hab := ih a (List.mem_cons_self ..) b
        by_cases hlen : as.length = bs.length
        · show (as.length = bs.length → Decides strcmp a b) ↔ _
          simp only [ge_tuple_cons, eq_tuple_cons, hlen, forall_const, hab, Nat.lt_irrefl,
            decide_false, decide_true, Bool.false_or, Bool.true_and, Bool.or_eq_true,
            Bool.and_eq_true]
          rw [eq_swap hc b a]
          constructor
          · rintro (h | h | h)
            · exact Or.inl (Or.inl h)
            · exact Or.inr (Or.inl h)
            · exact Or.inr (Or.inr (Or.inl h))
          · rintro ((h | h) | h | h | h)
            · exact Or.inl h
            · exact Or.inr (Or.inl h.1)
            · exact Or.inr (Or.inl h)
            · exact Or.inr (Or.inr h)
            · exact Or.inr (Or.inl h.1)
        · refine iff_of_true (fun h => absurd h hlen) ?_
          simp only [ge_tuple_cons, Bool.or_eq_true, decide_eq_true_eq]
          rcases Nat.lt_or_gt_of_ne hlen with h | h
          · exact Or.inr (Or.inr (Or.inl h))
          · exact Or.inl (Or.inl h)
  | sum a b i j ih =>
    rw [ge_sum, ge_sum, eq_sum]
    exact ih

theorem one_of_lt (hc : Conforming strcmp) {a b : String}
    (hd : a = b ∨ strcmp a b = 1 ∨ strcmp b a = 1) (h : b < a) : strcmp a b = 1 := by
  rcases hd with rfl | hd | hd
  · exact absurd h (String.lt_irrefl _)
  · exact hd
  · have := hc.pos.1 (show strcmp b a > 0 by omega)
    exact absurd (String.lt_trans h this) (String.lt_irrefl _)

theorem ge_of_above (hc : Conforming strcmp) {a b : Val} (hd : Decides strcmp a b)
    (h : Above a b) : ge strcmp a b = true := by
  induction a, b using Val.induct₂ with
  | differ a b hne =>
    rw [ge_of_type_ne hne]
    exact decide_eq_true ((above_of_type_ne hne).1 h)
  | nil => exact hd.elim
  | boolean a b =>
    rw [ge_boolean]
    exact decide_eq_true h
  | integer a b =>
    rw [ge_integer]
    exact decide_eq_true h
  | uinteger a b =>
    rw [ge_uinteger]
    exact decide_eq_true h
  | string a b =>
    rw [ge_string]
    exact decide_eq_true (one_of_lt hc hd h)
  | tsref a b =>
    rw [ge_tsref]
    exact decide_eq_true (one_of_lt hc hd h)
  | tuple as bs ih =>
    cases as with
    | nil => exact absurd h (by cases bs <;> exact Nat.not_lt_zero _)
    | cons a as =>
      cases bs with
      | nil => simp [ge_tuple]
      | cons b bs =>
        rw [ge_tuple_cons]
        rcases above_tuple_cons.1 h with h | ⟨hlen, h⟩
        · simp [h]
        · have hge := ih a (List.mem_cons_self ..) b (hd hlen) h
          simp [hlen, hge]
  | sum a b i j ih =>
    rw [ge_sum]
    exact ih hd h

/-! ## The values for which the functions are lawful -/

/-- The functions can tell the two values: there is something to tell where they look, and
what they look at is all that there is. -/
def Told (strcmp : String → String → Int) (a b : Val) : Prop :=
  Decides strcmp a b ∧ (Alike a b → a = b)

theorem Told.head {a b : Val} {as bs : List Val}
    (h : Told strcmp (.tuple (a :: as)) (.tuple (b :: bs))) (hlen : as.length = bs.length) :
    Told strcmp a b := by
  refine ⟨h.1 hlen, fun ha => ?_⟩
  cases h.2 ⟨hlen, ha⟩
  rfl

theorem Told.value {a b : Val} {i j : Int} (h : Told strcmp (.sum a i) (.sum b j)) :
    Told strcmp a b := by
  refine ⟨h.1, fun ha => ?_⟩
  cases h.2 ha
  rfl

theorem Told.eq_iff (hc : Conforming strcmp) {a b : Val} (h : Told strcmp a b) :
    eq strcmp a b = true ↔ a = b := by
  constructor
  · intro he
    exact h.2 (alike_of_eq hc he)
  · rintro rfl
    exact eq_of_alike hc h.1 (.refl a)

/-- Of two tuples that can be told the first elements say which is greater. -/
theorem Told.ge_head (hc : Conforming strcmp) {a b : Val} {as bs : List Val}
    (h : Told strcmp (.tuple (a :: as)) (.tuple (b :: bs))) (hlen : as.length = bs.length) :
    ge strcmp (.tuple (a :: as)) (.tuple (b :: bs)) = ge strcmp a b := by
  by_cases he : eq strcmp a b = true
  · cases h.2 ⟨hlen, alike_of_eq hc he⟩
    rw [ge_self hc, ge_self hc]
  · rw [ge_tuple_cons, Bool.eq_false_iff.2 he]
    simp [hlen]

theorem Told.above_of_ge (hc : Conforming strcmp) {a b : Val} (h : Told strcmp a b)
    (hge : ge strcmp a b = true) : Above a b := by
  induction a, b using Val.induct₂ with
  | differ a b hne =>
    rw [ge_of_type_ne hne] at hge
    exact (above_of_type_ne hne).2 (of_decide_eq_true hge)
  | nil =>
    rw [ge_nil] at hge
    cases hge
  | boolean a b =>
    rw [ge_boolean, decide_eq_true_eq] at hge
    exact hge
  | integer a b =>
    rw [ge_integer, decide_eq_true_eq] at hge
    exact hge
  | uinteger a b =>
    rw [ge_uinteger, decide_eq_true_eq] at hge
    exact hge
  | string a b =>
    rw [ge_string, decide_eq_true_eq] at hge
    exact hc.pos.1 (show strcmp a b > 0 by omega)
  | tsref a b =>
    rw [ge_tsref, decide_eq_true_eq] at hge
    exact hc.pos.1 (show strcmp a b > 0 by omega)
  | tuple as bs ih =>
    by_cases hlt : bs.length < as.length
    · exact above_of_length hlt
    · have hlen : as.length = bs.length := by
        rw [ge_tuple, decide_eq_false hlt, Bool.false_or, Bool.and_eq_true,
          decide_eq_true_eq] at hge
        exact hge.1
      cases as with
      | nil =>
        cases bs with
        | nil => exact h.1.elim
        | cons b bs => cases hlen
      | cons a as =>
        cases bs with
        | nil => cases hlen
        | cons b bs =>
          have hlen : as.length = bs.length := Nat.succ.inj hlen
          rw [h.ge_head hc hlen] at hge
          exact Or.inr ⟨hlen, ih a (List.mem_cons_self ..) b (h.head hlen) hge⟩
  | sum a b i j ih =>
    rw [ge_sum] at hge
    exact ih h.value hge

theorem Told.ge_iff (hc : Conforming strcmp) {a b : Val} (h : Told strcmp a b) :
    ge strcmp a b = true ↔ Above a b :=
  ⟨h.above_of_ge hc, ge_of_above hc h.1⟩

/-- `as` comes after `bs` at the first values that differ. -/
def Lexicographic (strcmp : String → String → Int) (as bs : List Val) : Prop :=
  ∃ front a as' b bs', as = front ++ a :: as' ∧ bs = front ++ b :: bs' ∧ ge strcmp a b = true

theorem Told.lexicographic (hc : Conforming strcmp) {as bs : List Val}
    (h : Told strcmp (.tuple as) (.tuple bs)) (hlen : as.length = bs.length) :
    ge strcmp (.tuple as) (.tuple bs) = true ↔ Lexicographic strcmp as bs := by
  cases as with
  | nil =>
    cases bs with
    | nil => exact h.1.elim
    | cons b bs => cases hlen
  | cons a as =>
    cases bs with
    | nil => cases hlen
    | cons b bs =>
      rw [h.ge_head hc (Nat.succ.inj hlen)]
      constructor
      · intro hge
        exact ⟨[], a, as, b, bs, rfl, rfl, hge⟩
      · rintro ⟨front, a', as', b', bs', has, hbs, hge⟩
        cases front with
        | nil =>
          cases has
          cases hbs
          exact hge
        | cons c front =>
          -- the first values are the same, so the tuples are, and nothing differs
          cases has
          cases hbs
          have hsame := Val.tuple.inj (h.2 ⟨Nat.succ.inj hlen, .refl _⟩)
          have hab := List.append_cancel_left (List.cons.inj hsame).2
          cases hab
          rw [ge_self hc] at hge
          cases hge

/-- What is asked of the functions on the values of `S`. -/
structure Lawful (strcmp : String → String → Int) (S : Val → Prop) : Prop where
  refl : ∀ a, S a → eq strcmp a a = true
  symm : ∀ a b, S a → S b → eq strcmp a b = true → eq strcmp b a = true
  trans : ∀ a b c, S a → S b → S c → eq strcmp a b = true → eq strcmp b c = true →
    eq strcmp a c = true
  structural : ∀ a b, S a → S b → (eq strcmp a b = true ↔ a = b)
  one : ∀ a b, S a → S b →
    ge strcmp a b = true ∧ ¬ eq strcmp a b = true ∧ ¬ ge strcmp b a = true ∨
    ¬ ge strcmp a b = true ∧ eq strcmp a b = true ∧ ¬ ge strcmp b a = true ∨
    ¬ ge strcmp a b = true ∧ ¬ eq strcmp a b = true ∧ ge strcmp b a = true
  ge_trans : ∀ a b c, S a → S b → S c → ge strcmp a b = true → ge strcmp b c = true →
    ge strcmp a c = true
  lexicographic : ∀ as bs, S (.tuple as) → S (.tuple bs) → as.length = bs.length →
    (ge strcmp (.tuple as) (.tuple bs) = true ↔ Lexicographic strcmp as bs)

/-- Exactly one of the three holds of two values that can be told. -/
theorem Told.one (hc : Conforming strcmp) {a b : Val} (h : Told strcmp a b)
    (h' : Told strcmp b a) :
    ge strcmp a b = true ∧ ¬ eq strcmp a b = true ∧ ¬ ge strcmp b a = true ∨
    ¬ ge strcmp a b = true ∧ eq strcmp a b = true ∧ ¬ ge strcmp b a = true ∨
    ¬ ge strcmp a b = true ∧ ¬ eq strcmp a b = true ∧ ge strcmp b a = true := by
  rw [h.ge_iff hc, h'.ge_iff hc]
  have hself (v : Val) : ¬ Above v v := fun hv => hv.not_alike (.refl v)
  have hor := (decides_iff hc a b).1 h.1
  rw [h.ge_iff hc, h'.ge_iff hc] at hor
  rcases hor with hge | he | hge
  · exact Or.inl ⟨hge, (fun he => hge.not_alike (alike_of_eq hc he)),
      fun hge' => hself a (hge.trans hge')⟩
  · cases (h.eq_iff hc).1 he
    exact Or.inr (Or.inl ⟨hself a, he, hself a⟩)
  · refine Or.inr (Or.inr ⟨(fun hge' => hself a (hge'.trans hge)), ?_, hge⟩)
    rw [eq_swap hc]
    exact fun he => hge.not_alike (alike_of_eq hc he)

/-- The functions are lawful on values if and only if they can tell any two of them. -/
theorem lawful_iff (hc : Conforming strcmp) (S : Val → Prop) :
    Lawful strcmp S ↔ ∀ a b, S a → S b → Told strcmp a b := by
  constructor
  · intro h a b ha hb
    have hd : Decides strcmp a b := by
      refine (decides_iff hc a b).2 ?_
      rcases h.one a b ha hb with ho | ho | ho
      · exact Or.inl ho.1
      · exact Or.inr (Or.inl ho.2.1)
      · exact Or.inr (Or.inr ho.2.2)
    exact ⟨hd, fun hab => (h.structural a b ha hb).1 (eq_of_alike hc hd hab)⟩
  · intro h
    exact
      { refl := fun a ha => ((h a a ha ha).eq_iff hc).2 rfl
        symm := fun a b _ _ he => by rwa [eq_swap hc]
        trans := fun a b c ha hb hc' he he' => by
          cases ((h a b ha hb).eq_iff hc).1 he
          exact he'
        structural := fun a b ha hb => (h a b ha hb).eq_iff hc
        one := fun a b ha hb => (h a b ha hb).one hc (h b a hb ha)
        ge_trans := fun a b c ha hb hc' hge hge' =>
          ge_of_above hc (h a c ha hc').1
            (((h a b ha hb).above_of_ge hc hge).trans ((h b c hb hc').above_of_ge hc hge'))
        lexicographic := fun as bs has hbs hlen => (h _ _ has hbs).lexicographic hc hlen }

end

theorem lawful_integers : Lawful NameMap.signs fun v => ∃ i, v = .integer i := by
  refine (lawful_iff NameMap.signs_conforming _).2 ?_
  rintro _ _ ⟨i, rfl⟩ ⟨j, rfl⟩
  exact ⟨trivial, fun h => congrArg Val.integer h⟩

/-- Two pairs with the same first value are equal. -/
theorem pairs_equal : ¬ ∀ strcmp, Conforming strcmp → Lawful strcmp fun _ => True := by
  intro h
  have hl := h NameMap.signs NameMap.signs_conforming
  have he := (hl.structural (.tuple [.integer 1, .integer 2]) (.tuple [.integer 1, .integer 3])
    trivial trivial).1 (by rw [eq_tuple_cons]; simp)
  cases he

end PyLinda.ValueFuncs
