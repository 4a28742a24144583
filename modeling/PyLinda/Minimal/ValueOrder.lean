import PyLinda.Minimal.TreeOrder

/-!
# Comparing and hashing values

`linda_Value_cmp` and `linda_ValueHash`, as the server calls them. A value is modelled with
the addresses that one of the two functions reads.
-/

namespace PyLinda.ValueOrder

open Lib

/-- A `float` or a `double`: no number, or its place among the numbers. -/
inductive Flt where
  | nan
  | num (place : Int)
  deriving DecidableEq

/-- `<` in C. -/
def Flt.lt : Flt → Flt → Bool
  | .num x, .num y => x < y
  | _, _ => false

/-- A `MinimalValue`. A string is what `strcmp` sees of it and the rest of its `length` bytes, a
type id its address and its text, a pointer the address of its target. -/
inductive Val where
  | nil
  | boolean (b : Nat)
  | integer (i : Int)
  | uinteger (n : Nat)
  | float (x : Flt)
  | double (x : Flt)
  | string (s rest : String)
  | type (typeName : Option String) (typeSpec : SyntaxTree) (typeId : Option (Nat × String))
  | tsref (tsid : String)
  | tuple (addr : Nat) (values : List Val)
  | sum (value : Val) (sumPos : Int)
  | function (addr : Nat) (funcName : String) (parameterList code : SyntaxTree)
  | pointer (addr ptr : Nat)
  | syntaxTree (addr : Nat) (tree : SyntaxTree)
  | builtInFunc (name : String) (argCount : Int) (funcPtr : Nat)

namespace Val

/-- The number of the `M_*`. -/
def kind : Val → Nat
  | nil => 0
  | boolean _ => 1
  | integer _ => 2
  | uinteger _ => 3
  | float _ => 4
  | double _ => 5
  | string _ _ => 6
  | type _ _ _ => 7
  | tsref _ => 8
  | tuple _ _ => 9
  | sum _ _ => 10
  | function _ _ _ _ => 11
  | pointer _ _ => 12
  | syntaxTree _ _ => 13
  | builtInFunc _ _ _ => 14

mutual

/-- What is in a value, without where it and its parts are. -/
def content : Val → Val
  | type n s id => type n s (id.map fun p => (0, p.2))
  | tuple _ vs => tuple 0 (contents vs)
  | sum v i => sum (content v) i
  | function _ n p c => function 0 n p c
  | pointer _ p => pointer 0 p
  | syntaxTree _ t => syntaxTree 0 t
  | v => v

def contents : List Val → List Val
  | [] => []
  | v :: vs => content v :: contents vs

end

end Val

/-- The address of a type id; `NULL` is 0. -/
def address (typeId : Option (Nat × String)) : Nat := (typeId.map Prod.fst).getD 0

section
variable (strcmp : String → String → Int)

mutual

/-- `linda_Value_cmp`. -/
def cmp (self other : Val) : Int :=
  if self.kind ≠ other.kind then
    if self.kind < other.kind then -1 else 1
  else match self, other with
    | .nil, .nil => 0
    | .boolean a, .boolean b =>
      if a = 0 ∧ b = 0 then 0
      else if a = 0 ∧ b = 1 then -1
      else if a = 1 ∧ b = 0 then 1
      else 0
    | .integer a, .integer b => if a < b then -1 else if a > b then 1 else 0
    | .uinteger a, .uinteger b => if a < b then -1 else if a > b then 1 else 0
    | .float a, .float b => if a.lt b then -1 else if b.lt a then 1 else 0
    | .double a, .double b => if a.lt b then -1 else if b.lt a then 1 else 0
    | .string a _, .string b _ => strcmp a b
    | .tuple _ as, .tuple _ bs =>
      if as.length < bs.length then -1
      else if as.length > bs.length then 1
      else cmpLoop as bs
    | .sum a _, .sum b _ => cmp a b
    | .function _ a _ _, .function _ b _ _ => strcmp a b
    | .type n1 s1 id1, .type n2 s2 id2 =>
      let names := match n1, n2 with
        | some n1, some n2 => strcmp n1 n2
        | _, _ => 0
      if names ≠ 0 then names
      else if ¬ s1.isNull ∧ ¬ s2.isNull then SyntaxTree.cmp strcmp s1 s2
      else if address id1 > address id2 then 1
      else if address id1 < address id2 then -1
      else 0
    | .tsref a, .tsref b => strcmp a b
    | .pointer _ a, .pointer _ b => if a < b then -1 else if a > b then 1 else 0
    | .syntaxTree _ a, .syntaxTree _ b => SyntaxTree.cmp strcmp a b
    | .builtInFunc a _ _, .builtInFunc b _ _ => strcmp a b
    | _, _ => 0

/-- The loop over the values of two tuples. -/
def cmpLoop (as bs : List Val) : Int :=
  match as, bs with
  | a :: as, b :: bs => if cmp a b ≠ 0 then cmp a b else cmpLoop as bs
  | _, _ => 0

end

end

/-- The Python objects that are hashed. -/
inductive Py where
  | bool (b : Bool)
  | int (i : Int)
  | float (x : Flt)
  | str (s : String)

/-- `linda_ValueHash`, where `hash` is `PyObject_Hash`; `none` is a crash. An unsigned integer is
read as a signed one. -/
def valueHash (hash : Py → Int) : Val → Option Int
  | .nil => some 0
  | .boolean b => some (hash (.bool (b ≠ 0)))
  | .integer i => some (hash (.int i))
  | .uinteger n => some (hash (.int (if n < 2 ^ 63 then n else n - 2 ^ 64)))
  | .float x => some (hash (.float x))
  | .double x => some (hash (.float x))
  | .string s rest => some (hash (.str (s ++ rest)))
  | .type (some n) _ _ => some (hash (.str n))
  | .type none _ (some (_, id)) => some (hash (.str id))
  | .type none _ none => none
  | .tsref tsid => some (hash (.str tsid))
  | .tuple addr _ => some (hash (.int addr))
  | .sum v _ => valueHash hash v
  | .function addr _ _ _ => some (hash (.int addr))
  | .pointer addr _ => some (hash (.int addr))
  | .syntaxTree addr _ => some (hash (.int addr))
  | .builtInFunc name _ _ => some (hash (.str name))

/-! ## What is compared -/

/-- The comparison finds nothing between the values. -/
inductive Alike : Val → Val → Prop
  | nil : Alike .nil .nil
  | boolean (a b : Nat) : ¬ (a = 0 ∧ b = 1) → ¬ (a = 1 ∧ b = 0) → Alike (.boolean a) (.boolean b)
  | integer (i : Int) : Alike (.integer i) (.integer i)
  | uinteger (n : Nat) : Alike (.uinteger n) (.uinteger n)
  | float (x y : Flt) : x = y ∨ x = .nan ∨ y = .nan → Alike (.float x) (.float y)
  | double (x y : Flt) : x = y ∨ x = .nan ∨ y = .nan → Alike (.double x) (.double y)
  | string (s r1 r2 : String) : Alike (.string s r1) (.string s r2)
  | type (n1 n2 : Option String) (s1 s2 : SyntaxTree) (id1 id2 : Option (Nat × String)) :
    n1 = n2 ∨ n1 = none ∨ n2 = none →
    (s1.isNull = false → s2.isNull = false → SyntaxTree.Alike s1 s2) →
    (s1.isNull = true ∨ s2.isNull = true → address id1 = address id2) →
    Alike (.type n1 s1 id1) (.type n2 s2 id2)
  | tsref (s : String) : Alike (.tsref s) (.tsref s)
  | tuple (l1 l2 : Nat) (as bs : List Val) : List.Forall₂ Alike as bs →
    Alike (.tuple l1 as) (.tuple l2 bs)
  | sum (a b : Val) (i j : Int) : Alike a b → Alike (.sum a i) (.sum b j)
  | function (l1 l2 : Nat) (n : String) (p1 p2 c1 c2 : SyntaxTree) :
    Alike (.function l1 n p1 c1) (.function l2 n p2 c2)
  | pointer (l1 l2 p : Nat) : Alike (.pointer l1 p) (.pointer l2 p)
  | syntaxTree (l1 l2 : Nat) (t1 t2 : SyntaxTree) : SyntaxTree.Alike t1 t2 →
    Alike (.syntaxTree l1 t1) (.syntaxTree l2 t2)
  | builtInFunc (n : String) (c1 c2 : Int) (p1 p2 : Nat) :
    Alike (.builtInFunc n c1 p1) (.builtInFunc n c2 p2)

/-- The comparison of the values gets to no byte for true but 1, to no float that is not a
number, to no two types of which one lacks a name, or with one name and one of them without a
specification, and to no two trees that are not settled. -/
inductive Settled : Val → Val → Prop
  | differ (a b : Val) : a.kind ≠ b.kind → Settled a b
  | nil : Settled .nil .nil
  | boolean (a b : Nat) : a ≤ 1 → b ≤ 1 → Settled (.boolean a) (.boolean b)
  | integer (i j : Int) : Settled (.integer i) (.integer j)
  | uinteger (m n : Nat) : Settled (.uinteger m) (.uinteger n)
  | float (x y : Flt) : x ≠ .nan → y ≠ .nan → Settled (.float x) (.float y)
  | double (x y : Flt) : x ≠ .nan → y ≠ .nan → Settled (.double x) (.double y)
  | string (s1 s2 r1 r2 : String) : Settled (.string s1 r1) (.string s2 r2)
  | type (n1 n2 : Option String) (s1 s2 : SyntaxTree) (id1 id2 : Option (Nat × String)) :
    (n1 = none ↔ n2 = none) →
    (n1 = n2 → s1.isNull = s2.isNull) → (n1 = n2 → SyntaxTree.Settled s1 s2) →
    Settled (.type n1 s1 id1) (.type n2 s2 id2)
  | tsref (s1 s2 : String) : Settled (.tsref s1) (.tsref s2)
  | size (l1 l2 : Nat) (as bs : List Val) : as.length ≠ bs.length →
    Settled (.tuple l1 as) (.tuple l2 bs)
  | tuple (l1 l2 : Nat) (as bs : List Val) : Along Settled Alike as bs →
    Settled (.tuple l1 as) (.tuple l2 bs)
  | sum (a b : Val) (i j : Int) : Settled a b → Settled (.sum a i) (.sum b j)
  | function (l1 l2 : Nat) (n1 n2 : String) (p1 p2 c1 c2 : SyntaxTree) :
    Settled (.function l1 n1 p1 c1) (.function l2 n2 p2 c2)
  | pointer (l1 l2 p1 p2 : Nat) : Settled (.pointer l1 p1) (.pointer l2 p2)
  | syntaxTree (l1 l2 : Nat) (t1 t2 : SyntaxTree) : SyntaxTree.Settled t1 t2 →
    Settled (.syntaxTree l1 t1) (.syntaxTree l2 t2)
  | builtInFunc (n1 n2 : String) (c1 c2 : Int) (p1 p2 : Nat) :
    Settled (.builtInFunc n1 c1 p1) (.builtInFunc n2 c2 p2)

/-! ## One step -/

/-- There are no values in it. -/
def Val.isLeaf : Val → Bool
  | tuple _ _ => false
  | sum _ _ => false
  | _ => true

@[elab_as_elim]
theorem Val.induct {motive : Val → Prop} (leaf : ∀ v, v.isLeaf = true → motive v)
    (tuple : ∀ l vs, (∀ v ∈ vs, motive v) → motive (.tuple l vs))
    (sum : ∀ v i, motive v → motive (.sum v i)) (v : Val) : motive v := by
  refine @Val.rec motive (fun vs => ∀ v ∈ vs, motive v) (leaf _ rfl) (fun _ => leaf _ rfl)
    (fun _ => leaf _ rfl) (fun _ => leaf _ rfl) (fun _ => leaf _ rfl) (fun _ => leaf _ rfl)
    (fun _ _ => leaf _ rfl) (fun _ _ _ => leaf _ rfl) (fun _ => leaf _ rfl) tuple sum
    (fun _ _ _ _ => leaf _ rfl) (fun _ _ => leaf _ rfl) (fun _ _ => leaf _ rfl)
    (fun _ _ _ => leaf _ rfl) ?_ ?_ v
  · intro v hv
    cases hv
  · intro v vs hv hvs w hw
    cases List.mem_cons.1 hw with
    | inl h => exact h ▸ hv
    | inr h => exact hvs w h

/-- Two values of one kind without values in them. -/
inductive LeafPair : Val → Val → Prop
  | nil : LeafPair .nil .nil
  | boolean (a b : Nat) : LeafPair (.boolean a) (.boolean b)
  | integer (i j : Int) : LeafPair (.integer i) (.integer j)
  | uinteger (m n : Nat) : LeafPair (.uinteger m) (.uinteger n)
  | float (x y : Flt) : LeafPair (.float x) (.float y)
  | double (x y : Flt) : LeafPair (.double x) (.double y)
  | string (s1 s2 r1 r2 : String) : LeafPair (.string s1 r1) (.string s2 r2)
  | type (n1 n2 : Option String) (s1 s2 : SyntaxTree) (id1 id2 : Option (Nat × String)) :
    LeafPair (.type n1 s1 id1) (.type n2 s2 id2)
  | tsref (s1 s2 : String) : LeafPair (.tsref s1) (.tsref s2)
  | function (l1 l2 : Nat) (n1 n2 : String) (p1 p2 c1 c2 : SyntaxTree) :
    LeafPair (.function l1 n1 p1 c1) (.function l2 n2 p2 c2)
  | pointer (l1 l2 p1 p2 : Nat) : LeafPair (.pointer l1 p1) (.pointer l2 p2)
  | syntaxTree (l1 l2 : Nat) (t1 t2 : SyntaxTree) :
    LeafPair (.syntaxTree l1 t1) (.syntaxTree l2 t2)
  | builtInFunc (n1 n2 : String) (c1 c2 : Int) (p1 p2 : Nat) :
    LeafPair (.builtInFunc n1 c1 p1) (.builtInFunc n2 c2 p2)

theorem leafPair {a b : Val} (h : a.kind = b.kind) (hleaf : a.isLeaf = true) : LeafPair a b := by
  cases a <;> cases b <;> first | constructor | (cases h; done) | cases hleaf

theorem LeafPair.isLeaf {a b : Val} (h : LeafPair a b) : b.isLeaf = true := by
  cases h <;> rfl

section
variable {strcmp : String → String → Int}

theorem cmp_nil : cmp strcmp .nil .nil = 0 := rfl

theorem cmp_differ {a b : Val} (h : a.kind ≠ b.kind) : cmp strcmp a b = threeWay a.kind b.kind := by
  unfold cmp threeWay
  rw [if_pos h]
  by_cases hlt : a.kind < b.kind
  · rw [if_pos hlt, if_pos (by omega)]
  · rw [if_neg hlt, if_neg (by omega), if_pos (by omega)]

/-- The kinds are compared before anything else. -/
theorem cmp_kind (a b : Val) :
    sign (cmp strcmp a b) = (sign (threeWay a.kind b.kind)).then (sign (cmp strcmp a b)) := by
  by_cases h : a.kind = b.kind
  · rw [h, sign_eq.2 (threeWay_eq.2 rfl)]
    rfl
  · rw [cmp_differ h]
    cases sign (threeWay a.kind b.kind) <;> rfl

theorem cmpLoop_eq (as bs : List Val) :
    sign (cmpLoop strcmp as bs) = lexi (fun a b => sign (cmp strcmp a b)) as bs := by
  induction as generalizing bs with
  | nil =>
    unfold cmpLoop
    rfl
  | cons a as ih =>
    cases bs with
    | nil =>
      unfold cmpLoop
      rfl
    | cons b bs =>
      unfold cmpLoop
      rw [sign_ite, ih]
      rfl

theorem cmp_tuple (l1 l2 : Nat) (as bs : List Val) :
    sign (cmp strcmp (.tuple l1 as) (.tuple l2 bs)) =
      (sign (threeWay as.length bs.length)).then
        (lexi (fun a b => sign (cmp strcmp a b)) as bs) := by
  conv => lhs; unfold cmp
  show sign (if as.length < bs.length then -1
    else if as.length > bs.length then 1 else cmpLoop strcmp as bs) = _
  rw [SyntaxTree.sign_length, cmpLoop_eq]

theorem cmp_sum (a b : Val) (i j : Int) : cmp strcmp (.sum a i) (.sum b j) = cmp strcmp a b := by
  rfl

theorem cmp_boolean (a b : Nat) : cmp strcmp (.boolean a) (.boolean b) =
    if a = 0 ∧ b = 0 then 0
    else if a = 0 ∧ b = 1 then -1
    else if a = 1 ∧ b = 0 then 1
    else 0 := rfl

theorem cmp_integer (i j : Int) : cmp strcmp (.integer i) (.integer j) = threeWay i j := rfl

/-- The comparison of two floats. -/
def cmpFlt (x y : Flt) : Int := if x.lt y then -1 else if y.lt x then 1 else 0

theorem cmp_float (x y : Flt) : cmp strcmp (.float x) (.float y) = cmpFlt x y := rfl

theorem cmp_double (x y : Flt) : cmp strcmp (.double x) (.double y) = cmpFlt x y := rfl

theorem cmp_string (s1 s2 r1 r2 : String) :
    cmp strcmp (.string s1 r1) (.string s2 r2) = strcmp s1 s2 := rfl

theorem cmp_tsref (s1 s2 : String) : cmp strcmp (.tsref s1) (.tsref s2) = strcmp s1 s2 := rfl

theorem cmp_function (l1 l2 : Nat) (n1 n2 : String) (p1 p2 c1 c2 : SyntaxTree) :
    cmp strcmp (.function l1 n1 p1 c1) (.function l2 n2 p2 c2) = strcmp n1 n2 := rfl

theorem cmp_builtInFunc (n1 n2 : String) (c1 c2 : Int) (p1 p2 : Nat) :
    cmp strcmp (.builtInFunc n1 c1 p1) (.builtInFunc n2 c2 p2) = strcmp n1 n2 := rfl

theorem cmp_syntaxTree (l1 l2 : Nat) (t1 t2 : SyntaxTree) :
    cmp strcmp (.syntaxTree l1 t1) (.syntaxTree l2 t2) = SyntaxTree.cmp strcmp t1 t2 := rfl

theorem threeWay_nat (m n : Nat) :
    (if m < n then -1 else if m > n then 1 else 0) = threeWay m n := by
  unfold threeWay
  by_cases hlt : m < n
  · rw [if_pos hlt, if_pos (by omega)]
  · by_cases hgt : m > n
    · rw [if_neg hlt, if_pos hgt, if_neg (by omega), if_pos (by omega)]
    · rw [if_neg hlt, if_neg hgt, if_neg (by omega), if_neg (by omega)]

theorem cmp_uinteger (m n : Nat) : cmp strcmp (.uinteger m) (.uinteger n) = threeWay m n := by
  unfold cmp
  exact threeWay_nat m n

theorem cmp_pointer (l1 l2 p1 p2 : Nat) :
    cmp strcmp (.pointer l1 p1) (.pointer l2 p2) = threeWay p1 p2 := by
  unfold cmp
  exact threeWay_nat p1 p2

/-- The comparison of the names of two types, which finds nothing where one has none. -/
def cmpNames (strcmp : String → String → Int) : Option String → Option String → Int
  | some n1, some n2 => strcmp n1 n2
  | _, _ => 0

/-- The comparison of two types of one name. -/
def cmpSpecs (strcmp : String → String → Int) (s1 s2 : SyntaxTree)
    (id1 id2 : Option (Nat × String)) : Int :=
  if ¬ s1.isNull ∧ ¬ s2.isNull then SyntaxTree.cmp strcmp s1 s2
  else threeWay (address id1) (address id2)

theorem cmp_types (n1 n2 : Option String) (s1 s2 : SyntaxTree) (id1 id2 : Option (Nat × String)) :
    cmp strcmp (.type n1 s1 id1) (.type n2 s2 id2) =
      if cmpNames strcmp n1 n2 ≠ 0 then cmpNames strcmp n1 n2
      else cmpSpecs strcmp s1 s2 id1 id2 := by
  have hids : (if address id1 > address id2 then (1 : Int)
      else if address id1 < address id2 then -1 else 0) =
      threeWay (address id1) (address id2) := by
    rw [← threeWay_nat]
    by_cases hlt : address id1 < address id2
    · rw [if_neg (by omega), if_pos hlt, if_pos hlt]
    · by_cases hgt : address id1 > address id2
      · rw [if_pos hgt, if_neg hlt, if_pos hgt]
      · rw [if_neg hgt, if_neg hlt, if_neg hlt, if_neg hgt]
  unfold cmp cmpSpecs
  rw [← hids]
  cases n1 <;> cases n2 <;> rfl

/-! ## What the comparison finds -/

theorem cmpFlt_num (x y : Int) : cmpFlt (.num x) (.num y) = threeWay x y := by
  unfold cmpFlt threeWay Flt.lt
  simp only [decide_eq_true_eq]

theorem cmpFlt_eq_zero (x y : Flt) : cmpFlt x y = 0 ↔ x = y ∨ x = .nan ∨ y = .nan := by
  cases x with
  | nan => exact iff_of_true (by cases y <;> rfl) (Or.inr (Or.inl rfl))
  | num x =>
    cases y with
    | nan => exact iff_of_true rfl (Or.inr (Or.inr rfl))
    | num y =>
      rw [cmpFlt_num, threeWay_eq]
      simp

theorem cmpFlt_swap (x y : Flt) : sign (cmpFlt y x) = (sign (cmpFlt x y)).swap := by
  cases x with
  | nan => cases y <;> rfl
  | num x =>
    cases y with
    | nan => rfl
    | num y =>
      rw [cmpFlt_num, cmpFlt_num]
      exact threeWay_orders.swap x y

theorem cmpFlt_coherent {x y z : Flt} (hx : x ≠ .nan) (hy : y ≠ .nan) (hz : z ≠ .nan) :
    Coherent (sign (cmpFlt x y)) (sign (cmpFlt y z)) (sign (cmpFlt x z)) := by
  cases x with
  | nan => exact absurd rfl hx
  | num x =>
    cases y with
    | nan => exact absurd rfl hy
    | num y =>
      cases z with
      | nan => exact absurd rfl hz
      | num z =>
        rw [cmpFlt_num, cmpFlt_num, cmpFlt_num]
        exact threeWay_orders.coherent x y z

theorem cmpNames_eq_zero (hc : Conforming strcmp) (n1 n2 : Option String) :
    cmpNames strcmp n1 n2 = 0 ↔ n1 = n2 ∨ n1 = none ∨ n2 = none := by
  cases n1 with
  | none => exact iff_of_true rfl (Or.inr (Or.inl rfl))
  | some n1 =>
    cases n2 with
    | none => exact iff_of_true rfl (Or.inr (Or.inr rfl))
    | some n2 =>
      show strcmp n1 n2 = 0 ↔ _
      rw [hc.zero]
      simp

theorem cmpNames_same (hc : Conforming strcmp) {n1 n2 : Option String}
    (h : n1 = none ↔ n2 = none) (hz : cmpNames strcmp n1 n2 = 0) : n1 = n2 := by
  rcases (cmpNames_eq_zero hc n1 n2).1 hz with h' | h' | h'
  · exact h'
  · rw [h', h.1 h']
  · rw [h', h.2 h']

theorem cmpNames_swap (hc : Conforming strcmp) (n1 n2 : Option String) :
    sign (cmpNames strcmp n2 n1) = (sign (cmpNames strcmp n1 n2)).swap := by
  cases n1 with
  | none => cases n2 <;> rfl
  | some n1 =>
    cases n2 with
    | none => rfl
    | some n2 => exact hc.orders.swap n1 n2

theorem cmpNames_coherent (hc : Conforming strcmp) {n1 n2 n3 : Option String}
    (h12 : n1 = none ↔ n2 = none) (h23 : n2 = none ↔ n3 = none) :
    Coherent (sign (cmpNames strcmp n1 n2)) (sign (cmpNames strcmp n2 n3))
      (sign (cmpNames strcmp n1 n3)) := by
  cases n1 with
  | none =>
    cases h12.1 rfl
    exact coherent_eq
  | some n1 =>
    cases n2 with
    | none => cases h12.2 rfl
    | some n2 =>
      cases n3 with
      | none => cases h23.2 rfl
      | some n3 => exact hc.orders.coherent n1 n2 n3

theorem cmpSpecs_eq_zero (hc : Conforming strcmp) (s1 s2 : SyntaxTree)
    (id1 id2 : Option (Nat × String)) : cmpSpecs strcmp s1 s2 id1 id2 = 0 ↔
      (s1.isNull = false → s2.isNull = false → SyntaxTree.Alike s1 s2) ∧
      (s1.isNull = true ∨ s2.isNull = true → address id1 = address id2) := by
  unfold cmpSpecs
  cases h1 : s1.isNull <;> cases h2 : s2.isNull <;>
    simp [SyntaxTree.cmp_eq_zero_iff hc, threeWay_eq, Int.ofNat_inj]

theorem cmpSpecs_swap (hc : Conforming strcmp) (s1 s2 : SyntaxTree)
    (id1 id2 : Option (Nat × String)) :
    sign (cmpSpecs strcmp s2 s1 id2 id1) = (sign (cmpSpecs strcmp s1 s2 id1 id2)).swap := by
  unfold cmpSpecs
  by_cases h : ¬ s1.isNull ∧ ¬ s2.isNull
  · rw [if_pos h, if_pos h.symm]
    exact SyntaxTree.cmp_swap hc s1 s2
  · rw [if_neg h, if_neg fun h' => h h'.symm]
    exact threeWay_orders.swap (address id1 : Int) (address id2)

theorem cmpSpecs_coherent (hc : Conforming strcmp) {s1 s2 s3 : SyntaxTree}
    (id1 id2 id3 : Option (Nat × String)) (h12 : s1.isNull = s2.isNull)
    (h23 : s2.isNull = s3.isNull) (hs12 : SyntaxTree.Settled s1 s2)
    (hs23 : SyntaxTree.Settled s2 s3) (hs13 : SyntaxTree.Settled s1 s3) :
    Coherent (sign (cmpSpecs strcmp s1 s2 id1 id2)) (sign (cmpSpecs strcmp s2 s3 id2 id3))
      (sign (cmpSpecs strcmp s1 s3 id1 id3)) := by
  unfold cmpSpecs
  rw [← h23, ← h12]
  by_cases h : ¬ s1.isNull ∧ ¬ s1.isNull
  · rw [if_pos h, if_pos h, if_pos h]
    exact SyntaxTree.cmp_coherent hc hs12 hs23 hs13
  · rw [if_neg h, if_neg h, if_neg h]
    exact threeWay_orders.coherent (address id1 : Int) (address id2) (address id3)

theorem Alike.kind {a b : Val} (h : Alike a b) : a.kind = b.kind := by
  cases h <;> rfl

theorem tuple_of_kind {l : Nat} {as : List Val} {b : Val} (h : (Val.tuple l as).kind = b.kind) :
    ∃ l' bs, b = .tuple l' bs := by
  cases b with
  | tuple l' bs => exact ⟨l', bs, rfl⟩
  | _ => cases h

theorem sum_of_kind {a : Val} {i : Int} {b : Val} (h : (Val.sum a i).kind = b.kind) :
    ∃ b' j, b = .sum b' j := by
  cases b with
  | sum b' j => exact ⟨b', j, rfl⟩
  | _ => cases h

theorem differ_eq_zero_iff {a b : Val} (h : a.kind ≠ b.kind) :
    cmp strcmp a b = 0 ↔ Alike a b := by
  refine iff_of_false ?_ fun ha => h ha.kind
  rw [cmp_differ h, threeWay_eq]
  omega

theorem leaf_eq_zero_iff (hc : Conforming strcmp) {a b : Val} (h : LeafPair a b) :
    cmp strcmp a b = 0 ↔ Alike a b := by
  cases h with
  | nil => exact iff_of_true cmp_nil .nil
  | boolean a b =>
    rw [cmp_boolean]
    constructor
    · intro h
      refine .boolean a b (fun hab => ?_) fun hab => ?_
      · rw [if_neg (by omega), if_pos hab] at h
        cases h
      · rw [if_neg (by omega), if_neg (by omega), if_pos hab] at h
        cases h
    · intro h
      cases h with
      | boolean _ _ h h' =>
        rw [if_neg h, if_neg h']
        split <;> rfl
  | integer i j =>
    rw [cmp_integer, threeWay_eq]
    refine ⟨fun h => h ▸ .integer i, fun h => ?_⟩
    cases h
    rfl
  | uinteger m n =>
    rw [cmp_uinteger, threeWay_eq, Int.ofNat_inj]
    refine ⟨fun h => h ▸ .uinteger m, fun h => ?_⟩
    cases h
    rfl
  | float x y =>
    rw [cmp_float, cmpFlt_eq_zero]
    refine ⟨.float x y, fun h => ?_⟩
    cases h with
    | float _ _ h => exact h
  | double x y =>
    rw [cmp_double, cmpFlt_eq_zero]
    refine ⟨.double x y, fun h => ?_⟩
    cases h with
    | double _ _ h => exact h
  | string s1 s2 r1 r2 =>
    rw [cmp_string, hc.zero]
    refine ⟨fun h => h ▸ .string s1 r1 r2, fun h => ?_⟩
    cases h
    rfl
  | type n1 n2 s1 s2 id1 id2 =>
    rw [cmp_types]
    constructor
    · intro h
      by_cases hn : cmpNames strcmp n1 n2 = 0
      · rw [if_neg (not_not_intro hn), cmpSpecs_eq_zero hc] at h
        exact .type n1 n2 s1 s2 id1 id2 ((cmpNames_eq_zero hc n1 n2).1 hn) h.1 h.2
      · rw [if_pos hn] at h
        exact absurd h hn
    · intro h
      cases h with
      | type _ _ _ _ _ _ hn hs hid =>
        rw [if_neg (not_not_intro ((cmpNames_eq_zero hc n1 n2).2 hn)), cmpSpecs_eq_zero hc]
        exact ⟨hs, hid⟩
  | tsref s1 s2 =>
    rw [cmp_tsref, hc.zero]
    refine ⟨fun h => h ▸ .tsref s1, fun h => ?_⟩
    cases h
    rfl
  | function l1 l2 n1 n2 p1 p2 c1 c2 =>
    rw [cmp_function, hc.zero]
    refine ⟨fun h => h ▸ .function l1 l2 n1 p1 p2 c1 c2, fun h => ?_⟩
    cases h
    rfl
  | pointer l1 l2 p1 p2 =>
    rw [cmp_pointer, threeWay_eq, Int.ofNat_inj]
    refine ⟨fun h => h ▸ .pointer l1 l2 p1, fun h => ?_⟩
    cases h
    rfl
  | syntaxTree l1 l2 t1 t2 =>
    rw [cmp_syntaxTree, SyntaxTree.cmp_eq_zero_iff hc]
    refine ⟨.syntaxTree l1 l2 t1 t2, fun h => ?_⟩
    cases h with
    | syntaxTree _ _ _ _ h => exact h
  | builtInFunc n1 n2 c1 c2 p1 p2 =>
    rw [cmp_builtInFunc, hc.zero]
    refine ⟨fun h => h ▸ .builtInFunc n1 c1 c2 p1 p2, fun h => ?_⟩
    cases h
    rfl

theorem cmp_eq_zero_iff (hc : Conforming strcmp) (a b : Val) :
    cmp strcmp a b = 0 ↔ Alike a b := by
  induction a using Val.induct generalizing b with
  | leaf a hleaf =>
    by_cases hkind : a.kind = b.kind
    · exact leaf_eq_zero_iff hc (leafPair hkind hleaf)
    · exact differ_eq_zero_iff hkind
  | tuple l as ih =>
    by_cases hkind : (Val.tuple l as).kind = b.kind
    · obtain ⟨l', bs, rfl⟩ := tuple_of_kind hkind
      rw [← sign_eq, cmp_tuple, Ordering.then_eq_eq, sign_eq, threeWay_eq, Int.ofNat_inj]
      constructor
      · intro ⟨hlen, h⟩
        exact .tuple l l' as bs ((lexi_eq_iff (c := fun a b => sign (cmp strcmp a b))
          (fun a ha b => sign_eq.trans (ih a ha b)) hlen).1 h)
      · intro h
        cases h with
        | tuple _ _ _ _ h =>
          exact ⟨h.length_eq, (lexi_eq_iff (c := fun a b => sign (cmp strcmp a b))
            (fun a ha b => sign_eq.trans (ih a ha b)) h.length_eq).2 h⟩
    · exact differ_eq_zero_iff hkind
  | sum a i ih =>
    by_cases hkind : (Val.sum a i).kind = b.kind
    · obtain ⟨b, j, rfl⟩ := sum_of_kind hkind
      rw [cmp_sum, ih]
      refine ⟨.sum a b i j, fun h => ?_⟩
      cases h with
      | sum _ _ _ _ h => exact h
    · exact differ_eq_zero_iff hkind

theorem leaf_swap (hc : Conforming strcmp) {a b : Val} (h : LeafPair a b) :
    sign (cmp strcmp b a) = (sign (cmp strcmp a b)).swap := by
  cases h with
  | nil =>
    rw [cmp_nil]
    rfl
  | boolean a b =>
    rw [cmp_boolean, cmp_boolean]
    by_cases ha : a = 0 <;> by_cases hb : b = 0 <;> by_cases ha1 : a = 1 <;>
      by_cases hb1 : b = 1 <;> simp [ha, hb, ha1, hb1] <;> rfl
  | integer i j =>
    rw [cmp_integer, cmp_integer]
    exact threeWay_orders.swap i j
  | uinteger m n =>
    rw [cmp_uinteger, cmp_uinteger]
    exact threeWay_orders.swap (m : Int) n
  | float x y =>
    rw [cmp_float, cmp_float]
    exact cmpFlt_swap x y
  | double x y =>
    rw [cmp_double, cmp_double]
    exact cmpFlt_swap x y
  | string s1 s2 r1 r2 =>
    rw [cmp_string, cmp_string]
    exact hc.orders.swap s1 s2
  | type n1 n2 s1 s2 id1 id2 =>
    rw [cmp_types, cmp_types, sign_ite, sign_ite, cmpNames_swap hc n1 n2, cmpSpecs_swap hc s1 s2,
      Ordering.swap_then]
  | tsref s1 s2 =>
    rw [cmp_tsref, cmp_tsref]
    exact hc.orders.swap s1 s2
  | function l1 l2 n1 n2 p1 p2 c1 c2 =>
    rw [cmp_function, cmp_function]
    exact hc.orders.swap n1 n2
  | pointer l1 l2 p1 p2 =>
    rw [cmp_pointer, cmp_pointer]
    exact threeWay_orders.swap (p1 : Int) p2
  | syntaxTree l1 l2 t1 t2 =>
    rw [cmp_syntaxTree, cmp_syntaxTree]
    exact SyntaxTree.cmp_swap hc t1 t2
  | builtInFunc n1 n2 c1 c2 p1 p2 =>
    rw [cmp_builtInFunc, cmp_builtInFunc]
    exact hc.orders.swap n1 n2

theorem differ_swap {a b : Val} (h : a.kind ≠ b.kind) :
    sign (cmp strcmp b a) = (sign (cmp strcmp a b)).swap := by
  rw [cmp_differ h, cmp_differ (Ne.symm h)]
  exact threeWay_orders.swap (a.kind : Int) b.kind

theorem cmp_swap (hc : Conforming strcmp) (a b : Val) :
    sign (cmp strcmp b a) = (sign (cmp strcmp a b)).swap := by
  induction a using Val.induct generalizing b with
  | leaf a hleaf =>
    by_cases hkind : a.kind = b.kind
    · exact leaf_swap hc (leafPair hkind hleaf)
    · exact differ_swap hkind
  | tuple l as ih =>
    by_cases hkind : (Val.tuple l as).kind = b.kind
    · obtain ⟨l', bs, rfl⟩ := tuple_of_kind hkind
      rw [cmp_tuple, cmp_tuple, threeWay_orders.swap (as.length : Int) bs.length,
        @lexi_swap _ _ as bs fun a ha b => ih a ha b, Ordering.swap_then]
    · exact differ_swap hkind
  | sum a i ih =>
    by_cases hkind : (Val.sum a i).kind = b.kind
    · obtain ⟨b, j, rfl⟩ := sum_of_kind hkind
      rw [cmp_sum, cmp_sum]
      exact ih b
    · exact differ_swap hkind

theorem Alike.refl (hc : Conforming strcmp) (a : Val) : Alike a a := by
  have h := cmp_swap hc a a
  refine (cmp_eq_zero_iff hc a a).1 (sign_eq.1 ?_)
  cases ho : sign (cmp strcmp a a) with
  | eq => rfl
  | lt =>
    rw [ho] at h
    cases h
  | gt =>
    rw [ho] at h
    cases h

/-- `0` and `1` are compared as numbers. -/
theorem cmp_boolean_le {a b : Nat} (ha : a ≤ 1) (hb : b ≤ 1) :
    cmp strcmp (.boolean a) (.boolean b) = threeWay a b := by
  rw [cmp_boolean]
  obtain rfl | rfl : a = 0 ∨ a = 1 := by omega
  · obtain rfl | rfl : b = 0 ∨ b = 1 := by omega
    · rfl
    · rfl
  · obtain rfl | rfl : b = 0 ∨ b = 1 := by omega
    · rfl
    · rfl

theorem leaf_coherent (hc : Conforming strcmp) {a b c : Val} (h : LeafPair a b)
    (h' : LeafPair b c) (hab : Settled a b) (hbc : Settled b c) (hac : Settled a c) :
    Coherent (sign (cmp strcmp a b)) (sign (cmp strcmp b c)) (sign (cmp strcmp a c)) := by
  cases h with
  | nil =>
    cases h'
    rw [cmp_nil]
    exact coherent_eq
  | boolean a b =>
    cases h' with
    | boolean _ c =>
      cases hab with
      | differ _ _ h => exact absurd rfl h
      | boolean _ _ ha hb =>
        cases hbc with
        | differ _ _ h => exact absurd rfl h
        | boolean _ _ _ hc' =>
          rw [cmp_boolean_le ha hb, cmp_boolean_le hb hc', cmp_boolean_le ha hc']
          exact threeWay_orders.coherent (a : Int) b c
  | integer i j =>
    cases h' with
    | integer _ k =>
      rw [cmp_integer, cmp_integer, cmp_integer]
      exact threeWay_orders.coherent i j k
  | uinteger m n =>
    cases h' with
    | uinteger _ k =>
      rw [cmp_uinteger, cmp_uinteger, cmp_uinteger]
      exact threeWay_orders.coherent (m : Int) n k
  | float x y =>
    cases h' with
    | float _ z =>
      cases hab with
      | differ _ _ h => exact absurd rfl h
      | float _ _ hx hy =>
        cases hbc with
        | differ _ _ h => exact absurd rfl h
        | float _ _ _ hz =>
          rw [cmp_float, cmp_float, cmp_float]
          exact cmpFlt_coherent hx hy hz
  | double x y =>
    cases h' with
    | double _ z =>
      cases hab with
      | differ _ _ h => exact absurd rfl h
      | double _ _ hx hy =>
        cases hbc with
        | differ _ _ h => exact absurd rfl h
        | double _ _ _ hz =>
          rw [cmp_double, cmp_double, cmp_double]
          exact cmpFlt_coherent hx hy hz
  | string s1 s2 r1 r2 =>
    cases h' with
    | string _ s3 _ r3 =>
      rw [cmp_string, cmp_string, cmp_string]
      exact hc.orders.coherent s1 s2 s3
  | type n1 n2 s1 s2 id1 id2 =>
    cases h' with
    | type _ n3 _ s3 _ id3 =>
      cases hab with
      | differ _ _ h => exact absurd rfl h
      | type _ _ _ _ _ _ hn12 hnull12 hs12 =>
        cases hbc with
        | differ _ _ h => exact absurd rfl h
        | type _ _ _ _ _ _ hn23 hnull23 hs23 =>
          cases hac with
          | differ _ _ h => exact absurd rfl h
          | type _ _ _ _ _ _ hn13 hnull13 hs13 =>
            rw [cmp_types, cmp_types, cmp_types, sign_ite, sign_ite, sign_ite]
            refine (cmpNames_coherent hc hn12 hn23).then fun h1 h2 h3 => ?_
            have h1 := cmpNames_same hc hn12 (sign_eq.1 h1)
            have h2 := cmpNames_same hc hn23 (sign_eq.1 h2)
            exact cmpSpecs_coherent hc id1 id2 id3 (hnull12 h1) (hnull23 h2) (hs12 h1) (hs23 h2)
              (hs13 (h1.trans h2))
  | tsref s1 s2 =>
    cases h' with
    | tsref _ s3 =>
      rw [cmp_tsref, cmp_tsref, cmp_tsref]
      exact hc.orders.coherent s1 s2 s3
  | function l1 l2 n1 n2 p1 p2 c1 c2 =>
    cases h' with
    | function _ l3 _ n3 _ p3 _ c3 =>
      rw [cmp_function, cmp_function, cmp_function]
      exact hc.orders.coherent n1 n2 n3
  | pointer l1 l2 p1 p2 =>
    cases h' with
    | pointer _ l3 _ p3 =>
      rw [cmp_pointer, cmp_pointer, cmp_pointer]
      exact threeWay_orders.coherent (p1 : Int) p2 p3
  | syntaxTree l1 l2 t1 t2 =>
    cases h' with
    | syntaxTree _ l3 _ t3 =>
      cases hab with
      | differ _ _ h => exact absurd rfl h
      | syntaxTree _ _ _ _ h12 =>
        cases hbc with
        | differ _ _ h => exact absurd rfl h
        | syntaxTree _ _ _ _ h23 =>
          cases hac with
          | differ _ _ h => exact absurd rfl h
          | syntaxTree _ _ _ _ h13 =>
            rw [cmp_syntaxTree, cmp_syntaxTree, cmp_syntaxTree]
            exact SyntaxTree.cmp_coherent hc h12 h23 h13
  | builtInFunc n1 n2 c1 c2 p1 p2 =>
    cases h' with
    | builtInFunc _ n3 _ c3 _ p3 =>
      rw [cmp_builtInFunc, cmp_builtInFunc, cmp_builtInFunc]
      exact hc.orders.coherent n1 n2 n3

theorem Settled.along {l1 l2 : Nat} {as bs : List Val}
    (h : Settled (.tuple l1 as) (.tuple l2 bs)) (hlen : as.length = bs.length) :
    Along Settled Alike as bs := by
  cases h with
  | differ _ _ h => exact absurd rfl h
  | size _ _ _ _ h => exact absurd hlen h
  | tuple _ _ _ _ h => exact h

theorem Settled.value {a b : Val} {i j : Int} (h : Settled (.sum a i) (.sum b j)) :
    Settled a b := by
  cases h with
  | differ _ _ h => exact absurd rfl h
  | sum _ _ _ _ h => exact h

theorem cmp_coherent (hc : Conforming strcmp) {a b c : Val} (hab : Settled a b)
    (hbc : Settled b c) (hac : Settled a c) :
    Coherent (sign (cmp strcmp a b)) (sign (cmp strcmp b c)) (sign (cmp strcmp a c)) := by
  induction a using Val.induct generalizing b c with
  | leaf a hleaf =>
    rw [cmp_kind a b, cmp_kind b c, cmp_kind a c]
    refine (threeWay_orders.coherent (a.kind : Int) b.kind c.kind).then fun h1 h2 _ => ?_
    have h1 : a.kind = b.kind := Int.ofNat.inj (threeWay_eq.1 (sign_eq.1 h1))
    have h2 : b.kind = c.kind := Int.ofNat.inj (threeWay_eq.1 (sign_eq.1 h2))
    have hp := leafPair h1 hleaf
    exact leaf_coherent hc hp (leafPair h2 hp.isLeaf) hab hbc hac
  | tuple l as ih =>
    rw [cmp_kind (.tuple l as) b, cmp_kind b c, cmp_kind (.tuple l as) c]
    refine (threeWay_orders.coherent ((Val.tuple l as).kind : Int) b.kind c.kind).then
      fun h1 h2 _ => ?_
    have h1 : (Val.tuple l as).kind = b.kind := Int.ofNat.inj (threeWay_eq.1 (sign_eq.1 h1))
    have h2 : b.kind = c.kind := Int.ofNat.inj (threeWay_eq.1 (sign_eq.1 h2))
    obtain ⟨l', bs, rfl⟩ := tuple_of_kind h1
    obtain ⟨l'', cs, rfl⟩ := tuple_of_kind h2
    rw [cmp_tuple, cmp_tuple, cmp_tuple]
    refine (threeWay_orders.coherent (as.length : Int) bs.length cs.length).then fun h1 h2 _ => ?_
    have h1 : as.length = bs.length := Int.ofNat.inj (threeWay_eq.1 (sign_eq.1 h1))
    have h2 : bs.length = cs.length := Int.ofNat.inj (threeWay_eq.1 (sign_eq.1 h2))
    exact lexi_coherent (c := fun a b => sign (cmp strcmp a b))
      (fun a ha b d hab hbd had => ih a ha hab hbd had)
      (fun a b h => (cmp_eq_zero_iff hc a b).1 (sign_eq.1 h)) (hab.along h1) (hbc.along h2)
      (hac.along (h1.trans h2)) h1 h2
  | sum a i ih =>
    rw [cmp_kind (.sum a i) b, cmp_kind b c, cmp_kind (.sum a i) c]
    refine (threeWay_orders.coherent ((Val.sum a i).kind : Int) b.kind c.kind).then
      fun h1 h2 _ => ?_
    have h1 : (Val.sum a i).kind = b.kind := Int.ofNat.inj (threeWay_eq.1 (sign_eq.1 h1))
    have h2 : b.kind = c.kind := Int.ofNat.inj (threeWay_eq.1 (sign_eq.1 h2))
    obtain ⟨b, j, rfl⟩ := sum_of_kind h1
    obtain ⟨c, k, rfl⟩ := sum_of_kind h2
    rw [cmp_sum, cmp_sum, cmp_sum]
    exact ih hab.value hbc.value hac.value

/-! ## The values for which the comparison is lawful -/

/-- What is asked of the comparison and the hash on the values of `S`. -/
structure Lawful (strcmp : String → String → Int) (hash : Py → Int) (S : Val → Prop) : Prop where
  refl : ∀ a, S a → cmp strcmp a a = 0
  antisymm : ∀ a b, S a → S b → (cmp strcmp a b < 0 ↔ cmp strcmp b a > 0)
  trans : ∀ a b c, S a → S b → S c → cmp strcmp a b ≤ 0 → cmp strcmp b c ≤ 0 →
    cmp strcmp a c ≤ 0
  zero : ∀ a b, S a → S b → (cmp strcmp a b = 0 ↔ a.content = b.content)
  hash : ∀ a b, S a → S b → cmp strcmp a b = 0 → valueHash hash a = valueHash hash b

/-- Between the values the comparison finds nothing exactly if there is nothing, and then they
have one hash. -/
def Told (hash : Py → Int) (a b : Val) : Prop :=
  (Alike a b ↔ a.content = b.content) ∧ (Alike a b → valueHash hash a = valueHash hash b)

end

/-- A hash that tells integers from each other. -/
def hashInt : Py → Int
  | .int i => i
  | _ => 0

end PyLinda.ValueOrder
