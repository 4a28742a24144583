import Mathlib.Algebra.Order.Ring.Int
import PyLinda.Lib.Except
import PyLinda.Minimal.Evaluate
import PyLinda.Minimal.ExprParser

/-!
# The value of arithmetic text

A chain of integer literals is parsed from right to left, without precedence. The operators
between them decide whether that is another value than the usual one.
-/

namespace PyLinda.Arithmetic

open Lib Evaluate
open ExprParser (chain nested Parses chain_parses)

inductive Op where
  | plus
  | minus
  | times
  | divide
  deriving DecidableEq

/-- What the lexer returns. -/
def Op.text : Op → String
  | plus => "+"
  | minus => "-"
  | times => "*"
  | divide => "/"

/-- The operators and literals behind the first literal. -/
abbrev Rest := List (Op × Nat)

/-- The tokens of a chain. -/
def tokens (i : Nat) (rest : Rest) : List Grammar.Token :=
  chain i (rest.map fun p => (p.1.text, (p.2 : Int)))

/-! ## The usual value -/

/-- What an `int` can hold. -/
def checked (i : Int) : Option Int := if -2 ^ 31 ≤ i ∧ i < 2 ^ 31 then some i else none

/-- The usual value of the rest of a chain: `term` is what the factors of the term under way
amount to, `close` what the terms before it and this one do. -/
def usualFrom (close : Int → Option Int) (term : Int) : Rest → Option Int
  | [] => close term
  | (.plus, j) :: rest => do
    let sum ← close term
    let j ← checked j
    usualFrom (fun term => checked (sum + term)) j rest
  | (.minus, j) :: rest => do
    let sum ← close term
    let j ← checked j
    usualFrom (fun term => checked (sum - term)) j rest
  | (.times, j) :: rest => do
    let j ← checked j
    let term ← checked (term * j)
    usualFrom close term rest
  | (.divide, j) :: rest => do
    let j ← checked j
    if j = 0 then none
    else usualFrom close (term.tdiv j) rest

/-- The usual value of a chain, unless something overflows or is divided by zero. -/
def usual (i : Nat) (rest : Rest) : Option Int := do
  let i ← checked i
  usualFrom checked i rest

/-- Parsed and evaluated deep enough, the chain gives this value. -/
def Means (p : Platform) (i : Nat) (rest : Rest) (v : Int) : Prop :=
  ∃ t, Parses (tokens i rest) t ∧
    ∃ least, ∀ depth, least ≤ depth → ∀ layer s,
      (evaluate p depth t layer s).1 = .ok (.integer v)

/-- The chain means its usual value, where it has one. -/
def Usual (p : Platform) (i : Nat) (rest : Rest) : Prop :=
  ∀ v, usual i rest = some v → Means p i rest v

/-- Read from the right, the second operator may stand behind the first. -/
def follows : Op → Op → Bool
  | .plus, _ => true
  | .minus, .times => true
  | .minus, .divide => true
  | .times, .times => true
  | _, _ => false

/-- Every operator may stand behind the one before it. -/
def Harmless : List Op → Prop
  | a :: b :: ops => follows a b = true ∧ Harmless (b :: ops)
  | _ => True

/-! ## Evaluation -/

/-- What `Minimal_evaluate` makes of two `int`s. -/
def apply : Op → Int → Int → Except Stop Int
  | .plus, i, j => .ok ((i + j).bmod (2 ^ 32))
  | .minus, i, j => .ok ((i - j).bmod (2 ^ 32))
  | .times, i, j => .ok ((i * j).bmod (2 ^ 32))
  | .divide, i, j => do
    let k ← divide i j
    .ok (k.bmod (2 ^ 32))

/-- The value of a chain that is read from the right. -/
def fromRight (i : Int) : Rest → Except Stop Int
  | [] => .ok (i.bmod (2 ^ 32))
  | (op, j) :: rest => do
    let w ← fromRight j rest
    apply op (i.bmod (2 ^ 32)) w

/-- The operators are evaluated like this. -/
theorem operate_apply (p : Platform) (op : Op) {i j k : Int}
    (h : apply op (i.bmod (2 ^ 32)) (j.bmod (2 ^ 32)) = .ok k) :
    operate p op.text (.integer i) (.integer j) = .ok (.integer k) := by
  cases op with
  | plus | minus | times =>
    cases h
    rfl
  | divide =>
    obtain ⟨q, hq, h⟩ := ok_of_bind h
    cases h
    show arithmetic p "/" divide (.integer i) (.integer j) = _
    unfold arithmetic
    show (divide (i.bmod (2 ^ 32)) (j.bmod (2 ^ 32)) >>= _) = _
    rw [hq]
    rfl

theorem fromRight_bmod {i w : Int} {rest : Rest} (h : fromRight i rest = .ok w) :
    w.bmod (2 ^ 32) = w := by
  cases rest with
  | nil =>
    cases h
    exact Int.bmod_bmod
  | cons op rest =>
    obtain ⟨u, _, h⟩ := ok_of_bind h
    obtain ⟨op, j⟩ := op
    cases op with
    | plus | minus | times =>
      cases h
      exact Int.bmod_bmod
    | divide =>
      obtain ⟨q, _, h⟩ := ok_of_bind h
      cases h
      exact Int.bmod_bmod

/-- The tree of a chain evaluates to what it is from the right. -/
theorem evaluate_nested (p : Platform) {rest : Rest} {i w : Int} (h : fromRight i rest = .ok w)
    {depth : Nat} (hd : rest.length < depth) (layer : Nat) (s : State) :
    ∃ s', evaluate p depth (nested i (rest.map fun p => (p.1.text, (p.2 : Int)))) layer s =
      (.ok (.integer w), s') := by
  induction rest generalizing i w depth s with
  | nil =>
    obtain ⟨depth, rfl⟩ : ∃ k, depth = k + 1 := ⟨depth - 1, by omega⟩
    cases h
    exact ⟨s, rfl⟩
  | cons op rest ih =>
    obtain ⟨op, j⟩ := op
    obtain ⟨u, hu, h⟩ := ok_of_bind h
    obtain ⟨depth, rfl⟩ : ∃ k, depth = k + 2 := ⟨depth - 2, by
      rw [List.length_cons] at hd
      omega⟩
    have hrest : rest.length < depth + 1 := by
      rw [List.length_cons] at hd
      omega
    obtain ⟨s', hs'⟩ := ih hu hrest s
    have hfirst : evaluate p (depth + 1) (.integer i) layer s =
        (.ok (.integer (i.bmod (2 ^ 32))), s) := rfl
    have hop : operate p op.text (.integer (i.bmod (2 ^ 32))) (.integer u) = .ok (.integer w) := by
      refine operate_apply p op ?_
      rw [Int.bmod_bmod, fromRight_bmod hu]
      exact h
    refine ⟨s'.note (.operator op.text (.integer (i.bmod (2 ^ 32))) (.integer u)), ?_⟩
    show (evaluate p (depth + 1) (.integer i) layer >>= fun v =>
      evaluate p (depth + 1) (nested j (rest.map fun p => (p.1.text, (p.2 : Int)))) layer >>=
        fun w => step (.operator op.text v w) (operate p op.text v w)) s = _
    rw [Eff.andThen_ok hfirst, Eff.andThen_ok hs', hop]
    rfl

theorem means_fromRight (p : Platform) {i : Nat} {rest : Rest} {w : Int}
    (h : fromRight i rest = .ok w) : Means p i rest w := by
  refine ⟨_, chain_parses i _, rest.length + 1, fun depth hd layer s => ?_⟩
  obtain ⟨s', hs'⟩ := evaluate_nested p h hd layer s
  rw [hs']

/-- A chain means nothing else. -/
theorem Means.eq_fromRight {p : Platform} {i : Nat} {rest : Rest} {v w : Int}
    (hv : Means p i rest v) (h : fromRight i rest = .ok w) : v = w := by
  obtain ⟨t, ht, least, hleast⟩ := hv
  obtain rfl := ht.unique (chain_parses i _)
  have hd : rest.length < max least (rest.length + 1) := Nat.le_max_right _ _
  let s : State := ⟨fun _ => ⟨none, NameMap.init⟩, 0, []⟩
  obtain ⟨s', hs'⟩ := evaluate_nested p h hd 0 s
  have hv := hleast (max least (rest.length + 1)) (Nat.le_max_left _ _) 0 s
  rw [hs'] at hv
  cases hv
  rfl

/-! ## Chains that mean what they should -/

section
variable (close : Int → Option Int) (term : Int) (i j : Nat) (rest : Rest)

theorem usualFrom_plus : usualFrom close term ((.plus, j) :: rest) =
    (close term).bind fun sum => (checked j).bind fun j =>
      usualFrom (fun term => checked (sum + term)) j rest := rfl

theorem usualFrom_minus : usualFrom close term ((.minus, j) :: rest) =
    (close term).bind fun sum => (checked j).bind fun j =>
      usualFrom (fun term => checked (sum - term)) j rest := rfl

theorem usualFrom_times : usualFrom close term ((.times, j) :: rest) =
    (checked j).bind fun j => (checked (term * j)).bind fun term =>
      usualFrom close term rest := rfl

theorem usualFrom_divide : usualFrom close term ((.divide, j) :: rest) =
    (checked j).bind fun j =>
      if j = 0 then none else usualFrom close (term.tdiv j) rest := rfl

theorem usual_eq : usual i rest = (checked i).bind fun i => usualFrom checked i rest := rfl

theorem fromRight_cons (i : Int) (op : Op) : fromRight i ((op, j) :: rest) =
    (fromRight j rest).bind fun w => apply op (i.bmod (2 ^ 32)) w := rfl

end

theorem checked_range {i v : Int} (h : checked i = some v) : -2 ^ 31 ≤ v ∧ v < 2 ^ 31 := by
  unfold checked at h
  split at h
  · cases h
    assumption
  · cases h

theorem checked_eq {i v : Int} (h : checked i = some v) : i = v := by
  unfold checked at h
  split at h
  · exact Option.some.inj h
  · cases h

theorem checked_small {i : Int} (hlo : -2 ^ 31 ≤ i) (hhi : i < 2 ^ 31) : checked i = some i :=
  if_pos ⟨hlo, hhi⟩

theorem bmod_small {i : Int} (hlo : -2 ^ 31 ≤ i) (hhi : i < 2 ^ 31) : i.bmod (2 ^ 32) = i :=
  Int.bmod_eq_of_le (by omega) (by omega)

/-- The product of the literals. -/
def product : Rest → Int
  | [] => 1
  | (_, j) :: rest => j * product rest

theorem usualFrom_product {close : Int → Option Int} {rest : Rest}
    (hrest : ∀ p ∈ rest, p.1 = .times) {term v : Int} (h : usualFrom close term rest = some v) :
    close (term * product rest) = some v := by
  induction rest generalizing term with
  | nil =>
    rw [product, Int.mul_one]
    exact h
  | cons op rest ih =>
    obtain ⟨op, j⟩ := op
    cases hrest (op, j) List.mem_cons_self
    rw [usualFrom_times] at h
    obtain ⟨j', hj, h⟩ := Option.bind_eq_some_iff.1 h
    obtain ⟨term', hterm, h⟩ := Option.bind_eq_some_iff.1 h
    obtain rfl := checked_eq hj
    obtain rfl := checked_eq hterm
    rw [product, ← Int.mul_assoc]
    exact ih (fun p hp => hrest p (List.mem_cons_of_mem _ hp)) h

theorem fromRight_product {rest : Rest} (hrest : ∀ p ∈ rest, p.1 = .times) (i : Int) :
    fromRight i rest = .ok ((i * product rest).bmod (2 ^ 32)) := by
  induction rest generalizing i with
  | nil =>
    rw [product, Int.mul_one]
    rfl
  | cons op rest ih =>
    obtain ⟨op, j⟩ := op
    cases hrest (op, j) List.mem_cons_self
    unfold fromRight
    rw [ih (fun p hp => hrest p (List.mem_cons_of_mem _ hp))]
    show Except.ok ((i.bmod (2 ^ 32) * ((j * product rest).bmod (2 ^ 32))).bmod (2 ^ 32)) = _
    rw [Int.bmod_mul_bmod, Int.mul_bmod_bmod, product]

theorem Harmless.tail {a : Op} {ops : List Op} (h : Harmless (a :: ops)) : Harmless ops := by
  cases ops with
  | nil => trivial
  | cons b ops => exact h.2

/-- A term may stand behind a minus. -/
theorem Harmless.term {a : Op} (ha : follows .minus a = true) {ops : List Op}
    (h : Harmless (a :: ops)) : Harmless (.minus :: a :: ops) :=
  ⟨ha, h⟩

theorem Harmless.times {ops : List Op} (h : Harmless (.times :: ops)) :
    ∀ op ∈ ops, op = .times := by
  induction ops with
  | nil => exact fun op hop => absurd hop (List.not_mem_nil)
  | cons b ops ih =>
    cases b with
    | times => exact List.forall_mem_cons.2 ⟨rfl, ih h.2⟩
    | plus | minus | divide => cases h.1

/-- A term in front of the end of the chain. -/
theorem term_fromRight {close : Int → Option Int} {i : Nat} {rest : Rest}
    (hok : Harmless (.minus :: rest.map Prod.fst)) (hi : checked i = some (i : Int)) {v : Int}
    (h : usualFrom close i rest = some v) :
    ∃ x, close x = some v ∧ fromRight i rest = .ok (x.bmod (2 ^ 32)) := by
  have htimes : (∀ p ∈ rest, p.1 = .times) →
      ∃ x, close x = some v ∧ fromRight i rest = .ok (x.bmod (2 ^ 32)) :=
    fun hall => ⟨i * product rest, usualFrom_product hall h, fromRight_product hall i⟩
  cases rest with
  | nil => exact htimes fun p hp => absurd hp (List.not_mem_nil)
  | cons op rest =>
    obtain ⟨op, j⟩ := op
    cases op with
    | times =>
      refine htimes fun p hp => ?_
      rcases List.mem_cons.1 hp with rfl | hp
      · rfl
      · exact hok.tail.times p.1 (List.mem_map_of_mem hp)
    | plus | minus => cases hok.1
    | divide =>
      cases rest with
      | cons q rest =>
        have hf := hok.2.1
        obtain ⟨b, k⟩ := q
        cases b <;> cases hf
      | nil =>
        rw [usualFrom_divide] at h
        obtain ⟨j', hj, h⟩ := Option.bind_eq_some_iff.1 h
        obtain ⟨hlo, hhi⟩ := checked_range hj
        obtain rfl := checked_eq hj
        obtain ⟨_, hi⟩ := checked_range hi
        by_cases hzero : (j : Int) = 0
        · rw [if_pos hzero] at h
          cases h
        · rw [if_neg hzero] at h
          have hdivide : divide i j = .ok ((i : Int).tdiv j) := by
            unfold divide
            rw [if_neg hzero, if_neg (by omega)]
          have hbi : (i : Int).bmod (2 ^ 32) = i := bmod_small (by omega) hi
          have hright : fromRight j [] = .ok (j : Int) := congrArg Except.ok (bmod_small hlo hhi)
          refine ⟨(i : Int).tdiv j, h, ?_⟩
          rw [fromRight_cons, hbi, hright]
          exact bind_ok hdivide _

/-- The sum so far and the rest of the chain. -/
theorem sum_fromRight {rest : Rest} (hok : Harmless (rest.map Prod.fst)) {a v : Int} {i : Nat}
    (hi : checked i = some (i : Int))
    (h : usualFrom (fun term => checked (a + term)) i rest = some v) :
    ∃ w, fromRight i rest = .ok w ∧ v = (a + w).bmod (2 ^ 32) := by
  induction rest generalizing a i with
  | nil =>
    obtain ⟨hlo, hhi⟩ := checked_range h
    obtain rfl := checked_eq h
    refine ⟨_, rfl, ?_⟩
    rw [Int.add_bmod_bmod, bmod_small hlo hhi]
  | cons op rest ih =>
    obtain ⟨op, j⟩ := op
    cases op with
    | plus =>
      rw [usualFrom_plus] at h
      obtain ⟨sum, hsum, h⟩ := Option.bind_eq_some_iff.1 h
      obtain ⟨j', hj, h⟩ := Option.bind_eq_some_iff.1 h
      obtain rfl := checked_eq hsum
      obtain rfl := checked_eq hj
      obtain ⟨w, hw, rfl⟩ := ih hok.tail hj h
      refine ⟨((i : Int).bmod (2 ^ 32) + w).bmod (2 ^ 32), ?_, ?_⟩
      · unfold fromRight
        rw [hw]
        rfl
      · rw [Int.add_bmod_bmod, Int.add_left_comm, Int.bmod_add_bmod, ← Int.add_assoc,
          Int.add_comm (i : Int) a]
    | minus =>
      rw [usualFrom_minus] at h
      obtain ⟨sum, hsum, h⟩ := Option.bind_eq_some_iff.1 h
      obtain ⟨j', hj, h⟩ := Option.bind_eq_some_iff.1 h
      obtain rfl := checked_eq hsum
      obtain rfl := checked_eq hj
      obtain ⟨x, hx, hright⟩ := term_fromRight hok hj h
      obtain ⟨hlo, hhi⟩ := checked_range hx
      obtain rfl := checked_eq hx
      refine ⟨((i : Int).bmod (2 ^ 32) - x.bmod (2 ^ 32)).bmod (2 ^ 32), ?_, ?_⟩
      · unfold fromRight
        rw [hright]
        rfl
      · rw [Int.bmod_sub_bmod, Int.sub_bmod_bmod, Int.add_bmod_bmod, ← Int.add_sub_assoc,
          bmod_small hlo hhi]
    | times | divide =>
      have hterm := Harmless.term rfl hok
      rw [← List.map_cons] at hterm
      obtain ⟨x, hx, hright⟩ := term_fromRight hterm hi h
      obtain ⟨hlo, hhi⟩ := checked_range hx
      obtain rfl := checked_eq hx
      refine ⟨_, hright, ?_⟩
      rw [Int.add_bmod_bmod, bmod_small hlo hhi]

theorem usual_harmless (p : Platform) {i : Nat} {rest : Rest} (hok : Harmless (rest.map Prod.fst)) :
    Usual p i rest := by
  intro v h
  rw [usual_eq] at h
  obtain ⟨i', hi, h⟩ := Option.bind_eq_some_iff.1 h
  obtain rfl := checked_eq hi
  have hsum : checked = fun term => checked (0 + term) := by
    funext term
    rw [Int.zero_add]
  rw [hsum] at h
  obtain ⟨w, hw, rfl⟩ := sum_fromRight hok hi h
  rw [Int.zero_add, fromRight_bmod hw]
  exact means_fromRight p hw

/-! ## Chains that do not -/

/-- A literal behind the operator that changes nothing. -/
def Op.idle : Op → Nat
  | plus | minus => 0
  | times | divide => 1

def idling (ops : List Op) : Rest := ops.map fun op => (op, op.idle)

theorem idling_fst (ops : List Op) : (idling ops).map Prod.fst = ops := by
  unfold idling
  rw [List.map_map]
  exact List.map_id ops

theorem fromRight_idling (ops : List Op) (i : Int) :
    fromRight i (idling ops) = .ok (i.bmod (2 ^ 32)) := by
  induction ops generalizing i with
  | nil => rfl
  | cons op ops ih =>
    have hidle : ((op.idle : Nat) : Int).bmod (2 ^ 32) = op.idle := by
      cases op <;> decide
    show (fromRight op.idle (idling ops) >>= fun w => apply op (i.bmod (2 ^ 32)) w) = _
    rw [ih, hidle]
    cases op with
    | plus =>
      show Except.ok ((i.bmod (2 ^ 32) + 0).bmod (2 ^ 32)) = _
      rw [Int.add_zero, Int.bmod_bmod]
    | minus =>
      show Except.ok ((i.bmod (2 ^ 32) - 0).bmod (2 ^ 32)) = _
      rw [Int.sub_zero, Int.bmod_bmod]
    | times =>
      show Except.ok ((i.bmod (2 ^ 32) * 1).bmod (2 ^ 32)) = _
      rw [Int.mul_one, Int.bmod_bmod]
    | divide =>
      show (divide (i.bmod (2 ^ 32)) 1 >>= _) = _
      have hone : ¬ (i.bmod (2 ^ 32) = -2 ^ 31 ∧ (1 : Int) = -1) := fun h => by cases h.2
      unfold divide
      rw [if_neg (by decide), if_neg hone, Int.tdiv_one]
      show Except.ok ((i.bmod (2 ^ 32)).bmod (2 ^ 32)) = _
      rw [Int.bmod_bmod]

theorem usualFrom_idling (ops : List Op) {close : Int → Option Int} {term v : Int}
    (hterm : checked term = some term) (hv : checked v = some v) (h : close term = some v) :
    usualFrom close term (idling ops) = some v := by
  have hzero : checked 0 = some 0 := rfl
  induction ops generalizing close term with
  | nil => exact h
  | cons op ops ih =>
    have hrest : usualFrom (fun term => checked (v + term)) 0 (idling ops) = some v := by
      refine ih hzero ?_
      rw [Int.add_zero, hv]
    cases op with
    | plus =>
      show (close term >>= fun sum =>
        usualFrom (fun term => checked (sum + term)) 0 (idling ops)) = _
      rw [h]
      exact hrest
    | minus =>
      show (close term >>= fun sum =>
        usualFrom (fun term => checked (sum - term)) 0 (idling ops)) = _
      rw [h]
      refine ih hzero ?_
      rw [Int.sub_zero, hv]
    | times =>
      show (checked (term * 1) >>= fun term => usualFrom close term (idling ops)) = _
      rw [Int.mul_one, hterm]
      exact ih hterm h
    | divide =>
      show usualFrom close (term.tdiv 1) (idling ops) = _
      rw [Int.tdiv_one]
      exact ih hterm h

/-- In this chain the usual value and the value from the right differ, whatever the sign of its
first term: that term is `term`, the others make `extra`. -/
structure Differs (i : Nat) (rest : Rest) (term extra right : Int) : Prop where
  usual : ∀ close s, close term = some s → -4 ≤ s → s ≤ 4 →
    usualFrom close i rest = some (s + extra)
  fromRight : fromRight i rest = .ok right
  first : checked i = some (i : Int)
  small : -4 ≤ term ∧ term ≤ 4 ∧ -4 ≤ right ∧ right ≤ 4
  plus : term + extra ≠ right
  minus : extra - term ≠ -right

/-- There is such a chain with these operators. -/
def HasDiffering (ops : List Op) : Prop :=
  ∃ i rest term extra right, rest.map Prod.fst = ops ∧ Differs i rest term extra right

/-- What the second operator does to the term and the sum. -/
def second : Op → (Int → Option Int) → Int → Int → Option Int
  | .plus, close, term, k => (close term).bind fun sum => checked (sum + k)
  | .minus, close, term, k => (close term).bind fun sum => checked (sum - k)
  | .times, close, term, k => close (term * k)
  | .divide, close, term, k => if k = 0 then none else close (term.tdiv k)

theorem usualFrom_second {b : Op} (ops : List Op) {close : Int → Option Int} {term v : Int}
    {k : Nat} (hk : checked k = some (k : Int)) (hmul : checked (term * k) = some (term * k))
    (hdiv : checked (term.tdiv k) = some (term.tdiv k)) (hv : checked v = some v)
    (h : second b close term k = some v) :
    usualFrom close term ((b, k) :: idling ops) = some v := by
  cases b with
  | plus =>
    obtain ⟨sum, hsum, h⟩ := Option.bind_eq_some_iff.1 h
    rw [usualFrom_plus, hsum, hk]
    exact usualFrom_idling ops hk hv h
  | minus =>
    obtain ⟨sum, hsum, h⟩ := Option.bind_eq_some_iff.1 h
    rw [usualFrom_minus, hsum, hk]
    exact usualFrom_idling ops hk hv h
  | times =>
    rw [usualFrom_times, hk, Option.bind_some, hmul]
    exact usualFrom_idling ops hmul hv h
  | divide =>
    rw [usualFrom_divide, hk, Option.bind_some]
    by_cases hzero : (k : Int) = 0
    · have hnone : second .divide close term k = none := if_pos hzero
      rw [hnone] at h
      cases h
    · have hsome : second .divide close term k = close (term.tdiv k) := if_neg hzero
      rw [if_neg hzero]
      exact usualFrom_idling ops hdiv hv (hsome.symm.trans h)

theorem fromRight_second (a b : Op) (ops : List Op) (i j k : Nat) :
    fromRight i ((a, j) :: (b, k) :: idling ops) =
      (apply b ((j : Int).bmod (2 ^ 32)) ((k : Int).bmod (2 ^ 32))).bind fun w =>
        apply a ((i : Int).bmod (2 ^ 32)) w := by
  rw [fromRight_cons, fromRight_cons, fromRight_idling]
  rfl

theorem small_checked {i : Int} (hlo : -8 ≤ i) (hhi : i ≤ 8) : checked i = some i :=
  checked_small (by omega) (by omega)

/-- Three literals that show it, the rest of the chain is idle: the first operator makes a term
`t` of two of them. -/
theorem differs_of {a b : Op} (ops : List Op) (i j k : Nat) {t term extra right : Int}
    (hfirst : ∀ close rest, usualFrom close i ((a, j) :: rest) = usualFrom close t rest)
    (hk : checked k = some (k : Int)) (hmul : checked (t * k) = some (t * k))
    (hdiv : checked (t.tdiv k) = some (t.tdiv k)) (he : -4 ≤ extra ∧ extra ≤ 4)
    (hsecond : ∀ close s, close term = some s → -4 ≤ s → s ≤ 4 →
      second b close t k = some (s + extra))
    (hright : ((apply b ((j : Int).bmod (2 ^ 32)) ((k : Int).bmod (2 ^ 32))).bind fun w =>
      apply a ((i : Int).bmod (2 ^ 32)) w) = .ok right)
    (hi : checked i = some (i : Int)) (hsmall : -4 ≤ term ∧ term ≤ 4 ∧ -4 ≤ right ∧ right ≤ 4)
    (hplus : term + extra ≠ right) (hminus : extra - term ≠ -right) :
    HasDiffering (a :: b :: ops) := by
  refine ⟨i, (a, j) :: (b, k) :: idling ops, term, extra, right,
    congrArg (a :: b :: ·) (idling_fst ops), fun close s hs hlo hhi => ?_, ?_, hi, hsmall, hplus,
    hminus⟩
  · rw [hfirst]
    exact usualFrom_second ops hk hmul hdiv (small_checked (by omega) (by omega))
      (hsecond close s hs hlo hhi)
  · rw [fromRight_second]
    exact hright

theorem second_plus {close : Int → Option Int} {t s : Int} {k : Nat} (h : close t = some s)
    (hlo : -4 ≤ s) (hhi : s ≤ 4) (hk : k ≤ 4) : second .plus close t k = some (s + k) := by
  show (close t).bind _ = _
  rw [h]
  exact small_checked (by omega) (by omega)

theorem second_minus {close : Int → Option Int} {t s : Int} {k : Nat} (h : close t = some s)
    (hlo : -4 ≤ s) (hhi : s ≤ 4) (hk : k ≤ 4) : second .minus close t k = some (s + -k) := by
  show (close t).bind _ = _
  rw [h]
  exact small_checked (by omega) (by omega)

/-- Behind a `*`, every other operator is read wrongly: `0 * 0 + 1`, `0 * 0 - 1`, `2 * 1 / 2`. -/
theorem differs_times {b : Op} (hb : follows .times b = false) (ops : List Op) :
    HasDiffering (.times :: b :: ops) := by
  cases b with
  | plus =>
    exact @differs_of .times .plus ops 0 0 1 0 0 1 0 (fun _ _ => rfl) rfl rfl rfl (by omega)
      (fun _ _ h hlo hhi => second_plus h hlo hhi (by omega)) rfl rfl (by omega) (by omega)
      (by omega)
  | minus =>
    exact @differs_of .times .minus ops 0 0 1 0 0 (-1) 0 (fun _ _ => rfl) rfl rfl rfl (by omega)
      (fun _ _ h hlo hhi => second_minus h hlo hhi (by omega)) rfl rfl (by omega) (by omega)
      (by omega)
  | times => cases hb
  | divide =>
    exact @differs_of .times .divide ops 2 1 2 2 1 0 0 (fun _ _ => rfl) rfl rfl rfl (by omega)
      (fun _ s h _ _ => by rw [Int.add_zero]; exact h) rfl rfl (by omega) (by omega) (by omega)

/-- Behind a `/`, every operator is: `0 / 1 + 1`, `0 / 1 - 2`, `2 / 2 * 2`, `2 / 2 / 2`. -/
theorem differs_divide (b : Op) (ops : List Op) : HasDiffering (.divide :: b :: ops) := by
  cases b with
  | plus =>
    exact @differs_of .divide .plus ops 0 1 1 0 0 1 0 (fun _ _ => rfl) rfl rfl rfl (by omega)
      (fun _ _ h hlo hhi => second_plus h hlo hhi (by omega)) rfl rfl (by omega) (by omega)
      (by omega)
  | minus =>
    exact @differs_of .divide .minus ops 0 1 2 0 0 (-2) 0 (fun _ _ => rfl) rfl rfl rfl (by omega)
      (fun _ _ h hlo hhi => second_minus h hlo hhi (by omega)) rfl rfl (by omega) (by omega)
      (by omega)
  | times =>
    exact @differs_of .divide .times ops 2 2 2 1 2 0 0 (fun _ _ => rfl) rfl rfl rfl (by omega)
      (fun _ s h _ _ => by rw [Int.add_zero]; exact h) rfl rfl (by omega) (by omega) (by omega)
  | divide =>
    exact @differs_of .divide .divide ops 2 2 2 1 0 0 2 (fun _ _ => rfl) rfl rfl rfl (by omega)
      (fun _ s h _ _ => by rw [Int.add_zero]; exact h) rfl rfl (by omega) (by omega) (by omega)

/-- Every harmful chain that begins with a term has such literals: the factors in front are 1. -/
theorem term_differs {a : Op} (ha : a = .times ∨ a = .divide) {ops : List Op}
    (hops : ¬ Harmless (a :: ops)) : HasDiffering (a :: ops) := by
  induction ops generalizing a with
  | nil => exact absurd trivial hops
  | cons b ops ih =>
    rcases ha with rfl | rfl
    · cases hb : follows .times b with
      | false => exact differs_times hb ops
      | true =>
        cases b with
        | plus | minus | divide => cases hb
        | times =>
          obtain ⟨i, rest, term, extra, right, hrest, hd⟩ :=
            ih (.inl rfl) fun h => hops ⟨rfl, h⟩
          refine ⟨1, (.times, i) :: rest, term, extra, right, congrArg (Op.times :: ·) hrest,
            fun close s hs hlo hhi => ?_, ?_, rfl, hd.small, hd.plus, hd.minus⟩
          · rw [usualFrom_times, hd.first]
            have hone : ((1 : Nat) : Int) * i = i := Int.one_mul _
            rw [Option.bind_some, hone, hd.first]
            exact hd.usual close s hs hlo hhi
          · have hone : ((1 : Nat) : Int).bmod (2 ^ 32) = 1 := by decide
            rw [fromRight_cons, hd.fromRight, hone]
            obtain ⟨_, _, hlo, hhi⟩ := hd.small
            have hright : (1 * right).bmod (2 ^ 32) = right := by
              rw [Int.one_mul]
              exact bmod_small (by omega) (by omega)
            exact congrArg Except.ok hright
    · exact differs_divide b ops

theorem zero_checked : checked ((0 : Nat) : Int) = some ((0 : Nat) : Int) := rfl

theorem zero_bmod : ((0 : Nat) : Int).bmod (2 ^ 32) = 0 := by decide

/-- A chain with these operators has a usual value, and another one from the right. -/
def Ambiguous (ops : List Op) : Prop :=
  ∃ i rest v w, rest.map Prod.fst = ops ∧ usual i rest = some v ∧ fromRight i rest = .ok w ∧ v ≠ w

theorem Ambiguous.of_term {a : Op} (ha : a = .times ∨ a = .divide) {ops : List Op}
    (hops : ¬ Harmless (a :: ops)) : Ambiguous (a :: ops) := by
  obtain ⟨i, rest, term, extra, right, hrest, hd⟩ := term_differs ha hops
  obtain ⟨hlo, hhi, _⟩ := hd.small
  refine ⟨i, rest, term + extra, right, hrest, ?_, hd.fromRight, hd.plus⟩
  rw [usual_eq, hd.first]
  exact hd.usual checked term (small_checked (by omega) (by omega)) hlo hhi

/-- `0 +` in front changes neither value. -/
theorem Ambiguous.plus {ops : List Op} (h : Ambiguous ops) : Ambiguous (.plus :: ops) := by
  obtain ⟨i, rest, v, w, hrest, hv, hw, hne⟩ := h
  refine ⟨0, (.plus, i) :: rest, v, w, congrArg (Op.plus :: ·) hrest, ?_, ?_, hne⟩
  · rw [usual_eq] at hv
    have hzero : (fun term => checked (((0 : Nat) : Int) + term)) = checked := by
      funext term
      exact congrArg checked (Int.zero_add term)
    rw [usual_eq, zero_checked, Option.bind_some, usualFrom_plus, zero_checked,
      Option.bind_some, hzero]
    exact hv
  · rw [fromRight_cons, hw, zero_bmod]
    have hright : (0 + w).bmod (2 ^ 32) = w := by
      rw [Int.zero_add]
      exact fromRight_bmod hw
    exact congrArg Except.ok hright

/-- `0 -` in front of a term that goes on differs as the term does. -/
theorem Ambiguous.minus_term {b : Op} (hb : b = .times ∨ b = .divide) {ops : List Op}
    (hops : ¬ Harmless (b :: ops)) : Ambiguous (.minus :: b :: ops) := by
  obtain ⟨i, rest, term, extra, right, hrest, hd⟩ := term_differs hb hops
  obtain ⟨hlo, hhi, hrlo, hrhi⟩ := hd.small
  refine ⟨0, (.minus, i) :: rest, -term + extra, -right, congrArg (Op.minus :: ·) hrest,
    ?_, ?_, fun h => hd.minus (by omega)⟩
  · have hterm : checked (0 - term) = some (-term) := by
      rw [Int.zero_sub]
      exact small_checked (by omega) (by omega)
    rw [usual_eq, zero_checked, Option.bind_some, usualFrom_minus, zero_checked,
      Option.bind_some, hd.first]
    exact hd.usual _ (-term) hterm (by omega) (by omega)
  · rw [fromRight_cons, hd.fromRight, zero_bmod]
    have hright : (0 - right).bmod (2 ^ 32) = -right := by
      rw [Int.zero_sub]
      exact bmod_small (by omega) (by omega)
    exact congrArg Except.ok hright

/-- `0 - 0 + 1`. -/
theorem ambiguous_minus_plus (ops : List Op) : Ambiguous (.minus :: .plus :: ops) := by
  refine ⟨0, (.minus, 0) :: (.plus, 1) :: idling ops, 1, -1,
    congrArg (Op.minus :: Op.plus :: ·) (idling_fst ops), ?_, ?_, by omega⟩
  · exact @usualFrom_second .plus ops (fun term => checked (0 - term)) 0 1 1 rfl rfl rfl rfl rfl
  · rw [fromRight_second]
    rfl

/-- `0 - 0 - 1`. -/
theorem ambiguous_minus_minus (ops : List Op) : Ambiguous (.minus :: .minus :: ops) := by
  refine ⟨0, (.minus, 0) :: (.minus, 1) :: idling ops, -1, 1,
    congrArg (Op.minus :: Op.minus :: ·) (idling_fst ops), ?_, ?_, by omega⟩
  · exact @usualFrom_second .minus ops (fun term => checked (0 - term)) 0 (-1) 1 rfl rfl rfl rfl
      rfl
  · rw [fromRight_second]
    rfl

/-- Every harmful sequence of operators is ambiguous. -/
theorem harmful_differs {ops : List Op} (hops : ¬ Harmless ops) : Ambiguous ops := by
  induction ops with
  | nil => exact absurd trivial hops
  | cons a ops ih =>
    cases ops with
    | nil => exact absurd trivial hops
    | cons b ops =>
      cases a with
      | times => exact .of_term (.inl rfl) hops
      | divide => exact .of_term (.inr rfl) hops
      | plus => exact .plus (ih fun h => hops ⟨rfl, h⟩)
      | minus =>
        cases b with
        | times => exact .minus_term (.inl rfl) fun h => hops ⟨rfl, h⟩
        | divide => exact .minus_term (.inr rfl) fun h => hops ⟨rfl, h⟩
        | plus => exact ambiguous_minus_plus ops
        | minus => exact ambiguous_minus_minus ops

/-- All chains with these operators mean their usual value exactly if every operator may stand
behind the one before it. -/
theorem usual_iff (p : Platform) (ops : List Op) :
    (∀ i rest, rest.map Prod.fst = ops → Usual p i rest) ↔ Harmless ops := by
  constructor
  · intro h
    apply Classical.byContradiction
    intro hops
    obtain ⟨i, rest, v, w, hrest, hv, hw, hne⟩ := harmful_differs hops
    exact hne ((h i rest hrest v hv).eq_fromRight hw)
  · intro hops i rest hrest
    refine usual_harmless p ?_
    rw [hrest]
    exact hops

/-- `8 - 3 - 2`. -/
theorem eight_minus : ¬ ∀ p i rest, Usual p i rest := by
  intro h
  have hv : usual 8 [(.minus, 3), (.minus, 2)] = some 3 := rfl
  have hw : fromRight 8 [(.minus, 3), (.minus, 2)] = .ok 7 := rfl
  let p : Platform := ⟨fun _ _ => 0, fun _ _ _ => 0, fun _ _ => false, fun _ _ => false,
    fun _ t => t, fun _ => 0, fun _ _ => .null⟩
  cases (h p 8 _ 3 hv).eq_fromRight hw

end PyLinda.Arithmetic
