import PyLinda.Types.LindaType

/-!
# Flattening products and sums

`flattenProductType` and `flattenSumType` of `match.py`. The first argument of a function
that calls itself is how deep the calls may go.
-/

namespace PyLinda.Types

/-- The keys of `memo`. -/
abbrev TypeMemo := List String

/-- `if p.type_id: memo[p.type_id] = True`. -/
def TypeMemo.mark (memo : TypeMemo) (p : LindaType) : TypeMemo := p.typeId.toList ++ memo

/-- `t.id_type_id not in memo`. -/
def TypeMemo.misses (memo : TypeMemo) (t : LindaType) : Bool := t.idTypeId.all fun i => i ∉ memo

section
variable (c : TypeCache)

section
variable (flatten : LindaType → TypeMemo → Except TypeExc (List LindaType × TypeMemo))

/-- The last branch appends `t`, not `e`: what an earlier round of the loop looked up. -/
def flattenStale (memo : TypeMemo) :
    Option LindaType → Except TypeExc (List LindaType × TypeMemo × Option LindaType)
  | none => .error .unboundLocalError
  | some t => .ok ([t], memo, some t)

/-- One round of the loop of `flattenProductType`. -/
def flattenProductItem (e : LindaType) (memo : TypeMemo) (t : Option LindaType) :
    Except TypeExc (List LindaType × TypeMemo × Option LindaType) :=
  match e.typeSpec with
  | .product _ => do
    let (l, memo) ← flatten e memo
    .ok (l, memo, t)
  | .id n i =>
    if n ∉ builtin then do
      let t ← c.lookupType i
      if memo.misses t && t.isProductType then do
        let (l, memo) ← flatten t memo
        .ok (l, memo, some t)
      else .ok ([t], memo, some t)
    else flattenStale memo t
  | _ => flattenStale memo t

def flattenProductLoop :
    List LindaType → TypeMemo → Option LindaType → Except TypeExc (List LindaType × TypeMemo)
  | [], memo, _ => .ok ([], memo)
  | e :: es, memo, t => do
    let (l, memo, t) ← flattenProductItem c flatten e memo t
    let (l', memo) ← flattenProductLoop es memo t
    .ok (l ++ l', memo)

end

/-- `flattenProductType` with a memo. -/
def flattenProductMemo :
    (depth : Nat) → LindaType → TypeMemo → Except TypeExc (List LindaType × TypeMemo)
  | 0, _, _ => .error .recursionLimit
  | depth + 1, p, memo =>
    flattenProductLoop c (flattenProductMemo depth) p.items (memo.mark p) none

/-- `flattenProductType`. -/
def flattenProductType (depth : Nat) (p : LindaType) : Except TypeExc (List LindaType) :=
  (flattenProductMemo c depth p []).map Prod.fst

/-- A part of a sum, with the positions that lead to it. -/
abbrev SumPart := LindaType × List Nat

section
variable (flatten : LindaType → TypeMemo → List Nat → Except TypeExc (List SumPart × TypeMemo))

/-- One round of the loop of `flattenSumType`. -/
def flattenSumItem (e : LindaType) (i : Nat) (memo : TypeMemo) (history : List Nat) :
    Except TypeExc (List SumPart × TypeMemo) :=
  match e.typeSpec with
  | .sum _ => flatten e memo (history ++ [i])
  | .id n typeId =>
    if n ∉ builtin then do
      let t ← c.lookupType typeId
      if memo.misses t && t.isSumType then
        flatten t memo [] -- the history is not passed on
      else .ok ([(t, history ++ [i])], memo)
    else .ok ([(e, history ++ [i])], memo)
  | _ => .ok ([(e, history ++ [i])], memo)

def flattenSumLoop (history : List Nat) :
    List LindaType → Nat → TypeMemo → Except TypeExc (List SumPart × TypeMemo)
  | [], _, memo => .ok ([], memo)
  | e :: es, i, memo => do
    let (l, memo) ← flattenSumItem c flatten e i memo history
    let (l', memo) ← flattenSumLoop history es (i + 1) memo
    .ok (l ++ l', memo)

end

/-- `flattenSumType` with a memo and a history. -/
def flattenSumMemo : (depth : Nat) → LindaType → TypeMemo → List Nat →
    Except TypeExc (List SumPart × TypeMemo)
  | 0, _, _, _ => .error .recursionLimit
  | depth + 1, p, memo, history =>
    flattenSumLoop c (flattenSumMemo depth) history p.items 0 (memo.mark p)

/-- `flattenSumType`. -/
def flattenSumType (depth : Nat) (p : LindaType) : Except TypeExc (List SumPart) :=
  (flattenSumMemo c depth p [] []).map Prod.fst

end

end PyLinda.Types
