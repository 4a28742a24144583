import PyLinda.Types.Flatten

/-!
# Comparing types

`compare_types` of `match.py`. It writes a program for every pair of types it looks at; the
programs are lists that the pairs share, so a pair's program is known by a number.
-/

namespace PyLinda.Types

/-- What the programs are made of. -/
inductive Instr where
  | setTypeId (id : Option String)
  | eval (code : Nat)
  | explode (type : LindaType)
  | rotate
  | construct (type : LindaType)
  | sumCase (funcs : List Nat)
  | createSum (pos : Nat)
  | ptrConv (code : Nat)

/-- A converter: it runs the program of the pair, or wraps a function. The one that comes out
of the table cannot be called. -/
inductive Converter where
  | code (code : Nat)
  | table
  | wrap (arg : LindaType) (argCode : Nat) (result : LindaType) (resultCode : Nat)

/-- How a question was answered: from the table, where the two types stand for those that
were asked, or by looking at the types. -/
inductive How where
  | table (t1 t2 : LindaType)
  | accepted
  | refused

/-- `compare_types(t1, t2, checked)` was called, and how it ended. -/
structure Asked where
  t1 : LindaType
  t2 : LindaType
  how : How

/-- An entry of `checked`: a pair and where its program is. -/
structure Entry where
  t1 : LindaType
  t2 : LindaType
  code : Nat

/-- `checked`, the programs in it, and what was asked so far; the code keeps no record of that. -/
structure Checked where
  entries : List Entry
  codes : List (List Instr)
  log : List Asked

namespace Checked

def init : Checked := ⟨[], [], []⟩

/-- `checked[(t1, t2)]`. -/
def find (s : Checked) (t1 t2 : LindaType) : Option Entry :=
  s.entries.find? fun e => e.t1.same t1 && e.t2.same t2

/-- The program of a pair. -/
def codeOf (s : Checked) (t1 t2 : LindaType) : Except TypeExc Nat :=
  match s.find t1 t2 with
  | none => .error .keyError
  | some e => .ok e.code

/-- `checked[(t1, t2)] = []`. -/
def enter (s : Checked) (t1 t2 : LindaType) : Checked :=
  { s with entries := s.entries ++ [⟨t1, t2, s.codes.length⟩], codes := s.codes ++ [[]] }

/-- `code.append(…)`, several times. -/
def append (s : Checked) (code : Nat) (is : List Instr) : Checked :=
  { s with codes := s.codes.modify code fun l => l ++ is }

def note (s : Checked) (t1 t2 : LindaType) (how : How) : Checked :=
  { s with log := s.log ++ [⟨t1, t2, how⟩] }

end Checked

/-- `all_perms`. -/
def allPerms {α : Type} : List α → List (List α)
  | [] => [[]]
  | [x] => [[x]]
  | x :: y :: ys => (allPerms (y :: ys)).flatMap fun perm =>
    (List.range (perm.length + 1)).map fun i => perm.take i ++ x :: perm.drop i

section
variable (c : TypeCache)

section
variable (ask : LindaType → LindaType → Checked → Except TypeExc (Option Converter × Checked))

/-- A pair that stands for the pair of `code`, if there is a converter for it. -/
def unfolded (code : Nat) (t1 t2 : LindaType) (s : Checked) : Except TypeExc (Bool × Checked) := do
  let (func, s) ← ask t1 t2 s
  match func with
  | none => .ok (false, s)
  | some _ => do
    let inner ← s.codeOf t1 t2
    .ok (true, s.append code [.eval inner])

/-- The name on the left is looked up. -/
def compareLeft (code : Nat) (t2 : LindaType) (id1 : String) (i1 : Option String)
    (s : Checked) : Except TypeExc (Bool × Checked) :=
  if id1 ∉ builtin then do
    let nt ← c.lookupType i1
    unfolded ask code nt t2 s
  else .ok (false, s)

/-- The name on the right is looked up. -/
def compareRight (code : Nat) (t1 : LindaType) (id2 : String) (i2 : Option String)
    (s : Checked) : Except TypeExc (Bool × Checked) :=
  if id2 ∉ builtin then do
    let nt ← c.lookupType i2
    unfolded ask code t1 nt s
  else .ok (false, s)

/-- Both names are looked up. -/
def compareBoth (code : Nat) (id1 id2 : String) (i1 i2 : Option String)
    (s : Checked) : Except TypeExc (Bool × Checked) :=
  if id1 ∉ builtin ∧ id2 ∉ builtin then do
    let nt1 ← c.lookupType i1
    let nt2 ← c.lookupType i2
    unfolded ask code nt1 nt2 s
  else .ok (false, s)

/-- Two names, not both built in. -/
def compareNames (code : Nat) (t1 t2 : LindaType) (id1 id2 : String) (i1 i2 : Option String)
    (s : Checked) : Except TypeExc (Bool × Checked) := do
  let (func, s) ← compareLeft c ask code t2 id1 i1 s
  if func then .ok (true, s) else do
    let (func, s) ← compareRight c ask code t1 id2 i2 s
    if func then .ok (true, s) else compareBoth c ask code id1 id2 i1 i2 s

/-- The parts of two products one by one; the programs of the parts. -/
def compareParts : List LindaType → List LindaType → Checked →
    Except TypeExc (Option (List Nat) × Checked)
  | e1 :: es1, e2 :: es2, s => do
    let (f, s) ← ask e1 e2 s
    match f with
    | none => .ok (none, s)
    | some _ => do
      let code ← s.codeOf e1 e2
      let (funcs, s) ← compareParts es1 es2 s
      .ok (funcs.map (code :: ·), s)
  | _, _, s => .ok (some [], s)

/-- The loop over one permutation, up to the first part that is refused. -/
def comparePerm (t1e t2e : List SumPart) : Nat → List Nat → Checked →
    Except TypeExc (List Nat × Checked)
  | _, [], s => .ok ([], s)
  | i, p :: perm, s =>
    match t1e[i]?, t2e[p]? with
    | some e1, some e2 => do
      let (f, s) ← ask e1.1 e2.1 s
      match f with
      | none => .ok ([], s)
      | some _ => do
        let code ← s.codeOf e1.1 e2.1
        let s := s.append code (e2.2.map fun _ => .createSum p)
        let (funcs, s) ← comparePerm t1e t2e (i + 1) perm s
        .ok (code :: funcs, s)
    | _, _ => .error .indexError

/-- The loop over the permutations. -/
def comparePerms (code : Nat) (t1e t2e : List SumPart) :
    List (List Nat) → Checked → Except TypeExc Checked
  | [], s => .ok s
  | perm :: perms, s => do
    let (funcs, s) ← comparePerm ask t1e t2e 0 perm s
    comparePerms code t1e t2e perms
      (if funcs.length = perm.length then s.append code [.sumCase funcs] else s)

end

/-- The body of `compare_types`, for a pair that was not in the table. -/
def compareBody (depth : Nat)
    (ask : LindaType → LindaType → Checked → Except TypeExc (Option Converter × Checked))
    (code : Nat) (t1 t2 : LindaType) (s : Checked) : Except TypeExc (Option Converter × Checked) :=
  match t1.typeSpec, t2.typeSpec with
  | .nil, .nil => .ok (none, s.append code [.setTypeId t2.typeId]) -- nothing is returned
  | .id id1 i1, .id id2 i2 =>
    if id1 ∈ builtin ∧ id2 ∈ builtin then
      if id1 = id2 then .ok (some (.code code), s.append code [.setTypeId t2.typeId])
      else .ok (none, s)
    else do
      let (func, s) ← compareNames c ask code t1 t2 id1 id2 i1 i2 s
      .ok (if func then some (.code code) else none, s)
  | .product _, .product _ => do
    let t1e ← flattenProductType c depth t1
    let t2e ← flattenProductType c depth t2
    if t1e.length ≠ t2e.length then .ok (none, s) else do
      let (funcs, s) ← compareParts ask t1e t2e s
      match funcs with
      | none => .ok (none, s)
      | some funcs =>
        .ok (some (.code code), s.append code (.explode t1 ::
          (funcs.flatMap fun func => [.eval func, .rotate]) ++
            [.construct t2, .setTypeId t2.typeId]))
  | .sum _, .sum branches => do
    let t1e ← flattenSumType c depth t1
    let t2e ← flattenSumType c depth t2
    if t1e.length ≠ t2e.length then .ok (none, s) else do
      let s ← comparePerms ask code t1e t2e (allPerms (List.range branches.length)) s
      .ok (some (.code code), s.append code [.setTypeId t2.typeId])
  | .pointer _ _, .pointer _ _ => .error .attributeError -- `ptrtype` is a string, not a type
  | .function arg1 result1, .function arg2 result2 => do
    let (arg, s) ← ask (t1.branch arg1) (t2.branch arg2) s
    match arg with
    | none => .ok (none, s)
    | some _ => do
      let (result, s) ← ask (t2.branch result2) (t1.branch result1) s
      match result with
      | none => .ok (none, s)
      | some _ => do
        let argCode ← s.codeOf (t1.branch arg1) (t2.branch arg2)
        let resultCode ← s.codeOf (t2.branch result2) (t1.branch result1)
        .ok (some (.wrap (t2.branch arg2) argCode (t2.branch result2) resultCode), s)
  | _, _ => .ok (none, s)

/-- `compare_types`. -/
def compareTypes : (depth : Nat) → LindaType → LindaType → Checked →
    Except TypeExc (Option Converter × Checked)
  | 0, _, _, _ => .error .recursionLimit
  | depth + 1, t1, t2, s =>
    match s.find t1 t2 with
    | some e => .ok (some .table, s.note t1 t2 (.table e.t1 e.t2))
    | none => do
      let (r, s) ← compareBody c depth (compareTypes depth) s.codes.length t1 t2 (s.enter t1 t2)
      .ok (r, s.note t1 t2 (if r.isSome then .accepted else .refused))

end

end PyLinda.Types
