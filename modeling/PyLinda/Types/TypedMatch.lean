import PyLinda.Types.Objects

/-!
# The typed matcher

`doesMatch_types` and `matchTuples` of `tuplecontainer.py`. The converters run on the stored
values themselves.
-/

namespace PyLinda.Types

open Lib

section
variable {δ : Type} [DecidableEq δ]

/-- `==` on two values, element by element in tuples; it does not look at their types. -/
def sameValue (objs : List (Obj δ)) : (depth : Nat) → Ref → Ref → Except TypeExc Bool
  | 0, _, _ => .error .recursionLimit
  | depth + 1, a, b =>
    match objs[a]?.map Obj.content, objs[b]?.map Obj.content with
    | some (.data d), some (.data d') => .ok (d = d')
    | some (.type t), some (.type t') => .ok (t.same t')
    | some (.tuple as), some (.tuple bs) =>
      if as.length ≠ bs.length then .ok false
      else (as.zip bs).foldlM (fun acc p =>
        if acc then sameValue objs depth p.1 p.2 else .ok false) true
    | some (.sum a _), some (.sum b _) => sameValue objs depth a b
    | _, _ => .ok false

/-- `value.type.type_id`. -/
def typeIdOf (o : Obj δ) : Except TypeExc (Option String) :=
  match o.type with
  | none => .error .attributeError
  | some i => .ok i

section
variable (c : TypeCache) (depth : Nat)
  (wrapFunction : Converter → List (List Instr) → Content δ → Except TypeExc (Obj δ))

/-- `lookupIso` of two types with these ids. -/
def lookupIso (t1 t2 : Option String) : Run δ (Option SavedIso) := do
  let saved ← Eff.look fun s =>
    .ok ((s.isos.find? fun e => e.1 = t1 ∧ e.2.1 = t2).map fun e => e.2.2)
  match saved with
  | some v => pure v
  | none => do
    let t ← Eff.look fun _ => c.lookupType t1
    let t' ← Eff.look fun _ => c.lookupType t2
    let (f, s) ← Eff.look fun _ => compareTypes c depth t t' .init
    let v := f.map fun f => ⟨f, s.codes⟩
    Eff.update fun s => { s with isos := s.isos ++ [(t1, t2, v)] }
    pure v

/-- `iso(tup)`. The table is not a function; `wrap_function` makes a new one. -/
def applyIso (iso : SavedIso) (tup : Ref) : Run δ Ref :=
  match iso.converter with
  | .code code => convertValue c iso.codes depth code tup
  | .table => Eff.raise .typeError
  | .wrap arg argCode result resultCode => do
    let o ← load tup
    let f ← Eff.look fun _ => wrapFunction (.wrap arg argCode result resultCode) iso.codes o.content
    alloc f

/-- `tup` converted from the type with the id `t1` to the one with the id `t2`. -/
def convertFrom (t1 t2 : Option String) (tup : Ref) : Run δ Ref := do
  let templE ← Eff.look fun _ => c.lookupType t2
  let tupE ← Eff.look fun _ => c.lookupType t1
  let iso ← lookupIso c depth tupE.typeId templE.typeId
  match iso with
  | none => Eff.raise .noTupleMatch
  | some iso => applyIso c depth wrapFunction iso tup

/-- `doesMatch_types` of an element. -/
def doesMatchElem (tup templ : Ref) : Run δ Ref := do
  let v ← load tup
  let p ← load templ
  match p.content with
  | .type t =>
    if p.type.isNone then Eff.raise .assertionError else do
      let i ← Eff.look fun _ => typeIdOf v
      if i = t.typeId then pure tup else convertFrom c depth wrapFunction i t.typeId tup
  | _ => do
    let i ← Eff.look fun _ => typeIdOf v
    let j ← Eff.look fun _ => typeIdOf p
    if i = j then do
      let same ← Eff.look fun s => sameValue s.objs depth tup templ
      if same then pure templ else Eff.raise .noTupleMatch
    else do
      let v ← convertFrom c depth wrapFunction i j tup
      let same ← Eff.look fun s => sameValue s.objs depth v templ
      if same then pure templ else Eff.raise .noTupleMatch

/-- The loop of `doesMatch_types` over the elements. -/
def doesMatchElems : List Ref → List Ref → Run δ (List Ref)
  | tup :: tups, templ :: templs => do
    let e ← doesMatchElem c depth wrapFunction tup templ
    let l ← doesMatchElems tups templs
    pure (e :: l)
  | _, _ => pure []

/-- `doesMatch_types` of a tuple. -/
def doesMatchTypes (tup templ : List Ref) : Run δ (List Ref) :=
  if tup.length ≠ templ.length then Eff.raise .noTupleMatch
  else doesMatchElems c depth wrapFunction tup templ

/-- `matchTuples`: what is yielded for the stored tuples. -/
def matchTuples (template : List Ref) : List (List Ref) → Run δ (List (List Ref × List Ref))
  | [] => pure []
  | t :: ts =>
    if template.length ≠ t.length then matchTuples template ts
    else do
      let r ← Eff.attempt (fun e => e = .noTupleMatch) (doesMatchTypes c depth wrapFunction t template)
      let l ← matchTuples template ts
      pure ((r.map fun r => (t, r)).toList ++ l)

end

end

end PyLinda.Types
