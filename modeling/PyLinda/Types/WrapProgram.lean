import PyLinda.Lib.Except
import PyLinda.Types.WrapFunction

/-!
# The programs of wrapped functions

What `compare_types` writes for two types without other names than built-in ones, and the text
that `wrap` makes of it.
-/

namespace PyLinda.Types.Wrap

open Lib
open Grammar (Token)

/-! ## Products without names -/

mutual

/-- Made of products only. -/
def Hollow : TypeSpec → Prop
  | .product branches => AllHollow branches
  | _ => False

def AllHollow : List TypeSpec → Prop
  | [] => True
  | spec :: specs => Hollow spec ∧ AllHollow specs

end

mutual

theorem explode_hollow (argname : String) : ∀ {spec : TypeSpec}, Hollow spec → ∀ keys,
    explode argname spec keys = []
  | .product branches, h, keys => by
    have hb : AllHollow branches := h
    exact explodeFrom_hollow argname hb 0 keys
  | .nil, h, _ | .id _ _, h, _ | .sum _, h, _ | .pointer _ _, h, _ | .function _ _, h, _ => h.elim

theorem explodeFrom_hollow (argname : String) : ∀ {specs : List TypeSpec}, AllHollow specs →
    ∀ i keys, explodeFrom argname specs i keys = []
  | [], _, _, _ => rfl
  | spec :: specs, h, i, keys => by
    unfold explodeFrom
    rw [explode_hollow argname h.1, explodeFrom_hollow argname h.2]
    rfl

end

section
variable {c : TypeCache}

/-- A name as a part is an error as long as no other name has been looked up. -/
theorem flattenProductLoop_plain
    {flatten : LindaType → TypeMemo → Except TypeExc (List LindaType × TypeMemo)}
    (ih : ∀ e memo l memo', Plain e.typeSpec → flatten e memo = .ok (l, memo') →
      e.isProductType = true → l = [] ∧ Hollow e.typeSpec) (t : LindaType) {specs : List TypeSpec}
    (hplain : AllPlain specs) {memo memo' : TypeMemo} {l : List LindaType}
    (h : flattenProductLoop c flatten (specs.map t.branch) memo none = .ok (l, memo')) :
    l = [] ∧ AllHollow specs := by
  induction specs generalizing memo l with
  | nil =>
    cases h
    exact ⟨rfl, trivial⟩
  | cons spec specs ihs =>
    obtain ⟨r, hr, h⟩ := ok_of_bind h
    obtain ⟨r', hr', h⟩ := ok_of_bind h
    cases h
    cases spec with
    | nil | sum | pointer | function => exact hplain.1.elim
    | id n i =>
      have hin : ¬ n ∉ builtin := fun hn => hn hplain.1
      have hstale : flattenProductItem c flatten (t.branch (.id n i)) memo none =
        .error .unboundLocalError := if_neg hin
      rw [hstale] at hr
      cases hr
    | product branches =>
      obtain ⟨q, hq, hr⟩ := ok_of_bind hr
      cases hr
      obtain ⟨hl, hhollow⟩ := ih _ memo _ _ hplain.1 hq rfl
      obtain ⟨hl', hrest⟩ := ihs hplain.2 hr'
      rw [hl, hl']
      exact ⟨rfl, hhollow, hrest⟩

theorem flattenProductMemo_plain {depth : Nat} : ∀ (p : LindaType) (memo : TypeMemo)
    (l : List LindaType) (memo' : TypeMemo), Plain p.typeSpec →
      flattenProductMemo c depth p memo = .ok (l, memo') → p.isProductType = true →
        l = [] ∧ Hollow p.typeSpec := by
  induction depth with
  | zero =>
    intro p memo l memo' _ h
    cases h
  | succ depth ih =>
    intro p memo l memo' hplain h hp
    obtain ⟨name, spec, id⟩ := p
    cases spec with
    | nil | id | sum | pointer | function => cases hp
    | product branches => exact flattenProductLoop_plain ih _ hplain h

/-- A product of which `flattenProductType` makes a list has no names in it. -/
theorem flattenProductType_plain {depth : Nat} {p : LindaType} {l : List LindaType}
    (hplain : Plain p.typeSpec) (hp : p.isProductType = true)
    (h : flattenProductType c depth p = .ok l) : l = [] ∧ Hollow p.typeSpec := by
  obtain ⟨⟨l', memo⟩, hl, rfl⟩ := ok_of_map h
  exact flattenProductMemo_plain p [] l' memo hplain hl hp

/-! ## The programs -/

/-- The programs of pairs of types that have no id of their own. -/
inductive Written : List Instr → Prop
  | name : Written [.setTypeId none]
  | product (t1 t2 : LindaType) (branches : List TypeSpec) : Hollow t1.typeSpec →
    t2.typeSpec = .product branches → Written [.explode t1, .construct t2, .setTypeId none]

/-- Only the programs of functions are not finished. -/
def Finished (s : Checked) : Prop := ∀ e ∈ s.entries,
  (∃ arg result, e.t1.typeSpec = .function arg result) ∨
    ∃ program, s.codes[e.code]? = some program ∧ Written program

/-- A function is no plain type. -/
theorem not_same_function {t t' : LindaType} {arg result : TypeSpec}
    (ht : t.typeSpec = .function arg result) (hplain : Plain t'.typeSpec) : t.same t' ≠ true := by
  intro h
  unfold LindaType.same at h
  rw [ht] at h
  have hspec := (Bool.and_eq_true_iff.1 h).2
  cases hs : t'.typeSpec with
  | function =>
    rw [hs] at hplain
    exact hplain
  | nil | id | product | sum | pointer =>
    rw [hs] at hspec
    cases hspec

theorem Finished.codeOf {s : Checked} (h : Finished s) {t1 t2 : LindaType}
    (hplain : Plain t1.typeSpec) {code : Nat} (hcode : s.codeOf t1 t2 = .ok code) :
    ∃ program, s.codes[code]? = some program ∧ Written program := by
  unfold Checked.codeOf at hcode
  cases hf : s.find t1 t2 with
  | none =>
    rw [hf] at hcode
    cases hcode
  | some e =>
    rw [hf] at hcode
    cases hcode
    obtain hfun | hw := h e (List.mem_of_find?_eq_some hf)
    · obtain ⟨arg, result, hfun⟩ := hfun
      have hsame : (e.t1.same t1 && e.t2.same t2) = true :=
        List.find?_some (p := fun e : Entry => e.t1.same t1 && e.t2.same t2) hf
      exact absurd (Bool.and_eq_true_iff.1 hsame).1 (not_same_function hfun hplain)
    · exact hw

theorem modify_last {α : Type} (l : List α) (a : α) (f : α → α) :
    (l ++ [a]).modify l.length f = l ++ [f a] := by
  induction l with
  | nil => rfl
  | cons x l ih => exact congrArg (x :: ·) ih

/-- A new pair is entered and its program written. -/
theorem Finished.enter {s : Checked} (h : Finished s) (t1 t2 : LindaType) {program : List Instr}
    (hw : Written program) : Finished ((s.enter t1 t2).append s.codes.length program) := by
  have hcodes : ((s.enter t1 t2).append s.codes.length program).codes = s.codes ++ [program] :=
    modify_last s.codes [] (· ++ program)
  intro e he
  rw [hcodes]
  rcases List.mem_append.1 he with he | he
  · obtain hfun | ⟨q, hq, hw⟩ := h e he
    · exact .inl hfun
    · obtain ⟨hlt, _⟩ := List.getElem?_eq_some_iff.1 hq
      refine .inr ⟨q, ?_, hw⟩
      rw [List.getElem?_append_left hlt]
      exact hq
  · obtain rfl := List.mem_singleton.1 he
    exact .inr ⟨program, List.getElem?_concat_length, hw⟩

/-- Two built-in names are compared by their texts. -/
theorem compareBody_names {depth : Nat}
    {ask : LindaType → LindaType → Checked → Except TypeExc (Option Converter × Checked)}
    {code : Nat} {name1 name2 n1 n2 : String} {i1 i2 id1 id2 : Option String} {s : Checked}
    (h1 : n1 ∈ builtin) (h2 : n2 ∈ builtin) :
    compareBody c depth ask code ⟨name1, .id n1 i1, id1⟩ ⟨name2, .id n2 i2, id2⟩ s =
      if n1 = n2 then .ok (some (.code code), s.append code [.setTypeId id2]) else .ok (none, s) :=
  if_pos ⟨h1, h2⟩

/-- What is asked about two plain types leaves their program behind. -/
theorem compareTypes_finished {depth : Nat} {t1 t2 : LindaType} {s s' : Checked}
    {conv : Converter} (h1 : Plain t1.typeSpec) (h2 : Plain t2.typeSpec) (hid : t2.typeId = none)
    (hs : Finished s) (h : compareTypes c depth t1 t2 s = .ok (some conv, s')) : Finished s' := by
  cases depth with
  | zero => cases h
  | succ depth =>
    unfold compareTypes at h
    cases hf : s.find t1 t2 with
    | some e =>
      rw [hf] at h
      cases h
      exact hs
    | none =>
      rw [hf] at h
      obtain ⟨⟨r, u⟩, hbody, h⟩ := ok_of_bind h
      cases h
      show Finished u
      obtain ⟨name1, spec1, id1⟩ := t1
      obtain ⟨name2, spec2, id2⟩ := t2
      obtain rfl : id2 = none := hid
      cases spec1 with
      | nil | sum | pointer | function => exact h1.elim
      | id n1 i1 =>
        cases spec2 with
        | nil | sum | pointer | function => exact h2.elim
        | product => cases hbody
        | id n2 i2 =>
          rw [compareBody_names h1 h2] at hbody
          by_cases hn : n1 = n2
          · rw [if_pos hn] at hbody
            cases hbody
            exact hs.enter _ _ .name
          · rw [if_neg hn] at hbody
            cases hbody
      | product branches1 =>
        cases spec2 with
        | nil | sum | pointer | function => exact h2.elim
        | id => cases hbody
        | product branches2 =>
          obtain ⟨t1e, ht1e, hbody⟩ := ok_of_bind hbody
          obtain ⟨t2e, ht2e, hbody⟩ := ok_of_bind hbody
          obtain ⟨rfl, hhollow⟩ := flattenProductType_plain h1 rfl ht1e
          obtain ⟨rfl, _⟩ := flattenProductType_plain h2 rfl ht2e
          cases hbody
          exact hs.enter _ _ (.product _ _ branches2 hhollow rfl)

/-- Two functions between plain types: the programs that their converter runs. -/
theorem compareTypes_function {depth : Nat} {t1 t2 : LindaType} {a1 b1 a2 b2 : TypeSpec}
    (ht1 : t1.typeSpec = .function a1 b1) (ht2 : t2.typeSpec = .function a2 b2) (ha1 : Plain a1)
    (hb1 : Plain b1) (ha2 : Plain a2) (hb2 : Plain b2) {s : Checked} {conv : Converter}
    (h : compareTypes c depth t1 t2 .init = .ok (some conv, s)) :
    ∃ arg result, conv = .wrap (t2.branch a2) arg (t2.branch b2) result ∧
      (∃ program, s.codes[arg]? = some program ∧ Written program) ∧
        ∃ program, s.codes[result]? = some program ∧ Written program := by
  cases depth with
  | zero => cases h
  | succ depth =>
    obtain ⟨⟨r, u⟩, hbody, h⟩ := ok_of_bind h
    cases h
    unfold compareBody at hbody
    rw [ht1, ht2] at hbody
    obtain ⟨⟨arg, s1⟩, harg, hbody⟩ := ok_of_bind hbody
    cases arg with
    | none => cases hbody
    | some argConv =>
      obtain ⟨⟨result, s2⟩, hresult, hbody⟩ := ok_of_bind hbody
      cases result with
      | none => cases hbody
      | some resultConv =>
        obtain ⟨argCode, hargCode, hbody⟩ := ok_of_bind hbody
        obtain ⟨resultCode, hresultCode, hbody⟩ := ok_of_bind hbody
        cases hbody
        have h0 : Finished (Checked.init.enter t1 t2) := by
          intro e he
          obtain rfl := List.mem_singleton.1 he
          exact .inl ⟨a1, b1, ht1⟩
        have hf1 : Finished s1 := compareTypes_finished ha1 ha2 rfl h0 harg
        have hf2 := compareTypes_finished hb2 hb1 rfl hf1 hresult
        exact ⟨argCode, resultCode, rfl, hf2.codeOf ha1 hargCode, hf2.codeOf hb2 hresultCode⟩

end

/-! ## The texts -/

/-- The text for a product of so many parts. -/
def nils (n : Nat) : Text := bracketed .comma (List.replicate n [.id "Nil"])

theorem constructParts_nil (specs : List TypeSpec) :
    constructParts specs [] = .ok (List.replicate specs.length [.id "Nil"], []) := by
  induction specs with
  | nil => rfl
  | cons spec specs ih =>
    show (constructParts specs [] >>= _) = _
    rw [ih]
    rfl

/-- A program that has been written raises, or makes a product without parts of its own. -/
theorem Written.wrap {codes : List (List Instr)} {code : Nat} {program : List Instr}
    (hcode : codes[code]? = some program) (hw : Written program) {argname : String} {depth : Nat}
    {text : Text} (h : wrap codes argname depth code [] = .ok text) : ∃ n, text = nils n := by
  cases depth with
  | zero => cases h
  | succ depth =>
    unfold Wrap.wrap at h
    rw [List.getD_eq_getElem?_getD, hcode] at h
    cases hw with
    | name => cases h
    | product t1 t2 branches ht1 ht2 =>
      obtain ⟨vars, hvars, h⟩ := ok_of_bind h
      cases hvars
      rw [explode_hollow argname ht1] at h
      obtain ⟨vars, hvars, h⟩ := ok_of_bind h
      have hconstruct : construct [] t2.typeSpec = .ok vars := hvars
      rw [ht2] at hconstruct
      obtain ⟨⟨r, rest⟩, hr, hconstruct⟩ := ok_of_bind hconstruct
      rw [constructParts_nil] at hr
      cases hr
      cases hconstruct
      cases h
      exact ⟨branches.length, rfl⟩

end PyLinda.Types.Wrap
