import PyLinda.Minimal.ValueXml
import PyLinda.Net.Connection

/-!
# Strings on a connection

`Connection.send` escapes the strings of Python, and then the XML library escapes every
string once more. The reader undoes one of the two.
-/

namespace PyLinda

/-- The text of the tuplespace ids. -/
structure TsNames where
  text : TsId → String
  id : String → TsId
  id_text : ∀ t, id (text t) = t
  text_ne : ∀ t, text t ≠ ""

section
variable (names : TsNames)

mutual

/-- A value of the server in C; floats, types, functions and pointers are not modelled. -/
def Value.toMinimal : Value → Option MinimalValue
  | .nil => some .nil
  | .boolean b => some (.boolean b)
  | .integer i => some (.integer i)
  | .uinteger n => some (.uinteger n)
  | .string s => some (.string s)
  | .tsref t => some (.tsref (names.text t))
  | .tuple vs => (Value.toMinimals vs).map .tuple
  | .sum v sumPos => v.toMinimal.map fun v => .sum v sumPos
  | .float _ | .type _ | .function _ | .pointer _ => none

def Value.toMinimals : List Value → Option (List MinimalValue)
  | [] => some []
  | v :: vs => match v.toMinimal, Value.toMinimals vs with
    | some w, some ws => some (w :: ws)
    | _, _ => none

end

mutual

/-- The value of the server; NULL is none. -/
def MinimalValue.toValue : MinimalValue → Option Value
  | .null => none
  | .nil => some .nil
  | .boolean b => some (.boolean b)
  | .integer i => some (.integer i)
  | .uinteger n => some (.uinteger n)
  | .string s => some (.string s)
  | .tsref s => some (.tsref (names.id s))
  | .tuple vs => (MinimalValue.toValues vs).map .tuple
  | .sum v sumPos => v.toValue.map fun v => .sum v sumPos

def MinimalValue.toValues : List MinimalValue → Option (List Value)
  | [] => some []
  | v :: vs => match v.toValue, MinimalValue.toValues vs with
    | some w, some ws => some (w :: ws)
    | _, _ => none

end

/-- The codec of `serialise.c` and `parsexml.c`, with libxml between the two. -/
def minimalCodec (m : Memory) (other : Xml → Option MinimalValue) : ValueCodec where
  serialise v := ((v.toMinimal names).bind fun w => w.serialiseValue m []).getD []
  xmlToValue x := (xmlToValue2 other x.compact).bind fun w => w.toValue names

end

mutual

/-- The values that come back: no booleans, C ints only, no sums at -1. -/
def Value.Kept : Value → Prop
  | .nil | .string _ | .tsref _ => True
  | .integer i => -2 ^ 31 ≤ i ∧ i < 2 ^ 31
  | .tuple vs => Value.AllKept vs
  | .sum v sumPos => v.Kept ∧ sumPos ≠ -1
  | _ => False

def Value.AllKept : List Value → Prop
  | [] => True
  | v :: vs => v.Kept ∧ Value.AllKept vs

end

section
variable {names : TsNames}

mutual

theorem Value.Kept.minimal : (v : Value) → v.Kept →
    ∃ w, v.toMinimal names = some w ∧ w.Storable ∧ w.Faithful ∧ w.toValue names = some v
  | .nil, _ => ⟨_, rfl, trivial, trivial, rfl⟩
  | .string s, _ => ⟨_, rfl, trivial, trivial, rfl⟩
  | .integer i, h => ⟨_, rfl, h, trivial, rfl⟩
  | .tsref t, _ => by
    refine ⟨_, rfl, trivial, names.text_ne t, ?_⟩
    show some (Value.tsref (names.id (names.text t))) = _
    rw [names.id_text]
  | .tuple vs, h => by
    obtain ⟨ws, hm, hs, hf, hv⟩ := Value.AllKept.minimal vs h
    refine ⟨.tuple ws, ?_, hs, hf, ?_⟩
    · unfold Value.toMinimal
      rw [hm]
      rfl
    · unfold MinimalValue.toValue
      rw [hv]
      rfl
  | .sum v sumPos, h => by
    obtain ⟨w, hm, hs, hf, hv⟩ := Value.Kept.minimal v h.1
    refine ⟨.sum w sumPos, ?_, hs, ⟨hf, h.2⟩, ?_⟩
    · unfold Value.toMinimal
      rw [hm]
      rfl
    · unfold MinimalValue.toValue
      rw [hv]
      rfl
  | .boolean _, h | .uinteger _, h | .float _, h | .type _, h | .function _, h => h.elim
  | .pointer _, h => h.elim

theorem Value.AllKept.minimal : (vs : List Value) → Value.AllKept vs →
    ∃ ws, Value.toMinimals names vs = some ws ∧ MinimalValue.AllStorable ws ∧
      MinimalValue.AllFaithful ws ∧ MinimalValue.toValues names ws = some vs
  | [], _ => ⟨[], rfl, trivial, trivial, rfl⟩
  | v :: vs, h => by
    obtain ⟨w, hm, hs, hf, hv⟩ := Value.Kept.minimal v h.1
    obtain ⟨ws, hms, hss, hfs, hvs⟩ := Value.AllKept.minimal vs h.2
    refine ⟨w :: ws, ?_, ⟨hs, hss⟩, ⟨hf, hfs⟩, ?_⟩
    · unfold Value.toMinimals
      rw [hm, hms]
    · unfold MinimalValue.toValues
      rw [hv, hvs]

end

/-- The name of the element that a value is written as. -/
theorem serialiseValue_tag {v : Value} {w : MinimalValue} {m : Memory} {path : List Nat} {x : Xml}
    (hv : v.Kept) (hw : v.toMinimal names = some w) (h : w.serialiseValue m path = some [x]) :
    x.name = v.tag := by
  cases v with
  | nil | string | integer | tsref =>
    cases hw
    cases h
    rfl
  | tuple vs =>
    obtain ⟨ws, _, rfl⟩ := Option.map_eq_some_iff.1 hw
    obtain ⟨es, _, he⟩ := Option.map_eq_some_iff.1 h
    cases he
    rfl
  | sum v sumPos =>
    obtain ⟨u, _, rfl⟩ := Option.map_eq_some_iff.1 hw
    obtain ⟨es, _, he⟩ := Option.map_eq_some_iff.1 h
    cases he
    rfl
  | boolean | uinteger | float | type | function | pointer => exact hv.elim

/-- The codec gives back what is kept. -/
theorem minimalCodec_roundTrips (m : Memory) (other : Xml → Option MinimalValue) {v : Value}
    (hv : v.Kept) : (minimalCodec names m other).RoundTrips v := by
  obtain ⟨w, hw, hs, hf, hback⟩ := @Value.Kept.minimal names v hv
  obtain ⟨xs, hxs, hread⟩ := @serialiseValue_readAs other m w hs []
  rw [(received_eq_iff w hs).2 hf] at hread
  rcases hread with ⟨rfl, hnull⟩ | ⟨n, ps, cs, rfl, _, hread⟩
  · cases hnull
    exact hs.elim
  · have htag : n = v.tag := serialiseValue_tag hv hw hxs
    refine ⟨ps, cs, ?_, ?_⟩
    · show ((v.toMinimal names).bind fun w => w.serialiseValue m []).getD [] = _
      rw [hw, Option.bind_some, hxs, htag]
      rfl
    · show (xmlToValue2 other (Xml.node v.tag ps cs).compact).bind (fun w => w.toValue names) = _
      rw [← htag, hread _ (Xml.reparsed_compact _ rfl), Option.bind_some, hback]

theorem minimalCodec_sound (m : Memory) (other : Xml → Option MinimalValue) :
    (minimalCodec names m other).Sound where
  string _ := minimalCodec_roundTrips m other trivial
  int i := minimalCodec_roundTrips m other ⟨i.le_toInt, i.toInt_lt⟩

end

/-! ## Escaping -/

/-- The characters that `makeMessageXMLSafe` leaves alone. -/
def PlainChar (ch : Char) : Prop := ch ≠ '&' ∧ ch ≠ '<' ∧ ch ≠ '>'

mutual

/-- No string of Python in it has one of the three characters. -/
def PyObj.Plain : PyObj → Prop
  | .str s => ∀ ch ∈ s.toList, PlainChar ch
  | .tuple l => PyObj.AllPlain l
  | _ => True

def PyObj.AllPlain : List PyObj → Prop
  | [] => True
  | x :: xs => x.Plain ∧ PyObj.AllPlain xs

end

/-- What one character becomes. -/
def safeChar (ch : Char) : List Char :=
  match ch with
  | '&' => "&amp;".toList
  | '<' => "&lt;".toList
  | '>' => "&gt;".toList
  | ch => [ch]

theorem toList_xmlSafe (s : String) : (xmlSafe s).toList = s.toList.flatMap safeChar := by
  unfold xmlSafe
  rw [String.toList_ofList]
  rfl

theorem safeChar_plain {ch : Char} (h : PlainChar ch) : safeChar ch = [ch] := by
  obtain ⟨h1, h2, h3⟩ := h
  unfold safeChar
  split
  · exact absurd rfl h1
  · exact absurd rfl h2
  · exact absurd rfl h3
  · rfl

/-- A character that is escaped takes more room. -/
theorem length_safeChar (ch : Char) :
    1 ≤ (safeChar ch).length ∧ (¬ PlainChar ch → 1 < (safeChar ch).length) := by
  by_cases h : PlainChar ch
  · rw [safeChar_plain h]
    exact ⟨Nat.le_refl 1, fun hn => absurd h hn⟩
  · have hlt : 1 < (safeChar ch).length := by
      unfold safeChar
      split
      · decide
      · decide
      · decide
      · exact absurd ⟨‹_›, ‹_›, ‹_›⟩ h
    exact ⟨Nat.le_of_lt hlt, fun _ => hlt⟩

theorem length_flatMap_safeChar (l : List Char) :
    l.length ≤ (l.flatMap safeChar).length ∧
      (l.length = (l.flatMap safeChar).length → ∀ ch ∈ l, PlainChar ch) := by
  induction l with
  | nil => exact ⟨Nat.le_refl 0, fun _ ch h => by cases h⟩
  | cons a l ih =>
    rw [List.flatMap_cons, List.length_append, List.length_cons]
    have ha := length_safeChar a
    refine ⟨by omega, fun he ch hch => ?_⟩
    rcases List.mem_cons.1 hch with rfl | hch
    · by_contra hn
      have hlt := ha.2 hn
      omega
    · exact ih.2 (by omega) ch hch

theorem xmlSafe_eq_iff (s : String) : xmlSafe s = s ↔ ∀ ch ∈ s.toList, PlainChar ch := by
  rw [← String.toList_inj, toList_xmlSafe]
  constructor
  · intro h
    exact (length_flatMap_safeChar s.toList).2 (congrArg List.length h).symm
  · intro h
    generalize s.toList = l at h ⊢
    induction l with
    | nil => rfl
    | cons a l ih =>
      rw [List.flatMap_cons, safeChar_plain (h a List.mem_cons_self),
        ih fun ch hch => h ch (List.mem_cons_of_mem _ hch)]
      rfl

mutual

/-- The value that is sent is the value of the object exactly if nothing was escaped. -/
theorem toValue_xmlSafe_iff : (x : PyObj) → (x.xmlSafe.toValue = x.toValue ↔ x.Plain)
  | .str s => by
    show Value.string (xmlSafe s) = Value.string s ↔ _
    rw [Value.string.injEq, xmlSafe_eq_iff]
    exact Iff.rfl
  | .tuple l => by
    show Value.tuple (PyObj.toValues (PyObj.makeMessageXMLSafe l)) = Value.tuple (PyObj.toValues l) ↔ _
    rw [Value.tuple.injEq]
    exact toValues_xmlSafe_iff l
  | .none => iff_of_true rfl trivial
  | .bool _ => iff_of_true rfl trivial
  | .int _ => iff_of_true rfl trivial
  | .value _ => iff_of_true rfl trivial

theorem toValues_xmlSafe_iff : (l : List PyObj) →
    (PyObj.toValues (PyObj.makeMessageXMLSafe l) = PyObj.toValues l ↔ PyObj.AllPlain l)
  | [] => iff_of_true rfl trivial
  | x :: xs => by
    show x.xmlSafe.toValue :: PyObj.toValues (PyObj.makeMessageXMLSafe xs) =
      x.toValue :: PyObj.toValues xs ↔ _
    rw [List.cons.injEq, toValue_xmlSafe_iff x, toValues_xmlSafe_iff xs]
    exact Iff.rfl

end

mutual

/-- Escaping loses nothing else. -/
theorem kept_xmlSafe : (x : PyObj) → x.toValue.Kept → x.xmlSafe.toValue.Kept
  | .str _, _ => trivial
  | .tuple l, h => allKept_xmlSafe l h
  | .none, h | .bool _, h | .int _, h | .value _, h => h

theorem allKept_xmlSafe : (l : List PyObj) → Value.AllKept (PyObj.toValues l) →
    Value.AllKept (PyObj.toValues (PyObj.makeMessageXMLSafe l))
  | [], _ => trivial
  | x :: xs, h => ⟨kept_xmlSafe x h.1, allKept_xmlSafe xs h.2⟩

end

/-! ## The messages -/

theorem makeMessageXMLSafe_eq_map (l : List PyObj) :
    PyObj.makeMessageXMLSafe l = l.map PyObj.xmlSafe := by
  induction l with
  | nil => rfl
  | cons x xs ih =>
    unfold PyObj.makeMessageXMLSafe
    rw [ih]
    rfl

theorem toValues_eq_map (l : List PyObj) : PyObj.toValues l = l.map PyObj.toValue := by
  induction l with
  | nil => rfl
  | cons x xs ih =>
    unfold PyObj.toValues
    rw [ih]
    rfl

/-- The names of the actions need no escaping. -/
theorem xmlSafe_action {env : Env} {action : String} {args : List PyObj}
    (h : Passes env action args) : xmlSafe action = action := by
  unfold Passes at h
  split at h
  all_goals first | exact h.elim | decide

/-- Escaping changes strings only, so the arguments still fit the action. -/
theorem passes_xmlSafe {env : Env} {action : String} {args : List PyObj}
    (h : Passes env action args) (hname : action ≠ "MY_NAME_IS") :
    Passes env action (PyObj.makeMessageXMLSafe args) := by
  unfold Passes at h ⊢
  split at h
  all_goals first
    | (rw [h]; rfl)
    | (obtain ⟨s, rfl⟩ := h; exact ⟨_, rfl⟩)
    | exact absurd rfl hname
    | (obtain ⟨n, rfl, hn⟩ | ⟨b, rfl⟩ := h; exacts [Or.inl ⟨n, rfl, hn⟩, Or.inr ⟨b, rfl⟩])
    | (obtain ⟨l, rfl⟩ | ⟨vs, rfl⟩ := h; exacts [Or.inl ⟨_, rfl⟩, Or.inr ⟨vs, rfl⟩])
    | (obtain ⟨s, r, rfl⟩ := h; exact ⟨_, _, rfl⟩)
    | (obtain ⟨s, r, l, rfl⟩ := h; exact ⟨_, _, _, rfl⟩)
    | exact h.elim

/-- `connectionSend` of an action with a plain name. -/
theorem connectionSend_action {env : Env} {action : String} (args : List PyObj)
    (h : xmlSafe action = action) :
    connectionSend env (.tuple (.str action :: args)) =
      lindaPythonSend env action (PyObj.makeMessageXMLSafe args) := by
  show lindaPythonSend env (xmlSafe action) (PyObj.makeMessageXMLSafe args) = _
  rw [h]

/-- A string of Python arrives as it was exactly if it has none of the three characters;
a string inside a value always does. -/
theorem strings_arrive_iff (names : TsNames) (m : Memory) (other : Xml → Option MinimalValue)
    (env : Env) (i : Option MsgID) (action : String) (args : List PyObj)
    (hpass : Passes env action args) (hkept : ∀ x ∈ args, x.toValue.Kept) :
    (connectionSend env (.tuple (.str action :: args))).Arrives (minimalCodec names m other) env i
      action args ↔ action = "MY_NAME_IS" ∨ PyObj.AllPlain args := by
  rw [connectionSend_action args (xmlSafe_action hpass)]
  by_cases hname : action = "MY_NAME_IS"
  · -- the writer takes its own id, whatever it is given
    subst hname
    refine iff_of_true ?_ (Or.inl rfl)
    have hargs : args = [.str env.processId] := hpass
    subst hargs
    have ha : (lindaPythonSend env "MY_NAME_IS" [.str env.processId]).Arrives
        (minimalCodec names m other) env i "MY_NAME_IS" [.str env.processId] :=
      (arrives_iff (minimalCodec_sound m other) (fun x hx ht => by
        obtain rfl := List.mem_singleton.1 hx
        cases ht)).2 rfl
    exact ha
  · have hsafe : ∀ x ∈ PyObj.makeMessageXMLSafe args, x.toValue.isTuple →
        (minimalCodec names m other).RoundTrips x.toValue := by
      intro x hx _
      rw [makeMessageXMLSafe_eq_map] at hx
      obtain ⟨y, hy, rfl⟩ := List.mem_map.1 hx
      exact minimalCodec_roundTrips m other (kept_xmlSafe y (hkept y hy))
    obtain ⟨r, hr, hval⟩ := (arrives_iff (c := minimalCodec names m other) (i := i)
      (minimalCodec_sound m other) hsafe).2 (passes_xmlSafe hpass hname)
    rw [arrives_iff_of_arriving hr, hval, List.map_cons, List.map_cons, List.cons.injEq,
      ← toValues_eq_map, ← toValues_eq_map, toValues_xmlSafe_iff]
    exact ⟨fun h => Or.inr h.2, fun h => ⟨rfl, h.resolve_left hname⟩⟩

/-- Ids written with the guid in decimal. -/
def decimalNames : TsNames where
  text
    | .uts => "UTS"
    | .sid guid => String.ofList ('S' :: (Nat.toDigits 10 guid))
  id s := if s = "UTS" then .uts else .sid (Nat.ofDigitChars 10 s.toList.tail 0)
  id_text t := by
    cases t with
    | uts => rfl
    | sid guid =>
      have hne : String.ofList ('S' :: Nat.toDigits 10 guid) ≠ "UTS" := by
        intro he
        have hl := congrArg String.toList he
        rw [String.toList_ofList] at hl
        cases hl
      show (if _ then _ else _) = _
      rw [if_neg hne, String.toList_ofList, List.tail_cons, Nat.ofDigitChars_ten_toDigits]
  text_ne t he := by
    have hl := congrArg String.toList he
    cases t with
    | uts => cases hl
    | sid guid =>
      rw [String.toList_ofList] at hl
      cases hl

theorem strings_arrive_iff_tuple :
    (connectionSend ⟨"N1", none⟩ (.tuple [.str "RESULT_TUPLE",
      .tuple [.str "a", .value (.string "<b>")]])).Arrives
        (minimalCodec decimalNames ⟨fun _ => 0, fun _ => ""⟩ fun _ => none) ⟨"N1", none⟩ none
        "RESULT_TUPLE" [.tuple [.str "a", .value (.string "<b>")]] ↔
      "RESULT_TUPLE" = "MY_NAME_IS" ∨
        PyObj.AllPlain [.tuple [.str "a", .value (.string "<b>")]] :=
  strings_arrive_iff _ _ _ _ _ _ _ (Or.inl ⟨_, rfl⟩) (by
    intro x hx
    obtain rfl := List.mem_singleton.1 hx
    simp [PyObj.toValue, PyObj.toValues, Value.Kept, Value.AllKept])

/-- The reader undoes one of the two layers. -/
theorem ampersand_changed :
    ¬ (connectionSend ⟨"N1", none⟩ (.tuple [.str "RESULT_STRING", .str "a&b"])).Arrives
      (minimalCodec decimalNames ⟨fun _ => 0, fun _ => ""⟩ fun _ => none) ⟨"N1", none⟩ none
      "RESULT_STRING" [.str "a&b"] := by
  have hr : (connectionSend ⟨"N1", none⟩ (.tuple [.str "RESULT_STRING", .str "a&b"])).arriving
      (minimalCodec decimalNames ⟨fun _ => 0, fun _ => ""⟩ fun _ => none) ⟨"N1", none⟩ none =
      some [.str "RESULT_STRING", .str "a&amp;b"] := by
    have hsafe : xmlSafe "a&b" = "a&amp;b" := by decide
    rw [connectionSend_action _ (by decide), makeMessageXMLSafe_eq_map, List.map_singleton]
    unfold PyObj.xmlSafe
    rw [hsafe]
    exact arriving_plain (minimalCodec_sound _ _) (.resultString "a&amp;b") rfl rfl trivial
  rw [arrives_iff_of_arriving hr]
  intro h
  simp [PyObj.toValue] at h

end PyLinda
