import PyLinda.Lib.Except
import PyLinda.Types.ForeignTypes

/-!
# Which templates are imported

An id that is not registered is never found: looking it up raises. So the call returns only where
nothing had to be imported.
-/

namespace PyLinda.Types.Foreign

open Lib

/-! ## Looking up -/

section
variable (generate : Nat → String) (remote : Option String → TypeValue)

theorem registerType_lets_raise (t : TypeValue) (s : State) :
    ∃ e s', (registerType generate t >>= fun _ => (Eff.raise .nameError : Run TypeValue)) s =
      (.error e, s') := by
  cases hr : registerType generate t s with
  | mk r s' =>
    cases r with
    | error e => exact ⟨e, s', Eff.andThen_error hr _⟩
    | ok i => exact ⟨.nameError, s', Eff.andThen_ok hr _⟩

theorem lookupType_found {tid : Option String} {s : State} {t : TypeValue}
    (h : tid.bind s.cache = some t) : lookupType tid s = (.ok t, s) := by
  apply Eff.look_ok
  simp only [h]

theorem lookupType_missing {tid : Option String} {s : State} (h : tid.bind s.cache = none) :
    lookupType tid s = (.error .keyError, s) := by
  show (_, s) = _
  simp only [h]

theorem lookupForeignType_found {tid : Option String} {s : State} {t : TypeValue}
    (h : tid.bind s.cache = some t) : lookupForeignType generate remote tid s = (.ok t, s) := by
  unfold lookupForeignType
  have hl : Eff.attempt (fun e => e = .keyError) (lookupType tid) s = (.ok (some t), s) := by
    unfold Eff.attempt
    rw [lookupType_found h]
  rw [Eff.andThen_ok hl]
  rfl

/-- A type that is not there is never returned. -/
theorem lookupForeignType_missing {tid : Option String} {s : State}
    (h : tid.bind s.cache = none) :
    ∃ e s', lookupForeignType generate remote tid s = (.error e, s') := by
  unfold lookupForeignType
  have hl : Eff.attempt (fun e => e = .keyError) (lookupType tid) s = (.ok none, s) := by
    unfold Eff.attempt
    rw [lookupType_missing h]
    rfl
  rw [Eff.andThen_ok hl]
  exact registerType_lets_raise generate (remote tid) s

theorem found_of_lookupForeignType {tid : Option String} {s s' : State} {t : TypeValue}
    (h : lookupForeignType generate remote tid s = (.ok t, s')) :
    tid.bind s.cache = some t ∧ s' = s := by
  cases hc : tid.bind s.cache with
  | none =>
    obtain ⟨e, s'', he⟩ := lookupForeignType_missing generate remote hc
    rw [he] at h
    cases h
  | some u =>
    rw [lookupForeignType_found generate remote hc] at h
    cases h
    exact ⟨rfl, rfl⟩

/-- The id is one, and it is registered. -/
def Found (s : State) (tid : Option String) : Prop :=
  ∃ i, tid = some i ∧ (s.cache i).isSome = true

theorem Found.of_bind {s : State} {tid : Option String} {t : TypeValue}
    (h : tid.bind s.cache = some t) : Found s tid := by
  cases tid with
  | none => cases h
  | some i => exact ⟨i, rfl, by rw [show s.cache i = some t from h]; rfl⟩

theorem Found.bind {s : State} {tid : Option String} (h : Found s tid) :
    ∃ t, tid.bind s.cache = some t := by
  obtain ⟨i, rfl, hi⟩ := h
  exact Option.isSome_iff_exists.mp hi

theorem lookupForeignTypes_ok {s : State} {l : List (Option String)} (h : ∀ t ∈ l, Found s t) :
    lookupForeignTypes generate remote l s = (.ok (), s) := by
  induction l with
  | nil => rfl
  | cons t l ih =>
    obtain ⟨u, hu⟩ := (h t List.mem_cons_self).bind
    rw [lookupForeignTypes, Eff.andThen_ok (lookupForeignType_found generate remote hu)]
    exact ih fun t ht => h t (List.mem_cons_of_mem _ ht)

theorem found_of_lookupForeignTypes {s s' : State} {l : List (Option String)}
    (h : lookupForeignTypes generate remote l s = (.ok (), s')) :
    (∀ t ∈ l, Found s t) ∧ s' = s := by
  induction l generalizing s with
  | nil =>
    cases h
    exact ⟨fun t ht => (List.not_mem_nil ht).elim, rfl⟩
  | cons t l ih =>
    rw [lookupForeignTypes] at h
    obtain ⟨u, s₁, ht, hl⟩ := Eff.ok_of_andThen h
    obtain ⟨hc, rfl⟩ := found_of_lookupForeignType generate remote ht
    obtain ⟨hf, rfl⟩ := ih hl
    refine ⟨fun t' ht' => ?_, rfl⟩
    rcases List.mem_cons.mp ht' with rfl | ht'
    · exact Found.of_bind hc
    · exact hf t' ht'

end

/-! ## What is collected -/

/-- The part itself has no id. -/
theorem getTypesFromPart_head {spec : TypeSpec} {l : List (Option String)}
    (h : getTypesFromPart spec = .ok l) : ∃ l', l = none :: l' := by
  cases spec with
  | nil | id n i =>
    rw [getTypesFromPart] at h
    exact ⟨_, (Except.ok.inj h).symm⟩
  | product branches | sum branches =>
    rw [getTypesFromPart] at h
    obtain ⟨l', -, h⟩ := ok_of_bind h
    exact ⟨_, (Except.ok.inj h).symm⟩
  | pointer n i =>
    rw [getTypesFromPart] at h
    cases h
  | function arg result =>
    rw [getTypesFromPart] at h
    obtain ⟨l', -, h⟩ := ok_of_bind h
    obtain ⟨l'', -, h⟩ := ok_of_bind h
    exact ⟨_, (Except.ok.inj h).symm⟩

/-- Where there are parts, `None` is collected. -/
theorem getTypesFromParts_none {specs : List TypeSpec} {l : List (Option String)}
    (h : getTypesFromParts specs = .ok l) (hl : none ∉ l) : specs = [] := by
  cases specs with
  | nil => rfl
  | cons spec specs =>
    rw [getTypesFromParts] at h
    obtain ⟨l₁, h₁, h⟩ := ok_of_bind h
    obtain ⟨l₂, -, h⟩ := ok_of_bind h
    obtain ⟨l₃, rfl⟩ := getTypesFromPart_head h₁
    cases h
    exact absurd List.mem_cons_self hl

theorem bare_of_getTypesFromPart {spec : TypeSpec} {l : List (Option String)}
    (h : getTypesFromPart spec = .ok l) (hl : none ∉ l.tail) : Bare spec := by
  cases spec with
  | nil => trivial
  | id n i =>
    rw [getTypesFromPart] at h
    cases h
    by_cases hn : n ∈ builtin
    · exact .inl hn
    · rw [if_neg hn] at hl
      cases i with
      | none => exact absurd List.mem_cons_self hl
      | some i => exact .inr rfl
  | product branches | sum branches =>
    rw [getTypesFromPart] at h
    obtain ⟨l', h', h⟩ := ok_of_bind h
    cases h
    exact getTypesFromParts_none h' hl
  | pointer n i =>
    rw [getTypesFromPart] at h
    cases h
  | function arg result =>
    rw [getTypesFromPart] at h
    obtain ⟨l₁, h₁, h⟩ := ok_of_bind h
    obtain ⟨l₂, -, h⟩ := ok_of_bind h
    obtain ⟨l₃, rfl⟩ := getTypesFromPart_head h₁
    cases h
    exact absurd List.mem_cons_self hl

theorem getTypesFromPart_bare {spec : TypeSpec} (h : Bare spec) :
    ∃ l, getTypesFromPart spec = .ok (none :: l) ∧
      ∀ t ∈ l, ∃ i, t = some i ∧ i ∈ TypeSpec.ids spec := by
  cases spec with
  | nil => exact ⟨[], by rw [getTypesFromPart], fun t ht => (List.not_mem_nil ht).elim⟩
  | id n i =>
    by_cases hn : n ∈ builtin
    · refine ⟨[], by rw [getTypesFromPart, if_pos hn], fun t ht => (List.not_mem_nil ht).elim⟩
    · refine ⟨[i], by rw [getTypesFromPart, if_neg hn], fun t ht => ?_⟩
      rw [List.mem_singleton.mp ht]
      obtain ⟨j, rfl⟩ := Option.isSome_iff_exists.mp (h.resolve_left hn)
      exact ⟨j, rfl, by rw [TypeSpec.ids]; exact List.mem_singleton.mpr rfl⟩
  | product branches | sum branches =>
    rw [Bare] at h
    subst h
    exact ⟨[], rfl, fun t ht => (List.not_mem_nil ht).elim⟩
  | pointer n i | function arg result => exact h.elim

/-- The type has an id and no parts. -/
def TypeValue.Bare (t : TypeValue) : Prop :=
  t.typeId.isSome = true ∧ ∀ spec, t.typeSpec = some spec → Foreign.Bare spec

theorem bare_of_getTypesFromType {t : TypeValue} {l : List (Option String)}
    (h : getTypesFromType t = .ok l) (hl : none ∉ l) : t.Bare := by
  obtain ⟨spec, id⟩ := t
  have hid : none ∉ [id] → id.isSome = true := by
    intro hn
    cases id with
    | none => exact absurd List.mem_cons_self hn
    | some i => rfl
  cases spec with
  | none =>
    cases h
    exact ⟨hid hl, fun spec hs => by cases hs⟩
  | some spec =>
    obtain ⟨l', h', h⟩ := ok_of_bind (x := getTypesFromPart spec) h
    cases h
    refine ⟨hid fun hn => hl ?_, fun spec' hs => ?_⟩
    · rw [List.mem_singleton.mp hn]
      exact List.mem_cons_self
    · cases hs
      exact bare_of_getTypesFromPart h' fun hn => hl (List.mem_cons_of_mem _ hn)

theorem getTypesFromType_bare {t : TypeValue} (h : t.Bare) :
    ∃ l, getTypesFromType t = .ok l ∧ ∀ t' ∈ l, ∃ i, t' = some i ∧ i ∈ t.ids := by
  obtain ⟨spec, id⟩ := t
  obtain ⟨hid, hs⟩ := h
  obtain ⟨i, rfl⟩ := Option.isSome_iff_exists.mp hid
  cases spec with
  | none =>
    refine ⟨[some i], rfl, fun t' ht => ⟨i, List.mem_singleton.mp ht, ?_⟩⟩
    exact List.mem_append_left _ (List.mem_singleton.mpr rfl)
  | some spec =>
    obtain ⟨l, hl, hi⟩ := getTypesFromPart_bare (hs spec rfl)
    refine ⟨some i :: l, ?_, fun t' ht => ?_⟩
    · show (getTypesFromPart spec >>= _) = _
      rw [bind_ok hl]
      rfl
    · rcases List.mem_cons.mp ht with rfl | ht
      · exact ⟨i, rfl, List.mem_append_left _ (List.mem_singleton.mpr rfl)⟩
      · obtain ⟨j, hj, hm⟩ := hi t' ht
        exact ⟨j, hj, List.mem_append_right _ hm⟩

section
variable (objs : Objects)

/-- Where only ids are collected, the value is simple. -/
theorem simple_of_getTypesFromValue (depth : Nat) {r : Nat} {l : List (Option String)}
    (h : getTypesFromValue objs depth r = .ok l) (hl : none ∉ l) : Simple objs r := by
  induction depth generalizing r l with
  | zero => cases h
  | succ depth ih =>
    rw [getTypesFromValue] at h
    cases ht : (objs r).type with
    | none =>
      rw [ht] at h
      cases h
    | some id =>
      rw [ht] at h
      have hid : ∀ l', some l = some (id :: l') → (objs r).type = some (some (id.getD "")) := by
        intro l' he
        cases he
        cases id with
        | none => exact absurd List.mem_cons_self hl
        | some i => exact ht
      cases hc : (objs r).content with
      | nil | boolean | uinteger | float | string | tsref | sum v | function =>
        rw [hc] at h
        cases h
      | long =>
        rw [hc] at h
        cases h
        exact .long (hid [] rfl) hc
      | type t =>
        rw [hc] at h
        obtain ⟨l', h', h⟩ := ok_of_bind (x := getTypesFromType t) h
        cases h
        obtain ⟨hi, hs⟩ := bare_of_getTypesFromType h' fun hn => hl (List.mem_cons_of_mem _ hn)
        exact .type (hid l' rfl) hc hi hs
      | tuple values =>
        rw [hc] at h
        cases values with
        | cons v values => cases h
        | nil =>
          cases h
          exact .unit (hid [] rfl) hc
      | ptr value =>
        rw [hc] at h
        cases value with
        | none => cases h
        | some v =>
          obtain ⟨l', h', h⟩ := ok_of_bind (x := getTypesFromValue objs depth v) h
          cases h
          exact .ptr (hid l' rfl) hc (ih h' fun hn => hl (List.mem_cons_of_mem _ hn))

theorem simple_of_getTypesFromValues {depth : Nat} {tup : List Nat} {l : List (Option String)}
    (h : getTypesFromValues objs depth tup = .ok l) (hl : none ∉ l) :
    ∀ r ∈ tup, Simple objs r := by
  induction tup generalizing l with
  | nil => exact fun r hr => (List.not_mem_nil hr).elim
  | cons v tup ih =>
    rw [getTypesFromValues] at h
    obtain ⟨l₁, h₁, h⟩ := ok_of_bind h
    obtain ⟨l₂, h₂, h⟩ := ok_of_bind h
    cases h
    intro r hr
    rcases List.mem_cons.mp hr with rfl | hr
    · exact simple_of_getTypesFromValue objs depth h₁ fun hn =>
        hl (List.mem_append_left _ hn)
    · exact ih h₂ (fun hn => hl (List.mem_append_right _ hn)) r hr

/-- From some depth on the ids of the value are collected, and they are ids in it. -/
def Collects (collect : Nat → Except Exc (List (Option String))) (Occurs : String → Prop) : Prop :=
  ∃ n l, (∀ depth, n ≤ depth → collect depth = .ok l) ∧ ∀ t ∈ l, ∃ i, t = some i ∧ Occurs i

theorem Simple.collects {r : Nat} (h : Simple objs r) :
    Collects (fun depth => getTypesFromValue objs depth r) (OccursIn objs r) := by
  induction h with
  | @long r i ht hc =>
    refine ⟨1, [some i], fun depth hd => ?_, fun t hm => ?_⟩
    · obtain ⟨d, rfl⟩ := Nat.exists_eq_add_of_le' hd
      show getTypesFromValue objs (d + 1) r = _
      rw [getTypesFromValue, ht, hc]
    · exact ⟨i, List.mem_singleton.mp hm, r, .here r, .inl ht⟩
  | @unit r i ht hc =>
    refine ⟨1, [some i], fun depth hd => ?_, fun t hm => ?_⟩
    · obtain ⟨d, rfl⟩ := Nat.exists_eq_add_of_le' hd
      show getTypesFromValue objs (d + 1) r = _
      rw [getTypesFromValue, ht, hc]
    · exact ⟨i, List.mem_singleton.mp hm, r, .here r, .inl ht⟩
  | @type r i t ht hc hid hs =>
    obtain ⟨l, hl, hi⟩ := getTypesFromType_bare ⟨hid, hs⟩
    refine ⟨1, some i :: l, fun depth hd => ?_, fun t' hm => ?_⟩
    · obtain ⟨d, rfl⟩ := Nat.exists_eq_add_of_le' hd
      show getTypesFromValue objs (d + 1) r = _
      rw [getTypesFromValue, ht, hc]
      exact bind_ok hl _
    · rcases List.mem_cons.mp hm with rfl | hm
      · exact ⟨i, rfl, r, .here r, .inl ht⟩
      · obtain ⟨j, hj, hm⟩ := hi t' hm
        exact ⟨j, hj, r, .here r, .inr ⟨t, hc, hm⟩⟩
  | @ptr r v i ht hc _ ih =>
    obtain ⟨n, l, hl, hi⟩ := ih
    refine ⟨n + 1, some i :: l, fun depth hd => ?_, fun t hm => ?_⟩
    · obtain ⟨d, rfl⟩ := Nat.exists_eq_add_of_le' (Nat.le_trans (Nat.le_add_left 1 n) hd)
      show getTypesFromValue objs (d + 1) r = _
      rw [getTypesFromValue, ht, hc]
      exact bind_ok (hl d (Nat.le_of_succ_le_succ hd)) _
    · rcases List.mem_cons.mp hm with rfl | hm
      · exact ⟨i, rfl, r, .here r, .inl ht⟩
      · obtain ⟨j, hj, r', hr', ho⟩ := hi t hm
        exact ⟨j, hj, r', .ptr hc hr', ho⟩

theorem getTypesFromValues_simple {tup : List Nat} (h : ∀ r ∈ tup, Simple objs r) :
    Collects (fun depth => getTypesFromValues objs depth tup)
      (fun i => ∃ r ∈ tup, OccursIn objs r i) := by
  induction tup with
  | nil => exact ⟨0, [], fun _ _ => rfl, fun t ht => (List.not_mem_nil ht).elim⟩
  | cons v tup ih =>
    obtain ⟨n₁, l₁, h₁, o₁⟩ := Simple.collects objs (h v List.mem_cons_self)
    obtain ⟨n₂, l₂, h₂, o₂⟩ := ih fun r hr => h r (List.mem_cons_of_mem _ hr)
    refine ⟨max n₁ n₂, l₁ ++ l₂, fun depth hd => ?_, fun t ht => ?_⟩
    · show getTypesFromValues objs depth (v :: tup) = _
      rw [getTypesFromValues, bind_ok (h₁ depth (by omega)), bind_ok (h₂ depth (by omega))]
    · rcases List.mem_append.mp ht with ht | ht
      · obtain ⟨i, hi, ho⟩ := o₁ t ht
        exact ⟨i, hi, v, List.mem_cons_self, ho⟩
      · obtain ⟨i, hi, r, hr, ho⟩ := o₂ t ht
        exact ⟨i, hi, r, List.mem_cons_of_mem _ hr, ho⟩

/-- A template is imported exactly where its values are simple and nothing has to be imported. -/
theorem imports_iff (generate : Nat → String) (remote : Option String → TypeValue)
    (tup : List Nat) (s : State) :
    Imports generate remote objs tup s ↔ (∀ r ∈ tup, Simple objs r) ∧
      ∀ i, Needs objs (definition remote s) tup i → (s.cache i).isSome = true := by
  constructor
  · intro ⟨depth, s', h, hn⟩
    unfold getTypesFromServer at h
    obtain ⟨l, s₁, hl, h⟩ := Eff.ok_of_andThen h
    obtain ⟨_, s₂, hf, h⟩ := Eff.ok_of_andThen h
    cases h
    have hv : getTypesFromValues objs depth tup = .ok l ∧ s = s₁ := by
      unfold Eff.look at hl
      exact ⟨(Prod.mk.inj hl).1, (Prod.mk.inj hl).2⟩
    obtain ⟨hv, rfl⟩ := hv
    obtain ⟨hf, rfl⟩ := found_of_lookupForeignTypes generate remote hf
    refine ⟨simple_of_getTypesFromValues objs hv fun hm => ?_, hn⟩
    obtain ⟨i, hi, -⟩ := hf none hm
    cases hi
  · intro ⟨hs, hn⟩
    obtain ⟨n, l, hl, ho⟩ := getTypesFromValues_simple objs hs
    refine ⟨n, s, ?_, hn⟩
    have hf : ∀ t ∈ l, Found s t := by
      intro t ht
      obtain ⟨i, rfl, r, hr, hi⟩ := ho t ht
      exact ⟨i, rfl, hn i (.here hr hi)⟩
    unfold getTypesFromServer
    rw [Eff.constant_ok (hl n (Nat.le_refl n))]
    rw [Eff.andThen_ok (lookupForeignTypes_ok generate remote hf)]
    rfl

end

/-- A template with a string in it, whose type is registered. -/
def stringObjects : Objects := fun _ => ⟨.string, some (some "Tstring")⟩

/-- Everything is registered. -/
def fullCache : State := ⟨fun _ => some ⟨none, none⟩, 0⟩

/-- A string cannot be imported, also where nothing is missing. -/
theorem string_not_imported :
    ¬ Imports (fun _ => "") (fun _ => ⟨none, none⟩) stringObjects [0] fullCache := by
  intro ⟨depth, s', h, _⟩
  cases depth with
  | zero => cases h
  | succ depth => cases h

end PyLinda.Types.Foreign
