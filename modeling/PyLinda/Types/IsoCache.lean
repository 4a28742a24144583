import PyLinda.Lib.Run
import PyLinda.Types.Agree
import PyLinda.Types.TypedMatch
import PyLinda.Types.Universe

/-!
# The saved converters

`iso_cache.py` over `type_cache.py`. A verdict on two types is saved under their ids, and it
stays when one of the types that it was made from is redefined: `updateType` does not call
`clearIsos`.
-/

namespace PyLinda.Types

open Lib

section
variable {δ : Type}

/-- `__cache` of `type_cache.py`, `none` once it was emptied, and `__cache` of `iso_cache.py`,
which is among the objects. -/
structure Caches (δ : Type) where
  types : Option TypeCache
  objects : Objects δ

/-- The calls. `registerType` comes with the id that `generate` makes. -/
inductive CacheAct where
  | registerType (id : String) (type : LindaType)
  | updateType (id : String) (type : LindaType)
  | lookupIso (t1 t2 : Option String)
  | clearIsos (t : Option String)
  | emptyIsoCache
  | emptyTypeCache

namespace Caches

/-- The server has just started. -/
def init : Caches δ := ⟨some fun _ => none, ⟨[], [], []⟩⟩

/-- What `lookupType` finds; in an emptied cache it finds nothing. -/
def cache (s : Caches δ) : TypeCache := s.types.getD fun _ => none

/-- `__cache[id] = [type, …]`; the emptied cache is not a dictionary. -/
def setType (s : Caches δ) (id : String) (type : LindaType) : Caches δ :=
  { s with types := s.types.map fun c i => if i = id then some type else c i }

def registerType (s : Caches δ) (id : String) (type : LindaType) : Caches δ := s.setType id type

/-- `updateType`: an id that is not there is not put there. The saved converters stay. -/
def updateType (s : Caches δ) (id : String) (type : LindaType) : Caches δ :=
  if (s.cache id).isSome then s.setType id type else s

/-- `clearIsos`. -/
def clearIsos (s : Caches δ) (t : Option String) : Caches δ :=
  { s with objects := { s.objects with
    isos := s.objects.isos.filter fun e => ¬ (e.1 = t ∨ e.2.1 = t) } }

/-- `emptyIsoCache` gives a value to a name of its own. -/
def emptyIsoCache (s : Caches δ) : Caches δ := s

def emptyTypeCache (s : Caches δ) : Caches δ := { s with types := none }

/-- One call. -/
def next (depth : Nat) (s : Caches δ) : CacheAct → Caches δ
  | .registerType id type => s.registerType id type
  | .updateType id type => s.updateType id type
  | .lookupIso t1 t2 => { s with objects := (Types.lookupIso s.cache depth t1 t2 s.objects).2 }
  | .clearIsos t => s.clearIsos t
  | .emptyIsoCache => s.emptyIsoCache
  | .emptyTypeCache => s.emptyTypeCache

/-- There is a type under the id. -/
def Registered (s : Caches δ) (t : Option String) : Prop := ∃ u, s.cache.lookupType t = .ok u

/-- New ids are new, and only registered ids are looked up. -/
def Issued (s : Caches δ) : CacheAct → Prop
  | .registerType id _ => s.cache id = none
  | .lookupIso t1 t2 => s.Registered t1 ∧ s.Registered t2
  | _ => True

def Step (depth : Nat) (s : Caches δ) (e : CacheAct) (s' : Caches δ) : Prop :=
  s.Issued e ∧ s' = s.next depth e

end Caches

/-- `compare(lookupType(t1), lookupType(t2))`. -/
def compareIds (c : TypeCache) (depth : Nat) (t1 t2 : Option String) :
    Except TypeExc (Option SavedIso) := do
  let t ← c.lookupType t1
  let t' ← c.lookupType t2
  let (f, s) ← compareTypes c depth t t' .init
  .ok (f.map fun f => ⟨f, s.codes⟩)

/-- `lookupIso` returns what the comparison of the types as they are now returns. -/
def Caches.Coherent (depth : Nat) (s : Caches δ) : Prop := ∀ t1 t2, s.Registered t1 →
  s.Registered t2 → (lookupIso s.cache depth t1 t2 s.objects).1 = compareIds s.cache depth t1 t2

/-! ## What a lookup does -/

section
variable {c : TypeCache} {depth : Nat} {t1 t2 : Option String} {o : Objects δ}

/-- `__cache[(t1, t2)]`. -/
def savedIso (t1 t2 : Option String) (o : Objects δ) :
    Except TypeExc (Option (Option SavedIso)) :=
  .ok ((o.isos.find? fun e => e.1 = t1 ∧ e.2.1 = t2).map fun e => e.2.2)

theorem savedIso_some {e : Option String × Option String × Option SavedIso}
    (h : (o.isos.find? fun e => e.1 = t1 ∧ e.2.1 = t2) = some e) :
    savedIso t1 t2 o = .ok (some e.2.2) := by
  unfold savedIso
  rw [h]
  rfl

theorem savedIso_none (h : (o.isos.find? fun e => e.1 = t1 ∧ e.2.1 = t2) = none) :
    savedIso t1 t2 o = .ok none := by
  unfold savedIso
  rw [h]
  rfl

theorem lookupIso_hit {e : Option String × Option String × Option SavedIso}
    (h : (o.isos.find? fun e => e.1 = t1 ∧ e.2.1 = t2) = some e) :
    lookupIso c depth t1 t2 o = (.ok e.2.2, o) := by
  refine (Eff.andThen_ok (Eff.look_ok (savedIso_some h)) _).trans ?_
  rfl

theorem lookupIso_raises {e : TypeExc} (h : (o.isos.find? fun e => e.1 = t1 ∧ e.2.1 = t2) = none)
    (hc : compareIds c depth t1 t2 = .error e) : lookupIso c depth t1 t2 o = (.error e, o) := by
  refine (Eff.andThen_ok (Eff.look_ok (savedIso_none h)) _).trans ?_
  unfold compareIds at hc
  cases ht : c.lookupType t1 with
  | error e' =>
    rw [ht] at hc
    cases hc
    exact Eff.constant_error rfl _ o
  | ok t =>
    rw [bind_ok ht] at hc
    cases ht' : c.lookupType t2 with
    | error e' =>
      rw [ht'] at hc
      cases hc
      exact (Eff.constant_ok rfl _ o).trans (Eff.constant_error rfl _ o)
    | ok t' =>
      rw [bind_ok ht'] at hc
      cases hr : compareTypes c depth t t' .init with
      | error e' =>
        rw [hr] at hc
        cases hc
        refine (Eff.constant_ok rfl _ o).trans ?_
        refine (Eff.constant_ok rfl _ o).trans ?_
        exact Eff.constant_error hr _ o
      | ok r =>
        rw [bind_ok hr] at hc
        cases hc

theorem lookupIso_saves {v : Option SavedIso}
    (h : (o.isos.find? fun e => e.1 = t1 ∧ e.2.1 = t2) = none)
    (hc : compareIds c depth t1 t2 = .ok v) :
    lookupIso c depth t1 t2 o = (.ok v, { o with isos := o.isos ++ [(t1, t2, v)] }) := by
  refine (Eff.andThen_ok (Eff.look_ok (savedIso_none h)) _).trans ?_
  unfold compareIds at hc
  obtain ⟨t, ht, hc⟩ := ok_of_bind hc
  obtain ⟨t', ht', hc⟩ := ok_of_bind hc
  obtain ⟨r, hr, hc⟩ := ok_of_bind hc
  cases hc
  refine (Eff.constant_ok ht _ o).trans ?_
  refine (Eff.constant_ok ht' _ o).trans ?_
  exact Eff.constant_ok hr _ o

end

/-! ## The types that a verdict was made from -/

/-- The id of a name that is not built in. -/
def TypeSpec.nameId : TypeSpec → Option String
  | .id n i => if n ∉ builtin then i else none
  | _ => none

/-- The ids that the names in a type stand for. -/
def LindaType.names (t : LindaType) : List String := t.typeSpec.subterms.filterMap TypeSpec.nameId

/-- The definition of `i`, or of an id that it leads to, has a name that stands for `j`. -/
inductive LeadsTo (c : TypeCache) (i : String) : String → Prop where
  | here : LeadsTo c i i
  | name {j k : String} {t : LindaType} :
      LeadsTo c i j → c j = some t → k ∈ t.names → LeadsTo c i k

/-- In the definitions that the two ids lead to. -/
def Met (c : TypeCache) (t1 t2 : Option String) (u : LindaType) : Prop :=
  ∃ i j root, (t1 = some i ∨ t2 = some i) ∧ LeadsTo c i j ∧ c j = some root ∧
    u ∈ typesWithin [root]

theorem lookupType_some {c : TypeCache} {i : String} {t : LindaType} (h : c i = some t) :
    c.lookupType (some i) = .ok t := by
  rw [TypeCache.lookupType, h]

/-- The specification of a type within another is in its specification. -/
theorem typeSpec_mem_subterms {root t : LindaType} (h : t ∈ typesWithin [root]) :
    t.typeSpec ∈ root.typeSpec.subterms := by
  obtain ⟨r, hr, ht⟩ := List.mem_flatMap.1 h
  rw [List.mem_singleton.1 hr] at ht
  cases List.mem_cons.1 ht with
  | inl ht =>
    rw [ht]
    exact root.typeSpec.self_mem_subterms
  | inr ht =>
    obtain ⟨s, hs, rfl⟩ := List.mem_map.1 ht
    exact hs

theorem met_lookup {c : TypeCache} {t1 t2 t : Option String} {u : LindaType}
    (ht : t1 = t ∨ t2 = t) (hu : c.lookupType t = .ok u) : Met c t1 t2 u := by
  obtain ⟨i, rfl, hi⟩ := lookupType_ok hu
  exact ⟨i, i, u, ht, .here, hi, mem_typesWithin List.mem_cons_self⟩

/-- Types that are not met may change. -/
theorem agrees_of_met {c c' : TypeCache} {t1 t2 : Option String}
    (h : ∀ i j u, (t1 = some i ∨ t2 = some i) → LeadsTo c i j → c j = some u → c' j = some u) :
    Agrees c c' (Met c t1 t2) where
  lookup t n i u ht hspec hn hu := by
    obtain ⟨i', j, root, hi', hlead, hroot, ht⟩ := ht
    obtain ⟨k, rfl, hk⟩ := lookupType_ok hu
    have hname : k ∈ root.names := by
      refine List.mem_filterMap.2 ⟨t.typeSpec, ?_, ?_⟩
      · exact typeSpec_mem_subterms ht
      · rw [hspec]
        exact if_pos hn
    have hk' := hlead.name hroot hname
    refine ⟨?_, i', k, u, hi', hk', hk, mem_typesWithin List.mem_cons_self⟩
    exact lookupType_some (h i' k u hi' hk' hk)
  items t ht e he := by
    obtain ⟨i, j, root, hi, hlead, hroot, ht⟩ := ht
    obtain ⟨s, hs, rfl⟩ := mem_items he
    exact ⟨i, j, root, hi, hlead, hroot, branch_mem ht hs⟩
  arg t a r ht hspec := by
    obtain ⟨i, j, root, hi, hlead, hroot, ht⟩ := ht
    refine ⟨i, j, root, hi, hlead, hroot, branch_mem ht ?_⟩
    rw [hspec]
    exact List.mem_cons_of_mem _ (List.mem_append_left _ a.self_mem_subterms)
  result t a r ht hspec := by
    obtain ⟨i, j, root, hi, hlead, hroot, ht⟩ := ht
    refine ⟨i, j, root, hi, hlead, hroot, branch_mem ht ?_⟩
    rw [hspec]
    exact List.mem_cons_of_mem _ (List.mem_append_right _ r.self_mem_subterms)

/-- What the two ids are compared as depends on the definitions that they lead to. -/
theorem compareIds_follows {c c' : TypeCache} {depth : Nat} {t1 t2 : Option String}
    (h : ∀ i j u, (t1 = some i ∨ t2 = some i) → LeadsTo c i j → c j = some u → c' j = some u) :
    Follows (fun _ => True) (compareIds c depth t1 t2) (compareIds c' depth t1 t2) := by
  have hlook (t : Option String) (ht : t1 = t ∨ t2 = t) :
      Follows (Met c t1 t2) (c.lookupType t) (c'.lookupType t) := by
    intro u hu
    refine ⟨?_, met_lookup ht hu⟩
    obtain ⟨i, rfl, hi⟩ := lookupType_ok hu
    exact lookupType_some (h i i u ht .here hi)
  refine (hlook t1 (.inl rfl)).bind fun u1 h1 => ?_
  refine (hlook t2 (.inr rfl)).bind fun u2 h2 => ?_
  exact (compareTypes_follows (agrees_of_met h) depth u1 u2 _ h1 h2).bind fun _ _ => .same _

/-! ## Runs -/

namespace Caches

/-- The id is redefined only if none of the saved verdicts got to its definition, unless the
definition stays. -/
def Undisturbed (s : Caches δ) : CacheAct → Prop
  | .updateType id type => s.cache id = none ∨ s.cache id = some type ∨
    ∀ e ∈ s.objects.isos, ∀ i, (e.1 = some i ∨ e.2.1 = some i) → ¬ LeadsTo s.cache i id
  | _ => True

/-- The saved verdicts are the ones of today, as long as there are types. -/
def Current (depth : Nat) (s : Caches δ) : Prop := s.types.isSome → ∀ e ∈ s.objects.isos,
  compareIds s.cache depth e.1 e.2.1 = .ok e.2.2

variable {depth : Nat} {s : Caches δ}

theorem setType_cache (h : s.types.isSome) (id : String) (type : LindaType) (i : String) :
    (s.setType id type).cache i = if i = id then some type else s.cache i := by
  obtain ⟨c, hc⟩ := Option.isSome_iff_exists.1 h
  unfold setType cache
  rw [hc]
  rfl

theorem setType_isSome {id : String} {type : LindaType} (h : (s.setType id type).types.isSome) :
    s.types.isSome := by
  unfold setType at h
  rw [Option.isSome_map] at h
  exact h

/-- Setting a type that no saved verdict depends on. -/
theorem Current.setType (h : s.Current depth) {id : String} {type : LindaType}
    (hid : ∀ e ∈ s.objects.isos, ∀ i u, (e.1 = some i ∨ e.2.1 = some i) →
      LeadsTo s.cache i id → s.cache id = some u → type = u) :
    (s.setType id type).Current depth := by
  intro hsome e he
  have hs := setType_isSome hsome
  refine (compareIds_follows (c := s.cache) ?_ e.2.2 (h hs e he)).1
  intro i j u hi hlead hu
  rw [setType_cache hs]
  by_cases hj : j = id
  · rw [if_pos hj, hid e he i u hi (hj ▸ hlead) (hj ▸ hu)]
  · rw [if_neg hj]
    exact hu

theorem Current.registerType (h : s.Current depth) {id : String} (hid : s.cache id = none)
    (type : LindaType) : (s.registerType id type).Current depth := by
  apply h.setType
  intro e _ i u _ _ hu
  rw [hid] at hu
  cases hu

theorem Current.updateType (h : s.Current depth) {id : String} {type : LindaType}
    (hid : s.Undisturbed (.updateType id type)) : (s.updateType id type).Current depth := by
  unfold Caches.updateType
  by_cases hs : (s.cache id).isSome = true
  · rw [if_pos hs]
    apply h.setType
    intro e he i u hi hlead hu
    cases hid with
    | inl hnone =>
      rw [hnone] at hu
      cases hu
    | inr hid =>
      cases hid with
      | inl hsame =>
        rw [hsame] at hu
        exact Option.some.inj hu
      | inr hfar => exact absurd hlead (hfar e he i hi)
  · rw [if_neg hs]
    exact h

theorem Current.lookupIso (h : s.Current depth) (t1 t2 : Option String) :
    (s.next depth (.lookupIso t1 t2)).Current depth := by
  intro hs e he
  change e ∈ (Types.lookupIso s.cache depth t1 t2 s.objects).2.isos at he
  cases hf : s.objects.isos.find? fun e => e.1 = t1 ∧ e.2.1 = t2 with
  | some e' =>
    rw [lookupIso_hit hf] at he
    exact h hs e he
  | none =>
    cases hc : compareIds s.cache depth t1 t2 with
    | error err =>
      rw [lookupIso_raises hf hc] at he
      exact h hs e he
    | ok v =>
      rw [lookupIso_saves hf hc] at he
      cases List.mem_append.1 he with
      | inl he => exact h hs e he
      | inr he =>
        rw [List.mem_singleton.1 he]
        exact hc

theorem Current.clearIsos (h : s.Current depth) (t : Option String) :
    (s.clearIsos t).Current depth :=
  fun hs e he => h hs e (List.mem_of_mem_filter he)

/-- One call keeps the saved verdicts current. -/
theorem Current.step (h : s.Current depth) {e : CacheAct} {s' : Caches δ} (hC : s.Undisturbed e)
    (hs : s.Step depth e s') : s'.Current depth := by
  obtain ⟨hissued, rfl⟩ := hs
  cases e with
  | registerType id type => exact h.registerType hissued type
  | updateType id type => exact h.updateType hC
  | lookupIso t1 t2 => exact h.lookupIso t1 t2
  | clearIsos t => exact h.clearIsos t
  | emptyIsoCache => exact h
  | emptyTypeCache =>
    intro hs
    cases hs

theorem isSome_of_registered {t : Option String} (h : s.Registered t) : s.types.isSome := by
  obtain ⟨u, hu⟩ := h
  obtain ⟨i, rfl, hi⟩ := lookupType_ok hu
  unfold cache at hi
  cases hs : s.types with
  | none =>
    rw [hs] at hi
    cases hi
  | some c => rfl

/-- A current table answers as the comparison does. -/
theorem Current.coherent (h : s.Current depth) : s.Coherent depth := by
  intro t1 t2 h1 _
  cases hf : s.objects.isos.find? fun e => e.1 = t1 ∧ e.2.1 = t2 with
  | some e =>
    rw [lookupIso_hit hf]
    have hkey := List.find?_some hf
    obtain ⟨rfl, rfl⟩ := of_decide_eq_true hkey
    exact (h (isSome_of_registered h1) e (List.mem_of_find?_eq_some hf)).symm
  | none =>
    cases hc : compareIds s.cache depth t1 t2 with
    | error err => rw [lookupIso_raises hf hc]
    | ok v => rw [lookupIso_saves hf hc]

end Caches

/-- As long as no definition is replaced that a saved verdict was made from, every lookup
returns what the types of the moment compare to. -/
theorem isoCache_coherent {depth : Nat} {tr : List (Caches δ × CacheAct)} {s : Caches δ}
    (hrun : Lib.Run (Caches.Step depth) .init tr s) (hC : ∀ x ∈ tr, x.1.Undisturbed x.2) :
    Throughout (Caches.Coherent depth) tr s := by
  have hinit : (Caches.init : Caches δ).Current depth := fun _ e he => by cases he
  have hcur := hrun.throughout (fun _ _ _ hI hC hs => Caches.Current.step hI hC hs) hinit hC
  exact ⟨fun x hx => (hcur.1 x hx).coherent, hcur.2.coherent⟩

end

/-- A type that is another name of a built-in type. -/
def aliasOf (name string : String) : LindaType := ⟨name, .id string none, none⟩

/-- Two types that do not match are registered and looked up. -/
def lookedUp : List CacheAct :=
  [.registerType "T1" (aliasOf "a" "int32"), .registerType "T2" (aliasOf "b" "string"),
    .lookupIso (some "T1") (some "T2")]

theorem acts_run (acts : List CacheAct)
    (h : ∀ x ∈ trace (Caches.next 3) (.init : Caches Unit) acts, x.1.Issued x.2) :
    Lib.Run (Caches.Step 3) Caches.init (trace (Caches.next 3) (.init : Caches Unit) acts)
      (exec (Caches.next 3) .init acts) :=
  Run.of_exec fun x hx => ⟨h x hx, rfl⟩

/-- A type without names leads nowhere. -/
theorem eq_of_leadsTo {c : TypeCache} {i j : String} (h : LeadsTo c i j)
    (hi : ∀ t, c i = some t → t.names = []) : j = i := by
  induction h with
  | here => rfl
  | name _ hc hk ih =>
    subst ih
    rw [hi _ hc] at hk
    cases hk

/-- A third type is registered and redefined. -/
def elsewhere : List CacheAct := lookedUp ++
  [.registerType "T3" (aliasOf "c" "bool"), .updateType "T3" (aliasOf "c" "int8")]

theorem isoCache_coherent_elsewhere : Throughout (Caches.Coherent 3)
    (trace (Caches.next 3) (.init : Caches Unit) elsewhere) (exec (Caches.next 3) .init elsewhere) := by
  apply isoCache_coherent
  · apply acts_run
    intro x hx
    simp only [elsewhere, lookedUp, trace, List.cons_append, List.nil_append, List.mem_cons,
      List.not_mem_nil, or_false] at hx
    obtain rfl | rfl | rfl | rfl | rfl := hx
    · rfl
    · rfl
    · exact ⟨⟨_, rfl⟩, _, rfl⟩
    · rfl
    · trivial
  · intro x hx
    simp only [elsewhere, lookedUp, trace, List.cons_append, List.nil_append, List.mem_cons,
      List.not_mem_nil, or_false] at hx
    obtain rfl | rfl | rfl | rfl | rfl := hx
    · trivial
    · trivial
    · trivial
    · trivial
    · refine .inr (.inr fun e he i hi hlead => ?_)
      have hkey : e ∈ [(some "T1", some "T2", (none : Option SavedIso))] := he
      rw [List.mem_singleton.1 hkey] at hi
      obtain hi | hi := hi
      · cases hi
        exact absurd (eq_of_leadsTo hlead fun t ht => by cases ht; rfl) (by decide)
      · cases hi
        exact absurd (eq_of_leadsTo hlead fun t ht => by cases ht; rfl) (by decide)

/-- The saved verdict outlives the definition that it was made from. -/
theorem isoCache_stale : ∃ (tr : List (Caches Unit × CacheAct)) (s : Caches Unit),
    Lib.Run (Caches.Step 3) .init tr s ∧ s.Registered (some "T1") ∧ s.Registered (some "T2") ∧
      (lookupIso s.cache 3 (some "T1") (some "T2") s.objects).1 = .ok none ∧
      ∃ v, compareIds s.cache 3 (some "T1") (some "T2") = .ok (some v) := by
  refine ⟨_, _, acts_run (lookedUp ++ [.updateType "T2" (aliasOf "b" "int32")]) ?_,
    ⟨_, rfl⟩, ⟨_, rfl⟩, rfl, _, rfl⟩
  intro x hx
  simp only [lookedUp, trace, List.cons_append, List.nil_append, List.mem_cons,
    List.not_mem_nil, or_false] at hx
  obtain rfl | rfl | rfl | rfl := hx
  · rfl
  · rfl
  · exact ⟨⟨_, rfl⟩, _, rfl⟩
  · trivial

end PyLinda.Types
