import PyLinda.Types.AutoRegister

/-!
# Structural equality, and registering

Structural equality is the largest relation that is closed. Registering leaves the types that were
in the cache alone, and gives out ids that were not in use.
-/

namespace PyLinda.Types.Auto

open Lib

/-! ## Structural equality -/

mutual

theorem Matches.mono {R R' : Nat → String → Prop} (h : ∀ a i, R a i → R' a i)
    {typemap : String → Option Nat} : ∀ {spec spec' : TypeSpec},
    Matches R typemap spec spec' → Matches R' typemap spec spec'
  | .nil, .nil, _ => trivial
  | .id n _, .id m i, hm => by
    unfold Matches at hm ⊢
    by_cases hn : n ∈ builtin
    · rw [if_pos hn] at hm ⊢
      exact hm
    · rw [if_neg hn] at hm ⊢
      obtain ⟨hb, a, j, ha, hi, hr⟩ := hm
      exact ⟨hb, a, j, ha, hi, h a j hr⟩
  | .product branches, .product branches', hm | .sum branches, .sum branches', hm => by
    have hb : AllMatch R typemap branches branches' := hm
    exact AllMatch.mono h hb
  | .pointer _ _, .pointer _ _, ⟨a, j, ha, hi, hr⟩ => ⟨a, j, ha, hi, h a j hr⟩
  | .function _ _, .function _ _, ⟨ha, hr⟩ => ⟨ha.mono h, hr.mono h⟩

theorem AllMatch.mono {R R' : Nat → String → Prop} (h : ∀ a i, R a i → R' a i)
    {typemap : String → Option Nat} : ∀ {specs specs' : List TypeSpec},
    AllMatch R typemap specs specs' → AllMatch R' typemap specs specs'
  | [], [], _ => trivial
  | _ :: _, _ :: _, ⟨hm, hms⟩ => ⟨hm.mono h, AllMatch.mono h hms⟩

end

theorem AllMatch.length {R : Nat → String → Prop} {typemap : String → Option Nat}
    {specs specs' : List TypeSpec} (h : AllMatch R typemap specs specs') :
    specs.length = specs'.length := by
  induction specs generalizing specs' with
  | nil =>
    cases specs' with
    | nil => rfl
    | cons spec' specs' => exact h.elim
  | cons spec specs ih =>
    cases specs' with
    | nil => exact h.elim
    | cons spec' specs' => exact congrArg (· + 1) (ih h.2)

theorem AllMatch.get {R : Nat → String → Prop} {typemap : String → Option Nat}
    {specs specs' : List TypeSpec} (h : AllMatch R typemap specs specs') {k : Nat}
    {spec spec' : TypeSpec} (hk : specs[k]? = some spec) (hk' : specs'[k]? = some spec') :
    Matches R typemap spec spec' := by
  induction specs generalizing specs' k with
  | nil => cases hk
  | cons a specs ih =>
    cases specs' with
    | nil => cases hk'
    | cons a' specs' =>
      cases k with
      | zero =>
        cases hk
        cases hk'
        exact h.1
      | succ k => exact ih h.2 hk hk'

theorem AllSettled.get {generate : Nat → String} {specs : List TypeSpec}
    (h : AllSettled generate specs) {k : Nat} {spec : TypeSpec} (hk : specs[k]? = some spec) :
    Settled generate spec := by
  induction specs generalizing k with
  | nil => cases hk
  | cons a specs ih =>
    cases k with
    | zero =>
      cases hk
      exact h.1
    | succ k => exact ih h.2 hk

namespace Registry

variable {g : Registry}

theorem mem_of_lookup {i : String} {t : LindaType} (h : g.types.lookup i = some t) :
    (i, t) ∈ g.types := by
  obtain ⟨l, r, he, -⟩ := List.lookup_eq_some_iff.mp h
  rw [he]
  exact List.mem_append_right _ List.mem_cons_self

theorem ne_generated {i : String} {t : LindaType} (h : g.types.lookup i = some t) (n : Nat) :
    i ≠ "T" ++ g.generate n := g.unused _ (mem_of_lookup h) n

variable (objs : Objects)

theorem pairEqual_of_equal {a : Nat} {i : String} (h : g.Equal objs a i) :
    ∃ t, g.types.lookup i = some t ∧ g.PairEqual objs ⟨a, (objs a).typeSpec, t⟩ := by
  obtain ⟨R, hR, hr⟩ := h
  obtain ⟨t, ht, hn, hm⟩ := hR a i hr
  exact ⟨t, ht, hn, hm.mono fun b j hj => ⟨R, hR, hj⟩⟩

theorem equal_of_pairEqual {a : Nat} {i : String} {t : LindaType}
    (ht : g.types.lookup i = some t) (h : g.PairEqual objs ⟨a, (objs a).typeSpec, t⟩) :
    g.Equal objs a i := by
  refine ⟨fun b j => g.Equal objs b j ∨ (b = a ∧ j = i), ?_, .inr ⟨rfl, rfl⟩⟩
  intro b j hb
  rcases hb with hb | ⟨rfl, rfl⟩
  · obtain ⟨u, hu, hn, hm⟩ := pairEqual_of_equal objs hb
    exact ⟨u, hu, hn, hm.mono fun _ _ h => .inl h⟩
  · exact ⟨t, ht, h.1, h.2.mono fun _ _ h => .inl h⟩

end Registry

/-! ## The cache -/

section
variable (g : Registry)

/-- The types that were in the cache are still there, the others were registered since. -/
structure Kept (s : State) : Prop where
  old : ∀ i t, g.types.lookup i = some t → s.cache i = some (.old t)
  new : ∀ i k, g.types.lookup i = none → s.cache i = some k →
    (∃ n, i = "T" ++ g.generate n) ∧ ∃ p, k = .new p

theorem kept_start (ids : Nat → List Nat → Option String) : Kept g (g.start ids) where
  old i t h := by
    show (g.types.lookup i).map Known.old = _
    rw [h]
    rfl
  new i k h hk := by
    have hc : (g.types.lookup i).map Known.old = some k := hk
    rw [h] at hc
    cases hc

variable {g}

theorem Kept.congr {s s' : State} (h : Kept g s) (hc : s'.cache = s.cache) : Kept g s' :=
  ⟨fun i t hi => by rw [hc]; exact h.old i t hi, fun i k hi hk => h.new i k hi (by rwa [hc] at hk)⟩

theorem Kept.put {s : State} (h : Kept g s) {id : String} (hid : ∃ n, id = "T" ++ g.generate n)
    (p : Part) : Kept g (put id (.new p) s) := by
  obtain ⟨n, rfl⟩ := hid
  constructor
  · intro i t hi
    show (if i = _ then _ else s.cache i) = _
    rw [if_neg (Registry.ne_generated hi n)]
    exact h.old i t hi
  · intro i k hi hk
    have hk : (if i = "T" ++ g.generate n then some (Known.new p) else s.cache i) = some k := hk
    by_cases he : i = "T" ++ g.generate n
    · rw [if_pos he] at hk
      exact ⟨⟨n, he⟩, p, (Option.some.inj hk).symm⟩
    · rw [if_neg he] at hk
      exact h.new i k hi hk

/-! ## Registering -/

variable (g) in
/-- The comparisons are where they were, and the types that were in the cache. -/
def Quiet (s s' : State) : Prop :=
  (Kept g s → Kept g s') ∧ s'.live = s.live ∧ s'.answered = s.answered

theorem Quiet.refl (s : State) : Quiet g s s := ⟨id, rfl, rfl⟩

theorem Quiet.trans (a b c : State) (h : Quiet g a b) (h' : Quiet g b c) : Quiet g a c :=
  ⟨h'.1 ∘ h.1, h'.2.1.trans h.2.1, h'.2.2.trans h.2.2⟩

theorem Quiet.of_cache {s s' : State} (hc : s'.cache = s.cache) (hl : s'.live = s.live)
    (ha : s'.answered = s.answered) : Quiet g s s' := ⟨fun h => h.congr hc, hl, ha⟩

variable (g) in
def Generated (id : String) : Prop := ∃ n, id = "T" ++ g.generate n

/-- The ids that were given to the types of these names. -/
def AllGenerated (g : Registry) (memo : Names) : Prop := ∀ e ∈ memo, Generated g e.2

theorem Generated.lookup {id : String} (h : Generated g id) : g.types.lookup id = none := by
  obtain ⟨n, rfl⟩ := h
  cases ht : g.types.lookup ("T" ++ g.generate n) with
  | none => rfl
  | some t => exact absurd rfl (Registry.ne_generated ht n)

variable (g) in
/-- It registers: the ids that it returns were generated. -/
def Registers (register : Nat → Names → Run (String × Names)) : Prop :=
  ∀ a memo, AllGenerated g memo →
    Eff.Yields (Quiet g) (fun r => Generated g r.1 ∧ AllGenerated g r.2) (register a memo)

variable (objs : Objects)

theorem registerType_yields (a : Nat) :
    Eff.Yields (Quiet g) (Generated g) (registerType objs g.generate a) := by
  intro s id s' h
  cases h
  refine ⟨⟨fun hk => ?_, rfl, rfl⟩, s.generated, rfl⟩
  refine Kept.put (Kept.congr hk ?_) ⟨s.generated, rfl⟩ (root objs a)
  rfl

theorem updateType_yields {id : String} (h : Generated g id) (a : Nat) :
    Eff.Yields (Quiet g) (fun _ => True) (updateType objs id a) := by
  refine Eff.Yields.andThen Quiet.trans (P := fun _ => True) ?_ fun _ _ => ?_
  · exact Eff.Yields.look Quiet.refl fun _ _ _ => trivial
  · exact Eff.Yields.update fun s => ⟨fun hk => hk.put h (root objs a), rfl, rfl⟩

theorem subscript_yields (a : Nat) (n : String) :
    Eff.Yields (Quiet g) (fun _ => True) (Eff.look fun _ => subscript objs a n) :=
  Eff.Yields.look Quiet.refl fun _ _ _ => trivial

theorem setIdTypeId_yields (a : Nat) (path : List Nat) (id : String) :
    Eff.Yields (Quiet g) (fun _ => True) (setIdTypeId a path id) :=
  Eff.Yields.update fun _ => Quiet.of_cache rfl rfl rfl

/-- Where a name or a pointer stands for a type, that is registered. -/
theorem registerName_yields {register : Nat → Names → Run (String × Names)}
    (hr : Registers g register) (a : Nat) (path : List Nat) (n : String) {memo : Names}
    (h : AllGenerated g memo) :
    Eff.Yields (Quiet g) (AllGenerated g) (registerName objs register a path n memo) := by
  unfold registerName
  refine Eff.Yields.andThen Quiet.trans (subscript_yields objs a n) fun b _ => ?_
  refine Eff.Yields.andThen Quiet.trans (hr b memo h) fun r hg => ?_
  refine Eff.Yields.andThen Quiet.trans (setIdTypeId_yields a path r.1) fun _ _ => ?_
  exact Eff.Yields.ret Quiet.refl hg.2

mutual

theorem registerAllTypes2_yields {register : Nat → Names → Run (String × Names)}
    (hr : Registers g register) (a : Nat) : ∀ (spec : TypeSpec) (path : List Nat) (memo : Names),
    AllGenerated g memo →
    Eff.Yields (Quiet g) (AllGenerated g) (registerAllTypes2 objs register a path spec memo)
  | .nil, path, memo, h => by
    rw [registerAllTypes2]
    exact Eff.Yields.ret Quiet.refl h
  | .id n i, path, memo, h => by
    rw [registerAllTypes2]
    by_cases hn : n ∈ builtin
    · rw [if_pos hn]
      exact Eff.Yields.ret Quiet.refl h
    · rw [if_neg hn]
      exact registerName_yields objs hr a path n h
  | .product branches, path, memo, h | .sum branches, path, memo, h => by
    rw [registerAllTypes2]
    exact registerBranches_yields hr a branches path 0 memo h
  | .pointer n i, path, memo, h => by
    rw [registerAllTypes2]
    exact registerName_yields objs hr a path n h
  | .function arg result, path, memo, h => by
    rw [registerAllTypes2]
    exact Eff.Yields.raise _

theorem registerBranches_yields {register : Nat → Names → Run (String × Names)}
    (hr : Registers g register) (a : Nat) : ∀ (specs : List TypeSpec) (path : List Nat) (k : Nat)
    (memo : Names), AllGenerated g memo →
    Eff.Yields (Quiet g) (AllGenerated g) (registerBranches objs register a path k specs memo)
  | [], path, k, memo, h => by
    rw [registerBranches]
    exact Eff.Yields.ret Quiet.refl h
  | spec :: specs, path, k, memo, h => by
    rw [registerBranches]
    refine Eff.Yields.andThen Quiet.trans
      (registerAllTypes2_yields hr a spec (path ++ [k]) memo h) fun memo h => ?_
    exact registerBranches_yields hr a specs path (k + 1) memo h

end

theorem registerAllTypes_registers (depth : Nat) :
    Registers g (registerAllTypes objs g.generate depth) := by
  induction depth with
  | zero => exact fun a memo _ => Eff.Yields.raise _
  | succ depth ih =>
    intro a memo h
    rw [registerAllTypes]
    cases hl : memo.lookup (objs a).typeName with
    | some id =>
      obtain ⟨l, r, he, -⟩ := List.lookup_eq_some_iff.mp hl
      refine Eff.Yields.ret Quiet.refl ⟨h ((objs a).typeName, id) ?_, h⟩
      rw [he]
      exact List.mem_append_right _ List.mem_cons_self
    | none =>
      refine Eff.Yields.andThen Quiet.trans (registerType_yields objs a) fun id hid => ?_
      refine Eff.Yields.andThen Quiet.trans
        (registerAllTypes2_yields objs ih a _ [] _ ?_) fun memo hm => ?_
      · intro e he
        rcases List.mem_cons.mp he with rfl | he
        · exact hid
        · exact h e he
      refine Eff.Yields.andThen Quiet.trans (P := fun _ => True) ?_ fun _ _ => ?_
      · exact Eff.Yields.update fun _ => Quiet.of_cache rfl rfl rfl
      refine Eff.Yields.andThen Quiet.trans (updateType_yields objs hid a) fun _ _ => ?_
      exact Eff.Yields.ret Quiet.refl ⟨hid, hm⟩

end

end PyLinda.Types.Auto
