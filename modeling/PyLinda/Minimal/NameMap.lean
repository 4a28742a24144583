/-!
# The map of names

`syntax_map.c`: a binary tree of names and values, larger names on the left. A deleted name
leaves its node behind without a name. `strcmp` is any function that has the sign the C
standard asks for.
-/

namespace PyLinda

/-- The sign of `strcmp`; nothing is said about the size of the number. -/
structure Conforming (strcmp : String → String → Int) : Prop where
  neg : ∀ a b, strcmp a b < 0 ↔ a < b
  zero : ∀ a b, strcmp a b = 0 ↔ a = b

theorem Conforming.pos {strcmp : String → String → Int} (hc : Conforming strcmp) {a b : String} : strcmp a b > 0 ↔ b < a := by
  have hneg := hc.neg a b
  have hzero := hc.zero a b
  constructor
  · intro h
    have hne : ¬ a = b := fun he => by
      have := hzero.2 he
      omega
    have hnl : ¬ a < b := fun hl => by
      have := hneg.2 hl
      omega
    exact Decidable.byContradiction fun hba => hne (String.le_antisymm hba hnl)
  · intro h
    have hnl : ¬ strcmp a b < 0 := fun hl => String.lt_irrefl a (String.lt_trans (hneg.1 hl) h)
    have hnz : ¬ strcmp a b = 0 := fun hz => String.lt_irrefl a (by
      have he := hzero.1 hz
      subst he
      exact h)
    omega

/-- A `Minimal_NameValueMap*`. -/
inductive NameMap (V : Type) where
  | null
  | node (name : Option String) (value : Option V) (left right : NameMap V)

namespace NameMap

section
variable {V : Type} (strcmp : String → String → Int)

/-- `Minimal_SyntaxMap_init`. -/
def init : NameMap V := .node none none .null .null

/-- `child && test(strcmp(child->name, name))`; a node without a name has `NULL` there. -/
def beyond (test : Int → Bool) (name : String) : NameMap V → Option Bool
  | .null => some false
  | .node none _ _ _ => none
  | .node (some m) _ _ _ => some (test (strcmp m name))

/-- `Minimal_addName` with a name and a value; `none` is a crash. A child that is missing is
made, and filled at once. -/
def addName : NameMap V → String → V → Option (NameMap V)
  | .null, _, _ => some .null
  | .node none v l r, name, tree =>
    if name = "" then none
    else match beyond strcmp (· < 0) name l with
      | none => none
      | some true => (addName l name tree).map fun l => .node none v l r
      | some false =>
        match beyond strcmp (· > 0) name r with
        | none => none
        | some true => (addName r name tree).map fun r => .node none v l r
        | some false => some (.node (some name) (some tree) l r)
  | .node (some m) v l r, name, tree =>
    if name = "" then none
    else if strcmp m name = 0 then some (.node (some m) (some tree) l r)
    else if strcmp m name = -1 then
      match l with
      | .null => some (.node (some m) v (.node (some name) (some tree) .null .null) r)
      | .node n u ll lr => (addName (.node n u ll lr) name tree).map fun l => .node (some m) v l r
    else if strcmp m name = 1 then
      match r with
      | .null => some (.node (some m) v l (.node (some name) (some tree) .null .null))
      | .node n u rl rr => (addName (.node n u rl rr) name tree).map fun r => .node (some m) v l r
    else some (.node (some m) v l r) -- "This should never happen."

/-- `Minimal_getName2`. -/
def getName2 : NameMap V → String → Option V
  | .null, _ => none
  | .node none _ l r, name =>
    match getName2 l name with
    | none => getName2 r name
    | some v => some v
  | .node (some m) v l r, name =>
    if strcmp m name = 0 then v
    else if strcmp m name < 0 then getName2 l name
    else if strcmp m name > 0 then getName2 r name
    else none

/-- `Minimal_delName`; both of the last branches go to the left. -/
def delName : NameMap V → String → NameMap V
  | .null, _ => .null
  | .node none v l r, _ => .node none v l r
  | .node (some m) v l r, name =>
    if strcmp m name = 0 then .node none none l r
    else if strcmp m name < 0 then .node (some m) v (delName l name) r
    else if strcmp m name > 0 then .node (some m) v (delName l name) r
    else .node (some m) v l r

/-- `Minimal_SyntaxMap_size`. -/
def size : NameMap V → Nat
  | .null => 0
  | .node name _ l r => size l + size r + if name.isSome then 1 else 0

end

/-- The names in the tree. -/
def names {V : Type} : NameMap V → List String
  | .null => []
  | .node name _ l r => names l ++ name.toList ++ names r

/-! ## What a map is for -/

/-- A call of `Minimal_addName` or `Minimal_delName`. -/
inductive Op (V : Type) where
  | add (name : String) (value : V)
  | del (name : String)

def Op.name {V : Type} : Op V → String
  | .add name _ => name
  | .del name => name

section
variable {V : Type}

/-- What the names stand for after a call. -/
def Op.after (f : String → Option V) : Op V → String → Option V
  | .add n v, name => if name = n then some v else f name
  | .del n, name => if name = n then none else f name

/-- What the names stand for after these calls. -/
def bound (ops : List (Op V)) : String → Option V := ops.foldl Op.after fun _ => none

section
variable (strcmp : String → String → Int)

def Op.run (map : NameMap V) : Op V → Option (NameMap V)
  | .add n v => addName strcmp map n v
  | .del n => some (delName strcmp map n)

/-- The map after these calls; `none` is a crash. -/
def runs (ops : List (Op V)) : Option (NameMap V) := ops.foldlM (Op.run strcmp) init

/-- `Minimal_addName` finds the right place: `strcmp` says -1 or 1 on the way there, and where a
node has lost its name, its children have theirs, and show on which side the name is, or that
it fits between them. -/
def AddOk : NameMap V → String → Prop
  | .null, _ => True
  | .node none _ l r, name =>
    beyond strcmp (· < 0) name l = some true ∧ AddOk l name ∧ name ∉ r.names ∨
    beyond strcmp (· < 0) name l = some false ∧ beyond strcmp (· > 0) name r = some true ∧
      AddOk r name ∧ name ∉ l.names ∨
    beyond strcmp (· < 0) name l = some false ∧ beyond strcmp (· > 0) name r = some false ∧
      (∀ n ∈ l.names, name < n) ∧ ∀ n ∈ r.names, n < name
  | .node (some m) _ l r, name =>
    m = name ∨ m < name ∧ strcmp m name = -1 ∧ AddOk l name ∨
      name < m ∧ strcmp m name = 1 ∧ AddOk r name

/-- `Minimal_delName` finds the name, if it is there: it is not on a right side, and not behind
a node that has lost its name. -/
def DelOk : NameMap V → String → Prop
  | .null, _ => True
  | .node none _ l r, name => name ∉ l.names ∧ name ∉ r.names
  | .node (some m) _ l r, name => m = name ∨ m < name ∧ DelOk l name ∨ name < m ∧ name ∉ r.names

def Op.Ok (map : NameMap V) : Op V → Prop
  | .add n _ => AddOk strcmp map n
  | .del n => DelOk map n

/-- Looking up gives what the names stand for, and the size is their number. -/
structure Refines (map : NameMap V) (f : String → Option V) : Prop where
  get : ∀ name, getName2 strcmp map name = f name
  size : ∃ l : List String, l.Nodup ∧ (∀ name, name ∈ l ↔ (f name).isSome) ∧ size map = l.length

end

/-- Larger names are on the left of a name, smaller ones on the right; without a name there is
no order, but no name is on both sides. -/
def Ordered : NameMap V → Prop
  | .null => True
  | .node none _ l r => (∀ n ∈ l.names, n ∉ r.names) ∧ Ordered l ∧ Ordered r
  | .node (some m) v l r => v.isSome ∧ (∀ n ∈ l.names, m < n) ∧ (∀ n ∈ r.names, n < m) ∧
    Ordered l ∧ Ordered r

/-! ## Looking up -/

theorem Ordered.nodup {map : NameMap V} (h : Ordered map) : map.names.Nodup := by
  induction map with
  | null => exact List.Pairwise.nil
  | node name v l r ihl ihr =>
    cases name with
    | none =>
      show (l.names ++ [] ++ r.names).Nodup
      rw [List.append_nil]
      exact List.nodup_append.2 ⟨ihl h.2.1, ihr h.2.2, fun a ha b hb he => h.1 a ha (he ▸ hb)⟩
    | some m =>
      obtain ⟨_, hl, hr, hol, hor⟩ := h
      show (l.names ++ [m] ++ r.names).Nodup
      rw [List.append_assoc]
      refine List.nodup_append.2 ⟨ihl hol, ?_, ?_⟩
      · exact List.nodup_cons.2 ⟨fun hm => String.lt_irrefl m (hr m hm), ihr hor⟩
      · intro a ha b hb he
        subst he
        rcases List.mem_cons.1 hb with rfl | hb
        · exact String.lt_irrefl a (hl a ha)
        · exact String.lt_irrefl a (String.lt_trans (hr a hb) (hl a ha))

theorem size_eq (map : NameMap V) : map.size = map.names.length := by
  induction map with
  | null => rfl
  | node name v l r ihl ihr =>
    unfold size names
    rw [ihl, ihr, List.length_append, List.length_append]
    cases name with
    | none => exact Nat.add_right_cancel_iff.2 rfl
    | some m =>
      show l.names.length + r.names.length + 1 = l.names.length + 1 + r.names.length
      omega

variable {strcmp : String → String → Int}

section
variable {m : String} {v : Option V} {l r : NameMap V} {name : String}

theorem getName2_here (hc : Conforming strcmp) :
    getName2 strcmp (.node (some m) v l r) m = v := if_pos ((hc.zero m m).2 rfl)

theorem getName2_left (hc : Conforming strcmp) (h : m < name) :
    getName2 strcmp (.node (some m) v l r) name = getName2 strcmp l name := by
  have hneg := (hc.neg m name).2 h
  show (if strcmp m name = 0 then v else if strcmp m name < 0 then getName2 strcmp l name else _) = _
  rw [if_neg (by omega), if_pos hneg]

theorem getName2_right (hc : Conforming strcmp) (h : name < m) :
    getName2 strcmp (.node (some m) v l r) name = getName2 strcmp r name := by
  have hpos := hc.pos.2 h
  show (if strcmp m name = 0 then v else if strcmp m name < 0 then getName2 strcmp l name else
    if strcmp m name > 0 then getName2 strcmp r name else none) = _
  rw [if_neg (by omega), if_neg (by omega), if_pos hpos]

theorem mem_names : name ∈ (node (some m) v l r).names ↔ name ∈ l.names ∨ name = m ∨ name ∈ r.names := by
  show name ∈ l.names ++ [m] ++ r.names ↔ _
  rw [List.mem_append, List.mem_append, List.mem_singleton, or_assoc]

theorem mem_names_free : name ∈ (node none v l r).names ↔ name ∈ l.names ∨ name ∈ r.names := by
  show name ∈ l.names ++ [] ++ r.names ↔ _
  rw [List.append_nil, List.mem_append]

/-- A name is the one of the node, or larger, or smaller. -/
theorem lt_cases (a b : String) : a = b ∨ a < b ∨ b < a := by
  by_cases h : a < b
  · exact Or.inr (Or.inl h)
  · by_cases h' : b < a
    · exact Or.inr (Or.inr h')
    · exact Or.inl (String.le_antisymm h' h)

end

/-- A name that is not in the tree is not found. -/
theorem getName2_absent (hc : Conforming strcmp) {map : NameMap V} {name : String}
    (h : name ∉ map.names) : getName2 strcmp map name = none := by
  induction map with
  | null => rfl
  | node n v l r ihl ihr =>
    cases n with
    | none =>
      rw [mem_names_free, not_or] at h
      unfold getName2
      rw [ihl h.1, ihr h.2]
    | some m =>
      rw [mem_names, not_or, not_or] at h
      rcases lt_cases m name with he | hlt | hgt
      · exact absurd he.symm h.2.1
      · rw [getName2_left hc hlt, ihl h.1]
      · rw [getName2_right hc hgt, ihr h.2.2]

theorem getName2_free {v : Option V} {l r : NameMap V} (name : String) :
    getName2 strcmp (.node none v l r) name = (getName2 strcmp l name).or (getName2 strcmp r name) := by
  show (match getName2 strcmp l name with
    | none => getName2 strcmp r name
    | some v => some v) = _
  cases getName2 strcmp l name <;> rfl

/-- A name in the tree is found. -/
theorem getName2_present (hc : Conforming strcmp) {map : NameMap V} (ho : Ordered map)
    {name : String} (h : name ∈ map.names) : (getName2 strcmp map name).isSome := by
  induction map with
  | null => cases h
  | node n v l r ihl ihr =>
    cases n with
    | none =>
      rw [getName2_free, Option.isSome_or]
      rcases mem_names_free.1 h with h | h
      · rw [ihl ho.2.1 h]
        rfl
      · rw [ihr ho.2.2 h, Bool.or_true]
    | some m =>
      obtain ⟨hv, hl, hr, hol, hor⟩ := ho
      rcases mem_names.1 h with h | rfl | h
      · rw [getName2_left hc (hl name h)]
        exact ihl hol h
      · rw [getName2_here hc]
        exact hv
      · rw [getName2_right hc (hr name h)]
        exact ihr hor h

/-! ## Adding -/

/-- `map'` is `map` with the name bound to the value. -/
structure Added (strcmp : String → String → Int) (map map' : NameMap V) (name : String) (v : V) :
    Prop where
  ordered : Ordered map'
  names : ∀ x, x ∈ map'.names ↔ x = name ∨ x ∈ map.names
  get : ∀ x, getName2 strcmp map' x = if x = name then some v else getName2 strcmp map x

section
variable {name m : String} {v : V} {l r l' r' : NameMap V} {w : Option V}

/-- Two names that are not the same. -/
theorem ne_of_lt {a b : String} (h : a < b) : b ≠ a := fun he => by
  subst he
  exact String.lt_irrefl b h

theorem Added.leaf (hc : Conforming strcmp) :
    Added strcmp .null (.node (some name) (some v) .null .null) name v where
  ordered := ⟨rfl, (fun _ h => by cases h), (fun _ h => by cases h), trivial, trivial⟩
  names x := by
    rw [mem_names]
    constructor
    · rintro (h | h | h)
      · cases h
      · exact Or.inl h
      · cases h
    · rintro (h | h)
      · exact Or.inr (Or.inl h)
      · cases h
  get x := by
    rcases lt_cases name x with rfl | hlt | hgt
    · rw [getName2_here hc, if_pos rfl]
    · rw [getName2_left hc hlt, if_neg (ne_of_lt hlt)]
    · rw [getName2_right hc hgt, if_neg fun he => ne_of_lt hgt he.symm]

theorem Added.replace (hc : Conforming strcmp) (ho : Ordered (.node (some m) w l r)) :
    Added strcmp (.node (some m) w l r) (.node (some m) (some v) l r) m v where
  ordered := ⟨rfl, ho.2⟩
  names x := by
    rw [mem_names, mem_names]
    constructor
    · exact Or.inr
    · rintro (h | h)
      · exact Or.inr (Or.inl h)
      · exact h
  get x := by
    rcases lt_cases m x with rfl | hlt | hgt
    · rw [getName2_here hc, if_pos rfl]
    · rw [getName2_left hc hlt, getName2_left hc hlt, if_neg (ne_of_lt hlt)]
    · rw [getName2_right hc hgt, getName2_right hc hgt, if_neg fun he => ne_of_lt hgt he.symm]

theorem Added.left (hc : Conforming strcmp) (ho : Ordered (.node (some m) w l r))
    (h : Added strcmp l l' name v) (hm : m < name) :
    Added strcmp (.node (some m) w l r) (.node (some m) w l' r) name v where
  ordered := by
    refine ⟨ho.1, fun n hn => ?_, ho.2.2.1, h.ordered, ho.2.2.2.2⟩
    rcases (h.names n).1 hn with rfl | hn
    · exact hm
    · exact ho.2.1 n hn
  names x := by rw [mem_names, mem_names, h.names, or_assoc]
  get x := by
    rcases lt_cases m x with rfl | hlt | hgt
    · rw [getName2_here hc, getName2_here hc, if_neg fun he => ne_of_lt hm he.symm]
    · rw [getName2_left hc hlt, getName2_left hc hlt, h.get]
    · have hne : x ≠ name := fun he => ne_of_lt (String.lt_trans hgt hm) he.symm
      rw [getName2_right hc hgt, getName2_right hc hgt, if_neg hne]

theorem Added.right (hc : Conforming strcmp) (ho : Ordered (.node (some m) w l r))
    (h : Added strcmp r r' name v) (hm : name < m) :
    Added strcmp (.node (some m) w l r) (.node (some m) w l r') name v where
  ordered := by
    refine ⟨ho.1, ho.2.1, fun n hn => ?_, ho.2.2.2.1, h.ordered⟩
    rcases (h.names n).1 hn with rfl | hn
    · exact hm
    · exact ho.2.2.1 n hn
  names x := by
    rw [mem_names, mem_names, h.names]
    constructor
    · rintro (h | h | h | h)
      · exact Or.inr (Or.inl h)
      · exact Or.inr (Or.inr (Or.inl h))
      · exact Or.inl h
      · exact Or.inr (Or.inr (Or.inr h))
    · rintro (h | h | h | h)
      · exact Or.inr (Or.inr (Or.inl h))
      · exact Or.inl h
      · exact Or.inr (Or.inl h)
      · exact Or.inr (Or.inr (Or.inr h))
  get x := by
    rcases lt_cases m x with rfl | hlt | hgt
    · rw [getName2_here hc, getName2_here hc, if_neg (ne_of_lt hm)]
    · have hne : x ≠ name := ne_of_lt (String.lt_trans hm hlt)
      rw [getName2_left hc hlt, getName2_left hc hlt, if_neg hne]
    · rw [getName2_right hc hgt, getName2_right hc hgt, h.get]

theorem Added.freeLeft (ho : Ordered (.node none w l r)) (h : Added strcmp l l' name v)
    (hr : name ∉ r.names) : Added strcmp (.node none w l r) (.node none w l' r) name v where
  ordered := by
    refine ⟨fun n hn => ?_, h.ordered, ho.2.2⟩
    rcases (h.names n).1 hn with rfl | hn
    · exact hr
    · exact ho.1 n hn
  names x := by rw [mem_names_free, mem_names_free, h.names, or_assoc]
  get x := by
    rw [getName2_free, getName2_free, h.get]
    by_cases hx : x = name
    · rw [if_pos hx, if_pos hx]
      rfl
    · rw [if_neg hx, if_neg hx]

theorem Added.freeRight (hc : Conforming strcmp) (ho : Ordered (.node none w l r))
    (h : Added strcmp r r' name v) (hl : name ∉ l.names) :
    Added strcmp (.node none w l r) (.node none w l r') name v where
  ordered := by
    refine ⟨fun n hn hn' => ?_, ho.2.1, h.ordered⟩
    rcases (h.names n).1 hn' with rfl | hn'
    · exact hl hn
    · exact ho.1 n hn hn'
  names x := by rw [mem_names_free, mem_names_free, h.names, or_left_comm]
  get x := by
    rw [getName2_free, getName2_free, h.get]
    by_cases hx : x = name
    · subst hx
      rw [if_pos rfl, if_pos rfl, getName2_absent hc hl]
      rfl
    · rw [if_neg hx, if_neg hx]

theorem Added.fill (hc : Conforming strcmp) (ho : Ordered (.node none w l r))
    (hl : ∀ n ∈ l.names, name < n) (hr : ∀ n ∈ r.names, n < name) :
    Added strcmp (.node none w l r) (.node (some name) (some v) l r) name v where
  ordered := ⟨rfl, hl, hr, ho.2.1, ho.2.2⟩
  names x := by rw [mem_names, mem_names_free, or_left_comm]
  get x := by
    rcases lt_cases name x with rfl | hlt | hgt
    · rw [getName2_here hc, if_pos rfl]
    · have hx : x ∉ r.names := fun h => String.lt_irrefl x (String.lt_trans (hr x h) hlt)
      rw [getName2_left hc hlt, if_neg (ne_of_lt hlt), getName2_free, getName2_absent hc hx,
        Option.or_none]
    · have hx : x ∉ l.names := fun h => String.lt_irrefl x (String.lt_trans hgt (hl x h))
      rw [getName2_right hc hgt, if_neg (fun he => ne_of_lt hgt he.symm), getName2_free,
        getName2_absent hc hx, Option.none_or]

end

/-- A name on a side is on a node that is there. -/
theorem beyond_node {test : Int → Bool} {name : String} {map : NameMap V}
    (h : beyond strcmp test name map = some true) : map ≠ .null := by
  intro he
  subst he
  cases h

theorem addName_added (hc : Conforming strcmp) {map : NameMap V} (ho : Ordered map)
    (hnull : map ≠ .null) {name : String} (hne : name ≠ "") (hok : AddOk strcmp map name) (v : V) :
    ∃ map', addName strcmp map name v = some map' ∧ Added strcmp map map' name v := by
  induction map with
  | null => exact absurd rfl hnull
  | node n w l r ihl ihr =>
    cases n with
    | none =>
      unfold addName
      rw [if_neg hne]
      rcases hok with ⟨hb, hok, hr⟩ | ⟨hb, hb', hok, hl⟩ | ⟨hb, hb', hl, hr⟩
      · obtain ⟨l', hl', ha⟩ := ihl ho.2.1 (beyond_node hb) hok
        simp only [hb, hl', Option.map_some]
        exact ⟨_, rfl, ha.freeLeft ho hr⟩
      · obtain ⟨r', hr', ha⟩ := ihr ho.2.2 (beyond_node hb') hok
        simp only [hb, hb', hr', Option.map_some]
        exact ⟨_, rfl, ha.freeRight hc ho hl⟩
      · simp only [hb, hb']
        exact ⟨_, rfl, .fill hc ho hl hr⟩
    | some m =>
      rcases hok with rfl | ⟨hlt, hcmp, hok⟩ | ⟨hgt, hcmp, hok⟩
      · unfold addName
        rw [if_neg hne, if_pos ((hc.zero m m).2 rfl)]
        exact ⟨_, rfl, .replace hc ho⟩
      · unfold addName
        rw [if_neg hne, if_neg (by omega), if_pos hcmp]
        cases l with
        | null => exact ⟨_, rfl, .left hc ho (.leaf hc) hlt⟩
        | node n u ll lr =>
          obtain ⟨l', hl', ha⟩ := ihl ho.2.2.2.1 (fun h => by cases h) hok
          simp only [hl', Option.map_some]
          exact ⟨_, rfl, .left hc ho ha hlt⟩
      · unfold addName
        rw [if_neg hne, if_neg (by omega), if_neg (by omega), if_pos hcmp]
        cases r with
        | null => exact ⟨_, rfl, .right hc ho (.leaf hc) hgt⟩
        | node n u rl rr =>
          obtain ⟨r', hr', ha⟩ := ihr ho.2.2.2.2 (fun h => by cases h) hok
          simp only [hr', Option.map_some]
          exact ⟨_, rfl, .right hc ho ha hgt⟩

/-! ## Deleting -/

/-- `map'` is `map` without the name. -/
structure Deleted (strcmp : String → String → Int) (map map' : NameMap V) (name : String) : Prop where
  ordered : Ordered map'
  names : ∀ x, x ∈ map'.names ↔ x ≠ name ∧ x ∈ map.names
  get : ∀ x, getName2 strcmp map' x = if x = name then none else getName2 strcmp map x

/-- Deleting a name that is not there changes nothing. -/
theorem delName_absent (hc : Conforming strcmp) {map : NameMap V} {name : String}
    (h : name ∉ map.names) : delName strcmp map name = map := by
  induction map with
  | null => rfl
  | node n w l r ihl ihr =>
    cases n with
    | none => rfl
    | some m =>
      rw [mem_names, not_or, not_or] at h
      have hzero : ¬ strcmp m name = 0 := fun hz => h.2.1 ((hc.zero m name).1 hz).symm
      unfold delName
      rw [if_neg hzero, ihl h.1]
      by_cases hneg : strcmp m name < 0
      · rw [if_pos hneg]
      · rw [if_neg hneg, if_pos (by omega)]

theorem Deleted.absent (hc : Conforming strcmp) {map : NameMap V} (ho : Ordered map) {name : String}
    (h : name ∉ map.names) : Deleted strcmp map map name where
  ordered := ho
  names x := ⟨fun hx => ⟨fun he => h (he ▸ hx), hx⟩, fun hx => hx.2⟩
  get x := by
    by_cases hx : x = name
    · subst hx
      rw [if_pos rfl, getName2_absent hc h]
    · rw [if_neg hx]

section
variable {name m : String} {l r l' : NameMap V} {w : Option V}

theorem Deleted.here (hc : Conforming strcmp) (ho : Ordered (.node (some m) w l r)) :
    Deleted strcmp (.node (some m) w l r) (.node none none l r) m where
  ordered := by
    refine ⟨fun n hl hr => ?_, ho.2.2.2⟩
    exact String.lt_irrefl n (String.lt_trans (ho.2.2.1 n hr) (ho.2.1 n hl))
  names x := by
    rw [mem_names, mem_names_free]
    constructor
    · rintro (h | h)
      · exact ⟨ne_of_lt (ho.2.1 x h), Or.inl h⟩
      · exact ⟨fun he => ne_of_lt (ho.2.2.1 x h) he.symm, Or.inr (Or.inr h)⟩
    · rintro ⟨hne, h | h | h⟩
      · exact Or.inl h
      · exact absurd h hne
      · exact Or.inr h
  get x := by
    have hl : ∀ y, ¬ m < y → y ∉ l.names := fun y hy h => hy (ho.2.1 y h)
    have hr : ∀ y, ¬ y < m → y ∉ r.names := fun y hy h => hy (ho.2.2.1 y h)
    rw [getName2_free]
    rcases lt_cases m x with rfl | hlt | hgt
    · rw [getName2_absent hc (hl m (String.lt_irrefl m)),
        getName2_absent hc (hr m (String.lt_irrefl m)), if_pos rfl]
      rfl
    · have hx := hr x fun h => String.lt_irrefl x (String.lt_trans h hlt)
      rw [getName2_left hc hlt, getName2_absent hc hx, if_neg (ne_of_lt hlt), Option.or_none]
    · have hx := hl x fun h => String.lt_irrefl x (String.lt_trans hgt h)
      rw [getName2_right hc hgt, getName2_absent hc hx, if_neg fun he => ne_of_lt hgt he.symm,
        Option.none_or]

theorem Deleted.left (hc : Conforming strcmp) (ho : Ordered (.node (some m) w l r))
    (h : Deleted strcmp l l' name) (hm : m < name) :
    Deleted strcmp (.node (some m) w l r) (.node (some m) w l' r) name where
  ordered := ⟨ho.1, fun n hn => ho.2.1 n ((h.names n).1 hn).2, ho.2.2.1, h.ordered, ho.2.2.2.2⟩
  names x := by
    rw [mem_names, mem_names, h.names]
    constructor
    · rintro (h | rfl | h)
      · exact ⟨h.1, Or.inl h.2⟩
      · exact ⟨fun he => ne_of_lt hm he.symm, Or.inr (Or.inl rfl)⟩
      · exact ⟨fun he => ne_of_lt (String.lt_trans (ho.2.2.1 x h) hm) he.symm, Or.inr (Or.inr h)⟩
    · rintro ⟨hne, h | h | h⟩
      · exact Or.inl ⟨hne, h⟩
      · exact Or.inr (Or.inl h)
      · exact Or.inr (Or.inr h)
  get x := by
    rcases lt_cases m x with rfl | hlt | hgt
    · rw [getName2_here hc, getName2_here hc, if_neg fun he => ne_of_lt hm he.symm]
    · rw [getName2_left hc hlt, getName2_left hc hlt, h.get]
    · have hne : x ≠ name := fun he => ne_of_lt (String.lt_trans hgt hm) he.symm
      rw [getName2_right hc hgt, getName2_right hc hgt, if_neg hne]

end

theorem delName_deleted (hc : Conforming strcmp) {map : NameMap V} (ho : Ordered map)
    {name : String} (hok : DelOk map name) : Deleted strcmp map (delName strcmp map name) name := by
  induction map with
  | null => exact .absent hc ho (fun h => by cases h)
  | node n w l r ihl ihr =>
    cases n with
    | none => exact .absent hc ho fun h => (mem_names_free.1 h).elim hok.1 hok.2
    | some m =>
      rcases hok with rfl | ⟨hlt, hok⟩ | ⟨hgt, hr⟩
      · have hdel : delName strcmp (.node (some m) w l r) m = .node none none l r :=
          if_pos ((hc.zero m m).2 rfl)
        rw [hdel]
        exact .here hc ho
      · have hneg := (hc.neg m name).2 hlt
        unfold delName
        rw [if_neg (by omega), if_pos hneg]
        exact .left hc ho (ihl ho.2.2.2.1 hok) hlt
      · -- the wrong side is searched, but the name is on neither
        have hl : name ∉ l.names := fun h => String.lt_irrefl name (String.lt_trans hgt (ho.2.1 name h))
        have habsent : name ∉ (node (some m) w l r).names := by
          rw [mem_names]
          rintro (h | rfl | h)
          · exact hl h
          · exact String.lt_irrefl name hgt
          · exact hr h
        rw [delName_absent hc habsent]
        exact .absent hc ho habsent

/-! ## Runs -/

/-- The map is ordered, and holds what the names stand for. -/
structure Holds (strcmp : String → String → Int) (map : NameMap V) (f : String → Option V) : Prop where
  there : map ≠ .null
  ordered : Ordered map
  get : ∀ name, getName2 strcmp map name = f name

theorem Holds.refines (hc : Conforming strcmp) {map : NameMap V} {f : String → Option V}
    (h : Holds strcmp map f) : Refines strcmp map f where
  get := h.get
  size := by
    refine ⟨map.names, h.ordered.nodup, fun name => ?_, size_eq map⟩
    rw [← h.get name]
    constructor
    · exact getName2_present hc h.ordered
    · intro hs
      refine Decidable.byContradiction fun hn => ?_
      rw [getName2_absent hc hn] at hs
      cases hs

/-- One call. -/
theorem Holds.step (hc : Conforming strcmp) {map : NameMap V} {f : String → Option V}
    (h : Holds strcmp map f) {op : Op V} (hne : op.name ≠ "") (hok : op.Ok strcmp map) :
    ∃ map', op.run strcmp map = some map' ∧ Holds strcmp map' (op.after f) := by
  cases op with
  | add n v =>
    obtain ⟨map', hmap', ha⟩ := addName_added hc h.ordered h.there hne hok v
    refine ⟨map', hmap', ?_, ha.ordered, fun name => ?_⟩
    · rintro rfl
      cases (ha.names n).2 (Or.inl rfl)
    · rw [ha.get, h.get]
      rfl
  | del n =>
    have hd := delName_deleted hc h.ordered hok
    refine ⟨_, rfl, ?_, hd.ordered, fun name => ?_⟩
    · cases map with
      | null => exact absurd rfl h.there
      | node m w l r =>
        cases m with
        | none => exact fun he => by cases he
        | some m =>
          unfold delName
          intro he
          split at he
          · cases he
          · split at he
            · cases he
            · split at he <;> cases he
    · rw [hd.get, h.get]
      rfl

theorem runs_append (ops : List (Op V)) (op : Op V) :
    runs strcmp (ops ++ [op]) = (runs strcmp ops).bind fun map => op.run strcmp map := by
  unfold runs
  rw [List.foldlM_append]
  simp only [List.foldlM_cons, List.foldlM_nil, bind_pure]
  rfl

/-- The calls of a run, from any point of it on. -/
theorem Holds.run (hc : Conforming strcmp) {ops : List (Op V)} (hne : ∀ op ∈ ops, op.name ≠ "")
    (hok : ∀ before op after map, ops = before ++ op :: after → runs strcmp before = some map →
      op.Ok strcmp map) (todo : List (Op V)) : ∀ done after map, ops = done ++ (todo ++ after) →
    runs strcmp done = some map → Holds strcmp map (bound done) →
    ∃ map', runs strcmp (done ++ todo) = some map' ∧ Holds strcmp map' (bound (done ++ todo)) := by
  induction todo with
  | nil =>
    intro done after map _ hrun hholds
    rw [List.append_nil]
    exact ⟨map, hrun, hholds⟩
  | cons op todo ih =>
    intro done after map hops hrun hholds
    have hmem : op ∈ ops := hops ▸ List.mem_append_right _ List.mem_cons_self
    obtain ⟨map₁, hmap₁, hholds₁⟩ :=
      hholds.step hc (hne op hmem) (hok done op (todo ++ after) map hops hrun)
    have hrun₁ : runs strcmp (done ++ [op]) = some map₁ := by
      rw [runs_append, hrun]
      exact hmap₁
    have hbound : bound (done ++ [op]) = op.after (bound done) := by
      unfold bound
      rw [List.foldl_append]
      rfl
    have hstep := ih (done ++ [op]) after map₁ (by rw [hops, List.append_assoc]; rfl) hrun₁
      (hbound ▸ hholds₁)
    rw [List.append_assoc] at hstep
    exact hstep

/-- `strcmp` as -1, 0 and 1. -/
def signs (a b : String) : Int := if a < b then -1 else if b < a then 1 else 0

theorem signs_conforming : Conforming signs where
  neg a b := by
    unfold signs
    rcases lt_cases a b with rfl | h | h
    · rw [if_neg (String.lt_irrefl a), if_neg (String.lt_irrefl a)]
      exact iff_of_false (by decide) (String.lt_irrefl a)
    · rw [if_pos h]
      exact iff_of_true (by decide) h
    · have hn : ¬ a < b := fun hl => String.lt_irrefl a (String.lt_trans hl h)
      rw [if_neg hn, if_pos h]
      exact iff_of_false (by decide) hn
  zero a b := by
    unfold signs
    rcases lt_cases a b with rfl | h | h
    · rw [if_neg (String.lt_irrefl a), if_neg (String.lt_irrefl a)]
      exact iff_of_true rfl rfl
    · rw [if_pos h]
      exact iff_of_false (by decide) fun he => ne_of_lt h he.symm
    · have hn : ¬ a < b := fun hl => String.lt_irrefl a (String.lt_trans hl h)
      rw [if_neg hn, if_pos h]
      exact iff_of_false (by decide) (ne_of_lt h)

end

end NameMap

end PyLinda
