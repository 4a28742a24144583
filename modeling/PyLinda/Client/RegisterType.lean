import PyLinda.Minimal.TypeList

/-!
# Registering a type

`Linda_registerType` of `linda.c`: the types that a type needs are registered with the server
one by one, and then, when all of them have ids, sent once more.
-/

namespace PyLinda.TypeList

open Lib Relation

/-- The `type_id` of the types, where they have one. -/
abbrev TypeIds := Addr → Option String

/-- A message of `Linda_registerType`. -/
inductive Sent where
  | register (type : Addr)
  | update (typeId : Option String) (type : Addr)

/-- The server: the id it gives to a type, and whether it answers an update. The connection may
be lost at either. -/
structure Server where
  register : Addr → Option String
  update : Addr → Bool

/-- The ids after a type got one. -/
def TypeIds.set (ids : TypeIds) (type : Addr) (id : String) : TypeIds :=
  fun t => if t = type then some id else ids t

/-- The first loop: what was sent, the ids, and whether it came to its end. -/
def registerEach (server : Server) : List Addr → TypeIds → List Sent × TypeIds × Bool
  | [], ids => ([], ids, true)
  | type :: types, ids =>
    if (ids type).isSome then registerEach server types ids
    else match server.register type with
      | none => ([.register type], ids, false)
      | some id =>
        let r := registerEach server types (ids.set type id)
        (.register type :: r.1, r.2)

/-- The second loop. -/
def updateEach (server : Server) (ids : TypeIds) : List Addr → List Sent
  | [] => []
  | type :: types =>
    .update (ids type) type :: if server.update type then updateEach server ids types else []

/-- What a client has of its types and of the server. -/
structure ClientTypes where
  connected : Bool
  ids : TypeIds
  unregistered : List Addr

/-- Both loops. -/
def registerAll (server : Server) (client : ClientTypes) (types : List Addr) :
    List Sent × ClientTypes :=
  let r := registerEach server types client.ids
  (if r.2.2 then r.1 ++ updateEach server r.2.1 types else r.1, { client with ids := r.2.1 })

/-- `Linda_registerType`: what is sent, and the client afterwards. -/
def registerType {L : Type} (D : Definitions L) (server : Server) (depth : Nat)
    (client : ClientTypes) (t : Addr) : Option (List Sent × ClientTypes) :=
  if (client.ids t).isSome then some ([], client)
  else if client.connected then (D.getTypeList depth t).map (registerAll server client)
  else some ([], { client with unregistered := client.unregistered ++ [t] })

section
variable {server : Server}

/-- The ids when everything that was asked for was answered. -/
def TypeIds.filled (ids : TypeIds) (server : Server) (types : List Addr) : TypeIds :=
  fun t => if t ∈ types then (ids t).or (server.register t) else ids t

theorem TypeIds.filled_nil (ids : TypeIds) : ids.filled server [] = ids :=
  funext fun _ => if_neg List.not_mem_nil

theorem TypeIds.filled_cons_some {ids : TypeIds} {type : Addr} {types : List Addr}
    (h : (ids type).isSome) : ids.filled server types = ids.filled server (type :: types) := by
  funext t
  unfold TypeIds.filled
  obtain ⟨id, hid⟩ := Option.isSome_iff_exists.1 h
  by_cases ht : t = type
  · subst ht
    rw [if_pos List.mem_cons_self, hid]
    split <;> rfl
  · by_cases hm : t ∈ types
    · rw [if_pos hm, if_pos (List.mem_cons_of_mem _ hm)]
    · rw [if_neg hm, if_neg fun h => (List.mem_cons.1 h).elim ht hm]

theorem TypeIds.filled_cons_none {ids : TypeIds} {type : Addr} {types : List Addr} {id : String}
    (h : ids type = none) (hid : server.register type = some id) :
    (ids.set type id).filled server types = ids.filled server (type :: types) := by
  funext t
  unfold TypeIds.filled TypeIds.set
  by_cases ht : t = type
  · subst ht
    rw [if_pos rfl, if_pos List.mem_cons_self, h, hid]
    split <;> rfl
  · rw [if_neg ht]
    by_cases hm : t ∈ types
    · rw [if_pos hm, if_pos (List.mem_cons_of_mem _ hm)]
    · rw [if_neg hm, if_neg fun h => (List.mem_cons.1 h).elim ht hm]

/-- The first loop asks once for each type that has no id. -/
theorem registerEach_eq (types : List Addr) : ∀ ids : TypeIds, types.Nodup →
    (∀ t ∈ types, (server.register t).isSome) →
    registerEach server types ids =
      ((types.filter fun t => (ids t).isNone).map .register, ids.filled server types, true) := by
  induction types with
  | nil =>
    intro ids _ _
    rw [TypeIds.filled_nil]
    rfl
  | cons type types ih =>
    intro ids hn hs
    obtain ⟨hnew, hn⟩ := List.nodup_cons.1 hn
    have hs' : ∀ t ∈ types, (server.register t).isSome :=
      fun t ht => hs t (List.mem_cons_of_mem _ ht)
    unfold registerEach
    cases hid : ids type with
    | some id =>
      have hsome : (ids type).isSome := by rw [hid]; rfl
      rw [if_pos (by rfl), ih ids hn hs', TypeIds.filled_cons_some hsome,
        List.filter_cons_of_neg (by rw [hid]; exact Bool.false_ne_true)]
    | none =>
      obtain ⟨id, hreg⟩ := Option.isSome_iff_exists.1 (hs type List.mem_cons_self)
      rw [if_neg (by decide), hreg]
      show (_ :: (registerEach server types (ids.set type id)).1, _) = _
      rw [ih (ids.set type id) hn hs', TypeIds.filled_cons_none hid hreg,
        List.filter_cons_of_pos (by rw [hid]; rfl), List.map_cons]
      have hfilter : types.filter (fun t => (ids.set type id t).isNone) =
          types.filter fun t => (ids t).isNone := by
        refine List.filter_congr fun t ht => ?_
        unfold TypeIds.set
        have hne : t ≠ type := fun he => hnew (he ▸ ht)
        rw [if_neg hne]
      rw [hfilter]

theorem updateEach_eq (ids : TypeIds) (types : List Addr) (h : ∀ t ∈ types, server.update t) :
    updateEach server ids types = types.map fun t => .update (ids t) t := by
  induction types with
  | nil => rfl
  | cons type types ih =>
    unfold updateEach
    rw [if_pos (h type List.mem_cons_self), ih fun t ht => h t (List.mem_cons_of_mem _ ht)]
    rfl

end

/-- `typetype :: type; even :: int32 * odd; odd :: Nil + ptr(even);`. -/
def evenOdd : Definitions Unit where
  types a :=
    if a = 0 then ⟨.identifier "type" none, (), some 0⟩
    else if a = 1 then
      ⟨.productType [.identifier "int32" none, .identifier "odd" none], (), some 0⟩
    else ⟨.sumType [.nil, .pointer "even"], (), some 0⟩
  getName _ name := if name = "even" then some 1 else if name = "odd" then some 2 else none

theorem evenOdd_getName (name : String) (y : Addr) (h : evenOdd.getName () name = some y) :
    y ∈ [0, 1, 2] := by
  unfold evenOdd at h
  dsimp only at h
  split at h
  · cases h
    decide
  · split at h
    · cases h
      decide
    · cases h

theorem evenOdd_layer : Layer evenOdd [0, 1, 2] where
  closed x hx y hy := by
    rcases hy with ho | ⟨name, _, hy⟩
    · have hobj : (evenOdd.types x).typeobj = some 0 := by
        unfold evenOdd
        dsimp only
        split
        · rfl
        · split <;> rfl
      cases hobj.symm.trans ho
      decide
    · exact evenOdd_getName name y hy
  whole x hx := by
    rcases List.mem_cons.1 hx with rfl | hx
    · exact trivial
    · rcases List.mem_cons.1 hx with rfl | hx
      · exact ⟨trivial, trivial, trivial⟩
      · obtain rfl := List.mem_singleton.1 hx
        exact ⟨trivial, trivial, trivial⟩
  bound x hx name hn := by
    rcases List.mem_cons.1 hx with rfl | hx
    · exact absurd hn List.not_mem_nil
    · rcases List.mem_cons.1 hx with rfl | hx
      · obtain rfl : name = "odd" := List.mem_singleton.1 hn
        exact ⟨2, rfl⟩
      · obtain rfl := List.mem_singleton.1 hx
        obtain rfl : name = "even" := List.mem_singleton.1 hn
        exact ⟨1, rfl⟩
  alike _ _ _ _ _ _ _ := rfl

example : evenOdd.getTypeList 3 1 = some [1, 0, 2] := by rfl

end PyLinda.TypeList
