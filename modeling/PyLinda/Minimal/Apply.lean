import PyLinda.Minimal.Lexical

/-!
# Applying a function

`Minimal_apply` against a call of the same function in an expression. The loop over a tuple does
not look whether there is a parameter for each value; neither of the loops looks whether there
is a value for each parameter.
-/

namespace PyLinda.Evaluate

open Lib
open SyntaxTree (argumentChain parameterChain parameters plain_leaf)

section
variable (p : Platform)

/-- The loop of `Minimal_apply`; each value gets a reference. -/
def applyLoop (newLayer : Nat) : List Value → SyntaxTree → Run Unit
  | [], _ => pure ()
  | v :: vs, param => do
    Eff.look fun _ => if v.isNull then .error .null else .ok ()
    let (varName, nextVar) ← step (.parameter param) (parameterOf param)
    addName p newLayer varName v
    applyLoop newLayer vs nextVar

/-- `Minimal_apply`. -/
def apply (depth : Nat) (func args : Value) : Run Value :=
  match func with
  | .null => Eff.raise .null
  | .function parameterList code funcLayer => do
    let newLayer ← createLayer2 funcLayer
    match args with
    | .null => Eff.raise .null
    | .tuple vs => do
      applyLoop p newLayer vs parameterList
      evaluate p depth code newLayer
    | _ => Eff.raise .junk
  | _ => pure .null -- "Minimal_apply didn't get function for function call."

/-- In the layer the tree is a call of the function, with as many arguments as there are
values. -/
structure Called (depth : Nat) (s : State) (layer : Nat) (t : SyntaxTree) (xs : List String)
    (code : SyntaxTree) (funcLayer : Nat) (vs : List Value) : Prop where
  sound : Sound s
  inState : layer < s.count
  values : ∀ v ∈ vs, v.isNull = false
  call : IsCall p depth s layer t (.function (parameters xs) code funcLayer) vs

/-- Applying the function gives what the call gives, and that is `NULL` if the number of
arguments is wrong. -/
structure Agrees (depth : Nat) (s : State) (layer : Nat) (t : SyntaxTree) (xs : List String)
    (code : SyntaxTree) (funcLayer : Nat) (vs : List Value) : Prop where
  same : (apply p depth (.function (parameters xs) code funcLayer) (.tuple vs) s).1 =
    (evaluate p (depth + 1) t layer s).1
  refused : vs.length ≠ xs.length → (evaluate p (depth + 1) t layer s).1 = .ok .null

end

section
variable {p : Platform}

/-- With enough parameters the two loops do the same. -/
theorem applyLoop_bindValues (q : Nat) {vs : List Value} (hvs : ∀ v ∈ vs, v.isNull = false)
    {xs : List String} (hlen : vs.length ≤ xs.length) (code : Run Value) :
    (applyLoop p q vs (parameterChain xs) >>= fun _ => code) =
      bindValues p q vs (parameterChain xs) >>= fun bound =>
        if bound then code else pure .null := by
  induction vs generalizing xs with
  | nil => rfl
  | cons v vs ih =>
    cases xs with
    | nil => cases hlen
    | cons x xs =>
      have hv := hvs v List.mem_cons_self
      have hrest := ih (fun u hu => hvs u (List.mem_cons_of_mem v hu))
        (Nat.le_of_succ_le_succ hlen)
      unfold applyLoop bindValues
      rw [hv]
      funext s
      show ((addName p q x v >>= fun _ => applyLoop p q vs (parameterChain xs)) >>=
          fun _ => code) (s.note _) =
        ((addName p q x v >>= fun _ => bindValues p q vs (parameterChain xs)) >>=
          fun bound => if bound then code else pure .null) (s.note _)
      rw [Eff.andThen_assoc, Eff.andThen_assoc, hrest]

/-- With too few parameters the loop over the tuple gets to one that is not there. -/
theorem applyLoop_fails (q : Nat) {vs : List Value} {xs : List String}
    (hlen : xs.length < vs.length) (s : State) :
    ∃ e, (applyLoop p q vs (parameterChain xs) s).1 = .error e := by
  induction vs generalizing xs s with
  | nil => cases hlen
  | cons v vs ih =>
    cases hv : v.isNull with
    | true =>
      unfold applyLoop
      rw [hv]
      exact ⟨_, rfl⟩
    | false =>
      cases xs with
      | nil =>
        unfold applyLoop
        rw [hv]
        exact ⟨_, rfl⟩
      | cons x xs =>
        unfold applyLoop
        rw [hv]
        show ∃ e, ((addName p q x v >>= fun _ => applyLoop p q vs (parameterChain xs))
          (s.note _)).1 = .error e
        cases hr : addName p q x v (s.note (.parameter (parameterChain (x :: xs)))) with
        | mk r s' =>
          cases r with
          | error e =>
            rw [Eff.andThen_error hr]
            exact ⟨e, rfl⟩
          | ok u =>
            rw [Eff.andThen_ok hr]
            exact ih (Nat.lt_of_succ_lt_succ hlen) s'

section
variable {xs : List String} {vs : List Value} {code : SyntaxTree} {funcLayer depth : Nat}

/-- With enough parameters, applying is calling with the values. -/
theorem apply_enter (hvs : ∀ v ∈ vs, v.isNull = false) (hlen : vs.length ≤ xs.length) (s : State) :
    apply p depth (.function (parameters xs) code funcLayer) (.tuple vs) s =
      enter p (evaluate p depth) (parameters xs) code funcLayer vs s := by
  cases xs with
  | nil =>
    cases vs with
    | nil => rfl
    | cons v vs => cases hlen
  | cons x xs =>
    show (applyLoop p s.count vs (parameterChain (x :: xs)) >>= fun _ =>
      evaluate p depth code s.count) (s.push funcLayer) = _
    rw [applyLoop_bindValues s.count hvs hlen]
    rfl

/-- With too few parameters, nothing is returned. -/
theorem apply_fails (hlen : xs.length < vs.length) (s : State) :
    ∃ e, (apply p depth (.function (parameters xs) code funcLayer) (.tuple vs) s).1 =
      .error e := by
  have hloop : ∃ e, (applyLoop p s.count vs (parameters xs) (s.push funcLayer)).1 = .error e := by
    cases xs with
    | cons x xs => exact applyLoop_fails s.count hlen _
    | nil =>
      cases vs with
      | nil => cases hlen
      | cons v vs =>
        unfold applyLoop
        cases hv : v.isNull <;> exact ⟨_, rfl⟩
  obtain ⟨e, he⟩ := hloop
  have hrun : applyLoop p s.count vs (parameters xs) (s.push funcLayer) =
      (.error e, (applyLoop p s.count vs (parameters xs) (s.push funcLayer)).2) := by
    rw [← he]
  refine ⟨e, ?_⟩
  show ((applyLoop p s.count vs (parameters xs) >>= fun _ => evaluate p depth code s.count)
    (s.push funcLayer)).1 = _
  rw [Eff.andThen_error hrun]

section
variable {s : State} {layer : Nat} {t : SyntaxTree}
  (h : Called p depth s layer t xs code funcLayer vs)
include h

theorem Called.same (hp : p.Honest) (hlen : vs.length ≤ xs.length) :
    (apply p depth (.function (parameters xs) code funcLayer) (.tuple vs) s).1 =
      (evaluate p (depth + 1) t layer s).1 := by
  rw [evaluate_call hp h.sound h.inState h.call, apply_enter h.values hlen]

theorem Called.agrees (hp : p.Honest) (hlen : vs.length = xs.length) :
    Agrees p depth s layer t xs code funcLayer vs :=
  ⟨h.same hp (Nat.le_of_eq hlen), fun hne => absurd hlen hne⟩

omit h in
theorem Agrees.enough (ha : Agrees p depth s layer t xs code funcLayer vs) :
    vs.length ≤ xs.length := by
  by_cases hlen : vs.length ≤ xs.length
  · exact hlen
  · have hfails : ∃ e, (apply p depth (.function (parameters xs) code funcLayer) (.tuple vs) s).1 =
        .error e := apply_fails (Nat.lt_of_not_le hlen) s
    obtain ⟨e, he⟩ := hfails
    have hrefused := ha.same.trans (ha.refused fun heq => hlen (Nat.le_of_eq heq))
    rw [he] at hrefused
    cases hrefused

end

end

/-! ## A function of any number of parameters -/

/-- One layer, with `f x1 ... xk = Nil` in it. -/
def calling (xs : List String) : State :=
  ⟨fun _ => ⟨none, .node (some "f") (some (.function (parameters xs) .nil 0)) .null .null⟩, 1, []⟩

/-- `f(Nil, ..., Nil)`. -/
def callTree (n : Nat) : SyntaxTree :=
  .functionCall (.identifier "f" none) (argumentChain (List.replicate n .nil))

theorem calling_sound (xs : List String) : Sound (calling xs) where
  left _ hl := hl
  right _ hl := hl
  same _ _ := rfl
  parent _ _ _ hr := by cases hr
  values _ _ := .leaf (known_function (plain_leaf rfl rfl) Nat.zero_lt_one)

theorem calling_values (s : State) (n : Nat) :
    Values p 2 s 0 (List.replicate n .nil) (List.replicate n .nil) := by
  induction n with
  | zero => exact .nil
  | succ n ih => exact .cons rfl ih

theorem calling_called (hc : Conforming p.strcmp) (xs : List String) (n : Nat) :
    Called p 2 (calling xs) 0 (callTree n) xs .nil 0 (List.replicate n .nil) where
  sound := calling_sound xs
  inState := Nat.zero_lt_one
  values v hv := by
    rw [List.eq_of_mem_replicate hv]
    rfl
  call := by
    have hf : (evaluate p 2 (.identifier "f" none) 0 (calling xs)).1 =
        .ok (.function (parameters xs) .nil 0) := by
      have hfound : NameMap.getName2 p.strcmp ((calling xs).layers 0).map "f" =
          some (Value.function (parameters xs) .nil 0) := NameMap.getName2_here hc
      show lookup p (calling xs).layers 1 (some 0) "f" = _
      rw [lookup, hfound]
    refine ⟨.identifier "f" none, List.replicate n .nil, rfl, plain_leaf rfl rfl, fun e he => ?_, hf,
      calling_values _ n⟩
    rw [List.eq_of_mem_replicate he]
    exact plain_leaf rfl rfl

/-- `Nil` is not `NULL`. -/
theorem apply_nil (xs : List String) (funcLayer depth : Nat) (vs : List Value) (s : State) :
    (apply p depth (.function (parameters xs) .nil funcLayer) (.tuple vs) s).1 ≠ .ok .null := by
  show ((applyLoop p s.count vs (parameters xs) >>= fun _ => evaluate p depth .nil s.count)
    (s.push funcLayer)).1 ≠ _
  cases hr : applyLoop p s.count vs (parameters xs) (s.push funcLayer) with
  | mk r s' =>
    cases r with
    | error e =>
      rw [Eff.andThen_error hr]
      exact fun h => by cases h
    | ok u =>
      rw [Eff.andThen_ok hr]
      cases depth with
      | zero => exact fun h => by cases h
      | succ depth => exact fun h => by cases h

/-- For a number of arguments the two ways of calling agree on all functions with these
parameters exactly if it is their number. On no call do they agree if it is larger; if it is
smaller they do the same, and that is not to refuse. -/
theorem apply_agrees_iff (hp : p.Honest) (hc : Conforming p.strcmp) (xs : List String) (n : Nat) :
    ((∀ depth s layer t code funcLayer vs, Called p depth s layer t xs code funcLayer vs →
        vs.length = n → Agrees p depth s layer t xs code funcLayer vs) ↔ n = xs.length) ∧
      ∀ depth s layer t code funcLayer vs, Called p depth s layer t xs code funcLayer vs →
        (vs.length = xs.length → Agrees p depth s layer t xs code funcLayer vs) ∧
        (vs.length > xs.length → ¬ Agrees p depth s layer t xs code funcLayer vs) ∧
        (vs.length < xs.length →
          (apply p depth (.function (parameters xs) code funcLayer) (.tuple vs) s).1 =
            (evaluate p (depth + 1) t layer s).1) := by
  refine ⟨⟨fun h => ?_, fun hn => ?_⟩, fun depth s layer t code funcLayer vs hcalled => ?_⟩
  · have hcalled := calling_called hc xs n
    have hlen : (List.replicate n Value.nil).length = n := List.length_replicate
    have ha := h 2 (calling xs) 0 (callTree n) .nil 0 _ hcalled hlen
    have hle := ha.enough
    by_cases hn : n = xs.length
    · exact hn
    · have hnull := ha.refused fun heq => hn (hlen ▸ heq)
      rw [← hcalled.same hp hle] at hnull
      exact absurd hnull (apply_nil xs 0 2 _ (calling xs))
  · intro depth s layer t code funcLayer vs hcalled hlen
    exact hcalled.agrees hp (hlen.trans hn)
  · refine ⟨hcalled.agrees hp, fun hgt ha => ?_, fun hlt => hcalled.same hp (Nat.le_of_lt hlt)⟩
    have hle := ha.enough
    omega

theorem apply_agrees_one :
    Agrees plain 2 (calling ["x"]) 0 (callTree 1) ["x"] .nil 0 (List.replicate 1 .nil) :=
  ((apply_agrees_iff plain_honest NameMap.signs_conforming ["x"] 1).2 _ _ _ _ _ _ _
    (calling_called NameMap.signs_conforming ["x"] 1)).1 rfl

/-- A function of one parameter is called with two arguments. -/
theorem apply_two :
    Called plain 2 (calling ["x"]) 0 (callTree 2) ["x"] .nil 0 [.nil, .nil] ∧
      (evaluate plain 3 (callTree 2) 0 (calling ["x"])).1 = .ok .null ∧
      (apply plain 2 (.function (parameters ["x"]) .nil 0) (.tuple [.nil, .nil])
        (calling ["x"])).1 = .error .null :=
  ⟨calling_called NameMap.signs_conforming ["x"] 2, rfl, rfl⟩

end

end PyLinda.Evaluate
