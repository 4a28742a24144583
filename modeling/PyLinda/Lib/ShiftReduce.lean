/-!
# Shift and reduce

A parser with a stack of states and values. It shifts a token, or reduces what lies on top of
the stack to one value; which of the two depends on the state on top and on the next token.
-/

namespace Lib.ShiftReduce

/-- What a state does at a token. -/
inductive Move (Q V : Type) where
  | shift (q : Q)
  | reduce (n : Nat) (action : List V → V) (goto : Q → Option Q)
  | accept
  | error

structure Machine (Q T V : Type) where
  move : Q → T → Move Q V
  value : T → V

structure Config (Q T V : Type) where
  stack : List (Q × V)
  input : List T

namespace Machine

variable {Q T V : Type} (m : Machine Q T V)

/-- The top `n` values become one, and the state below them says where to go on. -/
def reduce (n : Nat) (action : List V → V) (goto : Q → Option Q) (c : Config Q T V) :
    Option (Config Q T V) :=
  match c.stack.drop n with
  | [] => none
  | (q, v) :: below => (goto q).map fun q' =>
    ⟨(q', action ((c.stack.take n).map Prod.snd).reverse) :: (q, v) :: below, c.input⟩

/-- What a move does; `none` where the machine stops. -/
def act (c : Config Q T V) : Move Q V → Option (Config Q T V)
  | .shift q =>
    match c.input with
    | [] => none
    | t :: ts => some ⟨(q, m.value t) :: c.stack, ts⟩
  | .reduce n action goto => reduce n action goto c
  | .accept => none
  | .error => none

/-- The move of the state on top at the next token. -/
def next (c : Config Q T V) : Move Q V :=
  match c.stack, c.input with
  | (q, _) :: _, t :: _ => m.move q t
  | _, _ => .error

def step (c : Config Q T V) : Option (Config Q T V) := m.act c (m.next c)

/-- The value on top, where the machine accepts. -/
def accepted (c : Config Q T V) : Option V :=
  match m.next c, c.stack with
  | .accept, (_, v) :: _ => some v
  | _, _ => none

/-- What the machine accepts in at most so many steps. -/
def run : Nat → Config Q T V → Option V
  | 0, _ => none
  | n + 1, c =>
    match m.step c with
    | some c' => run n c'
    | none => m.accepted c

/-- The machine gets from one configuration to the other. -/
inductive Star : Config Q T V → Config Q T V → Prop
  | refl (c : Config Q T V) : Star c c
  | step {c c' c'' : Config Q T V} : m.step c = some c' → Star c' c'' → Star c c''

/-- The machine accepts with this value. -/
def Accepts (c : Config Q T V) (v : V) : Prop := ∃ n, m.run n c = some v

variable {m}

theorem Star.trans {c c' c'' : Config Q T V} (h : m.Star c c') (h' : m.Star c' c'') :
    m.Star c c'' := by
  induction h with
  | refl => exact h'
  | step hs _ ih => exact .step hs (ih h')

theorem Star.single {c c' : Config Q T V} (h : m.step c = some c') : m.Star c c' :=
  .step h (.refl c')

/-- A token is shifted. -/
theorem Star.shift {q q' : Q} {v : V} {below : List (Q × V)} {t : T} {ts : List T}
    (h : m.move q t = .shift q') :
    m.Star ⟨(q, v) :: below, t :: ts⟩ ⟨(q', m.value t) :: (q, v) :: below, ts⟩ := by
  refine .single ?_
  show m.act _ (m.move q t) = _
  rw [h]
  rfl

/-- What lies on top of `below` is reduced. -/
theorem Star.reduce {q p p' : Q} {v w : V} (top : List (Q × V)) {below : List (Q × V)} {t : T}
    {ts : List T} {action : List V → V} {goto : Q → Option Q}
    (h : m.move q t = .reduce (top.length + 1) action goto) (hp : goto p = some p') :
    m.Star ⟨(q, v) :: (top ++ (p, w) :: below), t :: ts⟩
      ⟨(p', action (((q, v) :: top).map Prod.snd).reverse) :: (p, w) :: below, t :: ts⟩ := by
  refine .single ?_
  show m.act _ (m.move q t) = _
  rw [h]
  show Machine.reduce (top.length + 1) action goto
    ⟨(q, v) :: top ++ (p, w) :: below, t :: ts⟩ = _
  have hlen : ((q, v) :: top).length = top.length + 1 := rfl
  unfold Machine.reduce
  rw [← hlen, List.drop_left, List.take_left]
  show (goto p).map _ = _
  rw [hp]
  rfl

/-! ## One value -/

theorem run_star {c c' : Config Q T V} {v : V} (h : m.Star c c') (hv : m.Accepts c' v) :
    m.Accepts c v := by
  induction h with
  | refl => exact hv
  | @step c c' c'' hs _ ih =>
    obtain ⟨n, hn⟩ := ih hv
    refine ⟨n + 1, ?_⟩
    unfold run
    rw [hs]
    exact hn

theorem accepts_of_accept {q : Q} {v : V} {below : List (Q × V)} {t : T} {ts : List T}
    (h : m.move q t = .accept) : m.Accepts ⟨(q, v) :: below, t :: ts⟩ v := by
  have hnext : m.next ⟨(q, v) :: below, t :: ts⟩ = .accept := h
  refine ⟨1, ?_⟩
  unfold run step accepted
  rw [hnext]
  rfl

/-- More steps do not change the value. -/
theorem run_add {n : Nat} {c : Config Q T V} {v : V} (h : m.run n c = some v) (k : Nat) :
    m.run (n + k) c = some v := by
  induction n generalizing c with
  | zero => cases h
  | succ n ih =>
    rw [Nat.add_right_comm]
    unfold run at h ⊢
    cases hs : m.step c with
    | none =>
      rw [hs] at h
      exact h
    | some c' =>
      rw [hs] at h
      exact ih h

theorem Accepts.unique {c : Config Q T V} {v w : V} (hv : m.Accepts c v) (hw : m.Accepts c w) :
    v = w := by
  obtain ⟨i, hi⟩ := hv
  obtain ⟨j, hj⟩ := hw
  have hi' := run_add hi j
  rw [Nat.add_comm, run_add hj i] at hi'
  exact (Option.some.inj hi').symm

end Machine

end Lib.ShiftReduce
