/-!
# Programs with a state that raise

What a program did to the state before it raised stays done.
-/

namespace Lib

/-- A program: what it returns or raises, and the state it leaves. -/
def Eff (σ ε α : Type) : Type := σ → Except ε α × σ

namespace Eff

variable {σ ε α β : Type}

def ret (a : α) : Eff σ ε α := fun s => (.ok a, s)

def raise (e : ε) : Eff σ ε α := fun s => (.error e, s)

/-- One program after the other. -/
def andThen (x : Eff σ ε α) (f : α → Eff σ ε β) : Eff σ ε β := fun s =>
  match x s with
  | (.ok a, s) => f a s
  | (.error e, s) => (.error e, s)

instance : Monad (Eff σ ε) := { pure := ret, bind := andThen }

/-- A program that only looks at the state. -/
def look (f : σ → Except ε α) : Eff σ ε α := fun s => (f s, s)

/-- A program that only changes the state. -/
def update (f : σ → σ) : Eff σ ε Unit := fun s => (.ok (), f s)

/-- `try`: the exceptions in `caught` become `none`. -/
def attempt (caught : ε → Bool) (x : Eff σ ε α) : Eff σ ε (Option α) := fun s =>
  match x s with
  | (.ok a, s) => (.ok (some a), s)
  | (.error e, s) => (if caught e then .ok none else .error e, s)

theorem andThen_ok {x : Eff σ ε α} {s s' : σ} {a : α} (h : x s = (.ok a, s'))
    (f : α → Eff σ ε β) : (x >>= f) s = f a s' := by
  show Eff.andThen x f s = f a s'
  unfold Eff.andThen
  rw [h]

theorem andThen_error {x : Eff σ ε α} {s s' : σ} {e : ε} (h : x s = (.error e, s'))
    (f : α → Eff σ ε β) : (x >>= f) s = (.error e, s') := by
  show Eff.andThen x f s = _
  unfold Eff.andThen
  rw [h]

theorem andThen_congr {x y : Eff σ ε α} {s t : σ} (h : x s = y t) (f : α → Eff σ ε β) :
    (x >>= f) s = (y >>= f) t := by
  show Eff.andThen x f s = Eff.andThen y f t
  unfold Eff.andThen
  rw [h]

theorem andThen_assoc {γ : Type} (x : Eff σ ε α) (f : α → Eff σ ε β) (g : β → Eff σ ε γ) :
    (x >>= f) >>= g = x >>= fun a => f a >>= g := by
  funext s
  cases hr : x s with
  | mk r s' =>
    cases r with
    | error e => rw [andThen_error hr, andThen_error (andThen_error hr f)]
    | ok a =>
      rw [andThen_ok hr]
      show Eff.andThen (Eff.andThen x f) g s = Eff.andThen (f a) g s'
      unfold Eff.andThen
      rw [hr]

theorem ok_of_andThen {x : Eff σ ε α} {f : α → Eff σ ε β} {s s' : σ} {b : β}
    (h : (x >>= f) s = (.ok b, s')) : ∃ a t, x s = (.ok a, t) ∧ f a t = (.ok b, s') := by
  cases hr : x s with
  | mk r t =>
    cases r with
    | error e =>
      rw [andThen_error hr] at h
      cases h
    | ok a =>
      rw [andThen_ok hr] at h
      exact ⟨a, t, rfl, h⟩

theorem look_ok {f : σ → Except ε α} {s : σ} {a : α} (h : f s = .ok a) :
    (look f : Eff σ ε α) s = (.ok a, s) := by
  unfold look
  rw [h]

/-- A step that does not even look at the state. -/
theorem constant_ok {x : Except ε α} {a : α} (h : x = .ok a) (f : α → Eff σ ε β) (s : σ) :
    ((look fun _ => x) >>= f) s = f a s := by
  subst h
  rfl

theorem constant_error {x : Except ε α} {e : ε} (h : x = .error e) (f : α → Eff σ ε β) (s : σ) :
    ((look fun _ => x) >>= f) s = (.error e, s) := by
  subst h
  rfl

/-- The second program returns whatever the first one returns. -/
def Below (x y : Eff σ ε α) : Prop := ∀ s a s', x s = (.ok a, s') → y s = (.ok a, s')

theorem Below.refl (x : Eff σ ε α) : Below x x := fun _ _ _ h => h

theorem Below.raise (e : ε) (y : Eff σ ε α) : Below (Eff.raise e) y := by
  intro s a s' h
  cases h

theorem Below.andThen {x y : Eff σ ε α} {f g : α → Eff σ ε β} (hx : Below x y)
    (hf : ∀ a, Below (f a) (g a)) : Below (x >>= f) (y >>= g) := by
  intro s b s' h
  obtain ⟨a, t, hr, hb⟩ := ok_of_andThen h
  rw [andThen_ok (hx s a t hr)]
  exact hf a t b s' hb

/-- The program moves the state along the relation only, also when it raises. -/
def Keeps (R : σ → σ → Prop) (x : Eff σ ε α) : Prop := ∀ s, R s (x s).2

section
variable {R : σ → σ → Prop}

theorem Keeps.ret (hrefl : ∀ s, R s s) (a : α) : Keeps R (pure a : Eff σ ε α) := hrefl

theorem Keeps.raise (hrefl : ∀ s, R s s) (e : ε) : Keeps R (Eff.raise e : Eff σ ε α) := hrefl

theorem Keeps.look (hrefl : ∀ s, R s s) (f : σ → Except ε α) : Keeps R (Eff.look f) := hrefl

theorem Keeps.andThen (htrans : ∀ a b c, R a b → R b c → R a c) {x : Eff σ ε α}
    {f : α → Eff σ ε β} (hx : Keeps R x) (hf : ∀ a, Keeps R (f a)) : Keeps R (x >>= f) := by
  intro s
  have h := hx s
  cases hr : x s with
  | mk r s' =>
    rw [hr] at h
    cases r with
    | error e =>
      rw [andThen_error hr]
      exact h
    | ok a =>
      rw [andThen_ok hr]
      exact htrans s s' _ h (hf a s')

theorem Keeps.attempt (caught : ε → Bool) {x : Eff σ ε α} (hx : Keeps R x) :
    Keeps R (Eff.attempt caught x) := by
  intro s
  have h := hx s
  unfold Eff.attempt
  cases hr : x s with
  | mk r s' =>
    rw [hr] at h
    cases r with
    | error e => exact h
    | ok a => exact h

end

/-- Where the program returns, it has moved the state along the relation and returns what is
said. -/
def Yields (R : σ → σ → Prop) (P : α → Prop) (x : Eff σ ε α) : Prop :=
  ∀ s a s', x s = (.ok a, s') → R s s' ∧ P a

section
variable {R : σ → σ → Prop} {P : α → Prop} {Q : β → Prop}

theorem Yields.ret (hrefl : ∀ s, R s s) {a : α} (h : P a) :
    Yields R P (pure a : Eff σ ε α) := by
  intro s b s' hr
  cases hr
  exact ⟨hrefl s, h⟩

theorem Yields.raise (e : ε) : Yields R P (Eff.raise e : Eff σ ε α) := by
  intro s b s' hr
  cases hr

theorem Yields.look (hrefl : ∀ s, R s s) {f : σ → Except ε α} (h : ∀ s a, f s = .ok a → P a) :
    Yields R P (Eff.look f) := by
  intro s b s' hr
  obtain ⟨hf, rfl⟩ := Prod.mk.inj hr
  exact ⟨hrefl s, h s b hf⟩

theorem Yields.update {f : σ → σ} (h : ∀ s, R s (f s)) :
    Yields R (fun _ => True) (Eff.update f : Eff σ ε Unit) := by
  intro s b s' hr
  cases hr
  exact ⟨h s, trivial⟩

theorem Yields.andThen (htrans : ∀ a b c, R a b → R b c → R a c) {x : Eff σ ε α}
    {f : α → Eff σ ε β} (hx : Yields R P x) (hf : ∀ a, P a → Yields R Q (f a)) :
    Yields R Q (x >>= f) := by
  intro s b s' hr
  obtain ⟨a, t, ha, hb⟩ := ok_of_andThen hr
  obtain ⟨hst, hp⟩ := hx s a t ha
  obtain ⟨hts, hq⟩ := hf a hp t b s' hb
  exact ⟨htrans s t s' hst hts, hq⟩

end

end Eff

end Lib
