import Mathlib.Algebra.Ring.Int.Defs
import Mathlib.Data.Nat.Cast.Basic
import PyLinda.Net.Requests

/-!
# The books of the requests

What a server owes a partition in entries of `requests`: one for each thread that is
blocked or whose `cancel_request` is under way, less one for each `tuple_request` that
is. In an orderly run every partition has the entries it is owed.
-/

set_option linter.unusedSectionVars false

namespace PyLinda.Requests

open Lib

variable {N R T : Type}

section Task

variable [DecidableEq N] [DecidableEq T]

/-- What a thread will take from the entries that partition `m` has with pattern `p`. -/
def Task.debt (m : N) (p : T) : Task N R T → Int
  | .addTuples q => if q = p then -1 else 0
  | .request q todo _ | .hung q todo => if q = p then -(todo.count m : Int) else 0
  | .returnTuple _ q | .withdraw q => if q = p then 1 else 0
  | .cancel q todo => if q = p then (todo.count m : Int) else 0
  | .read _ _ | .outs _ | .check | .unblockRandom => 0

/-- What a thread of the server at `n` relies on, whose tuplespace has these partitions. -/
def Task.Ok (n : N) (partitions : Option (List N)) : Task N R T → Prop
  | .read _ _ | .check => True
  | .unblockRandom => partitions = some []
  | .request _ todo _ | .cancel _ todo | .hung _ todo => partitions.isSome ∧ n ∉ todo
  | .addTuples _ | .outs _ | .returnTuple _ _ | .withdraw _ => partitions.isSome

end Task

/-- What a server tells the others of its partition, and asks of them. -/
def Part.frame (ts : Part N R T) : List (N × T) × List N × Phase N :=
  (ts.requests, ts.partitions, ts.phase)

def Node.partitions? (s : Node N R T) : Option (List N) := s.part.map Part.partitions

variable [DecidableEq N] [DecidableEq R] [DecidableEq T]

/-- The threads blocked with pattern `p`. -/
def Part.parked (ts : Part N R T) (p : T) : Nat :=
  ts.blockedList.entries.countP fun e => decide (e.2.pattern = p)

def Part.listed (ts : Part N R T) (tid : R) : Nat :=
  ts.blockedList.entries.countP fun e => decide (e.1 = tid)

/-- What the server owes partition `m`. -/
def Node.debt (s : Node N R T) (m : N) (p : T) : Int :=
  (s.part.elim 0 fun ts => (ts.parked p : Int)) + weight (Task.debt m p) s.tasks

structure Node.Sound (n : N) (s : Node N R T) : Prop where
  ok : ∀ t ∈ s.tasks, t.Ok n s.partitions?
  once : ∀ tid, s.places tid ≤ 1
  kept : ∀ ts, s.part = some ts → ∀ e ∈ ts.blockedList.entries, e.1 ∈ s.blockedThreads

/-- A step of the server at `n` that no other server sees. -/
structure Moves (n : N) (s s' : Node N R T) : Prop where
  frame : s'.part.map Part.frame = s.part.map Part.frame
  sound : s'.Sound n
  debt : ∀ m p, (∀ ps, s.partitions? = some ps → ps.count m = 1) → s'.debt m p = s.debt m p

variable {n m : N} {s s' : Node N R T} {ts : Part N R T} {t : Task N R T} {tid : R} {p : T}
  {next : List (Task N R T)}

/-! ## Single quantities -/

theorem partitions?_eq (h : s'.part.map Part.frame = s.part.map Part.frame) :
    s'.partitions? = s.partitions? := by
  have h2 := congrArg (Option.map fun x => x.2.1) h
  rw [Option.map_map, Option.map_map] at h2
  exact h2

theorem Moves.trans {s₁ s₂ s₃ : Node N R T} (h : Moves n s₁ s₂) (h' : Moves n s₂ s₃) :
    Moves n s₁ s₃ where
  frame := h'.frame.trans h.frame
  sound := h'.sound
  debt m p hm := by
    rw [h'.debt m p (by rw [partitions?_eq h.frame]; exact hm), h.debt m p hm]

theorem places_eq {q : Part N R T} (hp : s.part = some q) :
    s.places tid = q.listed tid + weight (Task.holds tid) s.tasks := by
  simp [Node.places, hp, Part.listed]

theorem debt_eq {q : Part N R T} (hp : s.part = some q) :
    s.debt m p = q.parked p + weight (Task.debt m p) s.tasks := by
  simp [Node.debt, hp]

theorem not_listed (h : ts.listed tid = 0) {e : R × Waiter T} (he : e ∈ ts.blockedList.entries) :
    e.1 ≠ tid := by
  have h2 := List.countP_eq_zero.1 h e he
  simpa using h2

/-- A thread that has a request in hand is not in `blocked_list`. -/
theorem Node.Sound.not_listed (h : s.Sound n) (ht : t ∈ s.tasks) (hh : t.holds tid = 1)
    (hp : s.part = some ts) : ts.listed tid = 0 := by
  have h1 := h.once tid
  have h2 := le_weight (f := Task.holds tid) ht
  rw [places_eq hp] at h1
  omega

@[simp] theorem goOn_part : (s.goOn t next).part = s.part := rfl

theorem mem_goOn {t' : Task N R T} (h : t' ∈ (s.goOn t next).tasks) : t' ∈ s.tasks ∨ t' ∈ next :=
  (List.mem_append.1 h).imp_left List.mem_of_mem_erase

theorem weight_goOn {α : Type} [AddCommMonoid α] (next : List (Task N R T)) (f : Task N R T → α)
    (ht : t ∈ s.tasks) :
    weight f (s.goOn t next).tasks + f t = weight f s.tasks + weight f next := by
  show weight f (s.tasks.erase t ++ next) + f t = _
  rw [weight_append, add_right_comm, weight_erase f ht]

/-! ## Moves -/

theorem Node.Sound.goOn (h : s.Sound n) (ht : t ∈ s.tasks)
    (hok : ∀ t' ∈ next, t'.Ok n s.partitions?)
    (hholds : ∀ tid, weight (Task.holds tid) next ≤ t.holds tid) : (s.goOn t next).Sound n where
  ok t' ht' := (mem_goOn ht').elim (h.ok t') (hok t')
  once tid := by
    have h1 := h.once tid
    have h2 := weight_goOn next (Task.holds tid) ht
    have h3 := hholds tid
    show s.part.elim 0 _ + weight (Task.holds tid) (s.goOn t next).tasks ≤ 1
    unfold Node.places at h1
    omega
  kept := h.kept

theorem debt_goOn (next : List (Task N R T)) (ht : t ∈ s.tasks) (m : N) (p : T) :
    (s.goOn t next).debt m p + t.debt m p = s.debt m p + weight (Task.debt m p) next := by
  have h2 := weight_goOn next (Task.debt m p) ht
  show s.part.elim 0 _ + weight (Task.debt m p) (s.goOn t next).tasks + _ = _
  unfold Node.debt
  omega

/-- A thread goes on with what owes as much. -/
theorem Moves.goOn (h : s.Sound n) (ht : t ∈ s.tasks) (hok : ∀ t' ∈ next, t'.Ok n s.partitions?)
    (hholds : ∀ tid, weight (Task.holds tid) next ≤ t.holds tid)
    (hdebt : ∀ m p, (∀ ps, s.partitions? = some ps → ps.count m = 1) →
      weight (Task.debt m p) next = t.debt m p) : Moves n s (s.goOn t next) where
  frame := rfl
  sound := h.goOn ht hok hholds
  debt m p hm := by
    have h2 := debt_goOn next ht m p
    have h3 := hdebt m p hm
    omega

/-- A thread ends, and is owed nothing. -/
theorem Moves.drop (h : s.Sound n) (ht : t ∈ s.tasks) (hdebt : ∀ m p, t.debt m p = 0) :
    Moves n s (s.goOn t []) :=
  Moves.goOn h ht (by simp) (by simp) fun m p _ => (hdebt m p).symm

/-- The scan of `_out` takes every entry it wakes off the list. -/
theorem checkBlocked_countP (M : Matcher T) (f : R × T → Bool) (tup : T)
    (l : List (R × Waiter T)) :
    (checkBlocked M tup l).1.countP (fun e => f (e.1, e.2.pattern)) +
      (checkBlocked M tup l).2.1.countP f = l.countP fun e => f (e.1, e.2.pattern) := by
  induction l with
  | nil => rfl
  | cons x rest ih =>
    obtain ⟨tid, w⟩ := x
    rcases hr : checkBlocked M tup rest with ⟨stay, woken, sc⟩
    simp only [hr] at ih
    unfold checkBlocked
    rw [hr]
    split
    · simp only [List.countP_cons]
      omega
    · simp
    · split
      · simp [List.countP_cons]
      · simp only [List.countP_cons]
        omega

theorem weight_map_returnTuple {α : Type} [AddCommMonoidWithOne α] (f : Task N R T → α)
    (g : R × T → Bool) (hfg : ∀ x, f (.returnTuple x.1 x.2) = if g x then 1 else 0)
    (l : List (R × T)) : weight f (l.map fun x => .returnTuple x.1 x.2) = l.countP g := by
  induction l with
  | nil => exact Nat.cast_zero.symm
  | cons x l ih =>
    rw [List.map_cons, weight_cons, ih, hfg, List.countP_cons]
    split
    · rw [Nat.cast_add, Nat.cast_one, add_comm]
    · rw [add_zero, zero_add]

theorem out_frame (M : Matcher T) (tup : T) : (ts.out M tup).1.frame = ts.frame := by
  rcases h : (checkBlocked M tup ts.blockedList.entries).2.2 with _ | _ | e
  · rcases hr : checkRequests M tup ts.requests with e | _ | _ <;> simp [Part.out, h, hr, Part.frame]
  all_goals simp [Part.out, h, Part.frame]

theorem out_entries (ts : Part N R T) (M : Matcher T) (tup : T) :
    (ts.out M tup).1.blockedList.entries = (checkBlocked M tup ts.blockedList.entries).1 ∧
      (ts.out M tup).2.1 = (checkBlocked M tup ts.blockedList.entries).2.1 := by
  rcases h : (checkBlocked M tup ts.blockedList.entries).2.2 with _ | _ | e
  · rcases hr : checkRequests M tup ts.requests with e | _ | _ <;>
      simp [Part.out, h, hr, Dict.restrict]
  all_goals simp [Part.out, h, Dict.restrict]

/-- The readers that `_out` wakes are owed a cancellation instead of an entry. -/
theorem Moves.outTuple (M : Matcher T) (tup : T) (h : s.Sound n) (hp : s.part = some ts)
    (hok : ∀ t' ∈ next, t'.Ok n s.partitions?) (hholds : ∀ tid, weight (Task.holds tid) next = 0)
    (hdebt : ∀ m p, weight (Task.debt m p) next = 0) : Moves n s (s.outTuple M ts tup next) := by
  obtain ⟨hent, hwok⟩ := out_entries ts M tup
  have hnext : ∀ {α : Type} [AddCommMonoid α] (f : Task N R T → α), weight f next = 0 →
      weight f (s.outTuple M ts tup next).tasks = weight f s.tasks +
        weight f ((checkBlocked M tup ts.blockedList.entries).2.1.map
          fun x => .returnTuple x.1 x.2) := by
    intro α _ f hf
    show weight f (s.tasks ++ ((ts.out M tup).2.1.map _) ++ if (ts.out M tup).2.2 then next else []) = _
    rw [weight_append, weight_append, hwok]
    split <;> simp [hf]
  have hframe : (s.outTuple M ts tup next).part.map Part.frame = s.part.map Part.frame := by
    show some (ts.out M tup).1.frame = _
    rw [out_frame, hp]
    rfl
  refine ⟨hframe, ⟨?_, ?_, ?_⟩, ?_⟩
  · intro t' ht'
    rw [partitions?_eq hframe]
    rcases List.mem_append.1 ht' with ht' | ht'
    · rcases List.mem_append.1 ht' with ht' | ht'
      · exact h.ok t' ht'
      · obtain ⟨x, -, rfl⟩ := List.mem_map.1 ht'
        show s.partitions?.isSome = true
        rw [Node.partitions?, hp]
        rfl
    · split at ht'
      · exact hok t' ht'
      · cases ht'
  · intro tid
    have h1 := h.once tid
    have h2 := checkBlocked_countP M (fun x => decide (x.1 = tid)) tup ts.blockedList.entries
    simp only at h2
    have h3 := hnext (Task.holds tid) (hholds tid)
    rw [weight_map_returnTuple (Task.holds tid) (fun x => decide (x.1 = tid)) (by simp [Task.holds]),
      Nat.cast_id] at h3
    rw [places_eq hp] at h1
    rw [places_eq (q := (ts.out M tup).1) rfl, h3]
    unfold Part.listed at h1 ⊢
    rw [hent]
    omega
  · intro ts' hts' e he
    cases hts'
    rw [hent] at he
    exact h.kept ts hp e ((checkBlocked_sublist M tup _).subset he)
  · intro m p _
    have h2 := checkBlocked_countP M (fun x => decide (x.2 = p)) tup ts.blockedList.entries
    simp only at h2
    have h3 := hnext (Task.debt m p) (hdebt m p)
    rw [weight_map_returnTuple (Task.debt m p) (fun x => decide (x.2 = p)) (by simp [Task.debt])]
      at h3
    rw [debt_eq hp, debt_eq (q := (ts.out M tup).1) rfl, h3]
    unfold Part.parked
    rw [hent]
    omega

/-- The stored tuples change, and a thread that is not in `blocked_list` has its answer. -/
theorem Moves.answered (h : s.Sound n) (hp : s.part = some ts) (htid : ts.listed tid = 0)
    (c : List T) : Moves n s { s.unblock tid with part := some { ts with contain := c } } where
  frame := by rw [hp]; rfl
  sound :=
    { ok := by
        have hps : s.partitions? = some ts.partitions := by rw [Node.partitions?, hp]; rfl
        intro t ht
        show t.Ok n (some ts.partitions)
        rw [← hps]
        exact h.ok t ht
      once := by
        intro r
        have h1 := h.once r
        rw [places_eq hp] at h1
        rw [places_eq (q := { ts with contain := c }) rfl]
        exact h1
      kept := by
        intro ts' hts' e he
        cases hts'
        refine List.mem_filter.2 ⟨h.kept ts hp e he, ?_⟩
        simpa using not_listed htid he }
  debt m p _ := by
    rw [debt_eq hp, debt_eq (q := { ts with contain := c }) rfl]
    rfl

theorem countP_set {f : R × Waiter T → Bool} {d : Dict R (Waiter T)} {w : Waiter T}
    (h : ∀ e ∈ d.entries, e.1 ≠ tid) :
    (d.set tid w).entries.countP f = d.entries.countP f + if f (tid, w) then 1 else 0 := by
  have he : (d.erase tid).entries = d.entries := by
    refine List.filter_eq_self.2 fun e hd => ?_
    simpa using h e hd
  show ((tid, w) :: (d.erase tid).entries).countP f = _
  rw [he, List.countP_cons]

/-- A reader parks. -/
theorem Moves.park {w : Waiter T} (h : s.Sound n) (hp : s.part = some ts) (hfree : s.places tid = 0)
    (hin : tid ∈ s.blockedThreads) :
    Moves n s { s with part := some { ts with blockedList := ts.blockedList.set tid w },
                       tasks := s.tasks ++ [.addTuples w.pattern] } := by
  rw [places_eq hp] at hfree
  have hnew : ∀ e ∈ ts.blockedList.entries, e.1 ≠ tid := fun e he =>
    not_listed (by omega) he
  have hps : s.partitions? = some ts.partitions := by
    rw [Node.partitions?, hp]
    rfl
  refine ⟨by rw [hp]; rfl, ⟨?_, ?_, ?_⟩, ?_⟩
  · intro t ht
    show t.Ok n (some ts.partitions)
    rw [← hps]
    rcases List.mem_append.1 ht with ht | ht
    · exact h.ok t ht
    · rw [List.mem_singleton.1 ht, hps]
      rfl
  · intro r
    have h1 := h.once r
    rw [places_eq hp] at h1
    rw [places_eq (q := { ts with blockedList := ts.blockedList.set tid w }) rfl, weight_append]
    unfold Part.listed at h1 hfree ⊢
    rw [countP_set hnew]
    simp only [decide_eq_true_eq, weight_cons, Task.holds, weight_nil]
    by_cases hr : tid = r
    · subst hr
      simp
      omega
    · simp [hr]
      exact h1
  · intro ts' hts' e he
    cases hts'
    rcases Dict.mem_set.1 he with rfl | ⟨he, -⟩
    · exact hin
    · exact h.kept ts hp e he
  · intro m p _
    rw [debt_eq hp, debt_eq (q := { ts with blockedList := ts.blockedList.set tid w }) rfl,
      weight_append]
    unfold Part.parked
    rw [countP_set hnew]
    simp only [decide_eq_true_eq, weight_cons, Task.debt, weight_nil]
    split
    · simp
      omega
    · simp

theorem Moves.read (M : Matcher T) {w : Waiter T} (h : s.Sound n) (hp : s.part = some ts)
    (hfree : s.places tid = 0)
    (hin : tid ∈ s.blockedThreads ∨ matchOneTuple M w.pattern ts.contain ≠ .ok none) :
    Moves n s (s.read M ts tid w) := by
  have hself : Moves n s s := ⟨rfl, h, fun _ _ _ => rfl⟩
  have htid : ts.listed tid = 0 := by
    rw [places_eq hp] at hfree
    omega
  unfold Node.read
  split
  · exact hself
  · rename_i hnone
    exact Moves.park h hp hfree (hin.resolve_right fun hne => hne hnone)
  · split
    · split
      · exact hself
      · exact Moves.answered h hp htid _
    · have hmove := Moves.answered h hp htid ts.contain
      have hs : s.unblock tid = { s.unblock tid with part := some { ts with contain := ts.contain } } := by
        show _ = Node.mk (some ts) _ _
        rw [← hp]
        rfl
      rw [hs]
      exact hmove

/-- Where nobody else has a partition, nobody has to be told. -/
theorem Moves.unblockRandom (h : s.Sound n) (hp : s.part = some ts) (halone : ts.partitions = []) :
    Moves n s (s.unblockRandom ts) := by
  have hps : s.partitions? = some [] := by
    rw [Node.partitions?, hp, ← halone]
    rfl
  unfold Node.unblockRandom
  split
  · exact ⟨rfl, h, fun _ _ _ => rfl⟩
  · rename_i r _ _
    refine ⟨by rw [hp]; rfl, ⟨?_, ?_, ?_⟩, ?_⟩
    · intro t ht
      show t.Ok n (some ts.partitions)
      rw [halone, ← hps]
      exact h.ok t ht
    · intro r'
      have h1 := h.once r'
      rw [places_eq hp] at h1
      rw [places_eq (q := { ts with blockedList := ts.blockedList.erase r }) rfl]
      have h2 : Part.listed { ts with blockedList := ts.blockedList.erase r } r' ≤ ts.listed r' :=
        List.Sublist.countP_le List.filter_sublist
      show _ + weight _ s.tasks ≤ 1
      omega
    · intro ts' hts' e he
      cases hts'
      obtain ⟨he, hne⟩ := Dict.mem_erase.1 he
      refine List.mem_filter.2 ⟨h.kept ts hp e he, ?_⟩
      simpa using hne
    · intro m p hm
      have h1 := hm [] hps
      cases h1

theorem places_drop (h : s.Sound n) (ht : t ∈ s.tasks) (hh : t.holds tid = 1) :
    (s.goOn t []).places tid = 0 := by
  have h1 := h.once tid
  have h2 := weight_goOn [] (Task.holds tid) ht
  rw [weight_nil] at h2
  show s.part.elim 0 _ + weight (Task.holds tid) (s.goOn t []).tasks = 0
  unfold Node.places at h1
  omega

/-- `do_return_tuple`, up to the broadcast. -/
theorem Moves.returnTuple (h : s.Sound n) (ht : Task.returnTuple tid p ∈ s.tasks) :
    Moves n s ((s.unblock tid).goOn (.returnTuple tid p) [.withdraw p]) := by
  have hgo : Moves n s (s.goOn (.returnTuple tid p) [.withdraw p]) := by
    refine Moves.goOn h ht ?_ ?_ ?_
    · intro t' ht'
      rw [List.mem_singleton.1 ht']
      exact h.ok (.returnTuple tid p) ht
    · intro r
      exact Nat.zero_le _
    · intro m q _
      exact add_zero _
  refine ⟨hgo.frame, ⟨hgo.sound.ok, hgo.sound.once, ?_⟩, hgo.debt⟩
  intro ts hp e he
  refine List.mem_filter.2 ⟨h.kept ts hp e he, ?_⟩
  have h1 : ts.listed tid = 0 := h.not_listed ht (by simp [Task.holds]) hp
  simpa using not_listed h1 he

/-- A step of a server by itself is a move, when a thread is parked or handed a tuple only
while it waits. -/
theorem Moves.run (M : Matcher T) {verdict : Bool} (h : s.Sound n) (hn : ∀ ps, s.partitions? = some ps → n ∉ ps)
    (ht : t ∈ s.tasks) (hread : ∀ tid w ts, t = .read tid w → s.part = some ts →
      tid ∈ s.blockedThreads ∨ matchOneTuple M w.pattern ts.contain ≠ .ok none)
    (hret : ∀ tid p, t = .returnTuple tid p → tid ∈ s.blockedThreads)
    (hrun : s.run M n verdict t = some s') : Moves n s s' := by
  have hok := h.ok t ht
  have hps : ∀ ts, s.part = some ts → s.partitions? = some ts.partitions := by
    intro ts hp
    rw [Node.partitions?, hp]
    rfl
  unfold Node.run at hrun
  split at hrun
  · -- `read`, without a partition
    cases hrun
    exact Moves.drop h ht fun _ _ => rfl
  · rename_i tid w ts hp
    split at hrun
    · cases hrun
      have hdrop : Moves n s (s.goOn (.read tid w) []) := Moves.drop h ht fun _ _ => rfl
      exact hdrop.trans (Moves.read M hdrop.sound hp (places_drop h ht (by simp [Task.holds]))
        (hread tid w ts rfl hp))
    · cases hrun
  · rename_i p ts hp
    cases hrun
    refine Moves.goOn h ht ?_ (fun _ => Nat.zero_le _) ?_
    · intro t' ht'
      rw [List.mem_singleton.1 ht']
      exact ⟨hok, hn _ (hps ts hp)⟩
    · intro m q hm
      simp [Task.debt, hm _ (hps ts hp)]
  · rename_i p found hp
    cases hrun
    refine Moves.goOn h ht ?_ (fun _ => Nat.zero_le _) fun _ _ _ => ?_
    · intro t' ht'
      rw [List.mem_singleton.1 ht']
      exact hok.1
    · simp [Task.debt]
  · cases hrun
    refine Moves.goOn h ht ?_ (fun _ => Nat.zero_le _) fun _ _ _ => rfl
    intro t' ht'
    rw [List.mem_singleton.1 ht']
    trivial
  · rename_i tup found ts hp
    split at hrun
    · cases hrun
      have hdrop : Moves n s (s.goOn (.outs (tup :: found)) []) := Moves.drop h ht fun _ _ => rfl
      refine hdrop.trans (Moves.outTuple M tup hdrop.sound hp ?_ (fun _ => rfl) fun _ _ => rfl)
      intro t' ht'
      rw [List.mem_singleton.1 ht']
      exact hok
    · cases hrun
  · rename_i ts hp
    cases hrun
    split
    · rename_i hv
      refine Moves.goOn h ht ?_ (fun _ => Nat.zero_le _) fun _ _ _ => rfl
      intro t' ht'
      rw [List.mem_singleton.1 ht']
      show s.partitions? = some []
      rw [hps ts hp, hv.2]
    · exact Moves.drop h ht fun _ _ => rfl
  · rename_i ts hp
    split at hrun
    · cases hrun
      have hdrop : Moves n s (s.goOn .unblockRandom []) := Moves.drop h ht fun _ _ => rfl
      refine hdrop.trans (Moves.unblockRandom hdrop.sound hp ?_)
      have h1 : s.partitions? = some [] := hok
      rw [hps ts hp] at h1
      exact Option.some.inj h1
    · cases hrun
  · rename_i tid p
    cases hrun
    rw [if_pos (hret tid p rfl)]
    exact Moves.returnTuple h ht
  · rename_i p ts hp
    cases hrun
    refine Moves.goOn h ht ?_ (fun _ => Nat.zero_le _) ?_
    · intro t' ht'
      rw [List.mem_singleton.1 ht']
      exact ⟨hok, hn _ (hps ts hp)⟩
    · intro m q hm
      simp [Task.debt, hm _ (hps ts hp)]
  · cases hrun
    exact Moves.drop h ht fun _ _ => by simp [Task.debt]
  · rename_i p m todo found _
    split at hrun
    · rename_i hm
      exact absurd List.mem_cons_self (hm ▸ hok.2)
    · cases hrun
  · rename_i p m todo _
    split at hrun
    · rename_i hm
      exact absurd List.mem_cons_self (hm ▸ hok.2)
    · cases hrun
  · cases hrun

/-! ## What happens to a server -/

/-- A thread is added that has no request in hand and owes nothing. -/
theorem Moves.spawn (h : s.Sound n) (hok : t.Ok n s.partitions?) (hdebt : ∀ m p, t.debt m p = 0)
    (hfree : ∀ tid, s.places tid + t.holds tid ≤ 1) (bt : List R)
    (hbt : ∀ r ∈ s.blockedThreads, r ∈ bt) :
    Moves n s { s with blockedThreads := bt, tasks := s.tasks ++ [t] } where
  frame := rfl
  sound :=
    { ok := by
        intro t' ht'
        rcases List.mem_append.1 ht' with ht' | ht'
        · exact h.ok t' ht'
        · rw [List.mem_singleton.1 ht']
          exact hok
      once := by
        intro tid
        have h1 := hfree tid
        unfold Node.places at h1
        show s.part.elim 0 _ + weight (Task.holds tid) (s.tasks ++ [t]) ≤ 1
        rw [weight_append, weight_cons, weight_nil]
        omega
      kept := fun ts hp e he => hbt _ (h.kept ts hp e he) }
  debt m p _ := by
    unfold Node.debt
    rw [weight_append, weight_cons, weight_nil, hdebt, add_zero, add_zero]

theorem Moves.rehash {d : Dict R (Waiter T)} (h : s.Sound n) (hp : s.part = some ts)
    (hd : ts.blockedList.Rehash d) :
    Moves n s { s with part := some { ts with blockedList := d } } where
  frame := by rw [hp]; rfl
  sound :=
    { ok := by
        intro t ht
        have h1 := h.ok t ht
        rw [Node.partitions?, hp] at h1
        exact h1
      once := by
        intro tid
        have h1 := h.once tid
        rw [places_eq hp] at h1
        rw [places_eq (q := { ts with blockedList := d }) rfl]
        unfold Part.listed at h1 ⊢
        rw [← List.Perm.countP_eq _ hd]
        exact h1
      kept := by
        intro q hq e he
        cases hq
        exact h.kept ts hp e (hd.mem_iff.1 he) }
  debt m p _ := by
    rw [debt_eq hp, debt_eq (q := { ts with blockedList := d }) rfl]
    unfold Part.parked
    rw [← List.Perm.countP_eq _ hd]

/-- Threads leave that are not blocked. -/
theorem Moves.depart {tids : List R} (h : s.Sound n)
    (hfree : ∀ ts, s.part = some ts → ∀ e ∈ ts.blockedList.entries, e.1 ∉ tids) :
    Moves n s { s with blockedThreads := s.blockedThreads.filter (· ∉ tids) } where
  frame := rfl
  sound :=
    { ok := h.ok
      once := h.once
      kept := by
        intro ts hp e he
        refine List.mem_filter.2 ⟨h.kept ts hp e he, ?_⟩
        simpa using hfree ts hp e he }
  debt _ _ _ := rfl

/-! ## The invariant -/

/-- The partition at `m` is known at `n`, or will be when it has announced itself. -/
def Phase.Known (n : N) : Phase N → Prop
  | .announce todo => n ∉ todo
  | .getPartitions _ | .getRequests _ | .idle => True

/-- What a partition that joins at `n` has learned. -/
def Part.Learned (c : Cluster N R T) (n : N) (ts : Part N R T) : Prop := match ts.phase with
  | .announce todo => ts.partitions = [] ∧ todo.Nodup ∧ n ∉ todo
  | .getPartitions todo => ts.partitions = [] ∧ n ∉ todo ∧
      ∀ m, m ≠ n → (c m).part.isSome → m ∈ todo
  | .getRequests todo => todo = ts.partitions ∧ ts.partitions.Nodup ∧
      ∀ m, m ∈ ts.partitions ↔ m ≠ n ∧ (c m).part.isSome
  | .idle => True

/-- A partition joins alone, and has no reader and no entry before it has joined. -/
structure Joins (c : Cluster N R T) (n : N) (ts : Part N R T) : Prop where
  quiet : ∀ m, (c m).tasks = []
  others : ∀ m q, m ≠ n → (c m).part = some q → q.phase = .idle
  blank : ts.blockedList.entries = [] ∧ ts.requests = []
  learned : ts.Learned c n

structure Kept (nodes : List N) (c : Cluster N R T) : Prop where
  sound : ∀ n, (c n).Sound n
  among : ∀ n, (c n).part.isSome → n ∈ nodes
  lists : ∀ n ts, (c n).part = some ts → ts.phase = .idle → ts.partitions.Nodup ∧
    ∀ m, m ∈ ts.partitions ↔ m ≠ n ∧ ∃ q, (c m).part = some q ∧ q.phase.Known n
  books : ∀ n m ts, n ≠ m → (c n).part.isSome → (c m).part = some ts → ts.phase = .idle →
    ∀ p, (ts.requests.count (n, p) : Int) = (c n).debt m p
  foreign : ∀ n m ts, (c m).part = some ts → n = m ∨ (c n).part = none →
    ∀ p, (n, p) ∉ ts.requests
  joins : ∀ n ts, (c n).part = some ts → ts.phase ≠ .idle → Joins c n ts

variable {nodes : List N} {c : Cluster N R T}

theorem frame_of_part (h : s'.part.map Part.frame = s.part.map Part.frame) {ts' : Part N R T}
    (hp : s'.part = some ts') : ∃ ts, s.part = some ts ∧ ts'.requests = ts.requests ∧
      ts'.partitions = ts.partitions ∧ ts'.phase = ts.phase := by
  rw [hp] at h
  obtain ⟨ts, hts, hf⟩ := Option.map_eq_some_iff.1 h.symm
  simp only [Part.frame, Prod.mk.injEq] at hf
  exact ⟨ts, hts, hf.1.symm, hf.2.1.symm, hf.2.2.symm⟩

theorem Cluster.set_self : (c.set n s) n = s := Function.update_self ..

theorem Cluster.set_ne {k : N} (h : k ≠ n) : (c.set n s) k = c k := Function.update_of_ne h ..

/-- While nobody joins, a partition lists the others. -/
theorem Kept.lists_settled (h : Kept nodes c) (hset : c.Settled) (hp : (c n).part = some ts) :
    ts.partitions.Nodup ∧ ∀ m, m ∈ ts.partitions ↔ m ≠ n ∧ (c m).part.isSome := by
  obtain ⟨hnd, hmem⟩ := h.lists n ts hp (hset n ts hp)
  refine ⟨hnd, fun m => (hmem m).trans (and_congr_right fun _ => ?_)⟩
  constructor
  · rintro ⟨q, hq, -⟩
    rw [hq]
    rfl
  · intro hs
    obtain ⟨q, hq⟩ := Option.isSome_iff_exists.1 hs
    refine ⟨q, hq, ?_⟩
    rw [hset m q hq]
    trivial

theorem Kept.count_partitions (h : Kept nodes c) (hset : c.Settled) (hp : (c n).part = some ts)
    (hm : m ≠ n) (hpm : (c m).part.isSome) : ts.partitions.count m = 1 := by
  obtain ⟨hnd, hmem⟩ := h.lists_settled hset hp
  exact List.count_eq_one_of_mem hnd ((hmem m).2 ⟨hm, hpm⟩)

theorem Kept.not_mem_partitions (h : Kept nodes c) (hset : c.Settled) :
    ∀ ps, (c n).partitions? = some ps → n ∉ ps := by
  intro ps hps hmem
  obtain ⟨ts, hp, rfl⟩ := Option.map_eq_some_iff.1 hps
  exact (((h.lists_settled hset hp).2 n).1 hmem).1 rfl

/-- Nodes change what they hold, and the debts and the entries for whoever holds a partition
change alike; nobody joins. -/
theorem Kept.step {c' : Cluster N R T} (h : Kept nodes c) (hset : c.Settled)
    (hsound : ∀ n, (c' n).Sound n)
    (hsame : ∀ n, (c' n).part.map (fun ts => (ts.partitions, ts.phase)) =
      (c n).part.map fun ts => (ts.partitions, ts.phase))
    (hbooks : ∀ n m ts ts', n ≠ m → (c n).part.isSome → (c m).part = some ts →
      (c' m).part = some ts' → ∀ p,
      (ts'.requests.count (n, p) : Int) - ts.requests.count (n, p) = (c' n).debt m p - (c n).debt m p)
    (hforeign : ∀ m ts ts', (c m).part = some ts → (c' m).part = some ts' → ∀ x ∈ ts'.requests,
      x ∈ ts.requests ∨ x.1 ≠ m ∧ (c x.1).part.isSome) : Kept nodes c' := by
  have hpart : ∀ {n ts'}, (c' n).part = some ts' → ∃ ts, (c n).part = some ts ∧
      ts'.partitions = ts.partitions ∧ ts'.phase = ts.phase := by
    intro n ts' hp
    have h1 := hsame n
    rw [hp] at h1
    obtain ⟨ts, hts, hf⟩ := Option.map_eq_some_iff.1 h1.symm
    rw [Prod.mk.injEq] at hf
    exact ⟨ts, hts, hf.1.symm, hf.2.symm⟩
  have hsome : ∀ n, (c' n).part.isSome = (c n).part.isSome := by
    intro n
    have h1 := congrArg Option.isSome (hsame n)
    rwa [Option.isSome_map, Option.isSome_map] at h1
  have hset' : c'.Settled := by
    intro n ts' hp
    obtain ⟨ts, hts, -, hph⟩ := hpart hp
    rw [hph]
    exact hset n ts hts
  refine ⟨hsound, ?_, ?_, ?_, ?_, fun n ts' hp hj => absurd (hset' n ts' hp) hj⟩
  · intro n hn
    rw [hsome] at hn
    exact h.among n hn
  · intro n ts' hp _
    obtain ⟨ts, hts, hps, -⟩ := hpart hp
    obtain ⟨hnd, hmem⟩ := h.lists_settled hset hts
    rw [hps]
    refine ⟨hnd, fun m => (hmem m).trans (and_congr_right fun _ => ?_)⟩
    rw [← hsome m]
    constructor
    · intro hs
      obtain ⟨q, hq⟩ := Option.isSome_iff_exists.1 hs
      refine ⟨q, hq, ?_⟩
      rw [hset' m q hq]
      trivial
    · rintro ⟨q, hq, -⟩
      rw [hq]
      rfl
  · intro n m ts' hne hn hp _ p
    rw [hsome] at hn
    obtain ⟨ts, hts, -, -⟩ := hpart hp
    have h1 := h.books n m ts hne hn hts (hset m ts hts) p
    have h2 := hbooks n m ts ts' hne hn hts hp p
    omega
  · intro n m ts' hp hor p hmem
    obtain ⟨ts, hts, -, -⟩ := hpart hp
    rcases hforeign m ts ts' hts hp _ hmem with hold | ⟨hne, hnew⟩
    · refine h.foreign n m ts hts (hor.imp_right fun hnone => ?_) p hold
      rw [← Option.not_isSome_iff_eq_none, ← hsome, hnone]
      simp
    · rcases hor with rfl | hnone
      · exact hne rfl
      · rw [← hsome, hnone] at hnew
        cases hnew

/-- A move of one server. -/
theorem Kept.move (h : Kept nodes c) (hset : c.Settled) (hm : Moves n (c n) s') :
    Kept nodes (c.set n s') := by
  have hframe : ∀ k, ((c.set n s') k).part.map Part.frame = (c k).part.map Part.frame := by
    intro k
    by_cases hk : k = n
    · subst hk
      rw [Cluster.set_self]
      exact hm.frame
    · rw [Cluster.set_ne hk]
  have hreq : ∀ m ts ts', (c m).part = some ts → ((c.set n s') m).part = some ts' →
      ts'.requests = ts.requests := by
    intro m ts ts' hts hts'
    obtain ⟨q, hq, hr, -⟩ := frame_of_part (hframe m) hts'
    rw [hts] at hq
    cases hq
    exact hr
  refine h.step hset ?_ ?_ ?_ ?_
  · intro k
    by_cases hk : k = n
    · subst hk
      rw [Cluster.set_self]
      exact hm.sound
    · rw [Cluster.set_ne hk]
      exact h.sound k
  · intro k
    have h1 := congrArg (Option.map Prod.snd) (hframe k)
    rwa [Option.map_map, Option.map_map] at h1
  · intro k m ts ts' hne hk hts hts' p
    rw [hreq m ts ts' hts hts']
    by_cases hkn : k = n
    · subst hkn
      rw [Cluster.set_self, hm.debt m p]
      · omega
      · intro ps hps
        obtain ⟨q, hq, rfl⟩ := Option.map_eq_some_iff.1 hps
        exact h.count_partitions hset hq (Ne.symm hne) (by rw [hts]; rfl)
    · rw [Cluster.set_ne hkn]
      omega
  · intro m ts ts' hts hts' x hx
    rw [hreq m ts ts' hts hts'] at hx
    exact .inl hx

/-- A thread of the server at `n` has a message handled at `m`. -/
theorem Kept.send {t' : Task N R T} {ts' : Part N R T} (h : Kept nodes c) (hset : c.Settled)
    (hnm : m ≠ n) (ht : t ∈ (c n).tasks) (hok : t'.Ok n (c n).partitions?)
    (hholds : ∀ tid, t'.holds tid = 0) (hp : (c m).part = some ts)
    (hlist : ts'.blockedList = ts.blockedList)
    (hsame : ts'.partitions = ts.partitions ∧ ts'.phase = ts.phase)
    (hdebt : ∀ k p, k ≠ m → t'.debt k p = t.debt k p)
    (hcount : ∀ k p, (ts'.requests.count (k, p) : Int) - ts.requests.count (k, p) =
      if k = n then t'.debt m p - t.debt m p else 0)
    (hmem : ∀ x ∈ ts'.requests, x ∈ ts.requests ∨ x.1 = n) (hn : (c n).part.isSome) :
    Kept nodes ((c.set n ((c n).goOn t [t'])).setPart m ts') := by
  have hcm : (c.set n ((c n).goOn t [t'])) m = c m := Cluster.set_ne hnm
  have hm' : ((c.set n ((c n).goOn t [t'])).setPart m ts') m = { c m with part := some ts' } := by
    unfold Cluster.setPart
    rw [Cluster.set_self, hcm]
  have hn' : ((c.set n ((c n).goOn t [t'])).setPart m ts') n = (c n).goOn t [t'] := by
    unfold Cluster.setPart
    rw [Cluster.set_ne (Ne.symm hnm), Cluster.set_self]
  have hk' : ∀ k, k ≠ n → k ≠ m →
      ((c.set n ((c n).goOn t [t'])).setPart m ts') k = c k := by
    intro k hkn hkm
    unfold Cluster.setPart
    rw [Cluster.set_ne hkm, Cluster.set_ne hkn]
  refine h.step hset ?_ ?_ ?_ ?_
  · intro k
    by_cases hkm : k = m
    · subst hkm
      rw [hm']
      refine ⟨?_, ?_, ?_⟩
      · intro x hx
        show x.Ok k (some ts'.partitions)
        rw [hsame.1]
        have h1 := (h.sound k).ok x hx
        rw [Node.partitions?, hp] at h1
        exact h1
      · intro tid
        have h1 := (h.sound k).once tid
        rw [places_eq hp] at h1
        rw [places_eq (q := ts') rfl]
        unfold Part.listed at h1 ⊢
        rw [hlist]
        exact h1
      · intro ts'' hts'' e he
        cases hts''
        rw [hlist] at he
        exact (h.sound k).kept ts hp e he
    · by_cases hkn : k = n
      · subst hkn
        rw [hn']
        refine (h.sound k).goOn ht ?_ ?_
        · intro x hx
          rw [List.mem_singleton.1 hx]
          exact hok
        · intro tid
          rw [weight_cons, weight_nil, hholds tid]
          exact Nat.zero_le _
      · rw [hk' k hkn hkm]
        exact h.sound k
  · intro k
    by_cases hkm : k = m
    · subst hkm
      rw [hm', hp]
      show some (ts'.partitions, ts'.phase) = some (ts.partitions, ts.phase)
      rw [hsame.1, hsame.2]
    · by_cases hkn : k = n
      · subst hkn
        rw [hn']
        rfl
      · rw [hk' k hkn hkm]
  · intro k m' q q' hne hk hq hq' p
    have hdk : ((c.set n ((c n).goOn t [t'])).setPart m ts' k).debt m' p - (c k).debt m' p =
        if k = n then t'.debt m' p - t.debt m' p else 0 := by
      by_cases hkm : k = m
      · subst hkm
        rw [hm', if_neg hnm, debt_eq hp, debt_eq (q := ts') rfl]
        unfold Part.parked
        rw [hlist]
        exact Int.sub_self _
      · by_cases hkn : k = n
        · subst hkn
          rw [hn', if_pos rfl]
          have h2 := debt_goOn [t'] ht m' p
          rw [weight_cons, weight_nil] at h2
          omega
        · rw [hk' k hkn hkm, if_neg hkn]
          omega
    rw [hdk]
    by_cases hm'm : m' = m
    · subst hm'm
      rw [hm'] at hq'
      rw [hp] at hq
      cases hq
      cases hq'
      exact hcount k p
    · have hreq : q'.requests = q.requests := by
        by_cases hm'n : m' = n
        · subst hm'n
          rw [hn', goOn_part, hq] at hq'
          cases hq'
          rfl
        · rw [hk' m' hm'n hm'm, hq] at hq'
          cases hq'
          rfl
      rw [hreq, hdebt m' p hm'm]
      split <;> omega
  · intro m' q q' hq hq' x hx
    by_cases hm'm : m' = m
    · subst hm'm
      rw [hm'] at hq'
      rw [hp] at hq
      cases hq
      cases hq'
      refine (hmem x hx).imp_right fun hxn => ?_
      rw [hxn]
      exact ⟨Ne.symm hnm, hn⟩
    · have hreq : q'.requests = q.requests := by
        by_cases hm'n : m' = n
        · subst hm'n
          rw [hn', goOn_part, hq] at hq'
          cases hq'
          rfl
        · rw [hk' m' hm'n hm'm, hq] at hq'
          cases hq'
          rfl
      rw [hreq] at hx
      exact .inl hx

theorem count_concat (l : List (N × T)) (k : N) (q : T) :
    (l ++ [(n, p)]).count (k, q) = l.count (k, q) + if k = n ∧ p = q then 1 else 0 := by
  rw [List.count_append, List.count_singleton]
  simp only [beq_iff_eq, Prod.mk.injEq, eq_comm (a := n)]

/-- Nobody is told who has no partition. -/
theorem Kept.ne_of_count (h : Kept nodes c) (hset : c.Settled) (hn : (c n).part.isSome)
    (hp : (c m).part = none) {k : N} (hk : ∀ ps, (c n).partitions? = some ps → ps.count k = 1) :
    m ≠ k := by
  rintro rfl
  obtain ⟨ts, hts⟩ := Option.isSome_iff_exists.1 hn
  have h1 := hk ts.partitions (by rw [Node.partitions?, hts]; rfl)
  have h2 : m ∈ ts.partitions := List.count_pos_iff.1 (by omega)
  have h3 := (((h.lists_settled hset hts).2 m).1 h2).2
  rw [hp] at h3
  cases h3

/-- A `tuple_request` arrives. -/
theorem Kept.sendRequest (M : Matcher T) {todo : List N} {found : List T} {c' : Cluster N R T}
    (h : Kept nodes c) (hset : c.Settled) (ht : Task.request p (m :: todo) found ∈ (c n).tasks)
    (hs : c.sendRequest M n p m todo found = some c') : Kept nodes c' := by
  have hok : (c n).partitions?.isSome ∧ n ∉ m :: todo := (h.sound n).ok _ ht
  obtain ⟨hnm, htodo⟩ := not_or.1 fun hx => hok.2 (List.mem_cons.2 hx)
  have hn : (c n).part.isSome := by
    have h1 := hok.1
    rwa [Node.partitions?, Option.isSome_map] at h1
  unfold Cluster.sendRequest at hs
  cases hp : (c m).part with
  | none =>
    simp only [hp] at hs
    cases hs
    refine h.move hset (Moves.goOn (h.sound n) ht ?_ (fun _ => Nat.zero_le _) ?_)
    · intro t' ht'
      rw [List.mem_singleton.1 ht']
      exact ⟨hok.1, htodo⟩
    · intro k q hk
      simp [Task.debt, h.ne_of_count hset hn hp hk]
  | some ts =>
    simp only [hp, hset m ts hp, if_true] at hs
    cases hs
    have hreq : (ts.tupleRequest M n p).1.requests = ts.requests ++ [(n, p)] ∧
        (ts.tupleRequest M n p).1.blockedList = ts.blockedList ∧
        (ts.tupleRequest M n p).1.partitions = ts.partitions ∧
        (ts.tupleRequest M n p).1.phase = ts.phase := by
      unfold Part.tupleRequest
      split
      · exact ⟨rfl, rfl, rfl, rfl⟩
      · exact ⟨rfl, rfl, rfl, rfl⟩
      · split <;> exact ⟨rfl, rfl, rfl, rfl⟩
    obtain ⟨hreq, hlist, hsame⟩ := hreq
    obtain ⟨hok', hholds', hdebt'⟩ :
        (Task.received p todo found (ts.tupleRequest M n p).2 : Task N R T).Ok n (c n).partitions? ∧
        (∀ tid : R, (Task.received p todo found (ts.tupleRequest M n p).2).holds tid = 0) ∧
        ∀ k q, (Task.received p todo found (ts.tupleRequest M n p).2 : Task N R T).debt k q =
          if p = q then -(todo.count k : Int) else 0 := by
      unfold Task.received
      split <;> exact ⟨⟨hok.1, htodo⟩, fun _ => rfl, fun _ _ => rfl⟩
    refine h.send hset (Ne.symm hnm) ht hok' hholds' hp hlist hsame ?_ ?_ ?_ hn
    · intro k q hk
      rw [hdebt']
      simp [Task.debt, Ne.symm hk]
    · intro k q
      rw [hreq, count_concat, hdebt']
      by_cases hkn : k = n <;> by_cases hq : p = q <;> simp [Task.debt, hkn, hq]
    · intro x hx
      rw [hreq] at hx
      refine (List.mem_append.1 hx).imp_right fun hx => ?_
      rw [List.mem_singleton.1 hx]

/-- A `cancel_request` arrives, and finds the request. -/
theorem Kept.sendCancel {todo : List N} {c' : Cluster N R T} (h : Kept nodes c)
    (hset : c.Settled) (ht : Task.cancel p (m :: todo) ∈ (c n).tasks)
    (hin : ∀ ts, (c m).part = some ts → (n, p) ∈ ts.requests)
    (hs : c.sendCancel n p m todo = some c') : Kept nodes c' := by
  have hok : (c n).partitions?.isSome ∧ n ∉ m :: todo := (h.sound n).ok _ ht
  obtain ⟨hnm, htodo⟩ := not_or.1 fun hx => hok.2 (List.mem_cons.2 hx)
  have hn : (c n).part.isSome := by
    have h1 := hok.1
    rwa [Node.partitions?, Option.isSome_map] at h1
  unfold Cluster.sendCancel at hs
  cases hp : (c m).part with
  | none =>
    simp only [hp] at hs
    cases hs
    refine h.move hset (Moves.goOn (h.sound n) ht ?_ (fun _ => Nat.zero_le _) ?_)
    · intro t' ht'
      rw [List.mem_singleton.1 ht']
      exact ⟨hok.1, htodo⟩
    · intro k q hk
      simp [Task.debt, h.ne_of_count hset hn hp hk]
  | some ts =>
    simp only [hp, hset m ts hp, if_true] at hs
    cases hs
    refine h.send hset (Ne.symm hnm) ht ⟨hok.1, htodo⟩ (fun _ => rfl) hp rfl ⟨rfl, rfl⟩ ?_ ?_ ?_ hn
    · intro k q hk
      simp [Task.debt, Ne.symm hk]
    · intro k q
      show ((ts.requests.erase (n, p)).count (k, q) : Int) - _ = _
      have hpos : 0 < ts.requests.count (n, p) := List.count_pos_iff.2 (hin ts hp)
      rw [List.count_erase]
      by_cases hkn : n = k <;> by_cases hq : p = q
      · subst hkn hq
        simp [Task.debt]
        omega
      all_goals simp [Task.debt, hkn, hq, eq_comm (a := k)]
    · intro x hx
      exact .inl (List.mem_of_mem_erase hx)

end PyLinda.Requests
