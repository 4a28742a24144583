import Mathlib.Data.Finsupp.Basic
import Mathlib.Tactic.Abel
import PyLinda.Server.Linear

/-!
# The tuples its clients see

What the messages have put in and what the answers have taken out, read off the connections alone.
-/

namespace PyLinda

open Lib

/-- The tuple that a message puts in. -/
def Msg.puts : Msg → Multiset Tuple
  | .out _ tup => {tup}
  | _ => 0

/-- The tuple that this answer to `m` takes out. -/
def Reply.takes (r : Reply) (m : Option Msg) : Multiset Tuple :=
  match m, r with
  | some (.read msg _ _), .tuple t => if msg.destructive then {t} else 0
  | _, _ => 0

/-- A `copy_collect` makes tuples out of nothing. -/
def Msg.Copies : Msg → Prop
  | .collect copy _ _ _ => copy = true
  | _ => False

structure Account where
  /-- The messages that are not answered yet. -/
  opened : Tid → Option Msg
  puts : Multiset Tuple
  takes : Multiset Tuple

namespace Account

def init : Account := ⟨fun _ => none, 0, 0⟩

def see (a : Account) : Seen → Account
  | .call tid m => { a with opened := Function.update a.opened tid (some m), puts := a.puts + m.puts }
  | .answer tid r => { a with
      opened := Function.update a.opened tid none, takes := a.takes + r.takes (a.opened tid) }

/-- The account of what was seen, the first event first. -/
def after (a : Account) (l : List Seen) : Account := l.foldl see a

end Account

/-! ## The account of a service -/

def Todo.puts : Todo → Multiset Tuple
  | make _ => 0
  | put _ tup => {tup}

/-- The tuples that are in no bag while `m` has come so far: they are to be put in, or have been taken
out for an answer that is not sent yet. -/
def Status.pending (m : Option Msg) : Status → Multiset Tuple
  | called m' => m'.puts
  | doing l r => (l.map Todo.puts).sum + r.takes m
  | _ => 0

/-- The status is one of a message `m`. -/
def Status.Of (m : Option Msg) : Status → Prop
  | idle => m = none
  | called m' => m = some m'
  | waiting _ msg _ => ∃ ts p, m = some (.read msg ts p)
  | doing _ _ => m ≠ none

/-- Everything that is stored. -/
def stored (bags : List (TsId × Bag Tid Tuple Tuple)) : Multiset Tuple := (bags.map fun x => x.2.items).sum

variable {S S' : Service} {a a' : Account} {tid : Tid} {st : Status} {m : Option Msg}

theorem stored_set {bags : List (TsId × Bag Tid Tuple Tuple)} {i : Nat} {ts : TsId} {b : Bag Tid Tuple Tuple}
    (h : bags[i]? = some (ts, b)) (b' : Bag Tid Tuple Tuple) :
    stored (bags.set i (ts, b')) + b.items = stored bags + b'.items :=
  weight_set (fun x : TsId × Bag Tid Tuple Tuple => x.2.items) h (ts, b')

theorem stored_make (S : Service) (ts : TsId) : stored (S.make ts).bags = stored S.bags := by
  simp [stored, Service.make, Bag.empty]

theorem puts_collected (l : List Tuple) (dest : TsId) : ((l.map (Todo.put dest)).map Todo.puts).sum = l := by
  induction l with
  | nil => rfl
  | cons t l ih =>
    rw [List.map_cons, List.map_cons, List.sum_cons, ih]
    exact Multiset.singleton_add t _

/-- The account is right: every tuple that was put in is stored, was taken out, or is on its way. -/
structure Account.Keeps (a : Account) (S : Service) : Prop where
  status : ∀ tid, (S.calls tid).Of (a.opened tid)
  plain : ∀ tid m, a.opened tid = some m → ¬ m.Copies
  balance : ∃ pending : Tid →₀ Multiset Tuple, (∀ tid, pending tid = (S.calls tid).pending (a.opened tid)) ∧
    a.puts = stored S.bags + a.takes + pending.sum fun _ p => p

theorem Account.keeps_init : Account.init.Keeps .init where
  status _ := rfl
  plain := nofun
  balance := ⟨0, fun _ => rfl, rfl⟩

theorem rebalance {M : Type} [AddCancelCommMonoid M] {x stored old total new stored' total' : M}
    (h : x + (stored + old) = stored + total + (stored' + new)) (hsum : total' + old = total + new) :
    x = stored' + total' := by
  refine add_right_cancel (b := stored + old) ?_
  calc x + (stored + old) = stored + stored' + (total + new) := by rw [h]; abel
    _ = stored' + total' + (stored + old) := by rw [← hsum]; abel

/-- The message of one thread has moved on. -/
theorem Account.Keeps.move (h : a.Keeps S) (hcalls : S'.calls = Function.update S.calls tid st)
    (hopened : a'.opened = Function.update a.opened tid m) (hst : st.Of m)
    (hplain : ∀ m', m = some m' → ¬ m'.Copies)
    (hbal : a'.puts + (stored S.bags + a.takes + (S.calls tid).pending (a.opened tid)) =
      a.puts + (stored S'.bags + a'.takes + st.pending m)) : a'.Keeps S' := by
  obtain ⟨pending, hp, hputs⟩ := h.balance
  refine ⟨fun p => ?_, fun p m' => ?_, pending.update tid (st.pending m), fun p => ?_, ?_⟩
  · rw [hcalls, hopened]
    by_cases hpt : p = tid
    · subst hpt
      rwa [Function.update_self, Function.update_self]
    · rw [Function.update_of_ne hpt, Function.update_of_ne hpt]
      exact h.status p
  · rw [hopened]
    by_cases hpt : p = tid
    · subst hpt
      rw [Function.update_self]
      exact hplain m'
    · rw [Function.update_of_ne hpt]
      exact h.plain p m'
  · rw [hcalls, hopened, Finsupp.coe_update]
    by_cases hpt : p = tid
    · subst hpt
      rw [Function.update_self, Function.update_self, Function.update_self]
    · rw [Function.update_of_ne hpt, Function.update_of_ne hpt, Function.update_of_ne hpt]
      exact hp p
  · have hsum := Finsupp.sum_update_add pending tid (st.pending m) (fun _ p => p) (fun _ => rfl)
      fun _ _ _ => rfl
    rw [hp tid] at hsum
    rw [hputs] at hbal
    exact rebalance hbal hsum

/-- What an act takes from a bag or adds to it comes from the message, or goes to it. -/
theorem Moves.balance {i : Nat} {ts : TsId} {act : Bag.Act Tid Tuple Tuple} {st' : Status}
    (h : Moves i ts tid st act st') (hst : st.Of m) (hplain : ∀ m', m = some m' → ¬ m'.Copies) :
    st'.Of m ∧ st.pending m + act.taken = act.puts + st'.pending m := by
  cases h with
  | put => exact ⟨hst, by simp [Status.pending, Todo.puts, Bag.Act.taken, Bag.Act.puts]⟩
  | answer =>
    obtain rfl : m = _ := hst
    exact ⟨nofun, congrArg (0 + ·) (zero_add _).symm⟩
  | wait =>
    obtain rfl : m = _ := hst
    exact ⟨⟨_, _, rfl⟩, rfl⟩
  | wake =>
    obtain ⟨ts, p, rfl⟩ := hst
    exact ⟨nofun, congrArg (0 + ·) (zero_add _).symm⟩
  | release =>
    obtain ⟨ts, p, rfl⟩ := hst
    exact ⟨nofun, rfl⟩
  | @collect dest p l =>
    obtain rfl : m = _ := hst
    refine ⟨nofun, congrArg (0 + ·) ?_⟩
    exact (puts_collected l dest).symm.trans (add_zero _).symm
  | copy =>
    obtain rfl : m = _ := hst
    exact absurd rfl (hplain _ rfl)

theorem Account.Keeps.step {x : Option Seen} (h : a.Keeps S) (hs : Service.Step S x S')
    (hcopy : ∀ tid m, x = some (.call tid m) → ¬ m.Copies) : (a.after x.toList).Keeps S' := by
  cases hs with
  | @call tid m hv =>
    refine h.move (m := some m) rfl rfl rfl (fun m' hm => ?_) ?_
    · obtain rfl := Option.some.inj hm
      exact hcopy tid _ rfl
    · rw [hv]
      show a.puts + m.puts + (stored S.bags + a.takes + 0) = a.puts + (stored S.bags + a.takes + m.puts)
      abel
  | @accept tid m l r hv ha =>
    have hst := h.status tid
    rw [hv] at hst
    have hm : a.opened tid = some m := hst
    refine h.move (m := some m) rfl ?_ nofun (fun m' hm' => h.plain tid m' (hm.trans hm')) ?_
    · exact (Function.update_eq_self_iff.2 hm.symm).symm
    · have hpending : (Status.doing l r).pending (some m) = m.puts := by
        cases ha <;> rfl
      rw [hv, hpending]
      rfl
  | @make tid ts l r hv =>
    have hst := h.status tid
    rw [hv] at hst
    refine h.move (m := a.opened tid) rfl (Function.update_eq_self tid _).symm hst (h.plain tid) ?_
    rw [hv]
    show _ = a.puts + (stored (S.make ts).bags + _ + _)
    rw [stored_make]
    simp [Status.pending, Todo.puts, Account.after]
  | @makeDest tid copy ts dest p hv =>
    obtain ⟨pending, hp, hputs⟩ := h.balance
    exact ⟨h.status, h.plain, pending, hp, by rw [stored_make]; exact hputs⟩
  | @act tid i ts b b' act st hb hstep hmoves =>
    obtain ⟨hst, hpending⟩ := hmoves.balance (h.status tid) (h.plain tid)
    refine h.move (m := a.opened tid) rfl (Function.update_eq_self tid _).symm hst (h.plain tid) ?_
    have hitems := hstep.items
    have hstored := stored_set hb b'
    have hbag : stored (S.bags.set i (ts, b')) + act.taken = stored S.bags + act.puts := by
      refine add_right_cancel (b := b'.items) ?_
      calc stored (S.bags.set i (ts, b')) + act.taken + b'.items
          = stored (S.bags.set i (ts, b')) + (b'.items + act.taken) := by abel
        _ = stored (S.bags.set i (ts, b')) + b.items + act.puts := by rw [← hitems, add_assoc]
        _ = stored S.bags + act.puts + b'.items := by rw [hstored]; abel
    show a.puts + (stored S.bags + a.takes + _) = a.puts + (stored (S.bags.set i (ts, b')) + a.takes + _)
    refine congrArg _ (add_right_cancel (b := act.taken) ?_)
    calc stored S.bags + a.takes + (S.calls tid).pending (a.opened tid) + act.taken
        = a.takes + stored S.bags + ((S.calls tid).pending (a.opened tid) + act.taken) := by abel
      _ = a.takes + (stored S.bags + act.puts) + st.pending (a.opened tid) := by rw [hpending]; abel
      _ = stored (S.bags.set i (ts, b')) + a.takes + st.pending (a.opened tid) + act.taken := by
        rw [← hbag]; abel
  | @answer tid r hv =>
    refine h.move (m := none) rfl rfl rfl nofun ?_
    rw [hv]
    show a.puts + (stored S.bags + a.takes + (0 + r.takes (a.opened tid))) =
      a.puts + (stored S.bags + (a.takes + r.takes (a.opened tid)) + 0)
    abel

theorem Account.Keeps.run {l : List Seen} (h : a.Keeps S) (hs : Shows Service.Step S l S')
    (hcopy : ∀ tid m, .call tid m ∈ l → ¬ m.Copies) : (a.after l).Keeps S' := by
  refine hs.fold (f := Account.see) (J := Account.Keeps)
    (C := fun x => ∀ tid m, x = .call tid m → ¬ m.Copies) (fun a S x S' h hs hC => ?_) h
    fun x hx tid m he => hcopy tid m (he ▸ hx)
  exact h.step hs fun tid m hx => hC _ hx tid m rfl

/-! ## Runs of a server -/

variable {w : World} {tr : List (World × Event)}

/-- What has been seen of a run. -/
def history (tr : List (World × Event)) : List Seen := tr.flatMap fun x => x.1.seen x.2

end PyLinda
