import Mathlib.Logic.Function.Basic
import Mathlib.Order.Basic
import PyLinda.Net.Rendezvous

/-!
# Passing a message on

`socket_watcher` passes a message for another node on with `sendMessageToNode`, and so waits in
`recv` like any other caller. But it is the watcher that stores the replies, and the number of the
message is one that the node itself may be using.
-/

namespace PyLinda.Relay

open Lib

/-- Whose semaphore it is. -/
inductive Caller where
  | thread (n : Nat)
  | watcher
  deriving DecidableEq

inductive Watcher where
  /-- In `select`, or about to be. -/
  | reading
  /-- In `sendMessageToNode` with a message of this number. -/
  | relaying (n : Nat) (c : Call)

structure Node where
  messageStore : Dict Nat Stored
  returnLocks : Dict Nat Caller
  /-- The counters of the semaphores. -/
  counts : Caller → Nat
  /-- The call of this node that sent the message with this number. -/
  calls : Nat → Option Call
  /-- The reply that came back for it. -/
  replies : Nat → Option PyObj
  watcher : Watcher

inductive Event where
  /-- `getMsgId` and `send`: no number is used twice. -/
  | send (n : Nat)
  /-- The watcher gets the reply to message `n` of this node. -/
  | reply (n : Nat) (node : String) (msg : PyObj)
  /-- The watcher gets a message for this node, and starts a thread for it. -/
  | request
  /-- The watcher gets a message for another node, and sends it there. -/
  | relay (n : Nat)
  /-- The next section of `recv`. -/
  | turn (who : Caller)

/-- The watcher reads a message. -/
def Event.Reads : Event → Prop
  | reply _ _ _ | request | relay _ => True
  | send _ | turn _ => False

namespace Node

def init : Node where
  messageStore := .empty
  returnLocks := .empty
  counts := fun _ => 0
  calls := fun _ => none
  replies := fun _ => none
  watcher := .reading

def setCall (st : Node) (n : Nat) (c : Call) : Node :=
  { st with calls := Function.update st.calls n (some c) }

def setWatcher (st : Node) (n : Nat) : Call → Node
  | .returned _ => { st with watcher := .reading }
  | c => { st with watcher := .relaying n c }

/-- The watcher stores the reply and releases the semaphore, when there is one. -/
def stored (st : Node) (n : Nat) (m : Stored) : Node :=
  { st with
    messageStore := st.messageStore.set n m
    counts := match st.returnLocks.get? n with
      | some who => Function.update st.counts who (st.counts who + 1)
      | none => st.counts
    replies := Function.update st.replies n (some m.msg) }

/-- The first section of `recv`. -/
def receive (st : Node) (who : Caller) (n : Nat) : Node × Call :=
  match st.messageStore.get? n with
  | some m => ({ st with messageStore := st.messageStore.erase n }, .returned m.pair)
  | none => ({ st with
      returnLocks := st.returnLocks.set n who
      counts := Function.update st.counts who 0 }, .blocked)

/-- `s.acquire()`. -/
def acquire (st : Node) (who : Caller) : Option Node :=
  match st.counts who with
  | 0 => none
  | k + 1 => some { st with counts := Function.update st.counts who k }

/-- The second section of `recv`; only an `IndexError` would be caught. -/
def finish (st : Node) (n : Nat) : Node × Call :=
  match st.returnLocks.get? n with
  | none => (st, .raised .keyError)
  | some _ =>
    let st' := { st with returnLocks := st.returnLocks.erase n }
    match st.messageStore.get? n with
    | none => (st', .raised .keyError)
    | some m => ({ st' with messageStore := st.messageStore.erase n }, .returned (convertFrom m.msg))

/-- What comes next in a call that has got so far. -/
def turn (st : Node) (who : Caller) (n : Nat) : Call → Option (Node × Call)
  | .sent => some (st.receive who n)
  | .blocked => (st.acquire who).map fun st' => (st', .woken)
  | .woken => some (st.finish n)
  | .returned _ | .raised _ => none

/-- The state after an event, `none` where the event cannot happen. Each message is answered once at
most. -/
def next (st : Node) : Event → Option Node
  | .send n =>
    match st.calls n with
    | none => some (st.setCall n .sent)
    | some _ => none
  | .reply n node msg =>
    match st.watcher, st.calls n, st.replies n with
    | .reading, some _, none => some (st.stored n ⟨.tuple [.str node, .str node, .int n], msg⟩)
    | _, _, _ => none
  | .request =>
    match st.watcher with
    | .reading => some st
    | .relaying _ _ => none
  | .relay n =>
    match st.watcher with
    | .reading => some (st.setWatcher n .sent)
    | .relaying _ _ => none
  | .turn (.thread n) =>
    match st.calls n with
    | none => none
    | some c => (st.turn (.thread n) n c).map fun (st', c') => st'.setCall n c'
  | .turn .watcher =>
    match st.watcher with
    | .reading => none
    | .relaying n c => (st.turn .watcher n c).map fun (st', c') => st'.setWatcher n c'

end Node

/-- A step of the threads and the watcher. -/
def Step (st : Node) (e : Event) (st' : Node) : Prop := st.next e = some st'

/-! ## One section -/

variable {st st' : Node} {e : Event} {who : Caller} {n : Nat} {c c' : Call}

/-- What a section of `recv` does to the node, and where the call is then. -/
structure Turned (st : Node) (who : Caller) (n : Nat) (c : Call) (st' : Node) (c' : Call) : Prop where
  calls : st'.calls = st.calls
  replies : st'.replies = st.replies
  watcher : st'.watcher = st.watcher
  /-- Nothing is stored, and no semaphore released. -/
  store : ∀ i, st'.messageStore.get? i = st.messageStore.get? i ∨ st'.messageStore.get? i = none
  counts : ∀ w, st'.counts w ≤ st.counts w
  locks : ∀ i w, st'.returnLocks.get? i = some w → st.returnLocks.get? i = some w ∨ i = n ∧ w = who
  /-- What comes back was in the store. -/
  returned : ∀ r, c' = .returned r → st.messageStore.get? n ≠ none ∧ st'.messageStore.get? n = none
  blocked : c' = .blocked → c = .sent ∧ st'.counts who = 0
  woken : c' = .woken → c = .blocked ∧ st.counts who ≠ 0
  raised : ∀ x, c' = .raised x → c = .woken
  sent : c' ≠ .sent

theorem erase_store (i : Nat) : (st.messageStore.erase n).get? i = st.messageStore.get? i ∨
    (st.messageStore.erase n).get? i = none := by
  by_cases hi : i = n
  · exact .inr (hi ▸ Dict.get?_erase_self)
  · exact .inl (Dict.get?_erase_ne hi)

theorem update_le {f : Caller → Nat} {k : Nat} (h : k ≤ f who) (w : Caller) : Function.update f who k w ≤ f w := by
  by_cases hw : w = who
  · subst hw
    rwa [Function.update_self]
  · exact Nat.le_of_eq (Function.update_of_ne hw k f)

theorem receive_turned (who : Caller) (n : Nat) :
    Turned st who n .sent (st.receive who n).1 (st.receive who n).2 := by
  unfold Node.receive
  cases hm : st.messageStore.get? n with
  | some m =>
    exact {
      calls := rfl, replies := rfl, watcher := rfl
      store := erase_store
      counts := fun _ => Nat.le_refl _
      locks := fun _ _ h => .inl h
      returned := fun _ _ => ⟨by rw [hm]; exact nofun, Dict.get?_erase_self⟩
      blocked := nofun
      woken := nofun
      raised := nofun
      sent := nofun }
  | none =>
    exact {
      calls := rfl, replies := rfl, watcher := rfl
      store := fun _ => .inl rfl
      counts := update_le (Nat.zero_le _)
      locks := fun i w h => by
        by_cases hi : i = n
        · subst hi
          rw [Dict.get?_set_self] at h
          exact .inr ⟨rfl, (Option.some.inj h).symm⟩
        · rw [Dict.get?_set_ne hi] at h
          exact .inl h
      returned := nofun
      blocked := fun _ => ⟨rfl, Function.update_self ..⟩
      woken := nofun
      raised := nofun
      sent := nofun }

theorem acquire_turned (h : st.acquire who = some st') (n : Nat) :
    Turned st who n .blocked st' .woken := by
  unfold Node.acquire at h
  cases hk : st.counts who with
  | zero => simp [hk] at h
  | succ k =>
    simp only [hk, Option.some.injEq] at h
    subst h
    exact {
      calls := rfl, replies := rfl, watcher := rfl
      store := fun _ => .inl rfl
      counts := update_le (by omega)
      locks := fun _ _ h => .inl h
      returned := nofun
      blocked := nofun
      woken := fun _ => ⟨rfl, by omega⟩
      raised := nofun
      sent := nofun }

theorem erase_locks {i : Nat} {w : Caller} (h : (st.returnLocks.erase n).get? i = some w) :
    st.returnLocks.get? i = some w := by
  by_cases hi : i = n
  · rw [hi, Dict.get?_erase_self] at h
    cases h
  · rwa [Dict.get?_erase_ne hi] at h

theorem finish_turned (who : Caller) (n : Nat) :
    Turned st who n .woken (st.finish n).1 (st.finish n).2 := by
  unfold Node.finish
  cases st.returnLocks.get? n with
  | none =>
    exact {
      calls := rfl, replies := rfl, watcher := rfl
      store := fun _ => .inl rfl
      counts := fun _ => Nat.le_refl _
      locks := fun _ _ h => .inl h
      returned := nofun
      blocked := nofun
      woken := nofun
      raised := fun _ _ => rfl
      sent := nofun }
  | some _ =>
    cases hm : st.messageStore.get? n with
    | none =>
      exact {
        calls := rfl, replies := rfl, watcher := rfl
        store := fun _ => .inl rfl
        counts := fun _ => Nat.le_refl _
        locks := fun _ _ h => .inl (erase_locks h)
        returned := nofun
        blocked := nofun
        woken := nofun
        raised := fun _ _ => rfl
        sent := nofun }
    | some m =>
      exact {
        calls := rfl, replies := rfl, watcher := rfl
        store := erase_store
        counts := fun _ => Nat.le_refl _
        locks := fun _ _ h => .inl (erase_locks h)
        returned := fun _ _ => ⟨by rw [hm]; exact nofun, Dict.get?_erase_self⟩
        blocked := nofun
        woken := nofun
        raised := nofun
        sent := nofun }

theorem turned (h : st.turn who n c = some (st', c')) : Turned st who n c st' c' := by
  cases c with
  | sent =>
    obtain ⟨rfl, rfl⟩ := Prod.mk.inj (Option.some.inj h)
    exact receive_turned who n
  | blocked =>
    obtain ⟨st', hacquire, heq⟩ := Option.map_eq_some_iff.1 h
    cases heq
    exact acquire_turned hacquire n
  | woken =>
    obtain ⟨rfl, rfl⟩ := Prod.mk.inj (Option.some.inj h)
    exact finish_turned who n
  | returned | raised => cases h

/-! ## One event -/

/-- Everything an event can do. -/
theorem next_cases (h : st.next e = some st') :
    (∃ n, e = .send n ∧ st.calls n = none ∧ st' = st.setCall n .sent) ∨
    (∃ n node msg, e = .reply n node msg ∧ st.watcher = .reading ∧ st.calls n ≠ none ∧
      st.replies n = none ∧ st' = st.stored n ⟨.tuple [.str node, .str node, .int n], msg⟩) ∨
    (e = .request ∧ st.watcher = .reading ∧ st' = st) ∨
    (∃ n, e = .relay n ∧ st.watcher = .reading ∧ st' = st.setWatcher n .sent) ∨
    (∃ n c st'' c', e = .turn (.thread n) ∧ st.calls n = some c ∧
      Turned st (.thread n) n c st'' c' ∧ st' = st''.setCall n c') ∨
    (∃ n c st'' c', e = .turn .watcher ∧ st.watcher = .relaying n c ∧
      Turned st .watcher n c st'' c' ∧ st' = st''.setWatcher n c') := by
  cases e with
  | send n =>
    simp only [Node.next] at h
    split at h
    · rename_i hc
      cases h
      exact .inl ⟨n, rfl, hc, rfl⟩
    · cases h
  | reply n node msg =>
    simp only [Node.next] at h
    split at h
    · rename_i hw hc hr
      cases h
      exact .inr (.inl ⟨n, node, msg, rfl, hw, by simp [hc], hr, rfl⟩)
    · cases h
  | request =>
    simp only [Node.next] at h
    split at h
    · rename_i hw
      cases h
      exact .inr (.inr (.inl ⟨rfl, hw, rfl⟩))
    · cases h
  | relay n =>
    simp only [Node.next] at h
    split at h
    · rename_i hw
      cases h
      exact .inr (.inr (.inr (.inl ⟨n, rfl, hw, rfl⟩)))
    · cases h
  | turn who =>
    cases who with
    | thread n =>
      simp only [Node.next] at h
      split at h
      · cases h
      · rename_i c hc
        obtain ⟨⟨st'', c'⟩, hturn, rfl⟩ := Option.map_eq_some_iff.1 h
        exact .inr (.inr (.inr (.inr (.inl ⟨n, c, st'', c', rfl, hc, turned hturn, rfl⟩))))
    | watcher =>
      simp only [Node.next] at h
      split at h
      · cases h
      · rename_i n c hw
        obtain ⟨⟨st'', c'⟩, hturn, rfl⟩ := Option.map_eq_some_iff.1 h
        exact .inr (.inr (.inr (.inr (.inr ⟨n, c, st'', c', rfl, hw, turned hturn, rfl⟩))))

/-! ## Every state -/

/-- What the tables and the calls have to do with the replies, and where the watcher can be. -/
structure Sound (st : Node) : Prop where
  stored : ∀ n, st.messageStore.get? n ≠ none →
    st.replies n ≠ none ∧ st.calls n ≠ none ∧ ∀ r, st.calls n ≠ some (.returned r)
  locks : ∀ i n, st.returnLocks.get? i = some (.thread n) → i = n
  counts : ∀ n, st.counts (.thread n) ≠ 0 → st.replies n ≠ none
  calls : ∀ n c, st.calls n = some c → c = .sent ∨ c = .blocked ∨ st.replies n ≠ none
  watcher : ∀ n c, st.watcher = .relaying n c → c = .sent ∨ c = .blocked ∧ st.counts .watcher = 0

theorem sound_init : Sound .init where
  stored n h := absurd rfl h
  locks i n h := by cases h
  counts n h := absurd rfl h
  calls n c h := by cases h
  watcher n c h := by cases h

theorem setCall_self : (st.setCall n c).calls n = some c := Function.update_self ..

theorem setCall_ne {m : Nat} (c : Call) (h : m ≠ n) : (st.setCall n c).calls m = st.calls m :=
  Function.update_of_ne h ..

theorem setWatcher_frame (st : Node) (n : Nat) (c : Call) :
    (st.setWatcher n c).messageStore = st.messageStore ∧ (st.setWatcher n c).returnLocks = st.returnLocks ∧
      (st.setWatcher n c).counts = st.counts ∧ (st.setWatcher n c).calls = st.calls ∧
      (st.setWatcher n c).replies = st.replies := by
  cases c <;> exact ⟨rfl, rfl, rfl, rfl, rfl⟩

theorem setWatcher_cases (st : Node) (n : Nat) (c : Call) :
    (∃ r, c = .returned r ∧ (st.setWatcher n c).watcher = .reading) ∨
      (st.setWatcher n c).watcher = .relaying n c := by
  cases c with
  | returned r => exact .inl ⟨r, rfl, rfl⟩
  | sent | blocked | woken | raised => exact .inr rfl

theorem Turned.stored (ht : Turned st who n c st' c') {i : Nat} (h : st'.messageStore.get? i ≠ none) :
    st.messageStore.get? i ≠ none := by
  rcases ht.store i with heq | heq
  · rwa [← heq]
  · exact absurd heq h

theorem Turned.zero (ht : Turned st who n c st' c') {w : Caller} (h : st.counts w = 0) : st'.counts w = 0 :=
  Nat.le_zero.1 (h ▸ ht.counts w)

theorem thread_sound (h : Sound st) (hc : st.calls n = some c) (ht : Turned st (.thread n) n c st' c') :
    Sound (st'.setCall n c') where
  stored m hm := by
    obtain ⟨hr, hsome, hnot⟩ := h.stored m (ht.stored hm)
    refine ⟨ht.replies ▸ hr, ?_⟩
    by_cases hmn : m = n
    · subst hmn
      rw [setCall_self]
      refine ⟨nofun, fun r hret => ?_⟩
      exact hm (ht.returned r (Option.some.inj hret)).2
    · rw [setCall_ne _ hmn, ht.calls]
      exact ⟨hsome, hnot⟩
  locks i m hi := by
    rcases ht.locks i _ hi with hi | ⟨rfl, hw⟩
    · exact h.locks i m hi
    · exact (Caller.thread.inj hw).symm
  counts m hm := by
    have hm : st.counts (.thread m) ≠ 0 := fun hz => hm (ht.zero hz)
    exact ht.replies ▸ h.counts m hm
  calls m d hd := by
    show d = .sent ∨ d = .blocked ∨ st'.replies m ≠ none
    rw [ht.replies]
    by_cases hmn : m = n
    · subst hmn
      rw [setCall_self] at hd
      cases hd
      cases hcall : c' with
      | sent => exact .inl rfl
      | blocked => exact .inr (.inl rfl)
      | woken => exact .inr (.inr (h.counts m (ht.woken hcall).2))
      | returned r => exact .inr (.inr (h.stored m (ht.returned r hcall).1).1)
      | raised x =>
        obtain rfl := ht.raised x hcall
        rcases h.calls m _ hc with hs | hb | hr
        · cases hs
        · cases hb
        · exact .inr (.inr hr)
    · rw [setCall_ne _ hmn, ht.calls] at hd
      exact h.calls m d hd
  watcher m d hd := by
    have hd : st'.watcher = .relaying m d := hd
    rw [ht.watcher] at hd
    rcases h.watcher m d hd with hs | ⟨hb, hz⟩
    · exact .inl hs
    · exact .inr ⟨hb, ht.zero hz⟩

theorem watcher_sound (h : Sound st) (hw : st.watcher = .relaying n c)
    (ht : Turned st .watcher n c st' c') : Sound (st'.setWatcher n c') := by
  obtain ⟨hstore, hlocks, hcounts, hcalls, hreplies⟩ := setWatcher_frame st' n c'
  refine ⟨fun m hm => ?_, fun i m hi => ?_, fun m hm => ?_, fun m d hd => ?_, fun m d hd => ?_⟩
  · rw [hstore] at hm
    rw [hreplies, hcalls, ht.replies, ht.calls]
    exact h.stored m (ht.stored hm)
  · rw [hlocks] at hi
    rcases ht.locks i _ hi with hi | ⟨-, hw⟩
    · exact h.locks i m hi
    · cases hw
  · rw [hcounts] at hm
    rw [hreplies, ht.replies]
    exact h.counts m fun hz => hm (ht.zero hz)
  · rw [hcalls, ht.calls] at hd
    rw [hreplies, ht.replies]
    exact h.calls m d hd
  · rw [hcounts]
    rcases setWatcher_cases st' n c' with ⟨r, -, hreading⟩ | hrelaying
    · rw [hreading] at hd
      cases hd
    · rw [hrelaying] at hd
      cases hd
      -- nothing releases the semaphore of the watcher, so it does not get past `acquire`
      cases hcall : c' with
      | sent => exact .inl rfl
      | blocked => exact .inr ⟨rfl, (ht.blocked hcall).2⟩
      | woken =>
        obtain ⟨rfl, hne⟩ := ht.woken hcall
        rcases h.watcher n _ hw with hs | ⟨-, hz⟩
        · cases hs
        · exact absurd hz hne
      | returned r =>
        rw [hcall] at hrelaying
        cases hrelaying
      | raised x =>
        obtain rfl := ht.raised x hcall
        rcases h.watcher n _ hw with hs | ⟨hb, -⟩
        · cases hs
        · cases hb

theorem stored_replies {m : Stored} {i : Nat} (h : st.replies i ≠ none) : (st.stored n m).replies i ≠ none := by
  show Function.update st.replies n (some m.msg) i ≠ none
  by_cases hi : i = n
  · subst hi
    rw [Function.update_self]
    exact nofun
  · rwa [Function.update_of_ne hi]

theorem stored_self {m : Stored} : (st.stored n m).replies n ≠ none := by
  show Function.update st.replies n (some m.msg) n ≠ none
  rw [Function.update_self]
  exact nofun

theorem reply_sound {m : Stored} (h : Sound st) (hw : st.watcher = .reading) (hc : st.calls n ≠ none)
    (hr : st.replies n = none) : Sound (st.stored n m) where
  stored i hi := by
    by_cases hin : i = n
    · subst hin
      refine ⟨stored_self, hc, fun r hret => ?_⟩
      rcases h.calls i _ hret with hs | hb | hrep
      · cases hs
      · cases hb
      · exact hrep hr
    · have hi : (st.messageStore.set n m).get? i ≠ none := hi
      rw [Dict.get?_set_ne hin] at hi
      exact ⟨stored_replies (h.stored i hi).1, (h.stored i hi).2⟩
  locks := h.locks
  counts i hi := by
    cases hlock : st.returnLocks.get? n with
    | none =>
      have hcounts : (st.stored n m).counts = st.counts := by simp [Node.stored, hlock]
      rw [hcounts] at hi
      exact stored_replies (h.counts i hi)
    | some who =>
      have hcounts : (st.stored n m).counts = Function.update st.counts who (st.counts who + 1) := by
        simp [Node.stored, hlock]
      rw [hcounts] at hi
      by_cases hwho : Caller.thread i = who
      · subst hwho
        obtain rfl := h.locks n i hlock
        exact stored_self
      · rw [Function.update_of_ne hwho] at hi
        exact stored_replies (h.counts i hi)
  calls i c hi := by
    rcases h.calls i c hi with hs | hb | hrep
    · exact .inl hs
    · exact .inr (.inl hb)
    · exact .inr (.inr (stored_replies hrep))
  watcher i c hi := by
    have hi : st.watcher = .relaying i c := hi
    rw [hw] at hi
    cases hi

theorem next_sound (h : Sound st) (hn : st.next e = some st') : Sound st' := by
  rcases next_cases hn with ⟨n, rfl, hc, rfl⟩ | ⟨n, node, msg, rfl, hw, hc, hr, rfl⟩ | ⟨rfl, hw, rfl⟩ |
    ⟨n, rfl, hw, rfl⟩ | ⟨n, c, st'', c', rfl, hc, ht, rfl⟩ | ⟨n, c, st'', c', rfl, hw, ht, rfl⟩
  · refine ⟨fun m hm => ?_, h.locks, h.counts, fun m c hm => ?_, h.watcher⟩
    · obtain ⟨hr, hsome, hnot⟩ := h.stored m hm
      have hmn : m ≠ n := by
        rintro rfl
        exact hsome hc
      rw [setCall_ne _ hmn]
      exact ⟨hr, hsome, hnot⟩
    · by_cases hmn : m = n
      · subst hmn
        rw [setCall_self] at hm
        cases hm
        exact .inl rfl
      · rw [setCall_ne _ hmn] at hm
        exact h.calls m c hm
  · exact reply_sound h hw hc hr
  · exact h
  · refine ⟨h.stored, h.locks, h.counts, h.calls, fun m c hm => ?_⟩
    have hm : Watcher.relaying n .sent = .relaying m c := hm
    cases hm
    exact .inl rfl
  · exact thread_sound h hc ht
  · exact watcher_sound h hw ht

/-! ## After a message has been passed on -/

/-- A call of this node whose reply has been taken away. -/
structure Robbed (st : Node) (n : Nat) : Prop where
  replied : st.replies n ≠ none
  gone : st.messageStore.get? n = none
  called : st.calls n ≠ none
  unreturned : ∀ r, st.calls n ≠ some (.returned r)

theorem Turned.gone (ht : Turned st who n c st' c') {i : Nat} (h : st.messageStore.get? i = none) :
    st'.messageStore.get? i = none := by
  rcases ht.store i with heq | heq
  · rw [heq, h]
  · exact heq

/-- It is not answered again, so it never returns. -/
theorem Robbed.next {m : Nat} (h : Robbed st m) (hn : st.next e = some st') : Robbed st' m := by
  rcases next_cases hn with ⟨n, rfl, hc, rfl⟩ | ⟨n, node, msg, rfl, hw, hc, hr, rfl⟩ | ⟨rfl, hw, rfl⟩ |
    ⟨n, rfl, hw, rfl⟩ | ⟨n, c, st'', c', rfl, hc, ht, rfl⟩ | ⟨n, c, st'', c', rfl, hw, ht, rfl⟩
  · have hmn : m ≠ n := by
      rintro rfl
      exact h.called hc
    have hcall : (st.setCall n .sent).calls m = st.calls m := setCall_ne .sent hmn
    exact ⟨h.replied, h.gone, hcall.symm ▸ h.called, hcall.symm ▸ h.unreturned⟩
  · have hmn : m ≠ n := by
      rintro rfl
      exact h.replied hr
    exact ⟨stored_replies h.replied, (Dict.get?_set_ne hmn).trans h.gone, h.called, h.unreturned⟩
  · exact h
  · exact ⟨h.replied, h.gone, h.called, h.unreturned⟩
  · refine ⟨?_, ht.gone h.gone, ?_, fun r hret => ?_⟩
    · show st''.replies m ≠ none
      rw [ht.replies]
      exact h.replied
    · by_cases hmn : m = n
      · subst hmn
        rw [setCall_self]
        exact nofun
      · rw [setCall_ne _ hmn, ht.calls]
        exact h.called
    · by_cases hmn : m = n
      · subst hmn
        rw [setCall_self] at hret
        exact (ht.returned r (Option.some.inj hret)).1 h.gone
      · rw [setCall_ne _ hmn, ht.calls] at hret
        exact h.unreturned r hret
  · obtain ⟨hstore, -, -, hcalls, hreplies⟩ := setWatcher_frame st'' n c'
    refine ⟨?_, ?_, ?_, ?_⟩
    · rw [hreplies, ht.replies]
      exact h.replied
    · rw [hstore]
      exact ht.gone h.gone
    · rw [hcalls, ht.calls]
      exact h.called
    · rw [hcalls, ht.calls]
      exact h.unreturned

/-- The watcher is busy with message `n`: it does not read, and where it gets through it has taken the
reply to a call of this node. -/
theorem relaying_next (h : Sound st) (hw : st.watcher = .relaying n c) (hn : st.next e = some st') :
    ¬ e.Reads ∧ st'.replies = st.replies ∧ ((∃ c', st'.watcher = .relaying n c') ∨ Robbed st' n) := by
  rcases next_cases hn with ⟨m, rfl, hc, rfl⟩ | ⟨m, node, msg, rfl, hr, -⟩ | ⟨rfl, hr, -⟩ |
    ⟨m, rfl, hr, -⟩ | ⟨m, d, st'', d', rfl, hc, ht, rfl⟩ | ⟨m, d, st'', d', rfl, hd, ht, rfl⟩
  · exact ⟨id, rfl, .inl ⟨c, hw⟩⟩
  · rw [hw] at hr
    cases hr
  · rw [hw] at hr
    cases hr
  · rw [hw] at hr
    cases hr
  · exact ⟨id, ht.replies, .inl ⟨c, ht.watcher.trans hw⟩⟩
  · rw [hw] at hd
    cases hd
    obtain ⟨hstore, -, -, hcalls, hreplies⟩ := setWatcher_frame st'' n d'
    refine ⟨id, hreplies.trans ht.replies, ?_⟩
    rcases setWatcher_cases st'' n d' with ⟨r, hret, -⟩ | hrelaying
    · obtain ⟨hne, hgone⟩ := ht.returned r hret
      obtain ⟨hr, hsome, hnot⟩ := h.stored n hne
      refine .inr ⟨?_, ?_, ?_, ?_⟩
      · rwa [hreplies, ht.replies]
      · rwa [hstore]
      · rwa [hcalls, ht.calls]
      · rwa [hcalls, ht.calls]
    · exact .inl ⟨d', hrelaying⟩

/-! ## Runs -/

variable {tr pre post : List (Node × Event)} {s : Node}

theorem run_sound (h : Run Step st tr st') (hs : Sound st) : Sound st' :=
  h.inv (C := fun _ _ => True) (fun _ _ _ hs _ hstep => next_sound hs hstep) hs fun _ _ => trivial

theorem run_robbed (h : Run Step st tr st') (hr : Robbed st n) : Robbed st' n :=
  h.inv (C := fun _ _ => True) (fun _ _ _ (hr : Robbed _ n) _ hstep => hr.next hstep) hr fun _ _ => trivial

theorem run_relaying (h : Run Step st tr st') (hs : Sound st) (hw : st.watcher = .relaying n c) :
    (∀ x ∈ tr, ¬ x.2.Reads) ∧ st'.replies = st.replies ∨ Robbed st' n := by
  induction h generalizing c with
  | nil => exact .inl ⟨nofun, rfl⟩
  | cons hstep hrun ih =>
    obtain ⟨hread, hreplies, ⟨c', hw'⟩ | hrobbed⟩ := relaying_next hs hw hstep
    · rcases ih (next_sound hs hstep) hw' with ⟨hreads, heq⟩ | hrobbed
      · exact .inl ⟨List.forall_mem_cons.2 ⟨hread, hreads⟩, heq.trans hreplies⟩
      · exact .inr hrobbed
    · exact .inr (run_robbed hrun hrobbed)

/-- Once a node has passed a message on, it either reads no message any more, so that no call that
was waiting for its reply ever returns, or it has taken the reply to a call of its own with the same
number, which never returns. -/
theorem relay_harms (h : Run Step .init (pre ++ (s, .relay n) :: post) st) :
    (∀ x ∈ post, ¬ x.2.Reads) ∧
        (∀ m, s.replies m = none → ∀ r, st.calls m ≠ some (.returned r)) ∨
      Robbed st n := by
  obtain ⟨_, hpre, hrest⟩ := h.split
  cases hrest with
  | @cons _ t _ _ _ hstep hpost =>
    have hsound := next_sound (run_sound hpre sound_init) hstep
    obtain ⟨hw, hreplies⟩ : t.watcher = .relaying n .sent ∧ t.replies = s.replies := by
      rcases next_cases hstep with ⟨_, he, -⟩ | ⟨_, _, _, he, -⟩ | ⟨he, -⟩ | ⟨m, he, -, rfl⟩ |
        ⟨_, _, _, _, he, -⟩ | ⟨_, _, _, _, he, -⟩ <;> cases he
      exact ⟨rfl, rfl⟩
    rcases run_relaying hpost hsound hw with ⟨hreads, heq⟩ | hrobbed
    · refine .inl ⟨hreads, fun m hm r hr => ?_⟩
      rcases (run_sound hpost hsound).calls m _ hr with hs | hb | hne
      · cases hs
      · cases hb
      · rw [heq, hreplies] at hne
        exact hne hm
    · exact .inr hrobbed

/-- A node waits for the answer to its message 1 when it passes on a message 7. -/
def stalled : List Event := [.send 1, .turn (.thread 1), .relay 7, .turn .watcher]

theorem relay_harms_stalled : ∃ tr st, Run Step .init tr st ∧ tr.map Prod.snd = stalled ∧
    ((∀ r, st.calls 1 ≠ some (.returned r)) ∨ Robbed st 7) := by
  obtain ⟨pre, s, post, htr, hs⟩ : ∃ pre s post,
      trace? Node.next .init stalled = pre ++ (s, .relay 7) :: post ∧ s.replies 1 = none :=
    ⟨[_, _], _, _, rfl, rfl⟩
  obtain ⟨st, hexec⟩ : ∃ st, exec? Node.next .init stalled = some st := ⟨_, rfl⟩
  obtain ⟨hrun, hevents⟩ := Run.of_exec? (P := fun _ _ => True) (fun _ _ _ => trivial) hexec
  have hrun : Run Step .init (trace? Node.next .init stalled) st := hrun.imp fun _ _ _ h => h.2
  refine ⟨_, st, hrun, hevents, ?_⟩
  rw [htr] at hrun
  rcases relay_harms hrun with ⟨-, hwaits⟩ | hrobbed
  · exact .inl (hwaits 1 hs)
  · exact .inr hrobbed

end PyLinda.Relay
