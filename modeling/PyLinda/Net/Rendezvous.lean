import PyLinda.Lib.Dict
import PyLinda.Lib.Run
import PyLinda.Net.Object

/-!
# Waiting for a reply

A thread that has sent a message waits in `recv` for the message that comes back
with the same number; `socket_watcher` stores the replies. `ms_lock` makes each of
their sections one step. In `recv` there are two ways out: the reply is in
`message_store` already, or the thread leaves a semaphore in `return_locks` and
waits until the watcher has released it.
-/

namespace PyLinda

open Lib

/-- An entry of `message_store`: the message id and the rest of the message. -/
structure Stored where
  msgid : PyObj
  msg : PyObj

/-- The entry is a pair. -/
def Stored.pair (m : Stored) : PyObj := .tuple [m.msgid, m.msg]

/-- `convertFrom_none`. -/
def convertFrom (x : PyObj) : PyObj := x

/-- How far a call of `sendrecv` has got. -/
inductive Call where
  /-- The message is sent; `recv` is next. -/
  | sent
  /-- In `s.acquire()`. -/
  | blocked
  /-- Past it. -/
  | woken
  | returned (r : PyObj)
  | raised (e : PyExc)

structure Rendezvous where
  messageStore : Dict Nat Stored
  /-- The counters of the semaphores. -/
  returnLocks : Dict Nat Nat
  /-- The call that sent the message with this number. -/
  calls : Nat → Option Call
  /-- The reply that came back for it. -/
  replies : Nat → Option PyObj

namespace Rendezvous

inductive Event where
  /-- `getMsgId` and `send`: no number is used twice. -/
  | send (n : Nat)
  /-- The watcher gets the reply to message `n` of the node `node`. -/
  | reply (n : Nat) (node : String) (msg : PyObj)
  /-- The first section of `recv`. -/
  | recv (n : Nat)
  | acquire (n : Nat)
  /-- The second section of `recv`. -/
  | finish (n : Nat)

def init : Rendezvous where
  messageStore := .empty
  returnLocks := .empty
  calls := fun _ => none
  replies := fun _ => none

def setCall (st : Rendezvous) (n : Nat) (c : Call) : Rendezvous :=
  { st with calls := fun m => if m = n then some c else st.calls m }

/-- The watcher stores the reply and releases the semaphore, when there is one. -/
def stored (st : Rendezvous) (n : Nat) (m : Stored) : Rendezvous :=
  { st with
    messageStore := st.messageStore.set n m
    returnLocks := match st.returnLocks.get? n with
      | some k => st.returnLocks.set n (k + 1)
      | none => st.returnLocks
    replies := fun i => if i = n then some m.msg else st.replies i }

/-- The first section of `recv`. -/
def received (st : Rendezvous) (n : Nat) : Rendezvous :=
  match st.messageStore.get? n with
  | some m => { st with messageStore := st.messageStore.erase n }.setCall n (.returned m.pair)
  | none => { st with returnLocks := st.returnLocks.set n 0 }.setCall n .blocked

/-- The second section of `recv`; only an `IndexError` would be caught. -/
def finished (st : Rendezvous) (n : Nat) : Rendezvous :=
  match st.returnLocks.get? n with
  | none => st.setCall n (.raised .keyError)
  | some _ =>
    let st' := { st with returnLocks := st.returnLocks.erase n }
    match st.messageStore.get? n with
    | none => st'.setCall n (.raised .keyError)
    | some m => { st' with messageStore := st.messageStore.erase n }.setCall n
        (.returned (convertFrom m.msg))

/-- The state after an event, `none` where the event cannot happen. Each message is
answered once at most. -/
def next (st : Rendezvous) : Event → Option Rendezvous
  | .send n =>
    match st.calls n with
    | none => some (st.setCall n .sent)
    | some _ => none
  | .reply n node msg =>
    match st.calls n, st.replies n with
    | some _, none => some (st.stored n ⟨.tuple [.str node, .str node, .int n], msg⟩)
    | _, _ => none
  | .recv n =>
    match st.calls n with
    | some .sent => some (st.received n)
    | _ => none
  | .acquire n =>
    match st.calls n, st.returnLocks.get? n with
    | some .blocked, some (k + 1) =>
      some ({ st with returnLocks := st.returnLocks.set n k }.setCall n .woken)
    | _, _ => none
  | .finish n =>
    match st.calls n with
    | some .woken => some (st.finished n)
    | _ => none

/-- The calls that have returned got their replies. -/
def Delivered (st : Rendezvous) : Prop :=
  ∀ n r, st.calls n = some (.returned r) → ∃ msg, st.replies n = some msg ∧ r = convertFrom msg

/-- No thread in `recv` can go on. -/
def Stuck (st : Rendezvous) : Prop :=
  ∀ n, st.next (.recv n) = none ∧ st.next (.acquire n) = none ∧ st.next (.finish n) = none

/-- No call has raised, those that have returned have left nothing in the tables, and
when no thread can go on those whose replies have come have returned. -/
def Settled (st : Rendezvous) : Prop :=
  (∀ n e, st.calls n ≠ some (.raised e)) ∧
  (∀ n r, st.calls n = some (.returned r) →
    n ∉ st.messageStore.keys ∧ n ∉ st.returnLocks.keys) ∧
  (st.Stuck → ∀ n msg, st.replies n = some msg → ∃ r, st.calls n = some (.returned r))

/-- The condition on a step: `recv` comes before the reply. -/
def Event.Registers (st : Rendezvous) : Event → Prop
  | .recv n => st.replies n = none
  | _ => True

/-- A step of the threads and the watcher. -/
def Step (st : Rendezvous) (e : Event) (st' : Rendezvous) : Prop := st.next e = some st'

/-! ## One call -/

/-- The entries for a message whose call has got so far. -/
def Phase (call : Option Call) (reply : Option PyObj) (m : Option Stored) (lock : Option Nat) :
    Prop :=
  match call with
  | none => reply = none ∧ m = none ∧ lock = none
  | some .sent => m.map Stored.msg = reply ∧ lock = none
  | some .blocked => m.map Stored.msg = reply ∧ lock = some (if reply.isSome then 1 else 0)
  | some .woken => reply.isSome ∧ m.map Stored.msg = reply ∧ lock = some 0
  | some (.returned _) => reply.isSome ∧ m = none ∧ lock = none
  | some (.raised _) => False

/-- The tables fit the calls. -/
def Tidy (st : Rendezvous) : Prop :=
  ∀ n, Phase (st.calls n) (st.replies n) (st.messageStore.get? n) (st.returnLocks.get? n)

variable {st st' : Rendezvous}

theorem tidy_init : Tidy init := fun _ => ⟨rfl, rfl, rfl⟩

/-- The message an event is about. -/
def Event.num : Event → Nat
  | .send n | .reply n _ _ | .recv n | .acquire n | .finish n => n

/-- An event leaves the entries for the other messages alone. -/
theorem next_frame {e : Event} (h : st.next e = some st') {m : Nat} (hm : m ≠ e.num) :
    st'.calls m = st.calls m ∧ st'.replies m = st.replies m ∧
      st'.messageStore.get? m = st.messageStore.get? m ∧
      st'.returnLocks.get? m = st.returnLocks.get? m := by
  cases e with
  | send n =>
    simp only [next] at h
    split at h <;> cases h
    simp_all [setCall, Event.num]
  | reply n node msg =>
    simp only [next] at h
    split at h <;> cases h
    simp only [Event.num] at hm
    cases hl : st.returnLocks.get? n <;> simp [stored, hl, hm, Dict.get?_set_ne hm]
  | recv n =>
    simp only [next] at h
    split at h <;> cases h
    simp only [Event.num] at hm
    cases hs : st.messageStore.get? n <;>
      simp [received, hs, setCall, hm, Dict.get?_set_ne hm, Dict.get?_erase_ne hm]
  | acquire n =>
    simp only [next] at h
    split at h <;> cases h
    simp only [Event.num] at hm
    simp [setCall, hm, Dict.get?_set_ne hm]
  | finish n =>
    simp only [next] at h
    split at h <;> cases h
    simp only [Event.num] at hm
    cases hl : st.returnLocks.get? n <;> cases hs : st.messageStore.get? n <;>
      simp [finished, hl, hs, setCall, hm, Dict.get?_erase_ne hm]

/-- What an event does to the entries for its message, from a state where they fit. -/
theorem next_cases {e : Event} (ht : st.Tidy) (h : st.next e = some st') :
    match e with
    | .send n => st.calls n = none ∧ st'.calls n = some .sent ∧ st'.replies n = none ∧
        st'.messageStore.get? n = none ∧ st'.returnLocks.get? n = none
    | .reply n node msg => st'.calls n = st.calls n ∧ (st.calls n).isSome ∧ st.replies n = none ∧
        st'.replies n = some msg ∧
        st'.messageStore.get? n = some ⟨.tuple [.str node, .str node, .int n], msg⟩ ∧
        st'.returnLocks.get? n = (st.returnLocks.get? n).map (· + 1)
    | .recv n => st.calls n = some .sent ∧ st'.replies n = st.replies n ∧
        st'.messageStore.get? n = none ∧
        ((∃ m, st.messageStore.get? n = some m ∧ st.replies n = some m.msg ∧
            st'.calls n = some (.returned m.pair) ∧ st'.returnLocks.get? n = none) ∨
          st.replies n = none ∧ st'.calls n = some .blocked ∧ st'.returnLocks.get? n = some 0)
    | .acquire n => st.calls n = some .blocked ∧ (st.replies n).isSome ∧
        st'.replies n = st.replies n ∧ st'.calls n = some .woken ∧
        st'.messageStore.get? n = st.messageStore.get? n ∧ st'.returnLocks.get? n = some 0
    | .finish n => st.calls n = some .woken ∧ st'.replies n = st.replies n ∧
        (∃ msg, st.replies n = some msg ∧ st'.calls n = some (.returned (convertFrom msg))) ∧
        st'.messageStore.get? n = none ∧ st'.returnLocks.get? n = none := by
  have hph := ht e.num
  cases e with
  | send n =>
    simp only [next] at h
    split at h <;> cases h
    rename_i hc
    simp only [Event.num, Phase, hc] at hph
    simpa [setCall, hc] using hph
  | reply n node msg =>
    simp only [next] at h
    split at h <;> cases h
    rename_i hc hr
    cases hl : st.returnLocks.get? n <;> simp [stored, hl, hc, hr, Dict.get?_set_self]
  | recv n =>
    simp only [next] at h
    split at h <;> cases h
    rename_i hc
    simp only [Event.num, Phase, hc] at hph
    cases hs : st.messageStore.get? n with
    | none =>
      have hr : st.replies n = none := by simpa [hs, eq_comm] using hph.1
      simp [received, hs, setCall, hr, hc, Dict.get?_set_self]
    | some m =>
      have hr : st.replies n = some m.msg := by simpa [hs, eq_comm] using hph.1
      simp [received, hs, setCall, hr, hc, Dict.get?_erase_self, hph.2]
  | acquire n =>
    simp only [next] at h
    split at h <;> cases h
    rename_i k hc hl
    simp only [Event.num, Phase, hc, hl] at hph
    cases hr : st.replies n with
    | none => simp [hr] at hph
    | some msg =>
      obtain rfl : k = 0 := by simpa [hr] using hph.2
      simp [setCall, hr, hc, Dict.get?_set_self]
  | finish n =>
    simp only [next] at h
    split at h <;> cases h
    rename_i hc
    simp only [Event.num, Phase, hc] at hph
    obtain ⟨hsome, hm, hl⟩ := hph
    cases hs : st.messageStore.get? n with
    | none =>
      have hr : st.replies n = none := by simpa [hs, eq_comm] using hm
      simp [hr] at hsome
    | some m =>
      have hr : st.replies n = some m.msg := by simpa [hs, eq_comm] using hm
      simp [finished, hl, hs, setCall, hr, hc, Dict.get?_erase_self]

theorem Tidy.next {e : Event} (ht : st.Tidy) (h : st.next e = some st') : st'.Tidy := by
  intro m
  have hph := ht m
  by_cases hm : m = e.num
  · subst hm
    have hc := next_cases ht h
    cases e with
    | send n =>
      obtain ⟨-, h1, h2, h3, h4⟩ := hc
      simp only [Event.num, Phase, h1, h2, h3, h4]
      simp
    | reply n node msg =>
      obtain ⟨h1, hsome, hnone, h2, h3, h4⟩ := hc
      simp only [Event.num] at hph ⊢
      rw [h1, h2, h3, h4]
      cases hcall : st.calls n with
      | none => simp [hcall] at hsome
      | some c => cases c <;> simp_all [Phase]
    | recv n =>
      obtain ⟨-, h1, h2, ⟨m, -, h3, h4, h5⟩ | ⟨h3, h4, h5⟩⟩ := hc
      · simp [Event.num, Phase, h1, h2, h3, h4, h5]
      · simp [Event.num, Phase, h1, h2, h3, h4, h5]
    | acquire n =>
      obtain ⟨h0, h1, h2, h3, h4, h5⟩ := hc
      simp only [Event.num, Phase, h0] at hph
      simp [Event.num, Phase, h1, h2, h3, h4, h5, hph.1]
    | finish n =>
      obtain ⟨-, h1, ⟨msg, h2, h3⟩, h4, h5⟩ := hc
      simp [Event.num, Phase, h1, h2, h3, h4, h5]
  · obtain ⟨h1, h2, h3, h4⟩ := next_frame h hm
    rw [h1, h2, h3, h4]
    exact hph

/-! ## What a call returns -/

/-- A step gets every reply through exactly when it meets its condition. -/
theorem delivered_next_iff {e : Event} (ht : st.Tidy) (hd : st.Delivered)
    (h : st.next e = some st') : st'.Delivered ↔ e.Registers st := by
  have hc := next_cases ht h
  have hother : ∀ n r, n ≠ e.num → st'.calls n = some (.returned r) →
      ∃ msg, st'.replies n = some msg ∧ r = convertFrom msg := by
    intro n r hn hr
    obtain ⟨h1, h2, -, -⟩ := next_frame h hn
    rw [h2]
    exact hd n r (h1 ▸ hr)
  -- what is left is the call that the event is about
  have hself : (∀ r, st'.calls e.num = some (.returned r) →
      ∃ msg, st'.replies e.num = some msg ∧ r = convertFrom msg) ↔ st'.Delivered := by
    constructor
    · intro hs n r hr
      by_cases hn : n = e.num
      · subst hn
        exact hs r hr
      · exact hother n r hn hr
    · intro hall r hr
      exact hall _ r hr
  rw [← hself]
  cases e with
  | send n =>
    obtain ⟨-, h1, -⟩ := hc
    simp [Event.num, Event.Registers, h1]
  | reply n node msg =>
    obtain ⟨h1, -, h2, h3, -⟩ := hc
    refine iff_of_true (fun r hr => ?_) trivial
    rw [Event.num, h1] at hr
    obtain ⟨msg', hm, -⟩ := hd n r hr
    rw [h2] at hm
    cases hm
  | recv n =>
    obtain ⟨-, h1, -, ⟨m, -, h2, h3, -⟩ | ⟨h2, h3, -⟩⟩ := hc
    · refine iff_of_false (fun hall => ?_) (by simp [Event.Registers, h2])
      obtain ⟨msg, hm, hr⟩ := hall _ h3
      rw [Event.num, h1, h2] at hm
      cases hm
      exact PyObj.tuple_ne (o := m.msg) (by simp) hr
    · simp [Event.num, Event.Registers, h2, h3]
  | acquire n =>
    obtain ⟨-, -, -, h1, -⟩ := hc
    simp [Event.num, Event.Registers, h1]
  | finish n =>
    obtain ⟨-, h1, ⟨msg, h2, h3⟩, -⟩ := hc
    refine iff_of_true (fun r hr => ?_) trivial
    rw [Event.num, h3] at hr
    cases hr
    exact ⟨msg, by rw [Event.num, h1, h2], rfl⟩

theorem Tidy.settled (ht : st.Tidy) : st.Settled := by
  have hkeys : ∀ {ν : Type} {d : Dict Nat ν} {n : Nat}, d.get? n = none → n ∉ d.keys := by
    intro ν d n hn hmem
    obtain ⟨v, hv⟩ := Dict.mem_keys.1 hmem
    rw [Dict.get?_eq_some hv] at hn
    cases hn
  refine ⟨fun n e hc => ?_, fun n r hc => ?_, fun hstuck n msg hr => ?_⟩
  · have hph := ht n
    simp [Phase, hc] at hph
  · have hph := ht n
    simp only [Phase, hc] at hph
    exact ⟨hkeys hph.2.1, hkeys hph.2.2⟩
  · have hph := ht n
    obtain ⟨h1, h2, h3⟩ := hstuck n
    cases hc : st.calls n with
    | none => simp [Phase, hc, hr] at hph
    | some c =>
      cases c with
      | sent => simp [Rendezvous.next, hc] at h1
      | blocked =>
        simp only [Phase, hc, hr, Option.isSome_some, if_true] at hph
        simp [Rendezvous.next, hc, hph.2] at h2
      | woken => simp [Rendezvous.next, hc] at h3
      | returned r => exact ⟨r, rfl⟩
      | raised e => simp [Phase, hc] at hph

/-- A call returns once: nothing happens to it afterwards. -/
theorem returned_stays {e : Event} {n : Nat} {r : PyObj} (ht : st.Tidy)
    (h : st.next e = some st') (hr : st.calls n = some (.returned r)) :
    st'.calls n = some (.returned r) := by
  by_cases hn : n = e.num
  · subst hn
    have hc := next_cases ht h
    cases e <;> simp_all [Event.num]
  · rw [(next_frame h hn).1, hr]

/-- In every run each call that returns does so once and leaves the tables clean, and
every reply that has come gets a waiting call to return. The calls return their
replies throughout exactly when no reply overtakes the registration of the lock: a
call that finds its reply stored returns the entry of the table. -/
theorem rendezvous_iff {tr : List (Rendezvous × Event)} (h : Run Step init tr st) :
    (Throughout Delivered tr st ↔ ∀ x ∈ tr, x.2.Registers x.1) ∧ Throughout Settled tr st ∧
      ∀ x ∈ tr, ∀ st', Step x.1 x.2 st' → ∀ n r, x.1.calls n = some (.returned r) →
        st'.calls n = some (.returned r) := by
  have htidy : Throughout Tidy tr st := h.throughout (C := fun _ _ => True)
    (fun _ _ _ ht _ hs => Tidy.next ht hs) tidy_init (by simp)
  refine ⟨h.throughout_iff (I := Tidy) (C := fun st e => e.Registers st)
      (fun _ _ _ ht _ _ hs => Tidy.next ht hs) (fun _ _ _ ht hd hs => delivered_next_iff ht hd hs)
      tidy_init (fun n r hr => by cases hr),
    ⟨fun x hx => (htidy.1 x hx).settled, htidy.2.settled⟩, fun x hx st' hs n r hr => ?_⟩
  exact returned_stays (htidy.1 x hx) hs hr

/-! ## Two orders -/

/-- A call registers its lock before the reply comes, or the reply overtakes it. -/
def inOrder (node : String) (msg : PyObj) : List Event :=
  [.send 1, .recv 1, .reply 1 node msg, .acquire 1, .finish 1]

def overtaken (node : String) (msg : PyObj) : List Event := [.send 1, .reply 1 node msg, .recv 1]

theorem inOrder_delivered : ∃ tr st, Run Step init tr st ∧
    tr.map Prod.snd = inOrder "N1" (.tuple [.str "DONE"]) ∧ Throughout Delivered tr st ∧
    st.calls 1 = some (.returned (.tuple [.str "DONE"])) := by
  obtain ⟨st, hst⟩ : ∃ st, exec? next init (inOrder "N1" (.tuple [.str "DONE"])) = some st :=
    ⟨_, rfl⟩
  obtain ⟨hr, htr⟩ := Run.of_exec? (P := fun _ _ => True) (by simp) hst
  have hrun : Run Step init (trace? next init (inOrder "N1" (.tuple [.str "DONE"]))) st :=
    hr.imp fun _ _ _ hs => hs.2
  refine ⟨_, st, hrun, htr, (rendezvous_iff hrun).1.2 ?_, ?_⟩
  · refine List.forall_mem_cons.2 ⟨trivial, List.forall_mem_cons.2 ⟨rfl, ?_⟩⟩
    exact List.forall_mem_cons.2 ⟨trivial, List.forall_mem_cons.2 ⟨trivial,
      List.forall_mem_cons.2 ⟨trivial, fun x hx => (List.not_mem_nil hx).elim⟩⟩⟩
  · cases hst
    rfl

/-- The same reply: the call returns it in a pair with the message id. -/
theorem overtaken_pair : ∃ tr st, Run Step init tr st ∧
    tr.map Prod.snd = overtaken "N1" (.tuple [.str "DONE"]) ∧ ¬ st.Delivered ∧
    st.calls 1 = some (.returned (.tuple
      [.tuple [.str "N1", .str "N1", .int 1], .tuple [.str "DONE"]])) := by
  obtain ⟨st, hst⟩ : ∃ st, exec? next init (overtaken "N1" (.tuple [.str "DONE"])) = some st :=
    ⟨_, rfl⟩
  obtain ⟨hr, htr⟩ := Run.of_exec? (P := fun _ _ => True) (by simp) hst
  have hrun : Run Step init (trace? next init (overtaken "N1" (.tuple [.str "DONE"]))) st :=
    hr.imp fun _ _ _ hs => hs.2
  have hcall : st.calls 1 = some (.returned (.tuple
      [.tuple [.str "N1", .str "N1", .int 1], .tuple [.str "DONE"]])) := by
    cases hst
    rfl
  refine ⟨_, st, hrun, htr, fun hd => ?_, hcall⟩
  obtain ⟨msg, hm, he⟩ := hd 1 _ hcall
  cases hst
  cases hm
  cases he

end Rendezvous

end PyLinda
