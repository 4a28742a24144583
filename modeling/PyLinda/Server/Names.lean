import Mathlib.Data.List.DropRight
import PyLinda.Lib.Dict
import PyLinda.Server.Guid
import PyLinda.Value

/-!
# Names

The ids that servers make up for nodes, processes, threads, tuplespaces and types, and the tests of
`utils.py` that tell the kinds of them apart. Each server has its own runtime, so its own guids.
-/

namespace PyLinda.Names

open Lib Guid

/-! ## Tests -/

/-- `isTupleSpaceId` of a string. -/
def isTupleSpaceId (id : List Char) : Bool :=
  id = ['U', 'T', 'S'] || id.length = 41 && id[0]? = some 'S'

/-- `isNodeId` of a string. -/
def isNodeId (id : List Char) : Bool := id.length = 41 && id[0]? = some 'N'

/-- `isProcessId` of a string. -/
def isProcessId (id : List Char) : Bool := id.length = 41 && id[0]? = some 'P'

/-- `int(s)` does not raise. -/
def isInt (s : List Char) : Bool :=
  let s := (s.dropWhile Char.isWhitespace).rdropWhile Char.isWhitespace
  let digits := match s with
    | '-' :: digits | '+' :: digits => digits
    | digits => digits
  !digits.isEmpty && digits.all Char.isDigit

/-- `isThreadId` of a string. -/
def isThreadId (id : List Char) : Bool :=
  match id.splitOn '!' with
  | [pid, thread] => isProcessId pid && isInt thread
  | _ => false

def getProcessIdFromThreadId (tid : List Char) : Except PyExc (List Char) :=
  if isThreadId tid then .ok ((tid.splitOn '!').headD []) else .error .assertionError

/-! ## Servers -/

inductive Kind where
  | node
  | process
  | thread (pid : List Char)
  | tuplespace
  | type
  deriving DecidableEq

/-- An id that has been made up. -/
structure Entry where
  kind : Kind
  id : List Char

/-- Servers, and the ids they have made up, the last one first. -/
structure Registry (ι : Type) where
  guids : System ι
  /-- `pthread_count`: the counter of each `Counter`. -/
  pthreadCount : ι → Dict (List Char) Nat
  entries : List Entry

inductive Event (ι : Type) where
  | main (c : Guid.Call ι)
  | registerProcess (c : Guid.Call ι)
  | registerThread (server : ι) (pid : List Char)
  | createTuplespace (c : Guid.Call ι)
  | registerType (c : Guid.Call ι)

section
variable {ι : Type} [DecidableEq ι]

namespace Registry

def init : Registry ι := ⟨.init, fun _ => .empty, []⟩

def setCount (r : Registry ι) (server : ι) (pid : List Char) (n : Nat) : Registry ι :=
  { r with pthreadCount := Function.update r.pthreadCount server ((r.pthreadCount server).set pid n) }

/-- The letter and a new guid. -/
def make (addr : ι → Address) (r : Registry ι) (c : Guid.Call ι) (kind : Kind) (letter : Char) :
    Option (List Char × Registry ι) := do
  let (guid, s) ← generate (addr c.runtime).hexip c.readings c.start (r.guids.states c.runtime)
  let id := letter :: guid
  pure (id, { r with guids := r.guids.made c guid s, entries := ⟨kind, id⟩ :: r.entries })

/-- `"%s!%i" % (p_id, pthread_count[p_id].next())`, unless there is no such counter. -/
def thread (r : Registry ι) (server : ι) (pid : List Char) : Option (Registry ι) := do
  let n ← (r.pthreadCount server).get? pid
  let id := pid ++ '!' :: Nat.toDigits 10 (n + 1)
  pure { r.setCount server pid (n + 1) with entries := ⟨.thread pid, id⟩ :: r.entries }

def next (addr : ι → Address) (r : Registry ι) : Event ι → Option (Registry ι)
  | .main c => (r.make addr c .node 'N').map Prod.snd
  | .registerProcess c => (r.make addr c .process 'P').map fun (pid, r) => r.setCount c.runtime pid 0
  | .registerThread server pid => r.thread server pid
  | .createTuplespace c => (r.make addr c .tuplespace 'S').map Prod.snd
  | .registerType c => (r.make addr c .type 'T').map Prod.snd

end Registry

/-- The requests to the servers, in any order. -/
def Step (addr : ι → Address) (r : Registry ι) (e : Event ι) (r' : Registry ι) : Prop :=
  r.next addr e = some r'

/-- The call of `generate`, if there is one. -/
def Event.call : Event ι → Option (Guid.Call ι)
  | main c | registerProcess c | createTuplespace c | registerType c => some c
  | registerThread _ _ => none

/-- No clock goes back. -/
def Event.Proper (r : Registry ι) (e : Event ι) : Prop := ∀ c ∈ e.call, c.Proper r.guids

instance (r : Registry ι) (e : Event ι) : Decidable (e.Proper r) := by
  unfold Event.Proper
  infer_instance

end

/-! ## What has been made up -/

/-- The letter in front of the guid. -/
def Kind.letter : Kind → Option Char
  | node => some 'N'
  | process => some 'P'
  | thread _ => none
  | tuplespace => some 'S'
  | type => some 'T'

section
variable {ι : Type} {addr : ι → Address} {r r' : Registry ι} {c : Guid.Call ι} {e : Entry}
  {server : ι} {kind : Kind} {letter : Char} {id pid guid : List Char} {n k : Nat}

/-- Where the id comes from. -/
inductive Entry.Made (r : Registry ι) : Entry → Prop where
  | guid {kind : Kind} {letter : Char} {x : Issue ι} :
      kind.letter = some letter → x ∈ r.guids.issued → Made r ⟨kind, letter :: x.guid⟩
  | thread (server : ι) {pid : List Char} {n k : Nat} :
      (r.pthreadCount server).get? pid = some n → k ≤ n →
      Made r ⟨.thread pid, pid ++ '!' :: Nat.toDigits 10 k⟩

/-- `pid` is an id that this server has given to a process. -/
structure Registry.Registered (r : Registry ι) (server : ι) (pid : List Char) : Prop where
  guid : ∃ x ∈ r.guids.issued, x.runtime = server ∧ pid = 'P' :: x.guid
  entry : ⟨.process, pid⟩ ∈ r.entries

variable (addr) in
structure Registry.Sound (r : Registry ι) : Prop where
  guids : r.guids.Sound addr
  counted : ∀ i pid n, (r.pthreadCount i).get? pid = some n → r.Registered i pid
  made : ∀ e ∈ r.entries, e.Made r
  nodup : (r.entries.map Entry.id).Nodup

theorem Registry.init_sound : Registry.Sound addr (.init : Registry ι) where
  guids := System.init_sound
  counted i pid n h := by cases h
  made e he := by cases he
  nodup := .nil

theorem Kind.letter_ne (h : kind.letter = some letter) : letter ≠ '!' := by
  rintro rfl
  cases kind <;> simp [Kind.letter] at h

/-- A process is registered with one server. -/
theorem Registry.Registered.server_eq {server' : ι} (haddr : Function.Injective addr) (hg : r.guids.Sound addr)
    (h : r.Registered server pid) (h' : r.Registered server' pid) : server = server' := by
  obtain ⟨x, hx, rfl, hpid⟩ := h.guid
  obtain ⟨y, hy, rfl, hpid'⟩ := h'.guid
  exact hg.runtime_eq haddr hx hy (List.cons.inj (hpid.symm.trans hpid')).2

/-! ## Counters -/

variable [DecidableEq ι]

theorem get?_setCount (i : ι) (q : List Char) : ((r.setCount server pid n).pthreadCount i).get? q =
    if i = server ∧ q = pid then some n else (r.pthreadCount i).get? q := by
  show (Function.update r.pthreadCount server ((r.pthreadCount server).set pid n) i).get? q = _
  by_cases hi : i = server
  · subst hi
    rw [Function.update_self]
    by_cases hq : q = pid
    · rw [if_pos ⟨rfl, hq⟩, hq, Dict.get?_set_self]
    · rw [if_neg fun h => hq h.2, Dict.get?_set_ne hq]
  · rw [if_neg fun h => hi h.1, Function.update_of_ne hi]

/-- A counter goes up, or is a new one. -/
theorem setCount_sound (h : r.Sound addr) (hregistered : r.Registered server pid)
    (hup : ∀ m, (r.pthreadCount server).get? pid = some m → m ≤ n) :
    (r.setCount server pid n).Sound addr where
  guids := h.guids
  counted i q m hm := by
    rw [get?_setCount] at hm
    split at hm
    · rename_i hiq
      obtain ⟨rfl, rfl⟩ := hiq
      exact ⟨hregistered.guid, hregistered.entry⟩
    · have hq := h.counted i q m hm
      exact ⟨hq.guid, hq.entry⟩
  made e he := by
    cases h.made e he with
    | guid hletter hx => exact .guid hletter hx
    | @thread i q m k hm hk =>
      by_cases hiq : i = server ∧ q = pid
      · obtain ⟨rfl, rfl⟩ := hiq
        refine .thread (n := n) i ?_ (hk.trans (hup m hm))
        rw [get?_setCount, if_pos ⟨rfl, rfl⟩]
      · refine .thread (n := m) i ?_ hk
        rw [get?_setCount, if_neg hiq]
        exact hm
  nodup := h.nodup

/-! ## Guids -/

/-- What `make` does. -/
theorem make_cases (h : r.make addr c kind letter = some (id, r')) :
    ∃ guid s, Guid.Step addr r.guids c (r.guids.made c guid s) ∧ id = letter :: guid ∧
      r' = { r with guids := r.guids.made c guid s, entries := ⟨kind, id⟩ :: r.entries } := by
  obtain ⟨⟨guid, s⟩, hgen, h⟩ := Option.bind_eq_some_iff.1 h
  cases h
  exact ⟨guid, s, Option.map_eq_some_iff.2 ⟨(guid, s), hgen, rfl⟩, rfl, rfl⟩

theorem make_sound (haddr : Function.Injective addr) (h : r.Sound addr) (hc : c.Proper r.guids)
    (hletter : kind.letter = some letter) (hmake : r.make addr c kind letter = some (id, r')) :
    r'.Sound addr ∧ (∃ x ∈ r'.guids.issued, x.runtime = c.runtime ∧ id = letter :: x.guid) ∧
      ⟨kind, id⟩ ∈ r'.entries ∧ ∀ i, (r'.pthreadCount i).get? id = none := by
  obtain ⟨guid, s, hstep, rfl, rfl⟩ := make_cases hmake
  have hsound := step_sound h.guids hc hstep
  have hnew : guid ∉ r.guids.issued.map Issue.guid := (List.nodup_cons.1 (hsound.nodup haddr)).1
  refine ⟨⟨hsound, fun i q m hm => ?_, List.forall_mem_cons.2 ⟨?_, fun e he => ?_⟩,
    List.nodup_cons.2 ⟨fun hmem => ?_, h.nodup⟩⟩, ⟨_, List.mem_cons_self, rfl, rfl⟩, List.mem_cons_self, fun i => ?_⟩
  · have hq := h.counted i q m hm
    obtain ⟨x, hx, hrest⟩ := hq.guid
    exact ⟨⟨x, List.mem_cons_of_mem _ hx, hrest⟩, List.mem_cons_of_mem _ hq.entry⟩
  · exact Entry.Made.guid (x := ⟨c.runtime, guid, s.lasttime, s.counter⟩) hletter List.mem_cons_self
  · cases h.made e he with
    | guid hl hx => exact .guid hl (List.mem_cons_of_mem _ hx)
    | thread i hm hk => exact .thread i hm hk
  · obtain ⟨e, he, heq⟩ := List.mem_map.1 hmem
    cases h.made e he with
    | @guid _ _ x hl hx =>
      obtain ⟨-, heq⟩ := List.cons.inj heq
      exact hnew (List.mem_map.2 ⟨x, hx, heq⟩)
    | @thread _ q _ k =>
      -- there is a `!` in the ids of threads only
      have hbang : '!' ∈ q ++ '!' :: Nat.toDigits 10 k := List.mem_append_right _ List.mem_cons_self
      have heq : q ++ '!' :: Nat.toDigits 10 k = letter :: guid := heq
      rw [heq] at hbang
      rcases List.mem_cons.1 hbang with hl | hg
      · exact Kind.letter_ne hletter hl.symm
      · exact (hsound.within _ List.mem_cons_self).not_mem rfl hg
  · cases hm : (r.pthreadCount i).get? (letter :: guid) with
    | none => rfl
    | some m =>
      obtain ⟨x, hx, -, heq⟩ := (h.counted i _ m hm).guid
      exact absurd (List.mem_map.2 ⟨x, hx, (List.cons.inj heq).2.symm⟩) hnew

/-! ## Threads -/

theorem toDigits_injective : Function.Injective (Nat.toDigits 10) := by
  intro m n h
  have hread := Nat.ofDigitChars_ten_toDigits (n := m)
  rw [h, Nat.ofDigitChars_ten_toDigits] at hread
  exact hread.symm

theorem bang_not_mem_toDigits (n : Nat) : '!' ∉ Nat.toDigits 10 n := fun h =>
  absurd (Nat.isDigit_of_mem_toDigits (by decide) (by decide) h) (by decide)

/-- The id of the process can be told from the id of a thread. -/
theorem thread_inj {q : List Char} {m : Nat} (hpid : '!' ∉ pid) (hq : '!' ∉ q)
    (h : pid ++ '!' :: Nat.toDigits 10 n = q ++ '!' :: Nat.toDigits 10 m) : pid = q ∧ n = m := by
  have hsplit := congrArg (List.splitOn '!') h
  rw [List.splitOn_append_cons_self, List.splitOn_append_cons_self, List.splitOn_eq_singleton hpid,
    List.splitOn_eq_singleton hq, List.splitOn_eq_singleton (bang_not_mem_toDigits n),
    List.splitOn_eq_singleton (bang_not_mem_toDigits m)] at hsplit
  obtain ⟨hpq, hnm⟩ := List.cons.inj hsplit
  exact ⟨hpq, toDigits_injective (List.cons.inj hnm).1⟩

omit [DecidableEq ι] in
theorem Registry.Registered.not_mem (hg : r.guids.Sound addr) (h : r.Registered server pid) : '!' ∉ pid := by
  obtain ⟨x, hx, -, rfl⟩ := h.guid
  rintro hmem
  rcases List.mem_cons.1 hmem with hl | hmem
  · exact absurd hl (by decide)
  · exact (hg.within x hx).not_mem rfl hmem

theorem thread_sound (haddr : Function.Injective addr) (h : r.Sound addr)
    (hthread : r.thread server pid = some r') : r'.Sound addr := by
  obtain ⟨n, hn, h'⟩ := Option.bind_eq_some_iff.1 hthread
  cases h'
  have hregistered := h.counted server pid n hn
  have hset : (r.setCount server pid (n + 1)).Sound addr :=
    setCount_sound h hregistered fun m hm => by
      rw [hn] at hm
      cases hm
      exact Nat.le_succ n
  refine ⟨hset.guids, fun i q m hm => ?_, List.forall_mem_cons.2 ⟨?_, fun e he => ?_⟩,
    List.nodup_cons.2 ⟨fun hmem => ?_, h.nodup⟩⟩
  · have hq := hset.counted i q m hm
    exact ⟨hq.guid, List.mem_cons_of_mem _ hq.entry⟩
  · refine .thread (n := n + 1) server ?_ (Nat.le_refl _)
    exact (get?_setCount server pid).trans (if_pos ⟨rfl, rfl⟩)
  · cases hset.made e he with
    | guid hl hx => exact .guid hl hx
    | thread i hm hk => exact .thread i hm hk
  · obtain ⟨e, he, heq⟩ := List.mem_map.1 hmem
    cases h.made e he with
    | @guid kind letter x hl hx =>
      have hbang : '!' ∈ pid ++ '!' :: Nat.toDigits 10 (n + 1) := List.mem_append_right _ List.mem_cons_self
      have heq : letter :: x.guid = pid ++ '!' :: Nat.toDigits 10 (n + 1) := heq
      rw [← heq] at hbang
      rcases List.mem_cons.1 hbang with hl' | hg
      · exact Kind.letter_ne hl hl'.symm
      · exact (h.guids.within x hx).not_mem rfl hg
    | @thread i q m k hm hk =>
      have hq := h.counted i q m hm
      obtain ⟨rfl, rfl⟩ := thread_inj (hq.not_mem h.guids) (hregistered.not_mem h.guids) heq
      -- the same process, so the same counter, which has not reached this number
      obtain rfl := hq.server_eq haddr h.guids hregistered
      rw [hn] at hm
      cases hm
      exact absurd hk (Nat.not_succ_le_self n)

theorem step_sound {e : Event ι} (haddr : Function.Injective addr) (h : r.Sound addr) (he : e.Proper r)
    (hstep : Step addr r e r') : r'.Sound addr := by
  have hmake : ∀ {c kind letter id r'}, e.call = some c → kind.letter = some letter →
      r.make addr c kind letter = some (id, r') → _ := fun hc hl hm => make_sound haddr h (he _ hc) hl hm
  cases e with
  | main c | createTuplespace c | registerType c =>
    obtain ⟨⟨id, r'⟩, hm, rfl⟩ := Option.map_eq_some_iff.1 hstep
    exact (hmake rfl rfl hm).1
  | registerProcess c =>
    obtain ⟨⟨pid, r'⟩, hm, rfl⟩ := Option.map_eq_some_iff.1 hstep
    obtain ⟨hsound, hguid, hentry, hnone⟩ := hmake rfl rfl hm
    refine setCount_sound hsound ⟨hguid, hentry⟩ fun m hm => ?_
    rw [hnone] at hm
    cases hm
  | registerThread server pid => exact thread_sound haddr h hstep

theorem run_sound {tr : List (Registry ι × Event ι)} (haddr : Function.Injective addr)
    (h : Run (Step addr) .init tr r) (hproper : ∀ x ∈ tr, x.2.Proper x.1) : r.Sound addr :=
  h.inv (fun _ _ _ hs he hstep => step_sound haddr hs he hstep) Registry.init_sound hproper

end

/-! ## Kinds -/

section
variable {id pid ds : List Char} {letter : Char} {n : Nat}

theorem not_isWhitespace {c : Char} (h : c.isDigit) : c.isWhitespace = false := by
  cases hw : c.isWhitespace with
  | false => rfl
  | true =>
    simp only [Char.isWhitespace, Bool.or_eq_true, decide_eq_true_eq] at hw
    rcases hw with ((rfl | rfl) | rfl) | rfl <;> exact absurd h (by decide)

theorem isInt_toDigits (n : Nat) : isInt (Nat.toDigits 10 n) = true := by
  have hdigit : ∀ c ∈ Nat.toDigits 10 n, c.isDigit := fun c hc =>
    Nat.isDigit_of_mem_toDigits (by decide) (by decide) hc
  have hleft : (Nat.toDigits 10 n).dropWhile Char.isWhitespace = Nat.toDigits 10 n := by
    cases h : Nat.toDigits 10 n with
    | nil => rfl
    | cons c cs =>
      rw [h] at hdigit
      exact List.dropWhile_cons_of_neg (by simp [not_isWhitespace (hdigit c List.mem_cons_self)])
  have hright : (Nat.toDigits 10 n).rdropWhile Char.isWhitespace = Nat.toDigits 10 n := by
    refine List.rdropWhile_eq_self_iff.2 fun hne hws => ?_
    rw [not_isWhitespace (hdigit _ (List.getLast_mem hne))] at hws
    cases hws
  unfold isInt
  simp only [hleft, hright]
  cases h : Nat.toDigits 10 n with
  | nil => exact absurd h Nat.toDigits_ne_nil
  | cons c cs =>
    rw [h] at hdigit
    split
    · rename_i heq
      obtain ⟨rfl, -⟩ := List.cons.inj heq
      exact absurd (hdigit _ List.mem_cons_self) (by decide)
    · rename_i heq
      obtain ⟨rfl, -⟩ := List.cons.inj heq
      exact absurd (hdigit _ List.mem_cons_self) (by decide)
    · simpa using hdigit

/-- An id of 41 characters. -/
structure Tests (id : List Char) (letter : Char) : Prop where
  node : isNodeId id = decide (letter = 'N')
  process : isProcessId id = decide (letter = 'P')
  tuplespace : isTupleSpaceId id = decide (letter = 'S')
  thread : isThreadId id = false

theorem guid_tests {guid : List Char} (hlen : guid.length = 40) (hbang : '!' ∉ letter :: guid) :
    Tests (letter :: guid) letter where
  node := by simp [isNodeId, hlen]
  process := by simp [isProcessId, hlen]
  tuplespace := by
    have hne : letter :: guid ≠ ['U', 'T', 'S'] := fun h => by
      have := congrArg List.length h
      simp [hlen] at this
    simp [isTupleSpaceId, hlen, hne]
  thread := by
    unfold isThreadId
    rw [List.splitOn_eq_singleton hbang]

theorem splitOn_thread (hbang : '!' ∉ pid) :
    (pid ++ '!' :: Nat.toDigits 10 n).splitOn '!' = [pid, Nat.toDigits 10 n] := by
  rw [List.splitOn_append_cons_self, List.splitOn_eq_singleton hbang,
    List.splitOn_eq_singleton (bang_not_mem_toDigits n)]
  rfl

theorem tests_of_length (hlen : id.length ≠ 41) (hts : id ≠ ['U', 'T', 'S']) :
    isNodeId id = false ∧ isProcessId id = false ∧ isTupleSpaceId id = false := by
  simp [isNodeId, isProcessId, isTupleSpaceId, hlen, hts]

theorem thread_tests (hpid : isProcessId pid = true) (hbang : '!' ∉ pid) :
    isNodeId (pid ++ '!' :: Nat.toDigits 10 n) = false ∧
      isProcessId (pid ++ '!' :: Nat.toDigits 10 n) = false ∧
      isTupleSpaceId (pid ++ '!' :: Nat.toDigits 10 n) = false ∧
      isThreadId (pid ++ '!' :: Nat.toDigits 10 n) = true ∧
      getProcessIdFromThreadId (pid ++ '!' :: Nat.toDigits 10 n) = .ok pid := by
  have hlen : pid.length = 41 := by
    simp only [isProcessId, Bool.and_eq_true, decide_eq_true_eq] at hpid
    exact hpid.1
  have hlong : (pid ++ '!' :: Nat.toDigits 10 n).length ≠ 41 := by
    rw [List.length_append, List.length_cons, hlen]
    omega
  have hts : pid ++ '!' :: Nat.toDigits 10 n ≠ ['U', 'T', 'S'] := fun h => by
    have := congrArg List.length h
    rw [List.length_append, hlen] at this
    simp only [List.length_cons, List.length_nil] at this
    omega
  have hthread : isThreadId (pid ++ '!' :: Nat.toDigits 10 n) = true := by
    unfold isThreadId
    rw [splitOn_thread hbang]
    simp [hpid, isInt_toDigits]
  obtain ⟨hnode, hprocess, htuplespace⟩ := tests_of_length hlong hts
  refine ⟨hnode, hprocess, htuplespace, hthread, ?_⟩
  unfold getProcessIdFromThreadId
  rw [if_pos hthread, splitOn_thread hbang]
  rfl

end

/-! ## The names of a run -/

section
variable {ι : Type} [DecidableEq ι] {addr : ι → Address} {r : Registry ι}
  {tr : List (Registry ι × Event ι)} {e : Entry}

/-- The tests of `utils.py` answer what the id was made for. -/
structure Entry.Told (r : Registry ι) (e : Entry) : Prop where
  node : isNodeId e.id = decide (e.kind = .node)
  process : isProcessId e.id = decide (e.kind = .process)
  tuplespace : isTupleSpaceId e.id = decide (e.kind = .tuplespace)
  thread : isThreadId e.id = true ↔ ∃ pid, e.kind = .thread pid
  owner : ∀ pid, e.kind = .thread pid →
    getProcessIdFromThreadId e.id = .ok pid ∧ ⟨.process, pid⟩ ∈ r.entries

end

/-! ## Two servers -/

/-- The id of the process that `twoServers` registers. -/
def somePid : List Char := 'P' :: (hex 16 5 ++ hex 8 0 ++ (twoAddresses true).hexip)

def twoServers : List (Event Bool) :=
  [.main ⟨true, [4], 8⟩, .main ⟨false, [4], 8⟩, .registerProcess ⟨true, [5], maxCounter⟩,
    .registerThread true somePid, .createTuplespace ⟨false, [5], maxCounter⟩, .registerThread true somePid]

theorem twoServers_run : ∃ tr r, Run (Step twoAddresses) .init tr r ∧
    (∀ x ∈ tr, x.2.Proper x.1) ∧ r.guids.issued.map Issue.time = [5, 5, 4, 4] ∧
    r.entries.map Entry.kind =
      [.thread somePid, .tuplespace, .thread somePid, .process, .node, .node] := by
  have hproper : ∀ x ∈ trace? (Registry.next twoAddresses) .init twoServers, x.2.Proper x.1 := by decide
  have hexec : (exec? (Registry.next twoAddresses) .init twoServers).map
      (fun r => (r.guids.issued.map Issue.time, r.entries.map Entry.kind)) =
      some ([5, 5, 4, 4], [.thread somePid, .tuplespace, .thread somePid, .process, .node, .node]) := by
    decide
  obtain ⟨r, hr, h⟩ := Option.map_eq_some_iff.1 hexec
  obtain ⟨htime, hkind⟩ := Prod.mk.inj h
  exact ⟨_, r, (Run.of_trace? hproper hr).1.imp fun _ _ _ h => h.2, hproper, htime, hkind⟩

end PyLinda.Names
