import Mathlib.Data.List.Chain
import PyLinda.Lib.Hex
import PyLinda.Lib.Run

/-!
# Guids

`guid.py`: the time, a counter that starts anywhere and cycles within a millisecond, and the address
of the machine. Each runtime has its own copy of the globals, and its lock makes a call one step.
-/

namespace PyLinda.Guid

open Lib

def maxCounter : Nat := 0xfffffffe

/-- The numbers between the dots, four of at most four digits each. -/
structure Address where
  parts : List Nat
  four : parts.length = 4
  small : ∀ i ∈ parts, i < 16 ^ 4

/-- `make_hexip`. -/
def Address.hexip (ip : Address) : List Char := hexFields 4 ip.parts

/-- The globals. -/
structure State where
  counter : Nat
  firstcounter : Nat
  lasttime : Nat

def State.init : State := ⟨0, maxCounter, 0⟩

/-- The loop of `generate` over the readings of the clock. -/
def State.wait (s : State) : List Nat → Option Nat
  | [] => none
  | now :: readings => if s.lasttime = now ∧ s.counter = s.firstcounter then s.wait readings else some now

/-- The increment, back to 0 behind the largest. -/
def bump (counter : Nat) : Nat := if counter + 1 > maxCounter then 0 else counter + 1

/-- The counter part. `start` is what `random.uniform` draws. -/
def State.count (s : State) (now start : Nat) : State :=
  let (firstcounter, counter) := if s.lasttime ≠ now then (start, start) else (s.firstcounter, s.counter)
  ⟨bump counter, firstcounter, now⟩

/-- `generate`, when it returns. -/
def generate (hexip : List Char) (readings : List Nat) (start : Nat) (s : State) :
    Option (List Char × State) := do
  let now ← s.wait readings
  let s := s.count now start
  pure (hex 16 now ++ hex 8 s.counter ++ hexip, s)

/-- `extract_time`, in milliseconds. -/
def extractTime (guid : List Char) : Option Nat := ofHex (guid.take 16)

def extractCounter (guid : List Char) : Option Nat := ofHex ((guid.drop 16).take 8)

/-- `extract_ip`: the numbers between the dots. -/
def extractIp (guid : List Char) : Option (List Nat) :=
  [24, 28, 32, 36].mapM fun index => ofHex ((guid.drop index).take 4)

/-! ## Runtimes -/

/-- A guid and what it was made of. -/
structure Issue (ι : Type) where
  runtime : ι
  guid : List Char
  time : Nat
  counter : Nat

/-- Runtimes, and the guids they have made, the last one first. -/
structure System (ι : Type) where
  states : ι → State
  issued : List (Issue ι)

/-- A call of `generate`. -/
structure Call (ι : Type) where
  runtime : ι
  readings : List Nat
  start : Nat

section
variable {ι : Type}

def System.init : System ι := ⟨fun _ => .init, []⟩

/-- The clock of the runtime does not go back, and the counter starts where `random.uniform` lets it. -/
structure Call.Proper (sys : System ι) (c : Call ι) : Prop where
  clock : ((sys.states c.runtime).lasttime :: c.readings).IsChain (· ≤ ·)
  start : c.start ≤ maxCounter

instance (sys : System ι) (c : Call ι) : Decidable (c.Proper sys) :=
  decidable_of_iff (((sys.states c.runtime).lasttime :: c.readings).IsChain (· ≤ ·) ∧ c.start ≤ maxCounter)
    ⟨fun h => ⟨h.1, h.2⟩, fun h => ⟨h.clock, h.start⟩⟩

variable [DecidableEq ι] (addr : ι → Address)

/-- `c.runtime` has made a guid. -/
def System.made (sys : System ι) (c : Call ι) (guid : List Char) (s : State) : System ι where
  states := Function.update sys.states c.runtime s
  issued := ⟨c.runtime, guid, s.lasttime, s.counter⟩ :: sys.issued

def System.next (sys : System ι) (c : Call ι) : Option (System ι) :=
  (generate (addr c.runtime).hexip c.readings c.start (sys.states c.runtime)).map fun (guid, s) =>
    sys.made c guid s

/-- The calls of the runtimes, in any order. -/
def Step (sys : System ι) (c : Call ι) (sys' : System ι) : Prop := sys.next addr c = some sys'

end

/-! ## The counter -/

/-- How many counters have been given since `firstcounter`, which itself is the last of them. -/
def given (firstcounter counter : Nat) : Nat :=
  if firstcounter < counter then counter - firstcounter else counter + (maxCounter + 1) - firstcounter

section
variable {f c c' : Nat}

theorem bump_le (c : Nat) : bump c ≤ maxCounter := by
  unfold bump
  split <;> omega

/-- A counter that is not the last one is followed by a new one. -/
theorem given_bump (hf : f ≤ maxCounter) (hc : c ≤ maxCounter) (hne : c ≠ f) :
    given f (bump c) = given f c + 1 := by
  unfold given bump
  split <;> split <;> split <;> omega

end

/-! ## One call -/

section
variable {s s' : State} {hexip guid : List Char} {readings : List Nat} {now start : Nat}

theorem State.wait_cases (h : s.wait readings = some now) :
    now ∈ readings ∧ ¬ (s.lasttime = now ∧ s.counter = s.firstcounter) := by
  induction readings with
  | nil => cases h
  | cons t readings ih =>
    unfold State.wait at h
    split at h
    · obtain ⟨hmem, hout⟩ := ih h
      exact ⟨List.mem_cons_of_mem _ hmem, hout⟩
    · rename_i hout
      cases h
      exact ⟨List.mem_cons_self, hout⟩

/-- Everything a call can do: it starts a new millisecond, or goes on in the last one. -/
theorem generate_cases (h : generate hexip readings start s = some (guid, s')) :
    guid = hex 16 s'.lasttime ++ hex 8 s'.counter ++ hexip ∧ s'.lasttime ∈ readings ∧
      (s.lasttime ≠ s'.lasttime ∧ s'.firstcounter = start ∧ s'.counter = bump start ∨
        s.lasttime = s'.lasttime ∧ s.counter ≠ s.firstcounter ∧ s'.firstcounter = s.firstcounter ∧
          s'.counter = bump s.counter) := by
  unfold generate at h
  obtain ⟨now, hwait, h⟩ := Option.bind_eq_some_iff.1 h
  obtain ⟨hmem, hout⟩ := State.wait_cases hwait
  cases h
  by_cases hnow : s.lasttime = now
  · refine ⟨rfl, hmem, .inr ⟨hnow, fun heq => hout ⟨hnow, heq⟩, ?_, ?_⟩⟩
    · simp [State.count, hnow]
    · simp [State.count, hnow]
  · refine ⟨rfl, hmem, .inl ⟨hnow, ?_, ?_⟩⟩
    · simp [State.count, hnow]
    · simp [State.count, hnow]

end

/-! ## Runs -/

section
variable {ι : Type} {addr : ι → Address} {sys sys' : System ι} {c : Call ι} {x y : Issue ι}

variable (addr) in
/-- A guid of the runtime that is in this state now. -/
structure Issue.Within (s : State) (x : Issue ι) : Prop where
  guid : x.guid = hex 16 x.time ++ hex 8 x.counter ++ (addr x.runtime).hexip
  counter : x.counter ≤ maxCounter
  time : x.time ≤ s.lasttime
  given : x.time = s.lasttime → given s.firstcounter x.counter ≤ given s.firstcounter s.counter

/-- `x` was made after `y`. -/
def Issue.After (x y : Issue ι) : Prop :=
  x.runtime = y.runtime → y.time < x.time ∨ y.time = x.time ∧ y.counter ≠ x.counter

variable (addr) in
structure System.Sound (sys : System ι) : Prop where
  first : ∀ i, (sys.states i).firstcounter ≤ maxCounter
  counter : ∀ i, (sys.states i).counter ≤ maxCounter
  within : ∀ x ∈ sys.issued, x.Within addr (sys.states x.runtime)
  after : sys.issued.Pairwise Issue.After

theorem System.init_sound : System.Sound addr (.init : System ι) where
  first _ := Nat.le_refl _
  counter _ := Nat.zero_le _
  within x hx := by cases hx
  after := .nil

/-- The clock has not gone back when the loop ends. -/
theorem Call.Proper.le (h : c.Proper sys) {now : Nat} (hmem : now ∈ c.readings) :
    (sys.states c.runtime).lasttime ≤ now := by
  have hpair := List.isChain_iff_pairwise.1 h.clock
  exact (List.pairwise_cons.1 hpair).1 now hmem

variable [DecidableEq ι]

theorem step_sound (h : sys.Sound addr) (hc : c.Proper sys) (hstep : Step addr sys c sys') :
    sys'.Sound addr := by
  obtain ⟨⟨guid, s⟩, hgen, rfl⟩ := Option.map_eq_some_iff.1 hstep
  obtain ⟨hguid, hmem, hcases⟩ := generate_cases hgen
  have hle := hc.le hmem
  have hcount : s.counter ≤ maxCounter := by
    rcases hcases with ⟨-, -, hs⟩ | ⟨-, -, -, hs⟩ <;> exact hs ▸ bump_le _
  have hfirst : s.firstcounter ≤ maxCounter := by
    rcases hcases with ⟨-, hs, -⟩ | ⟨-, -, hs, -⟩
    · exact hs ▸ hc.start
    · exact hs ▸ h.first _
  -- a guid of this runtime is older, or has a counter that was given earlier in the millisecond
  have hold : ∀ x ∈ sys.issued, x.runtime = c.runtime → x.time < s.lasttime ∨
      x.time = s.lasttime ∧ given s.firstcounter x.counter < given s.firstcounter s.counter := by
    intro x hx hr
    have hw := h.within x hx
    rw [hr] at hw
    rcases hcases with ⟨hne, -⟩ | ⟨heq, hout, hf, hs⟩
    · exact .inl (Nat.lt_of_le_of_lt hw.time (Nat.lt_of_le_of_ne hle hne))
    · rcases Nat.lt_or_eq_of_le hw.time with hlt | ht
      · exact .inl (heq ▸ hlt)
      · have hgiven := hw.given ht
        rw [hf, hs, given_bump (h.first _) (h.counter _) hout]
        exact .inr ⟨ht.trans heq, Nat.lt_succ_of_le hgiven⟩
  refine ⟨fun i => ?_, fun i => ?_, List.forall_mem_cons.2 ⟨?_, fun x hx => ?_⟩,
    List.pairwise_cons.2 ⟨fun x hx hr => ?_, h.after⟩⟩
  · by_cases hi : i = c.runtime
    · simpa [System.made, hi] using hfirst
    · simpa [System.made, hi] using h.first i
  · by_cases hi : i = c.runtime
    · simpa [System.made, hi] using hcount
    · simpa [System.made, hi] using h.counter i
  · have hs : (sys.made c guid s).states c.runtime = s := Function.update_self ..
    exact ⟨hguid, hcount, (congrArg State.lasttime hs).ge, fun _ => by simp only [hs]; exact Nat.le_refl _⟩
  · have hw := h.within x hx
    by_cases hr : x.runtime = c.runtime
    · have hs : (sys.made c guid s).states x.runtime = s := by
        rw [hr]
        exact Function.update_self ..
      rw [hs]
      refine ⟨hw.guid, hw.counter, ?_, fun ht => ?_⟩
      · rcases hold x hx hr with hlt | ⟨heq, -⟩
        · exact hlt.le
        · exact heq.le
      · rcases hold x hx hr with hlt | ⟨-, hlt⟩
        · exact absurd ht hlt.ne
        · exact hlt.le
    · have hs : (sys.made c guid s).states x.runtime = sys.states x.runtime := Function.update_of_ne hr _ _
      rw [hs]
      exact hw
  · rcases hold x hx hr.symm with hlt | ⟨heq, hlt⟩
    · exact .inl hlt
    · refine .inr ⟨heq, fun hcounter => ?_⟩
      rw [hcounter] at hlt
      exact absurd hlt (Nat.lt_irrefl _)

theorem run_sound {tr : List (System ι × Call ι)} (h : Run (Step addr) .init tr sys)
    (hproper : ∀ x ∈ tr, x.2.Proper x.1) : sys.Sound addr :=
  h.inv (fun _ _ _ hs hc hstep => step_sound hs hc hstep) System.init_sound hproper

end

/-! ## Texts -/

section
variable {a b : Address} {guid : List Char} {time time' counter counter' : Nat}

theorem Address.ext (h : a.parts = b.parts) : a = b := by
  cases a
  cases b
  cases h
  rfl

theorem Address.hexip_length (a : Address) : a.hexip.length = 16 := by
  rw [Address.hexip, hexFields_length (by decide) a.small, a.four]

theorem Address.hexip_injective : Function.Injective Address.hexip := fun a b h =>
  Address.ext (hexFields_inj (by decide) (a.four.trans b.four.symm) a.small b.small h)

theorem lt_of_le_maxCounter (h : counter ≤ maxCounter) : counter < 16 ^ 8 :=
  Nat.lt_of_le_of_lt h (by decide)

/-- The time, the counter and the address can be told from the text, however long the time is. -/
theorem text_inj (h : counter ≤ maxCounter) (h' : counter' ≤ maxCounter)
    (heq : hex 16 time ++ hex 8 counter ++ a.hexip = hex 16 time' ++ hex 8 counter' ++ b.hexip) :
    time = time' ∧ counter = counter' ∧ a = b := by
  obtain ⟨heq, hip⟩ := List.append_inj' heq (a.hexip_length.trans b.hexip_length.symm)
  have hlen := hex_length (by decide) (lt_of_le_maxCounter h)
  have hlen' := hex_length (by decide) (lt_of_le_maxCounter h')
  obtain ⟨htime, hcounter⟩ := List.append_inj' heq (hlen.trans hlen'.symm)
  exact ⟨hex_injective 16 htime, hex_injective 8 hcounter, Address.hexip_injective hip⟩

theorem text_lt_iff (ht : time < 16 ^ 16) (ht' : time' < 16 ^ 16) (h : counter ≤ maxCounter)
    (h' : counter' ≤ maxCounter) :
    hex 16 time ++ hex 8 counter ++ a.hexip < hex 16 time' ++ hex 8 counter' ++ b.hexip ↔
      time < time' ∨ time = time' ∧ (counter < counter' ∨ counter = counter' ∧ a.parts < b.parts) := by
  have hw : (hex 16 time).length = (hex 16 time').length := by
    rw [hex_length (by decide) ht, hex_length (by decide) ht']
  have hw' : (hex 8 counter).length = (hex 8 counter').length := by
    rw [hex_length (by decide) (lt_of_le_maxCounter h), hex_length (by decide) (lt_of_le_maxCounter h')]
  have hip : a.hexip < b.hexip ↔ a.parts < b.parts :=
    hexFields_lt_iff (by decide) (a.four.trans b.four.symm) a.small b.small
  rw [List.append_assoc, List.append_assoc, append_lt_append_iff hw, append_lt_append_iff hw', hip,
    hex_lt_iff (by decide) ht ht', hex_lt_iff (by decide) (lt_of_le_maxCounter h) (lt_of_le_maxCounter h'),
    (hex_injective 16).eq_iff, (hex_injective 8).eq_iff]

theorem extractTime_text (ht : time < 16 ^ 16) (s : List Char) : extractTime (hex 16 time ++ s) = some time := by
  rw [extractTime, List.take_left' (hex_length (by decide) ht), ofHex_hex]

theorem extractCounter_text (ht : time < 16 ^ 16) (h : counter ≤ maxCounter) (s : List Char) :
    extractCounter (hex 16 time ++ hex 8 counter ++ s) = some counter := by
  rw [extractCounter, List.append_assoc, List.drop_left' (hex_length (by decide) ht),
    List.take_left' (hex_length (by decide) (lt_of_le_maxCounter h)), ofHex_hex]

theorem extractIp_text (ht : time < 16 ^ 16) (h : counter ≤ maxCounter) :
    extractIp (hex 16 time ++ hex 8 counter ++ a.hexip) = some a.parts := by
  obtain ⟨parts, hfour, hsmall⟩ := a
  obtain ⟨i, j, k, l, rfl⟩ := List.length_eq_four.1 hfour
  have hlen : (hex 16 time ++ hex 8 counter).length = 24 := by
    rw [List.length_append, hex_length (by decide) ht, hex_length (by decide) (lt_of_le_maxCounter h)]
  have hfield : ∀ n m index, [i, j, k, l][n]? = some m → index = 24 + 4 * n →
      ofHex (((hex 16 time ++ hex 8 counter ++ hexFields 4 [i, j, k, l]).drop index).take 4) = some m := by
    intro n m index hn hindex
    rw [hexFields_field (by decide) hsmall _ hn (by rw [hlen, hindex]), ofHex_hex]
  unfold extractIp Address.hexip
  simp only [List.mapM_cons, List.mapM_nil, hfield 0 i 24 rfl rfl, hfield 1 j 28 rfl rfl,
    hfield 2 k 32 rfl rfl, hfield 3 l 36 rfl rfl]
  rfl

end

/-! ## The guids of a run -/

section
variable {ι : Type} {addr : ι → Address} {sys : System ι} {s : State} {x y : Issue ι}

theorem Issue.Within.length (h : x.Within addr s) (ht : x.time < 16 ^ 16) : x.guid.length = 40 := by
  rw [h.guid, List.length_append, List.length_append, hex_length (by decide) ht,
    hex_length (by decide) (lt_of_le_maxCounter h.counter), Address.hexip_length]

theorem Issue.Within.not_mem (h : x.Within addr s) {c : Char} (hc : hexValue c = none) : c ∉ x.guid := by
  rw [h.guid, List.mem_append, List.mem_append]
  rintro ((hmem | hmem) | hmem)
  · exact not_mem_hex hc 16 _ hmem
  · exact not_mem_hex hc 8 _ hmem
  · exact not_mem_hexFields hc 4 _ hmem

/-- A guid is of one runtime. -/
theorem System.Sound.runtime_eq (h : sys.Sound addr) (haddr : Function.Injective addr)
    (hx : x ∈ sys.issued) (hy : y ∈ sys.issued) (heq : x.guid = y.guid) : x.runtime = y.runtime := by
  have hwx := h.within x hx
  have hwy := h.within y hy
  rw [hwx.guid, hwy.guid] at heq
  exact haddr (text_inj hwx.counter hwy.counter heq).2.2

theorem System.Sound.nodup (h : sys.Sound addr) (haddr : Function.Injective addr) :
    (sys.issued.map Issue.guid).Nodup := by
  rw [List.nodup_iff_pairwise_ne, List.pairwise_map]
  refine h.after.imp_of_mem fun {x y} hx hy hafter heq => ?_
  have hruntime := h.runtime_eq haddr hx hy heq
  have hwx := h.within x hx
  have hwy := h.within y hy
  rw [hwx.guid, hwy.guid] at heq
  obtain ⟨htime, hcounter, -⟩ := text_inj hwx.counter hwy.counter heq
  rcases hafter hruntime with hlt | ⟨-, hne⟩
  · exact absurd htime hlt.ne'
  · exact hne hcounter.symm

variable [DecidableEq ι] {tr : List (System ι × Call ι)}

/-- Whatever the order of their calls, runtimes on machines with different addresses never make the
same guid twice, as long as no clock goes back. -/
theorem generate_nodup (haddr : Function.Injective addr) (h : Run (Step addr) .init tr sys)
    (hproper : ∀ x ∈ tr, x.2.Proper x.1) : (sys.issued.map Issue.guid).Nodup :=
  (run_sound h hproper).nodup haddr

/-- Guids sort by the time, then by the counter and by the address, until the time has more than 16
digits. -/
theorem generate_sorts (h : Run (Step addr) .init tr sys) (hproper : ∀ x ∈ tr, x.2.Proper x.1)
    (hx : x ∈ sys.issued) (hy : y ∈ sys.issued) (htx : x.time < 16 ^ 16) (hty : y.time < 16 ^ 16) :
    x.guid < y.guid ↔ x.time < y.time ∨ x.time = y.time ∧
      (x.counter < y.counter ∨ x.counter = y.counter ∧
        (addr x.runtime).parts < (addr y.runtime).parts) := by
  have hsound := run_sound h hproper
  rw [(hsound.within x hx).guid, (hsound.within y hy).guid]
  exact text_lt_iff htx hty (hsound.within x hx).counter (hsound.within y hy).counter

end

/-! ## Two runtimes in one millisecond -/

/-- `127.0.0.1` and `10.0.0.1`. -/
def twoAddresses (b : Bool) : Address := ⟨[if b then 127 else 10, 0, 0, 1], rfl, by cases b <;> decide⟩

theorem twoAddresses_injective : Function.Injective twoAddresses := by
  intro a b h
  have hparts := congrArg Address.parts h
  revert hparts
  cases a <;> cases b <;> decide

/-- Both draw the largest counter, so that the next is 0; one goes on to 1. -/
def twoCalls : List (Call Bool) := [⟨true, [5], maxCounter⟩, ⟨false, [5], maxCounter⟩, ⟨true, [5], 3⟩]

/-- A run in which these calls return. -/
theorem twoCalls_run : ∃ tr sys, Run (Step twoAddresses) .init tr sys ∧
    (∀ x ∈ tr, x.2.Proper x.1) ∧ ∃ a b c, sys.issued = [a, b, c] ∧
      [a, b, c].map (fun x => (x.time, x.counter)) = [(5, 1), (5, 0), (5, 0)] := by
  have hproper : ∀ x ∈ trace? (System.next twoAddresses) .init twoCalls, x.2.Proper x.1 := by decide
  have hexec : (exec? (System.next twoAddresses) .init twoCalls).map
      (fun sys => sys.issued.map fun x => (x.time, x.counter)) = some [(5, 1), (5, 0), (5, 0)] := by decide
  obtain ⟨sys, hsys, hissued⟩ := Option.map_eq_some_iff.1 hexec
  have hlen : sys.issued.length = 3 := by
    have := congrArg List.length hissued
    simpa using this
  obtain ⟨a, b, c, habc⟩ := List.length_eq_three.1 hlen
  exact ⟨_, sys, (Run.of_trace? hproper hsys).1.imp fun _ _ _ h => h.2, hproper, a, b, c, habc, habc ▸ hissued⟩

theorem generate_nodup_two : ∃ a b c : Issue Bool, [a, b, c].map (fun x => (x.time, x.counter)) =
    [(5, 1), (5, 0), (5, 0)] ∧ ([a, b, c].map Issue.guid).Nodup := by
  obtain ⟨tr, sys, hrun, hproper, a, b, c, hsys, habc⟩ := twoCalls_run
  exact ⟨a, b, c, habc, hsys ▸ generate_nodup twoAddresses_injective hrun hproper⟩

theorem generate_sorts_two : ∃ a b : Issue Bool, a.time = b.time ∧ b.guid < a.guid := by
  obtain ⟨tr, sys, hrun, hproper, a, b, c, hsys, habc⟩ := twoCalls_run
  simp only [List.map_cons, List.map_nil, List.cons.injEq, Prod.mk.injEq, and_true] at habc
  obtain ⟨⟨hat, hac⟩, ⟨hbt, hbc⟩, -⟩ := habc
  refine ⟨a, b, hat.trans hbt.symm, ?_⟩
  refine (generate_sorts hrun hproper (x := b) (y := a) (by simp [hsys]) (by simp [hsys])
    (by rw [hbt]; decide) (by rw [hat]; decide)).2 (.inr ⟨hbt.trans hat.symm, .inl ?_⟩)
  rw [hac, hbc]
  decide

end PyLinda.Guid
