import Mathlib.Algebra.Order.Ring.Int
import Mathlib.Data.List.Infix

/-!
# Frames on the socket

`Message_send` writes the length of the text in four bytes and the text behind it,
`Message_recv` reads them. How much one call of `send` or `recv` moves is up to the
operating system: the results of the calls are the input `os` here, in the order of
the calls.
-/

namespace PyLinda

abbrev Bytes := List UInt8

/-- The four bytes of `htonl(len)` as they lie in memory. -/
def htonl (len : Nat) : Bytes :=
  [.ofNat (len / 2 ^ 24), .ofNat (len / 2 ^ 16), .ofNat (len / 2 ^ 8), .ofNat len]

/-- `ntohl` of four bytes, as an `int`. -/
def ntohl : Bytes → Int
  | [a, b, c, d] =>
    let n : Int := a.toNat * 2 ^ 24 + b.toNat * 2 ^ 16 + c.toNat * 2 ^ 8 + d.toNat
    if n < 2 ^ 31 then n else n - 2 ^ 32
  | _ => 0

/-- The length and the text. -/
def frame (text : Bytes) : Bytes := htonl text.length ++ text

@[simp] theorem length_htonl (len : Nat) : (htonl len).length = 4 := rfl

@[simp] theorem length_frame (text : Bytes) : (frame text).length = 4 + text.length := by
  simp [frame]

theorem ntohl_htonl {len : Nat} (h : len < 2 ^ 31) : ntohl (htonl len) = len := by
  unfold ntohl htonl
  simp only [UInt8.toNat_ofNat']
  split <;> omega

/-! ## Sending -/

inductive SendPhase where
  | header
  | payload
  | returned
  /-- `msgstr[-1]` is read. -/
  | undefined
  deriving DecidableEq

/-- `Message_send` between two calls of `send`, and what they have put on the wire. -/
structure Sender where
  phase : SendPhase := .header
  sent : Int := 0
  wire : Bytes := []

/-- The number of bytes that the next call asks for. -/
def Sender.request (text : Bytes) (s : Sender) : Int :=
  match s.phase with
  | .header => 4 - s.sent
  | .payload => text.length - s.sent
  | _ => 0

/-- A call that returns `r`: `sent += send(...)` and the test of the loop it is in. -/
def Sender.step (text : Bytes) (r : Int) (s : Sender) : Sender :=
  match s.phase with
  | .header =>
    let wire := s.wire ++ ((htonl text.length).drop s.sent.toNat).take r.toNat
    if s.sent + r < 0 then { phase := .returned, sent := s.sent + r, wire }
    else if s.sent + r < 4 then { phase := .header, sent := s.sent + r, wire }
    else { phase := if 0 < text.length then .payload else .returned, sent := 0, wire }
  | .payload =>
    let wire := s.wire ++ (text.drop s.sent.toNat).take r.toNat
    if s.sent + r < 0 then { phase := .undefined, sent := s.sent + r, wire }
    else if s.sent + r < text.length then { phase := .payload, sent := s.sent + r, wire }
    else { phase := .returned, sent := s.sent + r, wire }
  | _ => s

/-- `Message_send` after `n` calls. -/
def Sender.after (text : Bytes) (os : Nat → Int) : Nat → Sender
  | 0 => {}
  | n + 1 => (after text os n).step text (os n)

/-- A call moves a positive number of bytes, at most what it was asked to, or fails. -/
def SendResults (text : Bytes) (os : Nat → Int) : Prop :=
  ∀ n, 0 < (Sender.after text os n).request text →
    os n = -1 ∨ 0 < os n ∧ os n ≤ (Sender.after text os n).request text

/-- The wire never holds anything but a part of the frame, and the function returns. -/
def SendFramed (text : Bytes) (os : Nat → Int) : Prop :=
  (∀ n, (Sender.after text os n).wire <+: frame text) ∧
    ∃ n, (Sender.after text os n).phase = .returned

/-- The sum of the first `n` results, failures counting -1. -/
def total (os : Nat → Int) : Nat → Int
  | 0 => 0
  | n + 1 => total os n + os n

/-- The failures among the first `n` results. -/
def failures (os : Nat → Int) : Nat → Nat
  | 0 => 0
  | n + 1 => failures os n + if os n = -1 then 1 else 0

/-- No call fails before the frame is complete. -/
def NoFailure (text : Bytes) (os : Nat → Int) : Prop :=
  ∃ n, failures os n = 0 ∧ total os n = (frame text).length

/-- The sum gets to -1 before it gets to 4, and whatever is sent twice on the way is
by chance what is due. -/
def GivesUp (text : Bytes) (os : Nat → Int) : Prop :=
  ∃ n, total os n = -1 ∧ ∀ i < n, 0 ≤ total os i ∧ total os i < 4 ∧
    ((frame text).drop (total os i).toNat).take (os i).toNat =
      ((frame text).drop ((total os i).toNat + failures os i)).take (os i).toNat

section

variable {text : Bytes} {os : Nat → Int}

theorem after_succ (n : Nat) :
    Sender.after text os (n + 1) = (Sender.after text os n).step text (os n) := rfl

/-- A function that has returned stays so. -/
theorem after_of_returned {n m : Nat} (h : (Sender.after text os n).phase = .returned) (hm : n ≤ m) :
    Sender.after text os m = Sender.after text os n := by
  induction m, hm using Nat.le_induction with
  | base => rfl
  | succ m hm ih => rw [after_succ, ih]; simp [Sender.step, h]

theorem length_take_drop {l : Bytes} {a r : Nat} (h : a + r ≤ l.length) :
    ((l.drop a).take r).length = r := by
  rw [List.length_take, List.length_drop]
  omega

theorem take_drop_htonl {a r : Nat} (h : a + r ≤ 4) :
    ((htonl text.length).drop a).take r = ((frame text).drop a).take r := by
  unfold frame
  rw [List.drop_append_of_le_length (by simp; omega), List.take_append_of_le_length]
  rw [List.length_drop, length_htonl]
  omega

theorem take_append_take_drop {l : Bytes} (a r : Nat) :
    l.take a ++ (l.drop a).take r = l.take (a + r) := (List.take_add).symm

/-- What is appended to a prefix is what follows it. -/
theorem eq_of_append_prefix {a b l : Bytes} (h : a ++ b <+: l) :
    b = (l.drop a.length).take b.length := by
  obtain ⟨t, rfl⟩ := h
  simp

theorem append_prefix {a b l : Bytes} (ha : a <+: l) (hb : b = (l.drop a.length).take b.length) :
    a ++ b <+: l := by
  obtain ⟨t, rfl⟩ := ha
  rw [List.drop_left] at hb
  rw [List.prefix_append_right_inj, hb]
  exact List.take_prefix _ _

/-- A call in the header loop. -/
theorem step_header {s : Sender} (hp : s.phase = .header) (r : Int) :
    s.step text r =
      { phase := if s.sent + r < 0 then .returned else if s.sent + r < 4 then .header
          else if 0 < text.length then .payload else .returned
        sent := if s.sent + r < 4 then s.sent + r else 0
        wire := s.wire ++ ((htonl text.length).drop s.sent.toNat).take r.toNat } := by
  unfold Sender.step
  rw [hp]
  dsimp only
  by_cases h0 : s.sent + r < 0
  · rw [if_pos h0, if_pos h0, if_pos (by omega)]
  · by_cases h4 : s.sent + r < 4 <;> simp [h0, h4]

/-- A call in the loop over the text. -/
theorem step_payload {s : Sender} (hp : s.phase = .payload) (r : Int) :
    s.step text r =
      { phase := if s.sent + r < 0 then .undefined else if s.sent + r < text.length then .payload
          else .returned
        sent := s.sent + r
        wire := s.wire ++ (text.drop s.sent.toNat).take r.toNat } := by
  unfold Sender.step
  rw [hp]
  dsimp only
  by_cases h0 : s.sent + r < 0
  · rw [if_pos h0, if_pos h0]
  · by_cases h4 : s.sent + r < text.length <;> simp [h0, h4]

/-- The results as the header loop gets them. -/
theorem SendResults.header (hos : SendResults text os) {n : Nat}
    (hp : (Sender.after text os n).phase = .header) (hs : (Sender.after text os n).sent < 4) :
    os n = -1 ∨ 0 < os n ∧ os n ≤ 4 - (Sender.after text os n).sent := by
  have h := hos n
  unfold Sender.request at h
  rw [hp] at h
  exact h (by show 0 < 4 - _; omega)

theorem SendResults.payload (hos : SendResults text os) {n : Nat}
    (hp : (Sender.after text os n).phase = .payload)
    (hs : (Sender.after text os n).sent < text.length) :
    os n = -1 ∨ 0 < os n ∧ os n ≤ text.length - (Sender.after text os n).sent := by
  have h := hos n
  unfold Sender.request at h
  rw [hp] at h
  exact h (by show 0 < (text.length : Int) - _; omega)

theorem failures_succ (n : Nat) :
    failures os (n + 1) = failures os n + if os n = -1 then 1 else 0 := rfl

@[simp] theorem total_zero : total os 0 = 0 := rfl

theorem total_succ (n : Nat) : total os (n + 1) = total os n + os n := rfl

theorem failures_mono {n m : Nat} (h : n ≤ m) : failures os n ≤ failures os m := by
  induction m, h using Nat.le_induction with
  | base => exact Nat.le_refl _
  | succ m _ ih => rw [failures_succ]; omega

/-- As long as the sum stays below 4 the header loop goes on. -/
theorem header_of_total (hos : SendResults text os) {n : Nat}
    (h : ∀ i ≤ n, 0 ≤ total os i ∧ total os i < 4) :
    (Sender.after text os n).phase = .header ∧ (Sender.after text os n).sent = total os n ∧
      (Sender.after text os n).wire.length = total os n + failures os n := by
  induction n with
  | zero => exact ⟨rfl, rfl, rfl⟩
  | succ n ih =>
    obtain ⟨hp, hs, hw⟩ := ih fun i hi => h i (Nat.le_succ_of_le hi)
    have hn := h n (Nat.le_succ n)
    have hn1 := h (n + 1) (Nat.le_refl _)
    have hr := hos.header hp (by omega)
    rw [total_succ] at hn1
    rw [after_succ, step_header hp, hs, total_succ, failures_succ, if_neg (by omega), if_pos (by omega),
      if_pos (by omega)]
    refine ⟨rfl, rfl, ?_⟩
    rw [List.length_append, length_take_drop (by rw [length_htonl]; omega)]
    split <;> omega

/-- Where the sender is as long as no call has failed. -/
def Sender.Smooth (text : Bytes) (sum : Int) (s : Sender) : Prop :=
  (s.phase = .header ∧ s.sent = sum ∧ 0 ≤ sum ∧ sum < 4 ∧ s.wire = (frame text).take sum.toNat) ∨
  (s.phase = .payload ∧ s.sent + 4 = sum ∧ 0 ≤ s.sent ∧ s.sent < text.length ∧
    s.wire = (frame text).take sum.toNat) ∨
  (s.phase = .returned ∧ s.wire = frame text)

theorem smooth_of_no_failure (hos : SendResults text os) {n : Nat} (h : failures os n = 0) :
    (Sender.after text os n).Smooth text (total os n) := by
  induction n with
  | zero => exact Or.inl ⟨rfl, rfl, by simp, by simp, rfl⟩
  | succ n ih =>
    rw [failures_succ] at h
    have hne : os n ≠ -1 := by
      intro he
      rw [if_pos he] at h
      omega
    rcases ih (by omega) with ⟨hp, hs, h0, h4, hw⟩ | ⟨hp, hs, h0, hl, hw⟩ | ⟨hp, hw⟩
    · have hr := hos.header hp (by omega)
      have hwire : (Sender.after text os n).wire ++
          ((htonl text.length).drop (total os n).toNat).take (os n).toNat =
          (frame text).take (total os n + os n).toNat := by
        rw [hw, take_drop_htonl (by omega), take_append_take_drop]
        congr 1
        omega
      rw [after_succ, step_header hp, hs, total_succ, hwire, if_neg (by omega)]
      by_cases h4' : total os n + os n < 4
      · rw [if_pos h4', if_pos h4']
        exact Or.inl ⟨rfl, rfl, by omega, h4', rfl⟩
      · rw [if_neg h4', if_neg h4']
        have hsum : total os n + os n = 4 := by omega
        rw [hsum]
        by_cases hl : 0 < text.length
        · rw [if_pos hl]
          exact Or.inr (Or.inl ⟨rfl, rfl, Int.le_refl 0, by show (0 : Int) < _; omega, rfl⟩)
        · rw [if_neg hl]
          refine Or.inr (Or.inr ⟨rfl, List.take_of_length_le ?_⟩)
          rw [length_frame]
          show _ ≤ 4
          omega
    · have hr := hos.payload hp hl
      have hwire : (Sender.after text os n).wire ++
          (text.drop (Sender.after text os n).sent.toNat).take (os n).toNat =
          (frame text).take (total os n + os n).toNat := by
        have hd : text.drop (Sender.after text os n).sent.toNat =
            (frame text).drop (total os n).toNat := by
          have ht : (total os n).toNat = (htonl text.length).length +
              (Sender.after text os n).sent.toNat := by
            rw [length_htonl]
            omega
          rw [ht, ← List.drop_drop]
          unfold frame
          rw [List.drop_left]
        rw [hw, hd, take_append_take_drop]
        congr 1
        omega
      rw [after_succ, step_payload hp, total_succ, hwire, if_neg (by omega)]
      by_cases hl' : (Sender.after text os n).sent + os n < text.length
      · rw [if_pos hl']
        exact Or.inr (Or.inl ⟨rfl, by dsimp only; omega, by dsimp only; omega, hl', rfl⟩)
      · rw [if_neg hl']
        refine Or.inr (Or.inr ⟨rfl, List.take_of_length_le ?_⟩)
        rw [length_frame]
        omega
    · rw [after_succ]
      have hst : (Sender.after text os n).step text (os n) = Sender.after text os n := by
        simp [Sender.step, hp]
      rw [hst]
      exact Or.inr (Or.inr ⟨hp, hw⟩)

/-- The sums before the return, and the bytes on the wire. -/
def Sender.Counted (text : Bytes) (os : Nat → Int) (n : Nat) (s : Sender) : Prop :=
  match s.phase with
  | .header => s.sent = total os n ∧ (∀ i ≤ n, 0 ≤ total os i ∧ total os i < 4) ∧
    s.wire.length = total os n + failures os n
  | .payload => s.sent + 4 = total os n ∧ 0 ≤ s.sent ∧ s.sent < text.length ∧
    s.wire.length = total os n + failures os n
  | .returned => ∃ k, (total os k = -1 ∧ ∀ i < k, 0 ≤ total os i ∧ total os i < 4) ∨
    (total os k = (frame text).length ∧ s.wire.length = total os k + failures os k)
  | .undefined => True

theorem counted (hos : SendResults text os) (n : Nat) :
    (Sender.after text os n).Counted text os n := by
  induction n with
  | zero => exact ⟨rfl, by intro i hi; rw [Nat.le_zero.1 hi]; simp, rfl⟩
  | succ n ih =>
    cases hp : (Sender.after text os n).phase with
    | header =>
      rw [Sender.Counted, hp] at ih
      obtain ⟨hs, hi, hw⟩ := ih
      have hn := hi n (Nat.le_refl n)
      have hr := hos.header hp (by omega)
      have hlen : (((Sender.after text os n).wire ++
          ((htonl text.length).drop (total os n).toNat).take (os n).toNat).length : Int) =
          total os (n + 1) + failures os (n + 1) := by
        rw [List.length_append, length_take_drop (by rw [length_htonl]; omega), total_succ,
          failures_succ]
        split <;> omega
      rw [after_succ, step_header hp, hs]
      unfold Sender.Counted
      by_cases h0 : total os n + os n < 0
      · simp only [if_pos h0]
        exact ⟨n + 1, Or.inl ⟨by rw [total_succ]; omega, fun i hi' => hi i (by omega)⟩⟩
      · by_cases h4 : total os n + os n < 4
        · simp only [if_neg h0, if_pos h4]
          refine ⟨rfl, fun i hi' => ?_, hlen⟩
          by_cases he : i = n + 1
          · rw [he, total_succ]
            omega
          · exact hi i (by omega)
        · have hsum : total os (n + 1) = 4 := by rw [total_succ]; omega
          by_cases hl : 0 < text.length
          · simp only [if_neg h0, if_neg h4, if_pos hl]
            exact ⟨by omega, by omega, by omega, hlen⟩
          · simp only [if_neg h0, if_neg h4, if_neg hl]
            refine ⟨n + 1, Or.inr ⟨?_, hlen⟩⟩
            rw [hsum, length_frame]
            omega
    | payload =>
      rw [Sender.Counted, hp] at ih
      obtain ⟨hs, h0', hl, hw⟩ := ih
      have hr := hos.payload hp hl
      have hlen : (((Sender.after text os n).wire ++
          (text.drop (Sender.after text os n).sent.toNat).take (os n).toNat).length : Int) =
          total os (n + 1) + failures os (n + 1) := by
        rw [List.length_append, length_take_drop (by omega), total_succ, failures_succ]
        split <;> omega
      rw [after_succ, step_payload hp]
      unfold Sender.Counted
      by_cases h0 : (Sender.after text os n).sent + os n < 0
      · simp only [if_pos h0]
      · by_cases hl' : (Sender.after text os n).sent + os n < text.length
        · simp only [if_neg h0, if_pos hl']
          exact ⟨by rw [total_succ]; omega, by omega, hl', hlen⟩
        · simp only [if_neg h0, if_neg hl']
          refine ⟨n + 1, Or.inr ⟨?_, hlen⟩⟩
          rw [total_succ, length_frame]
          omega
    | returned =>
      have hst : (Sender.after text os n).step text (os n) = Sender.after text os n := by
        simp [Sender.step, hp]
      rw [after_succ, hst]
      rw [Sender.Counted, hp] at ih ⊢
      exact ih
    | undefined =>
      have hst : (Sender.after text os n).step text (os n) = Sender.after text os n := by
        simp [Sender.step, hp]
      rw [after_succ, hst, Sender.Counted, hp]
      trivial

/-- Giving up in the header loop keeps the frame when what was repeated was due. -/
theorem sendFramed_of_givesUp (hos : SendResults text os) (h : GivesUp text os) :
    SendFramed text os := by
  obtain ⟨n, hn, hi⟩ := h
  have hin : ∀ m ≤ n, (Sender.after text os m).wire <+: frame text := by
    intro m
    induction m with
    | zero => exact fun _ => List.nil_prefix
    | succ m ih =>
      intro hm
      obtain ⟨hp, hs, hw⟩ := header_of_total hos (n := m) fun i hi' =>
        ⟨(hi i (by omega)).1, (hi i (by omega)).2.1⟩
      have hr := hos.header hp (by rw [hs]; exact (hi m hm).2.1)
      obtain ⟨h0, h4, he⟩ := hi m hm
      rw [after_succ, step_header hp, hs]
      refine append_prefix (ih (by omega)) ?_
      rw [length_take_drop (by rw [length_htonl]; omega), take_drop_htonl (by omega), he]
      congr 2
      omega
  cases n with
  | zero => cases hn
  | succ n =>
    obtain ⟨hp, hs, hw⟩ := header_of_total hos (n := n) fun i hi' =>
      ⟨(hi i (by omega)).1, (hi i (by omega)).2.1⟩
    have hret : (Sender.after text os (n + 1)).phase = .returned := by
      rw [total_succ] at hn
      rw [after_succ, step_header hp, hs]
      exact if_pos (by omega)
    refine ⟨fun m => ?_, n + 1, hret⟩
    by_cases hm : m ≤ n + 1
    · exact hin m hm
    · rw [after_of_returned hret (by omega)]
      exact hin (n + 1) (Nat.le_refl _)

theorem sendFramed_of_noFailure (hos : SendResults text os) (h : NoFailure text os) :
    SendFramed text os ∧ ∃ n, (Sender.after text os n).phase = .returned ∧
      (Sender.after text os n).wire = frame text := by
  obtain ⟨n, hf, hn⟩ := h
  rw [length_frame] at hn
  have hret : (Sender.after text os n).phase = .returned ∧
      (Sender.after text os n).wire = frame text := by
    rcases smooth_of_no_failure hos hf with ⟨_, _, _, _, _⟩ | ⟨_, _, _, _, _⟩ | h
    · omega
    · omega
    · exact h
  refine ⟨⟨fun m => ?_, n, hret.1⟩, n, hret⟩
  by_cases hm : m ≤ n
  · have hfm : failures os m = 0 := by
      have hmono : failures os m ≤ failures os n := failures_mono hm
      omega
    rcases smooth_of_no_failure hos hfm with ⟨_, _, _, _, hw⟩ | ⟨_, _, _, _, hw⟩ | ⟨_, hw⟩
    · rw [hw]
      exact List.take_prefix _ _
    · rw [hw]
      exact List.take_prefix _ _
    · rw [hw]
  · rw [after_of_returned hret.1 (by omega), hret.2]

/-- Exactly when a sender keeps to the frame. -/
theorem sendFramed_iff (hos : SendResults text os) :
    SendFramed text os ↔ NoFailure text os ∨ GivesUp text os := by
  refine ⟨?_, fun h => h.elim (fun h => (sendFramed_of_noFailure hos h).1)
    (sendFramed_of_givesUp hos)⟩
  rintro ⟨hpre, n, hret⟩
  have hc := counted hos n
  rw [Sender.Counted, hret] at hc
  obtain ⟨k, ⟨hk, hi⟩ | ⟨hk, hw⟩⟩ := hc
  · refine Or.inr ⟨k, hk, fun i hik => ⟨(hi i hik).1, (hi i hik).2, ?_⟩⟩
    obtain ⟨hp, hs, hw⟩ := header_of_total hos (n := i) fun j hj => hi j (by omega)
    have hb := hi i hik
    have hr := hos.header hp (by omega)
    have hnext := hpre (i + 1)
    rw [after_succ, step_header hp, hs] at hnext
    have he := eq_of_append_prefix hnext
    rw [length_take_drop (by rw [length_htonl]; omega), take_drop_htonl (by omega)] at he
    rw [he]
    congr 2
    omega
  · refine Or.inl ⟨k, ?_, hk⟩
    have hle := (hpre n).length_le
    omega

end

/-! ## Receiving -/

/-- A thread that calls `Message_recv` again and again: `size` is `msgsize` once it is
known, `got` what the loop it is in has read, `stream` what is still to come, `delivered`
what went to the parser. It stops at the first NULL. -/
structure Receiver where
  size : Option Int := none
  got : Bytes := []
  stream : Bytes
  delivered : List Bytes := []
  closed : Bool := false

/-- The number of bytes that the next call asks for. -/
def Receiver.request (s : Receiver) : Int :=
  match s.size with
  | none => 4 - s.got.length
  | some size => min 102400 (size - s.got.length)

/-- A call that returns `r`. -/
def Receiver.step (r : Int) (s : Receiver) : Receiver :=
  if s.closed then s
  else if r ≤ 0 then { s with closed := true }
  else
    let got := s.got ++ s.stream.take r.toNat
    let stream := s.stream.drop r.toNat
    match s.size with
    | none =>
      if got.length < 4 then { s with got, stream }
      else if 0 < ntohl got then { s with size := some (ntohl got), got := [], stream }
      else { s with got := [], stream, delivered := s.delivered ++ [[]] }
    | some size =>
      if got.length < size then { s with got, stream }
      else { s with size := none, got := [], stream, delivered := s.delivered ++ [got] }

/-- The receiver after `n` calls. -/
def Receiver.after (stream : Bytes) (os : Nat → Int) : Nat → Receiver
  | 0 => { stream }
  | n + 1 => (after stream os n).step (os n)

/-- A call returns what there is, at most what it was asked to, or 0 or -1. -/
def RecvResults (stream : Bytes) (os : Nat → Int) : Prop :=
  ∀ n, (Receiver.after stream os n).closed = false →
    os n ≤ (Receiver.after stream os n).request ∧ os n ≤ (Receiver.after stream os n).stream.length

/-- No call fails while there are bytes. -/
def NoRecvFailure (stream : Bytes) (os : Nat → Int) : Prop :=
  ∀ n, (Receiver.after stream os n).stream ≠ [] → 0 < os n

/-- What was read of the frame at hand. -/
def Receiver.pending (s : Receiver) : Bytes :=
  match s.size with
  | none => s.got
  | some size => htonl size.toNat ++ s.got

/-- The loop at hand is not done. -/
def Receiver.Short (s : Receiver) : Prop :=
  match s.size with
  | none => s.got.length < 4
  | some size => s.got.length < size ∧ size < 2 ^ 31

/-- `texts` were sent, and of the last of them the bytes `missing` never come. -/
structure Receiver.Inv (texts : List Bytes) (missing : Bytes) (s : Receiver) : Prop where
  short : s.Short
  rest : ∃ todo, s.delivered ++ todo = texts ∧
    s.pending ++ s.stream ++ missing = (todo.map frame).flatten

/-- The first four bytes of a frame are its length. -/
theorem ntohl_prefix {text got rest tail : Bytes} (hl : text.length < 2 ^ 31)
    (h : got ++ rest = frame text ++ tail) (h4 : got.length = 4) :
    ntohl got = text.length ∧ rest = text ++ tail := by
  unfold frame at h
  rw [List.append_assoc] at h
  obtain ⟨h1, h2⟩ := List.append_inj h (by rw [h4, length_htonl])
  rw [h1, ntohl_htonl hl]
  exact ⟨rfl, h2⟩

section

variable {texts : List Bytes} {missing stream : Bytes} {os : Nat → Int} {s : Receiver} {r : Int}

/-- While bytes come there is a frame that they belong to. -/
theorem Receiver.Inv.exists_frame (h : s.Inv texts missing) (hs : s.stream ≠ []) :
    ∃ text todo, s.delivered ++ text :: todo = texts ∧
      s.pending ++ s.stream ++ missing = frame text ++ (todo.map frame).flatten := by
  obtain ⟨todo, hd, hr⟩ := h.rest
  cases todo with
  | nil =>
    have hnil : s.pending ++ s.stream ++ missing = [] := hr
    simp [hs] at hnil
  | cons text todo => exact ⟨text, todo, hd, hr⟩

/-- The length that was read is that of the frame at hand. -/
theorem Receiver.Inv.size_eq (ht : ∀ t ∈ texts, t.length < 2 ^ 31) (h : s.Inv texts missing)
    {size : Int} (hs : s.size = some size) {text tail : Bytes} (hm : text ∈ texts)
    (hr : s.pending ++ s.stream ++ missing = frame text ++ tail) :
    size = text.length ∧ s.got ++ (s.stream ++ missing) = text ++ tail := by
  have hsh := h.short
  unfold Receiver.Short at hsh
  rw [hs] at hsh
  unfold Receiver.pending at hr
  rw [hs] at hr
  simp only [List.append_assoc] at hr
  obtain ⟨hn, he⟩ := ntohl_prefix (ht text hm) hr rfl
  rw [ntohl_htonl (by omega)] at hn
  exact ⟨by omega, he⟩

/-- One call keeps the account. -/
theorem Receiver.Inv.step (ht : ∀ t ∈ texts, t.length < 2 ^ 31) (h : s.Inv texts missing)
    (hq : s.closed = false → r ≤ s.request ∧ r ≤ s.stream.length) :
    (s.step r).Inv texts missing := by
  unfold Receiver.step
  by_cases hc : s.closed
  · rw [if_pos hc]
    exact h
  · rw [if_neg hc]
    have hq := hq (by simpa using hc)
    by_cases h0 : r ≤ 0
    · rw [if_pos h0]
      exact ⟨h.short, h.rest⟩
    · rw [if_neg h0]
      have hne : s.stream ≠ [] := by
        intro he
        rw [he] at hq
        exact h0 hq.2
      have htake : (s.stream.take r.toNat).length = r.toNat := by
        rw [List.length_take]
        omega
      have hjoin : s.got ++ s.stream.take r.toNat ++ (s.stream.drop r.toNat ++ missing) =
          s.got ++ (s.stream ++ missing) := by
        rw [List.append_assoc, ← List.append_assoc (s.stream.take _), List.take_append_drop]
      have hlen : (s.got ++ s.stream.take r.toNat).length = s.got.length + r.toNat := by
        rw [List.length_append, htake]
      obtain ⟨text, todo, hd, hr⟩ := h.exists_frame hne
      have hm : text ∈ texts := by rw [← hd]; simp
      have hdone : s.delivered ++ [text] ++ todo = texts := by rw [List.append_assoc]; exact hd
      have hreq := hq.1
      have hsh := h.short
      unfold Receiver.Short at hsh
      unfold Receiver.request at hreq
      dsimp only
      cases hs : s.size with
      | none =>
        rw [hs] at hreq hsh
        dsimp only at hreq hsh ⊢
        unfold Receiver.pending at hr
        rw [hs] at hr
        dsimp only at hr
        rw [List.append_assoc, ← hjoin] at hr
        by_cases h4 : (s.got ++ s.stream.take r.toNat).length < 4
        · rw [if_pos h4]
          refine ⟨h4, text :: todo, hd, ?_⟩
          show _ ++ _ ++ _ = _
          rw [List.append_assoc]
          exact hr
        · rw [if_neg h4]
          obtain ⟨hn, he⟩ := ntohl_prefix (ht text hm) hr (by omega)
          rw [hn]
          by_cases hl : 0 < (text.length : Int)
          · rw [if_pos hl]
            refine ⟨⟨hl, by have := ht text hm; omega⟩, text :: todo, hd, ?_⟩
            show htonl _ ++ [] ++ _ ++ _ = frame text ++ _
            rw [List.append_nil, List.append_assoc, he, Int.toNat_natCast]
            unfold frame
            rw [List.append_assoc]
          · rw [if_neg hl]
            have hnil : text = [] := List.length_eq_zero_iff.1 (by omega)
            subst hnil
            exact ⟨Nat.zero_lt_succ 3, todo, hdone, he⟩
      | some size =>
        obtain ⟨hsz, he⟩ := h.size_eq ht hs hm hr
        rw [hs] at hreq hsh
        dsimp only at hreq hsh ⊢
        rw [← hjoin] at he
        by_cases hl : ((s.got ++ s.stream.take r.toNat).length : Int) < size
        · rw [if_pos hl]
          refine ⟨⟨hl, hsh.2⟩, text :: todo, hd, ?_⟩
          show htonl _ ++ _ ++ _ ++ _ = frame text ++ _
          rw [List.append_assoc, List.append_assoc, he, hsz, Int.toNat_natCast]
          unfold frame
          rw [List.append_assoc]
        · rw [if_neg hl]
          obtain ⟨hgot, hrest⟩ := List.append_inj he (by omega)
          rw [hgot]
          exact ⟨Nat.zero_lt_succ 3, todo, hdone, hrest⟩

/-- Nothing but what was sent goes to the parser, whatever the calls return. -/
theorem received (ht : ∀ t ∈ texts, t.length < 2 ^ 31)
    (hst : stream ++ missing = (texts.map frame).flatten) (hos : RecvResults stream os) (n : Nat) :
    (Receiver.after stream os n).Inv texts missing := by
  induction n with
  | zero => exact ⟨Nat.zero_lt_succ 3, texts, rfl, hst⟩
  | succ n ih => exact ih.step ht (hos n)

/-- A call that succeeds shortens the stream. -/
theorem length_stream_step (hc : s.closed = false) (h0 : 0 < r) :
    (s.step r).stream.length = s.stream.length - r.toNat ∧ (s.step r).closed = false := by
  unfold Receiver.step
  rw [hc, if_neg (by decide), if_neg (by omega)]
  dsimp only
  split <;> split <;> try split
  all_goals exact ⟨List.length_drop, rfl⟩

/-- Sooner or later a call fails or the stream is read. -/
theorem exists_drained (hos : RecvResults stream os) :
    ∃ n, (Receiver.after stream os n).closed = true ∨
      (Receiver.after stream os n).closed = false ∧ (Receiver.after stream os n).stream = [] := by
  by_contra hno
  have hrun : ∀ n, (Receiver.after stream os n).closed = false ∧
      (Receiver.after stream os n).stream ≠ [] := by
    intro n
    cases hc : (Receiver.after stream os n).closed with
    | false => exact ⟨rfl, fun he => hno ⟨n, Or.inr ⟨hc, he⟩⟩⟩
    | true => exact absurd ⟨n, Or.inl hc⟩ hno
  have hdec : ∀ n, (Receiver.after stream os n).stream.length + n ≤ stream.length := by
    intro n
    induction n with
    | zero => exact Nat.le_refl _
    | succ n ih =>
      have hpos : 0 < os n := by
        by_contra h0
        have hcl : (Receiver.after stream os (n + 1)).closed = true := by
          show ((Receiver.after stream os n).step (os n)).closed = true
          unfold Receiver.step
          rw [(hrun n).1, if_neg (by decide), if_pos (by omega)]
        rw [(hrun (n + 1)).1] at hcl
        cases hcl
      have hl := (length_stream_step (hrun n).1 hpos).1
      have hle := (hos n (hrun n).1).2
      show ((Receiver.after stream os n).step (os n)).stream.length + (n + 1) ≤ _
      omega
  have hlast := hdec (stream.length + 1)
  omega

theorem exists_closed (hos : RecvResults stream os) :
    ∃ n, (Receiver.after stream os n).closed = true := by
  obtain ⟨n, h | ⟨hc, hs⟩⟩ := exists_drained hos
  · exact ⟨n, h⟩
  · have hle := (hos n hc).2
    rw [hs] at hle
    refine ⟨n + 1, ?_⟩
    show ((Receiver.after stream os n).step (os n)).closed = true
    unfold Receiver.step
    rw [hc, if_neg (by decide), if_pos (by simpa using hle)]

/-- With the stream read and nothing missing, everything is delivered. -/
theorem Receiver.Inv.delivered_eq (ht : ∀ t ∈ texts, t.length < 2 ^ 31) (h : s.Inv texts [])
    (hs : s.stream = []) : s.delivered = texts := by
  obtain ⟨todo, hd, hr⟩ := h.rest
  cases todo with
  | nil => rw [← hd, List.append_nil]
  | cons text todo =>
    have hsh := h.short
    unfold Receiver.Short at hsh
    have hm : text ∈ texts := by rw [← hd]; simp
    cases hz : s.size with
    | none =>
      rw [hz] at hsh
      have hlen := congrArg List.length hr
      unfold Receiver.pending at hlen
      rw [hz, hs] at hlen
      simp at hlen hsh
      omega
    | some size =>
      obtain ⟨hsz, he⟩ := h.size_eq ht hz hm hr
      rw [hz] at hsh
      have hlen := congrArg List.length he
      rw [hs] at hlen
      simp at hlen hsh
      omega

end

/-! ## A conversation -/

/-- What a call of `Message_send` that returned has put on the wire. -/
def Written (text : Bytes) (os : Nat → Int) (wire : Bytes) : Prop :=
  ∃ n, (Sender.after text os n).phase = .returned ∧ (Sender.after text os n).wire = wire

/-- The texts of a sequence of messages, each with the results of its calls of `send`. -/
abbrev Sends := List (Bytes × (Nat → Int))

/-- What the two sides of a connection promise each other for the messages `msgs`. -/
structure Framing (msgs : Sends) : Prop where
  sent : ∀ m ∈ msgs, SendFramed m.1 m.2
  received : (∀ m ∈ msgs, NoFailure m.1 m.2) →
    ∀ wires, List.Forall₂ (fun m wire => Written m.1 m.2 wire) msgs wires →
    ∀ os, RecvResults wires.flatten os → NoRecvFailure wires.flatten os →
      (∀ n, (Receiver.after wires.flatten os n).delivered <+: msgs.map (·.1)) ∧
        ∃ n, (Receiver.after wires.flatten os n).delivered = msgs.map (·.1)
  cut : ∀ whole text part missing, whole ++ [text] <+: msgs.map (·.1) →
    frame text = part ++ missing → missing ≠ [] →
    ∀ os, RecvResults ((whole.map frame).flatten ++ part) os →
      (∀ n, (Receiver.after ((whole.map frame).flatten ++ part) os n).delivered <+: whole) ∧
        ∃ n, (Receiver.after ((whole.map frame).flatten ++ part) os n).closed = true

theorem written_eq_frame {text : Bytes} {os : Nat → Int} {wire : Bytes} (hos : SendResults text os)
    (h : NoFailure text os) (hw : Written text os wire) : wire = frame text := by
  obtain ⟨_, n, hn, hf⟩ := sendFramed_of_noFailure hos h
  obtain ⟨m, hm, rfl⟩ := hw
  rw [← hf]
  by_cases hle : n ≤ m
  · rw [after_of_returned hn hle]
  · rw [← after_of_returned hm (Nat.le_of_not_le hle)]

/-- Without failures the wire holds the frames. -/
theorem wires_eq {msgs : Sends} (hos : ∀ m ∈ msgs, SendResults m.1 m.2)
    (h : ∀ m ∈ msgs, NoFailure m.1 m.2) {wires : List Bytes}
    (hw : List.Forall₂ (fun m wire => Written m.1 m.2 wire) msgs wires) :
    wires = (msgs.map (·.1)).map frame := by
  induction hw with
  | nil => rfl
  | cons hm _ ih =>
    rw [written_eq_frame (hos _ List.mem_cons_self) (h _ List.mem_cons_self) hm,
      ih (fun m hm => hos m (List.mem_cons_of_mem _ hm)) fun m hm => h m (List.mem_cons_of_mem _ hm)]
    rfl

theorem delivered_prefix {texts : List Bytes} {missing : Bytes} {s : Receiver}
    (h : s.Inv texts missing) : s.delivered <+: texts :=
  let ⟨todo, hd, _⟩ := h.rest
  ⟨todo, hd⟩

/-- Receiving all that was sent, with no failure. -/
theorem received_all {texts : List Bytes} (ht : ∀ t ∈ texts, t.length < 2 ^ 31) {os : Nat → Int}
    (hos : RecvResults (texts.map frame).flatten os)
    (hno : NoRecvFailure (texts.map frame).flatten os) :
    (∀ n, (Receiver.after (texts.map frame).flatten os n).delivered <+: texts) ∧
      ∃ n, (Receiver.after (texts.map frame).flatten os n).delivered = texts := by
  have hinv := received ht (List.append_nil _) hos
  refine ⟨fun n => delivered_prefix (hinv n), ?_⟩
  by_contra hne
  -- the stream is never read to its end, so no call fails, so the receiver never stops
  have hs : ∀ n, (Receiver.after (texts.map frame).flatten os n).stream ≠ [] := fun n he =>
    hne ⟨n, (hinv n).delivered_eq ht he⟩
  have hc : ∀ n, (Receiver.after (texts.map frame).flatten os n).closed = false := by
    intro n
    induction n with
    | zero => rfl
    | succ n ih => exact (length_stream_step ih (hno n (hs n))).2
  obtain ⟨n, hn⟩ := exists_closed hos
  rw [hc n] at hn
  cases hn

/-- A stream that ends inside a frame. -/
theorem received_cut {whole : List Bytes} {text part missing : Bytes}
    (ht : ∀ t ∈ whole ++ [text], t.length < 2 ^ 31) (hf : frame text = part ++ missing)
    (hm : missing ≠ []) {os : Nat → Int}
    (hos : RecvResults ((whole.map frame).flatten ++ part) os) (n : Nat) :
    (Receiver.after ((whole.map frame).flatten ++ part) os n).delivered <+: whole := by
  have hst : (whole.map frame).flatten ++ part ++ missing =
      ((whole ++ [text]).map frame).flatten := by
    rw [List.map_append, List.flatten_append, List.append_assoc, ← hf]
    simp
  obtain ⟨todo, hd, hr⟩ := (received ht hst hos n).rest
  have hne : todo ≠ [] := by
    intro he
    rw [he] at hr
    have hnil : _ ++ missing = [] := hr
    exact hm (List.append_eq_nil_iff.1 hnil).2
  rw [← List.dropLast_append_getLast hne, ← List.append_assoc] at hd
  exact ⟨_, (List.append_inj_left' hd rfl)⟩

/-- Receivers always keep their side; a sender does unless a call fails late. -/
theorem framing_iff (msgs : Sends) (ht : ∀ m ∈ msgs, m.1.length < 2 ^ 31)
    (hos : ∀ m ∈ msgs, SendResults m.1 m.2) :
    Framing msgs ↔ ∀ m ∈ msgs, NoFailure m.1 m.2 ∨ GivesUp m.1 m.2 := by
  have htexts : ∀ t ∈ msgs.map (·.1), t.length < 2 ^ 31 := by
    intro t hmem
    obtain ⟨m, hm, rfl⟩ := List.mem_map.1 hmem
    exact ht m hm
  constructor
  · exact fun h m hm => (sendFramed_iff (hos m hm)).1 (h.sent m hm)
  · intro h
    refine ⟨fun m hm => (sendFramed_iff (hos m hm)).2 (h m hm), ?_, ?_⟩
    · intro hno wires hw
      rw [wires_eq hos hno hw]
      exact fun os hr hn => received_all htexts hr hn
    · intro whole text part missing hpre hf hm os hr
      have ht' : ∀ t ∈ whole ++ [text], t.length < 2 ^ 31 := fun t hmem =>
        htexts t (hpre.subset hmem)
      exact ⟨received_cut ht' hf hm hr, exists_closed hr⟩

/-- The results of a finite number of calls. -/
def results (l : List Int) (n : Nat) : Int := l.getD n 0

theorem sendResults_of_returned {text : Bytes} {os : Nat → Int} (k : Nat)
    (hk : (Sender.after text os k).phase = .returned)
    (h : ∀ n < k, 0 < (Sender.after text os n).request text →
      os n = -1 ∨ 0 < os n ∧ os n ≤ (Sender.after text os n).request text) :
    SendResults text os := by
  intro n hn
  by_cases hlt : n < k
  · exact h n hlt hn
  · rw [after_of_returned hk (by omega)] at hn
    unfold Sender.request at hn
    rw [hk] at hn
    cases hn

theorem framing_iff_ab :
    Framing [([65, 66], results [4, 1, 1])] ↔
      ∀ m ∈ [(([65, 66] : Bytes), results [4, 1, 1])], NoFailure m.1 m.2 ∨ GivesUp m.1 m.2 :=
  framing_iff _ (by decide) (by
    intro m hm
    obtain rfl := List.mem_singleton.1 hm
    exact sendResults_of_returned 3 (by decide) (by decide))

/-- A call that fails behind the first byte of the text sends that byte again. -/
theorem sends_twice :
    (∀ m ∈ [(([65, 66] : Bytes), results [4, 1, -1, 2])], SendResults m.1 m.2) ∧
      ¬ Framing [([65, 66], results [4, 1, -1, 2])] := by
  constructor
  · intro m hm
    obtain rfl := List.mem_singleton.1 hm
    exact sendResults_of_returned 4 (by decide) (by decide)
  · intro h
    have hp := (h.sent _ List.mem_cons_self).1 4
    exact absurd hp (by decide)

end PyLinda
