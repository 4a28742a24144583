import PyLinda.Minimal.Evaluate
import PyLinda.Minimal.ValueXml

/-!
# Integers of eight widths

The constructors and accessors of `values.c`. All widths share one `long`; what reads it casts
it to a width of its own, and beyond 32 bits that is not always the width it was made of.
-/

namespace PyLinda.Integers

open Lib

/-! ## `values.c` -/

/-- The argument becomes a `long`. -/
def makeSigned {w : Nat} (i : BitVec w) : MinimalValue := .integer i.toInt

/-- The argument becomes an `unsigned long`. -/
def makeUnsigned {w : Nat} (i : BitVec w) : MinimalValue := .uinteger i.toNat

def byte (i : BitVec 8) : MinimalValue := makeSigned i

def short (i : BitVec 16) : MinimalValue := makeSigned i

def int (i : BitVec 32) : MinimalValue := makeSigned i

def long (i : BitVec 64) : MinimalValue := makeSigned i

def ubyte (i : BitVec 8) : MinimalValue := makeUnsigned i

def ushort (i : BitVec 16) : MinimalValue := makeUnsigned i

def uint (i : BitVec 32) : MinimalValue := makeUnsigned i

def ulong (i : BitVec 64) : MinimalValue := makeUnsigned i

/-- `v->integer`, where the union holds an integer. -/
def integerOf : MinimalValue → Option Int
  | .integer i => some i
  | .uinteger n => some ((n : Int).bmod (2 ^ 64))
  | _ => none

/-- `v->uinteger`, where the union holds an integer. -/
def uintegerOf : MinimalValue → Option Int
  | .integer i => some (i % 2 ^ 64)
  | .uinteger n => some n
  | _ => none

/-- A cast to a signed type of `w` bits. -/
def castSigned (w : Nat) (v : MinimalValue) : Option Int := (integerOf v).map (·.bmod (2 ^ w))

/-- A cast to an unsigned type of `w` bits. -/
def castUnsigned (w : Nat) (v : MinimalValue) : Option Int := (uintegerOf v).map (· % 2 ^ w)

def getByte (v : MinimalValue) : Option Int := castSigned 8 v

def getShort (v : MinimalValue) : Option Int := castSigned 16 v

def getInt (v : MinimalValue) : Option Int := castSigned 32 v

def getLong (v : MinimalValue) : Option Int := castSigned 32 v -- `(int)`

def getUByte (v : MinimalValue) : Option Int := castUnsigned 8 v

def getUShort (v : MinimalValue) : Option Int := castUnsigned 16 v

def getUInt (v : MinimalValue) : Option Int := castUnsigned 32 v

def getULong (v : MinimalValue) : Option Int := castUnsigned 32 v -- `(unsigned int)`

/-! ## The eight kinds -/

inductive Kind where
  | byte
  | short
  | int
  | long
  | ubyte
  | ushort
  | uint
  | ulong

namespace Kind

def bits : Kind → Nat
  | byte | ubyte => 8
  | short | ushort => 16
  | int | uint => 32
  | long | ulong => 64

def make : (k : Kind) → BitVec k.bits → MinimalValue
  | byte => Integers.byte
  | short => Integers.short
  | int => Integers.int
  | long => Integers.long
  | ubyte => Integers.ubyte
  | ushort => Integers.ushort
  | uint => Integers.uint
  | ulong => Integers.ulong

def get : Kind → MinimalValue → Option Int
  | byte => getByte
  | short => getShort
  | int => getInt
  | long => getLong
  | ubyte => getUByte
  | ushort => getUShort
  | uint => getUInt
  | ulong => getULong

/-- The number that an argument is. -/
def number : (k : Kind) → BitVec k.bits → Int
  | byte, i | short, i | int, i | long, i => i.toInt
  | ubyte, i | ushort, i | uint, i | ulong, i => i.toNat

/-- The argument fits in 32 bits. -/
def Fits : (k : Kind) → BitVec k.bits → Prop
  | long, i => -2 ^ 31 ≤ i.toInt ∧ i.toInt < 2 ^ 31
  | ulong, i => i.toNat < 2 ^ 32
  | _, _ => True

/-- The accessor returns what the constructor got, and so does the value on the other side. -/
def Kept (k : Kind) (i : BitVec k.bits) : Prop :=
  k.get (k.make i) = some (k.number i) ∧ (k.make i).RoundTrips

end Kind

/-! ## Accessors -/

theorem castSigned_integer {w : Nat} (i : Int) :
    castSigned w (.integer i) = some i ↔ i.bmod (2 ^ w) = i := by
  show some (i.bmod (2 ^ w)) = some i ↔ _
  rw [Option.some_inj]

theorem castUnsigned_uinteger {w : Nat} (n : Nat) :
    castUnsigned w (.uinteger n) = some (n : Int) ↔ (n : Int) % 2 ^ w = n := by
  show some ((n : Int) % 2 ^ w) = some (n : Int) ↔ _
  rw [Option.some_inj]

/-- What fits is left alone, and nothing else is. -/
theorem bmod_eq_iff (w : Nat) (i : Int) :
    i.bmod (2 ^ (w + 1)) = i ↔ -2 ^ w ≤ i ∧ i < 2 ^ w := by
  have hpow : (2 : Int) ^ (w + 1) = 2 * 2 ^ w := by
    rw [Int.pow_succ, Int.mul_comm]
  have hcast : ((2 ^ (w + 1) : Nat) : Int) = 2 * 2 ^ w := by
    rw [Int.natCast_pow]
    exact hpow
  have hpos : 0 < 2 ^ (w + 1) := Nat.two_pow_pos _
  constructor
  · intro h
    have hle := @Int.le_bmod i _ hpos
    have hlt := @Int.bmod_lt i _ hpos
    rw [h, hcast] at hle hlt
    omega
  · intro h
    exact Int.bmod_eq_of_le (by rw [hcast]; omega) (by rw [hcast]; omega)

theorem emod_eq_iff (n m : Nat) (hm : 0 < m) : (n : Int) % (m : Nat) = n ↔ n < m := by
  constructor
  · intro h
    have := Int.emod_lt_of_pos (n : Int) (b := (m : Int)) (by omega)
    omega
  · intro h
    exact Int.emod_eq_of_lt (by omega) (by omega)

/-! ## XML -/

/-- A value that is written as one node comes back exactly if that node is read as the value. -/
theorem roundTrips_of_node {v r : MinimalValue} {n : String} (hn : n ≠ "type")
    (h : ∀ m : Memory, ∃ ps, v.serialiseValue m [] = some [.node n ps []] ∧
      ∀ (other : Xml → Option MinimalValue) (y : Xml), Xml.Reparsed (.node n ps []) y →
        xmlToValue2 other y = some r) : v.RoundTrips ↔ r = v := by
  have hdoc (m : Memory) : ∃ doc, v.serialise m = some doc ∧ doc.isElement ∧
      ∀ other y, doc.Reparsed y → parseXMLValue other y = some r := by
    obtain ⟨ps, hps, hread⟩ := h m
    refine ⟨.node "minimal" [] [.node n ps []], ?_, rfl, fun other y hy => ?_⟩
    · unfold MinimalValue.serialise
      rw [hps]
      rfl
    · obtain ⟨ds, rfl, hds⟩ := hy.node_inv
      exact readAs_onlyValue (.of_node hn (hread other)) hds
  constructor
  · intro hr
    obtain ⟨doc, hdoc, he, hread⟩ := hdoc ⟨fun _ => 0, fun _ => ""⟩
    obtain ⟨doc', hdoc', hback⟩ := hr ⟨fun _ => 0, fun _ => ""⟩ fun _ => none
    rw [hdoc] at hdoc'
    cases hdoc'
    have hy := doc.reparsed_compact he
    exact Option.some_inj.1 ((hread (fun _ => none) _ hy).symm.trans (hback _ hy))
  · intro hv m other
    obtain ⟨doc, hdoc, _, hread⟩ := hdoc m
    exact ⟨doc, hdoc, fun y hy => by rw [hread other y hy, hv]⟩

theorem scanInt_of_repr (i : Int) : scanInt i.repr = i.bmod (2 ^ 32) := by
  unfold scanInt
  rw [atoi_repr, BitVec.toInt_ofInt]

/-- A signed integer is read as a C `int`. -/
theorem integer_roundTrips_iff (i : Int) :
    (MinimalValue.integer i).RoundTrips ↔ i.bmod (2 ^ 32) = i := by
  have hnode : (MinimalValue.integer i).RoundTrips ↔
      MinimalValue.integer (scanInt i.repr) = .integer i :=
    roundTrips_of_node (n := "integer") (by decide) fun m =>
      ⟨_, rfl, fun other y hy => by
        obtain ⟨ds, rfl, _⟩ := hy.node_inv
        rfl⟩
  rw [hnode, scanInt_of_repr, MinimalValue.integer.injEq]

/-- An unsigned integer is read as a C `int`, and taken for an `unsigned int`. -/
theorem uinteger_roundTrips_iff (n : Nat) :
    (MinimalValue.uinteger n).RoundTrips ↔ (n : Int) % 2 ^ 32 = n := by
  have hnode : (MinimalValue.uinteger n).RoundTrips ↔
      MinimalValue.uinteger (BitVec.ofInt 32 (scanInt (BitVec.ofNat 64 n).toInt.repr)).toNat =
        .uinteger n :=
    roundTrips_of_node (n := "uinteger") (by decide) fun m =>
      ⟨_, rfl, fun other y hy => by
        obtain ⟨ds, rfl, _⟩ := hy.node_inv
        rfl⟩
  have hcut : ((n : Int).bmod (2 ^ 64)).bmod (2 ^ 32) % (2 ^ 32 : Nat) =
      (n : Int) % (2 ^ 32 : Nat) := by
    rw [Int.bmod_bmod_of_dvd (by decide : (2 ^ 32 : Nat) ∣ 2 ^ 64), Int.bmod_emod]
  rw [hnode, scanInt_of_repr, MinimalValue.uinteger.injEq, BitVec.toNat_ofInt, BitVec.toInt_ofNat',
    hcut]
  omega

/-! ## Arithmetic -/

/-- The operations that are the same on numbers. -/
inductive Op where
  | add
  | sub
  | mul

namespace Op

/-- The mathematical result. -/
def exact : Op → Int → Int → Int
  | add, a, b => a + b
  | sub, a, b => a - b
  | mul, a, b => a * b

/-- `Minimal_Value_add`, `Minimal_Value_sub` and `Minimal_Value_mul`. -/
def value (p : Evaluate.Platform) : Op → Evaluate.Value → Evaluate.Value →
    Except Evaluate.Stop Evaluate.Value
  | add => Evaluate.add p
  | sub => Evaluate.arithmetic p "-" fun i j => .ok (i - j)
  | mul => Evaluate.arithmetic p "*" fun i j => .ok (i * j)

/-- If the mathematical result fits in a `long`, it is the result. -/
def Right (p : Evaluate.Platform) (op : Op) (a b : Int) : Prop :=
  -2 ^ 63 ≤ op.exact a b ∧ op.exact a b < 2 ^ 63 →
    op.value p (.integer a) (.integer b) = .ok (.integer (op.exact a b))

/-- The operands are cut to `int`s, and so is the result. -/
theorem value_integer (p : Evaluate.Platform) (op : Op) (a b : Int) :
    op.value p (.integer a) (.integer b) = .ok (.integer ((op.exact a b).bmod (2 ^ 32))) := by
  have hcut : (op.exact (a.bmod (2 ^ 32)) (b.bmod (2 ^ 32))).bmod (2 ^ 32) =
      (op.exact a b).bmod (2 ^ 32) := by
    cases op with
    | add => exact Int.bmod_add_bmod.trans Int.add_bmod_bmod
    | sub => exact Int.bmod_sub_bmod.trans Int.sub_bmod_bmod
    | mul => exact Int.bmod_mul_bmod.trans Int.mul_bmod_bmod
  rw [← hcut]
  cases op <;> rfl

theorem right_iff (p : Evaluate.Platform) (op : Op) (a b : Int) : op.Right p a b ↔
    (-2 ^ 63 ≤ op.exact a b ∧ op.exact a b < 2 ^ 63 →
      -2 ^ 31 ≤ op.exact a b ∧ op.exact a b < 2 ^ 31) := by
  unfold Right
  rw [value_integer, ← bmod_eq_iff 31]
  refine forall_congr' fun _ => ?_
  constructor
  · intro h
    injection h with h
    injection h
  · intro h
    rw [h]

end Op

/-! ## What is kept -/

theorem signed_kept_iff (c : Nat) (x : Int) :
    castSigned (c + 1) (.integer x) = some x ∧ (MinimalValue.integer x).RoundTrips ↔
      (-2 ^ c ≤ x ∧ x < 2 ^ c) ∧ -2 ^ 31 ≤ x ∧ x < 2 ^ 31 := by
  rw [castSigned_integer, integer_roundTrips_iff, bmod_eq_iff, bmod_eq_iff 31]

theorem unsigned_kept_iff (w n : Nat) :
    castUnsigned w (.uinteger n) = some (n : Int) ∧ (MinimalValue.uinteger n).RoundTrips ↔
      n < 2 ^ w ∧ n < 2 ^ 32 := by
  have hw := emod_eq_iff n (2 ^ w) (Nat.two_pow_pos w)
  rw [Int.natCast_pow] at hw
  rw [castUnsigned_uinteger, uinteger_roundTrips_iff]
  exact and_congr hw (emod_eq_iff n (2 ^ 32) (by decide))

theorem kept_iff (k : Kind) (i : BitVec k.bits) : k.Kept i ↔ k.Fits i := by
  cases k with
  | byte =>
    have hlt : (i : BitVec 8).toInt < 2 ^ 7 := BitVec.toInt_lt
    have hle : -2 ^ 7 ≤ (i : BitVec 8).toInt := BitVec.le_toInt _
    refine (signed_kept_iff 7 (i : BitVec 8).toInt).trans (iff_of_true ?_ trivial)
    omega
  | short =>
    have hlt : (i : BitVec 16).toInt < 2 ^ 15 := BitVec.toInt_lt
    have hle : -2 ^ 15 ≤ (i : BitVec 16).toInt := BitVec.le_toInt _
    refine (signed_kept_iff 15 (i : BitVec 16).toInt).trans (iff_of_true ?_ trivial)
    omega
  | int =>
    have hlt : (i : BitVec 32).toInt < 2 ^ 31 := BitVec.toInt_lt
    have hle : -2 ^ 31 ≤ (i : BitVec 32).toInt := BitVec.le_toInt _
    refine (signed_kept_iff 31 (i : BitVec 32).toInt).trans (iff_of_true ?_ trivial)
    omega
  | long => exact (signed_kept_iff 31 (i : BitVec 64).toInt).trans and_self_iff
  | ubyte =>
    have hlt : (i : BitVec 8).toNat < 2 ^ 8 := BitVec.isLt _
    refine (unsigned_kept_iff 8 (i : BitVec 8).toNat).trans (iff_of_true ?_ trivial)
    omega
  | ushort =>
    have hlt : (i : BitVec 16).toNat < 2 ^ 16 := BitVec.isLt _
    refine (unsigned_kept_iff 16 (i : BitVec 16).toNat).trans (iff_of_true ?_ trivial)
    omega
  | uint =>
    have hlt : (i : BitVec 32).toNat < 2 ^ 32 := BitVec.isLt _
    refine (unsigned_kept_iff 32 (i : BitVec 32).toNat).trans (iff_of_true ?_ trivial)
    omega
  | ulong => exact (unsigned_kept_iff 32 (i : BitVec 64).toNat).trans and_self_iff

/-- An integer keeps its value exactly if it fits in 32 bits, and the result of an operation
exactly if it does. -/
theorem integers_kept_iff (p : Evaluate.Platform) :
    (∀ (k : Kind) (i : BitVec k.bits), k.Kept i ↔ k.Fits i) ∧
      ∀ (op : Op) (a b : Int), op.Right p a b ↔
        (-2 ^ 63 ≤ op.exact a b ∧ op.exact a b < 2 ^ 63 →
          -2 ^ 31 ≤ op.exact a b ∧ op.exact a b < 2 ^ 31) :=
  ⟨kept_iff, Op.right_iff p⟩

/-- The accessor of a `long` loses what is beyond an `int`. -/
theorem long_lost : Kind.long.get (Kind.long.make (4294967296 : BitVec 64)) = some 0 ∧
    Kind.long.number (4294967296 : BitVec 64) = 4294967296 :=
  ⟨rfl, rfl⟩

end PyLinda.Integers
