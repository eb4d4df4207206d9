/-
  ParticleMesh — byte strings, and byte strings of a fixed length.

  * `Bytes` is a byte string;
  * `Bytes.little` and `Bytes.big` are the digits of a number to the base 256
    in the two orders, `Bytes.ofLittle` and `Bytes.ofBig` read them back;
  * `Octets n` is a byte string of exactly `n` bytes: keys, digests and
    signatures;
  * `ofLittle_little`, `ofBig_big`: a number that fits in `w` bytes is read
    back from its `w` digits.
-/
namespace ParticleMesh

abbrev Bytes := List UInt8

namespace Bytes

/-- The lowest `w` digits of `n` to the base 256, lowest first. -/
def little : Nat → Nat → Bytes
  | 0, _ => []
  | w + 1, n => UInt8.ofNat (n % 256) :: little w (n / 256)

/-- The number with the given digits to the base 256, lowest first. -/
def ofLittle : Bytes → Nat
  | [] => 0
  | b :: bs => b.toNat + 256 * ofLittle bs

/-- The lowest `w` digits of `n` to the base 256, highest first. -/
def big (w n : Nat) : Bytes := (little w n).reverse

/-- The number with the given digits to the base 256, highest first. -/
def ofBig (bs : Bytes) : Nat := bs.foldl (fun n b => 256 * n + b.toNat) 0

@[simp] theorem length_little (w n : Nat) : (little w n).length = w := by
  induction w generalizing n with
  | zero => rfl
  | succ w ih => simp [little, ih]

@[simp] theorem length_big (w n : Nat) : (big w n).length = w := by simp [big]

/-- The number of byte strings of `w` bytes. -/
def count : Nat → Nat
  | 0 => 1
  | w + 1 => 256 * count w

theorem ofLittle_little (w n : Nat) (h : n < count w) : ofLittle (little w n) = n := by
  induction w generalizing n with
  | zero => simp only [count] at h; simp only [little, ofLittle]; omega
  | succ w ih =>
    have hn : n / 256 < count w := by
      rw [count] at h; omega
    simp only [little, ofLittle, ih _ hn, UInt8.toNat_ofNat']
    omega

theorem foldl_big (bs : Bytes) (n : Nat) :
    bs.reverse.foldl (fun n b => 256 * n + b.toNat) n = ofLittle bs + count bs.length * n := by
  induction bs with
  | nil => simp [ofLittle, count]
  | cons b bs ih =>
    simp only [List.reverse_cons, List.foldl_append, ih, List.foldl_cons, List.foldl_nil, ofLittle,
      List.length_cons, count, Nat.mul_add, Nat.mul_assoc]
    omega

theorem ofBig_reverse (bs : Bytes) : ofBig bs.reverse = ofLittle bs := by
  rw [ofBig, foldl_big, Nat.mul_zero, Nat.add_zero]

theorem ofBig_big (w n : Nat) (h : n < count w) : ofBig (big w n) = n := by
  rw [big, ofBig_reverse, ofLittle_little w n h]

end Bytes

/-- A byte string of exactly `n` bytes. -/
structure Octets (n : Nat) where
  toList : Bytes
  length_eq : toList.length = n
deriving DecidableEq

namespace Octets

variable {n : Nat}

/-- The bytes as `n` octets, if there are `n` of them. -/
def ofList? (n : Nat) (bs : Bytes) : Option (Octets n) :=
  if h : bs.length = n then some ⟨bs, h⟩ else none

/-- The same byte `n` times. -/
def replicate (n : Nat) (b : UInt8) : Octets n := ⟨List.replicate n b, by simp⟩

/-- The lowest `n` digits of a number to the base 256, lowest first. -/
def little (n v : Nat) : Octets n := ⟨Bytes.little n v, by simp⟩

/-- Two octet strings one after the other. -/
def append {m : Nat} (a : Octets m) (b : Octets n) : Octets (m + n) :=
  ⟨a.toList ++ b.toList, by simp [a.length_eq, b.length_eq]⟩

instance : Inhabited (Octets n) := ⟨replicate n 0⟩

@[ext] theorem ext {a b : Octets n} (h : a.toList = b.toList) : a = b := by
  cases a; cases b; cases h; rfl

@[simp] theorem ofList?_toList (a : Octets n) : ofList? n a.toList = some a := by
  simp [ofList?, a.length_eq]

theorem ofList?_eq_some_iff {bs : Bytes} {a : Octets n} :
    ofList? n bs = some a ↔ a.toList = bs := by
  constructor
  · intro h
    simp only [ofList?] at h
    split at h
    · cases h; rfl
    · cases h
  · rintro rfl; simp

end Octets

end ParticleMesh
