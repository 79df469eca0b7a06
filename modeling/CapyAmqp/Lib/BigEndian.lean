import Mathlib.Algebra.Order.Ring.Int
import Mathlib.Data.Int.ModEq
import Mathlib.Data.Nat.Digits.Defs
import Mathlib.Tactic.Positivity
import Mathlib.Tactic.Ring

/-!
# BigEndian — numbers of a fixed width in network order

`bigEndian w n` are the `w` low bytes of `n`, the most significant first, and `ofBigEndian` reads
bytes back, as the digits that they are (`ofDigits_reverse`).  Signed numbers travel as their two's
complement, `twosComplement`, and come back through `signed`: of the numbers of that width it is the
one that is congruent (`eq_signed_iff`).
-/

namespace Lib

/-! ## Natural numbers -/

/-- The `w` low bytes of `n`, the most significant first. -/
def bigEndian : Nat → Nat → List UInt8
  | 0, _ => []
  | w + 1, n => UInt8.ofNat (n / 256 ^ w) :: bigEndian w n

/-- The number that bytes stand for, the most significant first. -/
def ofBigEndian : List UInt8 → Nat
  | [] => 0
  | b :: bs => b.toNat * 256 ^ bs.length + ofBigEndian bs

@[simp] theorem length_bigEndian (w n : Nat) : (bigEndian w n).length = w := by
  induction w with
  | zero => rfl
  | succ w ih => simp [bigEndian, ih]

/-- Bytes are digits to the base 256. -/
theorem ofDigits_reverse (bs : List UInt8) :
    Nat.ofDigits 256 (bs.reverse.map UInt8.toNat) = ofBigEndian bs := by
  induction bs with
  | nil => rfl
  | cons b bs ih =>
      rw [List.reverse_cons, List.map_append, Nat.ofDigits_append, ih, List.map_singleton,
        Nat.ofDigits_singleton, List.length_map, List.length_reverse, ofBigEndian, Nat.add_comm,
        Nat.mul_comm]

theorem ofBigEndian_lt (bs : List UInt8) : ofBigEndian bs < 256 ^ bs.length := by
  induction bs with
  | nil => simp [ofBigEndian]
  | cons b bs ih =>
      have hb : b.toNat + 1 ≤ 256 := b.toNat_lt
      calc b.toNat * 256 ^ bs.length + ofBigEndian bs
          < b.toNat * 256 ^ bs.length + 256 ^ bs.length := by omega
        _ = (b.toNat + 1) * 256 ^ bs.length := by ring
        _ ≤ 256 * 256 ^ bs.length := Nat.mul_le_mul_right _ hb
        _ = 256 ^ (b :: bs).length := by rw [List.length_cons, pow_succ, Nat.mul_comm]

theorem ofBigEndian_bigEndian (w n : Nat) : ofBigEndian (bigEndian w n) = n % 256 ^ w := by
  induction w with
  | zero => simp [bigEndian, ofBigEndian, Nat.mod_one]
  | succ w ih =>
      have hbyte : (UInt8.ofNat (n / 256 ^ w)).toNat = n / 256 ^ w % 256 := by simp
      simp only [bigEndian, ofBigEndian, length_bigEndian, ih, hbyte]
      rw [pow_succ, Nat.mod_mul, Nat.mul_comm, Nat.add_comm]

theorem ofBigEndian_bigEndian_of_lt {w n : Nat} (h : n < 256 ^ w) :
    ofBigEndian (bigEndian w n) = n := by
  rw [ofBigEndian_bigEndian, Nat.mod_eq_of_lt h]

/-! ## Signed numbers -/

/-- The two's complement of `n` in `w` bytes. -/
def twosComplement (w : Nat) (n : Int) : Nat := (n % (256 ^ w : Nat)).toNat

/-- The signed number that a two's complement of `w` bytes stands for. -/
def signed (w n : Nat) : Int := Int.bmod n (256 ^ w)

theorem twosComplement_lt (w : Nat) (n : Int) : twosComplement w n < 256 ^ w := by
  have hpos : (0 : Int) < (256 ^ w : Nat) := by positivity
  have hlt := Int.emod_lt_of_pos n hpos
  have hnonneg := Int.emod_nonneg n hpos.ne'
  unfold twosComplement
  omega

theorem signed_twosComplement {w : Nat} {n : Int} (hlow : -(256 ^ w : Nat) ≤ 2 * n)
    (hhigh : 2 * n < (256 ^ w : Nat)) : signed w (twosComplement w n) = n := by
  have hpos : (0 : Int) < (256 ^ w : Nat) := by positivity
  have hcast : ((twosComplement w n : Nat) : Int) = n % (256 ^ w : Nat) :=
    Int.toNat_of_nonneg (Int.emod_nonneg n hpos.ne')
  rw [signed, hcast, Int.emod_bmod]
  exact Int.bmod_eq_of_le_mul_two (by omega) (by omega)

theorem le_signed (w n : Nat) : -(256 ^ w : Nat) ≤ 2 * signed w n := by
  have h := Int.le_bmod (x := n) (m := 256 ^ w) (by positivity)
  unfold signed
  omega

theorem signed_lt (w n : Nat) : 2 * signed w n < (256 ^ w : Nat) := by
  have h := Int.bmod_lt (x := n) (m := 256 ^ w) (by positivity)
  unfold signed
  omega

/-- There is one number of `w` bytes only that is congruent to `n`. -/
theorem eq_signed_iff {w n : Nat} {k : Int} :
    k = signed w n ↔
      -(256 ^ w : Nat) ≤ 2 * k ∧ 2 * k < (256 ^ w : Nat) ∧ k ≡ n [ZMOD (256 ^ w : Nat)] := by
  constructor
  · rintro rfl
    exact ⟨le_signed w n, signed_lt w n, Int.bmod_emod⟩
  · rintro ⟨hlow, hhigh, hmod⟩
    calc k = Int.bmod k (256 ^ w) := (Int.bmod_eq_of_le_mul_two (by omega) (by omega)).symm
      _ = Int.bmod (k % (256 ^ w : Nat)) (256 ^ w) := (Int.emod_bmod k _).symm
      _ = Int.bmod (n % (256 ^ w : Nat)) (256 ^ w) := by rw [hmod]
      _ = signed w n := Int.emod_bmod n _

end Lib
