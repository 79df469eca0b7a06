import Mathlib.Algebra.Order.Field.Rat
import Mathlib.Tactic.NormNum
import Mathlib.Tactic.Ring

/-!
# Ieee — binary interchange formats

A number of a binary format is its sign, its biased exponent and its fraction, packed into one
natural number.  `datum` is what it stands for: a magnitude or an infinity with a sign, or no number.
But for the latter it determines the bits (`eq_of_datum_eq`).  `widen` takes the single format into
the double format; it keeps the datum (`datum_widen`), and a signalling NaN becomes a quiet one.
-/

namespace Lib

/-- The widths of exponent and fraction. -/
structure Ieee where
  exponentBits : Nat
  fractionBits : Nat

namespace Ieee

def single : Ieee := ⟨8, 23⟩

def double : Ieee := ⟨11, 52⟩

/-- A number from its parts. -/
def pack (F : Ieee) (sign exponent fraction : Nat) : Nat :=
  (sign * 2 ^ F.exponentBits + exponent) * 2 ^ F.fractionBits + fraction

def fraction (F : Ieee) (b : Nat) : Nat := b % 2 ^ F.fractionBits

def exponent (F : Ieee) (b : Nat) : Nat := b / 2 ^ F.fractionBits % 2 ^ F.exponentBits

def sign (F : Ieee) (b : Nat) : Nat := b / 2 ^ F.fractionBits / 2 ^ F.exponentBits

/-- The exponent of the infinities and of NaN. -/
def top (F : Ieee) : Nat := 2 ^ F.exponentBits - 1

/-- The power of two that the last place of a fraction stands for when the exponent is zero. -/
def unit (F : Ieee) : Int := 2 - 2 ^ (F.exponentBits - 1) - F.fractionBits

/-- What a number stands for.  There are zeros of both signs. -/
inductive Datum
  | number (negative : Bool) (magnitude : Rat)
  | infinity (negative : Bool)
  | nan (negative : Bool)
  deriving DecidableEq

def negative (F : Ieee) (b : Nat) : Bool := decide (F.sign b ≠ 0)

/-- The magnitude of a number, in units of the last place of the subnormal ones: but for these
there is a one in front of the fraction. -/
def significand (F : Ieee) (b : Nat) : Nat :=
  if F.exponent b = 0 then F.fraction b
  else (2 ^ F.fractionBits + F.fraction b) * 2 ^ (F.exponent b - 1)

def magnitude (F : Ieee) (b : Nat) : Rat := F.significand b * (2 : Rat) ^ F.unit

def IsNan (F : Ieee) (b : Nat) : Prop := F.exponent b = F.top ∧ F.fraction b ≠ 0

def datum (F : Ieee) (b : Nat) : Datum :=
  if F.exponent b = F.top then
    if F.fraction b = 0 then .infinity (F.negative b) else .nan (F.negative b)
  else .number (F.negative b) (F.magnitude b)

/-- The double `d` is the single `b`: they stand for the same, and what is no number has become
quiet and keeps its other bits. -/
def Widens (b d : Nat) : Prop :=
  double.datum d = single.datum b ∧
    (single.IsNan b → double.fraction d = (2 ^ 22 ||| single.fraction b) * 2 ^ 29)

/-- The conversion of the single format to the double format. -/
def widen (b : Nat) : Nat :=
  let e := single.exponent b
  let f := single.fraction b
  if e = single.top then
    -- an infinity, or a NaN, which becomes quiet
    double.pack (single.sign b) double.top
      (if f = 0 then 0 else (if f < 2 ^ 22 then f + 2 ^ 22 else f) * 2 ^ 29)
  else if e = 0 then
    if f = 0 then double.pack (single.sign b) 0 0
    -- what is subnormal as a single is normal as a double
    else double.pack (single.sign b) (f.log2 + 874) ((f - 2 ^ f.log2) * 2 ^ (52 - f.log2))
  else double.pack (single.sign b) (e + 896) (f * 2 ^ 29)

/-! ## Parts -/

variable {F : Ieee} {s e f b : Nat}

theorem fraction_pack (hf : f < 2 ^ F.fractionBits) : F.fraction (F.pack s e f) = f := by
  rw [fraction, pack, Nat.mul_add_mod_of_lt hf]

theorem pack_div (hf : f < 2 ^ F.fractionBits) :
    F.pack s e f / 2 ^ F.fractionBits = s * 2 ^ F.exponentBits + e := by
  rw [pack, Nat.mul_comm, Nat.mul_add_div (by positivity), Nat.div_eq_of_lt hf, Nat.add_zero]

theorem exponent_pack (he : e < 2 ^ F.exponentBits) (hf : f < 2 ^ F.fractionBits) :
    F.exponent (F.pack s e f) = e := by
  rw [exponent, pack_div hf, Nat.mul_add_mod_of_lt he]

theorem sign_pack (he : e < 2 ^ F.exponentBits) (hf : f < 2 ^ F.fractionBits) :
    F.sign (F.pack s e f) = s := by
  rw [sign, pack_div hf, Nat.mul_comm, Nat.mul_add_div (by positivity), Nat.div_eq_of_lt he,
    Nat.add_zero]

theorem negative_pack (he : e < 2 ^ F.exponentBits) (hf : f < 2 ^ F.fractionBits) :
    F.negative (F.pack s e f) = decide (s ≠ 0) := by
  rw [negative, sign_pack he hf]

/-- A number is its parts. -/
theorem pack_parts (F : Ieee) (b : Nat) : F.pack (F.sign b) (F.exponent b) (F.fraction b) = b := by
  simp only [pack, sign, exponent, fraction, Nat.div_add_mod']

theorem fraction_lt (F : Ieee) (b : Nat) : F.fraction b < 2 ^ F.fractionBits :=
  Nat.mod_lt _ (by positivity)

/-- In as many bits as the format has the sign is one bit. -/
theorem sign_lt (hb : b < 2 * 2 ^ F.exponentBits * 2 ^ F.fractionBits) : F.sign b < 2 := by
  rw [sign, Nat.div_div_eq_div_mul]
  refine Nat.div_lt_of_lt_mul ?_
  calc b < 2 * 2 ^ F.exponentBits * 2 ^ F.fractionBits := hb
    _ = 2 ^ F.fractionBits * 2 ^ F.exponentBits * 2 := by ring

theorem datum_of_infinite (htop : F.exponent b = F.top) (hfraction : F.fraction b = 0) :
    F.datum b = .infinity (F.negative b) := by
  rw [datum, if_pos htop, if_pos hfraction]

theorem datum_of_isNan (h : F.IsNan b) : F.datum b = .nan (F.negative b) := by
  rw [datum, if_pos h.1, if_neg h.2]

theorem datum_of_finite (h : F.exponent b ≠ F.top) :
    F.datum b = .number (F.negative b) (F.magnitude b) :=
  if_neg h

/-! ## The datum determines the bits -/

section Injective

variable {b' : Nat}

theorem significand_of_subnormal (h : F.exponent b = 0) : F.significand b = F.fraction b :=
  if_pos h

theorem significand_of_normal (h : F.exponent b ≠ 0) :
    F.significand b = (2 ^ F.fractionBits + F.fraction b) * 2 ^ (F.exponent b - 1) :=
  if_neg h

/-- The significands of one exponent are below those of the next one. -/
theorem significand_lt (F : Ieee) (b : Nat) :
    F.significand b < 2 ^ F.fractionBits * 2 ^ F.exponent b := by
  have hf := F.fraction_lt b
  by_cases hzero : F.exponent b = 0
  · rw [significand_of_subnormal hzero, hzero, pow_zero, Nat.mul_one]
    exact hf
  · rw [significand_of_normal hzero]
    calc (2 ^ F.fractionBits + F.fraction b) * 2 ^ (F.exponent b - 1)
        < (2 ^ F.fractionBits * 2) * 2 ^ (F.exponent b - 1) :=
          Nat.mul_lt_mul_of_pos_right (by omega) (by positivity)
      _ = 2 ^ F.fractionBits * 2 ^ F.exponent b := by
          rw [Nat.mul_assoc, ← pow_succ', Nat.sub_one_add_one hzero]

theorem le_significand (h : F.exponent b ≠ 0) :
    2 ^ F.fractionBits * 2 ^ (F.exponent b - 1) ≤ F.significand b := by
  rw [significand_of_normal h]
  exact Nat.mul_le_mul_right _ (Nat.le_add_right _ _)

theorem exponent_le_of_significand_eq (h : F.significand b = F.significand b') :
    F.exponent b ≤ F.exponent b' := by
  by_contra hlt
  have hle : F.exponent b' ≤ F.exponent b - 1 := by omega
  have hpow : 2 ^ F.fractionBits * 2 ^ F.exponent b' ≤ 2 ^ F.fractionBits * 2 ^ (F.exponent b - 1) :=
    Nat.mul_le_mul_left _ (Nat.pow_le_pow_right (by decide) hle)
  have hlow := le_significand (F := F) (b := b) (by omega)
  have hhigh := F.significand_lt b'
  omega

theorem parts_of_significand_eq (h : F.significand b = F.significand b') :
    F.exponent b = F.exponent b' ∧ F.fraction b = F.fraction b' := by
  have hexponent : F.exponent b = F.exponent b' :=
    Nat.le_antisymm (exponent_le_of_significand_eq h) (exponent_le_of_significand_eq h.symm)
  refine ⟨hexponent, ?_⟩
  by_cases hzero : F.exponent b = 0
  · rwa [significand_of_subnormal hzero, significand_of_subnormal (hexponent ▸ hzero)] at h
  · rw [significand_of_normal hzero, significand_of_normal (hexponent ▸ hzero), hexponent] at h
    have hsum := Nat.eq_of_mul_eq_mul_right (by positivity) h
    omega

theorem significand_eq_of_magnitude_eq (h : F.magnitude b = F.magnitude b') :
    F.significand b = F.significand b' := by
  have hunit : (2 : Rat) ^ F.unit ≠ 0 := zpow_ne_zero _ (by norm_num)
  exact_mod_cast mul_right_cancel₀ hunit h

/-- The class of a number, its sign and, for a number proper, its magnitude are in the datum. -/
theorem parts_of_datum_eq (h : F.datum b = F.datum b') :
    F.negative b = F.negative b' ∧ F.exponent b = F.exponent b' ∧
      (F.IsNan b ∨ F.fraction b = F.fraction b') := by
  unfold datum at h
  split_ifs at h with htop hfraction htop' hfraction' htop' hfraction' htop'
  · exact ⟨Datum.infinity.inj h, htop.trans htop'.symm, Or.inr (hfraction.trans hfraction'.symm)⟩
  · exact ⟨Datum.nan.inj h, htop.trans htop'.symm, Or.inl ⟨htop, hfraction⟩⟩
  · have hparts := parts_of_significand_eq (significand_eq_of_magnitude_eq (Datum.number.inj h).2)
    exact ⟨(Datum.number.inj h).1, hparts.1, Or.inr hparts.2⟩

/-- Numbers of one format that stand for the same are the same, as far as they are numbers. -/
theorem eq_of_datum_eq (hb : b < 2 * 2 ^ F.exponentBits * 2 ^ F.fractionBits)
    (hb' : b' < 2 * 2 ^ F.exponentBits * 2 ^ F.fractionBits) (h : F.datum b = F.datum b')
    (hfraction : F.IsNan b → F.fraction b = F.fraction b') : b = b' := by
  rcases parts_of_datum_eq h with ⟨hnegative, hexponent, hother⟩
  have hsign : F.sign b = F.sign b' := by
    have hlt := sign_lt hb
    have hlt' := sign_lt hb'
    simp only [negative, decide_eq_decide] at hnegative
    omega
  rw [← F.pack_parts b, ← F.pack_parts b', hsign, hexponent, hother.elim hfraction id]

end Injective

/-! ## Packed numbers -/

theorem datum_pack_infinity (htop : F.top < 2 ^ F.exponentBits) :
    F.datum (F.pack s F.top 0) = .infinity (decide (s ≠ 0)) := by
  have hzero : 0 < 2 ^ F.fractionBits := by positivity
  rw [datum_of_infinite (exponent_pack htop hzero) (fraction_pack hzero), negative_pack htop hzero]

theorem datum_pack_nan (htop : F.top < 2 ^ F.exponentBits) (hf : f < 2 ^ F.fractionBits)
    (hne : f ≠ 0) : F.datum (F.pack s F.top f) = .nan (decide (s ≠ 0)) := by
  have hnan : F.IsNan (F.pack s F.top f) :=
    ⟨exponent_pack htop hf, by rwa [fraction_pack hf]⟩
  rw [datum_of_isNan hnan, negative_pack htop hf]

theorem datum_pack_number (hne : e ≠ F.top) (he : e < 2 ^ F.exponentBits)
    (hf : f < 2 ^ F.fractionBits) :
    F.datum (F.pack s e f) = .number (decide (s ≠ 0)) (F.magnitude (F.pack s e f)) := by
  have hexponent : F.exponent (F.pack s e f) ≠ F.top := by
    rwa [exponent_pack he hf]
  rw [datum_of_finite hexponent, negative_pack he hf]

theorem significand_pack_normal (hne : e ≠ 0) (he : e < 2 ^ F.exponentBits)
    (hf : f < 2 ^ F.fractionBits) :
    F.significand (F.pack s e f) = (2 ^ F.fractionBits + f) * 2 ^ (e - 1) := by
  have hexponent := exponent_pack (s := s) he hf
  rw [significand_of_normal (by rwa [hexponent]), hexponent, fraction_pack hf]

/-! ## The wider format keeps the datum -/

theorem exponent_single_lt (b : Nat) : single.exponent b < 256 :=
  Nat.mod_lt _ (by decide)

theorem fraction_single_lt (b : Nat) : single.fraction b < 2 ^ 23 :=
  Nat.mod_lt _ (by decide)

/-- What is left of the fraction of a subnormal single below its leading one. -/
theorem fraction_widen_lt {f : Nat} (hf : f ≠ 0) (hlt : f < 2 ^ 23) :
    (f - 2 ^ f.log2) * 2 ^ (52 - f.log2) < 2 ^ 52 := by
  have hlog : f.log2 < 23 := (Nat.log2_lt hf).2 hlt
  have hhalf : f - 2 ^ f.log2 < 2 ^ f.log2 := by
    have := Nat.lt_log2_self (n := f)
    rw [pow_succ] at this
    omega
  calc (f - 2 ^ f.log2) * 2 ^ (52 - f.log2)
      < 2 ^ f.log2 * 2 ^ (52 - f.log2) := Nat.mul_lt_mul_of_pos_right hhalf (by positivity)
    _ = 2 ^ 52 := by rw [← pow_add, Nat.add_sub_of_le (by omega)]

/-- A unit of the single format is as much as 2⁹²⁵ units of the double format. -/
theorem magnitude_of_significand {d : Nat} (h : double.significand d = single.significand b * 2 ^ 925) :
    double.magnitude d = single.magnitude b := by
  have hunit : single.unit = ((925 : Nat) : Int) + double.unit := rfl
  calc double.magnitude d
      = (single.significand b * 2 ^ 925 : Nat) * (2 : Rat) ^ double.unit := by rw [magnitude, h]
    _ = single.significand b * ((2 : Rat) ^ (925 : Nat) * 2 ^ double.unit) := by
        rw [Nat.cast_mul, Nat.cast_pow, Nat.cast_ofNat, mul_assoc]
    _ = single.significand b * (2 : Rat) ^ single.unit := by
        rw [hunit, zpow_add₀ (by norm_num), zpow_natCast]

/-- A subnormal single is scaled until its leading one is the hidden one of a double. -/
theorem significand_widen_subnormal (s : Nat) {f : Nat} (hf : f ≠ 0) (hlt : f < 2 ^ 23) :
    double.significand (double.pack s (f.log2 + 874) ((f - 2 ^ f.log2) * 2 ^ (52 - f.log2))) =
      f * 2 ^ 925 := by
  have hlog : f.log2 < 23 := (Nat.log2_lt hf).2 hlt
  have hle : 2 ^ f.log2 ≤ f := Nat.log2_self_le hf
  have hexponent : f.log2 + 874 < 2 ^ double.exponentBits := by
    have hbits : 2 ^ double.exponentBits = 2048 := rfl
    omega
  rw [significand_pack_normal (by omega) hexponent (fraction_widen_lt hf hlt)]
  -- the fraction is what is left below the hidden one
  have hsum : 2 ^ 52 + (f - 2 ^ f.log2) * 2 ^ (52 - f.log2) = f * 2 ^ (52 - f.log2) := by
    calc 2 ^ 52 + (f - 2 ^ f.log2) * 2 ^ (52 - f.log2)
        = 2 ^ f.log2 * 2 ^ (52 - f.log2) + (f - 2 ^ f.log2) * 2 ^ (52 - f.log2) := by
          rw [← pow_add, Nat.add_sub_of_le (by omega)]
      _ = (2 ^ f.log2 + (f - 2 ^ f.log2)) * 2 ^ (52 - f.log2) := by ring
      _ = f * 2 ^ (52 - f.log2) := by rw [Nat.add_sub_of_le hle]
  calc (2 ^ double.fractionBits + (f - 2 ^ f.log2) * 2 ^ (52 - f.log2)) * 2 ^ (f.log2 + 874 - 1)
      = f * 2 ^ (52 - f.log2) * 2 ^ (f.log2 + 873) := congrArg (· * 2 ^ (f.log2 + 873)) hsum
    _ = f * 2 ^ (52 - f.log2 + (f.log2 + 873)) := by rw [Nat.mul_assoc, ← pow_add]
    _ = f * 2 ^ 925 := by rw [show 52 - f.log2 + (f.log2 + 873) = 925 by omega]

theorem significand_widen_normal (s : Nat) {e f : Nat} (hpos : 0 < e) (hlt : e < 255)
    (hf : f < 2 ^ 23) :
    double.significand (double.pack s (e + 896) (f * 2 ^ 29)) =
      (2 ^ 23 + f) * 2 ^ (e - 1) * 2 ^ 925 := by
  have hexponent : e + 896 < 2 ^ double.exponentBits := by
    have hbits : 2 ^ double.exponentBits = 2048 := rfl
    omega
  have hfraction : f * 2 ^ 29 < 2 ^ double.fractionBits := by
    have hbits : 2 ^ double.fractionBits = 2 ^ 23 * 2 ^ 29 := rfl
    omega
  rw [significand_pack_normal (by omega) hexponent hfraction]
  calc (2 ^ double.fractionBits + f * 2 ^ 29) * 2 ^ (e + 896 - 1)
      = (2 ^ 23 + f) * 2 ^ 29 * 2 ^ (e - 1 + 896) := by
        have hbits : 2 ^ double.fractionBits = 2 ^ 23 * 2 ^ 29 := rfl
        rw [hbits, ← Nat.add_mul, show e + 896 - 1 = e - 1 + 896 by omega]
    _ = (2 ^ 23 + f) * 2 ^ (e - 1) * (2 ^ 29 * 2 ^ 896) := by
        rw [pow_add 2 (e - 1) 896, Nat.mul_mul_mul_comm]
    _ = (2 ^ 23 + f) * 2 ^ (e - 1) * 2 ^ 925 := by rw [← pow_add]

/-- The quiet bit is set, and the other bits of the fraction stay. -/
theorem quiet_eq {f : Nat} (hf : f < 2 ^ 23) :
    (if f < 2 ^ 22 then f + 2 ^ 22 else f) = 2 ^ 22 ||| f := by
  have hadd : ∀ g < 2 ^ 22, 2 ^ 22 + g = 2 ^ 22 ||| g := fun g hg => by
    simpa using Nat.two_pow_add_eq_or_of_lt hg 1
  split
  · rename_i hlt
    rw [Nat.add_comm, hadd f hlt]
  · rename_i hge
    -- the bit is set already
    have hf' : f = 2 ^ 22 ||| (f - 2 ^ 22) := by
      rw [← hadd (f - 2 ^ 22) (by omega)]
      omega
    rw [hf', ← Nat.or_assoc, Nat.or_self]

theorem fraction_quiet_lt {f : Nat} (hf : f < 2 ^ 23) : (2 ^ 22 ||| f) * 2 ^ 29 < 2 ^ 52 := by
  rw [← quiet_eq hf]
  split <;> omega

/-- The sign stays, and so does the class: infinite, no number, or a number of the same magnitude. -/
theorem datum_widen (b : Nat) : double.datum (widen b) = single.datum b := by
  have hf := fraction_single_lt b
  have he := exponent_single_lt b
  by_cases htop : single.exponent b = single.top
  · by_cases hfraction : single.fraction b = 0
    · rw [datum_of_infinite htop hfraction, widen, if_pos htop, if_pos hfraction]
      exact datum_pack_infinity (by decide)
    · rw [datum_of_isNan ⟨htop, hfraction⟩, widen, if_pos htop, if_neg hfraction, quiet_eq hf]
      refine datum_pack_nan (by decide) (fraction_quiet_lt hf) ?_
      have hquiet : 2 ^ 22 ≤ 2 ^ 22 ||| single.fraction b := Nat.left_le_or
      omega
  have hbits : 2 ^ double.exponentBits = 2048 := rfl
  have hdouble : double.top = 2047 := rfl
  rw [datum_of_finite htop]
  by_cases hzero : single.exponent b = 0
  · by_cases hfraction : single.fraction b = 0
    · rw [widen, if_neg htop, if_pos hzero, if_pos hfraction,
        datum_pack_number (by decide) (by decide) (by decide)]
      refine congrArg (Datum.number _) (magnitude_of_significand ?_)
      rw [significand_of_subnormal (exponent_pack (by decide) (by decide)),
        fraction_pack (by decide), significand_of_subnormal hzero, hfraction, Nat.zero_mul]
    · have hlog : (single.fraction b).log2 < 23 := (Nat.log2_lt hfraction).2 hf
      rw [widen, if_neg htop, if_pos hzero, if_neg hfraction,
        datum_pack_number (by omega) (by omega) (fraction_widen_lt hfraction hf)]
      refine congrArg (Datum.number _) (magnitude_of_significand ?_)
      rw [significand_of_subnormal hzero]
      exact significand_widen_subnormal (single.sign b) hfraction hf
  · have hsingle : single.top = 255 := rfl
    have hfraction : single.fraction b * 2 ^ 29 < 2 ^ double.fractionBits := by
      have hfractionBits : 2 ^ double.fractionBits = 2 ^ 23 * 2 ^ 29 := rfl
      omega
    rw [widen, if_neg htop, if_neg hzero, datum_pack_number (by omega) (by omega) hfraction]
    refine congrArg (Datum.number _) (magnitude_of_significand ?_)
    rw [significand_of_normal hzero]
    exact significand_widen_normal (single.sign b) (Nat.pos_of_ne_zero hzero) (by omega) hf

theorem widens_widen (b : Nat) : Widens b (widen b) := by
  refine ⟨datum_widen b, ?_⟩
  rintro ⟨htop, hfraction⟩
  have hf := fraction_single_lt b
  rw [widen, if_pos htop, if_neg hfraction, quiet_eq hf]
  exact fraction_pack (fraction_quiet_lt hf)

/-- A double has 64 bits. -/
theorem pack_double_lt {s e f : Nat} (hs : s < 2) (he : e < 2048) (hf : f < 2 ^ 52) :
    double.pack s e f < 2 ^ 64 := by
  have hpack : double.pack s e f = (s * 2048 + e) * 2 ^ 52 + f := rfl
  rw [hpack]
  omega

theorem widen_lt {b : Nat} (hb : b < 2 ^ 32) : widen b < 2 ^ 64 := by
  have hf := fraction_single_lt b
  have he := exponent_single_lt b
  have hs : single.sign b < 2 := by
    have hsign : single.sign b = b / 2 ^ 23 / 2 ^ 8 := rfl
    omega
  by_cases htop : single.exponent b = single.top
  · rw [widen, if_pos htop]
    refine pack_double_lt hs (by decide) ?_
    split
    · positivity
    · split <;> omega
  by_cases hzero : single.exponent b = 0
  · rw [widen, if_neg htop, if_pos hzero]
    split
    · exact pack_double_lt hs (by decide) (by positivity)
    · rename_i hfraction
      have hlog : (single.fraction b).log2 < 23 := (Nat.log2_lt hfraction).2 hf
      exact pack_double_lt hs (by omega) (fraction_widen_lt hfraction hf)
  · rw [widen, if_neg htop, if_neg hzero]
    exact pack_double_lt hs (by omega) (by omega)

/-- There is one double only that a single widens to. -/
theorem widens_iff {d : Nat} (hb : b < 2 ^ 32) (hd : d < 2 ^ 64) : Widens b d ↔ d = widen b := by
  constructor
  · rintro ⟨hdatum, hfraction⟩
    rcases widens_widen b with ⟨hdatum', hfraction'⟩
    refine eq_of_datum_eq (F := double) hd (widen_lt hb) (hdatum.trans hdatum'.symm) fun hnan => ?_
    -- the double is no number, so neither is the single
    have hsingle : single.IsNan b := by
      rw [datum_of_isNan hnan] at hdatum
      unfold datum at hdatum
      split_ifs at hdatum with htop hzero
      exact ⟨htop, hzero⟩
    rw [hfraction hsingle, hfraction' hsingle]
  · rintro rfl
    exact widens_widen b

end Ieee

end Lib
