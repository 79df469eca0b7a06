import Mathlib.Data.List.Basic
import Mathlib.Data.List.Induction
import Mathlib.Data.List.TakeWhile
import Mathlib.Order.Basic

/-!
# Stoi — `std::stoi` with base 0

`strtol` skips white space, takes a sign, finds the base from the prefix (`0x` before a hexadecimal
digit, `0`, or none) and reads digits as far as they go.  `stoi` ignores what follows them; it throws
`invalid_argument` when there is no digit and `out_of_range` when the value is not an `int` of 32
bits.
-/

namespace Lib

/-! ## Digits -/

/-- The value of a letter as a digit, in bases up to 36. -/
def digit (c : Char) : Option Nat :=
  if '0' ≤ c ∧ c ≤ '9' then some (c.toNat - '0'.toNat)
  else if 'a' ≤ c ∧ c ≤ 'z' then some (c.toNat - 'a'.toNat + 10)
  else if 'A' ≤ c ∧ c ≤ 'Z' then some (c.toNat - 'A'.toNat + 10)
  else none

def digitIn (base : Nat) (c : Char) : Option Nat :=
  (digit c).filter fun d => decide (d < base)

/-- The digits at the front of a text. -/
def leadingDigits (base : Nat) (s : List Char) : List Nat :=
  (s.takeWhile fun c => (digitIn base c).isSome).filterMap (digitIn base)

/-- The number that digits stand for, most significant digit first. -/
def numeral (base : Nat) (ds : List Nat) : Nat :=
  ds.foldl (fun v d => v * base + d) 0

/-! ## `strtol` and `stoi` -/

/-- `isspace` in the C locale. -/
def isSpace (c : Char) : Bool :=
  decide (c ∈ [' ', '\t', '\n', '\x0b', '\x0c', '\r'])

def takeSign : List Char → Int × List Char
  | '-' :: s => (-1, s)
  | '+' :: s => (1, s)
  | s => (1, s)

/-- The base that a prefix announces, and the text from the first digit.  The prefixes are those of
C11: `0b`, which newer C libraries take too, is none of them. -/
def takeBase : List Char → Nat × List Char
  | '0' :: x :: d :: s =>
      if (x = 'x' ∨ x = 'X') ∧ (digitIn 16 d).isSome then (16, d :: s) else (8, '0' :: x :: d :: s)
  | '0' :: s => (8, '0' :: s)
  | s => (10, s)

/-- `strtol` with base 0; `none` when there is nothing to convert. -/
def strtol (s : List Char) : Option Int :=
  let signed := takeSign (s.dropWhile isSpace)
  let based := takeBase signed.2
  match leadingDigits based.1 based.2 with
  | [] => none
  | ds => some (signed.1 * numeral based.1 ds)

inductive StoiError
  | invalidArgument
  | outOfRange
  deriving DecidableEq

/-- `std::stoi(s, nullptr, 0)`. -/
def stoi (s : List Char) : Except StoiError Int :=
  match strtol s with
  | none => .error .invalidArgument
  | some n => if -2147483648 ≤ n ∧ n ≤ 2147483647 then .ok n else .error .outOfRange

theorem stoi_ok_iff {s : List Char} {n : Int} :
    stoi s = .ok n ↔ strtol s = some n ∧ -2147483648 ≤ n ∧ n ≤ 2147483647 := by
  unfold stoi
  cases strtol s with
  | none =>
      simp
  | some m =>
      simp only [Option.some.injEq]
      split
      · rename_i hrange
        constructor
        · intro h
          cases h
          exact ⟨rfl, hrange⟩
        · rintro ⟨rfl, _⟩
          rfl
      · rename_i hrange
        constructor
        · intro h
          cases h
        · rintro ⟨rfl, h⟩
          exact absurd h hrange

/-! ## Decimal numerals -/

/-- A text of decimal digits, and nothing else. -/
def IsNumeral (s : List Char) : Prop :=
  s ≠ [] ∧ ∀ c ∈ s, (digitIn 10 c).isSome = true

instance (s : List Char) : Decidable (IsNumeral s) :=
  decidable_of_iff (s ≠ [] ∧ (s.all fun c => (digitIn 10 c).isSome) = true)
    (and_congr_right fun _ => List.all_eq_true)

/-- The number that a decimal numeral stands for. -/
def decimal (s : List Char) : Nat :=
  numeral 10 (s.filterMap (digitIn 10))

theorem numeral_concat (base : Nat) (ds : List Nat) (d : Nat) :
    numeral base (ds ++ [d]) = numeral base ds * base + d := by
  simp [numeral]

theorem numeral_le_append (base : Nat) (hbase : 0 < base) (ds es : List Nat) :
    numeral base ds ≤ numeral base (ds ++ es) := by
  induction es using List.reverseRecOn with
  | nil =>
      simp
  | append_singleton es e ih =>
      rw [← List.append_assoc, numeral_concat]
      have hle : numeral base (ds ++ es) ≤ numeral base (ds ++ es) * base :=
        Nat.le_mul_of_pos_right _ hbase
      omega

/-- In a smaller base the same digits stand for at most the same number. -/
theorem numeral_mono {base base' : Nat} (h : base ≤ base') (ds : List Nat) :
    numeral base ds ≤ numeral base' ds := by
  induction ds using List.reverseRecOn with
  | nil =>
      exact Nat.le_refl _
  | append_singleton ds d ih =>
      rw [numeral_concat, numeral_concat]
      have hmul := Nat.mul_le_mul ih h
      omega

/-- Below eight the octal and the decimal reading of a numeral agree, and only there. -/
theorem numeral_octal_eq_iff {ds : List Nat} (hoctal : ∀ d ∈ ds, d < 8) :
    numeral 8 ds = numeral 10 ds ↔ numeral 10 ds < 8 := by
  induction ds using List.reverseRecOn with
  | nil =>
      simp [numeral]
  | append_singleton ds d _ =>
      have hd : d < 8 := hoctal d (by simp)
      have hle := numeral_mono (by omega : 8 ≤ 10) ds
      rw [numeral_concat, numeral_concat]
      constructor
      · intro heq
        omega
      · intro hlt
        omega

/-! ### How a numeral is read -/

theorem digitIn_eq_some_iff {base d : Nat} {c : Char} :
    digitIn base c = some d ↔ digit c = some d ∧ d < base := by
  simp [digitIn, Option.filter_eq_some_iff]

theorem leadingDigits_cons_of_some {base d : Nat} {c : Char} (h : digitIn base c = some d)
    (s : List Char) : leadingDigits base (c :: s) = d :: leadingDigits base s := by
  simp [leadingDigits, h]

theorem leadingDigits_cons_of_none {base : Nat} {c : Char} (h : digitIn base c = none)
    (s : List Char) : leadingDigits base (c :: s) = [] := by
  simp [leadingDigits, h]

theorem leadingDigits_eq_filterMap {base : Nat} {s : List Char}
    (h : ∀ c ∈ s, (digitIn base c).isSome = true) :
    leadingDigits base s = s.filterMap (digitIn base) := by
  rw [leadingDigits, List.takeWhile_eq_self_iff.2 h]

/-- Reading octal digits stops at the first eight or nine. -/
theorem leadingDigits_octal {s : List Char} (h : ∀ c ∈ s, (digitIn 10 c).isSome = true) :
    (∀ d ∈ leadingDigits 8 s, d < 8) ∧
      ∃ rest, s.filterMap (digitIn 10) = leadingDigits 8 s ++ rest ∧ ∀ d ∈ rest.head?, 8 ≤ d := by
  induction s with
  | nil =>
      exact ⟨by simp [leadingDigits], [], rfl, by simp⟩
  | cons c s ih =>
      rcases ih fun x hx => h x (by simp [hx]) with ⟨hoctal, rest, hsplit, hrest⟩
      rcases Option.isSome_iff_exists.1 (h c (by simp)) with ⟨d, hd⟩
      by_cases hlt : d < 8
      · have hc : digitIn 8 c = some d :=
          digitIn_eq_some_iff.2 ⟨(digitIn_eq_some_iff.1 hd).1, hlt⟩
        rw [leadingDigits_cons_of_some hc]
        refine ⟨by simpa [hlt] using hoctal, rest, ?_, hrest⟩
        rw [List.filterMap_cons_some hd, hsplit]
        rfl
      · have hc : digitIn 8 c = none := by
          rw [digitIn, (digitIn_eq_some_iff.1 hd).1]
          simp [Option.filter, hlt]
        rw [leadingDigits_cons_of_none hc]
        refine ⟨by simp, d :: s.filterMap (digitIn 10), ?_, by simpa using Nat.le_of_not_lt hlt⟩
        rw [List.filterMap_cons_some hd]
        rfl

/-- A numeral read in base 8, as far as that goes, has its decimal value only below eight. -/
theorem numeral_leadingDigits_octal {s : List Char}
    (h : ∀ c ∈ s, (digitIn 10 c).isSome = true) :
    numeral 8 (leadingDigits 8 s) = decimal s ↔ decimal s < 8 := by
  rcases leadingDigits_octal h with ⟨hoctal, rest, hsplit, hrest⟩
  unfold decimal
  rw [hsplit]
  cases rest with
  | nil =>
      simpa using numeral_octal_eq_iff hoctal
  | cons d rest =>
      -- a digit that is not octal makes the decimal value larger
      have hd : 8 ≤ d := hrest d (by simp)
      have hbase := numeral_mono (by omega : 8 ≤ 10) (leadingDigits 8 s)
      have hprefix : numeral 10 (leadingDigits 8 s ++ [d]) ≤
          numeral 10 (leadingDigits 8 s ++ d :: rest) := by
        have happend := numeral_le_append 10 (by omega) (leadingDigits 8 s ++ [d]) rest
        rwa [List.append_assoc] at happend
      rw [numeral_concat] at hprefix
      constructor
      · intro heq
        omega
      · intro hlt
        omega

theorem digit_not_space {c : Char} (h : (digitIn 10 c).isSome = true) :
    isSpace c = false ∧ c ≠ '-' ∧ c ≠ '+' ∧ c ≠ 'x' ∧ c ≠ 'X' := by
  have hne : ∀ x : Char, (digitIn 10 x).isSome = false → c ≠ x := by
    rintro x hx rfl
    rw [hx] at h
    cases h
  refine ⟨?_, hne '-' (by decide), hne '+' (by decide), hne 'x' (by decide), hne 'X' (by decide)⟩
  simp only [isSpace, List.mem_cons, List.not_mem_nil, or_false, decide_eq_false_iff_not, not_or]
  exact ⟨hne ' ' (by decide), hne '\t' (by decide), hne '\n' (by decide), hne '\x0b' (by decide),
    hne '\x0c' (by decide), hne '\r' (by decide)⟩

theorem takeBase_of_ne {c : Char} (h : c ≠ '0') (s : List Char) :
    takeBase (c :: s) = (10, c :: s) := by
  unfold takeBase
  split
  · rename_i heq
    cases heq
    exact absurd rfl h
  · rename_i heq
    cases heq
    exact absurd rfl h
  · rfl

theorem takeBase_zero {s : List Char} (h : ∀ c ∈ s, c ≠ 'x' ∧ c ≠ 'X') :
    takeBase ('0' :: s) = (8, '0' :: s) := by
  match s with
  | [] => rfl
  | [x] => rfl
  | x :: d :: s =>
      have hx := h x (by simp)
      simp [takeBase, hx.1, hx.2]

/-- A decimal numeral is read in base 8 if it starts with a zero. -/
theorem strtol_of_isNumeral {s : List Char} (h : IsNumeral s) :
    strtol s =
      some (if s.head? = some '0' then (numeral 8 (leadingDigits 8 s) : Int) else decimal s) := by
  rcases h with ⟨hne, hdigits⟩
  cases s with
  | nil =>
      exact absurd rfl hne
  | cons c s =>
      rcases digit_not_space (hdigits c (by simp)) with ⟨hspace, hminus, hplus, _, _⟩
      have hsign : takeSign ((c :: s).dropWhile isSpace) = (1, c :: s) := by
        rw [List.dropWhile_cons_of_neg (by simp [hspace])]
        unfold takeSign
        split
        · rename_i heq
          cases heq
          exact absurd rfl hminus
        · rename_i heq
          cases heq
          exact absurd rfl hplus
        · rfl
      unfold strtol
      simp only [hsign]
      by_cases hzero : c = '0'
      · subst hzero
        have hx : ∀ x ∈ s, x ≠ 'x' ∧ x ≠ 'X' := by
          intro x hx
          exact (digit_not_space (hdigits x (by simp [hx]))).2.2.2
        have hdigit : digitIn 8 '0' = some 0 := by decide
        rw [takeBase_zero hx]
        simp only [leadingDigits_cons_of_some hdigit]
        simp
      · rcases Option.isSome_iff_exists.1 (hdigits c (by simp)) with ⟨d, hd⟩
        have hall := leadingDigits_eq_filterMap hdigits
        rw [takeBase_of_ne hzero, decimal, ← hall, leadingDigits_cons_of_some hd]
        simp [hzero]

/-- The text is a decimal numeral that `stoi` does not take for an octal one. -/
def IsPlainNumeral (s : List Char) : Prop :=
  IsNumeral s ∧ (s.head? ≠ some '0' ∨ decimal s < 8)

/-- The plain numerals are the texts that `stoi` reads as what they say. -/
theorem stoi_exact_iff {s : List Char} {n : Int} (h : stoi s = .ok n) :
    (IsNumeral s ∧ n = decimal s) ↔ IsPlainNumeral s := by
  have hread : IsNumeral s →
      n = if s.head? = some '0' then (numeral 8 (leadingDigits 8 s) : Int) else decimal s := by
    intro hs
    have hstrtol := (stoi_ok_iff.1 h).1
    rw [strtol_of_isNumeral hs] at hstrtol
    exact (Option.some.inj hstrtol).symm
  constructor
  · rintro ⟨hs, heq⟩
    refine ⟨hs, ?_⟩
    have hn := hread hs
    by_cases hzero : s.head? = some '0'
    · rw [if_pos hzero, heq] at hn
      refine Or.inr ((numeral_leadingDigits_octal hs.2).1 ?_)
      exact_mod_cast hn.symm
    · exact Or.inl hzero
  · rintro ⟨hs, hplain⟩
    refine ⟨hs, ?_⟩
    rw [hread hs]
    by_cases hzero : s.head? = some '0'
    · rw [if_pos hzero]
      rcases hplain with hnot | hlt
      · exact absurd hzero hnot
      · exact_mod_cast (numeral_leadingDigits_octal hs.2).2 hlt
    · rw [if_neg hzero]

end Lib
