import Mathlib.Data.List.Basic
import Mathlib.Logic.Function.Basic

/-!
# Regex — regular expressions that backtrack

The matcher of ECMAScript: an expression matches a prefix of the input and hands the rest, with the
captures so far, to a continuation; when the continuation fails it tries the next way to match.  An
alternative tries its left side first and a repetition tries another round first, so the match that
is found is the first one in this order.

The rules say when no backtracking is needed:

* `scan_of_total`, `exec_opt_of_total` — a continuation whose verdict does not depend on where a
  repetition stops gets the longest repetition;
* `scan_eq_dropWhile` — so does a continuation that fails, or does the same, wherever the repetition
  stops earlier.
-/

namespace Lib

/-- Expressions over an alphabet; `rep` is greedy, with at most `bound` rounds. -/
inductive Regex (α : Type*)
  | empty
  | char (p : α → Bool)
  | seq (r t : Regex α)
  | alt (r t : Regex α)
  | rep (bound : Option Nat) (r : Regex α)
  | group (n : Nat) (r : Regex α)

namespace Regex

variable {α β : Type*}

/-! ## Matching -/

/-- The texts of the groups. -/
abbrev Captures (α : Type*) := Nat → Option (List α)

/-- What is done with the captures and the rest of the input. -/
abbrev Cont (α β : Type*) := Captures α → List α → Option β

/-- The groups of an expression. -/
def groups : Regex α → List Nat
  | .empty => []
  | .char _ => []
  | .seq r t => r.groups ++ t.groups
  | .alt r t => r.groups ++ t.groups
  | .rep _ r => r.groups
  | .group n r => n :: r.groups

/-- Forget the texts of some groups. -/
def Captures.clear (c : Captures α) (ns : List Nat) : Captures α :=
  fun n => if n ∈ ns then none else c n

/-- At most `n` rounds of `m`; a round that consumes nothing does not count. -/
def iterate (m : Captures α → List α → Cont α β → Option β) (k : Cont α β) :
    Nat → Captures α → List α → Option β
  | 0, c, s => k c s
  | n + 1, c, s =>
      (m c s fun c' s' => if s'.length < s.length then iterate m k n c' s' else none).or (k c s)

/-- Match a prefix of the input and go on with `k`. -/
def exec : Regex α → Captures α → List α → Cont α β → Option β
  | .empty, c, s, k => k c s
  | .char p, c, s, k =>
      match s with
      | [] => none
      | a :: s => if p a then k c s else none
  | .seq r t, c, s, k => r.exec c s fun c s => t.exec c s k
  | .alt r t, c, s, k => (r.exec c s k).or (t.exec c s k)
  -- each round forgets what the groups matched in the round before
  | .rep bound r, c, s, k =>
      iterate (fun c s k => r.exec (c.clear r.groups) s k) k (bound.getD s.length) c s
  | .group n r, c, s, k =>
      r.exec c s fun c' s' =>
        k (Function.update c' n (some (s.take (s.length - s'.length)))) s'

/-- `regex_match`: the expression matches the whole input. -/
def regexMatch (r : Regex α) (s : List α) : Option (Captures α) :=
  r.exec (fun _ => none) s fun c rest => if rest.isEmpty then some c else none

/-! ### Derived expressions -/

def star (r : Regex α) : Regex α :=
  .rep none r

def plus (r : Regex α) : Regex α :=
  .seq r (star r)

def opt (r : Regex α) : Regex α :=
  .rep (some 1) r

def seqs : List (Regex α) → Regex α
  | [] => .empty
  | r :: rs => .seq r (seqs rs)

/-- One given letter. -/
def lit [DecidableEq α] (a : α) : Regex α :=
  .char fun b => decide (b = a)

/-- A given text. -/
def text [DecidableEq α] (l : List α) : Regex α :=
  seqs (l.map lit)

/-- Any letter but those of a list. -/
def noneOf [DecidableEq α] (l : List α) : Regex α :=
  .char fun b => decide (b ∉ l)

/-! ## Rules -/

section Rules

variable (c : Captures α) (s : List α) (k : Cont α β)

@[simp] theorem exec_empty : (empty : Regex α).exec c s k = k c s := rfl

@[simp] theorem exec_char_nil (p : α → Bool) : (char p).exec c [] k = none := rfl

@[simp] theorem exec_char_cons (p : α → Bool) (a : α) :
    (char p).exec c (a :: s) k = if p a then k c s else none := rfl

@[simp] theorem exec_seq (r t : Regex α) :
    (seq r t).exec c s k = r.exec c s fun c s => t.exec c s k := rfl

@[simp] theorem exec_alt (r t : Regex α) :
    (alt r t).exec c s k = (r.exec c s k).or (t.exec c s k) := rfl

@[simp] theorem exec_group (n : Nat) (r : Regex α) :
    (group n r).exec c s k = r.exec c s fun c' s' =>
      k (Function.update c' n (some (s.take (s.length - s'.length)))) s' := rfl

@[simp] theorem clear_nil : c.clear [] = c := by
  funext n
  simp [Captures.clear]

@[simp] theorem exec_seqs_nil : (seqs ([] : List (Regex α))).exec c s k = k c s := rfl

@[simp] theorem exec_seqs_cons (r : Regex α) (rs : List (Regex α)) :
    (seqs (r :: rs)).exec c s k = r.exec c s fun c s => (seqs rs).exec c s k := rfl

/-- A given text is a prefix of the input, or there is no match. -/
theorem exec_text [DecidableEq α] (l : List α) :
    (text l).exec c s k = (l.isPrefixOf? s).bind (k c) := by
  induction l generalizing s with
  | nil => rfl
  | cons a l ih =>
      cases s with
      | nil =>
          simp [text, lit, List.isPrefixOf?]
      | cons b s =>
          by_cases hb : b = a
          · subst hb
            simpa [text, lit, List.isPrefixOf?] using ih s
          · have hab : (a == b) = false := by
              simp [Ne.symm hb]
            simp [text, lit, List.isPrefixOf?, hb, hab]

/-- An option: one round that consumes something, or none. -/
theorem exec_opt (r : Regex α) :
    (opt r).exec c s k =
      (r.exec (c.clear r.groups) s fun c' s' =>
        if s'.length < s.length then k c' s' else none).or (k c s) := rfl

theorem exec_opt_char_nil (p : α → Bool) : (opt (char p)).exec c [] k = k c [] := rfl

theorem exec_opt_char_cons (p : α → Bool) (a : α) :
    (opt (char p)).exec c (a :: s) k = if p a then (k c s).or (k c (a :: s)) else k c (a :: s) := by
  simp only [opt, exec, iterate, groups, clear_nil, Option.getD_some, List.length_cons,
    Nat.lt_succ_self, if_true]
  split
  · rfl
  · rfl

end Rules

/-! ## Repetitions of one letter -/

/-- The longest prefix of letters in `p` first, then the shorter ones. -/
def scan (p : α → Bool) (k : List α → Option β) : List α → Option β
  | [] => k []
  | a :: s => if p a then (scan p k s).or (k (a :: s)) else k (a :: s)

theorem iterate_char (p : α → Bool) (k : Cont α β) (n : Nat) (c : Captures α) (s : List α)
    (hn : s.length ≤ n) :
    iterate (fun c s k => (char p).exec (c.clear (char p).groups) s k) k n c s =
      scan p (k c) s := by
  induction n generalizing s with
  | zero =>
      have hs : s = [] := List.length_eq_zero_iff.1 (Nat.le_zero.1 hn)
      subst hs
      rfl
  | succ n ih =>
      cases s with
      | nil =>
          simp [iterate, scan, groups]
      | cons a s =>
          have hs : s.length ≤ n := Nat.le_of_succ_le_succ hn
          have hround := ih s hs
          by_cases ha : p a = true
          · simp only [iterate, scan, groups, clear_nil, exec_char_cons, ha, if_true,
              List.length_cons, Nat.lt_succ_self] at hround ⊢
            rw [hround]
          · simp [iterate, scan, groups, ha]

theorem exec_star_char (p : α → Bool) (c : Captures α) (s : List α) (k : Cont α β) :
    (star (char p)).exec c s k = scan p (k c) s :=
  iterate_char p k s.length c s (Nat.le_refl _)

/-- The continuation wants the end of the input. -/
theorem scan_end {p : α → Bool} {k : List α → Option β} {b : β}
    (hk : ∀ s, k s = if s.isEmpty then some b else none) (s : List α) :
    scan p k s = if s.all p then some b else none := by
  induction s with
  | nil =>
      simp [scan, hk]
  | cons a s ih =>
      by_cases ha : p a = true
      · by_cases hs : s.all p = true
        · simp [scan, ha, ih, hs]
        · simp [scan, ha, ih, hs, hk]
      · simp [scan, ha, hk]

/-- The verdict of the continuation does not depend on where the repetition stops, so the longest one
is taken. -/
theorem scan_of_total {p : α → Bool} {k : List α → Option β} {P : List α → Prop} [DecidablePred P]
    {f : List α → β} (hk : ∀ s, k s = if P s then some (f s) else none)
    (hP : ∀ a s, p a = true → (P (a :: s) ↔ P s)) (s : List α) :
    scan p k s = if P s then some (f (s.dropWhile p)) else none := by
  induction s with
  | nil =>
      simp [scan, hk]
  | cons a s ih =>
      by_cases ha : p a = true
      · by_cases hs : P s
        · simp [scan, ha, ih, hs, hP a s ha]
        · simp [scan, ha, ih, hs, hk, hP a s ha]
      · simp [scan, ha, hk]

/-- An option whose continuation does not depend on it is taken where it can be. -/
theorem exec_opt_of_total {p : α → Bool} {k : Cont α β} {P : List α → Prop} [DecidablePred P]
    {f : Captures α → List α → β} (hk : ∀ c s, k c s = if P s then some (f c s) else none)
    (hP : ∀ a s, p a = true → (P (a :: s) ↔ P s)) (c : Captures α) (s : List α) :
    (opt (char p)).exec c s k =
      if P s then some (f c (if s.head?.any p then s.tail else s)) else none := by
  cases s with
  | nil =>
      simp [exec_opt_char_nil, hk]
  | cons a s =>
      by_cases ha : p a = true
      · by_cases hs : P s
        · simp [exec_opt_char_cons, ha, hk, hs, hP a s ha]
        · simp [exec_opt_char_cons, ha, hk, hs, hP a s ha]
      · simp [exec_opt_char_cons, ha, hk]

/-- Where the repetition stops earlier the continuation fails, or does what it does where the
repetition is longest. -/
theorem scan_eq_dropWhile {p : α → Bool} {k : List α → Option β}
    (hk : ∀ a s, p a = true → k (a :: s) = none ∨ k (a :: s) = k (s.dropWhile p)) (s : List α) :
    scan p k s = k (s.dropWhile p) := by
  induction s with
  | nil =>
      rfl
  | cons a s ih =>
      by_cases ha : p a = true
      · rcases hk a s ha with hnone | hsame
        · simp [scan, ha, ih, hnone]
        · simp [scan, ha, ih, hsame]
      · simp [scan, ha]

/-! ## Groups of repetitions -/

/-- The text of a group that matched a prefix. -/
theorem take_length_sub_dropWhile (p : α → Bool) (s : List α) :
    s.take (s.length - (s.dropWhile p).length) = s.takeWhile p := by
  have hlength : s.length = (s.takeWhile p).length + (s.dropWhile p).length := by
    rw [← List.length_append, List.takeWhile_append_dropWhile]
  calc
    s.take (s.length - (s.dropWhile p).length)
        = (s.takeWhile p ++ s.dropWhile p).take (s.takeWhile p).length := by
          rw [List.takeWhile_append_dropWhile]
          congr 1
          omega
    _ = s.takeWhile p := List.take_left

/-- A group of letters in `p` before a continuation whose verdict does not depend on it. -/
theorem exec_group_star_of_total {p : α → Bool} {k : Cont α β} {P : List α → Prop}
    [DecidablePred P] {f : Captures α → List α → β}
    (hk : ∀ c s, k c s = if P s then some (f c s) else none)
    (hP : ∀ a s, p a = true → (P (a :: s) ↔ P s)) (n : Nat) (c : Captures α) (s : List α) :
    (group n (star (char p))).exec c s k =
      if P s then some (f (Function.update c n (some (s.takeWhile p))) (s.dropWhile p))
      else none := by
  rw [exec_group, exec_star_char]
  have htotal := scan_of_total (p := p) (P := P)
    (k := fun s' => k (Function.update c n (some (s.take (s.length - s'.length)))) s')
    (f := fun s' => f (Function.update c n (some (s.take (s.length - s'.length)))) s')
    (fun s' => hk _ s') hP s
  rw [htotal, take_length_sub_dropWhile]

/-- The same where an optional letter, itself in `p`, comes first. -/
theorem exec_group_opt_star_of_total {q p : α → Bool} (hqp : ∀ a, q a = true → p a = true)
    {k : Cont α β} {P : List α → Prop} [DecidablePred P] {f : Captures α → List α → β}
    (hk : ∀ c s, k c s = if P s then some (f c s) else none)
    (hP : ∀ a s, p a = true → (P (a :: s) ↔ P s)) (n : Nat) (c : Captures α) (s : List α) :
    (group n (seq (opt (char q)) (star (char p)))).exec c s k =
      if P s then some (f (Function.update c n (some (s.takeWhile p))) (s.dropWhile p))
      else none := by
  let g : Captures α → List α → β := fun c s' =>
    f (Function.update c n (some (s.take (s.length - (s'.dropWhile p).length)))) (s'.dropWhile p)
  have hstar : ∀ c s', (star (char p)).exec c s' (fun c' s'' =>
      k (Function.update c' n (some (s.take (s.length - s''.length)))) s'') =
        if P s' then some (g c s') else none := by
    intro c s'
    rw [exec_star_char]
    exact scan_of_total (f := fun s'' =>
      f (Function.update c n (some (s.take (s.length - s''.length)))) s'') (fun s'' => hk _ s'')
      hP s'
  rw [exec_group, exec_seq, exec_opt_of_total hstar (fun a s ha => hP a s (hqp a ha))]
  have hdrop : (if s.head?.any q then s.tail else s).dropWhile p = s.dropWhile p := by
    split
    · rename_i hhead
      cases s with
      | nil => rfl
      | cons a s =>
          rw [List.dropWhile_cons_of_pos (hqp a (by simpa using hhead))]
          rfl
    · rfl
  simp only [g, hdrop, take_length_sub_dropWhile]

/-- A group of at least one letter in `p`. -/
theorem exec_group_plus_of_total {p : α → Bool} {k : Cont α β} {P : List α → Prop}
    [DecidablePred P] {f : Captures α → List α → β}
    (hk : ∀ c s, k c s = if P s then some (f c s) else none)
    (hP : ∀ a s, p a = true → (P (a :: s) ↔ P s)) (n : Nat) (c : Captures α) (s : List α) :
    (group n (plus (char p))).exec c s k =
      if s.head?.any p = true ∧ P s then
        some (f (Function.update c n (some (s.takeWhile p))) (s.dropWhile p))
      else none := by
  cases s with
  | nil =>
      simp [plus]
  | cons a s =>
      by_cases ha : p a = true
      · have hscan := scan_of_total (p := p) (P := P)
          (k := fun s' => k (Function.update c n
            (some ((a :: s).take ((a :: s).length - s'.length)))) s')
          (f := fun s' => f (Function.update c n
            (some ((a :: s).take ((a :: s).length - s'.length)))) s')
          (fun s' => hk _ s') hP s
        have htake := take_length_sub_dropWhile p (a :: s)
        rw [List.dropWhile_cons_of_pos ha] at htake
        rw [exec_group, plus, exec_seq, exec_char_cons, if_pos ha, exec_star_char, hscan, htake,
          List.dropWhile_cons_of_pos ha]
        simp [ha, hP a s ha]
      · simp [plus, ha]

end Regex

end Lib
