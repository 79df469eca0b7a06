import CapyAmqp.Address.Basic
import Mathlib.Data.List.DropRight
import Mathlib.Data.List.TakeWhile

/-!
# Match — what the regular expression of `Address::From` matches

Behind the host every group of the expression may be as long as it can, because only a space in the
rest of the string makes the match fail: there is no backtracking (`exec_hostEx`).  A userinfo has
one end at most (`exec_userinfoEx`), and is given up only when no host can follow it.  So the match
is what a scan from left to right finds (`regexMatch_ex`).
-/

namespace CapyAmqp

open Lib Regex

namespace Address

/-! ## From the host to the end -/

def hostChar (c : Char) : Bool :=
  decide (c ∉ ['/', ' ', ':'])

def portChar (c : Char) : Bool :=
  decide (c ∉ ['/', ' '])

def vhostChar (c : Char) : Bool :=
  decide (c ∉ [' ', '#', '?'])

def hostOf (t : Text) : Text :=
  t.takeWhile hostChar

/-- The text after the host and the colon that ends it. -/
def afterHost (t : Text) : Text :=
  let v := t.dropWhile hostChar
  if v.head?.any (fun b => decide (b = ':')) then v.tail else v

def portTextOf (t : Text) : Text :=
  (afterHost t).takeWhile portChar

def vhostOf (t : Text) : Text :=
  ((afterHost t).dropWhile portChar).takeWhile vhostChar

/-- A host starts here. -/
def StartsHost (t : Text) : Prop :=
  t.head?.any hostChar = true

instance (t : Text) : Decidable (StartsHost t) := by
  unfold StartsHost
  infer_instance

/-- The end of the match. -/
def finish (c : Captures Char) (rest : Text) : Option (Captures Char) :=
  if rest.isEmpty then some c else none

theorem not_mem_space_cons {p : Char → Bool} (hp : p ' ' = false) (a : Char) (s : Text)
    (ha : p a = true) : ' ' ∉ a :: s ↔ ' ' ∉ s := by
  have hne : ' ' ≠ a := by
    rintro rfl
    rw [hp] at ha
    cases ha
  simp [hne]

/-- `([^ ]*)` and the end. -/
theorem exec_fragment (c : Captures Char) (s : Text) :
    (group 7 (star (noneOf [' ']))).exec c s finish =
      if ' ' ∉ s then some (Function.update c 7 (some s)) else none := by
  have hend : ∀ s', finish
      (Function.update c 7 (some (s.take (s.length - s'.length)))) s' =
        if s'.isEmpty then some (Function.update c 7 (some s)) else none := by
    intro s'
    cases s' with
    | nil => simp [finish]
    | cons a s' => simp [finish]
  rw [exec_group, noneOf, exec_star_char, scan_end hend]
  -- the scan reaches the end just when every letter left is one of the class
  have hall : (s.all fun b => decide (b ∉ [' '])) = true ↔ ' ' ∉ s := by
    simp only [List.all_eq_true, decide_eq_true_eq, List.mem_singleton]
    exact ⟨fun h hmem => h ' ' hmem rfl, fun h b hb hspace => h (hspace ▸ hb)⟩
  by_cases hs : ' ' ∉ s
  · rw [if_pos hs, if_pos (hall.2 hs)]
  · rw [if_neg hs, if_neg (mt hall.1 hs)]

/-- There is no backtracking behind the host. -/
theorem exec_hostEx :
    ∃ F : Captures Char → Text → Captures Char,
      (∀ c t, hostEx.exec c t finish =
        if StartsHost t ∧ ' ' ∉ t then some (F c t) else none) ∧
      ∀ c t, F c t 3 = some (hostOf t) ∧ F c t 4 = some (portTextOf t) ∧
        F c t 5 = some (vhostOf t) ∧ ∀ n, n < 3 → F c t n = c n := by
  have hspace : ∀ l : List Char, ' ' ∈ l → ∀ a s, decide (a ∉ l) = true →
      (' ' ∉ a :: s ↔ ' ' ∉ s) := by
    intro l hl a s ha
    exact not_mem_space_cons (p := fun b => decide (b ∉ l)) (by simp [hl]) a s ha
  have hone : ∀ x : Char, x ≠ ' ' → ∀ a s, decide (a = x) = true → (' ' ∉ a :: s ↔ ' ' ∉ s) := by
    intro x hx a s ha
    exact not_mem_space_cons (p := fun b => decide (b = x)) (by simp [hx.symm]) a s ha
  -- from the back of the expression to its front, each part before the part behind it
  have hhash := exec_opt_of_total exec_fragment (hone '#' (by decide))
  have hquery := exec_group_star_of_total hhash (hspace [' ', '#'] (by simp)) 6
  have hmark := exec_opt_of_total hquery (hone '?' (by decide))
  have hvhost := exec_group_opt_star_of_total (q := fun b => decide (b = '/'))
    (p := fun b => decide (b ∉ [' ', '#', '?']))
    (by
      intro a ha
      have hslash : a = '/' := by simpa using ha
      subst hslash
      decide) hmark (hspace [' ', '#', '?'] (by simp)) 5
  have hport := exec_group_star_of_total hvhost (hspace ['/', ' '] (by simp)) 4
  have hcolon := exec_opt_of_total hport (hone ':' (by decide))
  have hhost := exec_group_plus_of_total hcolon (hspace ['/', ' ', ':'] (by simp)) 3
  refine ⟨_, hhost, ?_⟩
  intro c t
  -- each group is written once, so that the last entry for its number is what it has matched
  refine ⟨rfl, rfl, rfl, ?_⟩
  intro n hn
  have hne : n ≠ 3 ∧ n ≠ 4 ∧ n ≠ 5 ∧ n ≠ 6 ∧ n ≠ 7 := by omega
  simp [hne]

/-! ## The userinfo -/

/-- The text after the letter `x`, if it comes first. -/
def after (x : Char) (s : Text) : Option Text :=
  if s.head?.any (fun b => decide (b = x)) then some s.tail else none

/-- The text after a userinfo. -/
def userinfoEnd (s : Text) : Option Text :=
  if s.head?.any isWord then
    let v := s.dropWhile isWord
    after '@' (match after ':' v with
      | some w => w.dropWhile isWord
      | none => v)
  else none

theorem after_cons (x a : Char) (s : Text) :
    after x (a :: s) = if a = x then some s else none := by
  simp [after]

theorem after_eq_some_iff {x : Char} {s t : Text} : after x s = some t ↔ s = x :: t := by
  cases s with
  | nil =>
      simp [after]
  | cons a s =>
      rw [after_cons]
      by_cases ha : a = x
      · simp [ha]
      · simp [ha]

section Userinfo

variable {β : Type} (c : Captures Char) (s : Text) (k : Regex.Cont Char β)

theorem exec_lit (x : Char) : (lit x).exec c s k = (after x s).bind (k c) := by
  cases s with
  | nil => rfl
  | cons a s =>
      rw [lit, exec_char_cons, after_cons]
      by_cases ha : a = x
      · simp [ha]
      · simp [ha]

theorem not_isWord_at : isWord '@' = false := by
  decide

theorem not_isWord_colon : isWord ':' = false := by
  decide

/-- `\w*@`. -/
theorem exec_word_at :
    (star word).exec c s (fun c s => (lit '@').exec c s k) =
      (after '@' (s.dropWhile isWord)).bind (k c) := by
  rw [word, exec_star_char]
  have hscan := scan_eq_dropWhile (p := isWord) (k := fun s => (lit '@').exec c s k) (s := s) (by
    intro a s ha
    left
    have hne : a ≠ '@' := by
      rintro rfl
      rw [not_isWord_at] at ha
      cases ha
    simp [exec_lit, after_cons, hne])
  rw [hscan, exec_lit]

/-- `:?\w*@`: a colon cannot be skipped. -/
theorem exec_colon_word_at :
    (opt (lit ':')).exec c s (fun c s => (star word).exec c s fun c s => (lit '@').exec c s k) =
      (after '@' (match after ':' s with
        | some w => w.dropWhile isWord
        | none => s.dropWhile isWord)).bind (k c) := by
  cases s with
  | nil =>
      rw [lit, exec_opt_char_nil, exec_word_at]
      rfl
  | cons a s =>
      rw [lit, exec_opt_char_cons, after_cons]
      by_cases ha : a = ':'
      · subst ha
        -- without the colon the words would have to go on with it
        have hstop : (':' :: s).dropWhile isWord = ':' :: s :=
          List.dropWhile_cons_of_neg (by simp [not_isWord_colon])
        simp [exec_word_at, hstop, after_cons]
      · simp [exec_word_at, ha]

/-- However the words of a userinfo are split, it ends behind the first `@`. -/
theorem exec_userinfoEx : userinfoEx.exec c s k = (userinfoEnd s).bind (k c) := by
  cases s with
  | nil => rfl
  | cons a s =>
      by_cases ha : isWord a = true
      · have hword : userinfoEx.exec c (a :: s) k =
            scan isWord (fun s => (opt (lit ':')).exec c s fun c s =>
              (star word).exec c s fun c s => (lit '@').exec c s k) s := by
          simp only [userinfoEx, exec_seqs_cons, exec_seqs_nil, plus, exec_seq, word]
          rw [exec_char_cons, if_pos ha, exec_star_char]
        have hscan := scan_eq_dropWhile (p := isWord)
          (k := fun s => (opt (lit ':')).exec c s fun c s =>
            (star word).exec c s fun c s => (lit '@').exec c s k) (s := s) (by
          intro b s hb
          have hne : b ≠ ':' := by
            rintro rfl
            rw [not_isWord_colon] at hb
            cases hb
          simp only [exec_colon_word_at, after_cons, hne, if_false,
            List.dropWhile_cons_of_pos hb]
          cases hcolon : after ':' (s.dropWhile isWord) with
          | none =>
              -- the next letter is no word letter, so it is the same end
              right
              simp only [List.dropWhile_idempotent]
          | some w =>
              left
              rw [after_eq_some_iff.1 hcolon]
              simp [after_cons])
        have hidem : (s.dropWhile isWord).dropWhile isWord = s.dropWhile isWord :=
          List.dropWhile_idempotent isWord s
        rw [hword, hscan, exec_colon_word_at, hidem]
        simp [userinfoEnd, ha, List.dropWhile_cons_of_pos ha]
      · have hfalse : isWord a = false := by
          simpa using ha
        simp [userinfoEx, userinfoEnd, plus, word, hfalse]

end Userinfo

/-! ## The scheme -/

/-- The scheme before `://`, and the text behind. -/
def schemeOf (s : Text) : Option (Text × Text) :=
  match ['a', 'm', 'q', 'p', ':', '/', '/'].isPrefixOf? s with
  | some r => some (['a', 'm', 'q', 'p'], r)
  | none =>
      match ['a', 'm', 'q', 'p', 's', ':', '/', '/'].isPrefixOf? s with
      | some r => some (['a', 'm', 'q', 'p', 's'], r)
      | none => (['a', 'm', 'q', ':', '/', '/'].isPrefixOf? s).map fun r => (['a', 'm', 'q'], r)

theorem exec_schemeEx {β : Type} (c : Captures Char) (s : Text) (k : Regex.Cont Char β) :
    schemeEx.exec c s (fun c s => (text [':', '/', '/']).exec c s k) =
      (schemeOf s).bind fun r => k (Function.update c 1 (some r.1)) r.2 := by
  -- both alternatives start with `amq`; what follows decides which of the three schemes it is
  cases hamq : ['a', 'm', 'q'].isPrefixOf? s with
  | none =>
      have hnone : ∀ l, (['a', 'm', 'q'] ++ l).isPrefixOf? s = none := by
        intro l
        cases hl : (['a', 'm', 'q'] ++ l).isPrefixOf? s with
        | none => rfl
        | some x =>
            rw [List.isPrefixOf?_eq_some_iff_append_eq] at hl
            rw [← hl] at hamq
            simp [List.isPrefixOf?] at hamq
      have hamqps := hnone ['p', 's']
      have hscheme : schemeOf s = none := by
        have h₁ := hnone ['p', ':', '/', '/']
        have h₂ := hnone ['p', 's', ':', '/', '/']
        have h₃ := hnone [':', '/', '/']
        simp only [List.cons_append, List.nil_append] at h₁ h₂ h₃
        simp [schemeOf, h₁, h₂, h₃]
      simp only [List.cons_append, List.nil_append] at hamqps
      simp [schemeEx, exec_text, hamq, hamqps, hscheme]
  | some x =>
      have hs : ['a', 'm', 'q'] ++ x = s := List.isPrefixOf?_eq_some_iff_append_eq.1 hamq
      subst hs
      have hcapture : ∀ u t : Text, (u ++ t).take ((u ++ t).length - t.length) = u := by
        intro u t
        simp
      cases x with
      | nil =>
          simp [schemeEx, exec_text, lit, exec_opt_char_nil, List.isPrefixOf?, schemeOf]
      | cons y x =>
          have hone := hcapture ['a', 'm', 'q'] (y :: x)
          have htwo := hcapture ['a', 'm', 'q', y] x
          simp only [List.cons_append, List.nil_append] at hone htwo hamq
          simp only [schemeEx, exec_group, exec_alt, exec_seq, exec_text, hamq, Option.bind_some,
            lit, exec_opt_char_cons, List.cons_append, List.nil_append, hone, htwo]
          by_cases hy : y = 'p'
          · -- `amqp` is tried first, then `amq` before a `p`, then `amqps`
            subst hy
            cases x with
            | nil =>
                simp [List.isPrefixOf?, schemeOf]
            | cons z x =>
                by_cases hz : z = 's'
                · subst hz
                  have hlength : x.length + 1 + 1 + 1 + 1 + 1 - x.length = 5 := by
                    omega
                  cases hslashes : [':', '/', '/'].isPrefixOf? x with
                  | none => simp [List.isPrefixOf?, schemeOf, hslashes]
                  | some r => simp [List.isPrefixOf?, schemeOf, hslashes, hlength]
                · by_cases hcolon : z = ':'
                  · subst hcolon
                    cases hslashes : ['/', '/'].isPrefixOf? x with
                    | none => simp [List.isPrefixOf?, schemeOf, hslashes]
                    | some r => simp [List.isPrefixOf?, schemeOf, hslashes]
                  · simp [List.isPrefixOf?, schemeOf, Ne.symm hz, Ne.symm hcolon]
          · by_cases hcolon : y = ':'
            · subst hcolon
              cases hslashes : ['/', '/'].isPrefixOf? x with
              | none => simp [List.isPrefixOf?, schemeOf, hslashes]
              | some r => simp [List.isPrefixOf?, schemeOf, hslashes]
            · simp [List.isPrefixOf?, schemeOf, hy, Ne.symm hy, Ne.symm hcolon]

/-! ## What a userinfo is -/

/-- `word+ [:] word* @`. -/
def IsUserinfo (u : Text) : Prop :=
  ∃ w₁ colon w₂, w₁ ≠ [] ∧ (∀ c ∈ w₁, isWord c = true) ∧ (colon = [] ∨ colon = [':']) ∧
    (∀ c ∈ w₂, isWord c = true) ∧ u = w₁ ++ colon ++ w₂ ++ ['@']

theorem userinfoEnd_of_isUserinfo {u : Text} (hu : IsUserinfo u) (t : Text) :
    userinfoEnd (u ++ t) = some t := by
  rcases hu with ⟨w₁, colon, w₂, hne, hw₁, hcolon, hw₂, rfl⟩
  have hat : ('@' :: t).dropWhile isWord = '@' :: t :=
    List.dropWhile_cons_of_neg (by simp [not_isWord_at])
  have hhead : (w₁ ++ colon ++ w₂ ++ ['@'] ++ t).head?.any isWord = true := by
    cases w₁ with
    | nil => exact absurd rfl hne
    | cons a w₁ => simpa using hw₁ a (by simp)
  rw [userinfoEnd, if_pos hhead]
  rcases hcolon with rfl | rfl
  · -- without a colon the two words are one
    have hwords : ∀ c ∈ w₁ ++ w₂, isWord c = true := by
      intro c hc
      rcases List.mem_append.1 hc with hc | hc
      · exact hw₁ c hc
      · exact hw₂ c hc
    have hdrop : (w₁ ++ [] ++ w₂ ++ ['@'] ++ t).dropWhile isWord = '@' :: t := by
      rw [List.append_nil, List.append_assoc, List.dropWhile_append_of_pos hwords]
      exact hat
    simp only [hdrop]
    simp [after_cons]
  · have hstop : (':' :: (w₂ ++ '@' :: t)).dropWhile isWord = ':' :: (w₂ ++ '@' :: t) :=
      List.dropWhile_cons_of_neg (by simp [not_isWord_colon])
    have hdrop : (w₁ ++ [':'] ++ w₂ ++ ['@'] ++ t).dropWhile isWord =
        ':' :: (w₂ ++ '@' :: t) := by
      have hassoc : w₁ ++ [':'] ++ w₂ ++ ['@'] ++ t = w₁ ++ ':' :: (w₂ ++ '@' :: t) := by
        simp
      rw [hassoc, List.dropWhile_append_of_pos hw₁, hstop]
    have hdrop₂ : (w₂ ++ '@' :: t).dropWhile isWord = '@' :: t := by
      rw [List.dropWhile_append_of_pos hw₂, hat]
    simp only [hdrop]
    simp [after_cons, hdrop₂]

theorem isUserinfo_of_userinfoEnd {r t : Text} (h : userinfoEnd r = some t) :
    ∃ u, IsUserinfo u ∧ r = u ++ t := by
  unfold userinfoEnd at h
  split at h
  · rename_i hhead
    have hne : r.takeWhile isWord ≠ [] := by
      cases r with
      | nil => cases hhead
      | cons a r =>
          have ha : isWord a = true := by simpa using hhead
          simp [List.takeWhile_cons_of_pos ha]
    have hword : ∀ s : Text, ∀ c ∈ s.takeWhile isWord, isWord c = true := by
      intro s c hc
      exact List.mem_takeWhile_imp hc
    have hr : r.takeWhile isWord ++ r.dropWhile isWord = r := List.takeWhile_append_dropWhile
    cases hcolon : after ':' (r.dropWhile isWord) with
    | none =>
        simp only [hcolon] at h
        rw [after_eq_some_iff.1 h] at hr
        refine ⟨r.takeWhile isWord ++ ['@'],
          ⟨r.takeWhile isWord, [], [], hne, hword r, Or.inl rfl, by simp, by simp⟩, ?_⟩
        rw [List.append_assoc]
        exact hr.symm
    | some w =>
        simp only [hcolon] at h
        have hw : w.takeWhile isWord ++ w.dropWhile isWord = w := List.takeWhile_append_dropWhile
        rw [after_eq_some_iff.1 h] at hw
        rw [after_eq_some_iff.1 hcolon] at hr
        refine ⟨r.takeWhile isWord ++ [':'] ++ w.takeWhile isWord ++ ['@'],
          ⟨r.takeWhile isWord, [':'], w.takeWhile isWord, hne, hword r, Or.inr rfl, hword w, rfl⟩,
          ?_⟩
        calc
          r = r.takeWhile isWord ++ ':' :: w := hr.symm
          _ = r.takeWhile isWord ++ ':' :: (w.takeWhile isWord ++ '@' :: t) := by rw [hw]
          _ = r.takeWhile isWord ++ [':'] ++ w.takeWhile isWord ++ ['@'] ++ t := by simp
  · cases h

theorem IsUserinfo.not_mem {u : Text} (hu : IsUserinfo u) {x : Char} (hword : isWord x = false)
    (hcolon : x ≠ ':') (hat : x ≠ '@') : x ∉ u := by
  rcases hu with ⟨w₁, colon, w₂, _, hw₁, hsep, hw₂, rfl⟩
  have hnot : ∀ w : Text, (∀ c ∈ w, isWord c = true) → x ∉ w := by
    intro w hw hx
    rw [hw x hx] at hword
    cases hword
  rcases hsep with rfl | rfl
  · simp [hnot w₁ hw₁, hnot w₂ hw₂, hat]
  · simp [hnot w₁ hw₁, hnot w₂ hw₂, hcolon, hat]

/-- The userinfo of the text behind the scheme, if a host follows it, and the rest. -/
def splitUserinfo (r : Text) : Text × Text :=
  match userinfoEnd r with
  | some t => if StartsHost t then (r.take (r.length - t.length), t) else ([], r)
  | none => ([], r)

/-- What `splitUserinfo` finds. -/
def SplitsUserinfo (r u t : Text) : Prop :=
  r = u ++ t ∧
    ((IsUserinfo u ∧ StartsHost t) ∨
      (u = [] ∧ ∀ u' t', r = u' ++ t' → IsUserinfo u' → ¬ StartsHost t'))

theorem splitsUserinfo_iff {r u t : Text} : SplitsUserinfo r u t ↔ splitUserinfo r = (u, t) := by
  have hstart : ∀ t', userinfoEnd r = some t' → ¬ StartsHost t' →
      ∀ u' t'', r = u' ++ t'' → IsUserinfo u' → ¬ StartsHost t'' := by
    rintro t' hend hhost u' t'' rfl hu'
    rw [userinfoEnd_of_isUserinfo hu'] at hend
    cases hend
    exact hhost
  constructor
  · rintro ⟨rfl, ⟨hu, hhost⟩ | ⟨rfl, hnone⟩⟩
    · simp [splitUserinfo, userinfoEnd_of_isUserinfo hu, hhost]
    · unfold splitUserinfo
      cases hend : userinfoEnd ([] ++ t) with
      | none => rfl
      | some t' =>
          -- there is a userinfo, but no host behind it, and so it was given up
          rcases isUserinfo_of_userinfoEnd hend with ⟨u', hu', hr⟩
          have hhost := hnone u' t' hr hu'
          simp [hhost]
  · intro h
    unfold splitUserinfo at h
    split at h
    · rename_i t' hend
      rcases isUserinfo_of_userinfoEnd hend with ⟨u', hu', hr⟩
      split at h
      · rename_i hhost
        have hu : r.take (r.length - t'.length) = u' := by
          simp [hr]
        rw [hu] at h
        cases h
        exact ⟨hr, Or.inl ⟨hu', hhost⟩⟩
      · rename_i hhost
        cases h
        exact ⟨rfl, Or.inr ⟨rfl, hstart t' hend hhost⟩⟩
    · rename_i hend
      cases h
      refine ⟨rfl, Or.inr ⟨rfl, ?_⟩⟩
      rintro u' t' rfl hu'
      rw [userinfoEnd_of_isUserinfo hu'] at hend
      cases hend

/-! ## The whole match -/

/-- What the groups hold when the expression matches. -/
structure Groups (m : Captures Char) (scheme u t : Text) : Prop where
  scheme : subMatch m 1 = scheme
  userinfo : subMatch m 2 = u
  host : subMatch m 3 = hostOf t
  port : subMatch m 4 = portTextOf t
  vhost : subMatch m 5 = vhostOf t

theorem userinfoEnd_append {r t : Text} (h : userinfoEnd r = some t) :
    r = r.take (r.length - t.length) ++ t ∧ IsUserinfo (r.take (r.length - t.length)) := by
  rcases isUserinfo_of_userinfoEnd h with ⟨u, hu, rfl⟩
  have htake : (u ++ t).take ((u ++ t).length - t.length) = u := by
    simp
  rw [htake]
  exact ⟨rfl, hu⟩

theorem IsUserinfo.ne_nil {u : Text} (hu : IsUserinfo u) : u ≠ [] := by
  rcases hu with ⟨w₁, colon, w₂, hne, _, _, _, rfl⟩
  simp

/-- The userinfo and the rest of the expression, after the scheme: the match with the userinfo if
there is one, else the match without it. -/
theorem exec_userinfo_hostEx (c : Captures Char) (hc : c 2 = none) (r : Text) :
    (opt (.group 2 userinfoEx)).exec c r (fun c s => hostEx.exec c s finish) =
      ((userinfoEnd r).bind fun t =>
        hostEx.exec (Function.update c 2 (some (r.take (r.length - t.length)))) t finish).or
          (hostEx.exec c r finish) := by
  have hclear : c.clear (group 2 userinfoEx).groups = c := by
    funext n
    have hgroups : (group 2 userinfoEx).groups = [2] := rfl
    by_cases hn : n = 2
    · subst hn
      simp [Captures.clear, hgroups, hc]
    · simp [Captures.clear, hgroups, hn]
  rw [exec_opt, hclear, exec_group, exec_userinfoEx]
  -- a userinfo is not empty, so the test against empty repetitions lets it through
  cases hend : userinfoEnd r with
  | none => rfl
  | some t =>
      have hsplit := userinfoEnd_append hend
      have hlength : t.length < r.length := by
        have hpos := List.length_pos_of_ne_nil hsplit.2.ne_nil
        have hsum := congrArg List.length hsplit.1
        rw [List.length_append] at hsum
        omega
      simp [hlength]

/-- The match of the expression is what a scan finds. -/
theorem regexMatch_ex (s : Text) :
    (regexMatch ex s = none ∧ ∀ scheme r, schemeOf s = some (scheme, r) →
      ¬ (StartsHost (splitUserinfo r).2 ∧ ' ' ∉ r)) ∨
    ∃ scheme r m, schemeOf s = some (scheme, r) ∧ StartsHost (splitUserinfo r).2 ∧ ' ' ∉ r ∧
      regexMatch ex s = some m ∧
      Groups m scheme (splitUserinfo r).1 (splitUserinfo r).2 := by
  rcases exec_hostEx with ⟨F, hhost, hF⟩
  have hmatch : regexMatch ex s = (schemeOf s).bind fun p =>
      (opt (.group 2 userinfoEx)).exec (Function.update (fun _ => none) 1 (some p.1)) p.2
        fun c s => hostEx.exec c s finish :=
    exec_schemeEx (fun _ => none) s fun c s =>
      (opt (.group 2 userinfoEx)).exec c s fun c s => hostEx.exec c s finish
  cases hscheme : schemeOf s with
  | none =>
      refine Or.inl ⟨by rw [hmatch, hscheme]; rfl, ?_⟩
      intro scheme r h
      cases h
  | some p =>
      rcases p with ⟨scheme, r⟩
      let c : Captures Char := Function.update (fun _ => none) 1 (some scheme)
      have hc : c 2 = none := rfl
      rw [hscheme, Option.bind_some, exec_userinfo_hostEx _ hc] at hmatch
      have hgroups : ∀ (c : Captures Char) (u t : Text), c 1 = some scheme → (c 2).getD [] = u →
          Groups (F c t) scheme u t := by
        intro c u t h₁ h₂
        rcases hF c t with ⟨h₃, h₄, h₅, hlow⟩
        refine ⟨?_, ?_, ?_, ?_, ?_⟩
        · simp [subMatch, hlow 1 (by omega), h₁]
        · simp [subMatch, hlow 2 (by omega), h₂]
        · simp [subMatch, h₃]
        · simp [subMatch, h₄]
        · simp [subMatch, h₅]
      -- the match without a userinfo
      have hplain : splitUserinfo r = ([], r) → regexMatch ex s = hostEx.exec c r finish →
          (regexMatch ex s = none ∧ ∀ scheme' r', some (scheme, r) = some (scheme', r') →
            ¬ (StartsHost (splitUserinfo r').2 ∧ ' ' ∉ r')) ∨
          ∃ scheme' r' m, some (scheme, r) = some (scheme', r') ∧
            StartsHost (splitUserinfo r').2 ∧ ' ' ∉ r' ∧ regexMatch ex s = some m ∧
            Groups m scheme' (splitUserinfo r').1 (splitUserinfo r').2 := by
        intro hsplit hhere
        rw [hhost] at hhere
        split at hhere
        · rename_i hok
          refine Or.inr ⟨scheme, r, F c r, rfl, ?_, hok.2, hhere, ?_⟩
          · rw [hsplit]
            exact hok.1
          · rw [hsplit]
            exact hgroups c [] r rfl rfl
        · rename_i hnot
          refine Or.inl ⟨hhere, ?_⟩
          intro scheme' r' h
          cases h
          rw [hsplit]
          exact hnot
      cases hend : userinfoEnd r with
      | none =>
          refine hplain (by simp [splitUserinfo, hend]) ?_
          rw [hmatch, hend]
          rfl
      | some t =>
          have hu := userinfoEnd_append hend
          rw [hend, Option.bind_some, hhost] at hmatch
          by_cases hstart : StartsHost t
          · have hsplit : splitUserinfo r = (r.take (r.length - t.length), t) := by
              simp [splitUserinfo, hend, hstart]
            have hspace : ' ' ∈ r ↔ ' ' ∈ t := by
              have hnot := hu.2.not_mem (x := ' ') (by decide) (by decide) (by decide)
              rw [hu.1, List.mem_append]
              simp [hnot]
            by_cases hclean : ' ' ∉ r
            · rw [if_pos ⟨hstart, mt hspace.2 hclean⟩, Option.some_or] at hmatch
              refine Or.inr ⟨scheme, r, _, rfl, ?_, hclean, hmatch, ?_⟩
              · rw [hsplit]
                exact hstart
              · rw [hsplit]
                exact hgroups _ _ _ rfl rfl
            · rw [if_neg fun h => hclean (mt hspace.1 h.2), Option.none_or, hhost,
                if_neg fun h => hclean h.2] at hmatch
              refine Or.inl ⟨hmatch, ?_⟩
              intro scheme' r' h
              cases h
              exact fun h => hclean h.2
          · -- no host can follow the userinfo, so it is given up
            rw [if_neg fun h => hstart h.1, Option.none_or] at hmatch
            exact hplain (by simp [splitUserinfo, hend, hstart]) hmatch

end Address

end CapyAmqp
