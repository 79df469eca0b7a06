import CapyAmqp.Dotenv.Scanner

/-!
# Refinement — the parser follows the automaton

One rule for each function of the parser: where the automaton is before it and after it, and that a
failure is a place where the automaton is stuck.  The assignment of a line is the automaton's until
`insert_to_map`, and from then on the parser's map is ahead of the automaton's (`Scan.settle`).
-/

namespace CapyAmqp

namespace Dotenv

open Lib

namespace Parser

/-! ## Parser and automaton side by side -/

/-- The same place, with the binding `b`. -/
structure Aligned (b : Option Binding) (s : Parser) (t : Scan) : Prop where
  row : s.rowCount = t.row
  col : s.colCount = t.col
  bond : s.bond = b.isSome
  binded : s.binded = b

/-- What an exception says about the place where it is thrown. -/
def Fails (f : Exception × Parser) (t : Scan) (v : List Char) : Prop :=
  f.1 = .syntaxError t.message ∧ f.2.map = t.settle ∧ Scan.Stuck t v

abbrev Follows := Descent.Follows input Scan.step Fails

variable {n : Nat} {P Q : Parser → Scan → Prop} {p : Char → Bool} {b : Option Binding} {s : Parser}
  {t : Scan} {c : Char} {v : List Char}

theorem tokenIs_cons (h : s.input = c :: v) : tokenIs p s = p c := by
  simp [tokenIs, h]

/-- The token, when there is one of the kind. -/
theorem exists_token (h : tokenIs p s = true) : ∃ c v, s.input = c :: v ∧ p c = true := by
  unfold tokenIs at h
  cases hinput : s.input with
  | nil =>
      rw [hinput] at h
      cases h
  | cons c v =>
      rw [hinput] at h
      exact ⟨c, v, rfl, h⟩

/-! ## The rules of reading -/

/-- The parser behind its token, which has gone to the string that is bound. -/
def moved (b : Option Binding) (s : Parser) : Parser :=
  match b with
  | none => s.advance
  | some target => (s.append target).advance

@[simp] theorem input_moved (b : Option Binding) (s : Parser) : (s.moved b).input = s.input.tail := by
  cases b with
  | none => rfl
  | some target => cases target <;> rfl

@[simp] theorem map_moved (b : Option Binding) (s : Parser) : (s.moved b).map = s.map := by
  cases b with
  | none => rfl
  | some target => cases target <;> rfl

theorem key_moved (b : Option Binding) (h : s.input = c :: v) :
    (s.moved b).key = if b = some .key then s.key.push c else s.key := by
  cases b with
  | none => rfl
  | some target => cases target <;> simp [moved, advance, append, token, h]

theorem value_moved (b : Option Binding) (h : s.input = c :: v) :
    (s.moved b).value = if b = some .value then s.value.push c else s.value := by
  cases b with
  | none => rfl
  | some target => cases target <;> simp [moved, advance, append, token, h]

theorem next_eq (h : Aligned b s t) : next s = .ok (s.moved b) := by
  unfold next
  rw [h.bond, h.binded]
  cases b <;> rfl

/-- The automaton has taken the token as well, to some place in the same line. -/
theorem Aligned.moved {t' : Scan} (h : Aligned b s t) (hrow : t'.row = t.row)
    (hcol : t'.col = t.col + 1) : Aligned b (s.moved b) t' := by
  refine ⟨?_, ?_, ?_, ?_⟩
  · rw [hrow, ← h.row]
    cases b with
    | none => rfl
    | some target => cases target <;> rfl
  · rw [hcol, ← h.col]
    cases b with
    | none => rfl
    | some target => cases target <;> rfl
  · rw [← h.bond]
    cases b with
    | none => rfl
    | some target => cases target <;> rfl
  · refine Eq.trans ?_ h.binded
    cases b with
    | none => rfl
    | some target => cases target <;> rfl

theorem Aligned.goto (h : Aligned b s t) (phase : Phase) :
    Aligned b (s.moved b) (t.goto phase) :=
  h.moved rfl rfl

theorem Aligned.leave (h : Aligned b s t) (phase : Phase) :
    Aligned b (s.moved b) (t.leave phase) :=
  h.moved rfl rfl

/-- `next`, where there is a token. -/
theorem follows_next (b : Option Binding)
    (hP : ∀ s t, P s t → Aligned b s t ∧ ∃ c v, s.input = c :: v)
    (h : ∀ s t c v, P s t → s.input = c :: v → ∃ t', t.step c = some t' ∧ Q (s.moved b) t') :
    Follows 1 P next Q := by
  intro s t hs
  rcases hP s t hs with ⟨hb, c, v, hinput⟩
  rcases h s t c v hs hinput with ⟨t', hstep, ht'⟩
  refine Or.inl ⟨s.moved b, [c], t', next_eq hb, Nat.le_refl 1, by simp [hinput], ?_, ht'⟩
  rw [Automaton.readAll_cons hstep]
  rfl

/-- A syntax error, where the automaton is stuck. -/
theorem follows_syntaxErr
    (h : ∀ s t, P s t → Aligned none s t ∧ s.map = t.settle ∧ Scan.Stuck t s.input) :
    Follows n P syntaxErr Q := by
  intro s t hs
  rcases h s t hs with ⟨hb, hmap, hstuck⟩
  refine Or.inr ⟨_, [], s.input, t, rfl, rfl, rfl, ?_, hmap, hstuck⟩
  rw [hb.row, hb.col]
  rfl

/-- `match`, where the token is known to be of the kind. -/
theorem follows_matchToken_of (b : Option Binding)
    (hP : ∀ s t, P s t → Aligned b s t ∧ tokenIs p s = true)
    (h : ∀ s t c v, P s t → s.input = c :: v → p c = true →
      ∃ t', t.step c = some t' ∧ Q (s.moved b) t') :
    Follows 1 P (matchToken p) Q := by
  refine Descent.follows_choose ?_ ?_
  · refine follows_next b (fun s t hs => ?_) fun s t c v hs hinput => ?_
    · rcases exists_token hs.2 with ⟨c, v, hinput, _⟩
      exact ⟨(hP s t hs.1).1, c, v, hinput⟩
    · rw [tokenIs_cons hinput] at hs
      exact h s t c v hs.1 hinput hs.2
  · intro s t hs
    rw [(hP s t hs.1).2] at hs
    cases hs.2

/-- `match`, where the automaton is stuck at all other tokens. -/
theorem follows_matchToken (hP : ∀ s t, P s t → Aligned none s t)
    (h : ∀ s t c v, P s t → s.input = c :: v → p c = true →
      ∃ t', t.step c = some t' ∧ Q (s.moved none) t')
    (hstuck : ∀ s t, P s t → tokenIs p s = false → s.map = t.settle ∧ Scan.Stuck t s.input) :
    Follows 1 P (matchToken p) Q := by
  refine Descent.follows_choose ?_ ?_
  · refine follows_next none (fun s t hs => ?_) fun s t c v hs hinput => ?_
    · rcases exists_token hs.2 with ⟨c, v, hinput, _⟩
      exact ⟨hP s t hs.1, c, v, hinput⟩
    · rw [tokenIs_cons hinput] at hs
      exact h s t c v hs.1 hinput hs.2
  · exact follows_syntaxErr fun s t hs => ⟨hP s t hs.1, hstuck s t hs.1 hs.2⟩

/-- `while (token_is(c)) match(c)`. -/
theorem follows_matchAll (b : Option Binding) (hP : ∀ s t, P s t → Aligned b s t)
    (h : ∀ s t c v, P s t → s.input = c :: v → p c = true →
      ∃ t', t.step c = some t' ∧ P (s.moved b) t') :
    Follows 0 P (matchAll p) fun s t => P s t ∧ tokenIs p s = false :=
  Descent.follows_loop (follows_matchToken_of b (fun s t hs => ⟨hP s t hs.1, hs.2⟩)
    fun s t c v hs => h s t c v hs.1)

/-! ## The key -/

/-- A key is being read. -/
def InKey (s : Parser) (t : Scan) : Prop :=
  Aligned (some .key) s t ∧ s.map = t.map ∧ t.phase = .key s.key ∧ s.key ≠ ""

/-- The same, or none of it has been seen yet. -/
def AtKey (s : Parser) (t : Scan) : Prop :=
  InKey s t ∨ (Aligned (some .key) s t ∧ s.map = t.map ∧ t.phase = .start ∧ s.key = "")

theorem AtKey.aligned (h : AtKey s t) : Aligned (some .key) s t := by
  rcases h with h | h <;> exact h.1

theorem AtKey.step (h : AtKey s t) (hinput : s.input = c :: v) (hc : isKey c = true) :
    ∃ t', t.step c = some t' ∧ InKey (s.moved (some .key)) t' := by
  have hspace : isSpace c = false := isSpace_of_isValue (isValue_of_isKey hc)
  have hkey : (s.moved (some .key)).key = s.key.push c := key_moved _ hinput
  have hmap : s.map = t.map := by
    rcases h with h | h <;> exact h.2.1
  have hne : s.key.push c ≠ "" := by
    intro h
    have hlength := congrArg String.length h
    simp at hlength
  refine ⟨t.goto (.key (s.key.push c)), ?_, h.aligned.goto _, ?_, ?_, ?_⟩
  · rcases h with ⟨_, _, hphase, _⟩ | ⟨_, _, hphase, hkey⟩
    · simp [Scan.step, hphase, hc]
    · simp [Scan.step, hphase, hspace, hc, hkey]
  · rw [map_moved]
    exact hmap
  · rw [hkey]
    rfl
  · rw [hkey]
    exact hne

theorem follows_keyPart :
    Follows 1 (fun s t => AtKey s t ∧ tokenIs isKey s = true) keyPart InKey := by
  -- the characters of a part without quotes, or a quote
  refine Descent.follows_choose ?_ ?_
  · have hfirst : Follows 1 (fun s t => (AtKey s t ∧ tokenIs isKey s = true) ∧
        tokenIs unquotedKeyChar.admits s = true) (matchToken unquotedKeyChar.admits) InKey := by
      refine follows_matchToken_of (some .key) (fun s t hs => ⟨hs.1.1.aligned, hs.2⟩) ?_
      intro s t c v hs hinput hc
      exact hs.1.1.step hinput (isKey_of_unquoted hc)
    have hothers : Follows 0 InKey (matchAll unquotedKeyChar.admits) InKey := by
      refine (follows_matchAll (some .key) (fun s t hs => hs.1) ?_).mono (Nat.le_refl 0)
        (fun _ _ h => h) fun _ _ h => h.1
      intro s t c v hs hinput hc
      exact AtKey.step (Or.inl hs) hinput (isKey_of_unquoted hc)
    exact Descent.follows_seq hfirst hothers
  · refine follows_next (some .key) (fun s t hs => ?_) fun s t c v hs hinput => ?_
    · rcases exists_token hs.1.2 with ⟨c, v, hinput, _⟩
      exact ⟨hs.1.1.aligned, c, v, hinput⟩
    · have htoken := hs.1.2
      rw [tokenIs_cons hinput] at htoken
      exact hs.1.1.step hinput htoken

/-- Nothing of the line has been read but spaces. -/
def AtStart (s : Parser) (t : Scan) : Prop :=
  Aligned none s t ∧ s.map = t.map ∧ t.phase = .start

/-- A key has been read, and possibly spaces behind it. -/
def KeyRead (s : Parser) (t : Scan) : Prop :=
  Aligned none s t ∧ s.map = t.map ∧ s.key ≠ "" ∧
    ((t.phase = .key s.key ∧ tokenIs isKey s = false) ∨ t.phase = .separator s.key)

theorem follows_readKey :
    Follows 1 (fun s t => AtStart s t ∧ tokenIs isKey s = true) readKey KeyRead := by
  have hbind : Follows 0 (fun s t => AtStart s t ∧ tokenIs isKey s = true) (bind .key)
      fun s t => AtKey s t ∧ tokenIs isKey s = true := by
    refine Descent.follows_silent (fun s => { s with key := "", binded := some .key, bond := true })
      (fun s t _ => ⟨rfl, rfl⟩) fun s t hs => ⟨Or.inr ⟨?_, hs.1.2.1, hs.1.2.2, rfl⟩, hs.2⟩
    exact ⟨hs.1.1.row, hs.1.1.col, rfl, rfl⟩
  have hparts : Follows 0 InKey (.loop input (tokenIs keyChar.admits) keyPart)
      fun s t => InKey s t ∧ tokenIs isKey s = false := by
    rw [keyChar_admits]
    exact Descent.follows_loop (follows_keyPart.mono (Nat.le_refl 1)
      (fun s t hs => ⟨Or.inl hs.1, hs.2⟩) fun _ _ h => h)
  have hunbind : Follows 0 (fun s t => InKey s t ∧ tokenIs isKey s = false) unbind KeyRead := by
    refine Descent.follows_silent (fun s => { s with binded := none, bond := false })
      (fun s t _ => ⟨rfl, rfl⟩) fun s t hs => ?_
    rcases hs with ⟨⟨haligned, hmap, hphase, hne⟩, htoken⟩
    exact ⟨⟨haligned.row, haligned.col, rfl, rfl⟩, hmap, hne, Or.inl ⟨hphase, htoken⟩⟩
  exact Descent.follows_seq hbind
    (Descent.follows_seq follows_keyPart (Descent.follows_seq hparts hunbind))

/-! ## The equality sign -/

theorem KeyRead.step_space (h : KeyRead s t) (hinput : s.input = c :: v) (hc : isSpace c = true) :
    ∃ t', t.step c = some t' ∧ KeyRead (s.moved none) t' := by
  rcases h with ⟨haligned, hmap, hne, hphase⟩
  refine ⟨t.goto (.separator s.key), ?_, haligned.goto _, hmap, hne, Or.inr rfl⟩
  rcases hphase with ⟨hphase, hkey⟩ | hphase
  · rw [tokenIs_cons hinput] at hkey
    simp [Scan.step, hphase, hkey, hc]
  · simp [Scan.step, hphase, hc]

/-- Between the equality sign and the value. -/
def InGap (s : Parser) (t : Scan) : Prop :=
  Aligned none s t ∧ s.map = t.map ∧ s.key ≠ "" ∧ t.phase = .gap s.key

theorem KeyRead.step_eq (h : KeyRead s t) :
    ∃ t', t.step '=' = some t' ∧ InGap (s.moved none) t' := by
  rcases h with ⟨haligned, hmap, hne, hphase⟩
  refine ⟨t.goto (.gap s.key), ?_, haligned.goto _, hmap, hne, rfl⟩
  rcases hphase with ⟨hphase, _⟩ | hphase <;> simp [Scan.step, hphase, isKey, isSpace]

/-- Anything but spaces and the equality sign is an error. -/
theorem KeyRead.stuck (h : KeyRead s t) (hspace : tokenIs isSpace s = false)
    (heq : tokenIs (· == eqC) s = false) : s.map = t.settle ∧ Scan.Stuck t s.input := by
  rcases h with ⟨_, hmap, _, hphase⟩
  have hentry : t.phase.entry = none := by
    rcases hphase with ⟨hphase, _⟩ | hphase <;> simp [hphase, Phase.entry]
  refine ⟨hmap.trans (Scan.settle_of_entry_none hentry).symm, ?_⟩
  cases hinput : s.input with
  | nil =>
      rcases hphase with ⟨hphase, _⟩ | hphase <;>
        simp [Automaton.Stuck, Scan.accepting, hphase, Phase.complete]
  | cons c v =>
      rw [tokenIs_cons hinput] at hspace heq
      have hne : (c == '=') = false := heq
      rcases hphase with ⟨hphase, hkey⟩ | hphase
      · rw [tokenIs_cons hinput] at hkey
        simp [Automaton.Stuck, Scan.step, hphase, hkey, hspace, hne]
      · simp [Automaton.Stuck, Scan.step, hphase, hspace, hne]

theorem follows_spaces {I : Parser → Scan → Prop} (hI : ∀ s t, I s t → Aligned none s t)
    (h : ∀ s t c v, I s t → s.input = c :: v → isSpace c = true →
      ∃ t', t.step c = some t' ∧ I (s.moved none) t') :
    Follows 0 I (matchAll sp.admits) fun s t => I s t ∧ tokenIs isSpace s = false := by
  rw [sp_admits]
  exact follows_matchAll none hI h

theorem follows_eq :
    Follows 1 (fun s t => KeyRead s t ∧ tokenIs isSpace s = false) (matchToken (· == eqC))
      InGap := by
  refine follows_matchToken (fun s t hs => hs.1.1) ?_ fun s t hs heq => hs.1.stuck hs.2 heq
  intro s t c v hs hinput hc
  have hceq : c = '=' := by
    simpa [eqC] using hc
  subst hceq
  exact hs.1.step_eq

/-! ## The value -/

/-- A value is being read; none of it may have been seen. -/
def InValue (s : Parser) (t : Scan) : Prop :=
  Aligned (some .value) s t ∧ s.map = t.map ∧ s.key ≠ "" ∧
    ((t.phase = .gap s.key ∧ s.value = "" ∧ tokenIs isSpace s = false) ∨
      t.phase = .value s.key s.value)

theorem InValue.step (h : InValue s t) (hinput : s.input = c :: v) (hc : isValue c = true) :
    ∃ t', t.step c = some t' ∧ InValue (s.moved (some .value)) t' := by
  rcases h with ⟨haligned, hmap, hne, hphase⟩
  have hspace : isSpace c = false := isSpace_of_isValue hc
  have hkey : (s.moved (some .value)).key = s.key := key_moved _ hinput
  have hvalue : (s.moved (some .value)).value = s.value.push c := value_moved _ hinput
  refine ⟨t.goto (.value s.key (s.value.push c)), ?_, haligned.goto _, hmap, ?_, Or.inr ?_⟩
  · rcases hphase with ⟨hphase, hvalue, _⟩ | hphase
    · simp [Scan.step, hphase, hspace, hc, hvalue]
    · simp [Scan.step, hphase, hc]
  · rw [hkey]
    exact hne
  · rw [hkey, hvalue]
    rfl

/-- A value has been read, and possibly spaces behind it. -/
def ValueRead (s : Parser) (t : Scan) : Prop :=
  Aligned none s t ∧ s.map = t.map ∧ s.key ≠ "" ∧
    ((t.phase = .gap s.key ∧ s.value = "" ∧ tokenIs isSpace s = false ∧
        tokenIs isValue s = false) ∨
      (t.phase = .value s.key s.value ∧ tokenIs isValue s = false) ∨
      t.phase = .tail s.key s.value)

theorem follows_readValue :
    Follows 0 (fun s t => InGap s t ∧ tokenIs isSpace s = false) readValue ValueRead := by
  have hbind : Follows 0 (fun s t => InGap s t ∧ tokenIs isSpace s = false) (bind .value)
      InValue := by
    refine Descent.follows_silent
      (fun s => { s with value := "", binded := some .value, bond := true })
      (fun s t _ => ⟨rfl, rfl⟩) fun s t hs => ?_
    rcases hs with ⟨⟨haligned, hmap, hne, hphase⟩, hspace⟩
    exact ⟨⟨haligned.row, haligned.col, rfl, rfl⟩, hmap, hne, Or.inl ⟨hphase, rfl, hspace⟩⟩
  have hpart : Follows 1 (fun s t => InValue s t ∧ tokenIs isValue s = true)
      (.choose (tokenIs unquotedValueChar.admits) unquotedValue string) InValue := by
    refine Descent.follows_choose ?_ ?_
    · refine Descent.follows_seq (m := 1) (n := 0) (Q := InValue) ?_ ?_
      · refine follows_matchToken_of (some .value) (fun s t hs => ⟨hs.1.1.1, hs.2⟩) ?_
        intro s t c v hs hinput hc
        exact hs.1.1.step hinput (isValue_of_unquoted hc)
      · refine (follows_matchAll (some .value) (fun s t hs => hs.1) ?_).mono (Nat.le_refl 0)
          (fun _ _ h => h) fun _ _ h => h.1
        intro s t c v hs hinput hc
        exact hs.step hinput (isValue_of_unquoted hc)
    · refine follows_next (some .value) (fun s t hs => ?_) fun s t c v hs hinput => ?_
      · rcases exists_token hs.1.2 with ⟨c, v, hinput, _⟩
        exact ⟨hs.1.1.1, c, v, hinput⟩
      · have htoken := hs.1.2
        rw [tokenIs_cons hinput] at htoken
        exact hs.1.1.step hinput htoken
  have hunbind : Follows 0 (fun s t => InValue s t ∧ tokenIs isValue s = false) unbind
      ValueRead := by
    refine Descent.follows_silent (fun s => { s with binded := none, bond := false })
      (fun s t _ => ⟨rfl, rfl⟩) fun s t hs => ?_
    rcases hs with ⟨⟨haligned, hmap, hne, hphase⟩, htoken⟩
    refine ⟨⟨haligned.row, haligned.col, rfl, rfl⟩, hmap, hne, ?_⟩
    rcases hphase with ⟨hphase, hvalue, hspace⟩ | hphase
    · exact Or.inl ⟨hphase, hvalue, hspace, htoken⟩
    · exact Or.inr (Or.inl ⟨hphase, htoken⟩)
  have hparts := Descent.follows_loop hpart
  rw [← valueChar_admits] at hparts hunbind
  exact Descent.follows_seq hbind (Descent.follows_seq hparts hunbind)

theorem ValueRead.step_space (h : ValueRead s t) (hinput : s.input = c :: v)
    (hc : isSpace c = true) : ∃ t', t.step c = some t' ∧ ValueRead (s.moved none) t' := by
  rcases h with ⟨haligned, hmap, hne, hphase⟩
  refine ⟨t.goto (.tail s.key s.value), ?_, haligned.goto _, hmap, hne, Or.inr (Or.inr rfl)⟩
  rcases hphase with ⟨_, _, hspace, _⟩ | ⟨hphase, hvalue⟩ | hphase
  · -- the spaces before a value have been read already
    rw [tokenIs_cons hinput, hc] at hspace
    cases hspace
  · rw [tokenIs_cons hinput] at hvalue
    simp [Scan.step, hphase, hvalue, hc]
  · simp [Scan.step, hphase, hc]

/-- The content of a line has been read up to a comment or the line's end: anything else is an error,
and the assignment is in the parser's map already. -/
def LineEnd (s : Parser) (t : Scan) : Prop :=
  Aligned none s t ∧ s.map = t.settle ∧ t.accepting = true ∧
    ∀ c v, s.input = c :: v → t.step c = t.ends c

theorem follows_insertToMap :
    Follows 0 (fun s t => ValueRead s t ∧ tokenIs isSpace s = false) insertToMap LineEnd := by
  refine Descent.follows_silent
    (fun s => { s with map := SortedMap.emplace s.key s.value s.map }) ?_ ?_
  · rintro s t ⟨⟨haligned, _, hne, _⟩, _⟩
    simp [insertToMap, haligned.bond, haligned.binded, hne]
  · rintro s t ⟨⟨haligned, hmap, hne, hphase⟩, hspace⟩
    refine ⟨⟨haligned.row, haligned.col, haligned.bond, haligned.binded⟩, ?_, ?_, ?_⟩
    · rcases hphase with ⟨hphase, hvalue, _⟩ | ⟨hphase, _⟩ | hphase
      · simp [Scan.settle, hphase, Phase.entry, hmap, hvalue]
      · simp [Scan.settle, hphase, Phase.entry, hmap]
      · simp [Scan.settle, hphase, Phase.entry, hmap]
    · rcases hphase with ⟨hphase, _⟩ | ⟨hphase, _⟩ | hphase <;>
        simp [Scan.accepting, hphase, Phase.complete]
    · intro c v hinput
      have hinput : s.input = c :: v := hinput
      rw [tokenIs_cons hinput] at hspace
      rcases hphase with ⟨hphase, _, _, hvalue⟩ | ⟨hphase, hvalue⟩ | hphase
      · rw [tokenIs_cons hinput] at hvalue
        simp [Scan.step, hphase, hspace, hvalue]
      · rw [tokenIs_cons hinput] at hvalue
        simp [Scan.step, hphase, hspace, hvalue]
      · simp [Scan.step, hphase, hspace]

theorem follows_assignment :
    Follows 1 (fun s t => AtStart s t ∧ tokenIs isKey s = true) assignment LineEnd := by
  have hbefore := follows_spaces (fun s t (hs : KeyRead s t) => hs.1) fun s t c v hs hinput hc =>
    hs.step_space hinput hc
  have hgap : Follows 0 InGap (matchAll sp.admits)
      fun s t => InGap s t ∧ tokenIs isSpace s = false := by
    refine follows_spaces (fun s t hs => hs.1) fun s t c v hs _ hc => ?_
    rcases hs with ⟨haligned, hmap, hne, hphase⟩
    exact ⟨t.goto (.gap s.key), by simp [Scan.step, hphase, hc], haligned.goto _, hmap, hne, rfl⟩
  have hbehind := follows_spaces (fun s t (hs : ValueRead s t) => hs.1) fun s t c v hs hinput hc =>
    hs.step_space hinput hc
  exact (Descent.follows_seq follows_readKey
    (Descent.follows_seq hbefore
      (Descent.follows_seq follows_eq
        (Descent.follows_seq hgap
          (Descent.follows_seq follows_readValue
            (Descent.follows_seq hbehind follows_insertToMap)))))).mono (by decide)
              (fun _ _ h => h) fun _ _ h => h

/-! ## Comments and line ends -/

/-- `#` has been read, and nothing of the comment. -/
def InHash (s : Parser) (t : Scan) : Prop :=
  Aligned none s t ∧ s.map = t.map ∧ t.phase = .hash

def InComment (s : Parser) (t : Scan) : Prop :=
  Aligned none s t ∧ s.map = t.map ∧ t.phase = .comment

theorem follows_comment :
    Follows 1 (fun s t => LineEnd s t ∧ tokenIs (· == csC) s = true) comment
      fun s t => LineEnd s t ∧ tokenIs (· == csC) s = false := by
  have hhash : Follows 1 (fun s t => LineEnd s t ∧ tokenIs (· == csC) s = true)
      (matchToken (· == csC)) InHash := by
    refine follows_matchToken_of none (fun s t hs => ⟨hs.1.1, hs.2⟩) ?_
    intro s t c v hs hinput hc
    have hccs : c = '#' := by
      simpa [csC] using hc
    subst hccs
    rcases hs.1 with ⟨haligned, hmap, _, hstep⟩
    exact ⟨t.leave .hash, by simp [hstep _ _ hinput, Scan.ends], haligned.leave _, hmap, rfl⟩
  have hfirst : Follows 1 InHash (matchToken unquotedCommentChar.admits) InComment := by
    rw [unquotedCommentChar_admits]
    refine follows_matchToken (fun s t hs => hs.1) ?_ ?_
    · rintro s t c v ⟨haligned, hmap, hphase⟩ hinput hc
      have hnewline : isNewline c = false := by
        simpa using hc
      exact ⟨t.goto .comment, by simp [Scan.step, hphase, hnewline], haligned.goto _, hmap, rfl⟩
    · rintro s t ⟨haligned, hmap, hphase⟩ htoken
      refine ⟨hmap.trans (Scan.settle_of_entry_none (by simp [hphase, Phase.entry])).symm, ?_⟩
      cases hinput : s.input with
      | nil => simp [Automaton.Stuck, Scan.accepting, hphase, Phase.complete]
      | cons c v =>
          rw [tokenIs_cons hinput] at htoken
          have hnewline : isNewline c = true := by
            simpa using htoken
          simp [Automaton.Stuck, Scan.step, hphase, hnewline]
  have hothers : Follows 0 InComment (matchAll unquotedCommentChar.admits)
      fun s t => InComment s t ∧ tokenIs (fun c => !isNewline c) s = false := by
    rw [unquotedCommentChar_admits]
    refine follows_matchAll none (fun s t hs => hs.1) ?_
    rintro s t c v ⟨haligned, hmap, hphase⟩ hinput hc
    have hnewline : isNewline c = false := by
      simpa using hc
    exact ⟨t.goto .comment, by simp [Scan.step, hphase, hnewline], haligned.goto _, hmap, rfl⟩
  have hcomment := Descent.follows_seq hhash (Descent.follows_seq hfirst hothers)
  refine hcomment.mono (by decide) (fun _ _ h => h) ?_
  -- behind a comment there is the end of the line
  rintro s t ⟨⟨haligned, hmap, hphase⟩, htoken⟩
  refine ⟨⟨haligned, ?_, by simp [Scan.accepting, hphase, Phase.complete], ?_⟩, ?_⟩
  · exact hmap.trans (Scan.settle_of_entry_none (by simp [hphase, Phase.entry])).symm
  · intro c v hinput
    rw [tokenIs_cons hinput] at htoken
    have hnewline : isNewline c = true := by
      simpa using htoken
    simp [Scan.step, hphase, hnewline]
  · cases hinput : s.input with
    | nil => simp [tokenIs, hinput]
    | cons c v =>
        rw [tokenIs_cons hinput] at htoken ⊢
        have hnewline : isNewline c = true := by
          simpa using htoken
        simp only [isNewline, Bool.or_eq_true, beq_iff_eq] at hnewline
        rcases hnewline with rfl | rfl <;> rfl

/-- A line is about to begin: the automaton has counted it. -/
def AtLine (s : Parser) (t : Scan) : Prop :=
  s.rowCount + 1 = t.row ∧ t.col = 1 ∧ s.bond = false ∧ s.binded = none ∧ s.map = t.map ∧
    t.phase = .start

/-- A line has been read, and what comes now is a line end or an error. -/
def LineDone (s : Parser) (t : Scan) : Prop :=
  LineEnd s t ∧ tokenIs (· == csC) s = false

theorem follows_lineContent : Follows 0 AtLine lineContent LineDone := by
  have hstart : Follows 0 AtLine startLine AtStart := by
    refine Descent.follows_silent (fun s => { s with rowCount := s.rowCount + 1, colCount := 1 })
      (fun s t _ => ⟨rfl, rfl⟩) fun s t hs => ?_
    rcases hs with ⟨hrow, hcol, hbond, hbinded, hmap, hphase⟩
    exact ⟨⟨hrow, hcol.symm, hbond, hbinded⟩, hmap, hphase⟩
  have hspaces : Follows 0 AtStart (matchAll sp.admits)
      fun s t => AtStart s t ∧ tokenIs isSpace s = false := by
    refine follows_spaces (fun s t hs => hs.1) ?_
    rintro s t c v ⟨haligned, hmap, hphase⟩ hinput hc
    exact ⟨t.goto .start, by simp [Scan.step, hphase, hc], haligned.goto _, hmap, rfl⟩
  have hentry : Follows 0 (fun s t => AtStart s t ∧ tokenIs isSpace s = false)
      (.choose (tokenIs keyChar.admits) assignment .skip) LineEnd := by
    rw [keyChar_admits]
    refine Descent.follows_choose ?_ ?_
    · exact follows_assignment.mono (Nat.zero_le 1) (fun s t hs => ⟨hs.1.1, hs.2⟩) fun _ _ h => h
    · -- without a key the line is empty, up to a comment
      refine Descent.follows_skip.mono (Nat.le_refl 0) (fun _ _ h => h) ?_
      rintro s t ⟨⟨⟨haligned, hmap, hphase⟩, hspace⟩, hkey⟩
      refine ⟨haligned, ?_, by simp [Scan.accepting, hphase, Phase.complete], ?_⟩
      · exact hmap.trans (Scan.settle_of_entry_none (by simp [hphase, Phase.entry])).symm
      · intro c v hinput
        rw [tokenIs_cons hinput] at hspace hkey
        simp [Scan.step, hphase, hspace, hkey]
  have hcomment : Follows 0 LineEnd (.choose (tokenIs (· == csC)) comment .skip) LineDone := by
    refine Descent.follows_choose ?_ ?_
    · exact follows_comment.mono (Nat.zero_le 1) (fun _ _ h => h) fun _ _ h => h
    · exact Descent.follows_skip
  exact Descent.follows_seq hstart (Descent.follows_seq hspaces
    (Descent.follows_seq hentry hcomment))

/-- A carriage return has been read, or there is none. -/
def AtNl (s : Parser) (t : Scan) : Prop :=
  Aligned none s t ∧ s.map = t.settle ∧
    (t.phase = .cr ∨ tokenIs (· == nlC) s = true ∧ ∀ c v, s.input = c :: v → t.step c = t.ends c)

theorem follows_nl :
    Follows 1 (fun s t => LineDone s t ∧ (tokenIs (· == nlC) s || tokenIs (· == crC) s) = true)
      nl AtLine := by
  have hreturn : Follows 0
      (fun s t => LineDone s t ∧ (tokenIs (· == nlC) s || tokenIs (· == crC) s) = true)
      (.choose (tokenIs (· == crC)) (matchToken (· == crC)) .skip) AtNl := by
    refine Descent.follows_choose ?_ ?_
    · have hmatch := follows_matchToken_of (p := (· == crC)) (Q := AtNl) none
        (fun s t (hs : LineDone s t ∧ tokenIs (· == crC) s = true) => ⟨hs.1.1.1, hs.2⟩) ?_
      · exact hmatch.mono (Nat.zero_le 1) (fun s t hs => ⟨hs.1.1, hs.2⟩) fun _ _ h => h
      · intro s t c v hs hinput hc
        have hcr : c = '\r' := by
          simpa [crC] using hc
        subst hcr
        rcases hs.1.1 with ⟨haligned, hmap, _, hstep⟩
        refine ⟨t.leave .cr, by simp [hstep _ _ hinput, Scan.ends], haligned.leave _, ?_, Or.inl rfl⟩
        rw [map_moved, Scan.settle_of_entry_none rfl]
        exact hmap
    · refine Descent.follows_skip.mono (Nat.le_refl 0) (fun _ _ h => h) ?_
      rintro s t ⟨⟨⟨⟨haligned, hmap, _, hstep⟩, _⟩, htoken⟩, hcr⟩
      rw [hcr, Bool.or_false] at htoken
      exact ⟨haligned, hmap, Or.inr ⟨htoken, hstep⟩⟩
  have hline : Follows 1 AtNl (matchToken (· == nlC)) AtLine := by
    refine follows_matchToken (fun s t hs => hs.1) ?_ ?_
    · rintro s t c v ⟨haligned, hmap, hphase⟩ hinput hc
      have hnl : c = '\n' := by
        simpa [nlC] using hc
      subst hnl
      have hmoved := haligned.goto .start
      have hstep : t.step '\n' = some t.newLine := by
        rcases hphase with hphase | ⟨_, hstep⟩
        · simp [Scan.step, hphase]
        · simp [hstep _ _ hinput, Scan.ends]
      refine ⟨t.newLine, hstep, ?_, rfl, hmoved.bond, hmoved.binded, hmap, rfl⟩
      rw [hmoved.row]
      rfl
    · rintro s t ⟨haligned, hmap, hphase⟩ htoken
      refine ⟨hmap, ?_⟩
      rcases hphase with hphase | ⟨hnl, _⟩
      · cases hinput : s.input with
        | nil => simp [Automaton.Stuck, Scan.accepting, hphase, Phase.complete]
        | cons c v =>
            rw [tokenIs_cons hinput] at htoken
            have hne : (c == '\n') = false := htoken
            simp [Automaton.Stuck, Scan.step, hphase, hne]
      · rw [hnl] at htoken
        cases htoken
  exact (Descent.follows_seq hreturn hline).mono (by decide) (fun _ _ h => h) fun _ _ h => h

/-! ## The file -/

/-- The file has been read to its end. -/
def Done (s : Parser) (t : Scan) : Prop :=
  s.input = [] ∧ s.map = t.settle ∧ t.accepting = true

theorem follows_env (map : Env) :
    Follows 0 (fun s t => s.bond = false ∧ s.binded = none ∧ s.map = map ∧ t = Scan.start map) env
      Done := by
  have hinit : Follows 0
      (fun s t => s.bond = false ∧ s.binded = none ∧ s.map = map ∧ t = Scan.start map) init
      AtLine := by
    refine Descent.follows_silent (fun s => { s with rowCount := 0, colCount := 1 })
      (fun s t _ => ⟨rfl, rfl⟩) ?_
    rintro s t ⟨hbond, hbinded, hmap, rfl⟩
    exact ⟨rfl, rfl, hbond, hbinded, hmap, rfl⟩
  have hlines : Follows 0 LineDone
      (.loop input (fun s => tokenIs (· == nlC) s || tokenIs (· == crC) s) (.seq nl lineContent))
      fun s t => LineDone s t ∧ (tokenIs (· == nlC) s || tokenIs (· == crC) s) = false :=
    Descent.follows_loop (Descent.follows_seq follows_nl follows_lineContent)
  have heof : Follows 0
      (fun s t => LineDone s t ∧ (tokenIs (· == nlC) s || tokenIs (· == crC) s) = false) eof
      Done := by
    refine Descent.follows_choose ?_ ?_
    · refine Descent.follows_skip.mono (Nat.le_refl 0) (fun _ _ h => h) ?_
      rintro s t ⟨⟨⟨⟨_, hmap, haccepting, _⟩, _⟩, _⟩, hempty⟩
      exact ⟨List.isEmpty_iff.1 hempty, hmap, haccepting⟩
    · refine follows_syntaxErr ?_
      rintro s t ⟨⟨⟨⟨haligned, hmap, _, hstep⟩, hcs⟩, hnewline⟩, hempty⟩
      refine ⟨haligned, hmap, ?_⟩
      cases hinput : s.input with
      | nil =>
          rw [hinput] at hempty
          cases hempty
      | cons c v =>
          -- neither a comment nor a line end
          rw [tokenIs_cons hinput] at hcs
          rw [tokenIs_cons hinput, tokenIs_cons hinput] at hnewline
          simp only [csC, nlC, crC, Bool.or_eq_false_iff] at hcs hnewline
          simp [Automaton.Stuck, hstep c v hinput, Scan.ends, hcs, hnewline.1, hnewline.2]
  exact Descent.follows_seq hinit (Descent.follows_seq follows_lineContent
    (Descent.follows_seq hlines heof))

end Parser

/-- A file that the automaton reads to the end is parsed, and the maps agree. -/
theorem parse_eq (file : List Char) (map : Env) :
    (∃ t, Scan.readAll (.start map) file = some t ∧ t.accepting = true ∧
        parse file map = .ok t.settle) ∨
      ∃ w v t, file = w ++ v ∧ Scan.readAll (.start map) w = some t ∧ Scan.Stuck t v ∧
        parse file map = .error (.syntaxError t.message, t.settle) := by
  rcases Parser.follows_env map (.construct file map) (.start map) ⟨rfl, rfl, rfl, rfl⟩ with
    ⟨s, w, t, henv, _, hrest, hread, hempty, hmap, haccepting⟩ |
      ⟨f, w, v, t, henv, hrest, hread, hmessage, hmap, hstuck⟩
  · have hfile : file = w := by
      have hinput : file = w ++ s.input := hrest
      rw [hinput, hempty, List.append_nil]
    refine Or.inl ⟨t, hfile ▸ hread, haccepting, ?_⟩
    simp [parse, henv, hmap]
  · refine Or.inr ⟨w, v, t, hrest, hread, hstuck, ?_⟩
    simp [parse, henv, hmap, ← hmessage]

end Dotenv

end CapyAmqp
