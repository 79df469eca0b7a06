import CapyAmqp.Dotenv.Grammar
import Mathlib.Data.List.DropRight

/-!
# Diagnosis — where a file is rejected, and what is kept of it

A syntax error is reported at the first character behind which no file can go on, or at the end of a
file that is not complete (`parse_error_iff`).  The assignments that have been entered by then are
those of the longest beginning of the file that is a file itself.
-/

namespace CapyAmqp

namespace Dotenv

open Lib

/-! ## Errors in terms of the grammar -/

def IsFile (w : List Char) : Prop :=
  ∃ as, File w as

/-- The beginning of a file. -/
def Viable (w : List Char) : Prop :=
  ∃ v, IsFile (w ++ v)

/-- The file is in order up to `w`, and what follows is wrong. -/
def Breaks (w : List Char) : List Char → Prop
  | [] => Viable w ∧ ¬ IsFile w
  | c :: _ => Viable w ∧ ¬ Viable (w ++ [c])

/-- The longest beginning that is a file, with its assignments. -/
structure Intact (file w : List Char) (as : List (String × String)) : Prop where
  beginning : w <+: file
  isFile : File w as
  longest : ∀ w', w' <+: file → IsFile w' → w' <+: w

/-- The line behind `w`; lines are counted from one. -/
def rowAt (w : List Char) : UInt32 :=
  UInt32.ofNat (1 + w.count '\n')

/-- The column behind `w`. -/
def colAt (w : List Char) : UInt32 :=
  UInt32.ofNat (1 + (w.rtakeWhile (· != '\n')).length)

def errorAt (w : List Char) : String :=
  "Syntax error on line " ++ toString (rowAt w) ++ ":" ++ toString (colAt w)

namespace Scan

variable {t t' : Scan} {map : Env} {w : List Char} {c : Char}

/-! ## Positions -/

/-- What a step does: it starts a line, leaves an assignment behind, or goes on within the line. -/
inductive Effect (t : Scan) (c : Char) : Scan → Prop
  | line (hc : c = '\n') : Effect t c t.newLine
  | behind {phase : Phase} (hc : c ≠ '\n') (hentry : phase.entry = none) : Effect t c (t.leave phase)
  | within {phase : Phase} (hc : c ≠ '\n')
      (hopen : phase.complete = false → t.phase.entry = none ∧ phase.entry = none) :
      Effect t c (t.goto phase)

theorem effect_of_ends (h : t.ends c = some t') : Effect t c t' := by
  unfold ends at h
  split at h
  · rename_i hc
    cases h
    rw [beq_iff_eq.1 hc]
    exact .behind (by decide) rfl
  · split at h
    · rename_i hc
      cases h
      exact .line (beq_iff_eq.1 hc)
    · split at h
      · rename_i hc
        cases h
        rw [beq_iff_eq.1 hc]
        exact .behind (by decide) rfl
      · cases h

theorem effect_of_step (h : t.step c = some t') : Effect t c t' := by
  -- a character of a class that has no line end in it
  have hclass : ∀ {p : Char → Bool}, p '\n' = false → p c = true → c ≠ '\n' := by
    rintro p hp hc rfl
    rw [hp] at hc
    cases hc
  unfold step at h
  split at h
  case h_1 hphase =>
    split at h
    · rename_i hc
      cases h
      exact .within (hclass rfl hc) fun _ => ⟨by rw [hphase]; rfl, rfl⟩
    split at h
    · rename_i hc
      cases h
      exact .within (hclass rfl hc) fun _ => ⟨by rw [hphase]; rfl, rfl⟩
    · exact effect_of_ends h
  case h_2 key hphase =>
    split at h
    · rename_i hc
      cases h
      exact .within (hclass rfl hc) fun _ => ⟨by rw [hphase]; rfl, rfl⟩
    split at h
    · rename_i hc
      cases h
      exact .within (hclass rfl hc) fun _ => ⟨by rw [hphase]; rfl, rfl⟩
    split at h
    · rename_i hc
      cases h
      exact .within (hclass (p := (· == '=')) rfl hc) fun h => by cases h
    · cases h
  case h_3 key hphase =>
    split at h
    · rename_i hc
      cases h
      exact .within (hclass rfl hc) fun _ => ⟨by rw [hphase]; rfl, rfl⟩
    split at h
    · rename_i hc
      cases h
      exact .within (hclass (p := (· == '=')) rfl hc) fun h => by cases h
    · cases h
  case h_4 key hphase =>
    split at h
    · rename_i hc
      cases h
      exact .within (hclass rfl hc) fun h => by cases h
    split at h
    · rename_i hc
      cases h
      exact .within (hclass rfl hc) fun h => by cases h
    · exact effect_of_ends h
  case h_5 key value hphase =>
    split at h
    · rename_i hc
      cases h
      exact .within (hclass rfl hc) fun h => by cases h
    split at h
    · rename_i hc
      cases h
      exact .within (hclass rfl hc) fun h => by cases h
    · exact effect_of_ends h
  case h_6 key value hphase =>
    split at h
    · rename_i hc
      cases h
      exact .within (hclass rfl hc) fun h => by cases h
    · exact effect_of_ends h
  case h_7 hphase =>
    split at h
    · cases h
    · rename_i hc
      cases h
      exact .within (hclass (p := (!isNewline ·)) rfl (by simpa using hc)) fun h => by cases h
  case h_8 hphase =>
    split at h
    · exact effect_of_ends h
    · rename_i hc
      cases h
      exact .within (hclass (p := (!isNewline ·)) rfl (by simpa using hc)) fun h => by cases h
  case h_9 hphase =>
    split at h
    · rename_i hc
      cases h
      exact .line (beq_iff_eq.1 hc)
    · cases h

/-- A step that leaves the line incomplete adds nothing to what the map is going to be. -/
theorem settle_step (h : t.step c = some t') (haccepting : t'.accepting = false) :
    t'.settle = t.settle := by
  cases effect_of_step h with
  | line hc => cases haccepting
  | behind hc hentry => exact settle_of_entry_none hentry
  | within hc hopen =>
      rcases hopen haccepting with ⟨hentry, hentry'⟩
      exact (settle_of_entry_none hentry').trans (settle_of_entry_none hentry).symm

theorem position_step (h : t.step c = some t') (hposition : t.row = rowAt w ∧ t.col = colAt w) :
    t'.row = rowAt (w ++ [c]) ∧ t'.col = colAt (w ++ [c]) := by
  rcases hposition with ⟨hrow, hcol⟩
  have hgoes : c ≠ '\n' → t.row = rowAt (w ++ [c]) ∧ t.col + 1 = colAt (w ++ [c]) := by
    intro hc
    have hcount : List.count '\n' [c] = 0 := by
      simp [hc]
    constructor
    · rw [hrow, rowAt, rowAt, List.count_append, hcount, Nat.add_zero]
    · rw [hcol, colAt, colAt, List.rtakeWhile_concat]
      simp [hc, ← Nat.add_assoc]
  cases effect_of_step h with
  | line hc =>
      subst hc
      constructor
      · simp [newLine, rowAt, hrow, List.count_append, ← Nat.add_assoc]
      · simp [newLine, colAt]
  | behind hc hentry => exact hgoes hc
  | within hc hopen => exact hgoes hc

theorem position_of_read (h : readAll (start map) w = some t) :
    t.row = rowAt w ∧ t.col = colAt w := by
  induction w using List.reverseRecOn generalizing t with
  | nil =>
      cases h
      exact ⟨rfl, rfl⟩
  | append_singleton w c ih =>
      rcases Automaton.read_concat h with ⟨m, hread, hstep⟩
      exact position_step hstep (ih hread)

theorem message_of_read (h : readAll (start map) w = some t) : t.message = errorAt w := by
  rcases position_of_read h with ⟨hrow, hcol⟩
  unfold message errorAt
  rw [hrow, hcol]

/-! ## Acceptance -/

theorem accepts_iff (map : Env) : Automaton.Accepts step accepting (start map) w ↔ IsFile w := by
  constructor
  · rintro ⟨t, hread, haccepting⟩
    rcases file_of_read hread haccepting with ⟨as, hfile, _⟩
    exact ⟨as, hfile⟩
  · rintro ⟨as, hfile⟩
    rcases read_file hfile map with ⟨t, hread, haccepting, _⟩
    exact ⟨t, hread, haccepting⟩

/-- Every line that has been begun can be completed. -/
theorem completable (t : Scan) : ∃ v, Automaton.Accepts step accepting t v := by
  have hone : ∀ (c : Char) (t' : Scan), t.step c = some t' → t'.accepting = true →
      ∃ v, Automaton.Accepts step accepting t v := by
    intro c t' hstep haccepting
    exact ⟨[c], t', Automaton.readAll_cons hstep, haccepting⟩
  cases hphase : t.phase with
  | key key => exact hone '=' (t.goto (.gap key)) (by simp [step, hphase, isKey, isSpace]) rfl
  | separator key => exact hone '=' (t.goto (.gap key)) (by simp [step, hphase, isSpace]) rfl
  | hash => exact hone 'x' (t.goto .comment) (by simp [step, hphase, isNewline]) rfl
  | cr => exact hone '\n' t.newLine (by simp [step, hphase]) rfl
  | _ => exact ⟨[], t, rfl, by simp [accepting, hphase, Phase.complete]⟩

theorem viable_iff (map : Env) : Automaton.Viable step accepting (start map) w ↔ Viable w := by
  simp only [Automaton.Viable, Viable, accepts_iff]

theorem breaks_iff {v : List Char} (map : Env) :
    Automaton.Breaks step accepting (start map) w v ↔ Breaks w v := by
  cases v <;> simp only [Automaton.Breaks, Breaks, viable_iff, accepts_iff]

/-- The automaton gets stuck where the file breaks. -/
theorem stuck_iff {v : List Char} (map : Env) :
    (∃ t, readAll (start map) w = some t ∧ Stuck t v) ↔ Breaks w v :=
  (Automaton.stuck_iff completable).trans (breaks_iff map)

/-- What the automaton would enter now are the assignments of the longest file that it has read. -/
theorem intact_of_read (h : readAll (start map) w = some t) :
    ∃ u as, Intact w u as ∧ t.settle = SortedMap.emplaceAll as map := by
  have hkeep : ∀ m c m', step m c = some m' → accepting m' = false → m'.settle = m.settle :=
    fun _ _ _ => settle_step
  rcases Automaton.longest_of_read (t := start map) rfl hkeep h with
    ⟨u, m, ⟨hbeginning, ⟨m', hread', haccepting⟩, hlongest⟩, hread, hsettle⟩
  cases hread.symm.trans hread'
  rcases file_of_read hread haccepting with ⟨as, hfile, hmap⟩
  refine ⟨u, as, ⟨hbeginning, hfile, ?_⟩, hsettle.trans hmap⟩
  intro u' hu' hfile'
  exact hlongest u' hu' ((accepts_iff map).2 hfile')

end Scan

/-! ## Results of the parser -/

theorem Breaks.not_isFile {w v : List Char} (h : Breaks w v) : ¬ IsFile (w ++ v) := by
  intro hfile
  cases v with
  | nil => exact h.2 (by simpa using hfile)
  | cons c v => exact h.2 ⟨v, by simpa using hfile⟩

/-- A file breaks in one place. -/
theorem Breaks.unique {w v w' v' : List Char} (h : Breaks w v) (h' : Breaks w' v')
    (hfile : w ++ v = w' ++ v') : w = w' := by
  -- behind a break there is nothing viable
  have hviable : ∀ {w v x : List Char}, Breaks w (x ++ v) → Viable (w ++ x) → x = [] := by
    rintro w v (_ | ⟨c, x⟩) hbreaks ⟨y, hy⟩
    · rfl
    · exact absurd ⟨x ++ y, by simpa using hy⟩ hbreaks.2
  rcases List.append_eq_append_iff.1 hfile with ⟨x, rfl, rfl⟩ | ⟨x, rfl, rfl⟩
  · have hnil := hviable h (by cases v' <;> exact h'.1)
    rw [hnil, List.append_nil]
  · have hnil := hviable h' (by cases v <;> exact h.1)
    rw [hnil, List.append_nil]

theorem Intact.unique {file w w' : List Char} {as as' : List (String × String)}
    (h : Intact file w as) (h' : Intact file w' as') : w = w' := by
  have hw : w <+: w' := h'.longest w h.beginning ⟨as, h.isFile⟩
  have hw' : w' <+: w := h.longest w' h'.beginning ⟨as', h'.isFile⟩
  exact hw.eq_of_length_le hw'.length_le

/-- A file has no two readings that differ in what they assign. -/
theorem File.emplaceAll_eq {file : List Char} {as as' : List (String × String)} (h : File file as)
    (h' : File file as') (map : Env) :
    SortedMap.emplaceAll as map = SortedMap.emplaceAll as' map :=
  Except.ok.inj ((parse_file h map).symm.trans (parse_file h' map))

theorem Intact.emplaceAll_eq {file w w' : List Char} {as as' : List (String × String)}
    (h : Intact file w as) (h' : Intact file w' as') (map : Env) :
    SortedMap.emplaceAll as map = SortedMap.emplaceAll as' map := by
  have hw := h.unique h'
  subst hw
  exact h.isFile.emplaceAll_eq h'.isFile map

theorem intact_file {file : List Char} {as : List (String × String)} (h : File file as) :
    Intact file file as :=
  ⟨List.prefix_refl file, h, fun _ hw _ => hw⟩

/-- What the parser does with a file that is in order, and with any other one. -/
theorem parse_cases (file : List Char) (map : Env) :
    (∃ as, File file as ∧ parse file map = .ok (SortedMap.emplaceAll as map)) ∨
      ∃ w v u as, file = w ++ v ∧ Breaks w v ∧ Intact file u as ∧
        parse file map = .error (.syntaxError (errorAt w), SortedMap.emplaceAll as map) := by
  rcases parse_eq file map with ⟨t, hread, haccepting, hparse⟩ | ⟨w, v, t, rfl, hread, hstuck, hparse⟩
  · rcases Scan.file_of_read hread haccepting with ⟨as, hfile, _⟩
    exact Or.inl ⟨as, hfile, parse_file hfile map⟩
  · rcases Scan.intact_of_read hread with ⟨u, as, ⟨hbeginning, hfile, hlongest⟩, hmap⟩
    have hintact : Intact (w ++ v) u as := by
      refine ⟨hbeginning.trans (List.prefix_append w v), hfile, ?_⟩
      intro u' hu' hfile'
      -- no file goes on behind the place where the automaton is stuck
      have haccepts := (Scan.accepts_iff map).2 hfile'
      exact hlongest u' (Automaton.accepted_of_stuck hread hstuck haccepts hu') hfile'
    refine Or.inr ⟨w, v, u, as, rfl, (Scan.stuck_iff map).1 ⟨t, hread, hstuck⟩, hintact, ?_⟩
    rw [hparse, Scan.message_of_read hread, hmap]

variable {file : List Char} {map m : Env}

/-- The parser fails where the file breaks, and says so; it keeps the assignments of the longest
beginning that is in order. -/
theorem parse_error_iff {e : Exception} :
    parse file map = .error (e, m) ↔
      (∃ w v, file = w ++ v ∧ Breaks w v ∧ e = .syntaxError (errorAt w)) ∧
        ∃ u as, Intact file u as ∧ m = SortedMap.emplaceAll as map := by
  rcases parse_cases file map with ⟨as, hfile, hparse⟩ | ⟨w, v, u, as, hfile, hbreaks, hintact, hparse⟩
  · rw [hparse]
    constructor
    · intro h
      cases h
    · rintro ⟨⟨w, v, rfl, hbreaks, _⟩, _⟩
      exact absurd ⟨as, hfile⟩ hbreaks.not_isFile
  · rw [hparse]
    constructor
    · intro h
      cases h
      exact ⟨⟨w, v, hfile, hbreaks, rfl⟩, u, as, hintact, rfl⟩
    · rintro ⟨⟨w', v', hfile', hbreaks', rfl⟩, u', as', hintact', rfl⟩
      rw [hbreaks.unique hbreaks' (hfile.symm.trans hfile'), hintact.emplaceAll_eq hintact']

/-- What is in the map after parsing, whether the file is accepted or not. -/
def leftBy : Except (Exception × Env) Env → Env
  | .ok m => m
  | .error (_, m) => m

theorem exists_intact (file : List Char) : ∃ u as, Intact file u as := by
  rcases parse_cases file [] with ⟨as, hfile, _⟩ | ⟨_, _, u, as, _, _, hintact, _⟩
  · exact ⟨file, as, intact_file hfile⟩
  · exact ⟨u, as, hintact⟩

theorem leftBy_parse {u : List Char} {as : List (String × String)} (h : Intact file u as)
    (map : Env) : leftBy (parse file map) = SortedMap.emplaceAll as map := by
  rcases parse_cases file map with ⟨as', hfile, hparse⟩ | ⟨_, _, _, as', _, _, hintact, hparse⟩
  · rw [hparse]
    exact (intact_file hfile).emplaceAll_eq h map
  · rw [hparse]
    exact hintact.emplaceAll_eq h map

end Dotenv

end CapyAmqp
