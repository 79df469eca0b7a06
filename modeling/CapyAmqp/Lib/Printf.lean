import Mathlib.Data.List.Basic
import Mathlib.Data.List.TakeWhile

/-!
# Printf — what `vsnprintf` finds in a format

A format is read character by character: outside of a conversion specification a character stands
for itself, and `%` begins a specification of flags, width, precision, length modifier and conversion
character, in this order (`feed`, `scan`).  A format whose specifications are malformed, or find no
argument of their type, is undefined behaviour; both are `none` here.  All arguments are
`const char *`, so what matters of a specification is whether it takes such an argument or another
one (`demands`).

`scan_paired_iff` is about formats that were never meant as such: they take no argument exactly if
every `%` is followed by another, and what is printed then is the format with each pair collapsed.
-/

namespace Lib

/-- The text behind a `const char *`. -/
structure CString where
  chars : List Char
  noNul : '\x00' ∉ chars

namespace Printf

/-! ## Formats -/

/-- A width or a precision: in the format, or `*`, which takes it from an argument. -/
inductive Field
  | number (n : Nat)
  | star
  deriving DecidableEq

/-- What stands between `%` and the conversion character. -/
structure Spec where
  flags : List Char := []
  width : Option Field := none
  precision : Option Field := none
  length : List Char := []
  deriving DecidableEq

inductive Piece
  | literal (c : Char)
  | percent
  | conversion (spec : Spec) (c : Char)
  deriving DecidableEq

/-- How far the reading of a specification has come. -/
inductive Stage
  | flags
  | width
  | widthDone
  | point
  | precision
  | precisionDone
  | length
  deriving DecidableEq

/-- What a character does to a specification. -/
inductive Feed
  | more (stage : Stage) (spec : Spec)
  | done (piece : Piece)
  | invalid

def flagChars : List Char :=
  ['-', '+', ' ', '#', '0']

def lengths : List (List Char) :=
  [['h'], ['h', 'h'], ['l'], ['l', 'l'], ['j'], ['z'], ['t'], ['L']]

def conversionChars : List Char :=
  ['d', 'i', 'o', 'u', 'x', 'X', 'f', 'F', 'e', 'E', 'g', 'G', 'a', 'A', 'c', 's', 'p', 'n']

def Field.withDigit (field : Option Field) (c : Char) : Field :=
  match field with
  | some (.number n) => .number (n * 10 + (c.toNat - '0'.toNat))
  | _ => .number (c.toNat - '0'.toNat)

/-- Read one character of a specification.  `%` ends one only if nothing stands in between. -/
def feed (stage : Stage) (spec : Spec) (c : Char) : Feed :=
  if c = '%' then if spec = {} then .done .percent else .invalid
  else if stage = .flags ∧ c ∈ flagChars then .more .flags { spec with flags := spec.flags ++ [c] }
  else if c.isDigit then
    if stage = .flags ∨ stage = .width then
      .more .width { spec with width := some (.withDigit spec.width c) }
    else if stage = .point ∨ stage = .precision then
      .more .precision { spec with precision := some (.withDigit spec.precision c) }
    else .invalid
  else if c = '*' then
    if stage = .flags then .more .widthDone { spec with width := some .star }
    else if stage = .point then .more .precisionDone { spec with precision := some .star }
    else .invalid
  else if c = '.' then
    if stage = .flags ∨ stage = .width ∨ stage = .widthDone then
      .more .point { spec with precision := some (.number 0) }
    else .invalid
  else if spec.length ++ [c] ∈ lengths then
    .more .length { spec with length := spec.length ++ [c] }
  else if c ∈ conversionChars then .done (.conversion spec c)
  else .invalid

/-- Read a format, from outside of a specification or from within one. -/
def scan : Option (Stage × Spec) → List Char → Option (List Piece)
  | none, [] => some []
  | some _, [] => none
  | none, c :: s =>
      if c = '%' then scan (some (.flags, {})) s else (scan none s).map (.literal c :: ·)
  | some (stage, spec), c :: s =>
      match feed stage spec c with
      | .more stage' spec' => scan (some (stage', spec')) s
      | .done piece => (scan none s).map (piece :: ·)
      | .invalid => none

/-! ## Arguments -/

/-- The type of an argument, as far as it matters. -/
inductive ArgKind
  | text
  | other
  deriving DecidableEq

def Field.demands : Option Field → List ArgKind
  | some .star => [.other]
  | _ => []

/-- The arguments that a piece consumes. -/
def Piece.demands : Piece → List ArgKind
  | .conversion spec c =>
      Field.demands spec.width ++ Field.demands spec.precision ++
        [if c = 's' ∧ spec.length = [] then .text else .other]
  | _ => []

def demands (pieces : List Piece) : List ArgKind :=
  pieces.flatMap Piece.demands

/-- The specifications that are found in the format are matched one for one by the arguments. -/
def Matched (format : CString) (args : List CString) : Prop :=
  ∃ pieces, scan none format.chars = some pieces ∧ demands pieces = args.map fun _ => .text

/-! ## Output -/

/-- `%s`, with a precision that cuts and a width that pads. -/
def convert (spec : Spec) (arg : CString) : List Char :=
  let text :=
    match spec.precision with
    | some (.number n) => arg.chars.take n
    | _ => arg.chars
  match spec.width with
  | some (.number n) =>
      let padding := List.replicate (n - text.length) ' '
      if '-' ∈ spec.flags then text ++ padding else padding ++ text
  | _ => text

/-- What the pieces print; a specification that finds no argument of its type is undefined. -/
def output : List Piece → List CString → Option (List Char)
  | [], _ => some []
  | .literal c :: pieces, args => (output pieces args).map (c :: ·)
  | .percent :: pieces, args => (output pieces args).map ('%' :: ·)
  | .conversion _ _ :: _, [] => none
  | .conversion spec c :: pieces, arg :: args =>
      if (Piece.conversion spec c).demands = [.text] then
        (output pieces args).map (convert spec arg ++ ·)
      else none

/-- `vsnprintf` into a buffer of `size` characters, the last of which is for the NUL. -/
def vsnprintf (size : Nat) (format : CString) (args : List CString) : Option (List Char) :=
  match scan none format.chars with
  | none => none
  | some pieces => (output pieces args).map (List.take (size - 1))

theorem Field.demands_cases (field : Option Field) :
    Field.demands field = [] ∨ Field.demands field = [.other] := by
  cases field with
  | none => exact Or.inl rfl
  | some field =>
      cases field with
      | number n => exact Or.inl rfl
      | star => exact Or.inr rfl

/-- A specification whose first argument is a text takes that one only. -/
theorem demands_of_text {spec : Spec} {c : Char} {rest rest' : List ArgKind}
    (h : (Piece.conversion spec c).demands ++ rest = .text :: rest') :
    (Piece.conversion spec c).demands = [.text] := by
  -- a `*` would come first
  rcases Field.demands_cases spec.width with hwidth | hwidth
  · rcases Field.demands_cases spec.precision with hprecision | hprecision
    · simp only [Piece.demands, hwidth, hprecision, List.nil_append, List.cons_append,
        List.cons.injEq] at h ⊢
      exact ⟨h.1, trivial⟩
    · simp [Piece.demands, hwidth, hprecision] at h
  · simp [Piece.demands, hwidth] at h

/-- A call whose arguments match is defined. -/
theorem vsnprintf_of_matched (size : Nat) {format : CString} {args : List CString}
    (h : Matched format args) : ∃ text, vsnprintf size format args = some text := by
  rcases h with ⟨pieces, hscan, hdemands⟩
  have houtput : ∀ (pieces : List Piece) (args : List CString),
      demands pieces = (args.map fun _ => .text) → ∃ text, output pieces args = some text := by
    intro pieces
    induction pieces with
    | nil =>
        intro args _
        exact ⟨[], rfl⟩
    | cons piece pieces ih =>
        intro args h
        cases piece with
        | literal c =>
            rcases ih args h with ⟨text, htext⟩
            exact ⟨c :: text, by simp [output, htext]⟩
        | percent =>
            rcases ih args h with ⟨text, htext⟩
            exact ⟨'%' :: text, by simp [output, htext]⟩
        | conversion spec c =>
            cases args with
            | nil => simp [demands, Piece.demands] at h
            | cons arg args =>
                -- the first argument is all that this piece takes
                have hsplit : (Piece.conversion spec c).demands ++ demands pieces =
                    .text :: args.map fun _ => .text := h
                have hone := demands_of_text hsplit
                rw [hone] at hsplit
                rcases ih args (List.cons.inj hsplit).2 with ⟨text, htext⟩
                exact ⟨convert spec arg ++ text, by simp [output, hone, htext]⟩
  rcases houtput pieces args hdemands with ⟨text, htext⟩
  exact ⟨text.take (size - 1), by simp [vsnprintf, hscan, htext]⟩

/-! ## Formats with one text -/

theorem scan_literal {c : Char} (hc : c ≠ '%') (s : List Char) :
    scan none (c :: s) = (scan none s).map (.literal c :: ·) := by
  simp [scan, hc]

/-- Characters other than `%` stand for themselves. -/
theorem scan_literals {l : List Char} (hl : '%' ∉ l) (s : List Char) :
    scan none (l ++ s) = (scan none s).map (l.map .literal ++ ·) := by
  induction l with
  | nil => simp
  | cons c l ih =>
      have hc : c ≠ '%' := (List.ne_of_not_mem_cons hl).symm
      rw [List.cons_append, scan_literal hc, ih (List.not_mem_of_not_mem_cons hl)]
      simp [Function.comp_def]

theorem output_literals (l : List Char) (pieces : List Piece) (args : List CString) :
    output (l.map .literal ++ pieces) args = (output pieces args).map (l ++ ·) := by
  induction l with
  | nil => simp
  | cons c l ih => simp [output, ih, Function.comp_def]

theorem demands_literals (l : List Char) (pieces : List Piece) :
    demands (l.map .literal ++ pieces) = demands pieces := by
  simp [demands, List.flatMap_map, Piece.demands]

/-- The pieces of a format with one `%s`. -/
theorem scan_one_text {pre post : List Char} (hpre : '%' ∉ pre) (hpost : '%' ∉ post) :
    scan none (pre ++ '%' :: 's' :: post) =
      some (pre.map .literal ++ .conversion {} 's' :: post.map .literal) := by
  have htail : scan none post = some (post.map .literal) := by
    simpa [scan] using scan_literals hpost []
  have hspec : scan none ('%' :: 's' :: post) = some (.conversion {} 's' :: post.map .literal) := by
    have hfeed : feed .flags {} 's' = .done (.conversion {} 's') := rfl
    simp [scan, hfeed, htail]
  rw [scan_literals hpre, hspec]
  rfl

/-- A format with one `%s` and the text that goes there. -/
theorem matched_one_text {format : CString} {pre post : List Char}
    (hformat : format.chars = pre ++ '%' :: 's' :: post) (hpre : '%' ∉ pre)
    (hpost : '%' ∉ post) (arg : CString) : Matched format [arg] := by
  refine ⟨_, hformat ▸ scan_one_text hpre hpost, ?_⟩
  have hpostDemands : demands (post.map .literal) = [] := by
    simpa [demands] using demands_literals post []
  rw [demands_literals]
  show _ ++ demands (post.map .literal) = _
  rw [hpostDemands]
  rfl

theorem vsnprintf_one_text (size : Nat) {format : CString} {pre post : List Char}
    (hformat : format.chars = pre ++ '%' :: 's' :: post) (hpre : '%' ∉ pre)
    (hpost : '%' ∉ post) (arg : CString) :
    vsnprintf size format [arg] = some ((pre ++ arg.chars ++ post).take (size - 1)) := by
  have hend : output (post.map .literal) [] = some post := by
    simpa [output] using output_literals post [] []
  have hconversion : output (.conversion {} 's' :: post.map .literal) [arg] =
      some (arg.chars ++ post) := by
    have hdemands : (Piece.conversion {} 's').demands = [.text] := rfl
    simp only [output, hdemands, if_true, hend]
    rfl
  simp only [vsnprintf, hformat, scan_one_text hpre hpost, output_literals, hconversion]
  simp [List.append_assoc]

/-! ## Formats that take no argument -/

/-- Every `%` is followed by another. -/
def Paired : List Char → Prop
  | [] => True
  | [c] => c ≠ '%'
  | c :: d :: s => if c = '%' then d = '%' ∧ Paired s else Paired (d :: s)

/-- Each pair of `%` collapsed to one. -/
def collapse : List Char → List Char
  | [] => []
  | [c] => [c]
  | c :: d :: s => if c = '%' then '%' :: collapse s else c :: collapse (d :: s)

/-- A specification that has begun ends in a conversion, or not at all. -/
theorem feed_cases (stage : Stage) {spec : Spec} {c : Char} (h : spec ≠ {} ∨ c ≠ '%') :
    (∃ stage' spec', feed stage spec c = .more stage' spec' ∧ spec' ≠ {}) ∨
      feed stage spec c = .done (.conversion spec c) ∨ feed stage spec c = .invalid := by
  unfold feed
  split
  · rename_i hc
    have hspec : spec ≠ {} := h.resolve_right fun hne => hne hc
    simp [hspec]
  · split
    · refine Or.inl ⟨_, _, rfl, ?_⟩
      simp
    · split
      · cases stage <;> simp
      · split
        · cases stage <;> simp
        · split
          · cases stage <;> simp
          · split
            · refine Or.inl ⟨_, _, rfl, ?_⟩
              simp
            · split
              · exact Or.inr (Or.inl rfl)
              · exact Or.inr (Or.inr rfl)

theorem demands_cons (piece : Piece) (pieces : List Piece) :
    demands (piece :: pieces) = piece.demands ++ demands pieces := by
  simp [demands]

theorem demands_conversion_ne_nil (spec : Spec) (c : Char) :
    (Piece.conversion spec c).demands ≠ [] := by
  simp [Piece.demands]

theorem scan_some_cons (stage : Stage) (spec : Spec) (c : Char) (s : List Char) :
    scan (some (stage, spec)) (c :: s) =
      match feed stage spec c with
      | .more stage' spec' => scan (some (stage', spec')) s
      | .done piece => (scan none s).map (piece :: ·)
      | .invalid => none := rfl

/-- Inside a specification, past its `%`, there is an argument to come. -/
theorem demands_of_scan_some {s : List Char} {stage : Stage} {spec : Spec} {pieces : List Piece}
    (h : spec ≠ {} ∨ s.head? ≠ some '%') (hscan : scan (some (stage, spec)) s = some pieces) :
    demands pieces ≠ [] := by
  induction s generalizing stage spec with
  | nil => cases hscan
  | cons c s ih =>
      have hc : spec ≠ {} ∨ c ≠ '%' := by
        simpa using h
      rw [scan_some_cons] at hscan
      rcases feed_cases stage hc with ⟨stage', spec', hmore, hspec'⟩ | hdone | hinvalid
      · rw [hmore] at hscan
        exact ih (Or.inl hspec') hscan
      · rw [hdone] at hscan
        rcases Option.map_eq_some_iff.1 hscan with ⟨rest, _, rfl⟩
        rw [demands_cons]
        exact List.append_ne_nil_of_left_ne_nil (demands_conversion_ne_nil spec c) _
      · rw [hinvalid] at hscan
        cases hscan

theorem scan_percent (s : List Char) :
    scan none ('%' :: '%' :: s) = (scan none s).map (.percent :: ·) := by
  simp [scan, feed]

/-- A format of literals and pairs of `%` takes no argument and prints itself, each pair as one. -/
theorem output_of_paired {m : List Char} (h : Paired m) (args : List CString) :
    ∃ pieces, scan none m = some pieces ∧ demands pieces = [] ∧
      output pieces args = some (collapse m) := by
  induction m using Paired.induct with
  | case1 => exact ⟨[], rfl, rfl, rfl⟩
  | case2 c =>
      have hc : c ≠ '%' := h
      exact ⟨[.literal c], by simp [scan, hc], rfl, rfl⟩
  | case3 d s ih =>
      simp only [Paired, if_true] at h
      rcases h with ⟨rfl, hs⟩
      rcases ih hs with ⟨pieces, hscan, hdemands, houtput⟩
      refine ⟨.percent :: pieces, by simp [scan_percent, hscan], hdemands, ?_⟩
      simp [output, houtput, collapse]
  | case4 c d s hc ih =>
      simp only [Paired, if_neg hc] at h
      rcases ih h with ⟨pieces, hscan, hdemands, houtput⟩
      refine ⟨.literal c :: pieces, by rw [scan_literal hc, hscan]; rfl, hdemands, ?_⟩
      simp [output, houtput, collapse, hc]

/-- A format takes no argument exactly if its `%` come in pairs. -/
theorem scan_paired_iff {m : List Char} :
    (∃ pieces, scan none m = some pieces ∧ demands pieces = []) ↔ Paired m := by
  constructor
  · rintro ⟨pieces, hscan, hdemands⟩
    induction m using Paired.induct generalizing pieces with
    | case1 => trivial
    | case2 c =>
        show c ≠ '%'
        rintro rfl
        simp [scan] at hscan
    | case3 d s ih =>
        simp only [Paired, if_true]
        have hspec : scan (some (.flags, {})) (d :: s) = some pieces := by
          simpa [scan] using hscan
        by_cases hd : d = '%'
        · subst hd
          rw [scan_percent] at hscan
          rcases Option.map_eq_some_iff.1 hscan with ⟨rest, hrest, rfl⟩
          exact ⟨rfl, ih rest hrest hdemands⟩
        · -- anything else begins a specification
          exact absurd hdemands (demands_of_scan_some (Or.inr (by simpa using hd)) hspec)
    | case4 c d s hc ih =>
        simp only [Paired, if_neg hc]
        rw [scan_literal hc] at hscan
        rcases Option.map_eq_some_iff.1 hscan with ⟨rest, hrest, rfl⟩
        exact ih rest hrest hdemands
  · intro h
    rcases output_of_paired h [] with ⟨pieces, hscan, hdemands, _⟩
    exact ⟨pieces, hscan, hdemands⟩

/-! ### When the collapsed format still begins like the format -/

/-- The characters before the first `%`. -/
def beforePercent (m : List Char) : List Char :=
  m.takeWhile (· ≠ '%')

/-- The first `%` and those that follow it directly. -/
def percentRun (m : List Char) : List Char :=
  (m.dropWhile (· ≠ '%')).takeWhile (· = '%')

/-- The first `n` characters have no `%`, or reach into the first run of them by no more than half
of its length. -/
def CutVerbatim (n : Nat) (m : List Char) : Prop :=
  percentRun m = [] ∨ n ≤ (beforePercent m).length + (percentRun m).length / 2

theorem take_ne_of_ne {c : Char} (hc : c ≠ '%') (s t : List Char) (k : Nat) :
    (c :: s).take k = ('%' :: t).take k ↔ k ≤ 0 := by
  cases k <;> simp [hc]

/-- Once `%` have been printed for twice as many, the two texts agree for half the rest of the run. -/
theorem take_collapse_run {m : List Char} (h : Paired m) (k r : Nat) :
    (collapse m).take k = (List.replicate (r + 1) '%' ++ m).take k ↔
      k ≤ (m.takeWhile (· = '%')).length / 2 := by
  induction m using Paired.induct generalizing k r with
  | case1 => cases k <;> simp [collapse, List.replicate_succ]
  | case2 c =>
      have hc : c ≠ '%' := h
      simpa [collapse, List.replicate_succ, hc] using take_ne_of_ne hc [] _ k
  | case3 d s ih =>
      simp only [Paired, if_true] at h
      rcases h with ⟨rfl, hs⟩
      cases k with
      | zero => simp
      | succ j =>
          -- one more is printed, and two more of the run are behind
          have hmove : List.replicate r '%' ++ '%' :: '%' :: s =
              List.replicate (r + 1 + 1) '%' ++ s := by
            simp [List.replicate_succ', List.append_assoc]
          have hrest := ih hs j (r + 1)
          simp only [collapse, if_true, List.replicate_succ, List.cons_append, List.take_succ_cons,
            List.cons.injEq, true_and] at hrest ⊢
          rw [hmove, List.replicate_succ, List.replicate_succ, List.cons_append, List.cons_append,
            hrest]
          simp
          omega
  | case4 c d s hc _ =>
      simpa [collapse, List.replicate_succ, hc] using take_ne_of_ne hc _ _ k

theorem take_collapse_iff {m : List Char} (h : Paired m) (n : Nat) :
    (collapse m).take n = m.take n ↔ CutVerbatim n m := by
  induction m using Paired.induct generalizing n with
  | case1 => simp [collapse, CutVerbatim, percentRun]
  | case2 c =>
      have hc : c ≠ '%' := h
      simp [collapse, CutVerbatim, percentRun, hc]
  | case3 d s _ =>
      simp only [Paired, if_true] at h
      rcases h with ⟨rfl, hs⟩
      cases n with
      | zero => simp [CutVerbatim]
      | succ k =>
          have hrun := take_collapse_run hs k 0
          simp only [List.replicate_one, List.singleton_append, Nat.zero_add] at hrun
          simp only [collapse, if_true, List.take_succ_cons, List.cons.injEq, true_and, hrun]
          simp [CutVerbatim, percentRun, beforePercent]
          omega
  | case4 c d s hc ih =>
      simp only [Paired, if_neg hc] at h
      cases n with
      | zero => simp [CutVerbatim]
      | succ k =>
          have hbefore : beforePercent (c :: d :: s) = c :: beforePercent (d :: s) := by
            simp [beforePercent, hc]
          have hrun : percentRun (c :: d :: s) = percentRun (d :: s) := by
            simp [percentRun, hc]
          simp only [collapse, if_neg hc, List.take_succ_cons, List.cons.injEq, true_and, ih h k]
          rw [CutVerbatim, CutVerbatim, hbefore, hrun, List.length_cons]
          refine or_congr_right ?_
          omega

end Printf

end Lib
