import CapyAmqp.Dotenv.Refinement
import Mathlib.Data.List.Induction

/-!
# Grammar — which files are accepted, and what they assign

A `.env` file is a sequence of lines; a line is empty or an assignment, possibly with a comment
behind it.  `parse_ok_iff` says that the parser accepts these files and no others, and that the first
assignment to a key counts.
-/

namespace CapyAmqp

namespace Dotenv

open Lib

/-! ## Files -/

def Spaces (w : List Char) : Prop :=
  ∀ c ∈ w, isSpace c = true

def IsKey (key : String) : Prop :=
  key ≠ "" ∧ ∀ c ∈ key.toList, isKey c = true

def IsValue (value : String) : Prop :=
  ∀ c ∈ value.toList, isValue c = true

/-- The text of a comment, which must not be empty. -/
def IsComment (text : List Char) : Prop :=
  text ≠ [] ∧ ∀ c ∈ text, isNewline c = false

/-- A key and its equality sign. -/
inductive Left (key : String) : List Char → Prop
  | mk {sp sp₁ : List Char} (hsp : Spaces sp) (hkey : IsKey key) (hsp₁ : Spaces sp₁) :
      Left key (sp ++ key.toList ++ sp₁ ++ ['='])

/-- What a line has to say, up to its comment. -/
inductive Content : List Char → Option (String × String) → Prop
  | blank {sp : List Char} (hsp : Spaces sp) : Content sp none
  | assignment {l sp sp₁ : List Char} {key value : String} (hleft : Left key l) (hsp : Spaces sp)
      (hvalue : IsValue value) (hsp₁ : Spaces sp₁) :
      Content (l ++ sp ++ value.toList ++ sp₁) (some (key, value))

inductive Line : List Char → Option (String × String) → Prop
  | plain {l : List Char} {a : Option (String × String)} (h : Content l a) : Line l a
  | comment {l text : List Char} {a : Option (String × String)} (h : Content l a)
      (htext : IsComment text) : Line (l ++ '#' :: text) a

def LineBreak (w : List Char) : Prop :=
  w = ['\n'] ∨ w = ['\r', '\n']

/-- Lines with the line breaks behind them. -/
inductive Lines : List Char → List (String × String) → Prop
  | nil : Lines [] []
  | snoc {w l nl : List Char} {as : List (String × String)} {a : Option (String × String)}
      (h : Lines w as) (hl : Line l a) (hnl : LineBreak nl) : Lines (w ++ l ++ nl) (as ++ a.toList)

/-- A file, with its assignments in their order. -/
inductive File : List Char → List (String × String) → Prop
  | mk {w l : List Char} {as : List (String × String)} {a : Option (String × String)}
      (h : Lines w as) (hl : Line l a) : File (w ++ l) (as ++ a.toList)

/-! ## Files are read -/

/-- A phase in which the content of a line may end. -/
def Phase.isOpen : Phase → Bool
  | .start => true
  | .gap _ => true
  | .value _ _ => true
  | .tail _ _ => true
  | _ => false

theorem emplaceAll_append (as bs : List (String × String)) (m : Env) :
    SortedMap.emplaceAll (as ++ bs) m = SortedMap.emplaceAll bs (SortedMap.emplaceAll as m) := by
  simp [SortedMap.emplaceAll]

namespace Scan

variable {t : Scan} {w l : List Char} {key value : String} {a : Option (String × String)}

theorem settle_eq (t : Scan) : t.settle = SortedMap.emplaceAll t.phase.entry.toList t.map := by
  unfold settle
  cases t.phase.entry with
  | none => rfl
  | some e => rfl

/-- The automaton comes from `t` to the phase, without entering anything. -/
def Reads (t : Scan) (w : List Char) (phase : Phase) : Prop :=
  ∃ t', readAll t w = some t' ∧ t'.phase = phase ∧ t'.map = t.map

theorem Reads.append {v : List Char} {phase phase' : Phase} (h : Reads t v phase)
    (h' : ∀ t', t'.phase = phase → t'.map = t.map → Reads t' w phase') : Reads t (v ++ w) phase' := by
  rcases h with ⟨t₁, hread, hphase, hmap⟩
  rcases h' t₁ hphase hmap with ⟨t₂, hread', hphase', hmap'⟩
  exact ⟨t₂, (Automaton.readAll_append_of hread).trans hread', hphase', hmap'.trans hmap⟩

theorem reads_nil (t : Scan) : Reads t [] t.phase :=
  ⟨t, rfl, rfl, rfl⟩

theorem reads_cons {c : Char} {phase phase' : Phase} (hstep : t.step c = some (t.goto phase))
    (h : Reads (t.goto phase) w phase') : Reads t (c :: w) phase' := by
  rcases h with ⟨t', hread, hphase, hmap⟩
  exact ⟨t', (Automaton.readAll_cons hstep).trans hread, hphase, hmap⟩

/-- Characters that leave the phase as it is. -/
theorem reads_same {phase : Phase} (hstep : ∀ (t : Scan) (c : Char), t.phase = phase → c ∈ w →
    t.step c = some (t.goto phase)) (ht : t.phase = phase) : Reads t w phase := by
  induction w generalizing t with
  | nil => exact ht ▸ reads_nil t
  | cons c w ih =>
      refine reads_cons (hstep t c ht (by simp)) (ih ?_ rfl)
      intro t d hphase hd
      exact hstep t d hphase (by simp [hd])

theorem reads_key (hw : ∀ c ∈ w, isKey c = true) (ht : t.phase = .key key) :
    Reads t w (.key (key ++ String.ofList w)) := by
  induction w generalizing t key with
  | nil => simpa [ht] using reads_nil t
  | cons c w ih =>
      have hc := hw c (by simp)
      have hstep : t.step c = some (t.goto (.key (key.push c))) := by
        simp [step, ht, hc]
      have htail := ih (t := t.goto (.key (key.push c))) (fun d hd => hw d (by simp [hd])) rfl
      have hkey : key.push c ++ String.ofList w = key ++ String.ofList (c :: w) := by
        apply String.toList_injective
        simp
      rw [hkey] at htail
      exact reads_cons hstep htail

theorem reads_value (hw : ∀ c ∈ w, isValue c = true) (ht : t.phase = .value key value) :
    Reads t w (.value key (value ++ String.ofList w)) := by
  induction w generalizing t value with
  | nil => simpa [ht] using reads_nil t
  | cons c w ih =>
      have hc := hw c (by simp)
      have hstep : t.step c = some (t.goto (.value key (value.push c))) := by
        simp [step, ht, hc]
      have htail := ih (t := t.goto (.value key (value.push c))) (fun d hd => hw d (by simp [hd])) rfl
      have hvalue : value.push c ++ String.ofList w = value ++ String.ofList (c :: w) := by
        apply String.toList_injective
        simp
      rw [hvalue] at htail
      exact reads_cons hstep htail

/-- The equality sign, with spaces before it. -/
theorem reads_separator (hw : Spaces w) (ht : t.phase = .key key ∨ t.phase = .separator key) :
    Reads t (w ++ ['=']) (.gap key) := by
  induction w generalizing t with
  | nil =>
      refine reads_cons ?_ (reads_nil _)
      rcases ht with ht | ht <;> simp [step, ht, isKey, isSpace]
  | cons c w ih =>
      have hc := hw c (by simp)
      have hkey : isKey c = false := by
        simp [isKey, isValue, hc]
      have hstep : t.step c = some (t.goto (.separator key)) := by
        rcases ht with ht | ht <;> simp [step, ht, hkey, hc]
      exact reads_cons hstep (ih (fun d hd => hw d (by simp [hd])) (Or.inr rfl))

theorem reads_left (h : Left key l) (ht : t.phase = .start) : Reads t l (.gap key) := by
  rcases h with ⟨hsp, ⟨hne, hkey⟩, hsp₁⟩
  rename_i sp sp₁
  have hspaces : Reads t sp .start :=
    reads_same (fun t c ht hc => by simp [step, ht, hsp c hc]) ht
  rw [List.append_assoc, List.append_assoc]
  refine hspaces.append fun t ht _ => ?_
  cases hlist : key.toList with
  | nil => exact absurd (String.toList_injective (hlist.trans String.toList_empty.symm)) hne
  | cons c k =>
      rw [hlist] at hkey
      have hc := hkey c (by simp)
      have hspace : isSpace c = false := isSpace_of_isValue (isValue_of_isKey hc)
      have hfirst : t.step c = some (t.goto (.key ("".push c))) := by
        simp [step, ht, hspace, hc]
      have hrest := reads_key (t := t.goto (.key ("".push c)))
        (fun d hd => hkey d (List.mem_cons_of_mem c hd)) rfl
      have hwhole : "".push c ++ String.ofList k = key := by
        apply String.toList_injective
        simp [hlist]
      rw [hwhole] at hrest
      exact reads_cons hfirst (hrest.append fun t ht _ => reads_separator hsp₁ (Or.inl ht))

/-- The content of a line leads to a phase that keeps its assignment. -/
theorem read_content (h : Content l a) (ht : t.phase = .start) :
    ∃ t', readAll t l = some t' ∧ t'.phase.isOpen = true ∧ t'.phase.entry = a ∧ t'.map = t.map := by
  rcases h with ⟨hsp⟩ | ⟨hleft, hsp, hvalue, hsp₁⟩
  · rcases reads_same (fun t c ht hc => by simp [step, ht, hsp c hc]) ht with
      ⟨t', hread, hphase, hmap⟩
    exact ⟨t', hread, by rw [hphase]; rfl, by rw [hphase]; rfl, hmap⟩
  · rename_i l sp sp₁ key value
    have hgap : Reads t (l ++ sp) (.gap key) := by
      refine (reads_left hleft ht).append fun t ht _ => ?_
      exact reads_same (fun t c ht hc => by simp [step, ht, hsp c hc]) ht
    -- an empty value leaves the automaton in the gap, any other one in the value or behind it
    have hrest : ∃ phase, Reads t (l ++ sp ++ value.toList ++ sp₁) phase ∧ phase.isOpen = true ∧
        phase.entry = some (key, value) := by
      cases hlist : value.toList with
      | nil =>
          have hempty : value = "" := String.toList_injective (hlist.trans String.toList_empty.symm)
          refine ⟨.gap key, ?_, rfl, by rw [hempty]; rfl⟩
          rw [List.append_nil]
          refine hgap.append fun t ht _ => ?_
          exact reads_same (fun t c ht hc => by simp [step, ht, hsp₁ c hc]) ht
      | cons c v =>
          have hvalue' : ∀ d ∈ c :: v, isValue d = true := fun d hd => hvalue d (hlist ▸ hd)
          have hc := hvalue' c (by simp)
          have hspace := isSpace_of_isValue hc
          have hread : Reads t (l ++ sp ++ c :: v) (.value key value) := by
            refine hgap.append fun t ht _ => ?_
            have hfirst : t.step c = some (t.goto (.value key ("".push c))) := by
              simp [step, ht, hspace, hc]
            have hothers := reads_value (t := t.goto (.value key ("".push c)))
              (fun d hd => hvalue' d (List.mem_cons_of_mem c hd)) rfl
            have hwhole : "".push c ++ String.ofList v = value := by
              apply String.toList_injective
              simp [hlist]
            rw [hwhole] at hothers
            exact reads_cons hfirst hothers
          cases sp₁ with
          | nil => exact ⟨.value key value, by simpa using hread, rfl, rfl⟩
          | cons d sp₁ =>
              have hd := hsp₁ d (by simp)
              have hdvalue : isValue d = false := by
                simp [isValue, hd]
              refine ⟨.tail key value, hread.append fun t ht _ => ?_, rfl, rfl⟩
              have hstep : t.step d = some (t.goto (.tail key value)) := by
                simp [step, ht, hdvalue, hd]
              refine reads_cons hstep (reads_same (fun t c ht hc => ?_) rfl)
              simp [step, ht, hsp₁ c (by simp [hc])]
    rcases hrest with ⟨phase, ⟨t', hread, hphase, hmap⟩, hopen, hentry⟩
    exact ⟨t', hread, hphase ▸ hopen, hphase ▸ hentry, hmap⟩

/-- Where the content of a line may end, its end is read. -/
theorem step_of_open (h : t.phase.isOpen = true) {c : Char} (hc : c = '#' ∨ isNewline c = true) :
    t.step c = t.ends c := by
  have hvalue : isValue c = false := by
    rcases hc with rfl | hc <;> simp [isValue, *]
  have hkey : isKey c = false := by
    simp [isKey, hvalue]
  have hspace : isSpace c = false := by
    rcases hc with rfl | hc
    · rfl
    · simp only [isNewline, Bool.or_eq_true, beq_iff_eq] at hc
      rcases hc with rfl | rfl <;> rfl
  unfold step
  cases hphase : t.phase <;> simp_all [Phase.isOpen]

/-- A line leads to a phase at which a file may end, and at which a line break is read. -/
theorem read_line (h : Line l a) (ht : t.phase = .start) :
    ∃ t', readAll t l = some t' ∧ t'.accepting = true ∧
      t'.settle = SortedMap.emplaceAll a.toList t.map ∧
      ∀ c, isNewline c = true → t'.step c = t'.ends c := by
  rcases h with ⟨h⟩ | ⟨h, hne, htext⟩
  · rcases read_content h ht with ⟨t', hread, hopen, hentry, hmap⟩
    refine ⟨t', hread, ?_, by rw [settle_eq, hentry, hmap], fun c hc => step_of_open hopen (Or.inr hc)⟩
    unfold accepting
    cases hphase : t'.phase <;> simp_all [Phase.isOpen, Phase.complete]
  · rename_i l text
    rcases read_content h ht with ⟨t₁, hread, hopen, hentry, hmap⟩
    have hhash : t₁.step '#' = some (t₁.leave .hash) := by
      rw [step_of_open hopen (Or.inl rfl)]
      rfl
    cases text with
    | nil => exact absurd rfl hne
    | cons c text =>
        have hc := htext c (by simp)
        have hfirst : (t₁.leave .hash).step c = some ((t₁.leave .hash).goto .comment) := by
          simp [step, leave, hc]
        have hothers : Reads ((t₁.leave .hash).goto .comment) text .comment :=
          reads_same (fun t d ht hd => by simp [step, ht, htext d (by simp [hd])]) rfl
        rcases hothers with ⟨t₂, hread₂, hphase₂, hmap₂⟩
        refine ⟨t₂, ?_, by simp [accepting, hphase₂, Phase.complete], ?_, ?_⟩
        · calc readAll t (l ++ '#' :: c :: text)
              = readAll t₁ ('#' :: c :: text) := Automaton.readAll_append_of hread
            _ = readAll (t₁.leave .hash) (c :: text) := Automaton.readAll_cons hhash
            _ = some t₂ := (Automaton.readAll_cons hfirst).trans hread₂
        · rw [settle_of_entry_none (by simp [hphase₂, Phase.entry]), hmap₂]
          show t₁.settle = _
          rw [settle_eq, hentry, hmap]
        · intro d hd
          simp [step, hphase₂, hd]

theorem read_lines {as : List (String × String)} (h : Lines w as) (map : Env) :
    ∃ t, readAll (start map) w = some t ∧ t.phase = .start ∧ t.map = SortedMap.emplaceAll as map := by
  induction h with
  | nil => exact ⟨start map, rfl, rfl, rfl⟩
  | snoc h hl hnl ih =>
      rcases ih with ⟨t, hread, hphase, hmap⟩
      rcases read_line hl hphase with ⟨t₁, hread₁, _, hsettle, hstep⟩
      have hboth := (Automaton.readAll_append_of hread).trans hread₁
      have hline : t₁.step '\n' = some t₁.newLine := hstep '\n' rfl
      rcases hnl with rfl | rfl
      · refine ⟨t₁.newLine, (Automaton.readAll_concat hboth).trans hline, rfl, ?_⟩
        rw [emplaceAll_append, ← hmap]
        exact hsettle
      · have hcr : t₁.step '\r' = some (t₁.leave .cr) := hstep '\r' rfl
        have hnl : (t₁.leave .cr).step '\n' = some (t₁.leave .cr).newLine := rfl
        refine ⟨(t₁.leave .cr).newLine, ?_, rfl, ?_⟩
        · exact (Automaton.readAll_append_of hboth).trans
            ((Automaton.readAll_cons hcr).trans (Automaton.readAll_cons hnl))
        · rw [emplaceAll_append, ← hmap]
          exact hsettle

/-- Files are accepted, and their assignments end up in the map. -/
theorem read_file {as : List (String × String)} (h : File w as) (map : Env) :
    ∃ t, readAll (start map) w = some t ∧ t.accepting = true ∧
      t.settle = SortedMap.emplaceAll as map := by
  rcases h with ⟨h, hl⟩
  rcases read_lines h map with ⟨t, hread, hphase, hmap⟩
  rcases read_line hl hphase with ⟨t', hread', haccepting, hsettle, _⟩
  refine ⟨t', (Automaton.readAll_append_of hread).trans hread', haccepting, ?_⟩
  rw [emplaceAll_append, ← hmap]
  exact hsettle

end Scan

/-! ## What is read is a file -/

/-- What the phase says about the part of the line that has been read, and about the assignment that
has been entered from it. -/
def InLine : Phase → List Char → Option (String × String) → Prop
  | .start, line, a => Spaces line ∧ a = none
  | .key key, line, a => (∃ sp, Spaces sp ∧ IsKey key ∧ line = sp ++ key.toList) ∧ a = none
  | .separator key, line, a =>
      (∃ sp sp₁, Spaces sp ∧ IsKey key ∧ Spaces sp₁ ∧ line = sp ++ key.toList ++ sp₁) ∧ a = none
  | .gap key, line, a => (∃ l sp, Left key l ∧ Spaces sp ∧ line = l ++ sp) ∧ a = none
  | .value key value, line, a =>
      (∃ l sp, Left key l ∧ Spaces sp ∧ IsValue value ∧ line = l ++ sp ++ value.toList) ∧ a = none
  | .tail key value, line, a =>
      (∃ l sp sp₁, Left key l ∧ Spaces sp ∧ IsValue value ∧ Spaces sp₁ ∧
        line = l ++ sp ++ value.toList ++ sp₁) ∧ a = none
  | .hash, line, a => ∃ l, Content l a ∧ line = l ++ ['#']
  | .comment, line, a => ∃ l text, Content l a ∧ IsComment text ∧ line = l ++ '#' :: text
  | .cr, line, a => ∃ l, Line l a ∧ line = l ++ ['\r']

theorem Spaces.concat {w : List Char} (h : Spaces w) {c : Char} (hc : isSpace c = true) :
    Spaces (w ++ [c]) := by
  intro d hd
  rcases List.mem_append.1 hd with hd | hd
  · exact h d hd
  · rw [List.mem_singleton.1 hd]
    exact hc

theorem IsKey.push {key : String} (h : ∀ c ∈ key.toList, isKey c = true) {c : Char}
    (hc : isKey c = true) : IsKey (key.push c) := by
  refine ⟨?_, ?_⟩
  · intro h
    have hlength := congrArg String.length h
    simp at hlength
  · intro d hd
    rw [String.toList_push] at hd
    rcases List.mem_append.1 hd with hd | hd
    · exact h d hd
    · rw [List.mem_singleton.1 hd]
      exact hc

theorem IsValue.push {value : String} (h : IsValue value) {c : Char} (hc : isValue c = true) :
    IsValue (value.push c) := by
  intro d hd
  rw [String.toList_push] at hd
  rcases List.mem_append.1 hd with hd | hd
  · exact h d hd
  · rw [List.mem_singleton.1 hd]
    exact hc

theorem spaces_nil : Spaces [] := by
  intro c hc
  cases hc

theorem isValue_empty : IsValue "" := by
  intro c hc
  cases hc

/-- Where the content of a line may end, it is complete. -/
theorem InLine.content {phase : Phase} {line : List Char} {a : Option (String × String)}
    (h : InLine phase line a) (hopen : phase.isOpen = true) :
    a = none ∧ Content line phase.entry := by
  cases phase with
  | start => exact ⟨h.2, .blank h.1⟩
  | gap key =>
      rcases h with ⟨⟨l, sp, hleft, hsp, rfl⟩, ha⟩
      have hcontent := Content.assignment hleft hsp isValue_empty spaces_nil
      exact ⟨ha, by simpa [Phase.entry] using hcontent⟩
  | value key value =>
      rcases h with ⟨⟨l, sp, hleft, hsp, hvalue, rfl⟩, ha⟩
      have hcontent := Content.assignment hleft hsp hvalue spaces_nil
      exact ⟨ha, by simpa [Phase.entry] using hcontent⟩
  | tail key value =>
      rcases h with ⟨⟨l, sp, sp₁, hleft, hsp, hvalue, hsp₁, rfl⟩, ha⟩
      exact ⟨ha, .assignment hleft hsp hvalue hsp₁⟩
  | _ => cases hopen

/-- Where a file may end, its last line is complete. -/
theorem InLine.line {phase : Phase} {line : List Char} {a : Option (String × String)}
    (h : InLine phase line a) (hcomplete : phase.complete = true) :
    ∃ b, Line line b ∧ b.toList = a.toList ++ phase.entry.toList := by
  cases phase with
  | comment =>
      rcases h with ⟨l, text, hcontent, htext, rfl⟩
      exact ⟨a, .comment hcontent htext, by simp [Phase.entry]⟩
  | start =>
      rcases InLine.content h rfl with ⟨rfl, hcontent⟩
      exact ⟨_, .plain hcontent, rfl⟩
  | gap key =>
      rcases InLine.content h rfl with ⟨rfl, hcontent⟩
      exact ⟨_, .plain hcontent, rfl⟩
  | value key value =>
      rcases InLine.content h rfl with ⟨rfl, hcontent⟩
      exact ⟨_, .plain hcontent, rfl⟩
  | tail key value =>
      rcases InLine.content h rfl with ⟨rfl, hcontent⟩
      exact ⟨_, .plain hcontent, rfl⟩
  | _ => cases hcomplete

namespace Scan

/-- What has been read consists of finished lines and the part of one that the phase speaks of. -/
def Sound (map : Env) (w : List Char) (t : Scan) : Prop :=
  ∃ pre as line a, w = pre ++ line ∧ Lines pre as ∧ InLine t.phase line a ∧
    t.map = SortedMap.emplaceAll (as ++ a.toList) map

variable {t t' : Scan} {map : Env} {w : List Char} {c : Char}

/-- Within a line, only what is known of the line changes. -/
theorem Sound.goto (h : Sound map w t) {phase : Phase}
    (hline : ∀ line a, InLine t.phase line a → InLine phase (line ++ [c]) a) :
    Sound map (w ++ [c]) (t.goto phase) := by
  rcases h with ⟨pre, as, line, a, rfl, hlines, hin, hmap⟩
  exact ⟨pre, as, line ++ [c], a, by rw [List.append_assoc], hlines, hline line a hin, hmap⟩

/-- The end of a line, or a comment. -/
theorem Sound.ends (h : Sound map w t) (hstep : t.ends c = some t')
    (hphase : t.phase.complete = true) (hhash : c = '#' → t.phase.isOpen = true) :
    Sound map (w ++ [c]) t' := by
  rcases h with ⟨pre, as, line, a, rfl, hlines, hin, hmap⟩
  rcases hin.line hphase with ⟨b, hline, hb⟩
  have hsettle : t.settle = SortedMap.emplaceAll (as ++ b.toList) map := by
    rw [settle_eq, hmap, hb, ← emplaceAll_append, List.append_assoc]
  unfold Scan.ends at hstep
  split at hstep
  · rename_i hc
    cases hstep
    have hc : c = '#' := beq_iff_eq.1 hc
    subst hc
    -- a comment follows the content of a line
    rcases hin.content (hhash rfl) with ⟨rfl, hcontent⟩
    refine ⟨pre, as, line ++ ['#'], t.phase.entry, by rw [List.append_assoc], hlines,
      ⟨line, hcontent, rfl⟩, ?_⟩
    rw [← List.nil_append t.phase.entry.toList]
    have hb' : b.toList = [] ++ t.phase.entry.toList := hb
    rw [← hb']
    exact hsettle
  · split at hstep
    · rename_i hc
      cases hstep
      have hc : c = '\n' := beq_iff_eq.1 hc
      subst hc
      refine ⟨pre ++ line ++ ['\n'], as ++ b.toList, [], none, by simp, .snoc hlines hline (Or.inl rfl),
        ⟨spaces_nil, rfl⟩, ?_⟩
      rw [Option.toList_none, List.append_nil]
      exact hsettle
    · split at hstep
      · rename_i hc
        cases hstep
        have hc : c = '\r' := beq_iff_eq.1 hc
        subst hc
        exact ⟨pre, as, line ++ ['\r'], b, by rw [List.append_assoc], hlines, ⟨line, hline, rfl⟩,
          hsettle⟩
      · cases hstep

theorem Sound.step (h : Sound map w t) (hstep : t.step c = some t') : Sound map (w ++ [c]) t' := by
  have hin := h
  unfold Scan.step at hstep
  split at hstep
  case h_1 hphase =>
    -- the start of a line
    split at hstep
    · rename_i hc
      cases hstep
      refine h.goto fun line a hline => ?_
      rw [hphase] at hline
      exact ⟨hline.1.concat hc, hline.2⟩
    split at hstep
    · rename_i hc
      cases hstep
      refine h.goto fun line a hline => ?_
      rw [hphase] at hline
      exact ⟨⟨line, hline.1, IsKey.push (by simp) hc, by simp⟩, hline.2⟩
    · exact h.ends hstep (by rw [hphase]; rfl) fun _ => by rw [hphase]; rfl
  case h_2 key hphase =>
    split at hstep
    · rename_i hc
      cases hstep
      refine h.goto fun line a hline => ?_
      rw [hphase] at hline
      rcases hline with ⟨⟨sp, hsp, hkey, rfl⟩, ha⟩
      exact ⟨⟨sp, hsp, IsKey.push hkey.2 hc, by simp⟩, ha⟩
    split at hstep
    · rename_i hc
      cases hstep
      refine h.goto fun line a hline => ?_
      rw [hphase] at hline
      rcases hline with ⟨⟨sp, hsp, hkey, rfl⟩, ha⟩
      exact ⟨⟨sp, [c], hsp, hkey, spaces_nil.concat hc, rfl⟩, ha⟩
    split at hstep
    · rename_i hc
      cases hstep
      have hc : c = '=' := beq_iff_eq.1 hc
      subst hc
      refine h.goto fun line a hline => ?_
      rw [hphase] at hline
      rcases hline with ⟨⟨sp, hsp, hkey, rfl⟩, ha⟩
      have hleft := Left.mk hsp hkey spaces_nil
      exact ⟨⟨_, [], hleft, spaces_nil, by simp⟩, ha⟩
    · cases hstep
  case h_3 key hphase =>
    split at hstep
    · rename_i hc
      cases hstep
      refine h.goto fun line a hline => ?_
      rw [hphase] at hline
      rcases hline with ⟨⟨sp, sp₁, hsp, hkey, hsp₁, rfl⟩, ha⟩
      exact ⟨⟨sp, sp₁ ++ [c], hsp, hkey, hsp₁.concat hc, by simp⟩, ha⟩
    split at hstep
    · rename_i hc
      cases hstep
      have hc : c = '=' := beq_iff_eq.1 hc
      subst hc
      refine h.goto fun line a hline => ?_
      rw [hphase] at hline
      rcases hline with ⟨⟨sp, sp₁, hsp, hkey, hsp₁, rfl⟩, ha⟩
      exact ⟨⟨_, [], .mk hsp hkey hsp₁, spaces_nil, by simp⟩, ha⟩
    · cases hstep
  case h_4 key hphase =>
    split at hstep
    · rename_i hc
      cases hstep
      refine h.goto fun line a hline => ?_
      rw [hphase] at hline
      rcases hline with ⟨⟨l, sp, hleft, hsp, rfl⟩, ha⟩
      exact ⟨⟨l, sp ++ [c], hleft, hsp.concat hc, by simp⟩, ha⟩
    split at hstep
    · rename_i hc
      cases hstep
      refine h.goto fun line a hline => ?_
      rw [hphase] at hline
      rcases hline with ⟨⟨l, sp, hleft, hsp, rfl⟩, ha⟩
      exact ⟨⟨l, sp, hleft, hsp, isValue_empty.push hc, by simp⟩, ha⟩
    · exact h.ends hstep (by rw [hphase]; rfl) fun _ => by rw [hphase]; rfl
  case h_5 key value hphase =>
    split at hstep
    · rename_i hc
      cases hstep
      refine h.goto fun line a hline => ?_
      rw [hphase] at hline
      rcases hline with ⟨⟨l, sp, hleft, hsp, hvalue, rfl⟩, ha⟩
      exact ⟨⟨l, sp, hleft, hsp, hvalue.push hc, by simp⟩, ha⟩
    split at hstep
    · rename_i hc
      cases hstep
      refine h.goto fun line a hline => ?_
      rw [hphase] at hline
      rcases hline with ⟨⟨l, sp, hleft, hsp, hvalue, rfl⟩, ha⟩
      exact ⟨⟨l, sp, [c], hleft, hsp, hvalue, spaces_nil.concat hc, rfl⟩, ha⟩
    · exact h.ends hstep (by rw [hphase]; rfl) fun _ => by rw [hphase]; rfl
  case h_6 key value hphase =>
    split at hstep
    · rename_i hc
      cases hstep
      refine h.goto fun line a hline => ?_
      rw [hphase] at hline
      rcases hline with ⟨⟨l, sp, sp₁, hleft, hsp, hvalue, hsp₁, rfl⟩, ha⟩
      exact ⟨⟨l, sp, sp₁ ++ [c], hleft, hsp, hvalue, hsp₁.concat hc, by simp⟩, ha⟩
    · exact h.ends hstep (by rw [hphase]; rfl) fun _ => by rw [hphase]; rfl
  case h_7 hphase =>
    split at hstep
    · cases hstep
    · rename_i hc
      cases hstep
      refine h.goto fun line a hline => ?_
      rw [hphase] at hline
      rcases hline with ⟨l, hcontent, rfl⟩
      exact ⟨l, [c], hcontent, ⟨by simp, by simpa using hc⟩, by simp⟩
  case h_8 hphase =>
    split at hstep
    · rename_i hc
      refine h.ends hstep (by rw [hphase]; rfl) ?_
      -- a comment goes on over `#`
      rintro rfl
      cases hc
    · rename_i hc
      cases hstep
      refine h.goto fun line a hline => ?_
      rw [hphase] at hline
      rcases hline with ⟨l, text, hcontent, ⟨hne, htext⟩, rfl⟩
      refine ⟨l, text ++ [c], hcontent, ⟨by simp, fun d hd => ?_⟩, by simp⟩
      rcases List.mem_append.1 hd with hd | hd
      · exact htext d hd
      · rw [List.mem_singleton.1 hd]
        simpa using hc
  case h_9 hphase =>
    split at hstep
    · rename_i hc
      cases hstep
      have hc : c = '\n' := beq_iff_eq.1 hc
      subst hc
      rcases h with ⟨pre, as, line, a, rfl, hlines, hline, hmap⟩
      rw [hphase] at hline
      rcases hline with ⟨l, hline, rfl⟩
      refine ⟨pre ++ l ++ ['\r', '\n'], as ++ a.toList, [], none, by simp,
        .snoc hlines hline (Or.inr rfl), ⟨spaces_nil, rfl⟩, ?_⟩
      rw [Option.toList_none, List.append_nil, ← hmap]
      exact settle_of_entry_none (by rw [hphase]; rfl)
    · cases hstep

theorem sound_of_read (h : readAll (start map) w = some t) : Sound map w t := by
  induction w using List.reverseRecOn generalizing t with
  | nil =>
      cases h
      exact ⟨[], [], [], none, rfl, .nil, ⟨spaces_nil, rfl⟩, rfl⟩
  | append_singleton w c ih =>
      rcases Automaton.read_concat h with ⟨m, hread, hstep⟩
      exact (ih hread).step hstep

theorem file_of_read (h : readAll (start map) w = some t) (haccepting : t.accepting = true) :
    ∃ as, File w as ∧ t.settle = SortedMap.emplaceAll as map := by
  rcases sound_of_read h with ⟨pre, as, line, a, rfl, hlines, hin, hmap⟩
  rcases hin.line haccepting with ⟨b, hline, hb⟩
  refine ⟨as ++ b.toList, .mk hlines hline, ?_⟩
  rw [settle_eq, hmap, hb, ← emplaceAll_append, List.append_assoc]

end Scan

variable {file : List Char} {map m : Env}

theorem file_of_parse (h : parse file map = .ok m) :
    ∃ as, File file as ∧ m = SortedMap.emplaceAll as map := by
  rcases parse_eq file map with ⟨t, hread, haccepting, hparse⟩ | ⟨w, v, t, _, _, _, hparse⟩
  · rw [hparse] at h
    cases h
    exact Scan.file_of_read hread haccepting
  · rw [hparse] at h
    cases h

theorem parse_file {as : List (String × String)} (hfile : File file as) (map : Env) :
    parse file map = .ok (SortedMap.emplaceAll as map) := by
  rcases Scan.read_file hfile map with ⟨t, hread, haccepting, hsettle⟩
  rcases parse_eq file map with ⟨t', hread', _, hparse⟩ | ⟨w, v, t', hfile, hread', hstuck, _⟩
  · cases hread.symm.trans hread'
    rw [hparse, hsettle]
  · -- the automaton cannot be stuck in a file that it reads
    refine absurd ?_ (Automaton.not_accepts_of_stuck hread' hstuck)
    exact ⟨t, hfile ▸ hread, haccepting⟩

/-- The parser accepts the files of the grammar, and enters their assignments one after the other:
the first one to a key counts. -/
theorem parse_ok_iff :
    parse file map = .ok m ↔ ∃ as, File file as ∧ m = SortedMap.emplaceAll as map := by
  constructor
  · exact file_of_parse
  · rintro ⟨as, hfile, rfl⟩
    exact parse_file hfile map

end Dotenv

end CapyAmqp
