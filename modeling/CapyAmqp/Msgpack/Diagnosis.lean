import CapyAmqp.Msgpack.Format

/-!
# Diagnosis — what the error of a parse says about the input

An input that is no text of the format is cut short, has bytes behind a text, or contains a byte
with which no text goes on.  The reader tells these three apart, exactly: `saxParse_ended_iff`,
`saxParse_trailing_iff` and `saxParse_failed_iff`.
-/

namespace CapyAmqp

namespace Msgpack

open Lib

/-! ## Every beginning can be completed -/

theorem completable_getString (len : Nat) : (getString len).Completable :=
  ((Reader.Completable.item Context.string 0).times len).bind fun bytes =>
    .pure (ofStringBytes bytes)

theorem viable_getNumber (k w : Nat) : (getNumber w).ViableUpTo k :=
  ((Reader.ViableUpTo.item Context.number 0).times (.item _ 0) w).bind (fun _ => .pure _)
    fun _ => .pure _

theorem viable_getString (k len : Nat) : (getString len).ViableUpTo k :=
  ((Reader.ViableUpTo.item Context.string 0).times (.item _ 0) len).bind (fun _ => .pure _)
    fun _ => .pure _

theorem viable_getMsgpackString (k : Nat) (b : UInt8) : (getMsgpackString b).ViableUpTo k := by
  unfold getMsgpackString
  split
  · exact viable_getString k _
  · exact (viable_getNumber k _).bind (viable_getString k) completable_getString
  · exact .fail _

theorem completable_parse (fuel : Nat) : (parseMsgpackInternal (fuel + 1)).Completable :=
  ⟨[0xC0], .null, Spells.reads .nil (fuel + 1) (Nat.le_add_left 1 fuel)⟩

section Containers

variable {k : Nat} {parse : MsgReader Json}

theorem completable_getMember (hcomplete : parse.Completable) : (getMember parse).Completable := by
  rcases hcomplete with ⟨p, j, h⟩
  have hkey : SpellsString (ofStringBytes []) [0xA0] := .fixstr (by decide)
  exact ⟨[0xA0] ++ p, (ofStringBytes [], j), reads_getMember hkey h⟩

theorem viable_getMember (h : parse.ViableUpTo k) (hcomplete : parse.Completable) :
    (getMember parse).ViableUpTo k := by
  have hvalue : ∀ key : String,
      ((do let value ← parse; return (key, value)) : MsgReader (String × Json)).Completable :=
    fun key => hcomplete.bind fun _ => .pure _
  rw [getMember, get, Reader.item_bind]
  refine Reader.ViableUpTo.next ?_ fun b j hj => ?_
  · -- a key of length zero
    exact ⟨0xA0, (completable_getString 0).bind hvalue⟩
  · refine (viable_getMsgpackString j b).bind (fun key => ?_) hvalue
    refine Reader.ViableUpTo.bind ?_ (fun _ => .pure _) fun _ => .pure _
    intro input n context m hlength hrun
    exact h input n context m (by omega) hrun

theorem viable_getMsgpackArray (h : parse.ViableUpTo k) (hcomplete : parse.Completable)
    (len : Nat) : (getMsgpackArray parse len).ViableUpTo k :=
  (h.times hcomplete len).bind (fun _ => .pure _) fun _ => .pure _

theorem viable_getMsgpackObject (h : parse.ViableUpTo k) (hcomplete : parse.Completable)
    (len : Nat) : (getMsgpackObject parse len).ViableUpTo k :=
  ((viable_getMember h hcomplete).times (completable_getMember hcomplete) len).bind
    (fun _ => .pure _) fun _ => .pure _

theorem viable_parseByte (h : parse.ViableUpTo k) (hcomplete : parse.Completable) (b : UInt8) :
    (parseByte parse b).ViableUpTo k := by
  have hnumber : ∀ (w : Nat) (f : Nat → Json),
      ((do let number ← getNumber w; return f number) : MsgReader Json).ViableUpTo k :=
    fun w f => (viable_getNumber k w).bind (fun _ => .pure _) fun _ => .pure _
  have hstring : ((do let s ← getMsgpackString b; return .string s) : MsgReader Json).ViableUpTo k :=
    (viable_getMsgpackString k b).bind (fun _ => .pure _) fun _ => .pure _
  unfold parseByte
  cases Head.ofByte b with
  | fixmap len => exact viable_getMsgpackObject h hcomplete len
  | fixarray len => exact viable_getMsgpackArray h hcomplete len
  | fixstr len => exact hstring
  | str w => exact hstring
  | float32 => exact hnumber 4 _
  | float64 => exact hnumber 8 _
  | uint w => exact hnumber w _
  | int w => exact hnumber w _
  | array w =>
      exact (viable_getNumber k w).bind (viable_getMsgpackArray h hcomplete) fun len =>
        (hcomplete.times len).bind fun _ => .pure _
  | map w =>
      exact (viable_getNumber k w).bind (viable_getMsgpackObject h hcomplete) fun len =>
        ((completable_getMember hcomplete).times len).bind fun _ => .pure _
  | other => exact .fail _
  | _ => exact .pure _

end Containers

theorem viable_parse (k : Nat) : (parseMsgpackInternal (k + 1)).ViableUpTo k := by
  induction k with
  | zero =>
      refine Reader.ViableUpTo.next ⟨0xC0, .pure _⟩ fun b j hj => ?_
      omega
  | succ k ih =>
      refine Reader.ViableUpTo.next ⟨0xC0, .pure _⟩ fun b j hj => ?_
      refine viable_parseByte ?_ (completable_parse k) b
      intro input n context m hlength hrun
      exact ih input n context m (by omega) hrun

/-! ## The byte at fault is the last one read -/

def Fault.byte : Fault → UInt8
  | .invalidByte b => b
  | .notAString b => b

/-- The input ends with the byte at fault. -/
def EndsWith (p : Bytes) (fault : Fault) : Prop := ∃ q, p = q ++ [fault.byte]

theorem EndsWith.append {p : Bytes} {fault : Fault} (h : EndsWith p fault) (q : Bytes) :
    EndsWith (q ++ p) fault := by
  rcases h with ⟨p', rfl⟩
  exact ⟨q ++ p', (List.append_assoc q p' _).symm⟩

section Faults

variable {p : Bytes} {fault : Fault}

theorem not_rejects_get {context : Context} (n : Nat) :
    ¬ ((get context).times n).Rejects p fault := by
  intro h
  rcases Reader.rejects_times h with ⟨_, _, _, _, _, h⟩
  exact Reader.not_rejects_item h

theorem not_rejects_getNumber (w : Nat) : ¬ (getNumber w).Rejects p fault := by
  intro h
  rcases Reader.rejects_bind.1 h with h | ⟨_, _, _, _, _, h⟩
  · exact not_rejects_get w h
  · exact h

theorem not_rejects_getString (len : Nat) : ¬ (getString len).Rejects p fault := by
  intro h
  rcases Reader.rejects_bind.1 h with h | ⟨_, _, _, _, _, h⟩
  · exact not_rejects_get len h
  · exact h

theorem rejects_getMsgpackString {b : UInt8} (h : (getMsgpackString b).Rejects p fault) :
    p = [] ∧ fault = .notAString b := by
  unfold getMsgpackString at h
  split at h
  · exact (not_rejects_getString _ h).elim
  · rcases Reader.rejects_bind.1 h with h | ⟨_, _, _, _, _, h⟩
    · exact (not_rejects_getNumber _ h).elim
    · exact (not_rejects_getString _ h).elim
  · exact ⟨h.1, h.2.symm⟩

variable {parse : MsgReader Json}

theorem endsWith_getMember (hparse : ∀ p, parse.Rejects p fault → EndsWith p fault)
    (h : (getMember parse).Rejects p fault) : EndsWith p fault := by
  rcases Reader.rejects_bind.1 h with h | ⟨_, p₂, b, rfl, hb, h⟩
  · exact (Reader.not_rejects_item h).elim
  rw [Reader.reads_item.1 hb]
  rcases Reader.rejects_bind.1 h with h | ⟨p₃, p₄, key, rfl, _, h⟩
  · -- the byte that should announce the key
    rcases rejects_getMsgpackString h with ⟨rfl, rfl⟩
    exact ⟨[], rfl⟩
  rcases Reader.rejects_bind.1 h with h | ⟨_, _, _, _, _, h⟩
  · exact ((hparse p₄ h).append p₃).append [b]
  · exact h.elim

theorem endsWith_times {γ : Type} {r : MsgReader γ} {len : Nat}
    (hr : ∀ p, r.Rejects p fault → EndsWith p fault) (h : (r.times len).Rejects p fault) :
    EndsWith p fault := by
  rcases Reader.rejects_times h with ⟨p₁, p₂, _, rfl, _, h⟩
  exact (hr p₂ h).append p₁

theorem endsWith_array (hparse : ∀ p, parse.Rejects p fault → EndsWith p fault) {len : Nat}
    (h : (getMsgpackArray parse len).Rejects p fault) : EndsWith p fault := by
  rcases Reader.rejects_bind.1 h with h | ⟨_, _, _, _, _, h⟩
  · exact endsWith_times hparse h
  · exact h.elim

theorem endsWith_object (hparse : ∀ p, parse.Rejects p fault → EndsWith p fault) {len : Nat}
    (h : (getMsgpackObject parse len).Rejects p fault) : EndsWith p fault := by
  rcases Reader.rejects_bind.1 h with h | ⟨_, _, _, _, _, h⟩
  · exact endsWith_times (fun _ => endsWith_getMember hparse) h
  · exact h.elim

theorem endsWith_parseByte (hparse : ∀ p, parse.Rejects p fault → EndsWith p fault) {b : UInt8}
    (h : (parseByte parse b).Rejects p fault) : EndsWith (b :: p) fault := by
  have hnumber : ∀ (w : Nat) (f : Nat → Json),
      ¬ ((do let number ← getNumber w; return f number) : MsgReader Json).Rejects p fault := by
    intro w f h
    rcases Reader.rejects_bind.1 h with h | ⟨_, _, _, _, _, h⟩
    · exact not_rejects_getNumber w h
    · exact h
  have hstring : ((do let s ← getMsgpackString b; return .string s) : MsgReader Json).Rejects p fault →
      EndsWith (b :: p) fault := by
    intro h
    rcases Reader.rejects_bind.1 h with h | ⟨_, _, _, _, _, h⟩
    · rcases rejects_getMsgpackString h with ⟨rfl, rfl⟩
      exact ⟨[], rfl⟩
    · exact h.elim
  unfold parseByte at h
  cases hhead : Head.ofByte b with
  | fixmap len =>
      rw [hhead] at h
      exact (endsWith_object hparse h).append [b]
  | fixarray len =>
      rw [hhead] at h
      exact (endsWith_array hparse h).append [b]
  | fixstr len =>
      rw [hhead] at h
      exact hstring h
  | str w =>
      rw [hhead] at h
      exact hstring h
  | float32 =>
      rw [hhead] at h
      exact (hnumber 4 _ h).elim
  | float64 =>
      rw [hhead] at h
      exact (hnumber 8 _ h).elim
  | uint w =>
      rw [hhead] at h
      exact (hnumber w _ h).elim
  | int w =>
      rw [hhead] at h
      exact (hnumber w _ h).elim
  | array w =>
      rw [hhead] at h
      rcases Reader.rejects_bind.1 h with h | ⟨p₁, p₂, _, rfl, _, h⟩
      · exact (not_rejects_getNumber w h).elim
      · exact ((endsWith_array hparse h).append p₁).append [b]
  | map w =>
      rw [hhead] at h
      rcases Reader.rejects_bind.1 h with h | ⟨p₁, p₂, _, rfl, _, h⟩
      · exact (not_rejects_getNumber w h).elim
      · exact ((endsWith_object hparse h).append p₁).append [b]
  | other =>
      rw [hhead] at h
      rcases h with ⟨rfl, rfl⟩
      exact ⟨[], rfl⟩
  | positiveFixint n =>
      rw [hhead] at h
      exact h.elim
  | negativeFixint n =>
      rw [hhead] at h
      exact h.elim
  | nil =>
      rw [hhead] at h
      exact h.elim
  | boolean value =>
      rw [hhead] at h
      exact h.elim

theorem endsWith_of_rejects {fuel : Nat} (h : (parseMsgpackInternal fuel).Rejects p fault) :
    EndsWith p fault := by
  induction fuel generalizing p with
  | zero =>
      cases p with
      | nil => exact h.elim
      | cons b p =>
          rcases h with ⟨rfl, rfl⟩
          exact ⟨[], rfl⟩
  | succ fuel ih =>
      cases p with
      | nil => exact h.elim
      | cons b p => exact endsWith_parseByte (fun _ => ih) h

end Faults

/-! ## The three kinds of errors -/

/-- The input is the beginning of a text, and not the whole of it. -/
def Cut (input : Bytes) : Prop := ∃ q j, q ≠ [] ∧ Spells j (input ++ q)

section Kinds

variable {input p rest : Bytes} {n : Nat}

theorem run_of_fuel {fuel : Nat} (hfuel : input.length ≤ fuel) :
    (parseMsgpackInternal input.length).run input 0 = (parseMsgpackInternal fuel).run input 0 :=
  parseMsgpackInternal_agree (Nat.le_refl _) hfuel input 0 (Nat.le_refl _)

theorem cut_of_ended {context : Context}
    (h : (parseMsgpackInternal input.length).run input 0 = .error (.ended context, n)) :
    Cut input := by
  have hrun := h
  rw [run_of_fuel (Nat.le_succ input.length)] at hrun
  rcases viable_parse input.length input 0 context n (Nat.le_refl _) hrun with ⟨q, j, hreads⟩
  refine ⟨q, j, ?_, spells_of_reads hreads⟩
  rintro rfl
  rw [List.append_nil] at hreads
  have hok := hreads.run [] 0
  rw [List.append_nil, hrun] at hok
  cases hok

theorem Cut.ended (h : Cut input) :
    ∃ context, (parseMsgpackInternal input.length).run input 0 =
      .error (.ended context, input.length + 1) := by
  rcases h with ⟨q, j, hq, htext⟩
  have hreads := htext.reads (input ++ q).length (Nat.le_refl _)
  have hne : input ≠ input ++ q := fun heq => hq (List.self_eq_append_right.1 heq)
  rcases hreads.run_of_truncated (List.prefix_append input q) hne 0 with ⟨context, hrun⟩
  refine ⟨context, ?_⟩
  rw [run_of_fuel (List.prefix_append input q).length_le, hrun, Nat.zero_add]

theorem saxParse_stopped_iff {stop : Stop Context Fault} :
    saxParse input = .error (.stopped stop n) ↔
      (parseMsgpackInternal input.length).run input 0 = .error (stop, n) := by
  unfold saxParse
  constructor
  · intro h
    split at h
    · rename_i hrun
      cases h
      exact hrun
    · cases h
    · cases h
  · intro hrun
    rw [hrun]

/-- The reader runs out of input exactly on the beginnings of texts. -/
theorem saxParse_ended_iff :
    (∃ context, saxParse input = .error (.stopped (.ended context) (input.length + 1))) ↔
      Cut input := by
  constructor
  · rintro ⟨context, h⟩
    exact cut_of_ended (saxParse_stopped_iff.1 h)
  · intro h
    rcases h.ended with ⟨context, hrun⟩
    exact ⟨context, saxParse_stopped_iff.2 hrun⟩

/-- A byte is left over exactly behind a text. -/
theorem saxParse_trailing_iff {b : UInt8} :
    saxParse input = .error (.trailing b n) ↔
      ∃ p rest j, input = p ++ b :: rest ∧ n = p.length + 1 ∧ Spells j p := by
  unfold saxParse
  constructor
  · intro h
    split at h
    · cases h
    · cases h
    · rename_i j b' rest charsRead hrun
      cases h
      rcases Reader.run_ok_iff.1 hrun with ⟨p, hp, rfl, hreads⟩
      exact ⟨p, rest, j, hp, by omega, spells_of_reads hreads⟩
  · rintro ⟨p, rest, j, rfl, rfl, htext⟩
    have hreads := htext.reads (p ++ b :: rest).length (List.prefix_append p _).length_le
    rw [hreads.run (b :: rest) 0, Nat.zero_add]

theorem run_of_rejects {fuel : Nat} {fault : Fault} (hfuel : p.length ≤ fuel)
    (h : (parseMsgpackInternal fuel).Rejects p fault) :
    (parseMsgpackInternal p.length).run p 0 = .error (.failed fault, p.length) := by
  have hrun := h.run [] 0
  rw [List.append_nil, Nat.zero_add] at hrun
  rw [run_of_fuel hfuel, hrun]

/-- Up to the byte at fault the input is the beginning of a text, with it of none. -/
theorem cut_of_rejects {fuel : Nat} {fault : Fault} {b : UInt8} (hfuel : (p ++ [b]).length ≤ fuel)
    (h : (parseMsgpackInternal fuel).Rejects (p ++ [b]) fault) :
    Cut p ∧ ¬ ∃ q j, Spells j (p ++ b :: q) := by
  constructor
  · have hp : p.length ≤ fuel := (List.prefix_append p [b]).length_le.trans hfuel
    have hfailed := h.run [] 0
    rw [List.append_nil] at hfailed
    cases hrun : (parseMsgpackInternal fuel).run p 0 with
    | ok result =>
        -- what is read of `p` is read of the longer input too
        rcases result with ⟨j, rest, m⟩
        rcases Reader.run_ok_iff.1 hrun with ⟨p', rfl, _, hreads⟩
        have hok := hreads.run (rest ++ [b]) 0
        rw [← List.append_assoc, hfailed] at hok
        cases hok
    | error stop =>
        rcases stop with ⟨context | fault', m⟩
        · rw [← run_of_fuel hp] at hrun
          exact cut_of_ended hrun
        · rcases Reader.run_failed_iff.1 hrun with ⟨p', rest, rfl, _, hrejects⟩
          have hearly := hrejects.run (rest ++ [b]) 0
          rw [← List.append_assoc, hfailed] at hearly
          simp at hearly
  · rintro ⟨q, j, htext⟩
    have hreads := htext.reads (fuel + (p ++ b :: q).length) (Nat.le_add_left _ _)
    have hok := hreads.run [] 0
    have hrun := run_of_rejects hfuel h
    rw [List.append_nil] at hok
    rw [run_of_fuel (show (p ++ [b]).length ≤ fuel + (p ++ b :: q).length by omega)] at hrun
    rcases Reader.run_failed_iff.1 hrun with ⟨p', rest, hp', _, hrejects⟩
    have hfailed := hrejects.run (rest ++ q) 0
    rw [← List.append_assoc, ← hp', List.append_assoc, List.singleton_append, hok] at hfailed
    cases hfailed

theorem dead_of_failed {fault : Fault}
    (h : (parseMsgpackInternal input.length).run input 0 = .error (.failed fault, n)) :
    ∃ p rest, input = p ++ fault.byte :: rest ∧ n = p.length + 1 ∧ Cut p ∧
      ¬ ∃ q j, Spells j (p ++ fault.byte :: q) := by
  rcases Reader.run_failed_iff.1 h with ⟨p, rest, hinput, rfl, hrejects⟩
  rcases endsWith_of_rejects hrejects with ⟨p', rfl⟩
  have hfuel : (p' ++ [fault.byte]).length ≤ input.length := by
    rw [hinput]
    exact (List.prefix_append _ rest).length_le
  rcases cut_of_rejects hfuel hrejects with ⟨hcut, hdead⟩
  exact ⟨p', rest, by simpa using hinput, by simp, hcut, hdead⟩

/-- A prefix longer than `p` takes the byte behind `p`. -/
theorem exists_of_longer {b : UInt8} {r t : Bytes} (h : p ++ b :: rest = r ++ t)
    (hlt : p.length < r.length) : ∃ s, r = p ++ b :: s := by
  rcases List.append_eq_append_iff.1 h with ⟨as, rfl, has⟩ | ⟨bs, rfl, _⟩
  · cases as with
    | nil => simp at hlt
    | cons a as =>
        cases has
        exact ⟨as, rfl⟩
  · simp at hlt

/-- There is one place only where an input stops being the beginning of a text. -/
theorem length_le_of_dead {b b' : UInt8} {r t : Bytes} (h : p ++ b :: rest = r ++ b' :: t)
    (hdead : ¬ ∃ q j, Spells j (p ++ b :: q)) (hcut : Cut r) : r.length ≤ p.length := by
  by_contra hlt
  rcases exists_of_longer h (not_le.1 hlt) with ⟨s, rfl⟩
  rcases hcut with ⟨q, j, _, htext⟩
  exact hdead ⟨s ++ q, j, by simpa using htext⟩

/-- A byte is refused exactly if what precedes it is the beginning of a text, and of none with the
byte. -/
theorem saxParse_failed_iff :
    (∃ fault, saxParse input = .error (.stopped (.failed fault) n)) ↔
      ∃ p b rest, input = p ++ b :: rest ∧ n = p.length + 1 ∧ Cut p ∧
        ¬ ∃ q j, Spells j (p ++ b :: q) := by
  constructor
  · rintro ⟨fault, h⟩
    rcases dead_of_failed (saxParse_stopped_iff.1 h) with ⟨p, rest, hinput, hn, hcut, hdead⟩
    exact ⟨p, fault.byte, rest, hinput, hn, hcut, hdead⟩
  · rintro ⟨p, b, rest, rfl, rfl, hcut, hdead⟩
    cases h : saxParse (p ++ b :: rest) with
    | ok j => exact (hdead ⟨rest, j, saxParse_ok_iff.1 h⟩).elim
    | error failure =>
        rcases failure with ⟨⟨context⟩ | ⟨fault⟩, m⟩ | ⟨b', m⟩
        · -- the whole input would be the beginning of a text
          rcases cut_of_ended (saxParse_stopped_iff.1 h) with ⟨q, j, _, htext⟩
          exact (hdead ⟨rest ++ q, j, by simpa using htext⟩).elim
        · rcases dead_of_failed (saxParse_stopped_iff.1 h) with ⟨p', t, hp', rfl, hcut', hdead'⟩
          have hle := length_le_of_dead hp' hdead hcut'
          have hge := length_le_of_dead hp'.symm hdead' hcut
          exact ⟨fault, by rw [show p'.length = p.length by omega]⟩
        · -- a text would end before or behind the byte
          rcases saxParse_trailing_iff.1 h with ⟨p', t, j, hp', _, htext⟩
          rcases hcut with ⟨q, j', hq, htext'⟩
          by_cases hlt : p.length < p'.length
          · rcases exists_of_longer hp' hlt with ⟨s, rfl⟩
            exact (hdead ⟨s, j, htext⟩).elim
          · have hinit : p' <+: p :=
              List.prefix_of_prefix_length_le ⟨b' :: t, hp'.symm⟩ ⟨b :: rest, rfl⟩ (not_lt.1 hlt)
            have heq := (htext.eq_of_prefix htext' (hinit.trans (List.prefix_append p q))).1
            have hlength := congrArg List.length heq
            rw [List.length_append] at hlength
            have hpos := List.length_pos_iff.2 hq
            omega

end Kinds

end Msgpack

end CapyAmqp
