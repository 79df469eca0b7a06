import CapyAmqp.Address.Grammar

/-!
# Port — how exactly the port text is read

The expression admits any text without `/` and space as a port, and `std::stoi` with base 0 reads a
number at its front: it skips white space, takes a sign, takes `0x` and `0` for other bases, and
ignores what follows.  Of a string with a NUL only what precedes it is seen.  `port_exact_iff` says
for which addresses the result is nevertheless the decimal value of the whole text.
-/

namespace CapyAmqp

open Lib

namespace Address

/-- A decimal numeral up to 65535. -/
def IsPortNumeral (p : Text) : Prop :=
  IsNumeral p ∧ decimal p ≤ 65535

/-- If the string is an address with a port text, that is a decimal numeral with the port as its
value, and otherwise `From` refuses the string with `PARSE`. -/
def PortExact (what : StoiError → String) (s : Text) : Prop :=
  ∀ scheme r u t, Splits s scheme r u t → portText t ≠ [] →
    (∀ a, fromString what s = .ok a →
      IsPortNumeral (portText t) ∧ a.getPort.toNat = decimal (portText t)) ∧
    (¬ IsPortNumeral (portText t) →
      ∃ e, fromString what s = .error e ∧ e.value = AddressError.parse.toInt)

/-! ## A NUL behind the host -/

section Nul

variable {r u t u₀ t₀ p : Text}

theorem cStr_cons_nul (s : Text) : cStr ('\x00' :: s) = [] := rfl

theorem cStr_cons {c : Char} (h : c ≠ '\x00') (s : Text) : cStr (c :: s) = c :: cStr s :=
  List.takeWhile_cons_of_pos (by simpa using h)

theorem dropWhile_cStr {q : Char → Bool} (h : '\x00' ∉ t.takeWhile q) :
    (cStr t).dropWhile q = cStr (t.dropWhile q) := by
  induction t with
  | nil => rfl
  | cons c t ih =>
      by_cases hq : q c = true
      · rw [List.takeWhile_cons_of_pos hq] at h
        have hc : c ≠ '\x00' := fun heq => h (heq ▸ List.mem_cons_self)
        rw [cStr_cons hc, List.dropWhile_cons_of_pos hq, List.dropWhile_cons_of_pos hq,
          ih fun hmem => h (List.mem_cons_of_mem c hmem)]
      · rw [List.dropWhile_cons_of_neg hq]
        by_cases hc : c = '\x00'
        · rw [hc, cStr_cons_nul, List.dropWhile_nil]
        · rw [cStr_cons hc, List.dropWhile_cons_of_neg hq]

theorem behindHost_cStr (h : '\x00' ∉ host t) : behindHost (cStr t) = cStr (behindHost t) := by
  unfold behindHost
  rw [dropWhile_cStr h]
  cases t.dropWhile notHostEnd with
  | nil => rfl
  | cons c d =>
      by_cases hc : c = '\x00'
      · rw [hc]
        rfl
      · rw [cStr_cons hc, after_cons, after_cons]
        by_cases hcolon : c = ':'
        · simp [hcolon]
        · simp [hcolon, cStr_cons hc]

/-- The port text is cut like the string. -/
theorem portText_cStr (h : '\x00' ∉ host t) : portText (cStr t) = cStr (portText t) := by
  rw [portText, behindHost_cStr h, portText, cStr, cStr, List.takeWhile_takeWhile,
    List.takeWhile_takeWhile]
  simp only [and_comm]

theorem UserinfoOf.unique (h : UserinfoOf r u t) (h' : UserinfoOf r u₀ t₀) : u₀ = u ∧ t₀ = t := by
  rcases h with ⟨hr, ⟨hu, hhost⟩ | ⟨rfl, hnone⟩⟩
  · rcases h' with ⟨hr₀, ⟨hu₀, _⟩ | ⟨_, hnone⟩⟩
    · -- both end at the first `@`
      have hend := userinfoEnd_of_isUserinfo hu t
      have hend₀ := userinfoEnd_of_isUserinfo hu₀ t₀
      rw [← hr] at hend
      rw [← hr₀, hend] at hend₀
      cases hend₀
      exact ⟨List.append_cancel_right (hr₀.symm.trans hr), rfl⟩
    · exact absurd hhost (hnone u t hr hu)
  · rcases h' with ⟨hr₀, ⟨hu₀, hhost₀⟩ | ⟨rfl, _⟩⟩
    · exact absurd hhost₀ (hnone u₀ t₀ hr₀ hu₀)
    · exact ⟨rfl, hr₀.symm.trans hr⟩

/-- If the host has no NUL, a NUL further on leaves the userinfo as it is. -/
theorem UserinfoOf.cStr (h : UserinfoOf r u t) (hhost : '\x00' ∉ host t) :
    UserinfoOf (cStr r) u (Address.cStr t) := by
  have hcut : Address.cStr r = u ++ Address.cStr t := by
    rw [h.1, cStr_append h.nul_not_mem]
  refine ⟨hcut, ?_⟩
  rcases h.2 with ⟨hu, c, t', rfl, hslash, hcolon⟩ | ⟨rfl, hnone⟩
  · have hc : c ≠ '\x00' := by
      rintro rfl
      exact hhost (by simp [host, notHostEnd])
    exact Or.inl ⟨hu, c, Address.cStr t', cStr_cons hc t', hslash, hcolon⟩
  · refine Or.inr ⟨rfl, ?_⟩
    rintro u' t' hr' hu' ⟨c, d, rfl, hslash, hcolon⟩
    -- the host would follow in the whole text too
    have hr : r = u' ++ (c :: (d ++ r.dropWhile (· ≠ '\x00'))) := by
      calc r = Address.cStr r ++ r.dropWhile (· ≠ '\x00') := List.takeWhile_append_dropWhile.symm
        _ = u' ++ (c :: (d ++ r.dropWhile (· ≠ '\x00'))) := by
          rw [hr', List.append_assoc, List.cons_append]
    exact hnone u' _ hr hu' ⟨c, _, rfl, hslash, hcolon⟩

theorem nul_not_mem_of_isNumeral (h : IsNumeral p) : '\x00' ∉ p := fun hmem => by
  have hdigit := h.2 _ hmem
  revert hdigit
  decide

end Nul

/-! ## The port and its text -/

section PortText

variable {what : StoiError → String} {s scheme r u t u₀ t₀ p : Text} {a : Address}

/-- A port is the decimal value of its text for the plain numerals only. -/
theorem PortOf.exact_iff {port : UInt16} (h : PortOf p port) (hne : p ≠ []) :
    (IsPortNumeral p ∧ port.toNat = decimal p) ↔ IsPlainNumeral p := by
  rcases h with ⟨hempty, _⟩ | ⟨_, n, hread, hlow, hhigh, hport⟩
  · exact absurd hempty hne
  · rw [← stoi_exact_iff hread]
    constructor
    · rintro ⟨⟨hnumeral, _⟩, hvalue⟩
      refine ⟨hnumeral, ?_⟩
      omega
    · rintro ⟨hnumeral, hvalue⟩
      refine ⟨⟨hnumeral, ?_⟩, ?_⟩
      · omega
      · omega

/-- The port that is seen is the decimal value of the port text that stands there.  With a NUL in the
host the two come from different texts. -/
theorem PortOf.exact_iff_of_seen {port : UInt16} (h : UserinfoOf r u t)
    (hseen : UserinfoOf (cStr r) u₀ t₀) (hport : PortOf (portText t₀) port)
    (hne : portText t ≠ []) :
    (IsPortNumeral (portText t) ∧ port.toNat = decimal (portText t)) ↔
      ('\x00' ∉ host t ∧ IsPlainNumeral (portText t)) ∨
        ('\x00' ∈ host t ∧ IsPortNumeral (portText t) ∧
          PortOf (portText t₀) (UInt16.ofNat (decimal (portText t)))) := by
  by_cases hnul : '\x00' ∈ host t
  · simp only [hnul, not_true_eq_false, false_and, false_or, true_and]
    refine and_congr_right fun hnumeral => ?_
    constructor
    · intro hvalue
      rwa [← hvalue, UInt16.ofNat_toNat]
    · intro hport'
      rw [hport.unique hport', UInt16.toNat_ofNat_of_lt' (Nat.lt_succ_of_le hnumeral.2)]
  · simp only [hnul, not_false_eq_true, true_and, false_and, or_false]
    rcases (h.cStr hnul).unique hseen with ⟨rfl, rfl⟩
    rw [portText_cStr hnul] at hport
    constructor
    · rintro ⟨hnumeral, hvalue⟩
      rw [cStr_of_not_mem (nul_not_mem_of_isNumeral hnumeral.1)] at hport
      exact (hport.exact_iff hne).1 ⟨hnumeral, hvalue⟩
    · intro hplain
      rw [cStr_of_not_mem (nul_not_mem_of_isNumeral hplain.1)] at hport
      exact (hport.exact_iff hne).2 hplain

/-- The port is read exactly just when the other checks of `From` refuse the string, or there is no
port text, or it is a decimal numeral without a leading zero (or with one, if it is below eight), or
there is a NUL in the host and the port text that is seen before it stands for the same number. -/
theorem port_exact_iff (what : StoiError → String) (s : Text) :
    PortExact what s ↔ ∀ scheme r u t u₀ t₀, Splits s scheme r u t → UserinfoOf (cStr r) u₀ t₀ →
      Admissible (cStr r) u₀ t₀ → portText t = [] ∨
        ('\x00' ∉ host t ∧ IsPlainNumeral (portText t)) ∨
          ('\x00' ∈ host t ∧ IsPortNumeral (portText t) ∧
            PortOf (portText t₀) (UInt16.ofNat (decimal (portText t)))) := by
  constructor
  · intro h scheme r u t u₀ t₀ hsplits huserinfo hadmissible
    by_cases hne : portText t = []
    · exact Or.inl hne
    · -- the address is accepted, with the port that `stoi` reads
      have hsees : Sees s scheme r u₀ t₀ := ⟨hsplits.text, hsplits.scheme, huserinfo⟩
      rcases hsees.splits.parses hadmissible with ⟨a, hparses⟩
      have haccepts : fromString what s = .ok a :=
        fromString_ok_iff.2 ⟨scheme, cStr r, u₀, t₀, hparses⟩
      have hexact := (h scheme r u t hsplits hne).1 a haccepts
      exact Or.inr ((hparses.port.exact_iff_of_seen hsplits.userinfo huserinfo hne).1 hexact)
  · intro h scheme r u t hsplits hne
    have hexact : ∀ a, fromString what s = .ok a →
        IsPortNumeral (portText t) ∧ a.getPort.toNat = decimal (portText t) := by
      intro a haccepts
      rcases fromString_ok_iff.1 haccepts with ⟨scheme', seen, u₀, t₀, hparses⟩
      -- the text behind the scheme is seen up to its first NUL
      have hseen : scheme' = scheme ∧ seen = cStr r := by
        rcases hsplits.scheme with ⟨protocol, hprotocol⟩
        have htext : cStr s = scheme ++ "://".toList ++ cStr r := by
          rw [hsplits.text, hprotocol.cStr_eq]
        have hscheme : schemeOf (cStr s) = some (scheme, cStr r) :=
          schemeOf_eq_some_iff.2 ⟨hprotocol.isScheme, htext⟩
        rw [hparses.scan.1] at hscheme
        cases hscheme
        exact ⟨rfl, rfl⟩
      rcases hseen with ⟨rfl, rfl⟩
      rcases h scheme' r u t u₀ t₀ hsplits hparses.userinfo hparses.splits.2 with hempty | hplain
      · exact absurd hempty hne
      · exact (hparses.port.exact_iff_of_seen hsplits.userinfo hparses.userinfo hne).2 hplain
    refine ⟨hexact, ?_⟩
    intro hnot
    -- with another port text the string is not accepted, and every refusal has the code `PARSE`
    cases hrun : fromString what s with
    | ok a =>
        exact absurd (hexact a hrun).1 hnot
    | error e =>
        refine ⟨e, rfl, fromString_error ?_ hrun⟩
        rintro rfl
        have hlength := congrArg List.length hsplits.text
        simp at hlength

/-- An address without userinfo, whose port is not the value of its port text. -/
theorem not_portExact_of_accepts {port : UInt16}
    (htext : s = "amqp".toList ++ "://".toList ++ t) (hspace : ' ' ∉ t)
    (hsplit : splitUserinfo t = ([], t)) (hne : portText t ≠ [])
    (haccepts : (fromString what s).map getPort = .ok port)
    (hnot : ¬ (IsNumeral (portText t) ∧ port.toNat = decimal (portText t))) :
    ¬ PortExact what s := by
  intro h
  have huserinfo : UserinfoOf t [] t := (userinfoOf_iff hspace).2 (splitsUserinfo_iff.2 hsplit)
  have hsplits : Splits s "amqp".toList t [] t :=
    ⟨htext, ⟨.amqp, Or.inl ⟨rfl, rfl⟩⟩, huserinfo⟩
  cases hrun : fromString what s with
  | error e =>
      rw [hrun] at haccepts
      cases haccepts
  | ok a =>
      rw [hrun] at haccepts
      cases haccepts
      rcases (h _ _ _ _ hsplits hne).1 a hrun with ⟨⟨hnumeral, _⟩, hvalue⟩
      exact hnot ⟨hnumeral, hvalue⟩

/-- The port text `0x10` is read as 16, `010` as 8, `80abc` as 80, and so is 80 with a NUL and more
text behind it. -/
theorem port_not_exact :
    ¬ PortExact (fun _ => "stoi") "amqp://h:0x10".toList ∧
      ¬ PortExact (fun _ => "stoi") "amqp://h:010".toList ∧
      ¬ PortExact (fun _ => "stoi") "amqp://h:80abc".toList ∧
      ¬ PortExact (fun _ => "stoi") "amqp://h:80\x00abc".toList := by
  refine ⟨?_, ?_, ?_, ?_⟩
  · exact not_portExact_of_accepts (t := "h:0x10".toList) (by decide +kernel)
      (by decide +kernel) (by decide +kernel) (by decide +kernel) rfl (by decide +kernel)
  · exact not_portExact_of_accepts (t := "h:010".toList) (by decide +kernel)
      (by decide +kernel) (by decide +kernel) (by decide +kernel) rfl (by decide +kernel)
  · exact not_portExact_of_accepts (t := "h:80abc".toList) (by decide +kernel)
      (by decide +kernel) (by decide +kernel) (by decide +kernel) rfl (by decide +kernel)
  · exact not_portExact_of_accepts (t := "h:80\x00abc".toList) (by decide +kernel)
      (by decide +kernel) (by decide +kernel) (by decide +kernel) rfl (by decide +kernel)

end PortText

end Address

end CapyAmqp
