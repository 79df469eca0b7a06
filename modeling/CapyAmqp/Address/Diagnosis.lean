import CapyAmqp.Address.Grammar

/-!
# Diagnosis — what the error of `Address::From` says about the string

A string that is refused is empty, does not have the form of an address, or has a part that a check
refuses.  The scheme is checked first, then the port, then the login; the first check that fails
determines the error (`from_error_iff`).  The error of the login shows the port.
-/

namespace CapyAmqp

open Lib Regex

namespace Address

/-! ## Strings of the form of an address -/

/-- The string matches the expression, and these are its parts. -/
structure Matches (s scheme r u t : Text) : Prop where
  text : s = scheme ++ "://".toList ++ r
  scheme : IsScheme scheme
  noSpace : ' ' ∉ r
  userinfo : UserinfoOf r u t
  hostFollows : HostFollows t

section Shape

variable {s scheme r u t : Text}

theorem matches_iff :
    Matches s scheme r u t ↔
      schemeOf s = some (scheme, r) ∧ ' ' ∉ r ∧ splitUserinfo r = (u, t) ∧ StartsHost t := by
  have htail : ' ' ∉ r → r = u ++ t → ' ' ∉ t := by
    rintro hr rfl hmem
    exact hr (List.mem_append_right _ hmem)
  constructor
  · rintro ⟨htext, hscheme, hspace, huserinfo, hhost⟩
    have ht := htail hspace huserinfo.1
    exact ⟨schemeOf_eq_some_iff.2 ⟨hscheme, htext⟩, hspace,
      splitsUserinfo_iff.1 ((userinfoOf_iff hspace).1 huserinfo), (startsHost_iff ht).2 hhost⟩
  · rintro ⟨hscheme, hspace, hsplit, hstart⟩
    have hsplits := splitsUserinfo_iff.2 hsplit
    have ht := htail hspace hsplits.1
    rcases schemeOf_eq_some_iff.1 hscheme with ⟨hisScheme, htext⟩
    exact ⟨htext, hisScheme, hspace, (userinfoOf_iff hspace).2 hsplits, (startsHost_iff ht).1 hstart⟩

theorem Matches.unique {scheme' r' u' t' : Text} (h : Matches s scheme r u t)
    (h' : Matches s scheme' r' u' t') : scheme' = scheme ∧ r' = r ∧ u' = u ∧ t' = t := by
  rcases matches_iff.1 h with ⟨hscheme, _, hsplit, _⟩
  rcases matches_iff.1 h' with ⟨hscheme', _, hsplit', _⟩
  cases hscheme.symm.trans hscheme'
  cases hsplit.symm.trans hsplit'
  exact ⟨rfl, rfl, rfl, rfl⟩

end Shape

/-! ## Parts that are refused -/

/-- The error of the first check that fails. -/
inductive PartRefused (what : StoiError → String) (scheme u p : Text) : Error → Prop
  | protocol (hscheme : ∀ protocol, ¬ SchemeOf scheme protocol) :
      PartRefused what scheme u p (.address .parse (some (errorString
        ("Url Protocol ".toList ++ scheme.map Char.toUpper ++ " is not supported yet".toList))))
  | numeral {protocol : Protocol} {x : StoiError} (hscheme : SchemeOf scheme protocol) (hne : p ≠ [])
      (hstoi : stoi p = .error x) : PartRefused what scheme u p (.address .parse (some (what x)))
  | range {protocol : Protocol} {n : Int} (hscheme : SchemeOf scheme protocol) (hne : p ≠ [])
      (hstoi : stoi p = .ok n) (hrange : n < 0 ∨ 65535 < n) :
      PartRefused what scheme u p (.address .parse (some (errorString
        ("Address port number ".toList ++ p ++ " is out of range".toList))))
  | login {protocol : Protocol} {port : UInt16} (hscheme : SchemeOf scheme protocol)
      (hport : PortOf p port) (hlogin : ∀ login, ¬ LoginOf u login) :
      PartRefused what scheme u p (.address .parse (some (errorString
        ("LoginImp ".toList ++ p ++ " is not correct".toList))))

section Parts

variable {what : StoiError → String} {scheme u p hostname vhost : Text} {e : Error}

theorem readPort_error_iff :
    readPort what p = .error e ↔ p ≠ [] ∧
      ((∃ x, stoi p = .error x ∧ e = .address .parse (some (what x))) ∨
        ∃ n, stoi p = .ok n ∧ (n < 0 ∨ 65535 < n) ∧ e = .address .parse (some (errorString
          ("Address port number ".toList ++ p ++ " is out of range".toList)))) := by
  unfold readPort
  cases p with
  | nil => simp
  | cons c p =>
      simp only [List.isEmpty_cons, Bool.false_eq_true, if_false, ne_eq, reduceCtorEq,
        not_false_eq_true, true_and]
      cases hread : stoi (c :: p) with
      | error x => simp [eq_comm]
      | ok n =>
          by_cases hrange : 0 ≤ n ∧ n ≤ 65535
          · have hinside : ¬ (n < 0 ∨ 65535 < n) := by
              omega
            simp [hrange, hinside]
          · have houtside : n < 0 ∨ 65535 < n := by
              omega
            simp [hrange, houtside, eq_comm]

theorem readLogin_error_iff (hu : u = [] ∨ IsUserinfo u) :
    readLogin u p = .error e ↔ (∀ login, ¬ LoginOf u login) ∧
      e = .address .parse (some (errorString
        ("LoginImp ".toList ++ p ++ " is not correct".toList))) := by
  have honly : ∀ e, readLogin u p = .error e → e = .address .parse (some (errorString
      ("LoginImp ".toList ++ p ++ " is not correct".toList))) := by
    intro e h
    unfold readLogin at h
    split at h
    · cases h
    · split at h <;> cases h
      rfl
  cases hread : readLogin u p with
  | ok login =>
      have hlogin := (readLogin_ok_iff hu).1 hread
      constructor
      · intro h
        cases h
      · rintro ⟨hnone, _⟩
        exact absurd hlogin (hnone login)
  | error e' =>
      have hnone : ∀ login, ¬ LoginOf u login := by
        intro login h
        rw [(readLogin_ok_iff hu).2 h] at hread
        cases hread
      rw [honly e' hread]
      simp [hnone, eq_comm]

/-- With a scheme that is known, the port is checked before the login. -/
theorem fromGroups_error_of_scheme {protocol : Protocol} (hscheme : SchemeOf scheme protocol) :
    fromGroups what scheme u hostname p vhost = .error e ↔
      readPort what p = .error e ∨ ∃ port, readPort what p = .ok port ∧ readLogin u p = .error e := by
  rcases (protocolOf_upper hscheme.isScheme).2 hscheme with ⟨hproto, hknown⟩
  cases protocol with
  | unknown => exact absurd rfl hknown
  | amqp =>
      simp only [fromGroups, hproto]
      cases readPort what p <;> cases readLogin u p <;> simp
  | amqps =>
      simp only [fromGroups, hproto]
      cases readPort what p <;> cases readLogin u p <;> simp

theorem fromGroups_error_iff (hisScheme : IsScheme scheme) (hu : u = [] ∨ IsUserinfo u) :
    fromGroups what scheme u hostname p vhost = .error e ↔ PartRefused what scheme u p e := by
  by_cases hknown : ∃ protocol, SchemeOf scheme protocol
  · rcases hknown with ⟨protocol, hscheme⟩
    rw [fromGroups_error_of_scheme hscheme, readPort_error_iff]
    constructor
    · rintro (⟨hne, ⟨x, hstoi, rfl⟩ | ⟨n, hstoi, hrange, rfl⟩⟩ | ⟨port, hport, hlogin⟩)
      · exact .numeral hscheme hne hstoi
      · exact .range hscheme hne hstoi hrange
      · rcases (readLogin_error_iff hu).1 hlogin with ⟨hnone, rfl⟩
        exact .login hscheme (readPort_ok_iff.1 hport) hnone
    · intro h
      cases h with
      | protocol hnone => exact absurd hscheme (hnone protocol)
      | numeral _ hne hstoi => exact Or.inl ⟨hne, Or.inl ⟨_, hstoi, rfl⟩⟩
      | range _ hne hstoi hrange => exact Or.inl ⟨hne, Or.inr ⟨_, hstoi, hrange, rfl⟩⟩
      | login _ hport hnone =>
          exact Or.inr ⟨_, readPort_ok_iff.2 hport, (readLogin_error_iff hu).2 ⟨hnone, rfl⟩⟩
  · have hnone : ∀ protocol, ¬ SchemeOf scheme protocol := fun protocol h => hknown ⟨protocol, h⟩
    have hproto : protocolOf (scheme.map Char.toUpper) = .unknown := by
      by_contra hne
      exact hnone _ ((protocolOf_upper hisScheme).1 ⟨rfl, hne⟩)
    simp only [fromGroups, hproto]
    constructor
    · intro h
      cases h
      exact .protocol hnone
    · intro h
      cases h with
      | protocol _ => rfl
      | numeral hscheme => exact absurd hscheme (hnone _)
      | range hscheme => exact absurd hscheme (hnone _)
      | login hscheme => exact absurd hscheme (hnone _)

end Parts

/-- How `From` refuses a string. -/
inductive Refused (what : StoiError → String) (s : Text) : Error → Prop
  | empty (h : s = []) : Refused what s (.address .empty)
  | shape (hne : s ≠ []) (h : ∀ scheme r u t, ¬ Matches (cStr s) scheme r u t) :
      Refused what s (.address .parse)
  | part {scheme r u t : Text} {e : Error} (h : Matches (cStr s) scheme r u t)
      (hpart : PartRefused what scheme u (portText t) e) : Refused what s e

/-- `From` refuses a string in exactly these ways. -/
theorem from_error_iff (what : StoiError → String) {s : Text} {e : Error} :
    fromString what s = .error e ↔ Refused what s e := by
  cases hempty : s.isEmpty with
  | true =>
      have hnil : s = [] := List.isEmpty_iff.1 hempty
      subst hnil
      constructor
      · intro h
        cases h
        exact .empty rfl
      · intro h
        cases h with
        | empty _ => rfl
        | shape hne _ => exact absurd rfl hne
        | part h _ =>
            have hlength := congrArg List.length h.text
            simp [cStr] at hlength
  | false =>
      have hne : s ≠ [] := by
        rintro rfl
        cases hempty
      simp only [fromString, hempty, Bool.false_eq_true, if_false]
      rcases regexMatch_ex (cStr s) with
        ⟨hnone, hno⟩ | ⟨scheme, r, m, hscheme, hstart, hspace, hsome, hm⟩
      · rw [hnone]
        have hshape : ∀ scheme r u t, ¬ Matches (cStr s) scheme r u t := by
          intro scheme r u t h
          rcases matches_iff.1 h with ⟨hscheme, hspace, hsplit, hstart⟩
          refine hno scheme r hscheme ⟨?_, hspace⟩
          rw [hsplit]
          exact hstart
        constructor
        · intro h
          cases h
          exact .shape hne hshape
        · intro h
          cases h with
          | empty h => exact absurd h hne
          | shape _ _ => rfl
          | part h _ => exact absurd h (hshape _ _ _ _)
      · rw [hsome]
        have hmatches : Matches (cStr s) scheme r (splitUserinfo r).1 (splitUserinfo r).2 :=
          matches_iff.2 ⟨hscheme, hspace, rfl, hstart⟩
        have ht : ' ' ∉ (splitUserinfo r).2 := by
          intro hmem
          rw [hmatches.userinfo.1] at hspace
          exact hspace (List.mem_append_right _ hmem)
        have hgroups : fromGroups what (subMatch m 1) (subMatch m 2) (subMatch m 3) (subMatch m 4)
            (subMatch m 5) = .error e ↔
              PartRefused what scheme (splitUserinfo r).1 (portText (splitUserinfo r).2) e := by
          rw [hm.scheme, hm.userinfo, hm.port, (groups_eq ht).2.1]
          exact fromGroups_error_iff hmatches.scheme hmatches.userinfo.isUserinfo
        constructor
        · intro h
          exact .part hmatches (hgroups.1 h)
        · intro h
          cases h with
          | empty h => exact absurd h hne
          | shape _ hnone => exact absurd hmatches (hnone _ _ _ _)
          | part h hpart =>
              rcases hmatches.unique h with ⟨rfl, rfl, rfl, rfl⟩
              exact hgroups.2 hpart

end Address

end CapyAmqp
