import CapyAmqp.Msgpack.Reader

/-!
# Format — the MessagePack format as a relation

`Spells j bytes` says that `bytes` is a MessagePack text of the value `j`: the bytes that announce a
value, the digits of its numbers and the entries of its objects stand here as the format has them,
without a word on how they are read.  The reader accepts exactly the texts of the format and delivers
what they spell (`fromMsgpack_ok_iff`); the texts are a prefix code (`Spells.eq_of_prefix`), and what
they spell is a value that a `basic_json` can hold, with sizes in 32 bits (`Spells.encodable`).
-/

namespace CapyAmqp

namespace Msgpack

open Lib

/-! ## The format -/

/-- `bytes` is a number of `w` bytes, most significant first. -/
def SpellsNumber (w n : Nat) (bytes : Bytes) : Prop :=
  bytes.length = w ∧ Nat.ofDigits 256 (bytes.reverse.map UInt8.toNat) = n

/-- `bytes` is the two's complement of `n` in `w` bytes. -/
def SpellsInt (w : Nat) (n : Int) (bytes : Bytes) : Prop :=
  -(256 ^ w : Nat) ≤ 2 * n ∧ 2 * n < (256 ^ w : Nat) ∧
    ∃ k : Nat, SpellsNumber w k bytes ∧ n ≡ k [ZMOD (256 ^ w : Nat)]

/-! The bytes that announce a number or a size, and its width. -/

def uintCodes : List (UInt8 × Nat) := [(0xCC, 1), (0xCD, 2), (0xCE, 4), (0xCF, 8)]

def intCodes : List (UInt8 × Nat) := [(0xD0, 1), (0xD1, 2), (0xD2, 4), (0xD3, 8)]

def strCodes : List (UInt8 × Nat) := [(0xD9, 1), (0xDA, 2), (0xDB, 4)]

def arrayCodes : List (UInt8 × Nat) := [(0xDC, 2), (0xDD, 4)]

def mapCodes : List (UInt8 × Nat) := [(0xDE, 2), (0xDF, 4)]

/-- A string: its length, in the first byte or behind it, and its bytes. -/
inductive SpellsString : String → Bytes → Prop
  | fixstr {bytes : Bytes} (hlen : bytes.length < 32) :
      SpellsString (ofStringBytes bytes) (UInt8.ofNat (0xA0 + bytes.length) :: bytes)
  | str {b : UInt8} {w : Nat} {len bytes : Bytes} (hcode : (b, w) ∈ strCodes)
      (hlen : SpellsNumber w bytes.length len) :
      SpellsString (ofStringBytes bytes) (b :: (len ++ bytes))

/-- The header of an array of `n` elements. -/
inductive SpellsArraySize (n : Nat) : Bytes → Prop
  | fixarray (hn : n < 16) : SpellsArraySize n [UInt8.ofNat (0x90 + n)]
  | array {b : UInt8} {w : Nat} {len : Bytes} (hcode : (b, w) ∈ arrayCodes)
      (hlen : SpellsNumber w n len) : SpellsArraySize n (b :: len)

/-- The header of an object of `n` entries. -/
inductive SpellsObjectSize (n : Nat) : Bytes → Prop
  | fixmap (hn : n < 16) : SpellsObjectSize n [UInt8.ofNat (0x80 + n)]
  | map {b : UInt8} {w : Nat} {len : Bytes} (hcode : (b, w) ∈ mapCodes)
      (hlen : SpellsNumber w n len) : SpellsObjectSize n (b :: len)

/-- The members that entries stand for: under every key there is the last entry of the key. -/
def LastCounts (entries members : List (String × Json)) : Prop :=
  SortedMap.Sorted members ∧ ∀ key, members.lookup key = entries.reverse.lookup key

mutual

inductive Spells : Json → Bytes → Prop
  | positiveFixint {n : Nat} (hn : n < 128) : Spells (.number n) [UInt8.ofNat n]
  | negativeFixint {k : Nat} (hk : k < 32) : Spells (.number (k - 32)) [UInt8.ofNat (0xE0 + k)]
  | nil : Spells .null [0xC0]
  | boolean {value : Bool} : Spells (.boolean value) [if value then 0xC3 else 0xC2]
  | float32 {bits : BitVec 64} {n : Nat} {bytes : Bytes} (hnumber : SpellsNumber 4 n bytes)
      (hbits : Ieee.Widens n bits.toNat) : Spells (.float bits) (0xCA :: bytes)
  | float64 {bits : BitVec 64} {bytes : Bytes} (hnumber : SpellsNumber 8 bits.toNat bytes) :
      Spells (.float bits) (0xCB :: bytes)
  | uint {b : UInt8} {w n : Nat} {bytes : Bytes} (hcode : (b, w) ∈ uintCodes)
      (hnumber : SpellsNumber w n bytes) : Spells (.number n) (b :: bytes)
  | int {b : UInt8} {w : Nat} {n : Int} {bytes : Bytes} (hcode : (b, w) ∈ intCodes)
      (hnumber : SpellsInt w n bytes) : Spells (.number n) (b :: bytes)
  | string {s : String} {bytes : Bytes} (h : SpellsString s bytes) : Spells (.string s) bytes
  | array {elements : List Json} {size bytes : Bytes} (hsize : SpellsArraySize elements.length size)
      (h : SpellsElements elements bytes) : Spells (.array elements) (size ++ bytes)
  | object {entries members : List (String × Json)} {size bytes : Bytes}
      (hsize : SpellsObjectSize entries.length size) (h : SpellsEntries entries bytes)
      (hmembers : LastCounts entries members) : Spells (.object members) (size ++ bytes)

inductive SpellsElements : List Json → Bytes → Prop
  | nil : SpellsElements [] []
  | cons {j : Json} {js : List Json} {bytes rest : Bytes} (h : Spells j bytes)
      (hrest : SpellsElements js rest) : SpellsElements (j :: js) (bytes ++ rest)

/-- The entries of an object as they stand in a text: a key may occur more than once. -/
inductive SpellsEntries : List (String × Json) → Bytes → Prop
  | nil : SpellsEntries [] []
  | cons {key : String} {j : Json} {entries : List (String × Json)} {bytes bytes' rest : Bytes}
      (hkey : SpellsString key bytes) (h : Spells j bytes') (hrest : SpellsEntries entries rest) :
      SpellsEntries ((key, j) :: entries) (bytes ++ (bytes' ++ rest))

end

/-! ## The first byte -/

/-- The byte is the one that the format has for the case of the `switch`. -/
def Head.announcedBy (b : UInt8) : Head → Bool
  | .positiveFixint n => decide (n < 128 ∧ b = UInt8.ofNat n)
  | .fixmap len => decide (len < 16 ∧ b = UInt8.ofNat (0x80 + len))
  | .fixarray len => decide (len < 16 ∧ b = UInt8.ofNat (0x90 + len))
  | .fixstr len => decide (len < 32 ∧ b = UInt8.ofNat (0xA0 + len))
  | .nil => decide (b = 0xC0)
  | .boolean value => decide (b = if value then 0xC3 else 0xC2)
  | .float32 => decide (b = 0xCA)
  | .float64 => decide (b = 0xCB)
  | .uint w => decide ((b, w) ∈ uintCodes)
  | .int w => decide ((b, w) ∈ intCodes)
  | .str w => decide ((b, w) ∈ strCodes)
  | .array w => decide ((b, w) ∈ arrayCodes)
  | .map w => decide ((b, w) ∈ mapCodes)
  | .negativeFixint n => decide (-32 ≤ n ∧ n < 0 ∧ b = UInt8.ofNat (0xE0 + (n + 32).toNat))
  | .other => true

theorem announcedBy_ofByte (b : UInt8) : (Head.ofByte b).announcedBy b = true := by
  have h : ∀ n : Fin 256,
      (Head.ofByte (UInt8.ofNat n.val)).announcedBy (UInt8.ofNat n.val) = true := by
    decide +kernel
  have hb := h ⟨b.toNat, b.toNat_lt⟩
  rwa [UInt8.ofNat_toNat] at hb

theorem announcedBy_of_head {b : UInt8} {head : Head} (hhead : Head.ofByte b = head) :
    head.announcedBy b = true :=
  hhead ▸ announcedBy_ofByte b

theorem head_positiveFixint {n : Nat} (h : n < 128) :
    Head.ofByte (UInt8.ofNat n) = .positiveFixint n := by
  have hall : ∀ n : Fin 128, Head.ofByte (UInt8.ofNat n.val) = .positiveFixint n.val := by
    decide +kernel
  exact hall ⟨n, h⟩

theorem head_negativeFixint {k : Nat} (h : k < 32) :
    Head.ofByte (UInt8.ofNat (0xE0 + k)) = .negativeFixint (k - 32) := by
  have hall : ∀ k : Fin 32,
      Head.ofByte (UInt8.ofNat (0xE0 + k.val)) = .negativeFixint (k.val - 32) := by
    decide +kernel
  exact hall ⟨k, h⟩

theorem head_fixstr {n : Nat} (h : n < 32) : Head.ofByte (UInt8.ofNat (0xA0 + n)) = .fixstr n := by
  have hall : ∀ n : Fin 32, Head.ofByte (UInt8.ofNat (0xA0 + n.val)) = .fixstr n.val := by
    decide +kernel
  exact hall ⟨n, h⟩

theorem head_fixarray {n : Nat} (h : n < 16) :
    Head.ofByte (UInt8.ofNat (0x90 + n)) = .fixarray n := by
  have hall : ∀ n : Fin 16, Head.ofByte (UInt8.ofNat (0x90 + n.val)) = .fixarray n.val := by
    decide +kernel
  exact hall ⟨n, h⟩

theorem head_fixmap {n : Nat} (h : n < 16) : Head.ofByte (UInt8.ofNat (0x80 + n)) = .fixmap n := by
  have hall : ∀ n : Fin 16, Head.ofByte (UInt8.ofNat (0x80 + n.val)) = .fixmap n.val := by
    decide +kernel
  exact hall ⟨n, h⟩

theorem head_boolean (value : Bool) :
    Head.ofByte (if value then 0xC3 else 0xC2) = .boolean value := by
  cases value <;> rfl

theorem head_uint : ∀ code ∈ uintCodes, Head.ofByte code.1 = .uint code.2 := by decide

theorem head_int : ∀ code ∈ intCodes, Head.ofByte code.1 = .int code.2 := by decide

theorem head_str : ∀ code ∈ strCodes, Head.ofByte code.1 = .str code.2 := by decide

theorem head_array : ∀ code ∈ arrayCodes, Head.ofByte code.1 = .array code.2 := by decide

theorem head_map : ∀ code ∈ mapCodes, Head.ofByte code.1 = .map code.2 := by decide

/-! ## Numbers and strings -/

theorem spellsNumber_iff {w n : Nat} {bytes : Bytes} :
    SpellsNumber w n bytes ↔ bytes.length = w ∧ ofBigEndian bytes = n := by
  rw [SpellsNumber, ofDigits_reverse]

theorem spellsInt_iff {w : Nat} {n : Int} {bytes : Bytes} :
    SpellsInt w n bytes ↔ ∃ k, SpellsNumber w k bytes ∧ n = signed w k := by
  simp only [SpellsInt, eq_signed_iff]
  constructor
  · rintro ⟨hlow, hhigh, k, hnumber, hmod⟩
    exact ⟨k, hnumber, hlow, hhigh, hmod⟩
  · rintro ⟨k, hnumber, hlow, hhigh, hmod⟩
    exact ⟨hlow, hhigh, k, hnumber, hmod⟩

/-- A number of `w` bytes, of the widths in use. -/
theorem SpellsNumber.lt {w n : Nat} {bytes : Bytes} (h : SpellsNumber w n bytes) : n < 256 ^ w := by
  rcases spellsNumber_iff.1 h with ⟨rfl, rfl⟩
  exact ofBigEndian_lt bytes

theorem SpellsNumber.lt_of_width {w v n : Nat} {bytes : Bytes} (h : SpellsNumber w n bytes)
    (hw : w ≤ v) : n < 256 ^ v :=
  h.lt.trans_le (Nat.pow_le_pow_right (by decide) hw)

/-- The double that a single widens to. -/
theorem widens_iff_eq {n : Nat} {bytes : Bytes} {bits : BitVec 64} (h : SpellsNumber 4 n bytes) :
    Ieee.Widens n bits.toNat ↔ bits = BitVec.ofNat 64 (Ieee.widen n) := by
  have hn : n < 2 ^ 32 := h.lt
  have hwiden : Ieee.widen n % 2 ^ 64 = Ieee.widen n := Nat.mod_eq_of_lt (Ieee.widen_lt hn)
  rw [Ieee.widens_iff hn bits.isLt, ← BitVec.toNat_inj, BitVec.toNat_ofNat, hwiden]

theorem readsAll_item {context : Context} {p : Bytes} {bs : Bytes} :
    Reader.ReadsAll (get context) p bs ↔ p = bs := by
  induction bs generalizing p with
  | nil => exact Iff.rfl
  | cons b bs ih =>
      simp only [Reader.ReadsAll, get, Reader.reads_item]
      constructor
      · rintro ⟨_, p₂, rfl, rfl, h⟩
        rw [(ih (p := p₂)).1 h]
        rfl
      · rintro rfl
        exact ⟨[b], bs, rfl, rfl, ih.2 rfl⟩

theorem reads_getNumber {w n : Nat} {p : Bytes} :
    (getNumber w).Reads p n ↔ SpellsNumber w n p := by
  simp only [getNumber, Reader.reads_bind, Reader.reads_times, readsAll_item, Reader.reads_pure,
    spellsNumber_iff]
  constructor
  · rintro ⟨p₁, p₂, vec, rfl, ⟨hlength, rfl⟩, rfl, rfl⟩
    rw [List.append_nil]
    exact ⟨hlength, rfl⟩
  · rintro ⟨hlength, rfl⟩
    exact ⟨p, [], p, (List.append_nil p).symm, ⟨hlength, rfl⟩, rfl, rfl⟩

theorem reads_getString {len : Nat} {s : String} {p : Bytes} :
    (getString len).Reads p s ↔ p.length = len ∧ s = ofStringBytes p := by
  simp only [getString, Reader.reads_bind, Reader.reads_times, readsAll_item, Reader.reads_pure]
  constructor
  · rintro ⟨p₁, p₂, bytes, rfl, ⟨hlength, rfl⟩, rfl, rfl⟩
    rw [List.append_nil]
    exact ⟨hlength, rfl⟩
  · rintro ⟨hlength, rfl⟩
    exact ⟨p, [], p, (List.append_nil p).symm, ⟨hlength, rfl⟩, rfl, rfl⟩

theorem reads_getMsgpackString {b : UInt8} {s : String} {p : Bytes} :
    (getMsgpackString b).Reads p s ↔ SpellsString s (b :: p) := by
  unfold getMsgpackString
  constructor
  · intro h
    split at h
    · rename_i len hhead
      rcases reads_getString.1 h with ⟨rfl, rfl⟩
      rcases of_decide_eq_true (announcedBy_of_head hhead) with ⟨hlen, rfl⟩
      exact .fixstr hlen
    · rename_i w hhead
      rcases Reader.reads_bind.1 h with ⟨len, bytes, n, rfl, hlen, h⟩
      rcases reads_getString.1 h with ⟨rfl, rfl⟩
      exact .str (of_decide_eq_true (announcedBy_of_head hhead)) (reads_getNumber.1 hlen)
    · exact (Reader.not_reads_fail h).elim
  · intro h
    cases h with
    | fixstr hlen =>
        rw [head_fixstr hlen]
        exact reads_getString.2 ⟨rfl, rfl⟩
    | str hcode hlen =>
        rw [head_str _ hcode]
        exact Reader.reads_bind.2
          ⟨_, _, _, rfl, reads_getNumber.2 hlen, reads_getString.2 ⟨rfl, rfl⟩⟩

/-! ## The reader accepts texts of the format only -/

section Sound

variable {parse : MsgReader Json} {p : Bytes}

theorem spellsElements_of_readsAll (hparse : ∀ p j, parse.Reads p j → Spells j p) {js : List Json}
    (h : parse.ReadsAll p js) : SpellsElements js p := by
  induction js generalizing p with
  | nil =>
      cases h
      exact .nil
  | cons j js ih =>
      rcases h with ⟨p₁, p₂, rfl, h₁, h₂⟩
      exact .cons (hparse p₁ j h₁) (ih h₂)

theorem spellsEntries_of_readsAll (hparse : ∀ p j, parse.Reads p j → Spells j p)
    {entries : List (String × Json)} (h : (getMember parse).ReadsAll p entries) :
    SpellsEntries entries p := by
  induction entries generalizing p with
  | nil =>
      cases h
      exact .nil
  | cons e entries ih =>
      rcases h with ⟨p₁, p₂, rfl, h₁, h₂⟩
      -- one entry: the byte that announces the key, the key, the value
      rcases Reader.reads_bind.1 h₁ with ⟨_, _, b, rfl, hb, h₁⟩
      rcases Reader.reads_bind.1 h₁ with ⟨bytes, _, key, rfl, hkey, h₁⟩
      rcases Reader.reads_bind.1 h₁ with ⟨bytes', _, j, rfl, hj, rfl, rfl⟩
      rw [Reader.reads_item.1 hb]
      have hcons := SpellsEntries.cons (reads_getMsgpackString.1 hkey) (hparse bytes' j hj) (ih h₂)
      simpa using hcons

theorem spells_of_reads_array (hparse : ∀ p j, parse.Reads p j → Spells j p) {len : Nat} {j : Json}
    {size : Bytes} (hsize : SpellsArraySize len size) (h : (getMsgpackArray parse len).Reads p j) :
    Spells j (size ++ p) := by
  rcases Reader.reads_bind.1 h with ⟨p₁, _, elements, rfl, helements, rfl, rfl⟩
  rcases Reader.reads_times.1 helements with ⟨rfl, hall⟩
  rw [List.append_nil]
  exact .array hsize (spellsElements_of_readsAll hparse hall)

theorem spells_of_reads_object (hparse : ∀ p j, parse.Reads p j → Spells j p) {len : Nat} {j : Json}
    {size : Bytes} (hsize : SpellsObjectSize len size)
    (h : (getMsgpackObject parse len).Reads p j) : Spells j (size ++ p) := by
  rcases Reader.reads_bind.1 h with ⟨p₁, _, entries, rfl, hentries, rfl, rfl⟩
  rcases Reader.reads_times.1 hentries with ⟨rfl, hall⟩
  rw [List.append_nil]
  exact .object hsize (spellsEntries_of_readsAll hparse hall) (SortedMap.eq_assignAll_iff.1 rfl)

theorem spells_of_reads_parseByte (hparse : ∀ p j, parse.Reads p j → Spells j p) {b : UInt8}
    {j : Json} (h : (parseByte parse b).Reads p j) : Spells j (b :: p) := by
  unfold parseByte at h
  cases hhead : Head.ofByte b with
  | positiveFixint n =>
      rw [hhead] at h
      rcases h with ⟨rfl, rfl⟩
      rcases of_decide_eq_true (announcedBy_of_head hhead) with ⟨hn, rfl⟩
      exact .positiveFixint hn
  | negativeFixint n =>
      rw [hhead] at h
      rcases h with ⟨rfl, rfl⟩
      rcases of_decide_eq_true (announcedBy_of_head hhead) with ⟨hlow, hneg, rfl⟩
      have hspells := Spells.negativeFixint (k := (n + 32).toNat) (by omega)
      rwa [Int.toNat_of_nonneg (by omega), Int.add_sub_cancel] at hspells
  | nil =>
      rw [hhead] at h
      rcases h with ⟨rfl, rfl⟩
      rw [of_decide_eq_true (announcedBy_of_head hhead)]
      exact .nil
  | boolean value =>
      rw [hhead] at h
      rcases h with ⟨rfl, rfl⟩
      rw [of_decide_eq_true (announcedBy_of_head hhead)]
      exact .boolean
  | float32 =>
      rw [hhead] at h
      rcases Reader.reads_bind.1 h with ⟨bytes, _, n, rfl, hn, rfl, rfl⟩
      have hnumber := reads_getNumber.1 hn
      rw [List.append_nil, of_decide_eq_true (announcedBy_of_head hhead)]
      exact .float32 hnumber ((widens_iff_eq hnumber).2 rfl)
  | float64 =>
      rw [hhead] at h
      rcases Reader.reads_bind.1 h with ⟨bytes, _, n, rfl, hn, rfl, rfl⟩
      have hnumber := reads_getNumber.1 hn
      have hbits : (BitVec.ofNat 64 n).toNat = n := Nat.mod_eq_of_lt hnumber.lt
      rw [List.append_nil, of_decide_eq_true (announcedBy_of_head hhead)]
      exact .float64 (hbits.symm ▸ hnumber)
  | uint w =>
      rw [hhead] at h
      rcases Reader.reads_bind.1 h with ⟨bytes, _, n, rfl, hnumber, rfl, rfl⟩
      rw [List.append_nil]
      exact .uint (of_decide_eq_true (announcedBy_of_head hhead)) (reads_getNumber.1 hnumber)
  | int w =>
      rw [hhead] at h
      rcases Reader.reads_bind.1 h with ⟨bytes, _, n, rfl, hnumber, rfl, rfl⟩
      rw [List.append_nil]
      exact .int (of_decide_eq_true (announcedBy_of_head hhead))
        (spellsInt_iff.2 ⟨n, reads_getNumber.1 hnumber, rfl⟩)
  | fixstr len =>
      rw [hhead] at h
      rcases Reader.reads_bind.1 h with ⟨bytes, _, s, rfl, hs, rfl, rfl⟩
      rw [List.append_nil]
      exact .string (reads_getMsgpackString.1 hs)
  | str w =>
      rw [hhead] at h
      rcases Reader.reads_bind.1 h with ⟨bytes, _, s, rfl, hs, rfl, rfl⟩
      rw [List.append_nil]
      exact .string (reads_getMsgpackString.1 hs)
  | fixarray len =>
      rw [hhead] at h
      rcases of_decide_eq_true (announcedBy_of_head hhead) with ⟨hlen, rfl⟩
      exact spells_of_reads_array hparse (.fixarray hlen) h
  | fixmap len =>
      rw [hhead] at h
      rcases of_decide_eq_true (announcedBy_of_head hhead) with ⟨hlen, rfl⟩
      exact spells_of_reads_object hparse (.fixmap hlen) h
  | array w =>
      rw [hhead] at h
      rcases Reader.reads_bind.1 h with ⟨len, _, n, rfl, hlen, h⟩
      have hcode := of_decide_eq_true (announcedBy_of_head hhead)
      exact spells_of_reads_array hparse (.array hcode (reads_getNumber.1 hlen)) h
  | map w =>
      rw [hhead] at h
      rcases Reader.reads_bind.1 h with ⟨len, _, n, rfl, hlen, h⟩
      have hcode := of_decide_eq_true (announcedBy_of_head hhead)
      exact spells_of_reads_object hparse (.map hcode (reads_getNumber.1 hlen)) h
  | other =>
      rw [hhead] at h
      exact (Reader.not_reads_fail h).elim

theorem spells_of_reads {fuel : Nat} {j : Json} (h : (parseMsgpackInternal fuel).Reads p j) :
    Spells j p := by
  induction fuel generalizing p j with
  | zero => cases p <;> exact h.elim
  | succ fuel ih =>
      cases p with
      | nil => exact h.elim
      | cons b p => exact spells_of_reads_parseByte (fun _ _ => ih) h

end Sound

/-! ## The reader accepts every text of the format -/

/-- A value is read from its first byte on, with fuel for what follows. -/
theorem reads_of_head {fuel : Nat} {b : UInt8} {p : Bytes} {j : Json} (hfuel : (b :: p).length ≤ fuel)
    (h : ∀ f, p.length ≤ f → (parseByte (parseMsgpackInternal f) b).Reads p j) :
    (parseMsgpackInternal fuel).Reads (b :: p) j := by
  rw [List.length_cons] at hfuel
  rcases Nat.exists_eq_succ_of_ne_zero (n := fuel) (by omega) with ⟨f, rfl⟩
  exact h f (by omega)

theorem reads_number {γ : Type} {w n : Nat} {bytes : Bytes} (f : Nat → γ)
    (h : SpellsNumber w n bytes) :
    ((do let number ← getNumber w; return f number) : MsgReader γ).Reads bytes (f n) :=
  Reader.reads_bind.2
    ⟨bytes, [], n, (List.append_nil bytes).symm, reads_getNumber.2 h, rfl, rfl⟩

theorem SpellsString.reads {s : String} {bytes : Bytes} (h : SpellsString s bytes) {fuel : Nat}
    (hfuel : bytes.length ≤ fuel) : (parseMsgpackInternal fuel).Reads bytes (.string s) := by
  have hbyte : ∀ (b : UInt8) (p : Bytes) (parse : MsgReader Json), SpellsString s (b :: p) →
      (parseByte parse b).Reads p (.string s) := by
    intro b p parse h
    have hread : ((do let s ← getMsgpackString b; return .string s) : MsgReader Json).Reads p
        (.string s) :=
      Reader.reads_bind.2
        ⟨p, [], s, (List.append_nil p).symm, reads_getMsgpackString.2 h, rfl, rfl⟩
    unfold parseByte
    cases h with
    | fixstr hlen =>
        rw [head_fixstr hlen]
        exact hread
    | str hcode hlen =>
        rw [head_str _ hcode]
        exact hread
  cases h with
  | fixstr hlen => exact reads_of_head hfuel fun f _ => hbyte _ _ _ (.fixstr hlen)
  | str hcode hlen => exact reads_of_head hfuel fun f _ => hbyte _ _ _ (.str hcode hlen)

theorem reads_getMsgpackArray {parse : MsgReader Json} {elements : List Json} {bytes : Bytes}
    (h : parse.ReadsAll bytes elements) :
    (getMsgpackArray parse elements.length).Reads bytes (.array elements) :=
  Reader.reads_bind.2
    ⟨bytes, [], elements, (List.append_nil bytes).symm, Reader.reads_times.2 ⟨rfl, h⟩, rfl, rfl⟩

theorem reads_getMsgpackObject {parse : MsgReader Json} {entries : List (String × Json)}
    {bytes : Bytes} (h : (getMember parse).ReadsAll bytes entries) :
    (getMsgpackObject parse entries.length).Reads bytes
      (.object (SortedMap.assignAll entries [])) :=
  Reader.reads_bind.2
    ⟨bytes, [], entries, (List.append_nil bytes).symm, Reader.reads_times.2 ⟨rfl, h⟩, rfl, rfl⟩

theorem SpellsString.ne_nil {s : String} {bytes : Bytes} (h : SpellsString s bytes) : bytes ≠ [] := by
  cases h <;> exact List.cons_ne_nil _ _

/-- A member is read if its value is. -/
theorem reads_getMember {parse : MsgReader Json} {key : String} {j : Json} {bytes bytes' : Bytes}
    (hkey : SpellsString key bytes) (h : parse.Reads bytes' j) :
    (getMember parse).Reads (bytes ++ bytes') (key, j) := by
  rcases List.exists_cons_of_ne_nil hkey.ne_nil with ⟨b, p, rfl⟩
  refine Reader.reads_bind.2 ⟨[b], p ++ bytes', b, rfl, Reader.reads_item.2 rfl, ?_⟩
  refine Reader.reads_bind.2 ⟨p, bytes', key, rfl, reads_getMsgpackString.2 hkey, ?_⟩
  exact Reader.reads_bind.2 ⟨bytes', [], j, (List.append_nil bytes').symm, h, rfl, rfl⟩

theorem reads_array {fuel : Nat} {elements : List Json} {size bytes : Bytes}
    (hsize : SpellsArraySize elements.length size) (hfuel : (size ++ bytes).length ≤ fuel)
    (h : ∀ f, bytes.length ≤ f → (parseMsgpackInternal f).ReadsAll bytes elements) :
    (parseMsgpackInternal fuel).Reads (size ++ bytes) (.array elements) := by
  cases hsize with
  | fixarray hlen =>
      refine reads_of_head hfuel fun f hf => ?_
      rw [parseByte, head_fixarray hlen]
      exact reads_getMsgpackArray (h f hf)
  | @array b w len hcode hlen =>
      refine reads_of_head (p := len ++ bytes) hfuel fun f hf => ?_
      rw [List.length_append] at hf
      rw [parseByte, head_array _ hcode]
      exact Reader.reads_bind.2 ⟨len, bytes, _, rfl, reads_getNumber.2 hlen,
        reads_getMsgpackArray (h f (by omega))⟩

theorem reads_object {fuel : Nat} {entries : List (String × Json)} {size bytes : Bytes}
    (hsize : SpellsObjectSize entries.length size) (hfuel : (size ++ bytes).length ≤ fuel)
    (h : ∀ f, bytes.length ≤ f → (getMember (parseMsgpackInternal f)).ReadsAll bytes entries) :
    (parseMsgpackInternal fuel).Reads (size ++ bytes)
      (.object (SortedMap.assignAll entries [])) := by
  cases hsize with
  | fixmap hlen =>
      refine reads_of_head hfuel fun f hf => ?_
      rw [parseByte, head_fixmap hlen]
      exact reads_getMsgpackObject (h f hf)
  | @map b w len hcode hlen =>
      refine reads_of_head (p := len ++ bytes) hfuel fun f hf => ?_
      rw [List.length_append] at hf
      rw [parseByte, head_map _ hcode]
      exact Reader.reads_bind.2 ⟨len, bytes, _, rfl, reads_getNumber.2 hlen,
        reads_getMsgpackObject (h f (by omega))⟩

mutual

/-- Every text is read, with as much fuel as it is long. -/
theorem Spells.reads {j : Json} {bytes : Bytes} :
    Spells j bytes → ∀ fuel, bytes.length ≤ fuel → (parseMsgpackInternal fuel).Reads bytes j
  | .positiveFixint hn, fuel, hfuel => reads_of_head hfuel fun f _ => by
      rw [parseByte, head_positiveFixint hn]
      exact ⟨rfl, rfl⟩
  | .negativeFixint hk, fuel, hfuel => reads_of_head hfuel fun f _ => by
      rw [parseByte, head_negativeFixint hk]
      exact ⟨rfl, rfl⟩
  | .nil, fuel, hfuel => reads_of_head hfuel fun f _ => ⟨rfl, rfl⟩
  | @Spells.boolean value, fuel, hfuel => reads_of_head hfuel fun f _ => by
      rw [parseByte, head_boolean]
      exact ⟨rfl, rfl⟩
  | .float32 hnumber hbits, fuel, hfuel => reads_of_head hfuel fun f _ => by
      rw [(widens_iff_eq hnumber).1 hbits]
      exact reads_number (fun n => Json.float (BitVec.ofNat 64 (Ieee.widen n))) hnumber
  | @Spells.float64 bits bytes hnumber, fuel, hfuel => reads_of_head hfuel fun f _ => by
      have hread := reads_number (fun n => Json.float (BitVec.ofNat 64 n)) hnumber
      rwa [BitVec.ofNat_toNat, BitVec.setWidth_eq] at hread
  | .uint hcode hnumber, fuel, hfuel => reads_of_head hfuel fun f _ => by
      rw [parseByte, head_uint _ hcode]
      exact reads_number (fun n => Json.number n) hnumber
  | @Spells.int b w n bytes hcode hint, fuel, hfuel => reads_of_head hfuel fun f _ => by
      rcases spellsInt_iff.1 hint with ⟨k, hnumber, rfl⟩
      rw [parseByte, head_int _ hcode]
      exact reads_number (fun n => Json.number (signed w n)) hnumber
  | .string h, fuel, hfuel => h.reads hfuel
  | .array hsize h, fuel, hfuel =>
      reads_array hsize hfuel fun f hf => h.readsAll f hf
  | .object hsize h hmembers, fuel, hfuel => by
      rw [SortedMap.eq_assignAll_iff.2 hmembers]
      exact reads_object hsize hfuel fun f hf => h.readsAll f hf

theorem SpellsElements.readsAll {js : List Json} {bytes : Bytes} :
    SpellsElements js bytes → ∀ fuel, bytes.length ≤ fuel →
      (parseMsgpackInternal fuel).ReadsAll bytes js
  | .nil, _, _ => rfl
  | @SpellsElements.cons j js bytes rest h hrest, fuel, hfuel => by
      rw [List.length_append] at hfuel
      exact ⟨bytes, rest, rfl, h.reads fuel (by omega), hrest.readsAll fuel (by omega)⟩

theorem SpellsEntries.readsAll {entries : List (String × Json)} {bytes : Bytes} :
    SpellsEntries entries bytes → ∀ fuel, bytes.length ≤ fuel →
      (getMember (parseMsgpackInternal fuel)).ReadsAll bytes entries
  | .nil, _, _ => rfl
  | @SpellsEntries.cons key j entries bytes bytes' rest hkey h hrest, fuel, hfuel => by
      simp only [List.length_append] at hfuel
      exact ⟨bytes ++ bytes', rest, by simp, reads_getMember hkey (h.reads fuel (by omega)),
        hrest.readsAll fuel (by omega)⟩

end

/-! ## The reader is the format -/

theorem reads_iff {fuel : Nat} {j : Json} {bytes : Bytes} (hfuel : bytes.length ≤ fuel) :
    (parseMsgpackInternal fuel).Reads bytes j ↔ Spells j bytes :=
  ⟨spells_of_reads, fun h => h.reads fuel hfuel⟩

theorem saxParse_ok_iff {input : Bytes} {j : Json} : saxParse input = .ok j ↔ Spells j input := by
  rw [← reads_iff (Nat.le_refl input.length)]
  unfold saxParse
  constructor
  · intro h
    split at h
    · cases h
    · rename_i result charsRead hrun
      cases h
      rcases Reader.run_ok_iff.1 hrun with ⟨p, hp, _, hreads⟩
      rw [List.append_nil] at hp
      rwa [← hp] at hreads
    · cases h
  · intro h
    have hrun := h.run [] 0
    rw [List.append_nil] at hrun
    rw [hrun]

theorem fromMsgpack_eq_ok {input : Bytes} {j : Json} :
    fromMsgpack input = .ok j ↔ saxParse input = .ok j := by
  rw [fromMsgpack]
  cases saxParse input with
  | error e => simp [Except.mapError]
  | ok result => simp [Except.mapError]

theorem spells_of_fromMsgpack {input : Bytes} {j : Json} (h : fromMsgpack input = .ok j) :
    Spells j input :=
  saxParse_ok_iff.1 (fromMsgpack_eq_ok.1 h)

theorem Spells.fromMsgpack {input : Bytes} {j : Json} (h : Spells j input) :
    fromMsgpack input = .ok j :=
  fromMsgpack_eq_ok.2 (saxParse_ok_iff.2 h)

/-- The reader accepts the texts of the format and delivers what they spell. -/
theorem fromMsgpack_ok_iff {input : Bytes} {j : Json} :
    Msgpack.fromMsgpack input = .ok j ↔ Spells j input :=
  ⟨spells_of_fromMsgpack, Spells.fromMsgpack⟩

/-- No text is a proper prefix of another one, and no text spells two values. -/
theorem Spells.eq_of_prefix {j j' : Json} {p q : Bytes} (h : Spells j p) (h' : Spells j' q)
    (hinit : p <+: q) : p = q ∧ j = j' := by
  have hp := h.reads q.length hinit.length_le
  have hq := h'.reads q.length (Nat.le_refl _)
  exact hp.eq_of_prefix hq hinit

/-- What is accepted is accepted with nothing behind it, and is no longer accepted when its end is
cut off. -/
theorem fromMsgpack_append {p q : Bytes} {j : Json} (h : fromMsgpack p = .ok j) (hq : q ≠ [])
    (j' : Json) : fromMsgpack (p ++ q) ≠ .ok j' := by
  intro h'
  have hinit : p <+: p ++ q := List.prefix_append p q
  have htext := spells_of_fromMsgpack h
  rcases htext.eq_of_prefix (spells_of_fromMsgpack h') hinit with ⟨heq, _⟩
  exact hq (List.self_eq_append_right.1 heq)

theorem fromMsgpack_append_array :
    fromMsgpack ([0x92, 0x01, 0x91, 0xC0] ++ [0xC0]) ≠ .ok (.array [.number 1, .array [.null]]) :=
  @fromMsgpack_append [0x92, 0x01, 0x91, 0xC0] [0xC0] (.array [.number 1, .array [.null]]) rfl
    (List.cons_ne_nil 0xC0 []) _

/-! ## What a text spells -/

theorem width_of_uintCodes : ∀ code ∈ uintCodes,
    code.2 = 1 ∨ code.2 = 2 ∨ code.2 = 4 ∨ code.2 = 8 := by
  decide

theorem width_of_intCodes : ∀ code ∈ intCodes,
    code.2 = 1 ∨ code.2 = 2 ∨ code.2 = 4 ∨ code.2 = 8 := by
  decide

theorem width_of_strCodes : ∀ code ∈ strCodes, code.2 = 1 ∨ code.2 = 2 ∨ code.2 = 4 := by decide

theorem width_of_arrayCodes : ∀ code ∈ arrayCodes, code.2 = 2 ∨ code.2 = 4 := by decide

theorem width_of_mapCodes : ∀ code ∈ mapCodes, code.2 = 2 ∨ code.2 = 4 := by decide

theorem SpellsString.fits {s : String} {bytes : Bytes} (h : SpellsString s bytes) :
    IsBytes s ∧ s.length < 2 ^ 32 := by
  cases h with
  | @fixstr bytes hlen =>
      refine ⟨isBytes_ofStringBytes bytes, ?_⟩
      rw [length_ofStringBytes]
      omega
  | @str b w len bytes hcode hlen =>
      have hw := width_of_strCodes _ hcode
      refine ⟨isBytes_ofStringBytes bytes, ?_⟩
      rw [length_ofStringBytes]
      exact @SpellsNumber.lt_of_width w 4 _ _ hlen (by omega)

theorem SpellsArraySize.lt {n : Nat} {bytes : Bytes} (h : SpellsArraySize n bytes) : n < 2 ^ 32 := by
  cases h with
  | fixarray hn => omega
  | @array b w len hcode hlen =>
      have hw := width_of_arrayCodes _ hcode
      exact @SpellsNumber.lt_of_width w 4 _ _ hlen (by omega)

theorem SpellsObjectSize.lt {n : Nat} {bytes : Bytes} (h : SpellsObjectSize n bytes) :
    n < 2 ^ 32 := by
  cases h with
  | fixmap hn => omega
  | @map b w len hcode hlen =>
      have hw := width_of_mapCodes _ hcode
      exact @SpellsNumber.lt_of_width w 4 _ _ hlen (by omega)

/-- The members are among the entries, and no more than these. -/
theorem LastCounts.mem {entries members : List (String × Json)} (h : LastCounts entries members)
    {m : String × Json} (hm : m ∈ members) : m ∈ entries := by
  rw [SortedMap.eq_assignAll_iff.2 h] at hm
  exact (SortedMap.mem_assignAll hm).resolve_right List.not_mem_nil

theorem LastCounts.length_le {entries members : List (String × Json)}
    (h : LastCounts entries members) : members.length ≤ entries.length := by
  rw [SortedMap.eq_assignAll_iff.2 h]
  simpa using SortedMap.length_assignAll_le (m := []) entries

theorem encodable_number {n : Int} (hlow : -2 ^ 63 ≤ n) (hhigh : n < 2 ^ 64) :
    (Json.number n).Encodable :=
  ⟨⟨hlow, hhigh⟩, trivial⟩

theorem SpellsInt.encodable {w : Nat} {n : Int} {bytes : Bytes} (h : SpellsInt w n bytes)
    (hw : w ≤ 8) : (Json.number n).Encodable := by
  have hpow : 256 ^ w ≤ 256 ^ 8 := Nat.pow_le_pow_right (by decide) hw
  have hlow := h.1
  have hhigh := h.2.1
  exact encodable_number (by omega) (by omega)

mutual

/-- What a text spells is a value that a `basic_json` can hold, with sizes in 32 bits. -/
theorem Spells.encodable {j : Json} {bytes : Bytes} : Spells j bytes → j.Encodable
  | .positiveFixint _ => encodable_number (by omega) (by omega)
  | .negativeFixint _ => encodable_number (by omega) (by omega)
  | .nil => ⟨trivial, trivial⟩
  | .boolean => ⟨trivial, trivial⟩
  | .float32 _ _ => ⟨trivial, trivial⟩
  | .float64 _ => ⟨trivial, trivial⟩
  | @Spells.uint b w n bytes hcode hnumber => by
      have hw := width_of_uintCodes _ hcode
      have hn : n < 256 ^ 8 := hnumber.lt_of_width (by omega)
      exact encodable_number (by omega) (by omega)
  | @Spells.int b w n bytes hcode hint => by
      have hw := width_of_intCodes _ hcode
      exact hint.encodable (by omega)
  | .string h => h.fits
  | .array hsize h => ⟨⟨trivial, hsize.lt⟩, Json.allElements_iff.2 h.encodable⟩
  | .object hsize h hmembers => by
      have hall := h.encodable
      refine ⟨⟨⟨hmembers.1, fun m hm => ?_⟩, hmembers.length_le.trans_lt hsize.lt,
        fun m hm => ?_⟩, Json.allMembers_iff.2 fun m hm => ?_⟩
      · exact (hall m (hmembers.mem hm)).1.1
      · exact (hall m (hmembers.mem hm)).1.2
      · exact (hall m (hmembers.mem hm)).2

theorem SpellsElements.encodable {js : List Json} {bytes : Bytes} :
    SpellsElements js bytes → ∀ j ∈ js, j.Encodable
  | .nil => fun _ h => (List.not_mem_nil h).elim
  | .cons h hrest => List.forall_mem_cons.2 ⟨h.encodable, hrest.encodable⟩

theorem SpellsEntries.encodable {entries : List (String × Json)} {bytes : Bytes} :
    SpellsEntries entries bytes →
      ∀ e ∈ entries, (IsBytes e.1 ∧ e.1.length < 2 ^ 32) ∧ e.2.Encodable
  | .nil => fun _ h => (List.not_mem_nil h).elim
  | .cons hkey h hrest => List.forall_mem_cons.2 ⟨⟨hkey.fits, h.encodable⟩, hrest.encodable⟩

end

/-! ## Floating point numbers -/

/-- A `float 32` arrives as a double that stands for the same. -/
theorem fromMsgpack_float32 (bytes : Bytes) (h : bytes.length = 4) :
    ∃ bits : BitVec 64, fromMsgpack (0xCA :: bytes) = .ok (.float bits) ∧
      Ieee.double.datum bits.toNat = Ieee.single.datum (ofBigEndian bytes) := by
  have hnumber : SpellsNumber 4 (ofBigEndian bytes) bytes := spellsNumber_iff.2 ⟨h, rfl⟩
  have hbits := (widens_iff_eq hnumber).2 rfl
  exact ⟨_, (Spells.float32 hnumber hbits).fromMsgpack, hbits.1⟩

theorem fromMsgpack_float32_infinity :
    ∃ bits : BitVec 64, fromMsgpack [0xCA, 0xFF, 0x80, 0x00, 0x00] = .ok (.float bits) ∧
      Ieee.double.datum bits.toNat = Ieee.single.datum (ofBigEndian [0xFF, 0x80, 0x00, 0x00]) :=
  fromMsgpack_float32 [0xFF, 0x80, 0x00, 0x00] rfl

end Msgpack

end CapyAmqp
