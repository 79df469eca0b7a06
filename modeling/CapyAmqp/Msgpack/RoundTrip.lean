import CapyAmqp.Msgpack.Format
import CapyAmqp.Msgpack.Writer

/-!
# RoundTrip — writing a value and reading it back

What the writer writes of a value is a text of the value, as long as the value is one that a
`basic_json` can hold and its sizes have 32 bits (`spells_writeMsgpack`).  With the results about
the format, these are exactly the values that come back (`fromMsgpack_writeMsgpack_iff`), and a value
that has been read once comes back always.
-/

namespace CapyAmqp

namespace Msgpack

open Lib

/-! ## Integers -/

theorem bigEndian_one (n : Nat) : bigEndian 1 n = [UInt8.ofNat n] := by
  simp [bigEndian]

theorem spellsNumber_bigEndian {w n : Nat} (h : n < 256 ^ w) : SpellsNumber w n (bigEndian w n) :=
  spellsNumber_iff.2 ⟨length_bigEndian w n, ofBigEndian_bigEndian_of_lt h⟩

/-- The two's complement of a small negative number in one byte. -/
theorem twosComplement_negativeFixint {n : Int} (hlow : -32 ≤ n) (hneg : n < 0) :
    twosComplement 1 n = 0xE0 + (n + 32).toNat := by
  have hcomplement : twosComplement 1 n = (n % 256).toNat := rfl
  omega

/-- An unsigned number behind its control byte. -/
theorem spells_uint {b : UInt8} {w : Nat} {n : Int} (hcode : (b, w) ∈ uintCodes) (hnonneg : 0 ≤ n)
    (hlt : n < (256 ^ w : Nat)) : Spells (.number n) (b :: bigEndian w n.toNat) := by
  have hn : ((n.toNat : Nat) : Int) = n := Int.toNat_of_nonneg hnonneg
  have h := Spells.uint hcode (spellsNumber_bigEndian (n := n.toNat) (by omega))
  rwa [hn] at h

/-- A signed number behind its control byte. -/
theorem spells_int {b : UInt8} {w : Nat} {n : Int} (hcode : (b, w) ∈ intCodes)
    (hlow : -(256 ^ w : Nat) ≤ 2 * n) (hneg : n < 0) :
    Spells (.number n) (b :: bigEndian w (twosComplement w n)) := by
  have hnumber := spellsNumber_bigEndian (twosComplement_lt w n)
  have hsigned := signed_twosComplement hlow (by omega)
  exact .int hcode (spellsInt_iff.2 ⟨_, hnumber, hsigned.symm⟩)

theorem spells_writeInteger {n : Int} (hlow : -2 ^ 63 ≤ n) (hhigh : n < 2 ^ 64) :
    Spells (.number n) (writeInteger n) := by
  unfold writeInteger
  split
  · rename_i hnonneg
    split
    · have hn : ((n.toNat : Nat) : Int) = n := Int.toNat_of_nonneg hnonneg
      have h := Spells.positiveFixint (n := n.toNat) (by omega)
      rwa [hn, ← bigEndian_one] at h
    split
    · exact spells_uint (by decide) hnonneg (by omega)
    split
    · exact spells_uint (by decide) hnonneg (by omega)
    split
    · exact spells_uint (by decide) hnonneg (by omega)
    split
    · exact spells_uint (by decide) hnonneg (by omega)
    · omega
  · rename_i hneg
    split
    · rename_i hfix
      have h := Spells.negativeFixint (k := (n + 32).toNat) (by omega)
      rwa [Int.toNat_of_nonneg (by omega), Int.add_sub_cancel,
        ← twosComplement_negativeFixint hfix (by omega), ← bigEndian_one] at h
    split
    · exact spells_int (by decide) (by omega) (by omega)
    split
    · exact spells_int (by decide) (by omega) (by omega)
    split
    · exact spells_int (by decide) (by omega) (by omega)
    split
    · exact spells_int (by decide) (by omega) (by omega)
    · omega

/-! ## Strings and sizes -/

theorem spellsString_writeStringSize {bytes : Bytes} (h : bytes.length < 2 ^ 32) :
    SpellsString (ofStringBytes bytes) (writeStringSize bytes.length ++ bytes) := by
  unfold writeStringSize
  split
  · rename_i hfix
    have hor : 0xA0 ||| bytes.length = 0xA0 + bytes.length :=
      (Nat.two_pow_add_eq_or_of_lt (i := 5) (by omega) 5).symm
    rw [bigEndian_one, hor]
    exact .fixstr (by omega)
  split
  · exact .str (w := 1) (by decide) (spellsNumber_bigEndian (by omega))
  split
  · exact .str (w := 2) (by decide) (spellsNumber_bigEndian (by omega))
  split
  · exact .str (w := 4) (by decide) (spellsNumber_bigEndian (by omega))
  · omega

theorem spellsString_writeString {s : String} (hbytes : IsBytes s) (hfits : s.length < 2 ^ 32) :
    SpellsString s (writeString s) := by
  have h := @spellsString_writeStringSize (stringBytes s) (by simpa using hfits)
  rwa [ofStringBytes_stringBytes hbytes, length_stringBytes] at h

theorem spellsArraySize_write {n : Nat} (h : n < 2 ^ 32) : SpellsArraySize n (writeArraySize n) := by
  unfold writeArraySize writeSize
  split
  · rename_i hfix
    have hor : 0x90 ||| n = 0x90 + n := (Nat.two_pow_add_eq_or_of_lt (i := 4) (by omega) 9).symm
    rw [bigEndian_one, hor]
    exact .fixarray (by omega)
  split
  · exact .array (w := 2) (by decide) (spellsNumber_bigEndian (by omega))
  split
  · exact .array (w := 4) (by decide) (spellsNumber_bigEndian (by omega))
  · omega

theorem spellsObjectSize_write {n : Nat} (h : n < 2 ^ 32) :
    SpellsObjectSize n (writeObjectSize n) := by
  unfold writeObjectSize writeSize
  split
  · rename_i hfix
    have hor : 0x80 ||| n = 0x80 + n := (Nat.two_pow_add_eq_or_of_lt (i := 4) (by omega) 8).symm
    rw [bigEndian_one, hor]
    exact .fixmap (by omega)
  split
  · exact .map (w := 2) (by decide) (spellsNumber_bigEndian (by omega))
  split
  · exact .map (w := 4) (by decide) (spellsNumber_bigEndian (by omega))
  · omega

/-! ## Values -/

mutual

/-- What is written of a value is a text of the value. -/
theorem spells_writeMsgpack : (j : Json) → j.Encodable → Spells j (writeMsgpack j)
  | .null, _ => .nil
  | .boolean _, _ => .boolean
  | .number n, h => spells_writeInteger h.1.1 h.1.2
  | .float bits, _ => .float64 (spellsNumber_bigEndian bits.isLt)
  | .string s, h => .string (spellsString_writeString h.1 h.2)
  | .array elements, ⟨hnode, hall⟩ =>
      .array (spellsArraySize_write hnode.2) (spellsElements_write elements hall)
  | .object members, ⟨⟨hvalid, hfits⟩, hall⟩ => by
      have hkeys : ∀ m ∈ members, IsBytes m.1 ∧ m.1.length < 2 ^ 32 :=
        fun m hm => ⟨hvalid.2 m hm, hfits.2 m hm⟩
      -- the keys ascend, so every member is the last entry of its key
      have hmembers : LastCounts members members :=
        SortedMap.eq_assignAll_iff.1 (SortedMap.assignAll_self hvalid.1).symm
      exact .object (spellsObjectSize_write hfits.1) (spellsEntries_write members hkeys hall) hmembers

theorem spellsElements_write : (js : List Json) →
    Json.AllElements (fun j => j.NodeValid ∧ j.NodeFits) js → SpellsElements js (writeElements js)
  | [], _ => .nil
  | j :: js, h => .cons (spells_writeMsgpack j h.1) (spellsElements_write js h.2)

theorem spellsEntries_write : (members : List (String × Json)) →
    (∀ m ∈ members, IsBytes m.1 ∧ m.1.length < 2 ^ 32) →
    Json.AllMembers (fun j => j.NodeValid ∧ j.NodeFits) members →
    SpellsEntries members (writeMembers members)
  | [], _, _ => .nil
  | (key, j) :: members, hkeys, h => by
      rcases List.forall_mem_cons.1 hkeys with ⟨⟨hbytes, hfits⟩, hkeys⟩
      have hcons := SpellsEntries.cons (spellsString_writeString hbytes hfits)
        (spells_writeMsgpack j h.1) (spellsEntries_write members hkeys h.2)
      rwa [← List.append_assoc] at hcons

end

theorem spells_writeMsgpack_iff (j : Json) : Spells j (writeMsgpack j) ↔ j.Valid ∧ j.Fits := by
  rw [← Json.encodable_iff]
  exact ⟨Spells.encodable, spells_writeMsgpack j⟩

/-- A value comes back exactly if a `basic_json` can hold it and its sizes have 32 bits. -/
theorem fromMsgpack_writeMsgpack_iff (j : Json) :
    fromMsgpack (writeMsgpack j) = .ok j ↔ j.Valid ∧ j.Fits := by
  rw [← spells_writeMsgpack_iff]
  exact ⟨spells_of_fromMsgpack, Spells.fromMsgpack⟩

end Msgpack

end CapyAmqp
