import CapyAmqp.Msgpack.RoundTrip
import Mathlib.Algebra.BigOperators.Group.List.Basic

/-!
# Shortest — the writer wastes nothing

MessagePack leaves a choice: a number can be written wider than it needs to be, a size too, and a
key can be written twice.  Apart from floating point numbers, which the writer always writes in 64
bits, no text of a value is shorter than the writer's (`length_writeMsgpack_le`).
-/

namespace CapyAmqp

namespace Msgpack

open Lib

/-! ## Integers and sizes -/

theorem length_writeInteger_of_nonneg {n : Int} {w : Nat} (hw : w = 1 ∨ w = 2 ∨ w = 4 ∨ w = 8)
    (hnonneg : 0 ≤ n) (hlt : n < (256 ^ w : Nat)) : (writeInteger n).length ≤ w + 1 := by
  rcases hw with rfl | rfl | rfl | rfl <;> unfold writeInteger <;> split_ifs <;>
    simp only [List.length_cons, List.length_nil, length_bigEndian] <;> omega

theorem length_writeInteger_of_neg {n : Int} {w : Nat} (hw : w = 1 ∨ w = 2 ∨ w = 4 ∨ w = 8)
    (hneg : n < 0) (hlow : -(256 ^ w : Nat) ≤ 2 * n) : (writeInteger n).length ≤ w + 1 := by
  rcases hw with rfl | rfl | rfl | rfl <;> unfold writeInteger <;> split_ifs <;>
    simp only [List.length_cons, List.length_nil, length_bigEndian] <;> omega

theorem length_writeInteger_of_small {n : Int} (hlow : -32 ≤ n) (hhigh : n < 128) :
    (writeInteger n).length = 1 := by
  unfold writeInteger
  split_ifs <;> simp only [length_bigEndian]

theorem length_writeStringSize {n w : Nat} (hw : w = 1 ∨ w = 2 ∨ w = 4) (hlt : n < 256 ^ w) :
    (writeStringSize n).length ≤ w + 1 := by
  rcases hw with rfl | rfl | rfl <;> unfold writeStringSize <;> split_ifs <;>
    simp only [List.length_cons, List.length_nil, length_bigEndian] <;> omega

theorem length_writeSize {fix n w : Nat} {code16 code32 : UInt8} (hw : w = 2 ∨ w = 4)
    (hlt : n < 256 ^ w) : (writeSize fix code16 code32 n).length ≤ w + 1 := by
  rcases hw with rfl | rfl <;> unfold writeSize <;> split_ifs <;>
    simp only [List.length_cons, List.length_nil, length_bigEndian] <;> omega

theorem SpellsString.length_le {s : String} {bytes : Bytes} (h : SpellsString s bytes) :
    (writeString s).length ≤ bytes.length := by
  cases h with
  | @fixstr bytes hlen =>
      have hsize : (writeStringSize bytes.length).length = 1 := by
        rw [writeStringSize, if_pos (by omega), length_bigEndian]
      simp [writeString, stringBytes_ofStringBytes, hsize, Nat.add_comm]
  | @str b w len bytes hcode hlen =>
      have hsize := length_writeStringSize (width_of_strCodes _ hcode) hlen.lt
      have hlength := hlen.1
      simp only [writeString, stringBytes_ofStringBytes, length_ofStringBytes, List.length_append,
        List.length_cons]
      omega

theorem SpellsArraySize.length_le {n : Nat} {size : Bytes} (h : SpellsArraySize n size) :
    (writeArraySize n).length ≤ size.length := by
  cases h with
  | fixarray hn =>
      rw [writeArraySize, writeSize, if_pos (by omega), length_bigEndian]
      rfl
  | @array b w len hcode hlen =>
      rw [List.length_cons, hlen.1]
      exact length_writeSize (width_of_arrayCodes _ hcode) hlen.lt

/-- Fewer members need no longer header. -/
theorem SpellsObjectSize.length_le {n m : Nat} {size : Bytes} (h : SpellsObjectSize n size)
    (hm : m ≤ n) : (writeObjectSize m).length ≤ size.length := by
  cases h with
  | fixmap hn =>
      rw [writeObjectSize, writeSize, if_pos (by omega), length_bigEndian]
      rfl
  | @map b w len hcode hlen =>
      rw [List.length_cons, hlen.1]
      exact length_writeSize (width_of_mapCodes _ hcode) (hm.trans_lt hlen.lt)

/-! ## Members that occur more than once -/

/-- What is charged for the entries of a map is at most what is charged for the assignments that
have filled it. -/
theorem sum_assign_le {K V : Type} [LinearOrder K] (cost : K × V → Nat) (key : K) (value : V)
    (m : List (K × V)) :
    ((SortedMap.assign key value m).map cost).sum ≤ (m.map cost).sum + cost (key, value) := by
  induction m with
  | nil => simp [SortedMap.assign]
  | cons e m ih =>
      simp only [SortedMap.assign]
      split
      · simp only [List.map_cons, List.sum_cons]
        omega
      split
      · simp only [List.map_cons, List.sum_cons]
        omega
      · simp only [List.map_cons, List.sum_cons]
        omega

theorem sum_assignAll_le {K V : Type} [LinearOrder K] (cost : K × V → Nat)
    (entries m : List (K × V)) :
    ((SortedMap.assignAll entries m).map cost).sum ≤ (m.map cost).sum + (entries.map cost).sum := by
  induction entries generalizing m with
  | nil => simp [SortedMap.assignAll]
  | cons e entries ih =>
      have hrest := ih (SortedMap.assign e.1 e.2 m)
      have hassign : ((SortedMap.assign e.1 e.2 m).map cost).sum ≤ (m.map cost).sum + cost e :=
        sum_assign_le cost e.1 e.2 m
      simp only [List.map_cons, List.sum_cons]
      calc ((SortedMap.assignAll entries (SortedMap.assign e.1 e.2 m)).map cost).sum
          ≤ ((SortedMap.assign e.1 e.2 m).map cost).sum + (entries.map cost).sum := hrest
        _ ≤ (m.map cost).sum + (cost e + (entries.map cost).sum) := by omega

/-! ## Values -/

/-- The value is no floating point number. -/
def Json.NotFloat (j : Json) : Prop := ∀ bits, j ≠ .float bits

/-- The length of a member as it is written. -/
def memberLength (m : String × Json) : Nat := (writeString m.1).length + (writeMsgpack m.2).length

theorem length_writeElements (js : List Json) :
    (writeElements js).length = (js.map fun j => (writeMsgpack j).length).sum := by
  induction js with
  | nil => rfl
  | cons j js ih => simp [writeElements, ih]

theorem length_writeMembers (members : List (String × Json)) :
    (writeMembers members).length = (members.map memberLength).sum := by
  induction members with
  | nil => rfl
  | cons m members ih => simp [writeMembers, memberLength, ih, Nat.add_assoc]

open Classical in
/-- What a member of a text is charged for: nothing if its value contains a floating point number,
which may be that of a member that is assigned over. -/
noncomputable def charge (m : String × Json) : Nat :=
  if m.2.All Json.NotFloat then memberLength m else 0

theorem charge_of_all {m : String × Json} (h : m.2.All Json.NotFloat) : charge m = memberLength m :=
  if_pos h

theorem length_of_int {n : Int} {w : Nat} (hw : w = 1 ∨ w = 2 ∨ w = 4 ∨ w = 8)
    (hlow : -(256 ^ w : Nat) ≤ 2 * n) (hhigh : 2 * n < (256 ^ w : Nat)) :
    (writeInteger n).length ≤ w + 1 := by
  by_cases hneg : n < 0
  · exact length_writeInteger_of_neg hw hneg hlow
  · have hpos : 0 < 256 ^ w := Nat.pow_pos (by decide)
    exact length_writeInteger_of_nonneg hw (not_lt.1 hneg) (by omega)

mutual

theorem Spells.length_le {j : Json} {bytes : Bytes} :
    Spells j bytes → j.All Json.NotFloat → (writeMsgpack j).length ≤ bytes.length
  | .positiveFixint _, _ => (length_writeInteger_of_small (by omega) (by omega)).le
  | .negativeFixint _, _ => (length_writeInteger_of_small (by omega) (by omega)).le
  | .nil, _ => Nat.le_refl 1
  | .boolean, _ => Nat.le_refl 1
  | .float32 _ _, hfloat => (hfloat _ rfl).elim
  | .float64 _, hfloat => (hfloat _ rfl).elim
  | @Spells.uint b w n bytes hcode hnumber, _ => by
      have hn := hnumber.lt
      rw [List.length_cons, hnumber.1]
      exact length_writeInteger_of_nonneg (width_of_uintCodes _ hcode) (by omega) (by omega)
  | @Spells.int b w n bytes hcode hint, _ => by
      rcases hint with ⟨hlow, hhigh, k, hnumber, _⟩
      rw [List.length_cons, hnumber.1]
      exact length_of_int (width_of_intCodes _ hcode) hlow hhigh
  | .string h, _ => h.length_le
  | @Spells.array elements size bytes hsize h, hfloat => by
      have helements := h.length_le (Json.allElements_iff.1 hfloat.2)
      rw [writeMsgpack, List.length_append, List.length_append, length_writeElements]
      exact Nat.add_le_add hsize.length_le helements
  | @Spells.object entries members size bytes hsize h hmembers, hfloat => by
      have hall := Json.allMembers_iff.1 hfloat.2
      -- only the members are written, and they contain no floating point number
      have hwritten : (writeMembers members).length ≤ bytes.length := by
        calc (writeMembers members).length
            = (members.map charge).sum := by
              rw [length_writeMembers]
              exact congrArg List.sum
                (List.map_congr_left fun m hm => (charge_of_all (hall m hm)).symm)
          _ ≤ (entries.map charge).sum := by
              rw [SortedMap.eq_assignAll_iff.2 hmembers]
              simpa using sum_assignAll_le charge entries []
          _ ≤ bytes.length := h.length_le
      rw [writeMsgpack, List.length_append, List.length_append]
      exact Nat.add_le_add (hsize.length_le hmembers.length_le) hwritten

theorem SpellsElements.length_le {js : List Json} {bytes : Bytes} :
    SpellsElements js bytes → (∀ j ∈ js, j.All Json.NotFloat) →
      (js.map fun j => (writeMsgpack j).length).sum ≤ bytes.length
  | .nil, _ => Nat.le_refl 0
  | .cons h hrest, hfloat => by
      rcases List.forall_mem_cons.1 hfloat with ⟨hhead, htail⟩
      rw [List.map_cons, List.sum_cons, List.length_append]
      exact Nat.add_le_add (h.length_le hhead) (hrest.length_le htail)

theorem SpellsEntries.length_le {entries : List (String × Json)} {bytes : Bytes} :
    SpellsEntries entries bytes → (entries.map charge).sum ≤ bytes.length
  | .nil => Nat.le_refl 0
  | @SpellsEntries.cons key j entries bytes bytes' rest hkey h hrest => by
      have hcharge : charge (key, j) ≤ bytes.length + bytes'.length := by
        unfold charge
        split
        · rename_i hfloat
          exact Nat.add_le_add hkey.length_le (h.length_le hfloat)
        · exact Nat.zero_le _
      have hentries := hrest.length_le
      simp only [List.map_cons, List.sum_cons, List.length_append]
      omega

end

/-- No text of a value without floating point numbers is shorter than the one that is written. -/
theorem length_writeMsgpack_le {j : Json} {input : Bytes} (h : fromMsgpack input = .ok j)
    (hfloat : j.All Json.NotFloat) : (writeMsgpack j).length ≤ input.length :=
  (spells_of_fromMsgpack h).length_le hfloat

theorem length_writeMsgpack_le_five : (writeMsgpack (.number 5)).length ≤ 3 :=
  @length_writeMsgpack_le (.number 5) [0xCD, 0x00, 0x05] rfl
    (by simp [Json.All, Json.NotFloat])

end Msgpack

end CapyAmqp
