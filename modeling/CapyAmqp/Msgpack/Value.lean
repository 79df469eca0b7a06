import CapyAmqp.Common.Payload
import CapyAmqp.Lib.SortedMap
import Mathlib.Algebra.Order.Ring.Int
import Mathlib.Data.String.Basic

/-!
# Value — which JSON values the library can hold

A `std::string` is an array of bytes; as a text each of its characters is one byte (`stringBytes`).
The integers of a `basic_json` are those of `int64_t` and of `uint64_t`, and its objects are
`std::map`s.  `Json.Valid` says that of every value inside a value, and `Json.Fits` that the sizes
have 32 bits.
-/

namespace CapyAmqp

open Lib

/-! ## Strings of bytes -/

/-- The bytes of a `std::string`. -/
def stringBytes (s : String) : Bytes := s.toList.map fun c => UInt8.ofNat c.toNat

/-- The `std::string` of an array of bytes. -/
def ofStringBytes (bytes : Bytes) : String := String.ofList (bytes.map fun b => Char.ofNat b.toNat)

/-- Every character is one byte. -/
def IsBytes (s : String) : Prop := ∀ c ∈ s.toList, c.toNat < 256

theorem toNat_ofNat_of_byte (b : UInt8) : (Char.ofNat b.toNat).toNat = b.toNat := by
  have hvalid : b.toNat.isValidChar := .inl (lt_trans b.toNat_lt (by decide))
  exact congrArg Char.toNat (dif_pos hvalid)

theorem stringBytes_ofStringBytes (bytes : Bytes) : stringBytes (ofStringBytes bytes) = bytes := by
  simp [stringBytes, ofStringBytes, toNat_ofNat_of_byte, Function.comp_def]

theorem ofStringBytes_stringBytes {s : String} (h : IsBytes s) :
    ofStringBytes (stringBytes s) = s := by
  have hmap : (s.toList.map fun c => Char.ofNat (UInt8.ofNat c.toNat).toNat) = s.toList := by
    conv_rhs => rw [← List.map_id s.toList]
    refine List.map_congr_left fun c hc => ?_
    have hlt : (UInt8.ofNat c.toNat).toNat = c.toNat := by
      simpa using Nat.mod_eq_of_lt (h c hc)
    rw [hlt, id, Char.ofNat_toNat]
  calc ofStringBytes (stringBytes s)
      = String.ofList (s.toList.map fun c => Char.ofNat (UInt8.ofNat c.toNat).toNat) := by
        simp [ofStringBytes, stringBytes, Function.comp_def]
    _ = s := by rw [hmap, String.ofList_toList]

theorem isBytes_ofStringBytes (bytes : Bytes) : IsBytes (ofStringBytes bytes) := by
  intro c hc
  simp only [ofStringBytes, String.toList_ofList, List.mem_map] at hc
  rcases hc with ⟨b, _, rfl⟩
  rw [toNat_ofNat_of_byte]
  exact b.toNat_lt

@[simp] theorem length_stringBytes (s : String) : (stringBytes s).length = s.length := by
  simp [stringBytes, String.length_toList]

@[simp] theorem length_ofStringBytes (bytes : Bytes) :
    (ofStringBytes bytes).length = bytes.length := by
  simp [ofStringBytes]

/-! ## Values inside a value -/

mutual

/-- The value and all values inside it satisfy `p`. -/
def Json.All (p : Json → Prop) : Json → Prop
  | .array elements => p (.array elements) ∧ Json.AllElements p elements
  | .object members => p (.object members) ∧ Json.AllMembers p members
  | .null => p .null
  | .boolean b => p (.boolean b)
  | .number n => p (.number n)
  | .float bits => p (.float bits)
  | .string s => p (.string s)

def Json.AllElements (p : Json → Prop) : List Json → Prop
  | [] => True
  | j :: js => Json.All p j ∧ Json.AllElements p js

def Json.AllMembers (p : Json → Prop) : List (String × Json) → Prop
  | [] => True
  | (_, j) :: members => Json.All p j ∧ Json.AllMembers p members

end

theorem Json.allElements_iff {p : Json → Prop} {js : List Json} :
    Json.AllElements p js ↔ ∀ j ∈ js, j.All p := by
  induction js with
  | nil => simp [Json.AllElements]
  | cons j js ih => simp [Json.AllElements, ih]

theorem Json.allMembers_iff {p : Json → Prop} {members : List (String × Json)} :
    Json.AllMembers p members ↔ ∀ m ∈ members, m.2.All p := by
  induction members with
  | nil => simp [Json.AllMembers]
  | cons m members ih => simp [Json.AllMembers, ih]

mutual

theorem Json.all_and {p q : Json → Prop} :
    (j : Json) → (j.All (fun j => p j ∧ q j) ↔ j.All p ∧ j.All q)
  | .array elements => by
      simp only [Json.All, Json.allElements_and elements]
      tauto
  | .object members => by
      simp only [Json.All, Json.allMembers_and members]
      tauto
  | .null => Iff.rfl
  | .boolean _ => Iff.rfl
  | .number _ => Iff.rfl
  | .float _ => Iff.rfl
  | .string _ => Iff.rfl

theorem Json.allElements_and {p q : Json → Prop} :
    (js : List Json) → (Json.AllElements (fun j => p j ∧ q j) js ↔
      Json.AllElements p js ∧ Json.AllElements q js)
  | [] => by simp only [Json.AllElements, and_self]
  | j :: js => by
      simp only [Json.AllElements, Json.all_and j, Json.allElements_and js]
      tauto

theorem Json.allMembers_and {p q : Json → Prop} :
    (members : List (String × Json)) → (Json.AllMembers (fun j => p j ∧ q j) members ↔
      Json.AllMembers p members ∧ Json.AllMembers q members)
  | [] => by simp only [Json.AllMembers, and_self]
  | (_, j) :: members => by
      simp only [Json.AllMembers, Json.all_and j, Json.allMembers_and members]
      tauto

end

/-! ## What a `basic_json` can hold, and what has a size in 32 bits -/

/-- What the types of `basic_json` say about one value. -/
def Json.NodeValid : Json → Prop
  | .number n => -2 ^ 63 ≤ n ∧ n < 2 ^ 64
  | .string s => IsBytes s
  | .object members => SortedMap.Sorted members ∧ ∀ m ∈ members, IsBytes m.1
  | _ => True

/-- The sizes in one value have 32 bits. -/
def Json.NodeFits : Json → Prop
  | .string s => s.length < 2 ^ 32
  | .array elements => elements.length < 2 ^ 32
  | .object members => members.length < 2 ^ 32 ∧ ∀ m ∈ members, m.1.length < 2 ^ 32
  | _ => True

/-- A value that a `basic_json` can hold. -/
def Json.Valid (j : Json) : Prop := j.All Json.NodeValid

/-- No string, array or object in the value has a size of 2³² or more. -/
def Json.Fits (j : Json) : Prop := j.All Json.NodeFits

/-- Both, for inductions over a value. -/
def Json.Encodable (j : Json) : Prop := j.All fun j => j.NodeValid ∧ j.NodeFits

theorem Json.encodable_iff {j : Json} : j.Encodable ↔ j.Valid ∧ j.Fits :=
  Json.all_and j

end CapyAmqp
