import CapyAmqp.Lib.BigEndian
import CapyAmqp.Msgpack.Value

/-!
# Writer — `binary_writer::write_msgpack`

The control bytes and sizes are chosen by the same comparisons as in the source.  Where none of them
holds nothing is written: a size of 2³² or more has no header at all.
-/

namespace CapyAmqp

namespace Msgpack

open Lib

/-- An integer: `number_integer` if it is negative, else as `number_unsigned`. -/
def writeInteger (n : Int) : Bytes :=
  if 0 ≤ n then
    if n < 128 then bigEndian 1 n.toNat
    else if n ≤ 0xFF then 0xCC :: bigEndian 1 n.toNat
    else if n ≤ 0xFFFF then 0xCD :: bigEndian 2 n.toNat
    else if n ≤ 0xFFFFFFFF then 0xCE :: bigEndian 4 n.toNat
    else if n ≤ 0xFFFFFFFFFFFFFFFF then 0xCF :: bigEndian 8 n.toNat
    else []
  else
    if -32 ≤ n then bigEndian 1 (twosComplement 1 n)
    else if -0x80 ≤ n then 0xD0 :: bigEndian 1 (twosComplement 1 n)
    else if -0x8000 ≤ n then 0xD1 :: bigEndian 2 (twosComplement 2 n)
    else if -0x80000000 ≤ n then 0xD2 :: bigEndian 4 (twosComplement 4 n)
    else if -0x8000000000000000 ≤ n then 0xD3 :: bigEndian 8 (twosComplement 8 n)
    else []

def writeStringSize (n : Nat) : Bytes :=
  if n ≤ 31 then bigEndian 1 (0xA0 ||| n)
  else if n ≤ 0xFF then 0xD9 :: bigEndian 1 n
  else if n ≤ 0xFFFF then 0xDA :: bigEndian 2 n
  else if n ≤ 0xFFFFFFFF then 0xDB :: bigEndian 4 n
  else []

def writeString (s : String) : Bytes := writeStringSize s.length ++ stringBytes s

/-- The header of an array or an object, from the control bytes of its three forms. -/
def writeSize (fix : Nat) (code16 code32 : UInt8) (n : Nat) : Bytes :=
  if n ≤ 15 then bigEndian 1 (fix ||| n)
  else if n ≤ 0xFFFF then code16 :: bigEndian 2 n
  else if n ≤ 0xFFFFFFFF then code32 :: bigEndian 4 n
  else []

def writeArraySize (n : Nat) : Bytes := writeSize 0x90 0xDC 0xDD n

/-- The source masks the size with `0xF` in the first form, where it is at most 15 already. -/
def writeObjectSize (n : Nat) : Bytes := writeSize 0x80 0xDE 0xDF n

mutual

/-- `write_msgpack`, and so `json::to_msgpack`. -/
def writeMsgpack : Json → Bytes
  | .null => [0xC0]
  | .boolean b => [if b then 0xC3 else 0xC2]
  | .number n => writeInteger n
  | .float bits => 0xCB :: bigEndian 8 bits.toNat
  | .string s => writeString s
  | .array elements => writeArraySize elements.length ++ writeElements elements
  | .object members => writeObjectSize members.length ++ writeMembers members

def writeElements : List Json → Bytes
  | [] => []
  | j :: js => writeMsgpack j ++ writeElements js

/-- The keys are written as values of their own. -/
def writeMembers : List (String × Json) → Bytes
  | [] => []
  | (key, j) :: members => writeString key ++ writeMsgpack j ++ writeMembers members

end

end Msgpack

end CapyAmqp
