/-!
# Numbers as octets

Numbers are written with the least octet first, in a fixed number of octets.
-/

namespace FormLetter.Archive

abbrev Octets := List UInt8

def octetsOf : Nat → Nat → Octets
  | 0, _ => []
  | width + 1, n => UInt8.ofNat n :: octetsOf width (n / 256)

def numberOf : Octets → Nat
  | [] => 0
  | b :: bs => b.toNat + 256 * numberOf bs

def numberAt (data : ByteArray) (place width : Nat) : Nat :=
  numberOf (data.extract place (place + width)).toList

def part? (data : ByteArray) (place length : Nat) : Option ByteArray :=
  if place + length ≤ data.size then some (data.extract place (place + length)) else none

def checkBit (c : UInt32) : UInt32 :=
  if c &&& 1 = 1 then (0xEDB88320 : UInt32) ^^^ (c >>> 1) else c >>> 1

def checkOctet (c : UInt32) (b : UInt8) : UInt32 :=
  (List.range 8).foldl (fun c _ => checkBit c) (c ^^^ b.toUInt32)

def checksum (data : ByteArray) : Nat :=
  (data.foldl checkOctet 0xFFFFFFFF ^^^ (0xFFFFFFFF : UInt32)).toNat

end FormLetter.Archive
