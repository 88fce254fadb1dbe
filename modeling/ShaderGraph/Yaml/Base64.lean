import ShaderGraph.Yaml.Cursor

/-!
# Bytes in scalars

Bytes are written in base 64: a character stands for six bits, the first one for the most significant
ones, and equal signs fill up the last group of four. Other characters are passed over.
-/

namespace ShaderGraph.Yaml.Base64

/-- The six bits of a character. -/
def sextet? (c : Char) : Option Nat :=
  if 'A' ≤ c ∧ c ≤ 'Z' then some (c.toNat - 'A'.toNat)
  else if 'a' ≤ c ∧ c ≤ 'z' then some (c.toNat - 'a'.toNat + 26)
  else if '0' ≤ c ∧ c ≤ '9' then some (c.toNat - '0'.toNat + 52)
  else if c = '+' then some 62
  else if c = '/' then some 63
  else none

/-- The bytes from a character on. In its group there are `count` characters before it, the last of
which has left the bits `left`; after them there are `fills` equal signs. -/
def bytesFrom? (count left fills : Nat) : List Char → Option (List UInt8)
  | [] => if count = 0 then some [] else none
  | c :: cs =>
    if c = '=' then
      if 2 ≤ count ∧ 4 ≤ count + fills + 1 then some []
      else bytesFrom? count left (if 2 ≤ count then fills + 1 else fills) cs
    else
      match sextet? c with
      | none => bytesFrom? count left fills cs
      | some d =>
        match count with
        | 0 => bytesFrom? 1 d 0 cs
        | 1 => (bytesFrom? 2 (d % 16) 0 cs).map (UInt8.ofNat (left * 4 + d / 16) :: ·)
        | 2 => (bytesFrom? 3 (d % 4) 0 cs).map (UInt8.ofNat (left * 16 + d / 4) :: ·)
        | _ => (bytesFrom? 0 0 0 cs).map (UInt8.ofNat (left * 64 + d) :: ·)

/-- The bytes that a scalar spells. -/
def read (content : String) : Except ReadError (List UInt8) :=
  let isAscii := content.toList.all (·.toNat < 128)
  match if isAscii then bytesFrom? 0 0 0 content.toList else none with
  | some found => .ok found
  | none => .error (.malformed "invalid bytes" none)

end ShaderGraph.Yaml.Base64
