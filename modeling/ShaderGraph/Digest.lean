/-!
# Digests of texts

A text is named by 32 hexadecimal digits: the SHA-1 digest of its UTF-8 bytes, read as five words
of four bytes with the least significant byte first, the last word folded into the first. Every
digest has the same length, so digests written one after the other can be told apart again.
-/

namespace ShaderGraph.Digest

/-- The five words of a SHA-1 state. -/
structure Words where
  a : UInt32
  b : UInt32
  c : UInt32
  d : UInt32
  e : UInt32
deriving DecidableEq

/-- The state before the first block. -/
def Words.initial : Words := ⟨0x67452301, 0xEFCDAB89, 0x98BADCFE, 0x10325476, 0xC3D2E1F0⟩

/-- The bits of a word moved `n` places up, those pushed out coming back below. -/
def rotate (w n : UInt32) : UInt32 := (w <<< n) ||| (w >>> (32 - n))

/-- The function and the constant of a round. -/
def roundMix (t : Nat) (b c d : UInt32) : UInt32 × UInt32 :=
  if t < 20 then ((b &&& c) ||| ((~~~b) &&& d), 0x5A827999)
  else if t < 40 then (b ^^^ c ^^^ d, 0x6ED9EBA1)
  else if t < 60 then ((b &&& c) ||| (b &&& d) ||| (c &&& d), 0x8F1BBCDC)
  else (b ^^^ c ^^^ d, 0xCA62C1D6)

/-- One round, with the word of the schedule that belongs to it. -/
def Words.round (s : Words) (t : Nat) (w : UInt32) : Words :=
  let (f, k) := roundMix t s.b s.c s.d
  ⟨rotate s.a 5 + f + s.e + k + w, s.a, rotate s.b 30, s.c, s.d⟩

/-- The words of a block followed by those made from them, eighty in all. -/
def schedule (block : Array UInt32) : Array UInt32 :=
  (List.range 64).foldl (fun w i =>
    let at' (k : Nat) : UInt32 := w.getD (i + k) 0
    w.push (rotate (at' 13 ^^^ at' 8 ^^^ at' 2 ^^^ at' 0) 1)) block

/-- The state after a block. -/
def Words.absorb (s : Words) (block : Array UInt32) : Words :=
  let w := schedule block
  let t := (List.range 80).foldl (fun t i => t.round i (w.getD i 0)) s
  ⟨s.a + t.a, s.b + t.b, s.c + t.c, s.d + t.d, s.e + t.e⟩

/-- The bytes of a number, the most significant first. -/
def bigEndian (count n : Nat) : List UInt8 :=
  (List.range count).map fun i => UInt8.ofNat (n >>> (8 * (count - 1 - i)))

/-- A message with the end mark, the zeros and the length in bits that fill the last block. -/
def padded (bytes : List UInt8) : List UInt8 :=
  let n := bytes.length
  bytes ++ [0x80] ++ List.replicate ((119 - n % 64) % 64) 0 ++ bigEndian 8 (8 * n)

/-- The words of a message, four bytes each, the most significant first. -/
def wordsOf : List UInt8 → List UInt32
  | a :: b :: c :: d :: r =>
    ((a.toUInt32 <<< 24) ||| (b.toUInt32 <<< 16) ||| (c.toUInt32 <<< 8) ||| d.toUInt32) :: wordsOf r
  | _ => []

/-- The state after all the blocks that `n` words of a block and the words to come make up. -/
def absorbAll (s : Words) (block : Array UInt32) : List UInt32 → Words
  | [] => s
  | w :: ws =>
    let block := block.push w
    if block.size = 16 then absorbAll (s.absorb block) #[] ws else absorbAll s block ws

/-- The SHA-1 digest of some bytes. -/
def sha1 (bytes : List UInt8) : Words := absorbAll Words.initial #[] (wordsOf (padded bytes))

/-- A word with its bytes in the opposite order. -/
def swapBytes (w : UInt32) : UInt32 :=
  let middle : UInt32 := 0xFF00
  (w <<< 24) ||| ((w &&& middle) <<< 8) ||| ((w >>> 8) &&& middle) ||| (w >>> 24)

/-- The hexadecimal digits, letters in upper case. -/
def upperDigit (n : Nat) : Char := if n < 10 then Char.ofNat (48 + n) else Char.ofNat (55 + n)

/-- The eight hexadecimal digits of a word. -/
def hexWord (w : UInt32) : List Char :=
  [28, 24, 20, 16, 12, 8, 4, 0].map fun k => upperDigit ((w.toNat >>> k) % 16)

/-- The hexadecimal digits of a digest folded to four words. -/
def fold (s : Words) : List Char :=
  hexWord (swapBytes s.a ^^^ swapBytes s.e) ++ hexWord (swapBytes s.b) ++ hexWord (swapBytes s.c)
    ++ hexWord (swapBytes s.d)

/-- The digest of a text. -/
def hash (text : String) : String := String.ofList (fold (sha1 text.toUTF8.data.toList))

theorem length_hexWord (w : UInt32) : (hexWord w).length = 8 := rfl

theorem length_fold (s : Words) : (fold s).length = 32 := by
  simp [fold, length_hexWord]

/-- Every digest has 32 digits. -/
theorem length_hash (text : String) : (hash text).toList.length = 32 := by
  simp [hash, length_fold]

end ShaderGraph.Digest
