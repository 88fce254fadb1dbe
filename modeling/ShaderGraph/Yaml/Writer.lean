import ShaderGraph.Yaml.Display
import ShaderGraph.Yaml.Page
import ShaderGraph.Yaml.Scalar

/-!
# Writing YAML

A scalar is written plain if that reads back as the same scalar, else between single quotes, and
between double quotes with escapes if it holds anything but printable ASCII and line feeds. Lines are
broken at single spaces and between items once they are longer than eighty characters. A document is
in block style, one entry a line, or in flow style, between brackets.
-/

namespace ShaderGraph.Yaml

/-- What the characters of a scalar allow. -/
structure Analysis where
  multiline : Bool
  flowPlain : Bool
  blockPlain : Bool
  singleQuoted : Bool

/-- The blanks that end an indicator. -/
def isGapChar (c : Char) : Bool :=
  c == '\x00' || c == ' ' || c == '\t' || c == '\r' || c == '\n' || c == '\x85'
    || c.toNat == 0x2028 || c.toNat == 0x2029

/-- Whether a blank or the end follows. -/
def gapFollows : List Char → Bool
  | [] => true
  | c :: _ => isGapChar c

/-- Whether a character is written as it is outside of double quotes. -/
def isPlainChar (c : Char) : Bool := c == '\n' || (' ' ≤ c && c ≤ '~')

namespace Analysis

/-- Whether the first character is an indicator in flow context, and in block context. -/
def firstIndicators (c : Char) (rest : List Char) : Bool × Bool :=
  if "#,[]\x7b\x7d&*!|>'\"%@\x60".toList.contains c then (true, true)
  else if c == '?' || c == ':' then (true, gapFollows rest)
  else if c == '-' && gapFollows rest then (true, true)
  else (false, false)

/-- Whether a later character is an indicator in flow context, and in block context; `gap` says
that a blank stands before it. -/
def laterIndicators (gap : Bool) (c : Char) (rest : List Char) : Bool × Bool :=
  if ",?[]\x7b\x7d".toList.contains c then (true, false)
  else if c == ':' then (true, gapFollows rest)
  else if c == '#' && gap then (true, true)
  else (false, false)

/-- The indicators among the characters after the first. -/
def indicators (gap : Bool) : List Char → Bool × Bool
  | [] => (false, false)
  | c :: rest =>
    let (f, b) := laterIndicators gap c rest
    let (f', b') := indicators (isGapChar c) rest
    (f || f', b || b')

/-- Whether one kind of character stands directly before another. -/
def hasPair (p q : Char → Bool) : List Char → Bool
  | a :: b :: rest => (p a && q b) || hasPair p q (b :: rest)
  | _ => false

def isSpace (c : Char) : Bool := c == ' '

/-- The breaks inside of a scalar. -/
def isBreak (c : Char) : Bool :=
  c == '\n' || c == '\x85' || c.toNat == 0x2028 || c.toNat == 0x2029

/-- What a scalar that is not empty allows. -/
def ofChars (c : Char) (rest : List Char) : Analysis :=
  let cs := c :: rest
  let marker := "---".toList.isPrefixOf cs || "...".toList.isPrefixOf cs
  let (f, b) := firstIndicators c rest
  let (f', b') := indicators (isGapChar c) rest
  let last := rest.getLast?.getD c
  let padded := isSpace c || isBreak c || isSpace last || isBreak last
  let breakSpace := hasPair isBreak isSpace cs
  let unsafeChars := hasPair isSpace isBreak cs || cs.any fun c => !isPlainChar c
  let multiline := cs.any isBreak
  let plain := !padded && !breakSpace && !unsafeChars && !multiline
  { multiline
    flowPlain := plain && !(marker || f || f')
    blockPlain := plain && !(marker || b || b')
    singleQuoted := !breakSpace && !unsafeChars }

/-- What a scalar allows. -/
def of (s : String) : Analysis :=
  match s.toList with
  | [] => ⟨false, false, true, true⟩
  | c :: rest => ofChars c rest

end Analysis

/-- How a scalar is written. -/
inductive Quoting where
  | plain
  | single
  | double
deriving DecidableEq, Repr

/-- Where a scalar is written. -/
structure Place where
  inFlow : Bool
  /-- Whether the scalar is a key on the line of its value. -/
  isKey : Bool

/-- How a scalar is written, `implicit` saying that it reads back when it is plain. -/
def quotingOf (place : Place) (implicit : Bool) (s : String) : Quoting :=
  let a := Analysis.of s
  let keyFits := !(place.isKey && (s.isEmpty || a.multiline))
  if implicit && keyFits && (if place.inFlow then a.flowPlain else a.blockPlain) then .plain
  else if a.singleQuoted && !(place.isKey && a.multiline) then .single
  else .double

/-- Characters of one kind that follow each other. -/
inductive Run where
  | word (cs : List Char)
  | spaces (count : Nat)
  | breaks (count : Nat)

/-- A character before some runs. -/
def consRun (c : Char) (runs : List Run) : List Run :=
  if c = ' ' then
    match runs with
    | .spaces n :: r => .spaces (n + 1) :: r
    | r => .spaces 1 :: r
  else if c = '\n' then
    match runs with
    | .breaks n :: r => .breaks (n + 1) :: r
    | r => .breaks 1 :: r
  else
    match runs with
    | .word w :: r => .word (c :: w) :: r
    | r => .word [c] :: r

/-- The runs of a text. -/
def runsOf (cs : List Char) : List Run := cs.foldr consRun []

/-- The page with the runs of a scalar. A single space between words is where a long line may be
broken, if `split` allows it. A line break is written as one more than there are. -/
def writeRuns (indent : Nat) (split : Bool) (f : List Char → List Char) (first : Bool) (p : Page) :
    List Run → Page
  | [] => p
  | .word w :: rest => writeRuns indent split f false (p.putChars (f w)) rest
  | .spaces n :: rest =>
    if n = 1 ∧ p.isFull ∧ split ∧ !first ∧ !rest.isEmpty then
      writeRuns indent split f false (p.indentTo indent).inScalar rest
    else writeRuns indent split f false (p.putChars (List.replicate n ' ')) rest
  | .breaks n :: rest =>
    let p := (List.range (n + 1)).foldl (fun p _ => p.breakLine) p
    writeRuns indent split f false (p.indentTo indent).inScalar rest

/-- A plain scalar. -/
def writePlain (indent : Nat) (split : Bool) (s : String) (p : Page) : Page :=
  if s.isEmpty then p
  else
    let p := (if p.apart then p else p.put " ").inScalar
    writeRuns indent split id true p (runsOf s.toList)

/-- Single quotes written twice. -/
def doubleQuotes (w : List Char) : List Char := w.flatMap fun c => if c = '\'' then ['\'', '\''] else [c]

/-- A scalar between single quotes. -/
def writeSingle (indent : Nat) (split : Bool) (s : String) (p : Page) : Page :=
  (writeRuns indent split doubleQuotes true (p.mark "'" true) (runsOf s.toList)).mark "'" false

/-- The characters that a backslash and a letter stand for. -/
def letterEscapes : List (Char × Char) := [
  ('\x00', '0'), ('\x07', 'a'), ('\x08', 'b'), ('\t', 't'), ('\n', 'n'), ('\x0b', 'v'),
  ('\x0c', 'f'), ('\r', 'r'), ('\x1b', 'e'), ('"', '"'), ('\\', '\\'), ('\x85', 'N'),
  ('\xa0', '_'), ('\u2028', 'L'), ('\u2029', 'P')]

/-- A number as so many hexadecimal digits. -/
def hexDigits : Nat → Nat → List Char
  | 0, _ => []
  | k + 1, n => hexDigits k (n / 16) ++ [(Nat.digitChar (n % 16)).toUpper]

/-- A character that is not written as it is between double quotes. -/
def escape (c : Char) : List Char :=
  match letterEscapes.find? fun e => e.1 = c with
  | some e => ['\\', e.2]
  | none =>
    let n := c.toNat
    if n ≤ 0xFF then '\\' :: 'x' :: hexDigits 2 n
    else if n ≤ 0xFFFF then '\\' :: 'u' :: hexDigits 4 n
    else '\\' :: 'U' :: hexDigits 8 n

def needsEscape (c : Char) : Bool := c == '"' || c == '\\' || !(' ' ≤ c && c ≤ '~')

/-- The page with a long line broken between double quotes after `word`; a space that would start
the new line is escaped. -/
def breakDouble (indent : Nat) (word : List Char) (next : Option Char) (p : Page) : Page :=
  let p := ((p.putChars (word ++ ['\\'])).indentTo indent).inScalar
  if next = some ' ' then p.put "\\" else p

/-- The characters of a scalar between double quotes. `word` is what is read and not yet written, in
reverse; `first` says that nothing is read yet. Lines break before spaces and at escapes, but not
before the last character. -/
def writeDoubleFrom (indent : Nat) (split first : Bool) (word : List Char) (p : Page) :
    List Char → Page
  | [] => p.putChars word.reverse
  | c :: cs =>
    let mayBreak := !first && !cs.isEmpty && split
    if needsEscape c then
      let p := (p.putChars word.reverse).putChars (escape c)
      if mayBreak && Page.bestWidth + 1 < p.column then
        writeDoubleFrom indent split false [] (breakDouble indent [] cs.head? p) cs
      else writeDoubleFrom indent split false [] p cs
    else if mayBreak && (c == ' ' || word.isEmpty) && Page.bestWidth < p.column + word.length then
      writeDoubleFrom indent split false [c] (breakDouble indent word.reverse (some c) p) cs
    else writeDoubleFrom indent split false (c :: word) p cs

/-- A scalar between double quotes. -/
def writeDouble (indent : Nat) (split : Bool) (s : String) (p : Page) : Page :=
  (writeDoubleFrom indent split true [] (p.mark "\"" true) s.toList).mark "\"" false

/-- A scalar whose lines start at a column. -/
def writeText (place : Place) (implicit : Bool) (indent : Nat) (s : String) (p : Page) : Page :=
  match quotingOf place implicit s with
  | .plain => writePlain indent (!place.isKey) s p
  | .single => writeSingle indent (!place.isKey) s p
  | .double => writeDouble indent (!place.isKey) s p

/-- How numbers without digits are written. -/
def specialNames : SpecialNames := ⟨".inf", ".nan"⟩

/-- A scalar as text, and whether it reads back when it is plain. A value of a type that no
configuration is written with is written as it shows. -/
def scalarText : Yaml → String × Bool
  | null => ("null", true)
  | bool b => (if b then "true" else "false", true)
  | int i => (toString i, true)
  | real x => (x.toText specialNames, true)
  | text s => (s, ScalarType.ofPlain s = .text)
  | sequence _ | mapping _ => ("", true)
  | v => (v.showAlone.getD "", false)

/-- The longest key that stands on the line of its value. -/
def longestKey : Nat := 122

/-- Whether a key stands on the line of its value. -/
def isSimpleKey : Yaml → Bool
  | sequence items => items.isEmpty
  | mapping entries => entries.isEmpty
  | v =>
    let s := (scalarText v).1
    s.length ≤ longestKey && !s.isEmpty && !(Analysis.of s).multiline

/-- A break before an item if the line is too long. -/
def breakIfFull (indent : Nat) (p : Page) : Page := if p.isFull then p.indentTo indent else p

/-- A value without parts, whose lines start at a column. -/
def writeScalar (place : Place) (indent : Nat) (p : Page) (v : Yaml) : Page :=
  writeText place (scalarText v).2 indent (scalarText v).1 p

mutual

/-- A value in flow style inside of a collection with an indentation. -/
def writeFlow (indent : Nat) (isKey : Bool) (p : Page) : Yaml → Page
  | sequence items =>
    (writeFlowItems (indent + 2) true (p.mark "[" true true) items).mark "]" false
  | mapping entries =>
    (writeFlowEntries (indent + 2) true (p.mark "\x7b" true true) entries).mark "\x7d" false
  | v => writeScalar ⟨true, isKey⟩ (indent + 2) p v

/-- The items of a flow sequence. -/
def writeFlowItems (indent : Nat) (first : Bool) (p : Page) : List Yaml → Page
  | [] => p
  | v :: vs =>
    let p := breakIfFull indent (if first then p else p.mark "," false)
    writeFlowItems indent false (writeFlow indent false p v) vs

/-- The entries of a flow mapping. -/
def writeFlowEntries (indent : Nat) (first : Bool) (p : Page) : List (Yaml × Yaml) → Page
  | [] => p
  | (k, v) :: es =>
    let p := breakIfFull indent (if first then p else p.mark "," false)
    let p :=
      if isSimpleKey k then (writeFlow indent true p k).mark ":" false
      else (breakIfFull indent (writeFlow indent false (p.mark "?" true) k)).mark ":" true
    writeFlowEntries indent false (writeFlow indent false p v) es

end

/-- The indentation of a block collection inside of another one: that of a sequence which is the
value of a key is not increased. -/
def innerIndent (indent : Option Nat) (keeps : Bool) : Nat :=
  match indent with
  | none => 0
  | some n => if keeps then n else n + 2

mutual

/-- A value in block style inside of a collection with an indentation, none at the top. `inMapping`
says that the collection is a mapping. -/
def writeBlock (indent : Option Nat) (inMapping isKey : Bool) (p : Page) : Yaml → Page
  | sequence items =>
    if items.isEmpty then (p.mark "[" true true).mark "]" false
    else writeBlockItems (innerIndent indent (inMapping && !p.fresh)) p items
  | mapping entries =>
    if entries.isEmpty then (p.mark "\x7b" true true).mark "\x7d" false
    else writeBlockEntries (innerIndent indent false) p entries
  | v => writeScalar ⟨false, isKey⟩ (innerIndent indent false) p v

/-- The items of a block sequence. -/
def writeBlockItems (indent : Nat) (p : Page) : List Yaml → Page
  | [] => p
  | v :: vs =>
    let p := (p.indentTo indent).mark "-" true false true
    writeBlockItems indent (writeBlock (some indent) false false p v) vs

/-- The entries of a block mapping. -/
def writeBlockEntries (indent : Nat) (p : Page) : List (Yaml × Yaml) → Page
  | [] => p
  | (k, v) :: es =>
    let p := p.indentTo indent
    let p :=
      if isSimpleKey k then (writeBlock (some indent) true true p k).mark ":" false
      else
        let p := writeBlock (some indent) true false (p.mark "?" true false true) k
        (p.indentTo indent).mark ":" true false true
    writeBlockEntries indent (writeBlock (some indent) true false p v) es

end

/-- A document in block style. -/
def renderBlock (v : Yaml) : String := ((writeBlock none false false {} v).indentTo 0).text

/-- A document in flow style, without the line break at its end. The outermost brackets stand at the
left margin, so the lines in them are indented once. -/
def renderFlow (v : Yaml) : String :=
  match v with
  | sequence items => ((writeFlowItems 2 true (Page.mark {} "[" true true) items).mark "]" false).text
  | mapping entries => ((writeFlowEntries 2 true (Page.mark {} "\x7b" true true) entries).mark "\x7d" false).text
  | v => (writeFlow 0 false {} v).text

end ShaderGraph.Yaml
