import ShaderGraph.Failure
import ShaderGraph.Source.Function
import ShaderGraph.Text.Lines

/-!
# Finding the functions of a source

A source is read one character at a time. The scope says what is being read, and carries the draft
of the function it belongs to, so that there is always one to write to. Outside of functions a line
break forgets a pending comment, and any other character that is not blank is put back, to be read
once more in the scope that it opens.
-/

namespace ShaderGraph

open Text

/-- A function that is still being read. -/
structure Draft where
  comment : String := ""
  returnType : String := ""
  name : String := ""
  /-- The arguments before the last one, the latest first. -/
  earlier : List String := []
  /-- The last argument as far as it is read. -/
  current : String := ""
  startLine : Nat := 0
  body : String := ""
deriving DecidableEq, Repr, Inhabited

namespace Draft

/-- The arguments in order; a single blank one is none. -/
def arguments (d : Draft) : List String :=
  if d.earlier.isEmpty && isBlankText d.current then [] else (d.current :: d.earlier).reverse

/-- The function whose body has just been closed. -/
def finish (d : Draft) : ShaderFunction :=
  ⟨d.startLine, d.comment, d.returnType, d.name, d.arguments, d.body⟩

/-- The draft with a character added to its last argument. -/
def extendArgument (d : Draft) (c : Char) : Draft := { d with current := d.current.push c }

/-- The draft with its last argument ended by a comma. -/
def endArgument (d : Draft) : Draft := { d with earlier := d.current :: d.earlier, current := "" }

end Draft

/-- What is being read. -/
inductive Scope where
  /-- between functions, with the draft that a comment or a directive has opened -/
  | outside (pending : Option Draft)
  | directive (draft : Draft)
  | comment (draft : Draft)
  | returnType (draft : Draft)
  | name (draft : Draft)
  /-- the argument list, inside so many open parentheses and square brackets -/
  | arguments (draft : Draft) (parens : Nat) (brackets : Int)
  | bodyStart (draft : Draft)
  /-- the body, inside so many open braces -/
  | body (draft : Draft) (braces : Nat)
deriving DecidableEq, Repr, Inhabited

namespace Scope

/-- The function being read. -/
def draft? : Scope → Option Draft
  | outside pending => pending
  | directive d | comment d | returnType d | name d | arguments d _ _ | bodyStart d | body d _ =>
    some d

/-- The scope that a character between functions opens. -/
def opened (c : Char) (d : Draft) : Scope :=
  if c = '#' then directive d else if c = '/' then comment d else returnType d

end Scope

/-- Why a source has no list of functions. -/
inductive ScanFault where
  | strayBrace (function : String)
  | missingBrace (function : String)
  | endOfText (function : String)
deriving DecidableEq, Repr

/-- A fault and the line where it shows, counted from one. -/
structure ScanError where
  fault : ScanFault
  line : Nat
deriving DecidableEq, Repr

namespace ScanError

/-- The text of an error, without its line. -/
def message (e : ScanError) : String :=
  match e.fault with
  | .strayBrace name => "Invalid function body for " ++ name ++ ": too many \x7d"
  | .missingBrace name => "Invalid function body for " ++ name ++ ": missing \x7b"
  | .endOfText name =>
    "Parsing error: unexpected end of file while reading "
      ++ (if name.isEmpty then "a function" else name)

def toFailure (e : ScanError) : Failure := ⟨.scanning, e.message, none, some e.line⟩

end ScanError

/-- A source that is read up to some character. -/
structure ScanState where
  scope : Scope := .outside none
  /-- The line breaks read so far. -/
  line : Nat := 0
  /-- The functions read so far, the latest first. -/
  found : List ShaderFunction := []
deriving DecidableEq, Repr, Inhabited

/-- What a look at the next character leads to. -/
inductive Look where
  | taken (s : ScanState)
  | putBack (s : ScanState)
deriving DecidableEq, Repr

namespace ScanState

/-- The function that an error between functions names: the pending one, which has no name yet, or
else the latest one. -/
def lastName (s : ScanState) (pending : Option Draft) : String :=
  match pending, s.found with
  | some d, _ => d.name
  | none, f :: _ => f.name
  | none, [] => ""

/-- A look at a character between functions. -/
def lookOutside (s : ScanState) (pending : Option Draft) (c : Char) : Except ScanError Look :=
  if isLineBreak c then .ok (.taken { s with scope := .outside none })
  else if isBlank c then .ok (.taken s)
  else if c = '}' then .error ⟨.strayBrace (s.lastName pending), s.line + 1⟩
  else .ok (.putBack { s with scope := .opened c (pending.getD {}) })

/-- The scope after a character of an argument list. -/
def afterArgument (d : Draft) (parens : Nat) (brackets : Int) (c : Char) : Scope :=
  let parens := if c = '(' then parens + 1 else if c = ')' then parens - 1 else parens
  let brackets := if c = '[' then brackets + 1 else if c = ']' then brackets - 1 else brackets
  if parens = 0 then .bodyStart d
  else if c = ',' ∧ parens = 1 ∧ brackets = 0 then .arguments d.endArgument parens brackets
  else .arguments (d.extendArgument c) parens brackets

/-- The state after a character of a body. -/
def takeBody (s : ScanState) (d : Draft) (braces : Nat) (c : Char) : ScanState :=
  let braces := if c = '{' then braces + 1 else if c = '}' then braces - 1 else braces
  if braces = 0 then { s with scope := .outside none, found := d.finish :: s.found }
  else { s with scope := .body { d with body := d.body.push c } braces }

/-- A look at a character whose line break, if it is one, has been counted. -/
def lookIn (s : ScanState) (c : Char) : Except ScanError Look :=
  match s.scope with
  | .outside pending => s.lookOutside pending c
  | .directive d =>
    .ok (.taken (if isLineBreak c then { s with scope := .outside (some d) } else s))
  | .comment d =>
    if isLineBreak c then
      .ok (.taken { s with scope := .outside (some { d with comment := d.comment.push '\n' }) })
    else .ok (.taken { s with scope := .comment { d with comment := d.comment.push c } })
  | .returnType d =>
    if isBlank c then .ok (.taken { s with scope := .name d })
    else .ok (.taken { s with scope := .returnType { d with returnType := d.returnType.push c } })
  | .name d =>
    if c = '(' then .ok (.taken { s with scope := .arguments d 1 0 })
    else if isBlank c then .ok (.taken s)
    else .ok (.taken { s with scope := .name { d with name := d.name.push c } })
  | .arguments d parens brackets =>
    .ok (.taken { s with scope := afterArgument d parens brackets c })
  | .bodyStart d =>
    if isBlank c then .ok (.taken s)
    else if c = '{' then .ok (.taken { s with scope := .body { d with startLine := s.line } 1 })
    else .error ⟨.missingBrace d.name, s.line + 1⟩
  | .body d braces => .ok (.taken (s.takeBody d braces c))

/-- The state with the line break counted that a character may be. -/
def countLine (s : ScanState) (c : Char) : ScanState :=
  if isLineBreak c then { s with line := s.line + 1 } else s

/-- A look at the next character. -/
def look (s : ScanState) (c : Char) : Except ScanError Look := (s.countLine c).lookIn c

/-- The state after a character, which is looked at a second time when it was put back. -/
def feed (s : ScanState) (c : Char) : Except ScanError ScanState :=
  match s.look c with
  | .error e => .error e
  | .ok (.taken t) => .ok t
  | .ok (.putBack t) =>
    match t.look c with
    | .error e => .error e
    | .ok (.taken u) | .ok (.putBack u) => .ok u

/-- The state after some characters. -/
def feedAll (s : ScanState) : List Char → Except ScanError ScanState
  | [] => .ok s
  | c :: cs =>
    match s.feed c with
    | .error e => .error e
    | .ok t => t.feedAll cs

/-- The functions of a source that ends here: it may end between functions or in a comment. -/
def finish (s : ScanState) : Except ScanError (List ShaderFunction) :=
  match s.scope with
  | .outside _ | .comment _ => .ok s.found.reverse
  | .directive d | .returnType d | .name d | .arguments d _ _ | .bodyStart d | .body d _ =>
    .error ⟨.endOfText d.name, s.line + 1⟩

end ScanState

namespace ShaderFunction

/-- The functions of a source, in order. -/
def scan (text : String) : Except ScanError (List ShaderFunction) :=
  match ScanState.feedAll {} (joinCrLf text.toList) with
  | .error e => .error e
  | .ok s => s.finish

end ShaderFunction

end ShaderGraph
