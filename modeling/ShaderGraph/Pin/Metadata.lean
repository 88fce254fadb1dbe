import ShaderGraph.Pin.Basic
import ShaderGraph.Text.Blank
import ShaderGraph.Text.Word

/-!
# Metadata

The text between the square brackets before an argument holds entries: a key alone, or a key, an
equal sign and a value, which is a word or a text in double quotes. An entry ends at a comma or at
the end. Entries are looked for from left to right; where none starts, one character is skipped.
-/

namespace ShaderGraph.Metadata

open Text

/-- The text in double quotes at the head of a text. -/
def quoted? : List Char → Option (List Char × List Char)
  | '"' :: cs =>
    match cs.dropWhile (· != '"') with
    | '"' :: r => some (cs.takeWhile (· != '"'), r)
    | _ => none
  | _ => none

/-- The value at the head of a text: what stands between double quotes, or a word. -/
def readValue? (cs : List Char) : Option (List Char × List Char) :=
  match quoted? cs with
  | some found => some found
  | none => word? cs

/-- What follows the end of an entry, if the entry ends here. -/
def entryEnd? (cs : List Char) : Option (List Char) :=
  match dropBlanks cs with
  | [] => some []
  | ',' :: r => some r
  | _ => none

/-- The value after a key and the end of its entry, empty without an equal sign. -/
def readRest? (cs : List Char) : Option (List Char × List Char) :=
  match dropBlanks cs with
  | '=' :: r =>
    match readValue? (dropBlanks r) with
    | some (value, r) => (entryEnd? r).map fun r => (value, r)
    | none => none
  | r => (entryEnd? r).map fun r => ([], r)

/-- The entry at the head of a text, and what follows it. -/
def entryAt? (cs : List Char) : Option ((String × String) × List Char) :=
  match word? cs with
  | none => none
  | some (key, r) =>
    match readRest? r with
    | some (value, r) => some ((String.ofList key, String.ofList value), r)
    | none => none

theorem dropWhile_length_le (p : Char → Bool) (cs : List Char) :
    (cs.dropWhile p).length ≤ cs.length :=
  (List.dropWhile_suffix p).length_le

theorem readValue?_length_le {cs v r : List Char} (h : readValue? cs = some (v, r)) :
    r.length ≤ cs.length := by
  unfold readValue? at h
  split at h
  · rename_i found hq
    cases h
    unfold quoted? at hq
    split at hq
    · rename_i cs
      split at hq
      · rename_i r' hr
        have := dropWhile_length_le (· != '"') cs
        rw [hr] at this
        cases hq
        simp only [List.length_cons] at this ⊢
        omega
      · cases hq
    · cases hq
  · exact Nat.le_of_lt (word?_length_lt h)

theorem entryEnd?_length_le {cs r : List Char} (h : entryEnd? cs = some r) :
    r.length ≤ cs.length := by
  have := dropWhile_length_le isBlank cs
  unfold entryEnd? dropBlanks at h
  split at h
  · cases h; simp
  · rename_i r' hr
    rw [hr] at this
    cases h
    simp only [List.length_cons] at this
    omega
  · cases h

theorem readRest?_length_le {cs v r : List Char} (h : readRest? cs = some (v, r)) :
    r.length ≤ cs.length := by
  have h₁ := dropWhile_length_le isBlank cs
  unfold readRest? at h
  split at h
  · rename_i r₁ hr₁
    unfold dropBlanks at hr₁
    rw [hr₁] at h₁
    split at h
    · rename_i v r₂ hv
      have h₂ := readValue?_length_le hv
      have h₃ := dropWhile_length_le isBlank r₁
      obtain ⟨r₃, hr₃, he⟩ := Option.map_eq_some_iff.1 h
      have h₄ := entryEnd?_length_le hr₃
      cases he
      simp only [dropBlanks, List.length_cons] at *
      omega
    · cases h
  · obtain ⟨r₃, hr₃, he⟩ := Option.map_eq_some_iff.1 h
    have h₄ := entryEnd?_length_le hr₃
    cases he
    exact Nat.le_trans h₄ h₁

/-- An entry has a key, so what follows it is shorter. -/
theorem entryAt?_length_lt {cs r : List Char} {e : String × String}
    (h : entryAt? cs = some (e, r)) : r.length < cs.length := by
  unfold entryAt? at h
  split at h
  · cases h
  · rename_i key r₁ hw
    split at h
    · rename_i v r₂ hr
      cases h
      exact Nat.lt_of_le_of_lt (readRest?_length_le hr) (word?_length_lt hw)
    · cases h

/-- The entries of a text, in order. -/
def entries : List Char → List (String × String)
  | [] => []
  | c :: cs =>
    match _h : entryAt? (c :: cs) with
    | some (e, r) => e :: entries r
    | none => entries cs
termination_by cs => cs.length
decreasing_by
  · exact entryAt?_length_lt _h
  · simp

/-- The metadata of a text. -/
def parse (text : String) : Metadata := OrderedMap.ofPairs (entries text.toList)

end ShaderGraph.Metadata
