import Mathlib.Data.Nat.Digits.Defs
import ShaderGraph.Json.Reader
import ShaderGraph.Json.Writer
import ShaderGraph.Proofs.OrderedMap
import ShaderGraph.Text.Lines

/-!
# Documents read back

A document is ASCII and its lines end with line feeds, so that reading it from a file changes nothing
in it (`printed_render`). One without fractions, whose numbers and nesting are small enough, is read
as the value it was written from (`parse_render`): what is written of a value is read up to its end
wherever it stands, and each part of it is shorter.
-/

namespace ShaderGraph.Json

/-! ## Documents in ASCII -/

/-- A character that a document may hold. -/
def Printed (c : Char) : Prop := c = '\n' ∨ 32 ≤ c.toNat ∧ c.toNat < 127

instance : DecidablePred Printed := fun c => inferInstanceAs (Decidable (c = '\n' ∨ _))

/-- A text of such characters. -/
def AllPrinted (s : String) : Prop := ∀ c ∈ s.toList, Printed c

instance : DecidablePred AllPrinted := fun s => inferInstanceAs (Decidable (∀ c ∈ s.toList, _))

theorem allPrinted_append {s t : String} : AllPrinted (s ++ t) ↔ AllPrinted s ∧ AllPrinted t := by
  simp only [AllPrinted, String.toList_append, List.forall_mem_append]

theorem allPrinted_ofList {cs : List Char} (h : ∀ c ∈ cs, Printed c) :
    AllPrinted (String.ofList cs) := by
  intro c hc
  rw [String.toList_ofList] at hc
  exact h c hc

theorem printed_of_isDigit {c : Char} (h : c.isDigit = true) : Printed c := by
  rw [Char.isDigit, Bool.and_eq_true, decide_eq_true_iff, decide_eq_true_iff] at h
  have hlow : '0'.val.toNat ≤ c.val.toNat := UInt32.le_iff_toNat_le.1 h.1
  have hhigh : c.val.toNat ≤ '9'.val.toNat := UInt32.le_iff_toNat_le.1 h.2
  have h0 : '0'.val.toNat = 48 := rfl
  have h9 : '9'.val.toNat = 57 := rfl
  right
  rw [Char.toNat]
  omega

theorem allPrinted_toString_nat (n : Nat) : AllPrinted (toString n) := by
  rw [Nat.toString_eq_repr, Nat.repr_eq_ofList_toDigits]
  exact allPrinted_ofList fun c hc =>
    printed_of_isDigit (Nat.isDigit_of_mem_toDigits (by decide) (by decide) hc)

theorem allPrinted_toString_int : ∀ i : Int, AllPrinted (toString i)
  | .ofNat n => allPrinted_toString_nat n
  | .negSucc n => allPrinted_append.2 ⟨(by decide : AllPrinted "-"), allPrinted_toString_nat (n + 1)⟩

theorem allPrinted_zeros (n : Nat) : AllPrinted (Binary64.zeros n) :=
  allPrinted_ofList fun c hc => by
    rw [List.eq_of_mem_replicate hc]
    decide

theorem allPrinted_sizeText (x : Binary64) : AllPrinted x.sizeText := by
  have hdigits := allPrinted_toString_nat x.shortest.1
  have htake : ∀ k, AllPrinted (String.ofList ((toString x.shortest.1).toList.take k)) := fun k =>
    allPrinted_ofList fun c hc => hdigits c (List.mem_of_mem_take hc)
  have hdrop : ∀ k, AllPrinted (String.ofList ((toString x.shortest.1).toList.drop k)) := fun k =>
    allPrinted_ofList fun c hc => hdigits c (List.mem_of_mem_drop hc)
  have hsize := allPrinted_toString_nat
  have hzeros := allPrinted_zeros
  have hmarks : AllPrinted ".0" ∧ AllPrinted "." ∧ AllPrinted "0." ∧ AllPrinted "" ∧ AllPrinted "e-"
      ∧ AllPrinted "e+" := by
    decide
  unfold Binary64.sizeText
  simp only
  split_ifs <;> simp only [allPrinted_append, hdigits, htake, hdrop, hsize, hzeros, hmarks, and_self]

theorem allPrinted_numberText : ∀ n : Number, AllPrinted (numberText n)
  | .whole i => allPrinted_toString_int i
  | .real x => by
    have hmarks : AllPrinted "NaN" ∧ AllPrinted "-" ∧ AllPrinted "" ∧ AllPrinted "Infinity" := by
      decide
    have hsize := allPrinted_sizeText x
    rw [numberText, Binary64.toText]
    split_ifs <;> simp only [specialNames, allPrinted_append, hmarks, hsize, and_self]

theorem printed_digitChar (n : Nat) : Printed (Nat.digitChar (n % 16)) := by
  have hall : ∀ d : Fin 16, Printed (Nat.digitChar d) := by decide
  exact hall ⟨n % 16, Nat.mod_lt _ (by decide)⟩

theorem printed_of_mem_unitEscape {n : Nat} {c : Char} (hc : c ∈ unitEscape n) : Printed c := by
  simp only [unitEscape, List.map_cons, List.map_nil, List.mem_cons, List.not_mem_nil, or_false] at hc
  rcases hc with rfl | rfl | rfl | rfl | rfl | rfl
  · decide
  · decide
  all_goals exact printed_digitChar _

theorem printed_of_mem_escapeChar {c c' : Char} (hc : c' ∈ escapeChar c) : Printed c' := by
  unfold escapeChar at hc
  split at hc
  case h_8 =>
    simp only at hc
    split_ifs at hc with hplain hbmp
    · rw [List.mem_singleton.1 hc]
      exact .inr hplain
    · exact printed_of_mem_unitEscape hc
    · exact (List.mem_append.1 hc).elim printed_of_mem_unitEscape printed_of_mem_unitEscape
  all_goals
    revert c'
    decide

theorem allPrinted_quoted (s : String) : AllPrinted (quoted s) := by
  have hmark : AllPrinted "\"" := by decide
  refine allPrinted_append.2 ⟨allPrinted_append.2 ⟨hmark, allPrinted_ofList fun c hc => ?_⟩, hmark⟩
  obtain ⟨a, -, hc⟩ := List.mem_flatMap.1 hc
  exact printed_of_mem_escapeChar hc

theorem allPrinted_lineStart (level : Nat) : AllPrinted (Layout.indented.lineStart level) := by
  refine allPrinted_append.2 ⟨by decide, allPrinted_ofList fun c hc => ?_⟩
  rw [List.eq_of_mem_replicate hc]
  decide

theorem allPrinted_marks : AllPrinted "[" ∧ AllPrinted "]" ∧ AllPrinted "\x7b" ∧ AllPrinted "\x7d"
    ∧ AllPrinted Layout.indented.comma ∧ AllPrinted Layout.indented.colon := by
  decide

mutual

theorem allPrinted_write : ∀ (v : Json) (level : Nat), AllPrinted (write .indented level v)
  | null, _ | bool true, _ | bool false, _ | array [], _ | object [], _ => by
    rw [write]
    decide
  | number n, _ => by
    rw [write]
    exact allPrinted_numberText n
  | string s, _ => by
    rw [write]
    exact allPrinted_quoted s
  | array (v :: vs), level => by
    simp only [write, allPrinted_append, allPrinted_marks, allPrinted_lineStart, allPrinted_write v,
      allPrinted_writeItems vs, and_self]
  | object ((k, v) :: ms), level => by
    simp only [write, allPrinted_append, allPrinted_marks, allPrinted_lineStart, allPrinted_quoted k,
      allPrinted_write v, allPrinted_writeMembers ms, and_self]

theorem allPrinted_writeItems : ∀ (vs : List Json) (level : Nat),
    AllPrinted (writeItems .indented level vs)
  | [], _ => by
    rw [writeItems]
    decide
  | v :: vs, level => by
    simp only [writeItems, allPrinted_append, allPrinted_marks, allPrinted_lineStart,
      allPrinted_write v, allPrinted_writeItems vs, and_self]

theorem allPrinted_writeMembers : ∀ (ms : List (String × Json)) (level : Nat),
    AllPrinted (writeMembers .indented level ms)
  | [], _ => by
    rw [writeMembers]
    decide
  | (k, v) :: ms, level => by
    simp only [writeMembers, allPrinted_append, allPrinted_marks, allPrinted_lineStart,
      allPrinted_quoted k, allPrinted_write v, allPrinted_writeMembers ms, and_self]

end

/-- A document is ASCII, and its lines end with line feeds. -/
theorem allPrinted_render (v : Json) : AllPrinted v.render :=
  allPrinted_append.2 ⟨allPrinted_write v 0, by decide⟩

end ShaderGraph.Json

namespace ShaderGraph.Text

theorem universalNewlines_eq_self : ∀ {cs : List Char}, '\r' ∉ cs → universalNewlines cs = cs
  | [], _ => rfl
  | c :: cs, h => by
    rw [List.mem_cons, not_or] at h
    rw [universalNewlines, if_neg, universalNewlines_eq_self h.2]
    · simpa using fun hc => h.1 hc.symm
    · rintro _ rfl
      exact absurd rfl h.1

theorem universalNewlines_render (v : Json) :
    universalNewlines v.render.toList = v.render.toList :=
  universalNewlines_eq_self fun hr => absurd (v.allPrinted_render _ hr) (by decide)

end ShaderGraph.Text

namespace ShaderGraph.Json

/-! ## Texts -/

theorem hexValue?_digitChar (n : Nat) : hexValue? (Nat.digitChar (n % 16)) = some (n % 16) := by
  have hall : ∀ d : Fin 16, hexValue? (Nat.digitChar d) = some d.val := by decide
  exact hall ⟨n % 16, Nat.mod_lt _ (by decide)⟩

theorem readUnit?_unitEscape {n : Nat} (hn : n < 0x10000) (r : List Char) :
    readUnit? ((unitEscape n).drop 2 ++ r) = some (n, r) := by
  simp only [unitEscape, List.map_cons, List.map_nil, List.drop_succ_cons, List.drop_zero,
    List.cons_append, List.nil_append, readUnit?, hexValue?_digitChar]
  congr 2
  omega

/-- A character that is escaped by its number is read again. -/
theorem readEscape?_toNat {c : Char} (r : List Char) (hc : c.toNat < 0x10000) :
    readEscape? ((unitEscape c.toNat).drop 2 ++ r) = some (c, r) := by
  have hvalid : ¬ (0xD800 ≤ c.toNat ∧ c.toNat < 0xE000) := by
    have := c.valid
    rw [UInt32.isValidChar, Nat.isValidChar] at this
    change ¬ (0xD800 ≤ c.val.toNat ∧ c.val.toNat < 0xE000)
    omega
  rw [readEscape?, readUnit?_unitEscape hc]
  simp only
  rw [if_neg (fun h => hvalid ⟨h.1, by omega⟩), charOf, if_neg hvalid, Char.ofNat_toNat]

theorem readEscape?_surrogates {c : Char} (r : List Char) (hc : 0x10000 ≤ c.toNat) :
    readEscape? ((unitEscape (0xD800 + (c.toNat - 0x10000) / 0x400)).drop 2
      ++ (unitEscape (0xDC00 + (c.toNat - 0x10000) % 0x400) ++ r)) = some (c, r) := by
  have hvalid : c.toNat < 0x110000 := by
    have := c.valid
    rw [UInt32.isValidChar, Nat.isValidChar] at this
    change c.val.toNat < 0x110000
    omega
  have hlow : unitEscape (0xDC00 + (c.toNat - 0x10000) % 0x400) ++ r
      = '\\' :: 'u' :: ((unitEscape (0xDC00 + (c.toNat - 0x10000) % 0x400)).drop 2 ++ r) := rfl
  rw [readEscape?, readUnit?_unitEscape (by omega), hlow]
  simp only
  rw [if_pos (by omega), readUnit?_unitEscape (by omega)]
  simp only
  have hchar : 0x10000 + (0xD800 + (c.toNat - 0x10000) / 0x400 - 0xD800) * 0x400
      + (0xDC00 + (c.toNat - 0x10000) % 0x400 - 0xDC00) = c.toNat := by
    omega
  rw [if_pos (by omega), hchar, Char.ofNat_toNat]

theorem readText?_unitEscape {n fuel : Nat} {c : Char} {text r r' : List Char}
    (h : readEscape? ((unitEscape n).drop 2 ++ r) = some (c, r')) :
    readText? (fuel + 1) text (unitEscape n ++ r) = readText? fuel (c :: text) r' := by
  have hhead : unitEscape n ++ r = '\\' :: 'u' :: ((unitEscape n).drop 2 ++ r) := rfl
  rw [hhead, readText?]
  simp only [h]

theorem readText?_escapeChar (c : Char) (fuel : Nat) (text r : List Char) :
    readText? (fuel + 1) text (escapeChar c ++ r) = readText? fuel (c :: text) r := by
  unfold escapeChar
  split
  case h_8 hquote hslash _ _ _ _ _ =>
    simp only
    split_ifs with hplain hbmp
    · rw [List.singleton_append, readText?]
      · rw [if_neg]
        rintro (rfl | hlow)
        · exact hslash rfl
        · omega
      · rintro rfl
        exact hquote rfl
      · rintro _ rfl
        exact absurd rfl hslash
      · rintro _ _ rfl
        exact absurd rfl hslash
    · exact readText?_unitEscape (readEscape?_toNat r hbmp)
    · rw [List.append_assoc]
      exact readText?_unitEscape (readEscape?_surrogates r (by omega))
  all_goals rfl

/-- A text is read up to its closing quote. -/
theorem readText?_flatMap : ∀ (cs : List Char) (fuel : Nat) (text r : List Char),
    cs.length < fuel → readText? fuel text (cs.flatMap escapeChar ++ '"' :: r)
      = some (String.ofList (text.reverse ++ cs), r)
  | [], fuel + 1, text, r, _ => by simp [readText?]
  | c :: cs, fuel + 1, text, r, h => by
    rw [List.flatMap_cons, List.append_assoc, readText?_escapeChar,
      readText?_flatMap cs fuel (c :: text) r (by simpa using h)]
    simp
  | cs, 0, _, _, h => absurd h (Nat.not_lt_zero _)

theorem length_le_flatMap (cs : List Char) : cs.length ≤ (cs.flatMap escapeChar).length := by
  induction cs with
  | nil => exact Nat.le_refl _
  | cons c cs ih =>
    have hc : 0 < (escapeChar c).length := by
      unfold escapeChar
      split <;> try decide
      simp only
      split_ifs <;> simp [unitEscape]
    rw [List.flatMap_cons, List.length_append, List.length_cons]
    omega

theorem toList_quoted (s : String) : (quoted s).toList = '"' :: s.toList.flatMap escapeChar ++ ['"'] := by
  simp [quoted]

theorem readText?_quoted (s : String) (r : List Char) :
    readText? ((s.toList.flatMap escapeChar ++ '"' :: r).length + 1) []
      (s.toList.flatMap escapeChar ++ '"' :: r) = some (s, r) := by
  have hlength := length_le_flatMap s.toList
  rw [readText?_flatMap _ _ _ _ (by rw [List.length_append]; omega)]
  simp

/-! ## Whole numbers -/

/-- What follows a number: nothing that could go on with it. -/
def Ends (r : List Char) : Prop :=
  ∀ c ∈ r.head?, c.isDigit = false ∧ c ≠ '.' ∧ c ≠ 'e' ∧ c ≠ 'E'

theorem head?_toDigits {n : Nat} : 0 < n → (Nat.toDigits 10 n).head? ≠ some '0' := by
  induction n using Nat.strongRecOn with
  | ind n ih =>
    intro hn
    rw [Nat.toDigits_eq_if (by decide)]
    split_ifs with hlt
    · have hall : ∀ d : Fin 10, 0 < d.val → [Nat.digitChar d.val].head? ≠ some '0' := by decide
      exact hall ⟨n, hlt⟩ hn
    · have hpos : 0 < (Nat.toDigits 10 (n / 10)).length := Nat.length_toDigits_pos
      rw [List.head?_append_of_ne_nil _ (List.ne_nil_of_length_pos hpos)]
      exact ih (n / 10) (by omega) (by omega)

theorem readWhole?_toDigits (n : Nat) {r : List Char} (hr : Ends r) :
    readWhole? (Nat.toDigits 10 n ++ r) = some (Nat.toDigits 10 n, r) := by
  rcases Nat.eq_zero_or_pos n with rfl | hn
  · rfl
  · have hpos : 0 < (Nat.toDigits 10 n).length := Nat.length_toDigits_pos
    have hdigits : ∀ c ∈ Nat.toDigits 10 n, Text.isDigit c = true := fun c hc =>
      Nat.isDigit_of_mem_toDigits (by decide) (by decide) hc
    have hend : r.takeWhile Text.isDigit = [] ∧ r.dropWhile Text.isDigit = r := by
      cases r with
      | nil => exact ⟨rfl, rfl⟩
      | cons c r =>
        have hc : Text.isDigit c = false := (hr c rfl).1
        simp [hc]
    have htake : (Nat.toDigits 10 n ++ r).takeWhile Text.isDigit = Nat.toDigits 10 n := by
      rw [List.takeWhile_append_of_pos hdigits, hend.1, List.append_nil]
    have hdrop : (Nat.toDigits 10 n ++ r).dropWhile Text.isDigit = r := by
      rw [List.dropWhile_append_of_pos hdigits, hend.2]
    rw [readWhole?, htake, hdrop]
    · split
      · rename_i hnil
        rw [hnil] at hpos
        cases hpos
      · rfl
    · intro r' hzero
      have hhead : (Nat.toDigits 10 n ++ r).head? = some '0' := by rw [hzero]; rfl
      rw [List.head?_append_of_ne_nil _ (List.ne_nil_of_length_pos hpos)] at hhead
      exact head?_toDigits hn hhead

theorem length_toDigits_le {n k : Nat} (hk : 0 < k) (hn : n < Nat.pow 10 k) :
    (Nat.toDigits 10 n).length ≤ k :=
  (Nat.length_toDigits_le_iff (by decide) hk).2 hn

theorem readNumber_toDigits (negative : Bool) {n : Nat} (hn : n < Numeral.limit) {r : List Char}
    (hr : Ends r) : readNumber negative (Nat.toDigits 10 n ++ r)
      = .ok (int (if negative then -n else n), r) := by
  have hfraction : readFraction? r = none := by
    unfold readFraction?
    split
    · exact absurd rfl (hr '.' rfl).2.1
    · rfl
  have hexponent : readExponent? r = none := by
    unfold readExponent?
    split
    · rename_i e r
      have he := (hr e rfl).2.2
      rw [if_neg (by simpa using he)]
    · rfl
  have hlength : ¬ Numeral.longest < (Nat.toDigits 10 n).length := by
    unfold Numeral.limit at hn
    exact Nat.not_lt.2 (length_toDigits_le (by decide) hn)
  have hvalue : Binary64.digitsValue (Nat.toDigits 10 n) = n := Nat.ofDigitChars_ten_toDigits
  rw [readNumber, readWhole?_toDigits n hr]
  simp only [hfraction, hexponent]
  rw [Numeral.ofDigits, if_neg hlength, hvalue]

theorem readWord?_of_digit {c : Char} (r : List Char) (hc : c.isDigit = true) :
    readWord? (c :: r) = none ∧ readWord? ('-' :: c :: r) = none := by
  have hne : ∀ o : Char, o.isDigit = false → (o == c) = false := by
    intro o ho
    rw [beq_eq_false_iff_ne]
    rintro rfl
    rw [hc] at ho
    cases ho
  constructor <;>
    simp [readWord?, words, List.find?, List.isPrefixOf, hne 'n' (by decide), hne 't' (by decide), hne 'f' (by decide),
      hne 'N' (by decide), hne 'I' (by decide), hne '-' (by decide)]

theorem exists_toDigits_eq_cons (n : Nat) :
    ∃ c ds, Nat.toDigits 10 n = c :: ds ∧ c.isDigit = true := by
  cases hdigits : Nat.toDigits 10 n with
  | nil =>
    have hpos : 0 < (Nat.toDigits 10 n).length := Nat.length_toDigits_pos
    rw [hdigits] at hpos
    cases hpos
  | cons c ds =>
    exact ⟨c, ds, rfl, Nat.isDigit_of_mem_toDigits (b := 10) (n := n) (by decide) (by decide)
      (hdigits ▸ List.mem_cons_self)⟩

theorem toList_toString_nat (n : Nat) : (toString n).toList = Nat.toDigits 10 n := by
  rw [Nat.toString_eq_repr, Nat.repr_eq_ofList_toDigits, String.toList_ofList]

/-- A whole number is read up to its end. -/
theorem readScalar_int {i : Int} (hi : i.natAbs < Numeral.limit) {r : List Char} (hr : Ends r) :
    readScalar ((toString i).toList ++ r) = .ok (int i, r) := by
  have hnat : ∀ n : Nat, n < Numeral.limit →
      readScalar (Nat.toDigits 10 n ++ r) = .ok (int n, r) := by
    intro n hn
    obtain ⟨c, ds, hdigits, hc⟩ := exists_toDigits_eq_cons n
    have hread := readNumber_toDigits false hn hr
    rw [hdigits] at hread ⊢
    rw [List.cons_append] at hread ⊢
    rw [readScalar]
    · rw [(readWord?_of_digit _ hc).1]
      simp only
      exact hread
    all_goals
      intro _ hcons
      rw [(List.cons.inj hcons).1] at hc
      cases hc
  cases i with
  | ofNat n =>
    have htext : (toString (Int.ofNat n)).toList = Nat.toDigits 10 n := toList_toString_nat n
    rw [htext]
    exact hnat n hi
  | negSucc n =>
    have htext : (toString (Int.negSucc n)).toList = '-' :: Nat.toDigits 10 (n + 1) := by
      change ("-" ++ toString (n + 1)).toList = _
      rw [String.toList_append, toList_toString_nat]
      rfl
    have hread := readNumber_toDigits true (n := n + 1) hi hr
    obtain ⟨c, ds, hdigits, hc⟩ := exists_toDigits_eq_cons (n + 1)
    rw [htext, List.cons_append, readScalar]
    · rw [hdigits, List.cons_append, (readWord?_of_digit _ hc).2]
      simp only
      rw [← List.cons_append, ← hdigits, hread]
      rfl

/-! ## Documents -/

mutual

/-- Whether a value inside of so many others has no fractions, keys that differ, numbers that are
short enough and no parts that stand too deep. -/
def isPlain (depth : Nat) : Json → Bool
  | null | bool _ | string _ => true
  | number (.whole i) => i.natAbs < Numeral.limit
  | number (.real _) => false
  | array vs => depth < deepest && arePlain (depth + 1) vs
  | object ms => depth < deepest && (OrderedMap.keys ms).Nodup && arePlainMembers (depth + 1) ms

def arePlain (depth : Nat) : List Json → Bool
  | [] => true
  | v :: vs => isPlain depth v && arePlain depth vs

def arePlainMembers (depth : Nat) : List (String × Json) → Bool
  | [] => true
  | (_, v) :: ms => isPlain depth v && arePlainMembers depth ms

end

theorem dropGaps_cons {c : Char} (cs : List Char) (hc : isGap c = false) :
    dropGaps (c :: cs) = c :: cs := by
  simp [dropGaps, hc]

theorem dropGaps_lineStart (level : Nat) {c : Char} (cs : List Char) (hc : isGap c = false) :
    dropGaps ((Layout.indented.lineStart level).toList ++ c :: cs) = c :: cs := by
  have hgaps : ∀ g ∈ (Layout.indented.lineStart level).toList, isGap g = true := by
    intro g hg
    rw [Layout.lineStart] at hg
    simp only [Layout.indented, String.toList_append, List.mem_append, String.toList_ofList] at hg
    rcases hg with hg | hg
    · rw [List.mem_singleton.1 (hg : g ∈ ['\n'])]
      rfl
    · rw [List.eq_of_mem_replicate hg]
      rfl
  rw [dropGaps, List.dropWhile_append_of_pos hgaps]
  exact dropGaps_cons cs hc

theorem head?_lineStart (level : Nat) : (Layout.indented.lineStart level).toList.head? = some '\n' := by
  simp [Layout.lineStart, Layout.indented]

theorem isGap_of_isDigit {c : Char} (hc : c.isDigit = true) : isGap c = false := by
  rw [← Bool.not_eq_true]
  intro hgap
  simp only [isGap, Bool.or_eq_true, beq_iff_eq] at hgap
  rcases hgap with ((rfl | rfl) | rfl) | rfl <;> cases hc

theorem exists_toString_eq_cons (i : Int) :
    ∃ c cs, (toString i).toList = c :: cs ∧ isGap c = false ∧ c ≠ ']' ∧ c ≠ '[' ∧ c ≠ '{' := by
  cases i with
  | ofNat n =>
    obtain ⟨c, ds, hdigits, hc⟩ := exists_toDigits_eq_cons n
    refine ⟨c, ds, (toList_toString_nat n).trans hdigits, isGap_of_isDigit hc, ?_, ?_, ?_⟩ <;>
      rintro rfl <;> cases hc
  | negSucc n => exact ⟨'-', _, String.toList_append .., by decide⟩

/-- A value does not start with a gap or with the end of an array. -/
theorem exists_write_eq_cons {v : Json} {depth : Nat} (hv : isPlain depth v = true) (level : Nat) :
    ∃ c cs, (write .indented level v).toList = c :: cs ∧ isGap c = false ∧ c ≠ ']' := by
  cases v with
  | null => exact ⟨'n', ['u', 'l', 'l'], by rw [write]; rfl, by decide⟩
  | bool b =>
    cases b with
    | true => exact ⟨'t', ['r', 'u', 'e'], by rw [write]; rfl, by decide⟩
    | false => exact ⟨'f', ['a', 'l', 's', 'e'], by rw [write]; rfl, by decide⟩
  | number n =>
    cases n with
    | whole i =>
      rw [write]
      obtain ⟨c, cs, hcs, hgap, hclose, -⟩ := exists_toString_eq_cons i
      exact ⟨c, cs, hcs, hgap, hclose⟩
    | real x =>
      rw [isPlain] at hv
      cases hv
  | string s =>
    rw [write, toList_quoted]
    exact ⟨'"', _, rfl, by decide⟩
  | array vs =>
    cases vs with
    | nil => exact ⟨'[', [']'], by rw [write]; rfl, by decide⟩
    | cons v vs =>
      simp only [write, String.toList_append]
      exact ⟨'[', _, rfl, by decide⟩
  | object ms =>
    cases ms with
    | nil => exact ⟨'{', ['}'], by rw [write]; rfl, by decide⟩
    | cons m ms =>
      simp only [write, String.toList_append]
      exact ⟨'{', _, rfl, by decide⟩

theorem ends_of_head {c : Char} {r : List Char} (h : r.head? = some c)
    (hc : c.isDigit = false ∧ c ≠ '.' ∧ c ≠ 'e' ∧ c ≠ 'E') : Ends r := by
  intro c' hc'
  rw [h] at hc'
  cases hc'
  exact hc

theorem ends_lineStart_append (level : Nat) (r : List Char) :
    Ends ((Layout.indented.lineStart level).toList ++ r) :=
  ends_of_head (c := '\n') (by rw [List.head?_append, head?_lineStart]; rfl) (by decide)

/-- What follows the first item of an array up to the end of the array. -/
def afterItem (level outer : Nat) (vs : List Json) (r : List Char) : List Char :=
  (writeItems .indented level vs).toList ++ ((Layout.indented.lineStart outer).toList ++ ']' :: r)

def afterMember (level outer : Nat) (ms : List (String × Json)) (r : List Char) : List Char :=
  (writeMembers .indented level ms).toList ++ ((Layout.indented.lineStart outer).toList ++ '}' :: r)

theorem afterItem_cons (level outer : Nat) (v : Json) (vs : List Json) (r : List Char) :
    afterItem level outer (v :: vs) r = ',' :: ((Layout.indented.lineStart level).toList
      ++ ((write .indented level v).toList ++ afterItem level outer vs r)) := by
  simp [afterItem, writeItems, Layout.indented]

theorem afterMember_cons (level outer : Nat) (k : String) (v : Json) (ms : List (String × Json))
    (r : List Char) : afterMember level outer ((k, v) :: ms) r
      = ',' :: ((Layout.indented.lineStart level).toList ++ '"' :: (k.toList.flatMap escapeChar
        ++ '"' :: ':' :: ' ' :: ((write .indented level v).toList ++ afterMember level outer ms r))) := by
  simp [afterMember, writeMembers, Layout.indented, quoted]

theorem ends_afterItem (level outer : Nat) (vs : List Json) (r : List Char) :
    Ends (afterItem level outer vs r) := by
  cases vs with
  | nil =>
    rw [afterItem, writeItems]
    exact ends_lineStart_append _ _
  | cons v vs =>
    rw [afterItem_cons]
    exact ends_of_head rfl (by decide)

theorem ends_afterMember (level outer : Nat) (ms : List (String × Json)) (r : List Char) :
    Ends (afterMember level outer ms r) := by
  cases ms with
  | nil =>
    rw [afterMember, writeMembers]
    exact ends_lineStart_append _ _
  | cons m ms =>
    rw [afterMember_cons]
    exact ends_of_head rfl (by decide)

theorem readValue_eq_readScalar {c : Char} (hc : c ≠ '[' ∧ c ≠ '{') (fuel depth : Nat)
    (cs : List Char) : readValue (fuel + 1) depth (c :: cs) = readScalar (c :: cs) := by
  rw [readValue]
  · rintro _ h
    exact hc.1 (List.cons.inj h).1
  · rintro _ h
    exact hc.2 (List.cons.inj h).1

theorem readScalar_of_readWord? {c : Char} {cs r : List Char} {v : Json} (hc : c ≠ '"')
    (h : readWord? (c :: cs) = some (v, r)) : readScalar (c :: cs) = .ok (v, r) := by
  unfold readScalar
  split
  · rename_i hcons
    exact absurd (List.cons.inj hcons).1 hc
  · rw [h]

theorem readWord?_words (r : List Char) :
    readWord? ('n' :: 'u' :: 'l' :: 'l' :: r) = some (null, r)
      ∧ readWord? ('t' :: 'r' :: 'u' :: 'e' :: r) = some (bool true, r)
      ∧ readWord? ('f' :: 'a' :: 'l' :: 's' :: 'e' :: r) = some (bool false, r) := by
  simp [readWord?, words, List.find?, List.isPrefixOf]

/-- A value without parts is read up to its end. -/
theorem readValue_scalar {v : Json} {fuel depth level : Nat} {r : List Char}
    (hscalar : ∀ vs, v ≠ array vs) (hscalar' : ∀ ms, v ≠ object ms) (hv : isPlain depth v = true)
    (hr : Ends r) : readValue (fuel + 1) depth ((write .indented level v).toList ++ r) = .ok (v, r) := by
  cases v with
  | null =>
    rw [write]
    exact (readValue_eq_readScalar (by decide) _ _ _).trans
      (readScalar_of_readWord? (by decide) (readWord?_words r).1)
  | bool b =>
    cases b <;> rw [write]
    · exact (readValue_eq_readScalar (by decide) _ _ _).trans
        (readScalar_of_readWord? (by decide) (readWord?_words r).2.2)
    · exact (readValue_eq_readScalar (by decide) _ _ _).trans
        (readScalar_of_readWord? (by decide) (readWord?_words r).2.1)
  | number n =>
    cases n with
    | whole i =>
      rw [isPlain, decide_eq_true_iff] at hv
      obtain ⟨c, cs, hcs, -, -, hc⟩ := exists_toString_eq_cons i
      have hread := readScalar_int hv hr
      rw [write, numberText]
      rw [hcs] at hread ⊢
      rwa [List.cons_append, readValue_eq_readScalar hc]
    | real x =>
      rw [isPlain] at hv
      cases hv
  | string s =>
    rw [write, toList_quoted, List.cons_append, List.cons_append,
      readValue_eq_readScalar (by decide), List.append_assoc, List.singleton_append, readScalar,
      readText?_quoted]
  | array vs => exact absurd rfl (hscalar vs)
  | object ms => exact absurd rfl (hscalar' ms)

theorem readValue_array_nil {depth : Nat} (hdepth : depth < deepest) (fuel : Nat) (r : List Char) :
    readValue (fuel + 1) depth ('[' :: ']' :: r) = .ok (array [], r) := by
  rw [readValue, if_neg (Nat.not_le.2 hdepth)]
  rfl

theorem readValue_object_nil {depth : Nat} (hdepth : depth < deepest) (fuel : Nat) (r : List Char) :
    readValue (fuel + 1) depth ('{' :: '}' :: r) = .ok (object [], r) := by
  rw [readValue, if_neg (Nat.not_le.2 hdepth)]
  rfl

theorem readValue_array {depth fuel : Nat} (hdepth : depth < deepest) (level : Nat) {c : Char}
    {cs r : List Char} (hc : isGap c = false ∧ c ≠ ']') {vs : List Json}
    (h : readItems fuel (depth + 1) (c :: cs) = .ok (vs, r)) :
    readValue (fuel + 1) depth ('[' :: ((Layout.indented.lineStart level).toList ++ c :: cs))
      = .ok (array vs, r) := by
  rw [readValue, if_neg (Nat.not_le.2 hdepth), dropGaps_lineStart _ _ hc.1]
  split
  · rename_i hcons
    exact absurd (List.cons.inj hcons).1 hc.2
  · rw [h]
    rfl

theorem readItems_last {fuel depth : Nat} {cs r : List Char} {v : Json} (level : Nat)
    (h : readValue fuel depth cs = .ok (v, (Layout.indented.lineStart level).toList ++ ']' :: r)) :
    readItems (fuel + 1) depth cs = .ok ([v], r) := by
  rw [readItems, h]
  simp only
  rw [dropGaps_lineStart _ _ (by decide)]
  rfl

theorem readItems_cons {fuel depth : Nat} {c : Char} {cs cs' r : List Char} {v : Json} {vs : List Json}
    (level : Nat) (hc : isGap c = false) (h : readValue fuel depth cs
      = .ok (v, ',' :: ((Layout.indented.lineStart level).toList ++ c :: cs')))
    (hvs : readItems fuel depth (c :: cs') = .ok (vs, r)) :
    readItems (fuel + 1) depth cs = .ok (v :: vs, r) := by
  rw [readItems, h]
  simp only
  rw [dropGaps_cons _ (by decide)]
  simp only
  rw [dropGaps_lineStart _ _ hc, hvs]
  rfl

theorem readValue_object {depth fuel : Nat} (hdepth : depth < deepest) (level : Nat)
    {cs r : List Char} {ms : List (String × Json)}
    (h : readMembers fuel (depth + 1) ('"' :: cs) = .ok (ms, r)) :
    readValue (fuel + 1) depth ('{' :: ((Layout.indented.lineStart level).toList ++ '"' :: cs))
      = .ok (object (OrderedMap.ofPairs ms), r) := by
  rw [readValue, if_neg (Nat.not_le.2 hdepth), dropGaps_lineStart _ _ (by decide)]
  change (readMembers fuel (depth + 1) ('"' :: cs)).map _ = _
  rw [h]
  rfl

theorem readMembers_last {fuel depth : Nat} {c : Char} {cs r : List Char} {k : String} {v : Json}
    (level : Nat) (hc : isGap c = false)
    (h : readValue fuel depth (c :: cs)
      = .ok (v, (Layout.indented.lineStart level).toList ++ '}' :: r)) :
    readMembers (fuel + 1) depth
      ('"' :: (k.toList.flatMap escapeChar ++ '"' :: ':' :: ' ' :: c :: cs)) = .ok ([(k, v)], r) := by
  have hgap : dropGaps (' ' :: c :: cs) = c :: cs := dropGaps_cons cs hc
  rw [readMembers, readText?_quoted]
  simp only
  rw [dropGaps_cons _ (by decide)]
  simp only [hgap, h]
  rw [dropGaps_lineStart _ _ (by decide)]
  rfl

theorem readMembers_cons {fuel depth : Nat} {c : Char} {cs cs' r : List Char} {k : String} {v : Json}
    {ms : List (String × Json)} (level : Nat) (hc : isGap c = false)
    (h : readValue fuel depth (c :: cs)
      = .ok (v, ',' :: ((Layout.indented.lineStart level).toList ++ '"' :: cs')))
    (hms : readMembers fuel depth ('"' :: cs') = .ok (ms, r)) :
    readMembers (fuel + 1) depth
      ('"' :: (k.toList.flatMap escapeChar ++ '"' :: ':' :: ' ' :: c :: cs))
        = .ok ((k, v) :: ms, r) := by
  have hgap : dropGaps (' ' :: c :: cs) = c :: cs := dropGaps_cons cs hc
  rw [readMembers, readText?_quoted]
  simp only
  rw [dropGaps_cons _ (by decide)]
  simp only [hgap, h]
  rw [dropGaps_cons _ (by decide)]
  simp only
  rw [dropGaps_lineStart _ _ (by decide), hms]
  rfl

theorem toList_write_array (level : Nat) (v : Json) (vs : List Json) (r : List Char) :
    (write .indented level (array (v :: vs))).toList ++ r
      = '[' :: ((Layout.indented.lineStart (level + 1)).toList
        ++ ((write .indented (level + 1) v).toList ++ afterItem (level + 1) level vs r)) := by
  simp [write, afterItem]

theorem toList_write_object (level : Nat) (k : String) (v : Json) (ms : List (String × Json))
    (r : List Char) : (write .indented level (object ((k, v) :: ms))).toList ++ r
      = '{' :: ((Layout.indented.lineStart (level + 1)).toList
        ++ '"' :: (k.toList.flatMap escapeChar ++ '"' :: ':' :: ' ' ::
          ((write .indented (level + 1) v).toList ++ afterMember (level + 1) level ms r))) := by
  simp [write, afterMember, quoted, Layout.indented]

/-- So many turns are enough for all that is written in so many characters. -/
structure ReadsWritten (fuel : Nat) : Prop where
  value : ∀ {v : Json} {depth : Nat} (level : Nat) {r : List Char}, isPlain depth v = true → Ends r →
    (write .indented level v).toList.length ≤ fuel →
      readValue fuel depth ((write .indented level v).toList ++ r) = .ok (v, r)
  items : ∀ {v : Json} {vs : List Json} {depth : Nat} (level outer : Nat) (r : List Char),
    arePlain depth (v :: vs) = true →
    (write .indented level v).toList.length + (writeItems .indented level vs).toList.length < fuel →
      readItems fuel depth ((write .indented level v).toList ++ afterItem level outer vs r)
        = .ok (v :: vs, r)
  members : ∀ {k : String} {v : Json} {ms : List (String × Json)} {depth : Nat} (level outer : Nat)
    (r : List Char), arePlainMembers depth ((k, v) :: ms) = true →
    (write .indented level v).toList.length + (writeMembers .indented level ms).toList.length < fuel →
      readMembers fuel depth ('"' :: (k.toList.flatMap escapeChar ++ '"' :: ':' :: ' ' ::
        ((write .indented level v).toList ++ afterMember level outer ms r))) = .ok ((k, v) :: ms, r)

namespace ReadsWritten

variable {fuel : Nat} (h : ReadsWritten fuel)

include h

theorem value_array {v : Json} {vs : List Json} {depth : Nat} (level : Nat) (r : List Char)
    (hv : isPlain depth (array (v :: vs)) = true)
    (hfuel : (write .indented level (array (v :: vs))).toList.length ≤ fuel + 1) :
    readValue (fuel + 1) depth ((write .indented level (array (v :: vs))).toList ++ r)
      = .ok (array (v :: vs), r) := by
  have hlength := congrArg List.length (toList_write_array level v vs [])
  simp [afterItem] at hlength
  rw [isPlain, Bool.and_eq_true, decide_eq_true_iff] at hv
  obtain ⟨hdepth, hvs⟩ := hv
  have hitems := h.items (level + 1) level r hvs (by omega)
  rw [arePlain, Bool.and_eq_true] at hvs
  obtain ⟨c, cs, hcs, hc⟩ := exists_write_eq_cons hvs.1 (level + 1)
  rw [toList_write_array]
  rw [hcs] at hitems ⊢
  exact readValue_array hdepth _ hc hitems

theorem value_object {k : String} {v : Json} {ms : List (String × Json)} {depth : Nat} (level : Nat)
    (r : List Char) (hv : isPlain depth (object ((k, v) :: ms)) = true)
    (hfuel : (write .indented level (object ((k, v) :: ms))).toList.length ≤ fuel + 1) :
    readValue (fuel + 1) depth ((write .indented level (object ((k, v) :: ms))).toList ++ r)
      = .ok (object ((k, v) :: ms), r) := by
  have hlength := congrArg List.length (toList_write_object level k v ms [])
  simp [afterMember] at hlength
  rw [isPlain, Bool.and_eq_true, Bool.and_eq_true, decide_eq_true_iff, decide_eq_true_iff] at hv
  obtain ⟨⟨hdepth, hkeys⟩, hms⟩ := hv
  have hmembers := h.members (level + 1) level r hms (by omega)
  rw [toList_write_object, readValue_object hdepth _ hmembers, OrderedMap.ofPairs_eq_self hkeys]

theorem items_succ {v : Json} {vs : List Json} {depth : Nat} (level outer : Nat) (r : List Char)
    (hvs : arePlain depth (v :: vs) = true)
    (hfuel : (write .indented level v).toList.length + (writeItems .indented level vs).toList.length
      < fuel + 1) :
    readItems (fuel + 1) depth ((write .indented level v).toList ++ afterItem level outer vs r)
      = .ok (v :: vs, r) := by
  rw [arePlain, Bool.and_eq_true] at hvs
  have hvalue := h.value level hvs.1 (ends_afterItem level outer vs r) (by omega)
  cases vs with
  | nil => exact readItems_last _ hvalue
  | cons w ws =>
    have hcomma : Layout.indented.comma.toList.length = 1 := by decide
    rw [writeItems] at hfuel
    simp only [String.toList_append, List.length_append] at hfuel
    have hitems := h.items level outer r hvs.2 (by omega)
    rw [arePlain, Bool.and_eq_true] at hvs
    obtain ⟨c, cs, hcs, hgap, -⟩ := exists_write_eq_cons hvs.2.1 level
    rw [afterItem_cons] at hvalue ⊢
    rw [hcs] at hvalue hitems ⊢
    exact readItems_cons _ hgap hvalue hitems

theorem members_succ {k : String} {v : Json} {ms : List (String × Json)} {depth : Nat}
    (level outer : Nat) (r : List Char) (hms : arePlainMembers depth ((k, v) :: ms) = true)
    (hfuel : (write .indented level v).toList.length
      + (writeMembers .indented level ms).toList.length < fuel + 1) :
    readMembers (fuel + 1) depth ('"' :: (k.toList.flatMap escapeChar ++ '"' :: ':' :: ' ' ::
      ((write .indented level v).toList ++ afterMember level outer ms r))) = .ok ((k, v) :: ms, r) := by
  rw [arePlainMembers, Bool.and_eq_true] at hms
  have hvalue := h.value level hms.1 (ends_afterMember level outer ms r) (by omega)
  obtain ⟨c, cs, hcs, hgap, -⟩ := exists_write_eq_cons hms.1 level
  rw [hcs] at hvalue ⊢
  cases ms with
  | nil => exact readMembers_last _ hgap hvalue
  | cons m ms =>
    obtain ⟨l, w⟩ := m
    have hcomma : Layout.indented.comma.toList.length = 1 := by decide
    rw [writeMembers] at hfuel
    simp only [String.toList_append, List.length_append] at hfuel
    have hmembers := h.members level outer r hms.2 (by omega)
    rw [afterMember_cons] at hvalue ⊢
    exact readMembers_cons _ hgap hvalue hmembers

end ReadsWritten

theorem readsWritten : ∀ fuel, ReadsWritten fuel
  | 0 => by
    refine ⟨fun level _ hv _ hfuel => ?_, fun _ _ _ _ hfuel => absurd hfuel (Nat.not_lt_zero _),
      fun _ _ _ _ hfuel => absurd hfuel (Nat.not_lt_zero _)⟩
    obtain ⟨c, cs, hcs, -⟩ := exists_write_eq_cons hv level
    rw [hcs] at hfuel
    cases hfuel
  | fuel + 1 => by
    have h := readsWritten fuel
    refine ⟨fun {v depth} level r hv hr hfuel => ?_, h.items_succ, h.members_succ⟩
    cases v with
    | array vs =>
      cases vs with
      | nil =>
        rw [isPlain, Bool.and_eq_true, decide_eq_true_iff] at hv
        rw [write]
        exact readValue_array_nil hv.1 fuel r
      | cons v vs => exact h.value_array level r hv hfuel
    | object ms =>
      cases ms with
      | nil =>
        rw [isPlain, Bool.and_eq_true, Bool.and_eq_true, decide_eq_true_iff] at hv
        rw [write]
        exact readValue_object_nil hv.1.1 fuel r
      | cons m ms => exact h.value_object level r hv hfuel
    | _ => exact readValue_scalar (by simp) (by simp) hv hr

/-- A document without fractions, whose numbers and nesting are small enough, is read as it was. -/
theorem parse_render {v : Json} (hv : isPlain 0 v = true) : parse v.render = .ok v := by
  obtain ⟨c, cs, hcs, hgap, -⟩ := exists_write_eq_cons hv 0
  have hgaps : dropGaps v.render.toList = (write .indented 0 v).toList ++ ['\n'] := by
    rw [render, String.toList_append, hcs, List.cons_append]
    exact dropGaps_cons _ hgap
  have hread := (readsWritten (2 * ((write .indented 0 v).toList ++ ['\n']).length + 2)).value 0 hv
    (ends_of_head (r := ['\n']) rfl (by decide)) (by rw [List.length_append]; omega)
  rw [parse, hgaps]
  simp only [hread]
  rfl

end ShaderGraph.Json
