import Mathlib.Data.List.TakeWhile
import ShaderGraph.Proofs.Balance
import ShaderGraph.Proofs.Header
import ShaderGraph.Proofs.Stored
import ShaderGraph.Remap.Project

/-!
# Which location a message is taken to have

A message about a library source has its location right after the path. The location with a comma is
looked for first and in all that follows the path, so one that the compiler wrote without a comma
gives way to any pair of numbers in parentheses later in the message. Otherwise the location after
the path is found, and the rest of the message is kept (`Project.remap?_written_iff`).
-/

namespace ShaderGraph

open Text Routine

namespace Text

/-- A mark whose first character is not in it again is found where it was put. -/
theorem cutAt?_append {c : Char} {p : List Char} (hc : c ∉ p) (rest : List Char) :
    ∀ {before : List Char}, ¬ c :: p <:+: before →
      cutAt? (c :: p) (before ++ (c :: p ++ rest)) = some (before, rest)
  | [], _ => by
    have hdrop : dropLiteral? (c :: p) (c :: (p ++ rest)) = some rest :=
      dropLiteral?_eq_some_iff.2 rfl
    rw [List.nil_append, List.cons_append, cutAt?, hdrop]
  | b :: bs, h => by
    rw [List.infix_cons_iff, not_or] at h
    have hdrop : dropLiteral? (c :: p) (b :: (bs ++ (c :: p ++ rest))) = none := by
      rw [Option.eq_none_iff_forall_ne_some]
      intro r hr
      obtain ⟨rfl, htail⟩ := List.cons.inj (dropLiteral?_eq_some_iff.1 hr)
      have hp : p <+: bs := (prefix_append_cons_iff hc).1 ⟨r, htail.symm⟩
      exact h.1 ((List.prefix_cons_inj b).2 hp)
    rw [List.cons_append, cutAt?, hdrop]
    simp only [cutAt?_append hc rest h.2, Option.map_some]

theorem cut?_append {mark before rest : String} {c : Char} {p : List Char}
    (hmark : mark.toList = c :: p) (hc : c ∉ p) (hb : contains before mark = false) :
    cut? mark (before ++ mark ++ rest) = some (before, rest) := by
  have hb' : ¬ c :: p <:+: before.toList := by
    rw [← hmark, ← contains_iff, hb]
    simp
  rw [cut?, String.toList_append, String.toList_append, hmark, List.append_assoc,
    cutAt?_append hc _ hb']
  simp

end Text

namespace Remap

/-! ## Searching -/

section

variable {α : Type} {read? : List Char → Option α} {cs : List Char} {a : α}

theorem search?_of_head (h : read? cs = some a) : search? read? cs = some a := by
  cases cs with
  | nil => exact h
  | cons c cs => rw [search?, h]

theorem exists_of_search? : ∀ {cs : List Char}, search? read? cs = some a →
    ∃ before after, cs = before ++ after ∧ read? after = some a
  | [], h => ⟨[], [], rfl, h⟩
  | c :: cs, h => by
    unfold search? at h
    split at h
    · rename_i b hb
      exact ⟨[], c :: cs, rfl, hb.trans h⟩
    · obtain ⟨before, after, rfl, hafter⟩ := exists_of_search? h
      exact ⟨c :: before, after, rfl, hafter⟩

theorem isSome_search? : ∀ {before after : List Char}, (read? after).isSome = true →
    (search? read? (before ++ after)).isSome = true
  | [], after, h => by
    obtain ⟨a, ha⟩ := Option.isSome_iff_exists.1 h
    exact Option.isSome_iff_exists.2 ⟨a, search?_of_head ha⟩
  | b :: before, after, h => by
    rw [List.cons_append, search?]
    split
    · rfl
    · exact isSome_search? h

end

/-! ## Locations as they are written -/

theorem digits_append {ds : List Char} (hds : ∀ d ∈ ds, isDigit d = true) {c : Char}
    (hc : isDigit c = false) (r : List Char) : digits (ds ++ c :: r) = (ds, c :: r) := by
  rw [digits, List.takeWhile_append_of_pos hds, List.dropWhile_append_of_pos hds]
  simp [hc]

theorem digits_eq {cs ds r : List Char} (h : digits cs = (ds, r)) :
    cs = ds ++ r ∧ ∀ d ∈ ds, isDigit d = true := by
  obtain ⟨rfl, rfl⟩ := Prod.mk.inj h
  exact ⟨List.takeWhile_append_dropWhile.symm, fun d hd => List.mem_takeWhile_imp hd⟩

/-- A location in a message. -/
inductive WrittenLocation where
  /-- `(line,column)` -/
  | pair (line first : List Char)
  /-- `(line,column-column)` -/
  | range (line first last : List Char)
  /-- `(line): (column)` -/
  | separate (line first : List Char)
  /-- `(line): ` -/
  | lineOnly (line : List Char)
deriving DecidableEq, Repr

namespace WrittenLocation

def text : WrittenLocation → List Char
  | pair line first => '(' :: (line ++ ',' :: (first ++ [')']))
  | range line first last => '(' :: (line ++ ',' :: (first ++ '-' :: (last ++ [')'])))
  | separate line first => '(' :: (line ++ ')' :: ':' :: ' ' :: '(' :: (first ++ [')']))
  | lineOnly line => '(' :: (line ++ [')', ':', ' '])

def line : WrittenLocation → List Char
  | pair line _ | range line _ _ | separate line _ | lineOnly line => line

/-- The first column, empty if it is not written. -/
def first : WrittenLocation → List Char
  | pair _ first | range _ first _ | separate _ first => first
  | lineOnly _ => []

/-- The last column, empty if it is not written. -/
def last : WrittenLocation → List Char
  | range _ _ last => last
  | pair .. | separate .. | lineOnly _ => []

/-- The numerals that are written. -/
def numerals : WrittenLocation → List (List Char)
  | pair line first | separate line first => [line, first]
  | range line first last => [line, first, last]
  | lineOnly line => [line]

def HasComma : WrittenLocation → Prop
  | pair .. | range .. => True
  | separate .. | lineOnly _ => False

instance : DecidablePred HasComma := fun x => by
  cases x <;> unfold HasComma <;> infer_instance

def IsLineOnly : WrittenLocation → Prop
  | lineOnly _ => True
  | pair .. | range .. | separate .. => False

instance : DecidablePred IsLineOnly := fun x => by
  cases x <;> unfold IsLineOnly <;> infer_instance

/-- A location whose numerals have no other character than digits. -/
def HasDigits (x : WrittenLocation) : Prop := ∀ n ∈ x.numerals, ∀ d ∈ n, isDigit d = true

instance : DecidablePred HasDigits := fun x =>
  inferInstanceAs (Decidable (∀ n ∈ x.numerals, ∀ d ∈ n, isDigit d = true))

/-- A location whose numerals are numerals. -/
structure WellFormed (x : WrittenLocation) : Prop where
  digits : x.HasDigits
  nonempty : ∀ n ∈ x.numerals, n ≠ []

instance : DecidablePred WellFormed := fun x =>
  decidable_of_iff (x.HasDigits ∧ ∀ n ∈ x.numerals, n ≠ [])
    ⟨fun h => ⟨h.1, h.2⟩, fun h => ⟨h.digits, h.nonempty⟩⟩

/-- The location as it is read, with what follows it. -/
def read (x : WrittenLocation) (rest : List Char) : Location := ⟨x.line, x.first, x.last, rest⟩

variable {x : WrittenLocation} {cs : List Char}

theorem WellFormed.line_ne_nil (hx : x.WellFormed) : x.line ≠ [] :=
  hx.nonempty x.line (by cases x <;> simp [numerals, WrittenLocation.line])

theorem columns?_text (hx : x.HasComma) (hd : x.HasDigits) (after : List Char) :
    columns? (x.text ++ after) = some (x.read (lineOf after)) := by
  cases x with
  | pair line first =>
    have hline : digits (line ++ ',' :: (first ++ ')' :: after)) = (line, _) :=
      digits_append (hd line (by simp [numerals])) rfl _
    have hfirst : digits (first ++ ')' :: after) = (first, _) :=
      digits_append (hd first (by simp [numerals])) rfl _
    simp [text, columns?, hline, hfirst, read, WrittenLocation.line, WrittenLocation.first, last]
  | range line first last =>
    have hline : digits (line ++ ',' :: (first ++ '-' :: (last ++ ')' :: after))) = (line, _) :=
      digits_append (hd line (by simp [numerals])) rfl _
    have hfirst : digits (first ++ '-' :: (last ++ ')' :: after)) = (first, _) :=
      digits_append (hd first (by simp [numerals])) rfl _
    have hlast : digits (last ++ ')' :: after) = (last, _) :=
      digits_append (hd last (by simp [numerals])) rfl _
    simp [text, columns?, hline, hfirst, hlast, read, WrittenLocation.line, WrittenLocation.first,
      WrittenLocation.last]
  | separate line first => exact hx.elim
  | lineOnly line => exact hx.elim

theorem exists_of_columns? {l : Location} (h : columns? cs = some l) :
    ∃ (x : WrittenLocation) (after : List Char), x.HasComma ∧ x.HasDigits ∧ cs = x.text ++ after
      ∧ l = x.read (lineOf after) := by
  unfold columns? at h
  split at h
  · rename_i cs
    rcases hline : digits cs with ⟨line, r⟩
    obtain ⟨rfl, hlineDigits⟩ := digits_eq hline
    rw [hline] at h
    simp only at h
    split at h
    · rename_i line' cs hr
      obtain ⟨rfl, rfl⟩ := Prod.mk.inj hr
      rcases hfirst : digits cs with ⟨first, r⟩
      obtain ⟨rfl, hfirstDigits⟩ := digits_eq hfirst
      rw [hfirst] at h
      split at h
      · rename_i first' after hr
        obtain ⟨rfl, rfl⟩ := Prod.mk.inj hr
        have hdigits : HasDigits (pair line first) :=
          List.forall_mem_cons.2 ⟨hlineDigits, List.forall_mem_singleton.2 hfirstDigits⟩
        exact ⟨pair line first, after, trivial, hdigits, by simp [text], (Option.some.inj h).symm⟩
      · rename_i first' cs hr
        obtain ⟨rfl, rfl⟩ := Prod.mk.inj hr
        rcases hlast : digits cs with ⟨last, r⟩
        obtain ⟨rfl, hlastDigits⟩ := digits_eq hlast
        rw [hlast] at h
        split at h
        · rename_i last' after hr
          obtain ⟨rfl, rfl⟩ := Prod.mk.inj hr
          have hdigits : HasDigits (range line first last) := List.forall_mem_cons.2 ⟨hlineDigits,
            List.forall_mem_cons.2 ⟨hfirstDigits, List.forall_mem_singleton.2 hlastDigits⟩⟩
          exact ⟨range line first last, after, trivial, hdigits, by simp [text],
            (Option.some.inj h).symm⟩
        · cases h
      · cases h
    · cases h
  · cases h

end WrittenLocation

/-- Whether a location with a comma stands somewhere in a text, perhaps without a digit. -/
def HasColumns (cs : List Char) : Prop :=
  ∃ before x after, cs = before ++ (WrittenLocation.text x ++ after) ∧ x.HasComma ∧ x.HasDigits

/-- Whether a text starts with a number in parentheses. -/
def StartsWithNumber (cs : List Char) : Prop :=
  ∃ ds after, ds ≠ [] ∧ (∀ d ∈ ds, isDigit d = true) ∧ cs = '(' :: (ds ++ ')' :: after)

theorem hasColumns_iff {cs : List Char} :
    HasColumns cs ↔ (search? columns? cs).isSome = true := by
  constructor
  · rintro ⟨before, x, after, rfl, hx, hd⟩
    exact isSome_search? (by rw [WrittenLocation.columns?_text hx hd]; rfl)
  · intro h
    obtain ⟨l, hl⟩ := Option.isSome_iff_exists.1 h
    obtain ⟨before, cs', rfl, hcs⟩ := exists_of_search? hl
    obtain ⟨x, after, hx, hd, rfl, -⟩ := WrittenLocation.exists_of_columns? hcs
    exact ⟨before, x, after, rfl, hx, hd⟩

instance : DecidablePred HasColumns := fun _ => decidable_of_iff' _ hasColumns_iff

/-- What follows a location that is found later is less than the text. -/
theorem length_rest_lt {cs : List Char} {l : Location} (h : search? columns? cs = some l) :
    l.rest.length < cs.length := by
  obtain ⟨before, cs', rfl, hcs⟩ := exists_of_search? h
  obtain ⟨x, after, hx, -, rfl, rfl⟩ := WrittenLocation.exists_of_columns? hcs
  have hline : (lineOf after).length ≤ after.length := (List.takeWhile_prefix _).length_le
  have htext : 0 < x.text.length := by cases x <;> simp [WrittenLocation.text]
  simp only [WrittenLocation.read, List.length_append]
  omega

/-! ## Where a location is looked for -/

theorem search?_columns?_of_not_mem (cs : List Char) : ∀ {skipped : List Char}, '(' ∉ skipped →
    search? columns? (skipped ++ cs) = search? columns? cs
  | [], _ => rfl
  | c :: skipped, h => by
    rw [List.mem_cons, not_or] at h
    have hno : columns? (c :: (skipped ++ cs)) = none := by
      unfold columns?
      split
      · rename_i _ _ heq
        exact absurd (List.cons.inj heq).1.symm h.1
      · rfl
    rw [List.cons_append, search?, hno]
    exact search?_columns?_of_not_mem cs h.2

theorem parenthesis_not_mem {ds : List Char} (hds : ∀ d ∈ ds, isDigit d = true) : '(' ∉ ds :=
  fun h => by cases hds _ h

/-- A number in parentheses is no location with a comma. -/
theorem search?_columns?_number {ds : List Char} (hds : ∀ d ∈ ds, isDigit d = true)
    (cs : List Char) :
    search? columns? ('(' :: (ds ++ ')' :: cs)) = search? columns? cs := by
  have hno : columns? ('(' :: (ds ++ ')' :: cs)) = none := by
    simp [columns?, digits_append hds (c := ')') rfl]
  have hskip : '(' ∉ ds ++ [')'] := by simp [parenthesis_not_mem hds]
  rw [search?, hno, List.append_cons]
  exact search?_columns?_of_not_mem cs hskip

theorem column_cases (cs : List Char) :
    (∃ ds after, (∀ d ∈ ds, isDigit d = true) ∧ cs = '(' :: (ds ++ ')' :: after)
        ∧ column cs = (ds, after))
      ∨ column cs = ([], cs) := by
  unfold column
  split
  · split
    · rename_i ds after hds
      obtain ⟨rfl, hdigits⟩ := digits_eq hds
      exact .inl ⟨ds, after, hdigits, rfl, rfl⟩
    · exact .inr rfl
  · exact .inr rfl

theorem column_eq_self {cs : List Char} (h : ¬ StartsWithNumber cs)
    (hempty : ¬ ['(', ')'] <+: cs) : column cs = ([], cs) := by
  rcases column_cases cs with ⟨ds, after, hds, rfl, -⟩ | hcolumn
  · by_cases hne : ds = []
    · subst hne
      exact absurd ⟨after, rfl⟩ hempty
    · exact absurd ⟨ds, after, hne, hds, rfl⟩ h
  · exact hcolumn

namespace WrittenLocation

variable {x : WrittenLocation} {rest : List Char}

/-- A location without a comma has none in it. -/
theorem search?_columns?_text (hx : ¬ x.HasComma) (hd : x.HasDigits) (rest : List Char) :
    search? columns? (x.text ++ rest) = search? columns? rest := by
  cases x with
  | pair line first => exact absurd trivial hx
  | range line first last => exact absurd trivial hx
  | separate line first =>
    have htext : (separate line first).text ++ rest
        = '(' :: (line ++ ')' :: ([':', ' '] ++ '(' :: (first ++ ')' :: rest))) := by simp [text]
    rw [htext, search?_columns?_number (hd line (by simp [numerals])),
      search?_columns?_of_not_mem _ (by decide),
      search?_columns?_number (hd first (by simp [numerals]))]
  | lineOnly line =>
    have htext : (lineOnly line).text ++ rest = '(' :: (line ++ ')' :: ([':', ' '] ++ rest)) := by
      simp [text]
    rw [htext, search?_columns?_number (hd line (by simp [numerals])),
      search?_columns?_of_not_mem _ (by decide)]

/-- A location that what follows it leaves as it is. -/
def ClearOf (x : WrittenLocation) (rest : List Char) : Prop :=
  (x.HasComma ∨ ¬ HasColumns rest) ∧ (x.IsLineOnly → ¬ ['(', ')'] <+: rest)

instance : Decidable (x.ClearOf rest) :=
  inferInstanceAs (Decidable ((x.HasComma ∨ ¬ HasColumns rest)
    ∧ (x.IsLineOnly → ¬ ['(', ')'] <+: rest)))

/-- A form without a comma is read as it is written, but for empty parentheses after it, which are
dropped. -/
theorem lineOnly?_text (hx : ¬ x.HasComma) (hd : x.HasDigits)
    (hrest : x.IsLineOnly → ¬ StartsWithNumber rest) :
    ∃ l, lineOnly? (x.text ++ rest) = some l
      ∧ (l = x.read (lineOf rest) ∧ (x.IsLineOnly → ¬ ['(', ')'] <+: rest)
        ∨ x.IsLineOnly ∧ ['(', ')'] <+: rest ∧ l.rest.length < rest.length) := by
  cases x with
  | pair line first => exact absurd trivial hx
  | range line first last => exact absurd trivial hx
  | separate line first =>
    have hline := digits_append (hd line (by simp [numerals])) (c := ')') rfl
    have hfirst := digits_append (hd first (by simp [numerals])) (c := ')') rfl
    refine ⟨_, ?_, .inl ⟨rfl, nofun⟩⟩
    simp [text, lineOnly?, hline, column, hfirst, read, WrittenLocation.line,
      WrittenLocation.first, last]
  | lineOnly line =>
    have hline := digits_append (hd line (by simp [numerals])) (c := ')') rfl
    refine ⟨⟨line, (column rest).1, [], lineOf (column rest).2⟩, by simp [text, lineOnly?, hline], ?_⟩
    by_cases hempty : ['(', ')'] <+: rest
    · refine .inr ⟨trivial, hempty, ?_⟩
      obtain ⟨after, rfl⟩ := hempty
      have hafter : (lineOf after).length ≤ after.length := (List.takeWhile_prefix _).length_le
      have hcolumn : column (['(', ')'] ++ after) = ([], after) := rfl
      rw [hcolumn, List.length_append]
      simp only [List.length_cons, List.length_nil]
      omega
    · rw [column_eq_self (hrest trivial) hempty]
      exact .inl ⟨rfl, fun _ => hempty⟩

/-- What stands after a path is read as the location that was written, or as a later one. -/
theorem location?_text (hd : x.HasDigits) (hrest : x.IsLineOnly → ¬ StartsWithNumber rest) :
    ∃ l, location? (x.text ++ rest) = some l
      ∧ (l = x.read (lineOf rest) ∧ x.ClearOf rest
        ∨ ¬ x.ClearOf rest ∧ l.rest.length < rest.length) := by
  by_cases hx : x.HasComma
  · have honly : ¬ x.IsLineOnly := by
      cases x with
      | pair | range => exact id
      | separate | lineOnly => exact hx.elim
    have hclear : x.ClearOf rest := ⟨.inl hx, fun h => absurd h honly⟩
    refine ⟨x.read (lineOf rest), ?_, .inl ⟨rfl, hclear⟩⟩
    rw [location?, search?_of_head (columns?_text hx hd rest)]
  · rw [location?, search?_columns?_text hx hd]
    cases hcolumns : search? columns? rest with
    | some l =>
      have hhas : HasColumns rest := hasColumns_iff.2 (by rw [hcolumns]; rfl)
      refine ⟨l, rfl, .inr ⟨fun hclear => ?_, length_rest_lt hcolumns⟩⟩
      exact hclear.1.elim hx fun hno => hno hhas
    | none =>
      have hno : ¬ HasColumns rest := by simp [hasColumns_iff, hcolumns]
      obtain ⟨l, hl, hcases⟩ := lineOnly?_text hx hd hrest
      refine ⟨l, search?_of_head hl, ?_⟩
      rcases hcases with ⟨rfl, hempty⟩ | ⟨honly, hempty, hlength⟩
      · exact .inl ⟨rfl, .inr hno, hempty⟩
      · exact .inr ⟨fun hclear => hclear.2 honly hempty, hlength⟩

end WrittenLocation

/-! ## Messages -/

/-- The number that some digits spell, if there are any. -/
def value? : List Char → Option Nat
  | [] => none
  | d :: ds => some (Binary64.digitsValue (d :: ds))

theorem value?_eq_some {ds : List Char} {n : Nat} (h : value? ds = some n) :
    ds ≠ [] ∧ n = Binary64.digitsValue ds := by
  cases ds with
  | nil => cases h
  | cons d ds => exact ⟨List.cons_ne_nil d ds, (Option.some.inj h).symm⟩

theorem number_eq_ok_iff {ds : List Char} {n : Option Nat} :
    number ds = .ok n ↔ ds.length ≤ Numeral.longest ∧ n = value? ds := by
  cases ds with
  | nil => simp [number, value?, eq_comm]
  | cons d ds =>
    rw [number, Numeral.ofDigits]
    split_ifs with h
    · simp only [Except.map, reduceCtorEq, false_iff, not_and]
      omega
    · simp only [Except.map, Except.ok.injEq, value?, eq_comm (a := n)]
      exact ⟨fun hn => ⟨by omega, hn⟩, And.right⟩

/-- The place that a location of a file is. -/
def Location.located (l : Location) (before path : String) (file : DiskPath) : LocatedError where
  before := before
  path := path
  file := file
  line := Binary64.digitsValue l.line
  first := value? l.first
  last := value? l.last
  rest := String.ofList l.rest

/-- The numerals of a location, empty ones included. -/
def Location.numerals (l : Location) : List (List Char) := [l.line, l.first, l.last]

theorem WrittenLocation.forall_numerals_read {x : WrittenLocation} {rest : List Char} :
    (∀ n ∈ (x.read rest).numerals, n.length ≤ Numeral.longest)
      ↔ ∀ n ∈ x.numerals, n.length ≤ Numeral.longest := by
  cases x <;> simp [Location.numerals, numerals, read, line, first, last]

theorem Cut.locate_eq_ok_some_iff {c : Cut} {file : DiskPath} {e : LocatedError} :
    c.locate file = .ok (some e) ↔ ∃ l, location? c.after.toList = some l ∧ l.line ≠ []
      ∧ (∀ n ∈ l.numerals, n.length ≤ Numeral.longest)
      ∧ e = l.located c.before c.target.path file := by
  constructor
  · intro h
    unfold locate at h
    split at h
    · cases h
    · rename_i l hl
      rcases hline : number l.line with _ | n <;> rw [hline] at h
      · cases h
      rcases n with _ | n
      · cases h
      rcases hfirst : number l.first with _ | first <;> rw [hfirst] at h
      · cases h
      rcases hlast : number l.last with _ | last <;> rw [hlast] at h
      · cases h
      obtain ⟨hlineShort, hn⟩ := number_eq_ok_iff.1 hline
      obtain ⟨hfirstShort, rfl⟩ := number_eq_ok_iff.1 hfirst
      obtain ⟨hlastShort, rfl⟩ := number_eq_ok_iff.1 hlast
      obtain ⟨hne, rfl⟩ := value?_eq_some hn.symm
      refine ⟨l, hl, hne, ?_, (Option.some.inj (Except.ok.inj h)).symm⟩
      simp [Location.numerals, hlineShort, hfirstShort, hlastShort]
  · rintro ⟨l, hl, hne, hn, rfl⟩
    obtain ⟨d, ds, hds⟩ := List.exists_cons_of_ne_nil hne
    have hline : number l.line = .ok (some (Binary64.digitsValue l.line)) :=
      number_eq_ok_iff.2 ⟨hn l.line (by simp [Location.numerals]), by rw [hds]; rfl⟩
    have hfirst := number_eq_ok_iff.2 ⟨hn l.first (by simp [Location.numerals]), rfl⟩
    have hlast := number_eq_ok_iff.2 ⟨hn l.last (by simp [Location.numerals]), rfl⟩
    unfold locate
    rw [hl]
    simp only
    rw [hline, hfirst, hlast]
    rfl

end Remap

theorem Routine.exec_orFault {σ α ε : Type} (fault : ε → Fault) (x : Except ε α) (s : σ) :
    exec (orFault fault x : Routine σ α) s = (x.mapError fault, s) := by
  cases x <;> rfl

theorem mapError_eq_ok_iff {α ε : Type} {fault : ε → Fault} {x : Except ε α} {a : α} :
    x.mapError fault = .ok a ↔ x = .ok a := by
  cases x <;> simp [Except.mapError]

namespace Project

open Remap

variable {p : Project} {w : World} {before path after : String}

/-- A message with a path between the two marks is about the file of that path. -/
theorem exec_remap? (hbefore : contains before Code.pathStart = false)
    (hpath : contains path Code.pathEnd = false)
    (hfile : w.disk.holds (w.current.join (p.resolve path)) Entry.isFile = .ok true) :
    exec (p.remap? (before ++ Code.pathStart ++ path ++ Code.pathEnd ++ after) : InWorld _) w
      = ((Cut.locate ⟨before, .source path, after⟩ (p.resolve path)).mapError .numeral, w) := by
  have hcut : Remap.cut? (before ++ Code.pathStart ++ path ++ Code.pathEnd ++ after)
      = some ⟨before, .source path, after⟩ := by
    have hfront : Text.cut? Code.pathStart (before ++ Code.pathStart
        ++ (path ++ Code.pathEnd ++ after)) = some (before, path ++ Code.pathEnd ++ after) :=
      cut?_append rfl (by decide) hbefore
    have hback : Text.cut? Code.pathEnd (path ++ Code.pathEnd ++ after) = some (path, after) :=
      cut?_append rfl (by decide) hpath
    simp only [String.append_assoc] at hfront hback ⊢
    simp [Remap.cut?, hfront, hback]
  have hcurrent : exec (Sources.current : InWorld DiskPath) w = (.ok w.current, w) := rfl
  have hthere : exec (Sources.isFile (p.resolve path) : InWorld Bool) w = (.ok true, w) :=
    (InWorld.exec_ask w _ _).trans (by rw [hfile]; rfl)
  unfold remap?
  rw [hcut]
  simp only [exec_bind, hcurrent, fileOf?, exec_orFault, Except.mapError, hthere, if_true]

/-- A location right after the path of a file is found, and the rest of the message kept, if and only
if the rest has no place that is looked for before it, and no empty parentheses where a column may
be; and if its numerals are not too long. -/
theorem remap?_written_iff {x : WrittenLocation} {rest : String}
    (hbefore : contains before Code.pathStart = false)
    (hpath : contains path Code.pathEnd = false)
    (hfile : w.disk.holds (w.current.join (p.resolve path)) Entry.isFile = .ok true)
    (hx : x.WellFormed) (honly : x.IsLineOnly → ¬ StartsWithNumber rest.toList)
    (hline : '\n' ∉ rest.toList) :
    exec (p.remap? (before ++ Code.pathStart ++ path ++ Code.pathEnd ++ String.ofList x.text ++ rest)
        : InWorld _) w
      = (.ok (some ((x.read rest.toList).located before path (p.resolve path))), w)
      ↔ x.ClearOf rest.toList ∧ ∀ n ∈ x.numerals, n.length ≤ Numeral.longest := by
  have hrest : lineOf rest.toList = rest.toList :=
    List.takeWhile_eq_self_iff.2 fun c hc => by
      simp only [bne_iff_ne, ne_eq]
      rintro rfl
      exact hline hc
  have htext : (String.ofList x.text ++ rest).toList = x.text ++ rest.toList := by
    rw [String.toList_append, String.toList_ofList]
  obtain ⟨l, hl, hcases⟩ := WrittenLocation.location?_text hx.digits honly
  rw [String.append_assoc, exec_remap? hbefore hpath hfile, Prod.mk.injEq, and_iff_left rfl,
    mapError_eq_ok_iff, Cut.locate_eq_ok_some_iff]
  simp only [htext, hl]
  constructor
  · rintro ⟨l', hl', -, hn, he⟩
    cases hl'
    rcases hcases with ⟨rfl, hclear⟩ | ⟨-, hlength⟩
    · exact ⟨hclear, WrittenLocation.forall_numerals_read.1 hn⟩
    · -- the rest of the error would be less than what follows the location
      have hlost : rest.toList = l.rest := String.ofList_injective (congrArg LocatedError.rest he)
      rw [hlost] at hlength
      exact absurd hlength (lt_irrefl _)
  · rintro ⟨hclear, hn⟩
    rcases hcases with ⟨rfl, -⟩ | ⟨hno, -⟩
    · refine ⟨_, rfl, hx.line_ne_nil, WrittenLocation.forall_numerals_read.2 hn, ?_⟩
      rw [hrest]
      rfl
    · exact absurd hclear hno

end Project

namespace NumbersInMessage

open Remap

def project : Project := { root := .fileSystem }

/-- A world with one source. -/
def world : World := { disk := ⟨[(["lib.hlsl"], .file .empty)]⟩ }

/-- With a column written, the numbers that the message goes on with are left alone; without one, they
are taken for the location. -/
theorem remap?_written_iff_of_numbers :
    exec (project.remap? ("[SM5] " ++ Code.pathStart ++ "lib.hlsl" ++ Code.pathEnd
        ++ String.ofList "(12,5-9)".toList ++ ": no overload of float3(1,2)") : InWorld _) world
      = (.ok (some { before := "[SM5] ", path := "lib.hlsl", file := project.resolve "lib.hlsl"
                     line := 12, first := some 5, last := some 9
                     rest := ": no overload of float3(1,2)" }), world)
    ∧ exec (project.remap? ("[SM5] " ++ Code.pathStart ++ "lib.hlsl" ++ Code.pathEnd
        ++ String.ofList "(3): ".toList ++ "no overload of float3(1,2)") : InWorld _) world
      ≠ (.ok (some { before := "[SM5] ", path := "lib.hlsl", file := project.resolve "lib.hlsl"
                     line := 3, rest := "no overload of float3(1,2)" }), world) := by
  have hmarks : contains "[SM5] " Code.pathStart = false ∧ contains "lib.hlsl" Code.pathEnd = false
      ∧ world.disk.holds (world.current.join (project.resolve "lib.hlsl")) Entry.isFile
        = .ok true := by
    decide +kernel
  let written : WrittenLocation := .range "12".toList "5".toList "9".toList
  let bare : WrittenLocation := .lineOnly "3".toList
  have hwritten : written.WellFormed ∧ written.ClearOf ": no overload of float3(1,2)".toList
      ∧ (∀ n ∈ written.numerals, n.length ≤ Numeral.longest)
      ∧ '\n' ∉ ": no overload of float3(1,2)".toList := by decide +kernel
  have hbare : bare.WellFormed ∧ ¬ bare.ClearOf "no overload of float3(1,2)".toList
      ∧ '\n' ∉ "no overload of float3(1,2)".toList := by decide +kernel
  obtain ⟨hbefore, hpath, hfile⟩ := hmarks
  obtain ⟨hwell, hclear, hshort, hline⟩ := hwritten
  refine ⟨(Project.remap?_written_iff hbefore hpath hfile hwell nofun hline).2 ⟨hclear, hshort⟩, ?_⟩
  obtain ⟨hwell, hnot, hline⟩ := hbare
  have hno : ¬ StartsWithNumber "no overload of float3(1,2)".toList := by
    rintro ⟨ds, after, -, -, h⟩
    exact absurd (List.cons.inj h).1 (by decide)
  intro h
  exact hnot ((Project.remap?_written_iff hbefore hpath hfile hwell (fun _ => hno) hline).1 h).1

/-- A line without a column is not always found: numbers in the message are taken for it. -/
theorem not_forall_remapped : ¬ ∀ (p : Project) (w : World) (before path : String)
    (x : WrittenLocation) (rest : String), contains before Code.pathStart = false →
      contains path Code.pathEnd = false →
      w.disk.holds (w.current.join (p.resolve path)) Entry.isFile = .ok true → x.WellFormed →
      (x.IsLineOnly → ¬ StartsWithNumber rest.toList) → '\n' ∉ rest.toList →
      exec (p.remap? (before ++ Code.pathStart ++ path ++ Code.pathEnd ++ String.ofList x.text ++ rest)
          : InWorld _) w
        = (.ok (some ((x.read rest.toList).located before path (p.resolve path))), w) := by
  intro h
  have hno : ¬ StartsWithNumber "cast of (1,2)".toList := by
    rintro ⟨ds, after, -, -, h⟩
    exact absurd (List.cons.inj h).1 (by decide)
  have hevaluated : contains "" Code.pathStart = false ∧ contains "lib.hlsl" Code.pathEnd = false
      ∧ world.disk.holds (world.current.join (project.resolve "lib.hlsl")) Entry.isFile = .ok true
      ∧ (WrittenLocation.lineOnly "3".toList).WellFormed ∧ '\n' ∉ "cast of (1,2)".toList
      ∧ (Cut.locate ⟨"", .source "lib.hlsl", "(3): cast of (1,2)"⟩ (project.resolve "lib.hlsl"))
        = .ok (some { before := "", path := "lib.hlsl", file := project.resolve "lib.hlsl"
                      line := 1, first := some 2 }) := by
    decide +kernel
  obtain ⟨hbefore, hpath, hfile, hwell, hline, hfound⟩ := hevaluated
  have hclaimed := h project world "" "lib.hlsl" _ _ hbefore hpath hfile hwell (fun _ => hno) hline
  rw [String.append_assoc, Project.exec_remap? hbefore hpath hfile] at hclaimed
  have hafter : String.ofList (WrittenLocation.lineOnly "3".toList).text ++ "cast of (1,2)"
      = "(3): cast of (1,2)" := rfl
  rw [hafter, hfound] at hclaimed
  cases hclaimed

end NumbersInMessage

end ShaderGraph
