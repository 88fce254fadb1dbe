import ShaderGraph.Proofs.Includes
import ShaderGraph.Proofs.Placeholders

/-!
# Commands for the editor

The words of the template are those of the command, with the placeholders replaced, if each text that
is put in has no meaning to the reader of the words where it stands. The default template quotes the
file, so that all is well unless the file has a double quote in its name, a backslash that escapes
something, or the name of a later placeholder (`EditorSettings.command_eq`).
-/

namespace ShaderGraph.CommandLine

open EditorSettings

/-! ## Texts that are read as themselves -/

/-- A character that has no meaning between words. -/
def IsOrdinary (c : Char) : Prop := isGap c = false ∧ c ≠ '\'' ∧ c ≠ '"' ∧ c ≠ '\\'

/-- A text before `r` that is read as itself between double quotes: no double quote is in it, and no
backslash in it escapes anything. -/
def IsQuotable : List Char → List Char → Prop
  | [], _ => True
  | c :: t, r => c ≠ '"' ∧ (c = '\\' → ∃ d ∈ (t ++ r).head?, d ≠ '"' ∧ d ≠ '\\') ∧ IsQuotable t r

/-- A text before `r` that is read as itself in a place. -/
def Place.Keeps : Place → List Char → List Char → Prop
  | .plain, t, _ => ∀ c ∈ t, IsOrdinary c
  | .singleQuotes, t, _ => '\'' ∉ t
  | .doubleQuotes, t, r => IsQuotable t r
  | .escape, t, _ => ∀ c ∈ t.tail, IsOrdinary c
  | .quotedEscape, t, r => (∃ d ∈ t.head?, d ≠ '"' ∧ d ≠ '\\') ∧ IsQuotable t r

instance decidableIsQuotable : (t r : List Char) → Decidable (IsQuotable t r)
  | [], _ => .isTrue trivial
  | c :: t, r =>
    have := decidableIsQuotable t r
    inferInstanceAs (Decidable (c ≠ '"' ∧ (c = '\\' → ∃ d ∈ (t ++ r).head?, d ≠ '"' ∧ d ≠ '\\')
      ∧ IsQuotable t r))

section

variable {t r cs : List Char} {word : Option (List Char)} {pl : Place}

theorem isQuotable_of_ordinary (h : ∀ c ∈ t, IsOrdinary c) (r : List Char) : IsQuotable t r := by
  induction t with
  | nil => trivial
  | cons c t ih =>
    obtain ⟨⟨-, -, hquote, hbackslash⟩, ht⟩ := List.forall_mem_cons.1 h
    exact ⟨hquote, fun hc => absurd hc hbackslash, ih ht⟩

/-- Ordinary characters are read as themselves everywhere. -/
theorem Place.keeps_of_ordinary (ht : t ≠ []) (h : ∀ c ∈ t, IsOrdinary c) (pl : Place) (r : List Char) :
    pl.Keeps t r := by
  cases pl with
  | plain => exact h
  | singleQuotes => exact fun hmem => (h _ hmem).2.1 rfl
  | doubleQuotes => exact isQuotable_of_ordinary h r
  | escape => exact fun c hc => h c (List.mem_of_mem_tail hc)
  | quotedEscape =>
    obtain ⟨c, t, rfl⟩ := List.exists_cons_of_ne_nil ht
    obtain ⟨-, -, hquote, hbackslash⟩ := h c List.mem_cons_self
    exact ⟨⟨c, rfl, hquote, hbackslash⟩, isQuotable_of_ordinary h r⟩

theorem wordsFrom_plain (h : ∀ c ∈ t, IsOrdinary c) :
    wordsFrom word .plain (t ++ r) = wordsFrom (t.foldl extend word) .plain r := by
  induction t generalizing word with
  | nil => rfl
  | cons c t ih =>
    obtain ⟨⟨hgap, hsingle, hdouble, hbackslash⟩, ht⟩ := List.forall_mem_cons.1 h
    rw [List.cons_append, wordsFrom, hgap, if_neg Bool.false_ne_true, if_neg hsingle, if_neg hdouble,
      if_neg hbackslash, ih ht, List.foldl_cons]

theorem wordsFrom_singleQuotes (h : '\'' ∉ t) :
    wordsFrom word .singleQuotes (t ++ r) = wordsFrom (t.foldl extend word) .singleQuotes r := by
  induction t generalizing word with
  | nil => rfl
  | cons c t ih =>
    rw [List.mem_cons, not_or] at h
    rw [List.cons_append, wordsFrom, if_neg (Ne.symm h.1), ih h.2, List.foldl_cons]

/-- A backslash that escapes nothing is read as itself. -/
theorem wordsFrom_quotedEscape (h : ∃ d ∈ cs.head?, d ≠ '"' ∧ d ≠ '\\') :
    wordsFrom word .quotedEscape cs = wordsFrom (extend word '\\') .doubleQuotes cs := by
  obtain ⟨d, hd, hquote, hbackslash⟩ := h
  obtain ⟨cs, rfl⟩ := List.head?_eq_some_iff.1 hd
  rw [wordsFrom, wordsFrom, if_neg (by simp [hquote, hbackslash]), if_neg hquote, if_neg hbackslash]

theorem wordsFrom_doubleQuotes (h : IsQuotable t r) :
    wordsFrom word .doubleQuotes (t ++ r) = wordsFrom (t.foldl extend word) .doubleQuotes r := by
  induction t generalizing word with
  | nil => rfl
  | cons c t ih =>
    obtain ⟨hquote, hescape, ht⟩ := h
    rw [List.cons_append, wordsFrom, if_neg hquote, List.foldl_cons, ← ih ht]
    split_ifs with hbackslash
    · rw [wordsFrom_quotedEscape (hescape hbackslash), hbackslash]
    · rfl

theorem foldl_extend (ht : t ≠ []) (word : Option (List Char)) :
    t.foldl extend word = some (t.reverse ++ word.getD []) := by
  have hstarted : ∀ (t w : List Char), t.foldl extend (some w) = some (t.reverse ++ w) := by
    intro t
    induction t with
    | nil => exact fun _ => rfl
    | cons c t ih =>
      intro w
      rw [List.foldl_cons, extend, ih]
      simp
  obtain ⟨c, t, rfl⟩ := List.exists_cons_of_ne_nil ht
  rw [List.foldl_cons, extend, hstarted]
  simp

end

/-! ## Words of a template -/

/-- A character between words. -/
def isItemGap : Item → Bool
  | .char c => isGap c
  | _ => false

/-- The words of the rest of a template with marks: a mark is read as an ordinary character. -/
def itemsFrom (word : Option (List Item)) : Place → List Item → Except WordError (List (List Item))
  | .plain, [] => .ok (word.map List.reverse).toList
  | .singleQuotes, [] | .doubleQuotes, [] => .error .unclosedQuote
  | .escape, [] | .quotedEscape, [] => .error .trailingBackslash
  | .plain, i :: is =>
    if isItemGap i then (itemsFrom none .plain is).map ((word.map List.reverse).toList ++ ·)
    else if i = .char '\'' then itemsFrom (some (word.getD [])) .singleQuotes is
    else if i = .char '"' then itemsFrom (some (word.getD [])) .doubleQuotes is
    else if i = .char '\\' then itemsFrom word .escape is
    else itemsFrom (some (i :: word.getD [])) .plain is
  | .singleQuotes, i :: is =>
    if i = .char '\'' then itemsFrom word .plain is
    else itemsFrom (some (i :: word.getD [])) .singleQuotes is
  | .doubleQuotes, i :: is =>
    if i = .char '"' then itemsFrom word .plain is
    else if i = .char '\\' then itemsFrom word .quotedEscape is
    else itemsFrom (some (i :: word.getD [])) .doubleQuotes is
  | .escape, i :: is => itemsFrom (some (i :: word.getD [])) .plain is
  | .quotedEscape, i :: is =>
    if i = .char '"' ∨ i = .char '\\' then itemsFrom (some (i :: word.getD [])) .doubleQuotes is
    else itemsFrom (some (i :: .char '\\' :: word.getD [])) .doubleQuotes is

/-- The place after a part of a template. -/
def Place.after : Place → Item → Place
  | .plain, i => if i = .char '\'' then .singleQuotes else if i = .char '"' then .doubleQuotes
    else if i = .char '\\' then .escape else .plain
  | .singleQuotes, i => if i = .char '\'' then .plain else .singleQuotes
  | .doubleQuotes, i => if i = .char '"' then .plain else if i = .char '\\' then .quotedEscape
    else .doubleQuotes
  | .escape, _ => .plain
  | .quotedEscape, _ => .doubleQuotes

theorem Place.after_gap {c : Char} (hc : isGap c = true) : Place.plain.after (.char c) = .plain := by
  have hne (d : Char) (hd : isGap d = false) : c ≠ d := by
    rintro rfl
    cases hd.symm.trans hc
  simp [Place.after, hne '\'' rfl, hne '"' rfl, hne '\\' rfl]

/-- Only a backslash escapes what is behind it. -/
theorem Place.after_ne_escape {c : Char} (hc : c ≠ '\\') (pl : Place) : pl.after (.char c) ≠ .escape := by
  cases pl with
  | plain | singleQuotes | doubleQuotes =>
    simp only [Place.after, Item.char.injEq, if_neg hc]
    split_ifs <;> simp
  | escape | quotedEscape => simp [Place.after]

/-- The words that a character ends, and the one being read behind it. -/
def Place.step (word : Option (List Char)) (c : Char) : Place → List String × Option (List Char)
  | .plain =>
    if isGap c then (finished word, none)
    else if c = '\'' then ([], start word)
    else if c = '"' then ([], start word)
    else if c = '\\' then ([], word)
    else ([], extend word c)
  | .singleQuotes => if c = '\'' then ([], word) else ([], extend word c)
  | .doubleQuotes =>
    if c = '"' then ([], word) else if c = '\\' then ([], word) else ([], extend word c)
  | .escape => ([], extend word c)
  | .quotedEscape =>
    if c = '"' ∨ c = '\\' then ([], extend word c) else ([], extend (extend word '\\') c)

theorem map_nil_append {α : Type} (x : Except WordError (List α)) : x.map ([] ++ ·) = x := by
  cases x <;> rfl

/-- Characters are read one by one. -/
theorem wordsFrom_cons (word : Option (List Char)) (pl : Place) (c : Char) (cs : List Char) :
    wordsFrom word pl (c :: cs)
      = (wordsFrom (pl.step word c).2 (pl.after (.char c)) cs).map ((pl.step word c).1 ++ ·) := by
  cases pl with
  | plain =>
    by_cases hgap : isGap c = true
    · rw [Place.after_gap hgap, wordsFrom, Place.step, if_pos hgap, if_pos hgap]
    · rw [wordsFrom, Place.step, if_neg hgap, if_neg hgap]
      simp only [Place.after, Item.char.injEq]
      split_ifs <;> rw [map_nil_append]
  | singleQuotes | doubleQuotes =>
    simp only [wordsFrom, Place.step, Place.after, Item.char.injEq]
    split_ifs <;> rw [map_nil_append]
  | escape => exact (map_nil_append _).symm
  | quotedEscape =>
    simp only [wordsFrom, Place.step, Place.after]
    split_ifs <;> rw [map_nil_append]

/-- The texts that are put into the rest of a template are read as themselves where they stand. -/
def Kept (f : Filling) (pl : Place) (is : List Item) : Prop :=
  ∀ before i after, is = before ++ i :: after → i.isMark = true →
    f.text i ≠ [] ∧ (before.foldl Place.after pl).Keeps (f.text i) (f.fill after)

section

variable {f : Filling} {pl : Place} {i : Item} {is : List Item}

theorem Kept.head (h : Kept f pl (i :: is)) (hi : i.isMark = true) :
    f.text i ≠ [] ∧ pl.Keeps (f.text i) (f.fill is) := h [] i is rfl hi

theorem Kept.tail (h : Kept f pl (i :: is)) : Kept f (pl.after i) is := fun before j after his hj =>
  h (i :: before) j after (by rw [his, List.cons_append]) hj

/-- A word of a template as it is read once the template is filled, latest character first. -/
def latest (f : Filling) (w : List Item) : List Char := (f.fill w.reverse).reverse

theorem latest_cons (f : Filling) (i : Item) (w : List Item) :
    latest f (i :: w) = (f.text i).reverse ++ latest f w := by
  simp [latest]

theorem start_map (f : Filling) (word : Option (List Item)) :
    start (word.map (latest f)) = (some (word.getD [])).map (latest f) := by
  cases word <;> rfl

theorem extend_map (f : Filling) (word : Option (List Item)) (c : Char) :
    extend (word.map (latest f)) c = (some (.char c :: word.getD [])).map (latest f) := by
  cases word <;> simp [extend, latest, Filling.text]

theorem finished_map (f : Filling) (word : Option (List Item)) :
    finished (word.map (latest f))
      = (word.map List.reverse).toList.map fun w => String.ofList (f.fill w) := by
  cases word <;> simp [finished, latest]

/-- A text that is put in the place of a mark is read as the mark is. -/
theorem wordsFrom_mark (hi : i.isMark = true) (hne : f.text i ≠ []) {r : List Char}
    (h : pl.Keeps (f.text i) r) (word : Option (List Item)) :
    ∃ w, wordsFrom (word.map (latest f)) pl (f.text i ++ r)
        = wordsFrom ((some w).map (latest f)) (pl.after i) r
      ∧ ∀ is, itemsFrom word pl (i :: is) = itemsFrom (some w) (pl.after i) is := by
  have hchar (c : Char) : i ≠ .char c := by
    rintro rfl
    cases hi
  have hgap : isItemGap i = false := by
    cases i with
    | char c => cases hi
    | file | line | column => rfl
  have hword (word : Option (List Item)) : (f.text i).foldl extend (word.map (latest f))
      = (some (i :: word.getD [])).map (latest f) := by
    rw [foldl_extend hne, Option.map_some, latest_cons]
    cases word <;> rfl
  cases pl with
  | plain =>
    refine ⟨i :: word.getD [], ?_, fun is => ?_⟩
    · rw [wordsFrom_plain h, hword]
      simp [Place.after, hchar]
    · simp [itemsFrom, Place.after, hchar, hgap]
  | singleQuotes =>
    refine ⟨i :: word.getD [], ?_, fun is => ?_⟩
    · rw [wordsFrom_singleQuotes h, hword]
      simp [Place.after, hchar]
    · simp [itemsFrom, Place.after, hchar]
  | doubleQuotes =>
    refine ⟨i :: word.getD [], ?_, fun is => ?_⟩
    · rw [wordsFrom_doubleQuotes h, hword]
      simp [Place.after, hchar]
    · simp [itemsFrom, Place.after, hchar]
  | escape =>
    refine ⟨i :: word.getD [], ?_, fun is => rfl⟩
    rw [← hword]
    obtain ⟨c, t, ht⟩ := List.exists_cons_of_ne_nil hne
    have hrest : ∀ c ∈ t, IsOrdinary c := by simpa [Place.Keeps, ht] using h
    rw [ht, List.cons_append, wordsFrom, wordsFrom_plain hrest]
    rfl
  | quotedEscape =>
    refine ⟨i :: .char '\\' :: word.getD [], ?_, fun is => ?_⟩
    · have hhead : ∃ d ∈ (f.text i ++ r).head?, d ≠ '"' ∧ d ≠ '\\' := by
        obtain ⟨d, hd, hne⟩ := h.1
        obtain ⟨t, ht⟩ := List.head?_eq_some_iff.1 hd
        exact ⟨d, by rw [ht]; rfl, hne⟩
      rw [wordsFrom_quotedEscape hhead, wordsFrom_doubleQuotes h.2, extend_map, hword]
      rfl
    · simp [itemsFrom, Place.after, hchar]

/-- A character of a template is read as it is in the filled template. -/
theorem exists_step_char (f : Filling) (word : Option (List Item)) (pl : Place) (c : Char) :
    ∃ before word',
      pl.step (word.map (latest f)) c = (before.map fun w => String.ofList (f.fill w), word'.map (latest f))
      ∧ ∀ is, itemsFrom word pl (.char c :: is)
        = (itemsFrom word' (pl.after (.char c)) is).map (before ++ ·) := by
  cases pl with
  | plain =>
    by_cases hgap : isGap c = true
    · refine ⟨(word.map List.reverse).toList, none, ?_, fun is => ?_⟩
      · rw [Place.step, if_pos hgap, finished_map, Option.map_none]
      · rw [Place.after_gap hgap, itemsFrom, isItemGap, if_pos hgap]
    · simp only [Place.step, itemsFrom, isItemGap, if_neg hgap, Place.after, Item.char.injEq]
      split_ifs
      · exact ⟨[], some (word.getD []), by rw [start_map, List.map_nil], fun is => (map_nil_append _).symm⟩
      · exact ⟨[], some (word.getD []), by rw [start_map, List.map_nil], fun is => (map_nil_append _).symm⟩
      · exact ⟨[], word, rfl, fun is => (map_nil_append _).symm⟩
      · exact ⟨[], _, by rw [extend_map, List.map_nil], fun is => (map_nil_append _).symm⟩
  | singleQuotes =>
    simp only [Place.step, itemsFrom, Place.after, Item.char.injEq]
    split_ifs
    · exact ⟨[], word, rfl, fun is => (map_nil_append _).symm⟩
    · exact ⟨[], _, by rw [extend_map, List.map_nil], fun is => (map_nil_append _).symm⟩
  | doubleQuotes =>
    simp only [Place.step, itemsFrom, Place.after, Item.char.injEq]
    split_ifs
    · exact ⟨[], word, rfl, fun is => (map_nil_append _).symm⟩
    · exact ⟨[], word, rfl, fun is => (map_nil_append _).symm⟩
    · exact ⟨[], _, by rw [extend_map, List.map_nil], fun is => (map_nil_append _).symm⟩
  | escape =>
    exact ⟨[], _, by rw [Place.step, extend_map, List.map_nil], fun is => (map_nil_append _).symm⟩
  | quotedEscape =>
    simp only [Place.step, itemsFrom, Place.after, Item.char.injEq]
    split_ifs
    · exact ⟨[], _, by rw [extend_map, List.map_nil], fun is => (map_nil_append _).symm⟩
    · refine ⟨[], some (.char c :: .char '\\' :: word.getD []), ?_, fun is => (map_nil_append _).symm⟩
      rw [extend_map, extend_map]
      rfl

/-- Reading a filled template is reading the template and filling its words. -/
theorem wordsFrom_fill (h : Kept f pl is) (word : Option (List Item)) :
    wordsFrom (word.map (latest f)) pl (f.fill is)
      = (itemsFrom word pl is).map (·.map fun w => String.ofList (f.fill w)) := by
  induction is generalizing word pl with
  | nil =>
    cases pl with
    | plain => exact congrArg Except.ok (finished_map f word)
    | singleQuotes | doubleQuotes | escape | quotedEscape => rfl
  | cons i is ih =>
    rw [Filling.fill_cons]
    cases hmark : i.isMark with
    | true =>
      obtain ⟨hne, hkeeps⟩ := h.head hmark
      obtain ⟨w, hwords, hitems⟩ := wordsFrom_mark hmark hne hkeeps word
      rw [hwords, hitems, ih h.tail]
    | false =>
      cases i with
      | file | line | column => cases hmark
      | char c =>
        obtain ⟨before, word', hstep, hitems⟩ := exists_step_char f word pl c
        rw [Filling.text, List.singleton_append, wordsFrom_cons, hstep, hitems, ih h.tail]
        cases itemsFrom word' (pl.after (.char c)) is with
        | error e => rfl
        | ok ws => exact congrArg Except.ok List.map_append.symm

end

/-! ## What words keep of a text -/

/-- How many characters of some kind are in words. -/
def total (P : Char → Bool) (ws : List String) : Nat := (ws.flatMap String.toList).countP P

/-- What a word is owed in a place: the backslash, if it turns out to escape nothing. -/
def owed (P : Char → Bool) : Place → Nat
  | .quotedEscape => ['\\'].countP P
  | _ => 0

section

variable {P : Char → Bool} {word : Option (List Char)} {pl : Place} {ws : List String} {r : List Char} {n : Nat}

theorem total_finished (P : Char → Bool) (word : Option (List Char)) :
    total P (finished word) = (word.getD []).countP P := by
  cases word <;> simp [total, finished]

theorem total_append (P : Char → Bool) (as bs : List String) :
    total P (as ++ bs) = total P as + total P bs := by
  simp [total]

theorem getD_start (word : Option (List Char)) : (start word).getD [] = word.getD [] := by
  cases word <;> rfl

theorem countP_extend (P : Char → Bool) (word : Option (List Char)) (c : Char) :
    ((extend word c).getD []).countP P = (word.getD []).countP P + [c].countP P := by
  rw [extend, Option.getD_some, ← List.singleton_append, List.countP_append, Nat.add_comm]

/-- What has been read and is still owed has no more characters of a kind than before. -/
theorem total_step_le (P : Char → Bool) (word : Option (List Char)) (pl : Place) (c : Char) :
    total P (pl.step word c).1 + ((pl.step word c).2.getD []).countP P + owed P (pl.after (.char c))
      ≤ (word.getD []).countP P + [c].countP P + owed P pl := by
  have hnone : total P [] = 0 := rfl
  cases pl with
  | plain =>
    by_cases hgap : isGap c = true
    · rw [Place.after_gap hgap, Place.step, if_pos hgap, total_finished]
      simp only [owed, Option.getD_none, List.countP_nil]
      omega
    · rw [Place.step, if_neg hgap]
      simp only [Place.after, Item.char.injEq]
      split_ifs <;> simp only [hnone, owed, getD_start, countP_extend] <;> omega
  | singleQuotes =>
    simp only [Place.step, Place.after, Item.char.injEq]
    split_ifs <;> simp only [hnone, owed, countP_extend] <;> omega
  | doubleQuotes =>
    simp only [Place.step, Place.after, Item.char.injEq]
    split_ifs with hquote hbackslash
    · simp only [hnone, owed]
      omega
    · subst hbackslash
      simp only [hnone, owed]
      omega
    · simp only [hnone, owed, countP_extend]
      omega
  | escape =>
    simp only [Place.step, Place.after, hnone, owed, countP_extend]
    omega
  | quotedEscape =>
    simp only [Place.step, Place.after]
    split_ifs <;> simp only [hnone, owed, countP_extend] <;> omega

/-- Words have no more characters of a kind than the text that they are read from. -/
theorem total_le (hr : ∀ word pl ws, wordsFrom word pl r = .ok ws →
      total P ws ≤ (word.getD []).countP P + n + owed P pl) {cs : List Char}
    (h : wordsFrom word pl (cs ++ r) = .ok ws) :
    total P ws ≤ (word.getD []).countP P + cs.countP P + n + owed P pl := by
  induction cs generalizing word pl ws with
  | nil => exact hr word pl ws h
  | cons c cs ih =>
    rw [List.cons_append, wordsFrom_cons] at h
    obtain ⟨rest, hrest, rfl⟩ := exists_of_map_eq_ok h
    have hstep := total_step_le P word pl c
    have hle := ih hrest
    rw [total_append, ← List.singleton_append, List.countP_append]
    omega

theorem total_le_of_wordsFrom {cs : List Char} (h : wordsFrom word pl cs = .ok ws) :
    total P ws ≤ (word.getD []).countP P + cs.countP P + owed P pl := by
  refine total_le (r := []) (n := 0) (fun word pl ws h => ?_) (by rwa [List.append_nil])
  cases pl with
  | plain =>
    obtain rfl := Except.ok.inj h
    rw [total_finished]
    omega
  | singleQuotes | doubleQuotes | escape | quotedEscape => cases h

/-- A double quote that ends a text ends a word, or it is escaped. -/
theorem eq_finished_of_quote (h : wordsFrom word pl ['"'] = .ok ws) (hpl : pl ≠ .escape) :
    ws = finished word := by
  cases pl with
  | doubleQuotes => exact (Except.ok.inj h).symm
  | escape => exact absurd rfl hpl
  | plain | singleQuotes | quotedEscape => cases h

/-- Behind a character that is no backslash, a double quote that ends a text is not kept. -/
theorem total_le_of_quote {cs : List Char} {d : Char} (hd : d ≠ '\\')
    (h : wordsFrom word pl (cs ++ [d, '"']) = .ok ws) : total (fun _ => true) ws
      ≤ (word.getD []).countP (fun _ => true) + cs.countP (fun _ => true) + 1 + owed (fun _ => true) pl := by
  refine total_le (fun word pl ws h => ?_) h
  rw [wordsFrom_cons] at h
  obtain ⟨rest, hrest, rfl⟩ := exists_of_map_eq_ok h
  have hstep := total_step_le (fun _ => true) word pl d
  have hone : [d].countP (fun _ => true) = 1 := rfl
  rw [total_append, eq_finished_of_quote hrest (Place.after_ne_escape hd pl), total_finished]
  omega

/-- Between double quotes a text that is not read as itself loses a character. -/
theorem total_lt_of_not_isQuotable {t b : List Char} {d e : Char} (hd : d ≠ '\\')
    (he : e ≠ '"' ∧ e ≠ '\\') (hb : (b ++ [d, '"']).head? = some e) (ht : ¬IsQuotable t [e])
    (h : wordsFrom word .doubleQuotes (t ++ (b ++ [d, '"'])) = .ok ws) : total (fun _ => true) ws
      < (word.getD []).countP (fun _ => true) + (t ++ b).countP (fun _ => true) + 1 := by
  have hone (c : Char) : [c].countP (fun _ => true) = 1 := rfl
  induction t generalizing word with
  | nil => exact absurd trivial ht
  | cons c t ih =>
    have hcons : (c :: t ++ b).countP (fun _ => true) = 1 + (t ++ b).countP (fun _ => true) := by
      rw [List.cons_append, List.countP_cons, if_pos rfl, Nat.add_comm]
    rw [List.cons_append, wordsFrom] at h
    rw [hcons]
    split_ifs at h with hquote hbackslash
    · have hle := total_le_of_quote hd (by rwa [List.append_assoc] : wordsFrom word .plain
        ((t ++ b) ++ [d, '"']) = .ok ws)
      simp only [owed] at hle
      omega
    · by_cases hescape : ∃ x ∈ (t ++ [e]).head?, x ≠ '"' ∧ x ≠ '\\'
      · have hrest : ¬IsQuotable t [e] := fun h => ht ⟨hquote, fun _ => hescape, h⟩
        have hhead : (t ++ (b ++ [d, '"'])).head? = (t ++ [e]).head? := by
          rw [List.head?_append, hb, List.head?_append, List.head?_cons]
        rw [wordsFrom_quotedEscape (hhead ▸ hescape)] at h
        have hlt := ih hrest h
        rw [countP_extend, hone] at hlt
        omega
      · cases t with
        | nil => exact absurd ⟨e, rfl, he⟩ hescape
        | cons x t =>
          have hx : x = '"' ∨ x = '\\' := by
            by_contra hx
            exact hescape ⟨x, rfl, not_or.1 hx⟩
          rw [List.cons_append, wordsFrom, if_pos hx] at h
          have hle := total_le_of_quote hd (by rwa [List.append_assoc] : wordsFrom (extend word x)
            .doubleQuotes ((t ++ b) ++ [d, '"']) = .ok ws)
          rw [countP_extend, hone] at hle
          rw [List.cons_append, List.countP_cons, if_pos rfl]
          simp only [owed] at hle
          omega
    · have hrest : ¬IsQuotable t [e] := fun h => ht ⟨hquote, fun hc => absurd hc hbackslash, h⟩
      have hlt := ih hrest h
      rw [countP_extend, hone] at hlt
      omega

theorem isQuotable_congr {t r r' : List Char} (h : r.head? = r'.head?) : IsQuotable t r ↔ IsQuotable t r' := by
  induction t with
  | nil => exact Iff.rfl
  | cons c t ih => simp only [IsQuotable, List.head?_append, h, ih]

/-- Between double quotes exactly a text that is read as itself is kept, and ordinary characters behind it
are. -/
theorem wordsFrom_quoted_iff {t b : List Char} {d : Char} (hb : ∀ c ∈ d :: b, IsOrdinary c) :
    wordsFrom (some []) .doubleQuotes (t ++ (d :: b ++ ['"'])) = .ok [String.ofList (t ++ d :: b)]
      ↔ IsQuotable t [d] := by
  constructor
  · refine fun h => by_contra fun hnot => ?_
    obtain ⟨a, e, ha⟩ : ∃ a e, d :: b = a ++ [e] :=
      ⟨_, _, (List.dropLast_append_getLast (List.cons_ne_nil d b)).symm⟩
    have he : e ≠ '\\' := (hb e (by rw [ha]; exact List.mem_append_right a List.mem_cons_self)).2.2.2
    have hd : IsOrdinary d := hb d List.mem_cons_self
    have hhead : (a ++ [e, '"']).head? = some d := by
      have hsplit : a ++ [e, '"'] = d :: b ++ ['"'] := by rw [ha, List.append_assoc]; rfl
      rw [hsplit]
      rfl
    rw [ha, List.append_assoc] at h
    have hlt := total_lt_of_not_isQuotable he hd.2.2 hhead hnot h
    have hone : [e].countP (fun _ => true) = 1 := rfl
    simp only [total, List.flatMap_singleton, String.toList_ofList, Option.getD_some, List.countP_nil,
      List.countP_append] at hlt
    omega
  · intro h
    have hhead : [d].head? = (d :: b ++ ['"']).head? := rfl
    have hword : (d :: b).foldl extend (t.foldl extend (some [])) = some (t ++ d :: b).reverse := by
      rw [← List.foldl_append, foldl_extend (by simp), Option.getD_some, List.append_nil]
    have hend (w : List Char) : wordsFrom (some w) .doubleQuotes ['"'] = .ok [String.ofList w.reverse] := rfl
    rw [wordsFrom_doubleQuotes ((isQuotable_congr hhead).1 h),
      wordsFrom_doubleQuotes (isQuotable_of_ordinary hb _), hword, hend, List.reverse_reverse]

end

end ShaderGraph.CommandLine

namespace ShaderGraph.EditorSettings

open CommandLine Text

/-! ## Commands -/

/-- No word of a template has a placeholder that is none of the template, put together by quotes. -/
def IsWhole (template : String) : Prop :=
  ∀ ws, itemsFrom none .plain (mark template.toList) = .ok ws → ∀ w ∈ ws, mark (Filling.names.fill w) = w

/-- A word of a template with its placeholders replaced. -/
def substitute (e : LocatedError) (word : String) : String :=
  String.ofList ((Filling.values e).fill (mark word.toList))

/-- The file of an error does not meet the placeholders that are replaced after it, and is read as
itself wherever it stands in a template. -/
structure FitsIn (e : LocatedError) (template : String) : Prop where
  apart : Apart Filling.names.line (Filling.values e).file
    ∧ Apart Filling.names.column (Filling.values e).file
  kept : ∀ before after, mark template.toList = before ++ .file :: after →
    (before.foldl Place.after .plain).Keeps (Filling.values e).file ((Filling.values e).fill after)

theorem isOrdinary_of_isDigit {c : Char} (h : c.isDigit = true) : IsOrdinary c := by
  have hne (d : Char) (hd : d.isDigit = false) : c ≠ d := by
    rintro rfl
    cases h.symm.trans hd
  refine ⟨?_, hne _ rfl, hne _ rfl, hne _ rfl⟩
  simp [isGap, hne ' ' rfl, hne '\t' rfl, hne '\r' rfl, hne '\n' rfl]

theorem isDigit_of_mem_toString {n : Nat} : ∀ c ∈ (toString n).toList, c.isDigit = true := by
  intro c hc
  rw [Nat.toString_eq_repr, Nat.toList_repr] at hc
  exact Nat.isDigit_of_mem_toDigits (by decide) (by decide) hc

theorem toString_nat_ne_nil (n : Nat) : (toString n).toList ≠ [] := by
  rw [Nat.toString_eq_repr, Nat.toList_repr]
  exact Nat.toDigits_ne_nil

theorem not_meets_number {n : Nat} {k : List Char} (hk : k ≠ []) (h : ∀ c ∈ k, c.isDigit = false) :
    ¬Meets (toString n).toList k := by
  refine not_meets_of_disjoint (fun c hc hck => ?_) hk
  cases (isDigit_of_mem_toString c hc).symm.trans (h c hck)

/-- A text with a slash and no percent sign in it is apart from every name between percent signs. -/
theorem apart_of_percent {t k : List Char} (hpercent : '%' ∉ t) (hslash : '/' ∈ t)
    (hk : ∃ name, k = '%' :: name ++ ['%']) (hkslash : '/' ∉ k) : Apart k t := by
  obtain ⟨name, rfl⟩ := hk
  refine ⟨List.ne_nil_of_mem hslash, ?_, ?_⟩
  · rintro ⟨s, hs, hne, hbegins | hbegins⟩
    · obtain hnil | ⟨b, rfl, -⟩ := List.suffix_concat_iff.1 ((List.mem_tails _ _).1 hs)
      · exact hne hnil
      · exact hpercent (hbegins.subset (List.mem_append_right b List.mem_cons_self))
    · exact hkslash (((List.mem_tails _ _).1 hs).subset (hbegins.subset hslash))
  · rintro ⟨s, hs, hne, hbegins | hbegins⟩
    · obtain ⟨c, s, rfl⟩ := List.exists_cons_of_ne_nil hne
      obtain rfl := (List.cons_prefix_cons.1 hbegins).1
      exact hpercent (((List.mem_tails _ _).1 hs).subset List.mem_cons_self)
    · exact hpercent (((List.mem_tails _ _).1 hs).subset (hbegins.subset List.mem_cons_self))

theorem apart_number (n : Nat) : Apart Filling.names.column (toString n).toList := by
  refine apart_of_disjoint (by decide) (toString_nat_ne_nil n) fun c hc hck => ?_
  have hname : ∀ c ∈ Filling.names.column, c.isDigit = false := by decide
  cases (isDigit_of_mem_toString c hc).symm.trans (hname c hck)

theorem toList_argumentsFor (s : EditorSettings) (e : LocatedError) :
    (s.argumentsFor e).toList = (Filling.values e).replaceAll s.arguments.toList := by
  simp only [argumentsFor, replace, String.toList_ofList]
  rfl

section

variable {s : EditorSettings} {e : LocatedError} {tokens : List String}

/-- Numbers are read as themselves everywhere, so files alone decide. -/
theorem FitsIn.kept_values {template : String} (h : FitsIn e template) :
    Kept (Filling.values e) .plain (mark template.toList) := by
  have hnumber (n : Nat) (pl : Place) (r : List Char) : pl.Keeps (toString n).toList r :=
    Place.keeps_of_ordinary (toString_nat_ne_nil n)
      (fun c hc => isOrdinary_of_isDigit (isDigit_of_mem_toString c hc)) pl r
  intro before i after htemplate hi
  cases i with
  | char c => cases hi
  | file => exact ⟨h.apart.1.1, h.kept before after htemplate⟩
  | line => exact ⟨toString_nat_ne_nil _, hnumber _ _ _⟩
  | column => exact ⟨toString_nat_ne_nil _, hnumber _ _ _⟩

/-- A file of ordinary characters fits in every template, if it is below some directory and has no percent
sign in it. -/
theorem fitsIn_of_ordinary {template : String} (h : ∀ c ∈ e.file.toText.toList, IsOrdinary c ∧ c ≠ '%')
    (hslash : '/' ∈ e.file.toText.toList) : FitsIn e template := by
  have hpercent : '%' ∉ e.file.toText.toList := fun hmem => (h _ hmem).2 rfl
  exact ⟨⟨apart_of_percent hpercent hslash ⟨"LINE".toList, rfl⟩ (by decide),
      apart_of_percent hpercent hslash ⟨"CHAR".toList, rfl⟩ (by decide)⟩,
    fun _ _ _ => Place.keeps_of_ordinary (List.ne_nil_of_mem hslash) (fun c hc => (h c hc).1) _ _⟩

instance (c : Char) : Decidable (IsOrdinary c) :=
  inferInstanceAs (Decidable (isGap c = false ∧ c ≠ '\'' ∧ c ≠ '"' ∧ c ≠ '\\'))

theorem ordinary_name {i : Item} (hi : i.isMark = true) :
    Filling.names.text i ≠ [] ∧ ∀ c ∈ Filling.names.text i, IsOrdinary c := by
  cases i with
  | char c => cases hi
  | file | line | column => decide

theorem kept_names (pl : Place) (is : List Item) : Kept Filling.names pl is := fun _ _ _ _ hi =>
  ⟨(ordinary_name hi).1, Place.keeps_of_ordinary (ordinary_name hi).1 (ordinary_name hi).2 _ _⟩

/-- The words of the arguments are those of the template with their placeholders replaced. -/
theorem words_argumentsFor (htokens : words s.arguments = .ok tokens) (hwhole : IsWhole s.arguments)
    (hfits : FitsIn e s.arguments) : words (s.argumentsFor e) = .ok (tokens.map (substitute e)) := by
  have hnames := wordsFrom_fill (kept_names .plain (mark s.arguments.toList)) none
  have hvalues := wordsFrom_fill hfits.kept_values none
  rw [Option.map_none, fill_names_mark] at hnames
  rw [Option.map_none, ← Filling.replaceAll_eq hfits.apart (apart_number _), ← toList_argumentsFor] at hvalues
  obtain ⟨ws, hws, rfl⟩ := exists_of_map_eq_ok (hnames.symm.trans htokens)
  rw [hws] at hvalues
  refine hvalues.trans (congrArg Except.ok ?_)
  rw [List.map_map]
  refine List.map_congr_left fun w hw => ?_
  rw [Function.comp_apply, substitute, String.toList_ofList, hwhole ws hws w hw]

end

/-! ## The default template -/

section

variable {s : EditorSettings} {e : LocatedError} {p : List Char}

/-- The default template with texts put in one after the other. -/
theorem replaceAll_default (f : Filling) (hline : ¬Meets f.line Filling.names.column) :
    f.replaceAll ({} : EditorSettings).arguments.toList = "-g ".toList ++ '"' ::
      (replaceChars Filling.names.column f.column (replaceChars Filling.names.line f.line f.file)
        ++ ':' :: (f.line ++ ':' :: (f.column ++ ['"']))) := by
  have hfile : replaceChars Filling.names.file f.file ({} : EditorSettings).arguments.toList
      = "-g ".toList ++ '"' :: (f.file ++ ':' :: "%LINE%:%CHAR%\"".toList) := rfl
  have hlines : replaceChars Filling.names.line f.line "%LINE%:%CHAR%\"".toList
      = f.line ++ ':' :: "%CHAR%\"".toList := rfl
  have hcolumns : replaceChars Filling.names.column f.column (f.line ++ ':' :: "%CHAR%\"".toList)
      = f.line ++ ':' :: (f.column ++ ['"']) := replaceFrom_append hline _ _
  -- neither a double quote nor a colon is in a placeholder
  have hparts (k q x r : List Char) (hk : k ≠ [] ∧ '"' ∉ k ∧ ':' ∉ k)
      (hstart : replaceChars k q "-g ".toList = "-g ".toList) :
      replaceChars k q ("-g ".toList ++ '"' :: (x ++ ':' :: r))
        = "-g ".toList ++ '"' :: (replaceChars k q x ++ ':' :: replaceChars k q r) := by
    unfold replaceChars at hstart ⊢
    rw [replaceFrom_append_cons hk.2.1 hk.1 q (Nat.zero_le _), hstart,
      replaceFrom_append_cons hk.2.2 hk.1 q (Nat.zero_le _)]
  rw [Filling.replaceAll, hfile, hparts _ _ _ _ (by decide) rfl, hlines, hparts _ _ _ _ (by decide) rfl,
    hcolumns]

/-- Between the double quotes of the default template stand the file, the line and the column. -/
theorem words_default (hs : s.arguments = ({} : EditorSettings).arguments) :
    words (s.argumentsFor e) = (wordsFrom (some []) .doubleQuotes
      (replaceChars Filling.names.column (Filling.values e).column
          (replaceChars Filling.names.line (Filling.values e).line (Filling.values e).file)
        ++ ':' :: ((Filling.values e).line ++ ':' :: ((Filling.values e).column ++ ['"'])))).map
          ("-g" :: ·) := by
  have hname : ∀ c ∈ Filling.names.column, c.isDigit = false := by decide
  rw [CommandLine.words, toList_argumentsFor, hs, replaceAll_default _ (not_meets_number (by decide) hname)]
  rfl

theorem substitute_default (e : LocatedError) : ["-g", "%FILE%:%LINE%:%CHAR%"].map (substitute e)
    = ["-g", String.ofList ((Filling.values e).file ++ ':' :: ((Filling.values e).line ++ ':' ::
        (Filling.values e).column))] := by
  have hmark : mark "%FILE%:%LINE%:%CHAR%".toList = [.file, .char ':', .line, .char ':', .column] := by decide
  have hplain : mark "-g".toList = [.char '-', .char 'g'] := by decide
  rw [List.map_cons, List.map_singleton, substitute, substitute, hmark, hplain]
  simp [Filling.text]

/-- If no percent sign is lost, no placeholder was there. -/
theorem not_occurs_of_count_le {q q' : List Char} (hq : '%' ∉ q) (hq' : '%' ∉ q')
    (h : p.count '%' ≤ (replaceChars Filling.names.column q'
      (replaceChars Filling.names.line q p)).count '%') :
    ¬Filling.names.line <:+: p ∧ ¬Filling.names.column <:+: p := by
  unfold replaceChars at h
  by_cases hline : Filling.names.line <:+: p
  · have hlt := count_replaceFrom_lt (by decide) hq hline
    have hle := count_replaceFrom_le (k := Filling.names.column) hq'
      (replaceFrom Filling.names.line q 0 p) 0
    rw [List.drop_zero] at hle
    omega
  · rw [replaceFrom_eq_self hline] at h
    refine ⟨hline, fun hcolumn => ?_⟩
    have hlt := count_replaceFrom_lt (by decide) hq' hcolumn
    omega

/-- The words of the default template with its placeholders replaced are those of the command exactly
if the file is read as itself between double quotes and has no later placeholder in it. -/
theorem words_default_iff (hs : s.arguments = ({} : EditorSettings).arguments) :
    words (s.argumentsFor e) = .ok (["-g", "%FILE%:%LINE%:%CHAR%"].map (substitute e))
      ↔ IsQuotable (Filling.values e).file [':'] ∧ ¬Filling.names.line <:+: (Filling.values e).file
        ∧ ¬Filling.names.column <:+: (Filling.values e).file := by
  rw [words_default hs, substitute_default]
  generalize hp : (Filling.values e).file = p
  generalize hl : (Filling.values e).line = l
  generalize hc : (Filling.values e).column = c
  have hdigits (n : Nat) : '%' ∉ (toString n).toList := fun h =>
    absurd (isDigit_of_mem_toString _ h) (by decide)
  have hpercent : '%' ∉ l ∧ '%' ∉ c := ⟨hl ▸ hdigits _, hc ▸ hdigits _⟩
  have hordinary : ∀ x ∈ ':' :: (l ++ ':' :: c), IsOrdinary x := by
    have hnumber (n : Nat) : ∀ x ∈ (toString n).toList, IsOrdinary x := fun x hx =>
      isOrdinary_of_isDigit (isDigit_of_mem_toString x hx)
    rw [List.forall_mem_cons, List.forall_mem_append, List.forall_mem_cons, ← hl, ← hc]
    exact ⟨by decide, hnumber _, by decide, hnumber _⟩
  have htail : ':' :: (l ++ ':' :: (c ++ ['"'])) = ':' :: (l ++ ':' :: c) ++ ['"'] := by simp
  have hquoted := wordsFrom_quoted_iff (t := p) hordinary
  have hsame (hline : ¬Filling.names.line <:+: p) (hcolumn : ¬Filling.names.column <:+: p) :
      replaceChars Filling.names.column c (replaceChars Filling.names.line l p) = p := by
    unfold replaceChars
    rw [replaceFrom_eq_self hline, replaceFrom_eq_self hcolumn]
  rw [htail]
  constructor
  · intro h
    obtain ⟨ws, hws, heq⟩ := exists_of_map_eq_ok h
    obtain rfl := (List.cons.inj heq).2
    -- a placeholder in the file would be replaced, and its percent signs lost
    have hcount := total_le_of_wordsFrom (P := (· == '%')) hws
    have hquote : ['"'].countP (· == '%') = 0 := rfl
    simp only [total, List.flatMap_singleton, String.toList_ofList, owed, Option.getD_some,
      List.countP_nil, List.countP_append] at hcount
    have hnone := not_occurs_of_count_le (p := p) hpercent.1 hpercent.2 (by
      simp only [List.count]
      omega)
    rw [hsame hnone.1 hnone.2] at hws
    exact ⟨hquoted.1 hws, hnone⟩
  · rintro ⟨hquotable, hline, hcolumn⟩
    rw [hsame hline hcolumn, hquoted.2 hquotable]
    rfl

theorem isWhole_default : IsWhole ({} : EditorSettings).arguments := by
  have hwords : itemsFrom none .plain (mark ({} : EditorSettings).arguments.toList)
      = .ok [[.char '-', .char 'g'], [.file, .char ':', .line, .char ':', .column]] := by decide +kernel
  intro ws hws
  obtain rfl := Except.ok.inj (hwords.symm.trans hws)
  decide

theorem words_default_template :
    words ({} : EditorSettings).arguments = .ok ["-g", "%FILE%:%LINE%:%CHAR%"] := by
  decide +kernel

theorem run_command (s : EditorSettings) (e : LocatedError) (value? : String → Id (Option String)) :
    (s.command value? e).run
      = (words (s.argumentsFor e)).map ((Variables.expand value? s.path).run :: ·) := rfl

/-- The executable stands before the words, whatever they are. -/
theorem run_command_eq_ok_iff (value? : String → Id (Option String)) :
    (s.command value? e).run = .ok ((Variables.expand value? s.path).run :: tokens)
      ↔ words (s.argumentsFor e) = .ok tokens := by
  rw [run_command]
  constructor
  · intro h
    obtain ⟨ws, hws, heq⟩ := exists_of_map_eq_ok h
    rw [hws, (List.cons.inj heq).2]
  · intro h
    rw [h]
    rfl

/-- For every template that splits into words, the command is the executable and these words with the
placeholders replaced, if the template is whole and the file fits in. For the default template, which is
whole, it is so exactly if the file is read as itself between double quotes and has no later placeholder
in it. -/
theorem command_eq (s : EditorSettings) (e : LocatedError) {tokens : List String}
    (htokens : words s.arguments = .ok tokens) :
    (IsWhole s.arguments → FitsIn e s.arguments → ∀ {m : Type → Type} [Monad m]
        (value? : String → m (Option String)), s.command value? e
          = do return .ok ((← Variables.expand value? s.path) :: tokens.map (substitute e)))
      ∧ (s.arguments = ({} : EditorSettings).arguments → IsWhole s.arguments ∧
        ∀ value? : String → Id (Option String),
          (s.command value? e).run
              = .ok ((Variables.expand value? s.path).run :: tokens.map (substitute e))
            ↔ IsQuotable e.file.toText.toList [':'] ∧ ¬"%LINE%".toList <:+: e.file.toText.toList
              ∧ ¬"%CHAR%".toList <:+: e.file.toText.toList) := by
  refine ⟨fun hwhole hfits m _ value? => ?_, fun hs => ⟨hs ▸ isWhole_default, fun value? => ?_⟩⟩
  · rw [command, words_argumentsFor htokens hwhole hfits]
    rfl
  · have hdefault : tokens = ["-g", "%FILE%:%LINE%:%CHAR%"] :=
      (Except.ok.inj (words_default_template.symm.trans (hs ▸ htokens))).symm
    rw [run_command_eq_ok_iff, hdefault, words_default_iff hs]
    exact Iff.rfl

end

end ShaderGraph.EditorSettings

/-! ## Files with blanks and quotes in their names -/

namespace ShaderGraph.NamedFile

open EditorSettings CommandLine

def settings : EditorSettings := { path := "code" }

def located (file : String) : LocatedError :=
  { before := "", path := "lib.hlsl", file := .ofString file, line := 3, first := some 7 }

def noValue? (_ : String) : Id (Option String) := none

theorem run_expand : (Variables.expand noValue? settings.path).run = "code" := by
  decide +kernel

/-- A file with an ordinary name fits in the default template, and one with blanks in its name is kept
together by its quotes. -/
theorem command_eq_of_blank :
    FitsIn (located "/p/lib.hlsl") settings.arguments
      ∧ (settings.command noValue? (located "/p/lib.hlsl")).run = .ok ["code", "-g", "/p/lib.hlsl:3:7"]
      ∧ (settings.command noValue? (located "/p/a b.hlsl")).run = .ok ["code", "-g", "/p/a b.hlsl:3:7"] := by
  have hfits : FitsIn (located "/p/lib.hlsl") settings.arguments :=
    fitsIn_of_ordinary (by decide +kernel) (by decide +kernel)
  have hplain := (command_eq settings (located "/p/lib.hlsl") words_default_template).1
    isWhole_default hfits noValue?
  have hblank := (((command_eq settings (located "/p/a b.hlsl") words_default_template).2 rfl).2 noValue?).2
    (by decide +kernel)
  refine ⟨hfits, ?_, ?_⟩
  · rw [hplain, Id.run_bind, run_expand]
    decide +kernel
  · rw [hblank, run_expand]
    decide +kernel

/-- The words of the command are not always those of the template with its placeholders replaced: a
double quote in the name of the file ends the quotes of the template. -/
theorem not_forall_command_eq : ¬∀ (s : EditorSettings) (e : LocatedError) (tokens : List String)
    (value? : String → Id (Option String)), words s.arguments = .ok tokens →
    (s.command value? e).run
      = .ok ((Variables.expand value? s.path).run :: tokens.map (substitute e)) := by
  intro hall
  have hcommand := hall settings (located "/p/a\"b.hlsl") _ noValue? words_default_template
  rw [run_command_eq_ok_iff, words_default_iff (s := settings) rfl] at hcommand
  exact absurd hcommand.1 (by decide +kernel)

end ShaderGraph.NamedFile
