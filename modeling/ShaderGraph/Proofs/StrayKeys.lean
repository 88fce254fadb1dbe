import ShaderGraph.Proofs.Boundaries
import ShaderGraph.Proofs.DefaultBlanks
import ShaderGraph.Proofs.WrittenEntries

/-!
# Keys that are no heads

The commas outside of double quotes part a text of metadata into pieces, each of which is meant to be
an entry. A piece that is none is not left out: it is searched for an entry from one character to the
next, in quotes too, so that a word in the middle of a value may be found as a key. The keys are the
first words of the pieces, but for these strays, and there are none exactly if each piece is an entry
or has none in it (`keys_lead_iff_strays`).
-/

namespace ShaderGraph.Metadata

open Text

/-! ## Entries where they stand -/

/-- Behind an entry there is a comma, or nothing. -/
def EndsEntry (r : List Char) : Prop := ∀ c ∈ r.head?, c = ','

/-- An entry stands at the head of a text. -/
def StartsEntry (cs : List Char) : Prop :=
  ∃ (e : WrittenEntry) (r : List Char), e.WellFormed ∧ e.before = [] ∧ EndsEntry r ∧ cs = e.render ++ r

section

variable {cs r : List Char}

theorem exists_entryEnd? (hr : EndsEntry r) : ∃ r', entryEnd? r = some r' := by
  cases r with
  | nil => exact ⟨[], rfl⟩
  | cons c r =>
    obtain rfl : c = ',' := hr c rfl
    exact ⟨r, rfl⟩

theorem exists_of_entryEnd? {r' : List Char} (h : entryEnd? cs = some r') : ∃ after r : List Char,
    (∀ c ∈ after, isBlank c = true) ∧ cs = after ++ r ∧ (r = [] ∧ r' = [] ∨ r = ',' :: r') :=
  ⟨cs.takeWhile isBlank, dropBlanks cs, fun _ => List.mem_takeWhile_imp,
    List.takeWhile_append_dropWhile.symm, dropBlanks_of_entryEnd? h⟩

theorem exists_of_quoted? {text : List Char} (h : quoted? cs = some (text, r)) :
    '"' ∉ text ∧ cs = '"' :: (text ++ '"' :: r) := by
  unfold quoted? at h
  split at h
  · rename_i cs
    split at h
    · rename_i r' hr'
      obtain ⟨rfl, rfl⟩ := Prod.mk.inj (Option.some.inj h)
      have hall : ∀ c ∈ cs.takeWhile (· != '"'), (c != '"') = true := fun _ => List.mem_takeWhile_imp
      refine ⟨fun hmem => ?_, ?_⟩
      · simpa using hall _ hmem
      · rw [← hr', List.takeWhile_append_dropWhile]
    · cases h
  · cases h

theorem exists_of_word? {w : List Char} (h : word? cs = some (w, r)) : IsOneWord w ∧ cs = w ++ r := by
  obtain ⟨hne, rfl, rfl⟩ := word?_eq_some_iff.1 h
  exact ⟨⟨hne, fun _ => List.mem_takeWhile_imp⟩, List.takeWhile_append_dropWhile.symm⟩

theorem exists_of_readRest? {value r' : List Char} (h : readRest? cs = some (value, r')) :
    ∃ (afterKey : List Char) (v : EntryValue) (after r : List Char),
      (∀ c ∈ afterKey ++ after, isBlank c = true) ∧ v.WellFormed ∧ v.content = value
        ∧ cs = afterKey ++ (v.render ++ (after ++ r)) ∧ (r = [] ∧ r' = [] ∨ r = ',' :: r') := by
  have hblanks (cs : List Char) : cs = cs.takeWhile isBlank ++ dropBlanks cs :=
    List.takeWhile_append_dropWhile.symm
  have hall (cs : List Char) : ∀ c ∈ cs.takeWhile isBlank, isBlank c = true :=
    fun _ => List.mem_takeWhile_imp
  unfold readRest? at h
  split at h
  · rename_i r₁ hr₁
    split at h
    · rename_i value' r₂ hread
      obtain ⟨r₃, hend, heq⟩ := Option.map_eq_some_iff.1 h
      obtain ⟨rfl, rfl⟩ := Prod.mk.inj heq
      obtain ⟨after, r, hafter, rfl, hr⟩ := exists_of_entryEnd? hend
      have hvalue : ∃ v : EntryValue, v.WellFormed ∧ v.content = value'
          ∧ '=' :: r₁ = v.render ++ (after ++ r) := by
        unfold readValue? at hread
        split at hread
        · rename_i found hquoted
          obtain rfl := Option.some.inj hread
          obtain ⟨hquote, htext⟩ := exists_of_quoted? hquoted
          refine ⟨.quoted (r₁.takeWhile isBlank) value', ⟨hall r₁, hquote⟩, rfl, ?_⟩
          simp only [EntryValue.render, List.cons_append, List.append_assoc, List.nil_append]
          rw [← htext, ← hblanks]
        · obtain ⟨hword, htext⟩ := exists_of_word? hread
          refine ⟨.word (r₁.takeWhile isBlank) value', ⟨hall r₁, hword⟩, rfl, ?_⟩
          simp only [EntryValue.render, List.cons_append, List.append_assoc]
          rw [← htext, ← hblanks]
      obtain ⟨v, hv, hcontent, htext⟩ := hvalue
      refine ⟨cs.takeWhile isBlank, v, after, r, ?_, hv, hcontent, ?_, hr⟩
      · exact List.forall_mem_append.2 ⟨hall cs, hafter⟩
      · rw [← htext, ← hr₁, ← hblanks]
    · cases h
  · obtain ⟨r₃, hend, heq⟩ := Option.map_eq_some_iff.1 h
    obtain ⟨rfl, rfl⟩ := Prod.mk.inj heq
    obtain ⟨after, r, hafter, hrest, hr⟩ := exists_of_entryEnd? hend
    refine ⟨cs.takeWhile isBlank, .flag, after, r, ?_, trivial, rfl, ?_, hr⟩
    · exact List.forall_mem_append.2 ⟨hall cs, hafter⟩
    · rw [EntryValue.render, List.nil_append, ← hrest, ← hblanks]

/-- What is read as an entry is written as one. -/
theorem exists_written_of_entryAt? {p : String × String} {r' : List Char}
    (h : entryAt? cs = some (p, r')) : ∃ (e : WrittenEntry) (r : List Char), e.WellFormed ∧ e.before = []
      ∧ e.pair = p ∧ cs = e.render ++ r ∧ (r = [] ∧ r' = [] ∨ r = ',' :: r') := by
  unfold entryAt? at h
  split at h
  · cases h
  · rename_i key r₁ hkey
    split at h
    · rename_i value r₂ hrest
      obtain ⟨rfl, rfl⟩ := Prod.mk.inj (Option.some.inj h)
      obtain ⟨hword, rfl⟩ := exists_of_word? hkey
      obtain ⟨afterKey, v, after, r, hblanks, hv, rfl, rfl, hr⟩ := exists_of_readRest? hrest
      exact ⟨{ key, afterKey, value := v, after }, r, ⟨by simpa using hblanks, hword, hv⟩, rfl, rfl,
        by simp [WrittenEntry.render], hr⟩
    · cases h

theorem entryAt?_render {e : WrittenEntry} (he : e.WellFormed) (hbefore : e.before = []) {r' : List Char}
    (hr : entryEnd? r = some r') : entryAt? (e.render ++ r) = some (e.pair, r') := by
  have hblanks := he.blanks
  simp only [List.forall_mem_append] at hblanks
  obtain ⟨⟨-, hkey⟩, hafter⟩ := hblanks
  have hend : entryEnd? (e.after ++ r) = some r' := (entryEnd?_append hafter r).trans hr
  have hword : AfterWord (e.afterKey ++ (e.value.render ++ (e.after ++ r))) :=
    .append_blanks hkey (EntryValue.afterWord_render (.append_blanks hafter (afterWord_of_entryEnd? hr)))
  rw [WrittenEntry.render, hbefore, List.nil_append]
  simp only [List.append_assoc]
  rw [entryAt?, word?_append he.key hword]
  simp only [readRest?_append hkey, he.value.readRest? hend]
  rfl

theorem isSome_entryAt?_iff : (entryAt? cs).isSome = true ↔ StartsEntry cs := by
  constructor
  · intro h
    obtain ⟨⟨p, r'⟩, hp⟩ := Option.isSome_iff_exists.1 h
    obtain ⟨e, r, he, hbefore, -, rfl, hr⟩ := exists_written_of_entryAt? hp
    refine ⟨e, r, he, hbefore, ?_, rfl⟩
    rcases hr with ⟨rfl, -⟩ | rfl
    · exact nofun
    · intro c hc
      exact (Option.some.inj hc).symm
  · rintro ⟨e, r, he, hbefore, hr, rfl⟩
    obtain ⟨r', hend⟩ := exists_entryEnd? hr
    rw [entryAt?_render he hbefore hend]
    rfl

theorem entryAt?_eq_none_iff : entryAt? cs = none ↔ ¬StartsEntry cs := by
  rw [← isSome_entryAt?_iff, Bool.not_eq_true, Option.isSome_eq_false_iff, Option.isNone_iff_eq_none]

end

/-! ## Pieces -/

/-- The text up to the first comma outside of double quotes, `quoted` telling whether it begins in
quotes. -/
def piece (quoted : Bool) : List Char → List Char
  | [] => []
  | c :: cs => if c = ',' ∧ quoted = false then [] else c :: piece (quoted != (c == '"')) cs

/-- The text from the first comma outside of double quotes on. -/
def behind (quoted : Bool) : List Char → List Char
  | [] => []
  | c :: cs => if c = ',' ∧ quoted = false then c :: cs else behind (quoted != (c == '"')) cs

/-- What follows each of the commas outside of double quotes. -/
def behindCommas (quoted : Bool) : List Char → List (List Char)
  | [] => []
  | c :: cs =>
    if c = ',' ∧ quoted = false then cs :: behindCommas false cs
    else behindCommas (quoted != (c == '"')) cs

/-- Where the pieces of a text begin, each given by the text from there on. -/
def starts (cs : List Char) : List (List Char) := cs :: behindCommas false cs

/-- The pieces of a text between the commas outside of double quotes. -/
def pieces (cs : List Char) : List (List Char) := (starts cs).map (piece false)

/-- The first word of a piece without the blanks around it, empty if it begins with another sign. -/
def firstWord (cs : List Char) : List Char := (trimChars cs).takeWhile isWord

def firstWords (cs : List Char) : List (List Char) := (pieces cs).map firstWord

/-- The heads of the pieces, each given by the text from there on. -/
def heads (cs : List Char) : List (List Char) := (starts cs).map dropBlanks

section

variable {quoted : Bool} {cs r : List Char}

theorem piece_append_behind (quoted : Bool) (cs : List Char) :
    piece quoted cs ++ behind quoted cs = cs := by
  induction cs generalizing quoted with
  | nil => rfl
  | cons c cs ih =>
    unfold piece behind
    split_ifs
    · rfl
    · rw [List.cons_append, ih]

theorem endsEntry_behind (quoted : Bool) (cs : List Char) : EndsEntry (behind quoted cs) := by
  induction cs generalizing quoted with
  | nil => exact nofun
  | cons c cs ih =>
    unfold behind
    split_ifs with hcomma
    · intro d hd
      exact (Option.some.inj hd).symm.trans hcomma.1
    · exact ih _

theorem behindCommas_behind (quoted : Bool) (cs : List Char) :
    behindCommas false (behind quoted cs) = behindCommas quoted cs := by
  induction cs generalizing quoted with
  | nil => rfl
  | cons c cs ih =>
    unfold behind
    split_ifs with hcomma
    · obtain ⟨rfl, rfl⟩ := hcomma
      rfl
    · rw [ih, behindCommas, if_neg hcomma]

theorem suffix_of_mem_behindCommas {s : List Char} (h : s ∈ behindCommas quoted cs) :
    s <:+ cs ∧ s.length < cs.length := by
  induction cs generalizing quoted with
  | nil => cases h
  | cons c cs ih =>
    unfold behindCommas at h
    have hstep : s = cs ∨ s <:+ cs ∧ s.length < cs.length := by
      split_ifs at h
      · exact (List.mem_cons.1 h).imp_right fun h => ih h
      · exact .inr (ih h)
    rcases hstep with rfl | ⟨hsuffix, hlength⟩
    · exact ⟨List.suffix_cons c s, by simp⟩
    · exact ⟨hsuffix.trans (List.suffix_cons c cs), by simp only [List.length_cons]; omega⟩

/-- Characters that are neither commas nor quotes end no piece. -/
theorem behind_append {a : List Char} (ha : ∀ c ∈ a, c ≠ ',' ∧ c ≠ '"') (quoted : Bool) (r : List Char) :
    behind quoted (a ++ r) = behind quoted r := by
  induction a with
  | nil => rfl
  | cons c a ih =>
    obtain ⟨⟨hcomma, hquote⟩, ha⟩ := List.forall_mem_cons.1 ha
    rw [List.cons_append, behind, if_neg fun h => hcomma h.1, beq_eq_false_iff_ne.2 hquote,
      Bool.bne_false, ih ha]

theorem behind_quoted {text : List Char} (htext : '"' ∉ text) (r : List Char) :
    behind false ('"' :: (text ++ '"' :: r)) = behind false r := by
  have hinside : ∀ text : List Char, '"' ∉ text → behind true (text ++ '"' :: r) = behind false r := by
    intro text htext
    induction text with
    | nil => rfl
    | cons c text ih =>
      rw [List.mem_cons, not_or] at htext
      obtain ⟨hc, htext⟩ := htext
      rw [List.cons_append, behind, if_neg (by simp), beq_eq_false_iff_ne.2 (Ne.symm hc),
        Bool.bne_false, ih htext]
  exact hinside text htext

theorem plain_of_isBlank {a : List Char} (ha : ∀ c ∈ a, isBlank c = true) : ∀ c ∈ a, c ≠ ',' ∧ c ≠ '"' := by
  intro c hc
  have hblank := ha c hc
  constructor <;> rintro rfl <;> cases hblank

theorem plain_of_isWord {a : List Char} (ha : ∀ c ∈ a, isWord c = true) : ∀ c ∈ a, c ≠ ',' ∧ c ≠ '"' := by
  intro c hc
  have hword := ha c hc
  constructor
  · rintro rfl
    exact absurd hword (by decide)
  · rintro rfl
    exact absurd hword (by decide)

theorem behind_of_endsEntry (h : EndsEntry r) : behind false r = r := by
  cases r with
  | nil => rfl
  | cons c r =>
    obtain rfl : c = ',' := h c rfl
    rfl

/-- An entry is a piece. -/
theorem behind_render {e : WrittenEntry} (he : e.WellFormed) (hr : EndsEntry r) :
    behind false (e.render ++ r) = r := by
  have hblanks := he.blanks
  simp only [List.forall_mem_append] at hblanks
  obtain ⟨⟨hbefore, hkey⟩, hafter⟩ := hblanks
  have hrest : behind false (e.after ++ r) = r := by
    rw [behind_append (plain_of_isBlank hafter), behind_of_endsEntry hr]
  have hvalue : behind false (e.value.render ++ (e.after ++ r)) = r := by
    have hwell := he.value
    cases hv : e.value with
    | flag => exact hrest
    | word gap w =>
      rw [hv] at hwell
      have hplain : ∀ c ∈ '=' :: (gap ++ w), c ≠ ',' ∧ c ≠ '"' := by
        simp only [List.forall_mem_cons, List.forall_mem_append]
        exact ⟨by decide, plain_of_isBlank hwell.1, plain_of_isWord hwell.2.word⟩
      rw [EntryValue.render, behind_append hplain, hrest]
    | quoted gap text =>
      rw [hv] at hwell
      have hplain : ∀ c ∈ '=' :: gap, c ≠ ',' ∧ c ≠ '"' :=
        List.forall_mem_cons.2 ⟨by decide, plain_of_isBlank hwell.1⟩
      rw [EntryValue.render, ← List.cons_append, List.append_assoc, behind_append hplain,
        List.cons_append, List.append_assoc, List.singleton_append, behind_quoted hwell.2, hrest]
  rw [WrittenEntry.render]
  simp only [List.append_assoc]
  rw [behind_append (plain_of_isBlank hbefore), behind_append (plain_of_isWord he.key.word),
    behind_append (plain_of_isBlank hkey), hvalue]

theorem behind_dropBlanks (cs : List Char) : behind false (dropBlanks cs) = behind false cs := by
  have hblanks : ∀ c ∈ cs.takeWhile isBlank, isBlank c = true := fun _ => List.mem_takeWhile_imp
  calc behind false (dropBlanks cs)
      = behind false (cs.takeWhile isBlank ++ dropBlanks cs) :=
        (behind_append (plain_of_isBlank hblanks) _ _).symm
    _ = behind false cs := by rw [dropBlanks, List.takeWhile_append_dropWhile]

/-- The first word of a piece is what is a word at its head. -/
theorem firstWord_piece (cs : List Char) :
    firstWord (piece false cs) = (dropBlanks cs).takeWhile isWord := by
  have htrailing (p : List Char) : (dropTrailingBlanks p).takeWhile isWord = p.takeWhile isWord := by
    have hblanks : ∀ c ∈ (p.reverse.takeWhile isBlank).reverse, isBlank c = true := fun c hc =>
      List.mem_takeWhile_imp (List.mem_reverse.1 hc)
    have hp : p = dropTrailingBlanks p ++ (p.reverse.takeWhile isBlank).reverse := by
      rw [dropTrailingBlanks, ← List.reverse_append, List.takeWhile_append_dropWhile, List.reverse_reverse]
    conv_rhs => rw [hp, takeWhile_append_blanks (fun _ => not_isWord_of_isBlank) hblanks]
  have hcomma : ∀ (p r : List Char), EndsEntry r →
      (dropBlanks (p ++ r)).takeWhile isWord = (dropBlanks p).takeWhile isWord := by
    intro p r hr
    cases r with
    | nil => rw [List.append_nil]
    | cons c r =>
      obtain rfl : c = ',' := hr c rfl
      have hstart : dropBlanks (dropBlanks p ++ ',' :: r) = dropBlanks p ++ ',' :: r := by
        cases hp : dropBlanks p with
        | nil => exact dropBlanks_cons_of_not_blank (by decide) r
        | cons d q => exact dropBlanks_cons_of_not_blank (not_blank_of_dropBlanks hp) _
      rw [dropBlanks_append_eq, hstart, takeWhile_append_cons (by decide)]
  conv_rhs => rw [← piece_append_behind false cs, hcomma _ _ (endsEntry_behind false cs)]
  exact htrailing _

/-- A text is one piece, or a piece before a comma and the pieces behind it. -/
theorem starts_cases (cs : List Char) : (behind false cs = [] ∧ starts cs = [cs])
    ∨ ∃ r, behind false cs = ',' :: r ∧ starts cs = cs :: starts r := by
  have hnext : behindCommas false cs = behindCommas false (behind false cs) :=
    (behindCommas_behind false cs).symm
  rw [starts, hnext]
  cases hr : behind false cs with
  | nil => exact .inl ⟨rfl, rfl⟩
  | cons c r =>
    obtain rfl : c = ',' := endsEntry_behind false cs c (by rw [hr]; rfl)
    exact .inr ⟨r, rfl, rfl⟩

/-- What holds of a text of one piece, and of a text if it holds behind its first comma, holds of all. -/
theorem piece_induction {P : List Char → Prop} (last : ∀ cs, behind false cs = [] → P cs)
    (more : ∀ cs r, behind false cs = ',' :: r → P r → P cs) (cs : List Char) : P cs := by
  rcases starts_cases cs with ⟨hlast, -⟩ | ⟨r, hmore, -⟩
  · exact last cs hlast
  · exact more cs r hmore (piece_induction last more r)
termination_by cs.length
decreasing_by
  have hlength := congrArg List.length (piece_append_behind false cs)
  rw [hmore, List.length_append, List.length_cons] at hlength
  omega

/-- The first words are the words at the heads. -/
theorem firstWords_eq (cs : List Char) : firstWords cs = (heads cs).map (List.takeWhile isWord) := by
  simp only [firstWords, pieces, heads, List.map_map]
  exact List.map_congr_left fun t _ => firstWord_piece t

end

/-! ## Readings -/

/-- Where the entries of a text are read, each given by the text from there on. -/
def readings : List Char → List (List Char)
  | [] => []
  | c :: cs =>
    match _h : entryAt? (c :: cs) with
    | some (_, r) => (c :: cs) :: readings r
    | none => readings cs
termination_by cs => cs.length
decreasing_by
  · exact entryAt?_length_lt _h
  · simp

section

variable {cs r : List Char}

theorem readings_of_some {p : String × String} (h : entryAt? cs = some (p, r)) :
    readings cs = cs :: readings r := by
  cases cs with
  | nil => cases h
  | cons c cs =>
    rw [readings]
    split
    · rename_i hsome
      rw [h] at hsome
      cases hsome
      rfl
    · rename_i hnone
      rw [h] at hnone
      cases hnone

theorem readings_of_none {c : Char} (h : entryAt? (c :: cs) = none) :
    readings (c :: cs) = readings cs := by
  rw [readings]
  split
  · rename_i hsome
    rw [h] at hsome
    cases hsome
  · rfl

theorem entries_of_none {c : Char} (h : entryAt? (c :: cs) = none) : entries (c :: cs) = entries cs := by
  rw [entries]
  split
  · rename_i hsome
    rw [h] at hsome
    cases hsome
  · rfl

theorem entryAt?_of_not_word {c : Char} (hc : isWord c = false) : entryAt? (c :: cs) = none := by
  simp [entryAt?, word?, hc]

theorem fst_of_entryAt? {p : String × String} (h : entryAt? cs = some (p, r)) :
    p.1 = String.ofList (cs.takeWhile isWord) := by
  unfold entryAt? at h
  split at h
  · cases h
  · rename_i key r₁ hkey
    obtain ⟨-, rfl, -⟩ := word?_eq_some_iff.1 hkey
    split at h
    · obtain ⟨rfl, -⟩ := Prod.mk.inj (Option.some.inj h)
      rfl
    · cases h

/-- The keys are the words where entries are read. -/
theorem keys_entries (cs : List Char) :
    (entries cs).map (·.1) = (readings cs).map fun s => String.ofList (s.takeWhile isWord) := by
  induction cs using readings.induct with
  | case1 => rw [entries, readings, List.map_nil, List.map_nil]
  | case2 c cs p r h ih =>
    rw [entries_of_some h, readings_of_some h, List.map_cons, List.map_cons, ih, fst_of_entryAt? h]
  | case3 c cs h ih => rw [entries_of_none h, readings_of_none h, ih]

theorem StartsEntry.cons {c : Char} (hc : isWord c = true) (h : StartsEntry cs) : StartsEntry (c :: cs) := by
  obtain ⟨e, r, he, hbefore, hr, rfl⟩ := h
  refine ⟨{ e with key := c :: e.key }, r, ⟨he.blanks, ⟨nofun, ?_⟩, he.value⟩, hbefore, hr, ?_⟩
  · exact List.forall_mem_cons.2 ⟨hc, he.key.word⟩
  · simp [WrittenEntry.render, hbefore]

/-- Where an entry is read one stands, and a word begins there. -/
theorem of_mem_readings {s : List Char} (h : s ∈ readings cs) :
    StartsEntry s ∧ ∃ a, cs = a ++ s ∧ ∀ c ∈ a.getLast?, isWord c = false := by
  induction cs using readings.induct with
  | case1 =>
    rw [readings] at h
    cases h
  | case2 c cs p r hentry ih =>
    rw [readings_of_some hentry] at h
    rcases List.mem_cons.1 h with rfl | h
    · exact ⟨isSome_entryAt?_iff.1 (by rw [hentry]; rfl), [], rfl, by simp⟩
    · obtain ⟨hs, a, rfl, ha⟩ := ih h
      obtain ⟨e, t, -, -, -, htext, ht⟩ := exists_written_of_entryAt? hentry
      rcases ht with ⟨-, hnil⟩ | rfl
      · rw [hnil, readings] at h
        cases h
      · refine ⟨hs, e.render ++ ',' :: a, by simp [htext], fun d hd => ?_⟩
        rw [List.getLast?_append, List.getLast?_cons] at hd
        cases hlast : a.getLast? with
        | none =>
          simp only [hlast, Option.getD_none, Option.some_or, Option.mem_some_iff] at hd
          rw [← hd]
          decide
        | some d' =>
          simp only [hlast, Option.getD_some, Option.some_or, Option.mem_some_iff] at hd
          exact hd ▸ ha d' hlast
  | case3 c cs hentry ih =>
    rw [readings_of_none hentry] at h
    obtain ⟨hs, a, rfl, ha⟩ := ih h
    refine ⟨hs, c :: a, rfl, fun d hd => ?_⟩
    cases hlast : a.getLast? with
    | none =>
      -- a word character right before an entry would be part of its key
      obtain rfl := List.getLast?_eq_none_iff.1 hlast
      obtain rfl : c = d := by simpa using hd
      rw [← Bool.not_eq_true]
      exact fun hc => entryAt?_eq_none_iff.1 hentry (hs.cons hc)
    | some d' =>
      rw [List.getLast?_cons, hlast] at hd
      obtain rfl : d' = d := by simpa using hd
      exact ha d' hlast

theorem length_le_of_mem_readings {s : List Char} (h : s ∈ readings cs) : s.length ≤ cs.length := by
  obtain ⟨-, a, rfl, -⟩ := of_mem_readings h
  simp

theorem readings_dropBlanks (cs : List Char) : readings (dropBlanks cs) = readings cs := by
  induction cs with
  | nil => rfl
  | cons c cs ih =>
    cases hc : isBlank c with
    | false => rw [dropBlanks_cons_of_not_blank hc]
    | true =>
      rw [dropBlanks_cons_of_blank hc, ih, readings_of_none (entryAt?_of_not_word (not_isWord_of_isBlank hc))]

theorem readings_comma (r : List Char) : readings (',' :: r) = readings r :=
  readings_of_none (entryAt?_of_not_word (by decide))

theorem readings_append_of_silent {a b : List Char}
    (h : ∀ s, s <:+ a ++ b → b.length < s.length → ¬StartsEntry s) : readings (a ++ b) = readings b := by
  induction a with
  | nil => rfl
  | cons c a ih =>
    have hlength : b.length < (c :: (a ++ b)).length := by
      rw [List.length_cons, List.length_append]
      omega
    have hnone : entryAt? (c :: (a ++ b)) = none :=
      entryAt?_eq_none_iff.2 (h _ List.suffix_rfl hlength)
    rw [List.cons_append, readings_of_none hnone]
    exact ih fun s hs => h s (hs.trans (List.suffix_cons c _))

/-- If entries stand in the first part of a text, the first one to be read does. -/
theorem exists_readings_append {a b : List Char}
    (h : ∃ s, s <:+ a ++ b ∧ b.length < s.length ∧ StartsEntry s) :
    ∃ s rest, b.length < s.length ∧ StartsEntry s ∧ readings (a ++ b) = s :: rest := by
  obtain ⟨s, hsuffix, hlength, hs⟩ := h
  induction a with
  | nil => exact absurd hsuffix.length_le hlength.not_ge
  | cons c a ih =>
    rcases List.suffix_cons_iff.1 hsuffix with rfl | hsuffix
    · obtain ⟨⟨p, r⟩, hp⟩ := Option.isSome_iff_exists.1 (isSome_entryAt?_iff.2 hs)
      exact ⟨_, _, hlength, hs, readings_of_some hp⟩
    · cases hp : entryAt? (c :: (a ++ b)) with
      | none =>
        rw [List.cons_append, readings_of_none hp]
        exact ih hsuffix
      | some found =>
        refine ⟨c :: (a ++ b), _, ?_, isSome_entryAt?_iff.1 (by rw [hp]; rfl), readings_of_some hp⟩
        simp only [List.length_cons, List.length_append]
        omega

end

/-! ## Strays -/

/-- The readings that are at no head. -/
def strays (cs : List Char) : List (List Char) :=
  (readings cs).filter fun s => !(heads cs).contains s

/-- No entry begins in the first piece of a text. -/
def IsSilent (cs : List Char) : Prop :=
  ∀ s, s <:+ cs → (behind false cs).length < s.length → ¬StartsEntry s

section

variable {cs r : List Char}

theorem readings_of_startsEntry (h : StartsEntry (dropBlanks cs)) :
    readings cs = dropBlanks cs :: readings (behind false cs)
      ∧ (behind false cs).length < (dropBlanks cs).length := by
  obtain ⟨e, r, he, hbefore, hr, htext⟩ := h
  have hbehind : behind false cs = r := by rw [← behind_dropBlanks, htext, behind_render he hr]
  obtain ⟨r', hend⟩ := exists_entryEnd? hr
  have hentry : entryAt? (dropBlanks cs) = some (e.pair, r') := htext ▸ entryAt?_render he hbefore hend
  have hrest : readings r = readings r' := by
    cases r with
    | nil =>
      obtain rfl : [] = r' := Option.some.inj hend
      rfl
    | cons c r =>
      obtain rfl : c = ',' := hr c rfl
      obtain rfl : r = r' := Option.some.inj hend
      exact readings_comma r
  refine ⟨?_, ?_⟩
  · rw [← readings_dropBlanks, readings_of_some hentry, hbehind, hrest]
  · have hkey := List.length_pos_iff.2 he.key.ne_nil
    rw [hbehind, htext]
    simp only [WrittenEntry.render, List.length_append]
    omega

theorem readings_of_isSilent (h : IsSilent cs) : readings cs = readings (behind false cs) := by
  conv_lhs => rw [← piece_append_behind false cs]
  exact readings_append_of_silent (by rwa [piece_append_behind])

theorem exists_readings_of_not_isSilent (h : ¬IsSilent cs) : ∃ s rest,
    (behind false cs).length < s.length ∧ StartsEntry s ∧ readings cs = s :: rest := by
  have hsome : ∃ s, s <:+ piece false cs ++ behind false cs ∧ (behind false cs).length < s.length
      ∧ StartsEntry s := by
    rw [piece_append_behind]
    simpa [IsSilent] using h
  simpa only [piece_append_behind] using exists_readings_append hsome

/-- A piece leaves no stray if it is an entry or has none in it. -/
theorem strays_eq_nil_iff_behind (cs : List Char) : strays cs = []
    ↔ (StartsEntry (dropBlanks cs) ∨ IsSilent cs) ∧
      ((readings (behind false cs)).filter fun s =>
        !((behindCommas false (behind false cs)).map dropBlanks).contains s) = [] := by
  have hheads : heads cs = dropBlanks cs :: (behindCommas false (behind false cs)).map dropBlanks := by
    rw [heads, starts, behindCommas_behind, List.map_cons]
  have hlater : ∀ s ∈ (behindCommas false (behind false cs)).map dropBlanks,
      s.length < (behind false cs).length := by
    intro s hs
    obtain ⟨t, ht, rfl⟩ := List.mem_map.1 hs
    exact (dropWhile_length_le isBlank t).trans_lt (suffix_of_mem_behindCommas ht).2
  have hfilter (hne : ∀ s ∈ readings (behind false cs), s ≠ dropBlanks cs) :
      ((readings (behind false cs)).filter fun s => !(heads cs).contains s)
        = (readings (behind false cs)).filter fun s =>
          !((behindCommas false (behind false cs)).map dropBlanks).contains s := by
    refine List.filter_congr fun s hs => ?_
    rw [hheads, List.contains_cons, beq_false_of_ne (hne s hs), Bool.false_or]
  by_cases hentry : StartsEntry (dropBlanks cs)
  · obtain ⟨hread, hlength⟩ := readings_of_startsEntry hentry
    have hne : ∀ s ∈ readings (behind false cs), s ≠ dropBlanks cs := by
      rintro s hs rfl
      exact absurd (length_le_of_mem_readings hs) hlength.not_ge
    rw [strays, hread, List.filter_cons_of_neg (by simp [hheads]), hfilter hne]
    simp [hentry]
  by_cases hsilent : IsSilent cs
  · have hne : ∀ s ∈ readings (behind false cs), s ≠ dropBlanks cs := by
      rintro s hs rfl
      exact hentry (of_mem_readings hs).1
    rw [strays, readings_of_isSilent hsilent, hfilter hne]
    simp [hsilent]
  · obtain ⟨s, rest, hlength, hs, hread⟩ := exists_readings_of_not_isSilent hsilent
    have hstray : s ∉ heads cs := by
      rw [hheads, List.mem_cons, not_or]
      refine ⟨?_, fun hmem => absurd (hlater s hmem) hlength.not_gt⟩
      rintro rfl
      exact hentry hs
    rw [strays, hread, List.filter_cons_of_pos (by simpa using hstray)]
    simp [hentry, hsilent]

/-- There are no strays exactly if each piece is an entry or has none in it. -/
theorem strays_eq_nil_iff (cs : List Char) :
    strays cs = [] ↔ ∀ t ∈ starts cs, StartsEntry (dropBlanks t) ∨ IsSilent t := by
  induction cs using piece_induction with
  | last cs hlast =>
    have hstarts : starts cs = [cs] := by
      rw [starts, ← behindCommas_behind, hlast, behindCommas]
    rw [strays_eq_nil_iff_behind, hlast, readings, hstarts]
    simp
  | more cs r hmore ih =>
    have hlater : behindCommas false (behind false cs) = starts r := by
      rw [hmore]
      rfl
    have hstarts : starts cs = cs :: starts r := by rw [starts, ← behindCommas_behind, hlater]
    rw [strays_eq_nil_iff_behind, hlater, hmore, readings_comma, hstarts, List.forall_mem_cons, ← ih]
    rfl

theorem mem_keys_parse_iff {m k : String} :
    k ∈ OrderedMap.keys (parse m) ↔ ∃ s ∈ readings m.toList, k.toList = s.takeWhile isWord := by
  rw [parse, OrderedMap.mem_keys_ofPairs, keys_entries, List.mem_map]
  refine exists_congr fun s => and_congr_right fun _ => ?_
  rw [String.ext_iff, String.toList_ofList, eq_comm]

/-- The word of a reading is a first word if the reading is no stray. -/
theorem mem_firstWords_or_mem_strays {s : List Char} (h : s ∈ readings cs) :
    s.takeWhile isWord ∈ firstWords cs ∨ s ∈ strays cs := by
  by_cases hmem : s ∈ heads cs
  · rw [firstWords_eq]
    exact .inl (List.mem_map_of_mem hmem)
  · exact .inr (List.mem_filter.2 ⟨h, by simpa using hmem⟩)

theorem mem_readings_of_mem_strays {s : List Char} (h : s ∈ strays cs) : s ∈ readings cs :=
  List.mem_of_mem_filter h

/-- The keys are first words exactly if the words of the strays are. -/
theorem forall_mem_keys_iff (m : String) :
    (∀ k ∈ OrderedMap.keys (parse m), k.toList ∈ firstWords m.toList)
      ↔ ∀ s ∈ strays m.toList, s.takeWhile isWord ∈ firstWords m.toList := by
  constructor
  · intro h s hs
    simpa using h (String.ofList (s.takeWhile isWord))
      (mem_keys_parse_iff.2 ⟨s, mem_readings_of_mem_strays hs, String.toList_ofList⟩)
  · intro h k hk
    obtain ⟨s, hs, hword⟩ := mem_keys_parse_iff.1 hk
    rw [hword]
    exact (mem_firstWords_or_mem_strays hs).elim id (h s)

end

end Metadata

open Metadata

/-- The pins of an argument are exposed if the word is a first word of its metadata or that of a stray. -/
theorem Spelling.Resolves.exposed {s : Spelling} {comment : String} {r : Resolution} {p : Pin}
    (h : s.Resolves comment r) (hp : p ∈ r.pins) (hexposed : p.isExposed = true) :
    exposeKey.toList ∈ firstWords s.metadata
      ∨ ∃ t ∈ strays s.metadata, t.takeWhile Text.isWord = exposeKey.toList := by
  have hmetadata : p.metadata = Metadata.parse (String.ofList s.metadata) := by
    have hmem := List.mem_map_of_mem (f := fun q : Pin => (q.name, q.metadata)) hp
    rw [h.pins.1] at hmem
    obtain ⟨name, _, heq⟩ := List.mem_map.1 hmem
    exact (Prod.mk.inj heq).2.symm
  have hkey : exposeKey ∈ OrderedMap.keys (Metadata.parse (String.ofList s.metadata)) := by
    rw [← hmetadata]
    simpa [Pin.isExposed, OrderedMap.has, OrderedMap.keys] using hexposed
  obtain ⟨t, ht, hword⟩ := mem_keys_parse_iff.1 hkey
  rw [String.toList_ofList] at ht
  rw [hword]
  exact (mem_firstWords_or_mem_strays ht).imp_right fun ht => ⟨t, ht, rfl⟩

/-- The keys of a text of metadata are the first words of its pieces exactly if those of the strays are.
There are no strays exactly if each piece is an entry or has none in it, and each stray is an entry
that begins with a whole word of the text. What exposes the pins of an argument is the first word of a
piece of its metadata or a stray. -/
theorem Metadata.keys_lead_iff_strays (m raw comment : String) :
    ((∀ k ∈ OrderedMap.keys (parse m), k.toList ∈ firstWords m.toList)
        ↔ ∀ s ∈ strays m.toList, s.takeWhile Text.isWord ∈ firstWords m.toList)
      ∧ (strays m.toList = [] ↔ ∀ t ∈ starts m.toList, StartsEntry (Text.dropBlanks t) ∨ IsSilent t)
      ∧ (∀ s ∈ strays m.toList, StartsEntry s
        ∧ ∃ a, m.toList = a ++ s ∧ ∀ c ∈ a.getLast?, Text.isWord c = false)
      ∧ ∀ r : Resolution, resolveArgument raw comment = .ok r →
        ∃ s : Spelling, Spelling.read? raw.toList = some s ∧ ∀ p ∈ r.pins, p.isExposed = true →
          exposeKey.toList ∈ firstWords s.metadata
            ∨ ∃ t ∈ strays s.metadata, t.takeWhile Text.isWord = exposeKey.toList := by
  refine ⟨forall_mem_keys_iff m, strays_eq_nil_iff m.toList,
    fun s hs => of_mem_readings (mem_readings_of_mem_strays hs), fun r hr => ?_⟩
  obtain ⟨s, hread, -, hresolves⟩ := resolveArgument_eq_ok_iff.1 hr
  exact ⟨s, hread, fun p => hresolves.exposed⟩

/-- `Group=Never Expose`: the value ends at the blank, no entry does, and the word behind it is found. -/
def Metadata.twoWords : Spelling where
  metadata := "Group=Never Expose".toList
  typeName := "float".toList
  name := "A".toList

theorem Metadata.keys_lead_iff_strays_of_two_words :
    firstWords twoWords.metadata = ["Group".toList]
      ∧ ∃ r, resolveArgument "[Group=Never Expose] float A" "" = .ok r ∧ ∃ p ∈ r.pins, p.isExposed = true
        ∧ ∃ t ∈ strays twoWords.metadata, t.takeWhile Text.isWord = exposeKey.toList := by
  have hread : Spelling.read? "[Group=Never Expose] float A".toList = some twoWords := by decide +kernel
  have hwords : firstWords twoWords.metadata = ["Group".toList] := by decide +kernel
  have hpins : (resolveArgument "[Group=Never Expose] float A" "").toOption.map
      (·.pins.map Pin.isExposed) = some [true] := by decide +kernel
  obtain ⟨r, hr, hexposed⟩ := Option.map_eq_some_iff.1 hpins
  have hok : resolveArgument "[Group=Never Expose] float A" "" = .ok r := by
    cases h : resolveArgument "[Group=Never Expose] float A" "" with
    | error e =>
      rw [h] at hr
      cases hr
    | ok r' =>
      rw [h] at hr
      exact congrArg Except.ok (Option.some.inj hr)
  have hmem : true ∈ r.pins.map Pin.isExposed := by simp [hexposed]
  obtain ⟨p, hp, hpexposed⟩ := List.mem_map.1 hmem
  obtain ⟨-, -, -, hexposes⟩ := keys_lead_iff_strays "Group=Never Expose" "[Group=Never Expose] float A" ""
  obtain ⟨s, hs, hall⟩ := hexposes r hok
  obtain rfl := Option.some.inj (hread.symm.trans hs)
  refine ⟨hwords, r, hok, p, hp, hpexposed, (hall p hp hpexposed).resolve_left ?_⟩
  rw [hwords]
  decide

/-- `Not Expose`: the word that is found is no first word. -/
theorem Metadata.not_forall_keys_lead :
    ¬∀ m : String, ∀ k ∈ OrderedMap.keys (parse m), k.toList ∈ firstWords m.toList := by
  intro h
  have hkeys : OrderedMap.keys (parse "Not Expose") = ["Expose"] := by decide +kernel
  have hmem := h "Not Expose" "Expose" (by rw [hkeys]; exact List.mem_singleton_self _)
  exact absurd hmem (by decide +kernel)

end ShaderGraph
