import ShaderGraph.Pin.Metadata
import ShaderGraph.Proofs.Balance

/-!
# Metadata as it is written

An entry is written as its key and, if it is no flag, an equal sign and a text in double quotes,
with blanks around each of these. The text may hold any character but a double quote, so brackets
and commas too: the entries of a text are read back one after the other, each up to the comma that
follows it or the end.
-/

namespace ShaderGraph

open Text

namespace Text

/-- A text that is one word. -/
structure IsOneWord (w : List Char) : Prop where
  ne_nil : w ≠ []
  word : ∀ c ∈ w, isWord c = true

instance (w : List Char) : Decidable (IsOneWord w) :=
  decidable_of_iff (w ≠ [] ∧ ∀ c ∈ w, isWord c = true) ⟨fun h => ⟨h.1, h.2⟩, fun h => ⟨h.1, h.2⟩⟩

/-- The code points of the white space characters. -/
def blankCodes : List Nat :=
  List.range' 9 5 ++ List.range' 28 5 ++ [0x85, 0xA0, 0x1680] ++ List.range' 0x2000 11
    ++ [0x2028, 0x2029, 0x202F, 0x205F, 0x3000]

theorem toNat_mem_blankCodes {c : Char} (h : isBlank c = true) : c.toNat ∈ blankCodes := by
  simp only [isBlank] at h
  simp only [blankCodes, List.mem_append, List.mem_range'_1, List.mem_cons, List.not_mem_nil]
  split at h <;> simp only [Bool.or_eq_true, Bool.and_eq_true, decide_eq_true_eq, beq_iff_eq] at h
  all_goals omega

theorem not_isWord_of_isBlank {c : Char} (h : isBlank c = true) : isWord c = false := by
  have hcodes : ∀ n ∈ blankCodes, isWord (Char.ofNat n) = false := by decide +kernel
  rw [← c.ofNat_toNat]
  exact hcodes _ (toNat_mem_blankCodes h)

theorem not_isBlank_of_isWord {c : Char} (h : isWord c = true) : isBlank c = false := by
  cases hb : isBlank c with
  | false => rfl
  | true =>
    rw [not_isWord_of_isBlank hb] at h
    cases h

theorem dropBlanks_append {a : List Char} (ha : ∀ c ∈ a, isBlank c = true) (r : List Char) :
    dropBlanks (a ++ r) = dropBlanks r :=
  List.dropWhile_append_of_pos ha

/-- A text before which a word ends. -/
def AfterWord (r : List Char) : Prop := ∀ c ∈ r.head?, isWord c = false

theorem afterWord_nil : AfterWord [] := nofun

theorem afterWord_cons {c : Char} (hc : isWord c = false) (r : List Char) : AfterWord (c :: r) := by
  rintro d hd
  obtain rfl : c = d := Option.some.inj hd
  exact hc

theorem AfterWord.append_blanks {a r : List Char} (ha : ∀ c ∈ a, isBlank c = true)
    (hr : AfterWord r) : AfterWord (a ++ r) := by
  cases a with
  | nil => exact hr
  | cons c a => exact afterWord_cons (not_isWord_of_isBlank (ha c List.mem_cons_self)) _

section Runs

variable {p : Char → Bool} {w r : List Char} {c : Char}

/-- A run of characters ends, at the latest, before a text that starts with none of them. -/
theorem takeWhile_append_of_stop (hr : ∀ c ∈ r.head?, p c = false) (w : List Char) :
    (w ++ r).takeWhile p = w.takeWhile p := by
  induction w with
  | nil =>
    cases r with
    | nil => rfl
    | cons c r => exact List.takeWhile_cons_of_neg (by simp [hr c rfl])
  | cons d w ih => simp only [List.cons_append, List.takeWhile_cons, ih]

theorem dropWhile_append_of_stop (hr : ∀ c ∈ r.head?, p c = false) (w : List Char) :
    (w ++ r).dropWhile p = w.dropWhile p ++ r := by
  induction w with
  | nil =>
    cases r with
    | nil => rfl
    | cons c r => exact List.dropWhile_cons_of_neg (by simp [hr c rfl])
  | cons d w ih =>
    simp only [List.cons_append, List.dropWhile_cons, ih]
    split_ifs <;> rfl

theorem head?_cons_stop (hc : p c = false) (r : List Char) : ∀ d ∈ (c :: r).head?, p d = false := by
  rintro d ⟨⟩
  exact hc

theorem takeWhile_append_cons (hc : p c = false) (w r : List Char) :
    (w ++ c :: r).takeWhile p = w.takeWhile p :=
  takeWhile_append_of_stop (head?_cons_stop hc r) w

theorem dropWhile_append_cons (hc : p c = false) (w r : List Char) :
    (w ++ c :: r).dropWhile p = w.dropWhile p ++ c :: r :=
  dropWhile_append_of_stop (head?_cons_stop hc r) w

/-- A run of characters is cut off where the next character is none of them. -/
theorem takeWhile_append_of_head (hw : ∀ c ∈ w, p c = true) (hr : ∀ c ∈ r.head?, p c = false) :
    (w ++ r).takeWhile p = w ∧ (w ++ r).dropWhile p = r := by
  rw [List.takeWhile_append_of_pos hw, List.dropWhile_append_of_pos hw]
  cases r with
  | nil => simp
  | cons c r => simp [hr c rfl]

end Runs

theorem takeWhile_word {w r : List Char} (hw : ∀ c ∈ w, isWord c = true) (hr : AfterWord r) :
    (w ++ r).takeWhile isWord = w := (takeWhile_append_of_head hw hr).1

theorem dropWhile_word {w r : List Char} (hw : ∀ c ∈ w, isWord c = true) (hr : AfterWord r) :
    (w ++ r).dropWhile isWord = r := (takeWhile_append_of_head hw hr).2

theorem word?_append {w r : List Char} (hw : IsOneWord w) (hr : AfterWord r) :
    word? (w ++ r) = some (w, r) :=
  word?_eq_some_iff.2 ⟨hw.ne_nil, takeWhile_word hw.word hr, dropWhile_word hw.word hr⟩

end Text

namespace Metadata

/-- An entry as it is written, with the blanks around its parts. -/
structure Entry where
  before : List Char := []
  key : List Char
  afterKey : List Char := []
  /-- The blanks after the equal sign and the text in quotes; a flag has neither. -/
  value : Option (List Char × List Char) := none
  after : List Char := []
deriving DecidableEq, Repr

namespace Entry

/-- The equal sign and the text in quotes. -/
def valueText (e : Entry) : List Char :=
  match e.value with
  | none => []
  | some (gap, text) => '=' :: gap ++ '"' :: text ++ ['"']

def render (e : Entry) : List Char :=
  e.before ++ e.key ++ e.afterKey ++ e.valueText ++ e.after

/-- The key and the text of an entry, empty for a flag. -/
def pair (e : Entry) : String × String :=
  (String.ofList e.key, String.ofList ((e.value.map (·.2)).getD []))

/-- An entry whose key is a word and whose text has no double quote. -/
structure WellFormed (e : Entry) : Prop where
  blanks : ∀ c ∈ e.before ++ e.afterKey ++ e.after, isBlank c = true
  key : IsOneWord e.key
  value : ∀ v ∈ e.value, (∀ c ∈ v.1, isBlank c = true) ∧ '"' ∉ v.2

instance (e : Entry) : Decidable e.WellFormed :=
  decidable_of_iff ((∀ c ∈ e.before ++ e.afterKey ++ e.after, isBlank c = true) ∧ IsOneWord e.key
      ∧ ∀ v ∈ e.value, (∀ c ∈ v.1, isBlank c = true) ∧ '"' ∉ v.2)
    ⟨fun h => ⟨h.1, h.2.1, h.2.2⟩, fun h => ⟨h.blanks, h.key, h.value⟩⟩

end Entry

/-- The text between the brackets. -/
def render (es : List Entry) : List Char := [','].intercalate (es.map Entry.render)

/-! ## Reading it back -/

variable {e : Entry} {t r : List Char}

theorem entryEnd?_append {a : List Char} (ha : ∀ c ∈ a, isBlank c = true) (t : List Char) :
    entryEnd? (a ++ t) = entryEnd? t := by
  rw [entryEnd?, dropBlanks_append ha, entryEnd?]

/-- Where an entry ends there is a comma after the blanks, or nothing. -/
theorem dropBlanks_of_entryEnd? (h : entryEnd? t = some r) :
    dropBlanks t = [] ∧ r = [] ∨ dropBlanks t = ',' :: r := by
  unfold entryEnd? at h
  split at h
  · rename_i ht
    cases h
    exact .inl ⟨ht, rfl⟩
  · rename_i ht
    cases h
    exact .inr ht
  · cases h

theorem afterWord_of_entryEnd? (h : entryEnd? t = some r) : AfterWord t := by
  cases t with
  | nil => exact afterWord_nil
  | cons c t =>
    refine afterWord_cons ?_ t
    cases hb : isBlank c with
    | true => exact not_isWord_of_isBlank hb
    | false =>
      have hdrop := dropBlanks_of_entryEnd? h
      rw [dropBlanks_cons_of_not_blank hb] at hdrop
      rcases hdrop with ⟨hnil, -⟩ | hcomma
      · cases hnil
      · obtain ⟨rfl, -⟩ := List.cons.inj hcomma
        decide

theorem quoted?_append {text : List Char} (h : '"' ∉ text) (t : List Char) :
    quoted? ('"' :: text ++ '"' :: t) = some (text, t) := by
  have hne : ∀ c ∈ text, (c != '"') = true := fun c hc => by
    rw [bne_iff_ne]
    exact fun heq => h (heq ▸ hc)
  rw [List.cons_append, quoted?, List.dropWhile_append_of_pos hne, List.takeWhile_append_of_pos hne]
  simp

theorem readRest?_append {a : List Char} (ha : ∀ c ∈ a, isBlank c = true) (t : List Char) :
    readRest? (a ++ t) = readRest? t := by
  rw [readRest?, dropBlanks_append ha, readRest?]

/-- Where an entry ends, its value is empty. -/
theorem readRest?_of_entryEnd? (h : entryEnd? t = some r) : readRest? t = some ([], r) := by
  rw [readRest?]
  rcases dropBlanks_of_entryEnd? h with ⟨hnil, rfl⟩ | hcomma
  · rw [hnil]
    rfl
  · rw [hcomma]
    rfl

theorem readRest?_quoted {gap text : List Char} (hgap : ∀ c ∈ gap, isBlank c = true)
    (htext : '"' ∉ text) (ht : entryEnd? t = some r) :
    readRest? ('=' :: (gap ++ '"' :: (text ++ '"' :: t))) = some (text, r) := by
  have hsign : isBlank '=' = false := by decide
  have hmark : isBlank '"' = false := by decide
  have hread : readValue? ('"' :: (text ++ '"' :: t)) = some (text, t) := by
    rw [readValue?, ← List.cons_append, quoted?_append htext]
  rw [readRest?, dropBlanks_cons_of_not_blank hsign]
  simp only [dropBlanks_append hgap, dropBlanks_cons_of_not_blank hmark, hread, ht]
  rfl

theorem readRest?_entry (he : e.WellFormed) (ht : entryEnd? t = some r) :
    readRest? (e.afterKey ++ (e.valueText ++ (e.after ++ t)))
      = some ((e.value.map (·.2)).getD [], r) := by
  have hblanks := he.blanks
  simp only [List.mem_append, or_imp, forall_and] at hblanks
  obtain ⟨⟨-, hkey⟩, hafter⟩ := hblanks
  have hend : entryEnd? (e.after ++ t) = some r := (entryEnd?_append hafter t).trans ht
  rw [readRest?_append hkey, Entry.valueText]
  cases hvalue : e.value with
  | none => exact readRest?_of_entryEnd? hend
  | some v =>
    obtain ⟨hgap, hquote⟩ := he.value v hvalue
    simpa using readRest?_quoted hgap hquote hend

theorem entries_of_some {cs : List Char} {p : String × String} (h : entryAt? cs = some (p, r)) :
    entries cs = p :: entries r := by
  cases cs with
  | nil => cases h
  | cons c cs =>
    rw [entries]
    split
    · rename_i hsome
      rw [h] at hsome
      cases hsome
      rfl
    · rename_i hnone
      rw [h] at hnone
      cases hnone

theorem entries_append_blanks : ∀ {a : List Char}, (∀ c ∈ a, isBlank c = true) → ∀ cs,
    entries (a ++ cs) = entries cs
  | [], _, _ => rfl
  | c :: a, ha, cs => by
    have hword : isWord c = false := not_isWord_of_isBlank (ha c List.mem_cons_self)
    have hnone : entryAt? (c :: (a ++ cs)) = none := by
      simp [entryAt?, word?, hword]
    rw [List.cons_append, entries]
    split
    · rename_i hsome
      rw [hnone] at hsome
      cases hsome
    · exact entries_append_blanks (fun d hd => ha d (List.mem_cons_of_mem _ hd)) cs

/-- A text that is read as one entry wherever an entry may end behind it. -/
def ReadsAs (text : List Char) (p : String × String) : Prop :=
  ∀ t r, entryEnd? t = some r → entries (text ++ t) = p :: entries r

theorem readsAs_of_readRest? {before key rest value : List Char}
    (hbefore : ∀ c ∈ before, isBlank c = true) (hkey : IsOneWord key)
    (hrest : ∀ t r, entryEnd? t = some r →
      AfterWord (rest ++ t) ∧ readRest? (rest ++ t) = some (value, r)) :
    ReadsAs (before ++ (key ++ rest)) (String.ofList key, String.ofList value) := by
  intro t r ht
  obtain ⟨hend, hread⟩ := hrest t r ht
  have hentry : entryAt? (key ++ (rest ++ t)) = some ((String.ofList key, String.ofList value), r) := by
    rw [entryAt?, word?_append hkey hend]
    simp only [hread]
  rw [List.append_assoc, List.append_assoc, entries_append_blanks hbefore, entries_of_some hentry]

/-- Texts that are read as entries are read one after the other with commas between them. -/
theorem entries_intercalate : ∀ {xs : List (List Char × String × String)},
    (∀ x ∈ xs, ReadsAs x.1 x.2) → entries ([','].intercalate (xs.map (·.1))) = xs.map (·.2)
  | [], _ => by rw [List.map_nil, List.intercalate_nil, entries, List.map_nil]
  | [x], h => by
    have hread := h x List.mem_cons_self [] [] rfl
    rw [List.append_nil, entries] at hread
    rw [List.map_singleton, List.intercalate_singleton, hread, List.map_singleton]
  | x :: y :: xs, h => by
    have hrest := entries_intercalate fun z hz => h z (List.mem_cons_of_mem x hz)
    have hread := h x List.mem_cons_self (',' :: [','].intercalate ((y :: xs).map (·.1))) _ rfl
    have htext : [','].intercalate ((x :: y :: xs).map (·.1))
        = x.1 ++ ',' :: [','].intercalate ((y :: xs).map (·.1)) := by
      simp [List.intercalate_cons_cons]
    rw [htext, hread, hrest, ← List.map_cons]

theorem Entry.WellFormed.readsAs (he : e.WellFormed) : ReadsAs e.render e.pair := by
  have hblanks := he.blanks
  simp only [List.mem_append, or_imp, forall_and] at hblanks
  obtain ⟨⟨hbefore, hkey⟩, hafter⟩ := hblanks
  have htext : e.render = e.before ++ (e.key ++ (e.afterKey ++ (e.valueText ++ e.after))) := by
    simp [Entry.render]
  rw [htext]
  refine readsAs_of_readRest? hbefore he.key fun t r ht => ⟨?_, ?_⟩
  · have hrest : AfterWord (e.after ++ t) := (afterWord_of_entryEnd? ht).append_blanks hafter
    simp only [List.append_assoc]
    refine AfterWord.append_blanks hkey ?_
    rw [Entry.valueText]
    cases e.value with
    | none => exact hrest
    | some v => exact afterWord_cons (by decide) _
  · simpa using readRest?_entry he ht

/-- The entries that are written are those that are read. -/
theorem entries_render {es : List Entry} (h : ∀ e ∈ es, e.WellFormed) :
    entries (render es) = es.map Entry.pair := by
  have hall : ∀ x ∈ es.map fun e => (e.render, e.pair), ReadsAs x.1 x.2 :=
    List.forall_mem_map.2 fun e he => (h e he).readsAs
  simpa [render, Function.comp_def] using entries_intercalate hall

/-- The metadata of a text that is written from entries. -/
theorem parse_render {es : List Entry} (h : ∀ e ∈ es, e.WellFormed) :
    parse (String.ofList (render es)) = OrderedMap.ofPairs (es.map Entry.pair) := by
  rw [parse, String.toList_ofList, entries_render h]

end Metadata

end ShaderGraph
