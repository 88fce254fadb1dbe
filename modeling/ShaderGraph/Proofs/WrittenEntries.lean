import ShaderGraph.Proofs.MetadataText
import ShaderGraph.Proofs.OrderedMap

/-!
# Metadata in every form

An entry is a key alone, a key with a word or a key with a text in double quotes, with blanks around
each of its parts. Whatever the quoted texts hold (commas, equal signs, brackets, whole entries), each
entry is read up to its own comma. The metadata is the map that the entries make one after the other:
a key stands where it is first written, with the value that it is written with last
(`keys_and_values_of_written`).
-/

namespace ShaderGraph.Metadata

open Text

/-- What is written after a key. -/
inductive EntryValue where
  | flag
  /-- an equal sign, blanks and a word -/
  | word (gap text : List Char)
  /-- an equal sign, blanks and a text in double quotes -/
  | quoted (gap text : List Char)
deriving DecidableEq, Repr

namespace EntryValue

def render : EntryValue → List Char
  | flag => []
  | word gap w => '=' :: (gap ++ w)
  | quoted gap t => '=' :: (gap ++ '"' :: (t ++ ['"']))

/-- The value without its quotes, empty for a flag. -/
def content : EntryValue → List Char
  | flag => []
  | word _ w => w
  | quoted _ t => t

def WellFormed : EntryValue → Prop
  | flag => True
  | word gap w => (∀ c ∈ gap, isBlank c = true) ∧ IsOneWord w
  | quoted gap t => (∀ c ∈ gap, isBlank c = true) ∧ '"' ∉ t

instance decidableWellFormed : (v : EntryValue) → Decidable v.WellFormed
  | flag => inferInstanceAs (Decidable True)
  | word gap w => inferInstanceAs (Decidable ((∀ c ∈ gap, isBlank c = true) ∧ IsOneWord w))
  | quoted gap t => inferInstanceAs (Decidable ((∀ c ∈ gap, isBlank c = true) ∧ '"' ∉ t))

variable {v : EntryValue} {t r : List Char}

theorem readRest?_word {gap w : List Char} (hgap : ∀ c ∈ gap, isBlank c = true) (hw : IsOneWord w)
    (ht : entryEnd? t = some r) : readRest? ('=' :: (gap ++ (w ++ t))) = some (w, r) := by
  obtain ⟨c, w', rfl⟩ := List.exists_cons_of_ne_nil hw.ne_nil
  have hc : isWord c = true := hw.word c List.mem_cons_self
  have hread : readValue? (c :: w' ++ t) = some (c :: w', t) := by
    rw [readValue?, word?_append hw (afterWord_of_entryEnd? ht)]
    rw [List.cons_append, quoted?]
    -- a word does not begin with a quote
    rintro cs heq
    obtain ⟨rfl, -⟩ := List.cons.inj heq
    exact absurd hc (by decide)
  have hstart : dropBlanks (c :: w' ++ t) = c :: w' ++ t :=
    dropBlanks_cons_of_not_blank (not_isBlank_of_isWord hc) _
  rw [readRest?, dropBlanks_cons_of_not_blank (by decide)]
  simp only [dropBlanks_append hgap, hstart, hread, ht]
  rfl

theorem WellFormed.readRest? (hv : v.WellFormed) (ht : entryEnd? t = some r) :
    readRest? (v.render ++ t) = some (v.content, r) := by
  cases v with
  | flag => exact readRest?_of_entryEnd? ht
  | word gap w => simpa [render, content] using readRest?_word hv.1 hv.2 ht
  | quoted gap text => simpa [render, content] using readRest?_quoted hv.1 hv.2 ht

theorem afterWord_render (ht : AfterWord t) : AfterWord (v.render ++ t) := by
  cases v with
  | flag => exact ht
  | word gap w => exact afterWord_cons (by decide) _
  | quoted gap text => exact afterWord_cons (by decide) _

end EntryValue

/-- An entry in any form, with the blanks around its parts. -/
structure WrittenEntry where
  before : List Char := []
  key : List Char
  afterKey : List Char := []
  value : EntryValue := .flag
  after : List Char := []
deriving DecidableEq, Repr

namespace WrittenEntry

def render (e : WrittenEntry) : List Char :=
  e.before ++ (e.key ++ (e.afterKey ++ (e.value.render ++ e.after)))

def pair (e : WrittenEntry) : String × String := (String.ofList e.key, String.ofList e.value.content)

structure WellFormed (e : WrittenEntry) : Prop where
  blanks : ∀ c ∈ e.before ++ e.afterKey ++ e.after, isBlank c = true
  key : IsOneWord e.key
  value : e.value.WellFormed

instance (e : WrittenEntry) : Decidable e.WellFormed :=
  decidable_of_iff ((∀ c ∈ e.before ++ e.afterKey ++ e.after, isBlank c = true) ∧ IsOneWord e.key
      ∧ e.value.WellFormed)
    ⟨fun h => ⟨h.1, h.2.1, h.2.2⟩, fun h => ⟨h.blanks, h.key, h.value⟩⟩

theorem WellFormed.readsAs {e : WrittenEntry} (he : e.WellFormed) : ReadsAs e.render e.pair := by
  have hblanks := he.blanks
  simp only [List.mem_append, or_imp, forall_and] at hblanks
  obtain ⟨⟨hbefore, hkey⟩, hafter⟩ := hblanks
  refine readsAs_of_readRest? hbefore he.key fun t r ht => ?_
  have hrest : AfterWord (e.after ++ t) := (afterWord_of_entryEnd? ht).append_blanks hafter
  have hend : entryEnd? (e.after ++ t) = some r := (entryEnd?_append hafter t).trans ht
  simp only [List.append_assoc]
  refine ⟨AfterWord.append_blanks hkey (EntryValue.afterWord_render hrest), ?_⟩
  rw [readRest?_append hkey, he.value.readRest? hend]

end WrittenEntry

/-- The text of entries with commas between them. -/
def written (es : List WrittenEntry) : List Char := [','].intercalate (es.map WrittenEntry.render)

theorem entries_written {es : List WrittenEntry} (h : ∀ e ∈ es, e.WellFormed) :
    entries (written es) = es.map WrittenEntry.pair := by
  have hall : ∀ x ∈ es.map fun e => (e.render, e.pair), ReadsAs x.1 x.2 :=
    List.forall_mem_map.2 fun e he => (h e he).readsAs
  simpa [written, Function.comp_def] using entries_intercalate hall

/-- What is read of a text of entries is the map of exactly these entries: its keys are those that are
written, each once and where it is first, and each has the value of the last entry with that key. -/
theorem keys_and_values_of_written {es : List WrittenEntry} (h : ∀ e ∈ es, e.WellFormed) :
    OrderedMap.keys (parse (String.ofList (written es)))
        = (es.map fun e => String.ofList e.key).eraseDups
      ∧ ∀ k, OrderedMap.get? (parse (String.ofList (written es))) k
        = (es.reverse.find? fun e => String.ofList e.key = k).map
            fun e => String.ofList e.value.content := by
  have hparse : parse (String.ofList (written es)) = OrderedMap.ofPairs (es.map WrittenEntry.pair) := by
    rw [parse, String.toList_ofList, entries_written h]
  rw [hparse]
  refine ⟨?_, fun k => ?_⟩
  · rw [OrderedMap.keys_ofPairs, List.map_map]
    rfl
  · rw [OrderedMap.get?_ofPairs_eq, OrderedMap.get?, ← List.map_reverse, List.find?_map,
      Option.map_map]
    rfl

/-- `Expose, Category ="A=1, [B], Expose" ,Prio=3,Expose = "" , Prio= 7` -/
def repeatedKeys : List WrittenEntry := [
  { key := "Expose".toList },
  { before := [' '], key := "Category".toList, afterKey := [' ']
    value := .quoted [] "A=1, [B], Expose".toList, after := [' '] },
  { key := "Prio".toList, value := .word [] "3".toList },
  { key := "Expose".toList, afterKey := [' '], value := .quoted [' '] [], after := [' '] },
  { before := [' '], key := "Prio".toList, value := .word [' '] "7".toList }]

theorem keys_and_values_of_repeatedKeys :
    (∀ e ∈ repeatedKeys, e.WellFormed)
      ∧ OrderedMap.keys (parse (String.ofList (written repeatedKeys))) = ["Expose", "Category", "Prio"]
      ∧ OrderedMap.get? (parse (String.ofList (written repeatedKeys))) "Category"
        = some "A=1, [B], Expose"
      ∧ OrderedMap.get? (parse (String.ofList (written repeatedKeys))) "Prio" = some "7" := by
  have hwell : ∀ e ∈ repeatedKeys, e.WellFormed := by decide
  obtain ⟨hkeys, hvalues⟩ := keys_and_values_of_written hwell
  refine ⟨hwell, hkeys.trans (by decide), (hvalues _).trans ?_, (hvalues _).trans ?_⟩ <;> rfl

end ShaderGraph.Metadata
