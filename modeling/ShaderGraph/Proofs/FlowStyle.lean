import Mathlib.Data.List.Forall2
import Mathlib.Tactic.Ring
import ShaderGraph.Proofs.FlowReader

/-!
# What a page in flow style tells

A scalar is quoted so that it can be read again, whichever way is chosen. So the brackets and
scalars of a value can be read from the page that it is written on, as long as there is room for the
indentation, and values that are written as the same text have the same brackets and scalars.
-/

namespace ShaderGraph.Yaml

/-! ## What the ways of quoting need -/

namespace Analysis

theorem not_mem_of_laterIndicators {gap : Bool} {c : Char} {rest : List Char}
    (h : (laterIndicators gap c rest).1 = false) : c ∉ [',', ':', ']', '\x7d'] := by
  intro hc
  unfold laterIndicators at h
  split_ifs at h with hmark hcolon hhash
  simp only [List.mem_cons, List.not_mem_nil, or_false] at hc
  rcases hc with rfl | rfl | rfl | rfl
  · exact hmark (by decide)
  · exact hcolon (by decide)
  · exact hmark (by decide)
  · exact hmark (by decide)

theorem not_mem_of_indicators : ∀ {cs : List Char} {gap : Bool}, (indicators gap cs).1 = false →
    ∀ d ∈ cs, d ∉ [',', ':', ']', '\x7d']
  | [], _, _ => by simp
  | c :: cs, gap, h => by
    rw [indicators, Bool.or_eq_false_iff] at h
    intro d hd
    rcases List.mem_cons.1 hd with rfl | hd
    · exact not_mem_of_laterIndicators h.1
    · exact not_mem_of_indicators h.2 d hd

theorem not_mem_of_firstIndicators {c : Char} {rest : List Char}
    (h : (firstIndicators c rest).1 = false) :
    c ∉ [',', ':', ']', '\x7d', '[', '\x7b', '\'', '"'] := by
  intro hc
  unfold firstIndicators at h
  split_ifs at h with hmark hcolon hdash
  simp only [List.mem_cons, List.not_mem_nil, or_false] at hc
  rcases hc with rfl | rfl | rfl | rfl | rfl | rfl | rfl | rfl
  · exact hmark (by decide)
  · exact hcolon (by decide)
  all_goals exact hmark (by decide)

/-- What is needed of a text that is written as it is in flow style. -/
structure FlowPlain (c : Char) (rest : List Char) : Prop where
  first : c ∉ [',', ':', ']', '\x7d', '[', '\x7b', '\'', '"']
  later : ∀ d ∈ rest, d ∉ [',', ':', ']', '\x7d']
  space : c ≠ ' '
  breaks : ∀ d ∈ c :: rest, d ≠ '\n'
  spaceBreak : hasPair isSpace isBreak (c :: rest) = false
  breakSpace : hasPair isBreak isSpace (c :: rest) = false

theorem of_flowPlain {s : String} {c : Char} {rest : List Char} (hs : s.toList = c :: rest)
    (h : (of s).flowPlain = true) : FlowPlain c rest := by
  unfold of at h
  rw [hs] at h
  simp only [ofChars, Bool.and_eq_true, Bool.not_eq_true', Bool.or_eq_false_iff] at h
  obtain ⟨⟨⟨⟨hpadded, hbs⟩, hsb, -⟩, hmultiline⟩, ⟨-, hfirst⟩, hrest⟩ := h
  refine ⟨not_mem_of_firstIndicators hfirst, not_mem_of_indicators hrest, ?_, fun d hd => ?_, hsb,
    hbs⟩
  · rintro rfl
    exact absurd hpadded.1.1.1 (by decide)
  · rintro rfl
    exact List.any_eq_false.1 hmultiline _ hd rfl

/-- What is needed of a text between single quotes. -/
theorem of_singleQuoted {s : String} (h : (of s).singleQuoted = true) :
    hasPair isSpace isBreak s.toList = false ∧ hasPair isBreak isSpace s.toList = false := by
  unfold of at h
  cases hs : s.toList with
  | nil => exact ⟨rfl, rfl⟩
  | cons c rest =>
    rw [hs] at h
    simp only [ofChars, Bool.and_eq_true, Bool.not_eq_true', Bool.or_eq_false_iff] at h
    exact ⟨h.2.1, h.1⟩

end Analysis

/-! ## Scalars in the three ways of quoting -/

/-- A spot at which a scalar may end, with the signs that are complete then. -/
inductive Spot.Ends : Spot → List Sign → Prop
  | gap : Ends .gap []
  | plain {spot : Spot} {cs : List Char} (h : spot.InLines false cs) : Ends spot [.scalar cs]
  | quote {cs : List Char} : Ends (.quote cs) [.scalar cs]

/-- A page shows some signs, of which a scalar may be the last. -/
def Page.Shows (p : Page) (signs : List Sign) : Prop :=
  ∃ pending, p.read.spot.Ends pending ∧ p.read.signs ++ pending = signs

/-- A page on which it is between brackets and scalars. -/
structure Page.AtGap (p : Page) (signs : List Sign) : Prop where
  read : p.read = ⟨signs, .gap⟩

namespace FlowReader

theorem next_of_ends {r : FlowReader} {pending : List Sign} {c : Char} (h : r.spot.Ends pending)
    (hc : c ∈ [',', ':', ']', '\x7d']) : r.next c = startAt (r.signs ++ pending) c := by
  have hne : c ≠ '\n' ∧ c ≠ ' ' ∧ c ≠ '\'' := by
    simp only [List.mem_cons, List.not_mem_nil, or_false] at hc
    rcases hc with rfl | rfl | rfl | rfl <;> decide
  obtain ⟨signs, spot⟩ := r
  cases h with
  | gap => rw [List.append_nil]; rfl
  | plain h =>
    rw [next_of_inLines h hne.1 hne.2.1, inLines, if_neg hne.1, if_neg (by decide), if_pos hc]
  | quote => simp only [next, if_neg hne.2.2]

theorem startAt_of_flowPlain (signs : List Sign) {c : Char} {rest : List Char}
    (h : Analysis.FlowPlain c rest) : startAt signs c = ⟨signs, .lines false [c]⟩ := by
  have hbreak := h.breaks c List.mem_cons_self
  have hspace := h.space
  have hfirst := h.first
  simp only [List.mem_cons, List.not_mem_nil, or_false, not_or] at hfirst
  obtain ⟨h1, h2, h3, h4, h5, h6, h7, h8⟩ := hfirst
  simp [startAt, *]

/-- The first word of a plain scalar. -/
theorem read_firstWord (signs : List Sign) {c : Char} {rest w : List Char}
    (h : Analysis.FlowPlain c rest) (hw : ∀ d ∈ w, IsPlain d) :
    (FlowReader.mk signs .gap).read (c :: w) = ⟨signs, .lines false (c :: w)⟩ := by
  have hnext : (FlowReader.mk signs .gap).next c = ⟨signs, .lines false [c]⟩ :=
    startAt_of_flowPlain signs h
  rw [read_cons, hnext]
  cases w with
  | nil => rfl
  | cons d w => rw [read_plainWord .lines (List.cons_ne_nil d w) hw]; rfl

theorem next_space_of_gap (signs : List Sign) :
    (FlowReader.mk signs .gap).next ' ' = ⟨signs, .gap⟩ := rfl

end FlowReader

theorem Page.AtGap.mark {p : Page} {signs : List Sign} (h : p.AtGap signs) (s : String)
    (needsSpace apart entry : Bool) :
    (p.mark s needsSpace apart entry).read = (FlowReader.mk signs .gap).read s.toList := by
  rw [read_mark, h.read, FlowReader.next_space_of_gap, ite_self]

section

variable {indent : Nat} {split : Bool} {s : String} {p : Page} {signs : List Sign}

theorem shows_writePlain (hindent : indent ≤ Page.bestWidth) (hp : p.AtGap signs) {c : Char}
    {rest : List Char} (hs : s.toList = c :: rest) (hplain : Analysis.FlowPlain c rest) :
    (writePlain indent split s p).Shows (signs ++ [.scalar s.toList]) := by
  have hempty : s.isEmpty = false := by
    rw [Bool.eq_false_iff]
    intro h
    rw [String.isEmpty_iff] at h
    rw [h] at hs
    cases hs
  have hgap : ((if p.apart then p else p.put " ").inScalar).read = ⟨signs, .gap⟩ := by
    rw [Page.read_inScalar]
    split_ifs
    · exact hp.read
    · rw [Page.read_put, hp.read]
      rfl
  have hok : ∀ d ∈ c :: rest, d ≠ ' ' → d ≠ '\n' → FlowReader.IsPlain d := by
    intro d hd hspace hbreak
    refine ⟨hspace, hbreak, ?_⟩
    rcases List.mem_cons.1 hd with rfl | hd
    · exact fun h => hplain.first (List.mem_append_left ['[', '\x7b', '\'', '"'] h)
    · exact hplain.later d hd
  have hruns := separate_runsOf hplain.spaceBreak hplain.breakSpace hok
  have hchars := flatMap_chars_runsOf (c :: rest)
  have hstart : StartsAs c (runsOf (c :: rest)) := startsAs_consRun c _
  rw [writePlain, hempty, hs]
  simp only [Bool.false_eq_true, ↓reduceIte]
  generalize (if p.apart then p else p.put " ").inScalar = q at hgap
  generalize runsOf (c :: rest) = runs at hruns hchars hstart
  cases hstart with
  | spaces h => exact absurd h hplain.space
  | breaks h => exact absurd h (hplain.breaks c List.mem_cons_self)
  | @word w later _ _ =>
    cases hruns with
    | word _ hw hlater =>
      have hfirst : (q.putChars (c :: w)).read = ⟨signs, .lines false (c :: w)⟩ := by
        rw [Page.read_putChars, hgap]
        exact FlowReader.read_firstWord signs hplain fun d hd => hw d (List.mem_cons_of_mem _ hd)
      have hwithin : (writeRuns indent split id false (q.putChars (c :: w)) later).Within signs
          false ((c :: w) ++ later.flatMap Run.chars) :=
        within_writeRuns hindent FlowReader.read_plainWord hlater (.of_read hfirst .lines)
          (.inl (by rw [hfirst]))
      rw [List.flatMap_cons, Run.chars] at hchars
      rw [hchars] at hwithin
      exact ⟨_, .plain hwithin.spot, congrArg (· ++ _) hwithin.signs⟩

theorem shows_writeSingle (hindent : indent ≤ Page.bestWidth) (hp : p.AtGap signs)
    (hsb : Analysis.hasPair Analysis.isSpace Analysis.isBreak s.toList = false)
    (hbs : Analysis.hasPair Analysis.isBreak Analysis.isSpace s.toList = false) :
    (writeSingle indent split s p).Shows (signs ++ [.scalar s.toList]) := by
  have hquote : (p.mark "'" true).read = ⟨signs, .lines true []⟩ := hp.mark "'" true false false
  have hruns : Separate (fun c => c ≠ ' ' ∧ c ≠ '\n') (runsOf s.toList) :=
    separate_runsOf hsb hbs fun _ _ hspace hbreak => ⟨hspace, hbreak⟩
  have hwithin : (writeRuns indent split doubleQuotes true (p.mark "'" true)
      (runsOf s.toList)).Within signs true ([] ++ (runsOf s.toList).flatMap Run.chars) :=
    within_writeRuns hindent FlowReader.read_quotedWord hruns (.of_read hquote .lines)
      (.inl (by rw [hquote]))
  rw [List.nil_append, flatMap_chars_runsOf] at hwithin
  have hclosed : (writeSingle indent split s p).read = ⟨signs, .quote s.toList⟩ := by
    rw [writeSingle, Page.read_mark, if_pos (by simp)]
    change FlowReader.next _ '\'' = _
    rw [FlowReader.next_of_inLines hwithin.spot (by decide) (by decide), hwithin.signs]
    rfl
  refine ⟨[.scalar s.toList], ?_, ?_⟩
  · rw [hclosed]
    exact .quote
  · rw [hclosed]

end

/-! ## Scalars between double quotes -/

/-- A spot between double quotes, with the characters so far. -/
inductive Spot.InDouble : Spot → List Char → Prop
  | double {cs : List Char} : InDouble (.double cs) cs
  | broken {cs : List Char} : InDouble (.doubleBroken cs) cs

namespace FlowReader

variable {r : FlowReader} {cs : List Char} {c : Char}

theorem next_of_inDouble (h : r.spot.InDouble cs) (hspace : c ≠ ' ') :
    r.next c = inDouble r.signs cs c := by
  obtain ⟨signs, spot⟩ := r
  cases h with
  | double => rfl
  | broken => simp only [next, if_neg hspace]

theorem next_backslash (h : r.spot.InDouble cs) : r.next '\\' = ⟨r.signs, .escape cs⟩ := by
  rw [next_of_inDouble h (by decide)]
  rfl

theorem next_escape (signs : List Sign) (cs : List Char) (c : Char) :
    (FlowReader.mk signs (.escape cs)).next c = ⟨signs, escaped cs c⟩ := rfl

theorem escaped_letter (cs : List Char) :
    ∀ e ∈ letterEscapes, escaped cs e.2 = .double (cs ++ [e.1]) := by
  intro e he
  simp only [letterEscapes, List.mem_cons, List.not_mem_nil, or_false] at he
  rcases he with
    rfl | rfl | rfl | rfl | rfl | rfl | rfl | rfl | rfl | rfl | rfl | rfl | rfl | rfl | rfl <;> rfl

theorem digitValue_digitChar : ∀ d < 16, digitValue (Nat.digitChar d).toUpper = d := by decide

theorem read_hexDigits (signs : List Sign) (cs : List Char) : ∀ k n j value : Nat,
    (FlowReader.mk signs (.digits cs (k + j) value)).read (hexDigits k n)
      = ⟨signs, .digits cs j (value * 16 ^ k + n % 16 ^ k)⟩
  | 0, n, j, value => by simp [hexDigits, Nat.mod_one]
  | k + 1, n, j, value => by
    rw [hexDigits, read_append, Nat.add_assoc, Nat.add_comm 1,
      read_hexDigits signs cs k (n / 16) (j + 1) value, read_cons, read_nil, next]
    simp only [digitValue_digitChar _ (Nat.mod_lt n (by decide))]
    have hmod : n % 16 ^ (k + 1) = n % 16 + 16 * (n / 16 % 16 ^ k) := by
      rw [Nat.pow_succ', Nat.mod_mul]
    rw [hmod, Nat.pow_succ]
    congr 2
    ring

theorem read_character (signs : List Sign) (cs : List Char) (k n : Nat) (hn : n < 16 ^ (k + 1)) :
    (FlowReader.mk signs (.digits cs k 0)).read (hexDigits (k + 1) n)
      = ⟨signs, .double (cs ++ [Char.ofNat n])⟩ := by
  have hhead := read_hexDigits signs cs k (n / 16) 0 0
  rw [Nat.add_zero] at hhead
  rw [hexDigits, read_append, hhead, read_cons, read_nil, next]
  simp only [digitValue_digitChar _ (Nat.mod_lt n (by decide))]
  have hdiv : n / 16 < 16 ^ k := by
    rw [Nat.pow_succ] at hn
    exact Nat.div_lt_of_lt_mul (by rwa [Nat.mul_comm])
  have hvalue : 16 * (0 * 16 ^ k + n / 16 % 16 ^ k) + n % 16 = n := by
    rw [Nat.mod_eq_of_lt hdiv]
    omega
  rw [hvalue]

theorem read_escape (h : r.spot.InDouble cs) (c : Char) :
    r.read (escape c) = ⟨r.signs, .double (cs ++ [c])⟩ := by
  unfold escape
  split
  · rename_i e he
    obtain rfl : e.1 = c := by simpa using List.find?_some he
    rw [read_cons, next_backslash h, read_cons, read_nil, next_escape,
      escaped_letter cs e (List.mem_of_find?_eq_some he)]
  · have hofNat : Char.ofNat c.toNat = c := Char.ofNat_toNat c
    simp only
    split_ifs with hx hu
    · rw [read_cons, next_backslash h, read_cons]
      exact (read_character r.signs cs 1 c.toNat (by omega)).trans (by rw [hofNat])
    · rw [read_cons, next_backslash h, read_cons]
      exact (read_character r.signs cs 3 c.toNat (by omega)).trans (by rw [hofNat])
    · rw [read_cons, next_backslash h, read_cons]
      exact (read_character r.signs cs 7 c.toNat c.val.toNat_lt).trans (by rw [hofNat])

end FlowReader

/-- A spot between double quotes before some characters. After a break a space is escaped. -/
inductive Spot.Before (cs : List Char) : Spot → List Char → Prop
  | double {rest : List Char} : Before cs (.double cs) rest
  | broken {rest : List Char} (h : rest.head? ≠ some ' ') : Before cs (.doubleBroken cs) rest
  | escape {rest : List Char} (h : rest.head? = some ' ') : Before cs (.escape cs) rest

theorem Spot.before_break (cs rest : List Char) :
    Spot.Before cs (if rest.head? = some ' ' then .escape cs else .doubleBroken cs) rest := by
  split_ifs with h
  · exact .escape h
  · exact .broken h

theorem Spot.Before.inDouble {cs rest : List Char} {spot : Spot} (h : spot.Before cs rest)
    (hspace : rest.head? ≠ some ' ') : spot.InDouble cs := by
  cases h with
  | double => exact .double
  | broken _ => exact .broken
  | escape h => exact absurd h hspace

theorem Spot.Before.next {cs rest : List Char} {r : FlowReader} {c : Char}
    (h : r.spot.Before cs (c :: rest)) (hc : needsEscape c = false) :
    r.next c = ⟨r.signs, .double (cs ++ [c])⟩ := by
  have hne : c ≠ '"' ∧ c ≠ '\\' := by
    constructor <;> rintro rfl <;> exact absurd hc (by decide)
  have hinDouble : FlowReader.inDouble r.signs cs c = ⟨r.signs, .double (cs ++ [c])⟩ := by
    rw [FlowReader.inDouble, if_neg hne.1, if_neg hne.2]
  obtain ⟨signs, spot⟩ := r
  cases h with
  | double => exact hinDouble
  | broken hspace =>
    rw [FlowReader.next_of_inDouble .broken (fun h => hspace (by rw [h]; rfl)), hinDouble]
  | escape hspace =>
    obtain rfl : c = ' ' := Option.some.inj hspace
    rfl

theorem read_breakDouble (indent : Nat) (word : List Char) (next : Option Char) {p : Page}
    {signs : List Sign} {cs : List Char} {spot : Spot} (hlong : indent < p.column + word.length + 1)
    (hread : p.read.read word = ⟨signs, spot⟩) (hspot : spot.InDouble cs) :
    (breakDouble indent word next p).read
        = ⟨signs, if next = some ' ' then .escape cs else .doubleBroken cs⟩
      ∧ (breakDouble indent word next p).column ≤ indent + 1 := by
  have hput : (p.putChars (word ++ ['\\'])).read = ⟨signs, .escape cs⟩ := by
    rw [Page.read_putChars, FlowReader.read_append, hread]
    exact FlowReader.next_backslash (r := ⟨signs, spot⟩) hspot
  have hcolumn : indent < (p.putChars (word ++ ['\\'])).column := by
    rw [Page.putChars, Page.put, String.length_ofList, List.length_append, List.length_singleton]
    omega
  have hnext : (p.putChars (word ++ ['\\'])).read.next '\n' = ⟨signs, .doubleBroken cs⟩ := by
    rw [hput]
    rfl
  have hindent : ((p.putChars (word ++ ['\\'])).indentTo indent).inScalar.read
      = ⟨signs, .doubleBroken cs⟩ := by
    rw [Page.read_inScalar, Page.read_indentTo_of_lt hcolumn (by rw [hnext]; rfl), hnext]
  have hline : ((p.putChars (word ++ ['\\'])).indentTo indent).inScalar.column = indent :=
    Page.column_indentTo_of_lt hcolumn
  unfold breakDouble
  simp only
  split_ifs
  · refine ⟨?_, ?_⟩
    · rw [Page.read_put, hindent]
      rfl
    · change _ + 1 ≤ _
      rw [hline]
  · exact ⟨hindent, by omega⟩

theorem head?_ne_space_of_needsEscape {c : Char} {rest : List Char} (h : needsEscape c = true) :
    (c :: rest).head? ≠ some ' ' := by
  rintro hc
  obtain rfl : c = ' ' := Option.some.inj hc
  exact absurd h (by decide)

-- The invariant is about the page with the word on it: a backslash at its end waits for a space, and
-- then nothing of the word is left and the line has room.
theorem read_writeDoubleFrom {indent : Nat} (hindent : indent < Page.bestWidth) {split : Bool}
    {signs : List Sign} : ∀ {rest : List Char} {first : Bool} {word : List Char} {p : Page}
      {cs : List Char} {spot : Spot}, p.read.read word.reverse = ⟨signs, spot⟩ →
      spot.Before cs rest → (rest.head? = some ' ' → spot = .escape cs →
        word = [] ∧ p.column ≤ Page.bestWidth) →
      ∃ spot', (writeDoubleFrom indent split first word p rest).read = ⟨signs, spot'⟩
        ∧ spot'.InDouble (cs ++ rest) := by
  intro rest
  induction rest with
  | nil =>
    intro first word p cs spot hread hspot _
    rw [List.append_nil]
    exact ⟨spot, by rw [writeDoubleFrom, Page.read_putChars, hread], hspot.inDouble nofun⟩
  | cons c rest ih =>
    intro first word p cs spot hread hspot hspace
    have hdouble : needsEscape c = true →
        ((p.putChars word.reverse).putChars (escape c)).read = ⟨signs, .double (cs ++ [c])⟩ := by
      intro hescape
      rw [Page.read_putChars, Page.read_putChars, hread]
      exact FlowReader.read_escape (r := ⟨signs, spot⟩)
        (hspot.inDouble (head?_ne_space_of_needsEscape hescape)) c
    rw [List.append_cons]
    unfold writeDoubleFrom
    simp only
    split_ifs with hescape hfull hbreak
    · -- an escape, and then a new line
      rw [Bool.and_eq_true, decide_eq_true_eq] at hfull
      obtain ⟨hbroken, hcolumn⟩ :=
        read_breakDouble indent [] rest.head? (by omega) (hdouble hescape) .double
      exact ih hbroken (Spot.before_break _ _) fun _ _ => ⟨rfl, by omega⟩
    · exact ih (hdouble hescape) .double nofun
    · -- a new line before the character, which an escape at the end of the last line would exclude
      have hplain : needsEscape c = false := Bool.eq_false_iff.2 hescape
      rw [Bool.and_eq_true, decide_eq_true_eq] at hbreak
      have hin : spot.InDouble cs := by
        cases hspot with
        | double => exact .double
        | broken _ => exact .broken
        | escape h =>
          obtain ⟨rfl, hcolumn⟩ := hspace h rfl
          exact absurd hbreak.2 (by simpa using hcolumn)
      obtain ⟨hbroken, -⟩ := read_breakDouble indent word.reverse (some c)
        (by rw [List.length_reverse]; omega) hread hin
      refine ih ?_ .double nofun
      rw [hbroken]
      exact Spot.Before.next (r := ⟨signs, _⟩) (Spot.before_break cs (c :: rest)) hplain
    · have hnext := Spot.Before.next (r := ⟨signs, spot⟩) hspot (Bool.eq_false_iff.2 hescape)
      refine ih ?_ .double nofun
      rw [List.reverse_cons, FlowReader.read_append, hread]
      exact hnext

section

variable {indent : Nat} {split : Bool} {s : String} {p : Page} {signs : List Sign}

theorem shows_writeDouble (hindent : indent < Page.bestWidth) (hp : p.AtGap signs) :
    (writeDouble indent split s p).Shows (signs ++ [.scalar s.toList]) := by
  have hquote : (p.mark "\"" true).read = ⟨signs, .double []⟩ := hp.mark "\"" true false false
  have hinner : ∃ spot, (writeDoubleFrom indent split true [] (p.mark "\"" true) s.toList).read
      = ⟨signs, spot⟩ ∧ spot.InDouble ([] ++ s.toList) :=
    read_writeDoubleFrom hindent hquote .double nofun
  obtain ⟨spot, hread, hspot⟩ := hinner
  have hclosed : (writeDouble indent split s p).read = ⟨signs ++ [.scalar s.toList], .gap⟩ := by
    rw [writeDouble, Page.read_mark, if_pos (by simp), hread]
    exact FlowReader.next_of_inDouble (r := ⟨signs, spot⟩) hspot (by decide)
  refine ⟨[], ?_, ?_⟩
  · rw [hclosed]
    exact .gap
  · rw [hclosed, List.append_nil]

/-- However a text is quoted in flow style, it is read again. -/
theorem shows_writeText (hindent : indent < Page.bestWidth) (hp : p.AtGap signs) (isKey : Bool) :
    (writeText ⟨true, isKey⟩ (ScalarType.ofPlain s = .text) indent s p).Shows
      (signs ++ [.scalar s.toList]) := by
  unfold writeText
  generalize hq : quotingOf ⟨true, isKey⟩ (ScalarType.ofPlain s = .text) s = q
  unfold quotingOf at hq
  simp only [↓reduceIte] at hq
  cases q with
  | double => exact shows_writeDouble hindent hp
  | single =>
    split_ifs at hq with _ hsingle
    rw [Bool.and_eq_true] at hsingle
    obtain ⟨hsb, hbs⟩ := Analysis.of_singleQuoted hsingle.1
    exact shows_writeSingle hindent.le hp hsb hbs
  | plain =>
    split_ifs at hq with hplain
    rw [Bool.and_eq_true, Bool.and_eq_true, decide_eq_true_eq] at hplain
    obtain ⟨⟨htext, -⟩, hflow⟩ := hplain
    cases hs : s.toList with
    | nil =>
      rw [String.toList_eq_nil_iff] at hs
      subst hs
      exact absurd htext (by decide +kernel)
    | cons c rest =>
      rw [← hs]
      exact shows_writePlain hindent.le hp hs (Analysis.of_flowPlain hs hflow)

end

/-! ## Values -/

namespace Page

variable {p : Page} {signs : List Sign}

theorem AtGap.shows (h : p.AtGap signs) : p.Shows signs :=
  ⟨[], by rw [h.read]; exact .gap, by rw [h.read, List.append_nil]⟩

theorem AtGap.breakIfFull (h : p.AtGap signs) (indent : Nat) :
    (Yaml.breakIfFull indent p).AtGap signs :=
  ⟨(read_breakIfFull_of_gap (by rw [h.read]) indent).trans h.read⟩

theorem Shows.mark (h : p.Shows signs) {c : Char} (hc : c ∈ [',', ':', ']', '\x7d'])
    (apart entry : Bool) :
    (p.mark (String.singleton c) false apart entry).read = FlowReader.startAt signs c := by
  obtain ⟨pending, hends, rfl⟩ := h
  rw [read_mark, if_pos (by simp), String.toList_singleton, FlowReader.read_cons,
    FlowReader.read_nil, FlowReader.next_of_ends hends hc]

theorem Shows.atGap_mark (h : p.Shows signs) {c : Char} (hc : c = ',' ∨ c = ':')
    (apart entry : Bool) :
    (p.mark (String.singleton c) false apart entry).AtGap signs := by
  refine ⟨(h.mark (by rcases hc with rfl | rfl <;> decide) apart entry).trans ?_⟩
  rcases hc with rfl | rfl <;> rfl

theorem Shows.atGap_close (h : p.Shows signs) {c : Char} (hc : c = ']' ∨ c = '\x7d')
    (apart entry : Bool) :
    (p.mark (String.singleton c) false apart entry).AtGap (signs ++ [.closing]) := by
  refine ⟨(h.mark (by rcases hc with rfl | rfl <;> decide) apart entry).trans ?_⟩
  rcases hc with rfl | rfl <;> rfl

theorem AtGap.atGap_open (h : p.AtGap signs) {c : Char} (hc : c = '[' ∨ c = '\x7b')
    (apart entry : Bool) :
    (p.mark (String.singleton c) true apart entry).AtGap (signs ++ [.opening]) := by
  refine ⟨(h.mark _ true apart entry).trans ?_⟩
  rcases hc with rfl | rfl <;> rfl

end Page

/-- A value is written as some signs wherever so many more indentations fit on a line. -/
def Writes (depth : Nat) (v : Yaml) (ts : List Sign) : Prop :=
  ∀ ⦃indent : Nat⦄ ⦃isKey : Bool⦄ ⦃p : Page⦄ ⦃signs : List Sign⦄,
    indent + 2 * depth < Page.bestWidth → p.AtGap signs →
      (writeFlow indent isKey p v).Shows (signs ++ ts)

theorem Writes.mono {depth depth' : Nat} {v : Yaml} {ts : List Sign} (h : Writes depth v ts)
    (hle : depth ≤ depth') : Writes depth' v ts :=
  fun _ _ _ _ hindent hp => h (by omega) hp

theorem writes_text (s : String) : Writes 1 (.text s) [.scalar s.toList] := by
  intro indent isKey p signs hindent hp
  exact shows_writeText (by omega) hp isKey

theorem shows_writeFlowItems {depth indent : Nat} (hindent : indent + 2 * depth < Page.bestWidth)
    {items : List Yaml} {tss : List (List Sign)} (h : List.Forall₂ (Writes depth) items tss) :
    ∀ {first : Bool} {p : Page} {signs : List Sign}, p.Shows signs →
      (first = true → p.AtGap signs) →
      (writeFlowItems indent first p items).Shows (signs ++ tss.flatten) := by
  induction h with
  | nil =>
    intro first p signs hp _
    rw [writeFlowItems, List.flatten_nil, List.append_nil]
    exact hp
  | @cons v ts items tss hv _ ih =>
    intro first p signs hp hfirst
    have hgap : (if first then p else p.mark "," false).AtGap signs := by
      split_ifs with h
      · exact hfirst h
      · exact hp.atGap_mark (.inl rfl) false false
    rw [writeFlowItems, List.flatten_cons, ← List.append_assoc]
    exact ih (hv hindent (hgap.breakIfFull indent)) nofun

theorem writes_sequence {depth : Nat} {items : List Yaml} {tss : List (List Sign)}
    (h : List.Forall₂ (Writes depth) items tss) :
    Writes (depth + 1) (.sequence items) (.opening :: tss.flatten ++ [.closing]) := by
  intro indent isKey p signs hindent hp
  have hopen : (p.mark "[" true true).AtGap (signs ++ [.opening]) :=
    hp.atGap_open (.inl rfl) true false
  have hitems : (writeFlowItems (indent + 2) true (p.mark "[" true true) items).Shows
      (signs ++ [.opening] ++ tss.flatten) :=
    shows_writeFlowItems (by omega) h hopen.shows fun _ => hopen
  rw [writeFlow]
  have hclosed := (hitems.atGap_close (c := ']') (.inl rfl) false false).shows
  simpa using hclosed

/-- The signs of some texts. -/
def Sign.texts (ss : List String) : List Sign := ss.map fun s => .scalar s.toList

theorem writes_texts (ss : List String) :
    Writes 2 (.texts ss) (.opening :: Sign.texts ss ++ [.closing]) := by
  have h : List.Forall₂ (Writes 1) (ss.map Yaml.text) (ss.map fun s => [Sign.scalar s.toList]) := by
    rw [List.forall₂_map_left_iff, List.forall₂_map_right_iff]
    exact List.forall₂_same.2 fun s _ => writes_text s
  have hflatten : (ss.map fun s => [Sign.scalar s.toList]).flatten = Sign.texts ss := by
    rw [← List.flatMap_def, Sign.texts, List.map_eq_flatMap]
  have := writes_sequence h
  rwa [hflatten] at this

/-- The signs of fields, given those of the values. -/
def Sign.fields (fields : List (String × Yaml)) (tss : List (List Sign)) : List Sign :=
  (List.zipWith (fun f ts => .scalar f.1.toList :: ts) fields tss).flatten

theorem Sign.fields_cons (f : String × Yaml) (fields : List (String × Yaml)) (ts : List Sign)
    (tss : List (List Sign)) :
    Sign.fields (f :: fields) (ts :: tss) = .scalar f.1.toList :: (ts ++ Sign.fields fields tss) :=
  rfl

/-- Fields with short names are written as the names and the values. -/
theorem shows_writeFlowEntries {depth indent : Nat} (hindent : indent + 2 * depth < Page.bestWidth)
    (hdepth : 1 ≤ depth) {fields : List (String × Yaml)} {tss : List (List Sign)}
    (h : List.Forall₂ (fun f => Writes depth f.2) fields tss)
    (hkeys : ∀ f ∈ fields, isSimpleKey (.text f.1) = true) :
    ∀ {first : Bool} {p : Page} {signs : List Sign}, p.Shows signs →
      (first = true → p.AtGap signs) →
      (writeFlowEntries indent first p (fields.map fun f => (.text f.1, f.2))).Shows
        (signs ++ Sign.fields fields tss) := by
  induction h with
  | nil =>
    intro first p signs hp _
    rw [List.map_nil, writeFlowEntries, Sign.fields, List.zipWith_nil_left, List.flatten_nil,
      List.append_nil]
    exact hp
  | @cons f ts fields tss hv _ ih =>
    intro first p signs hp hfirst
    have hgap : (if first then p else p.mark "," false).AtGap signs := by
      split_ifs with h
      · exact hfirst h
      · exact hp.atGap_mark (.inl rfl) false false
    have hkey : (writeFlow indent true (breakIfFull indent (if first then p else p.mark "," false))
        (.text f.1)).Shows (signs ++ [.scalar f.1.toList]) :=
      writes_text f.1 (by omega) (hgap.breakIfFull indent)
    rw [List.map_cons, writeFlowEntries, Sign.fields_cons, List.append_cons, ← List.append_assoc]
    simp only [hkeys f List.mem_cons_self, ↓reduceIte]
    exact ih (fun g hg => hkeys g (List.mem_cons_of_mem _ hg))
      (hv hindent (hkey.atGap_mark (.inr rfl) false false)) nofun

/-- A document in flow style whose fields have short names is read again. -/
theorem read_renderFlow {depth : Nat} (hdepth : 1 ≤ depth) (hwidth : 2 + 2 * depth < Page.bestWidth)
    {fields : List (String × Yaml)} {tss : List (List Sign)}
    (h : List.Forall₂ (fun f => Writes depth f.2) fields tss)
    (hkeys : ∀ f ∈ fields, isSimpleKey (.text f.1) = true) :
    (FlowReader.read {} (renderFlow (.ofFields fields)).toList).signs
      = .opening :: Sign.fields fields tss ++ [.closing] := by
  have hempty : Page.AtGap {} [] := ⟨rfl⟩
  have hopen : (Page.mark {} "\x7b" true true).AtGap [.opening] :=
    hempty.atGap_open (.inr rfl) true false
  have hentries : (writeFlowEntries 2 true (Page.mark {} "\x7b" true true)
      (fields.map fun f => (.text f.1, f.2))).Shows ([.opening] ++ Sign.fields fields tss) :=
    shows_writeFlowEntries hwidth hdepth h hkeys hopen.shows fun _ => hopen
  have hclosed := hentries.atGap_close (c := '\x7d') (.inr rfl) false false
  rw [Yaml.ofFields, renderFlow]
  exact (congrArg FlowReader.signs hclosed.read).trans (by simp)

namespace Sign

theorem texts_append_closing_inj : ∀ {ss ss' : List String} {ts ts' : List Sign},
    texts ss ++ closing :: ts = texts ss' ++ closing :: ts' → ss = ss' ∧ ts = ts'
  | [], [], _, _, h => ⟨rfl, (List.cons.inj h).2⟩
  | [], _ :: _, _, _, h => nomatch (List.cons.inj h).1
  | _ :: _, [], _, _, h => nomatch (List.cons.inj h).1
  | s :: ss, s' :: ss', ts, ts', h => by
    obtain ⟨hs, htail⟩ := List.cons.inj h
    obtain rfl : s = s' := String.toList_inj.1 (Sign.scalar.inj hs)
    obtain ⟨hss, hts⟩ := texts_append_closing_inj htail
    exact ⟨congrArg (s :: ·) hss, hts⟩

end Sign

end ShaderGraph.Yaml
