import Mathlib.Data.List.TakeWhile
import ShaderGraph.Pin.Argument
import ShaderGraph.Proofs.Legible

/-!
# Texts that do not part an argument

What is read after the metadata of an argument leaves the brackets around it as they are: it has no
square bracket, its parentheses match and its commas are inside of them. So where an argument ends
is up to its metadata alone. A default value is such a text, since it is a single literal or one
constructor with literals.
-/

namespace ShaderGraph

open Text

namespace Text

variable {o c : Char} {s t : List Char}

theorem net_of_not_mem (ho : o ∉ t) (hc : c ∉ t) : net o c t = 0 := by
  rw [net, List.count_eq_zero.2 ho, List.count_eq_zero.2 hc]
  rfl

theorem inside_of_not_mem {k : Int} (hk : 0 ≤ k) (ho : o ∉ t) (hc : c ∉ t) : Inside o c k t := by
  intro p hp
  rw [net_of_not_mem (fun h => ho (hp.subset h)) (fun h => hc (hp.subset h)), add_zero]
  exact hk

theorem balanced_of_not_mem (ho : o ∉ t) (hc : c ∉ t) : Balanced o c t :=
  ⟨inside_of_not_mem le_rfl ho hc, net_of_not_mem ho hc⟩

/-- After a part that closes what it opens, a text is balanced if the part before is. -/
theorem Balanced.append_iff (ht : Balanced o c t) : Balanced o c (s ++ t) ↔ Balanced o c s := by
  refine ⟨fun h => ⟨(inside_append.1 h.inside).1, ?_⟩, fun h => h.append ht⟩
  have hclosed := h.closed
  rwa [net_append, ht.closed, add_zero] at hclosed

/-- A text without square brackets that closes the parentheses that it opens and has commas only
inside of them. -/
structure SelfContained (t : List Char) : Prop where
  parens : Balanced '(' ')' t
  commas : ∀ p, p ++ [','] <+: t → 0 < net '(' ')' p
  opening : '[' ∉ t
  closing : ']' ∉ t

/-- A character that neither opens, closes nor parts anything. -/
def IsLoose (c : Char) : Prop := c ∉ ['(', ')', '[', ']', ',']

instance : DecidablePred IsLoose := fun c =>
  inferInstanceAs (Decidable (c ∉ ['(', ')', '[', ']', ',']))

theorem isLoose_of {p : Char → Bool} (hp : ∀ d ∈ ['(', ')', '[', ']', ','], p d = false)
    (h : p c = true) : IsLoose c := by
  intro hc
  rw [hp c hc] at h
  cases h

theorem isLoose_of_isBlank (h : isBlank c = true) : IsLoose c := isLoose_of (by decide) h

theorem isLoose_of_isWord (h : isWord c = true) : IsLoose c := isLoose_of (by decide) h

theorem isLoose_of_isDigit (h : isDigit c = true) : IsLoose c := isLoose_of (by decide) h

theorem not_mem_of_loose {d : Char} (hd : d ∈ ['(', ')', '[', ']', ',']) (h : ∀ c ∈ t, IsLoose c) :
    d ∉ t :=
  fun ht => h d ht hd

theorem selfContained_of_loose (h : ∀ c ∈ t, IsLoose c) : SelfContained t where
  parens := balanced_of_not_mem (not_mem_of_loose (by decide) h) (not_mem_of_loose (by decide) h)
  commas p hp := by
    have hcomma : ',' ∈ t := hp.subset (by simp)
    exact absurd hcomma (not_mem_of_loose (by decide) h)
  opening := not_mem_of_loose (by decide) h
  closing := not_mem_of_loose (by decide) h

/-- A comma of a text in two parts is in the first or in the second. -/
theorem comma_cases {p : List Char} (h : p ++ [','] <+: s ++ t) :
    p ++ [','] <+: s ∨ ∃ q, p = s ++ q ∧ q ++ [','] <+: t := by
  obtain ⟨r, hr⟩ := h
  rw [List.append_assoc, List.singleton_append] at hr
  rcases List.append_eq_append_iff.1 hr with ⟨a, rfl, ht⟩ | ⟨q, rfl, rfl⟩
  · cases a with
    | nil => exact .inr ⟨[], by simp, r, by simpa using ht⟩
    | cons x a =>
      obtain ⟨rfl, -⟩ := List.cons.inj ht
      exact .inl ⟨a, by simp⟩
  · exact .inr ⟨q, rfl, r, by simp⟩

/-- A comma in a text between brackets is after the opening one. -/
theorem comma_in_brackets (ho : o ≠ ',') (hc : c ≠ ',') {p : List Char}
    (h : p ++ [','] <+: o :: t ++ [c]) : ∃ q, p = o :: q ∧ q <+: t := by
  cases p with
  | nil =>
    obtain ⟨r, hr⟩ := h
    exact absurd (List.cons.inj hr).1.symm ho
  | cons x p =>
    rw [List.cons_append, List.cons_append, List.cons_prefix_cons] at h
    obtain ⟨rfl, h⟩ := h
    rcases comma_cases h with h | ⟨q, -, hq⟩
    · exact ⟨p, rfl, (List.prefix_append p [',']).trans h⟩
    · have hmem : ',' ∈ [c] := hq.subset (by simp)
      exact absurd (List.mem_singleton.1 hmem).symm hc

theorem SelfContained.append (hs : SelfContained s) (ht : SelfContained t) :
    SelfContained (s ++ t) where
  parens := hs.parens.append ht.parens
  commas p hp := by
    rcases comma_cases hp with hp | ⟨q, rfl, hq⟩
    · exact hs.commas p hp
    · rw [net_append, hs.parens.closed, zero_add]
      exact ht.commas q hq
  opening := by simp [hs.opening, ht.opening]
  closing := by simp [hs.closing, ht.closing]

/-- Parentheses around characters that are loose or commas. -/
theorem selfContained_parens (h : ∀ c ∈ t, IsLoose c ∨ c = ',') :
    SelfContained ('(' :: t ++ [')']) := by
  have hother : ∀ d ∈ ['(', ')', '[', ']'], d ∉ t := by
    intro d hd hdt
    rcases h d hdt with hloose | rfl
    · exact hloose (List.mem_append_left [','] hd)
    · exact absurd hd (by decide)
  have hopen : net '(' ')' ['('] = 1 := by decide
  have hclose : net '(' ')' [')'] = -1 := by decide
  have hnet : ∀ p, p <+: t → net '(' ')' p = 0 := fun p hp =>
    net_of_not_mem (fun hm => hother '(' (by decide) (hp.subset hm))
      fun hm => hother ')' (by decide) (hp.subset hm)
  refine ⟨⟨?_, ?_⟩, fun p hp => ?_, ?_, ?_⟩
  · rw [List.cons_append, inside_cons, inside_append, hopen, hnet t (List.prefix_refl t)]
    refine ⟨le_rfl, inside_of_not_mem (by decide) (hother _ (by decide)) (hother _ (by decide)), ?_⟩
    rw [inside_cons, inside_nil, hclose]
    decide
  · rw [List.cons_append, net_cons, net_append, hopen, hclose, hnet t (List.prefix_refl t)]
    rfl
  · obtain ⟨q, rfl, hq⟩ := comma_in_brackets (by decide) (by decide) hp
    rw [net_cons, hopen, hnet q hq]
    decide
  · simp [hother]
  · simp [hother]

end Text

/-- What follows the metadata of an argument has no say in whether the whole is one. -/
theorem isArgument_append_iff {s t : List Char} (ht : SelfContained t) :
    IsArgument (s ++ t) ↔ IsArgument s := by
  constructor
  · intro h
    exact ⟨ht.parens.append_iff.1 h.parens,
      fun p hp => h.commas p (hp.trans (List.prefix_append s t))⟩
  · intro h
    refine ⟨ht.parens.append_iff.2 h.parens, fun p hp => ?_⟩
    rcases comma_cases hp with hp | ⟨q, rfl, hq⟩
    · exact h.commas p hp
    · refine .inl ?_
      rw [net_append, h.parens.closed, zero_add]
      exact ht.commas q hq

/-! ## Default values -/

/-- From a text to what is left of it after some loose characters. -/
def LooseTo (cs r : List Char) : Prop := ∃ used, (∀ c ∈ used, IsLoose c) ∧ cs = used ++ r

namespace LooseTo

variable {cs r r' : List Char}

theorem refl : LooseTo cs cs := ⟨[], nofun, rfl⟩

theorem trans (h : LooseTo cs r) (h' : LooseTo r r') : LooseTo cs r' := by
  obtain ⟨used, hused, rfl⟩ := h
  obtain ⟨used', hused', rfl⟩ := h'
  exact ⟨used ++ used', List.forall_mem_append.2 ⟨hused, hused'⟩, (List.append_assoc _ _ _).symm⟩

theorem of_cons {c : Char} (hc : IsLoose c) : LooseTo (c :: cs) cs := ⟨[c], by simpa using hc, rfl⟩

theorem dropWhile {p : Char → Bool} (hp : ∀ c, p c = true → IsLoose c) (cs : List Char) :
    LooseTo cs (cs.dropWhile p) :=
  ⟨cs.takeWhile p, fun c hc => hp c (List.mem_takeWhile_imp hc),
    List.takeWhile_append_dropWhile.symm⟩

theorem dropBlanks (cs : List Char) : LooseTo cs (dropBlanks cs) :=
  dropWhile (fun _ => isLoose_of_isBlank) cs

end LooseTo

namespace Literal

theorem looseTo_readSign (cs : List Char) : LooseTo cs (readSign cs).2 := by
  unfold readSign
  split
  · exact (LooseTo.of_cons (by decide)).trans (.dropBlanks _)
  · exact (LooseTo.of_cons (by decide)).trans (.dropBlanks _)
  · exact .refl

theorem looseTo_readDigits? {cs whole fraction r : List Char}
    (h : readDigits? cs = some (whole, fraction, r)) : LooseTo cs r := by
  have hwhole := LooseTo.dropWhile (fun _ => isLoose_of_isDigit) cs
  unfold readDigits? at h
  simp only [] at h
  split at h
  · rename_i cs' hrest
    rw [hrest] at hwhole
    split_ifs at h
    cases h
    exact hwhole.trans ((LooseTo.of_cons (by decide)).trans
      (.dropWhile (fun _ => isLoose_of_isDigit) _))
  · split_ifs at h
    cases h
    exact hwhole

theorem looseTo_dropSuffix (cs : List Char) : LooseTo cs (dropSuffix cs) := by
  unfold dropSuffix
  split
  · exact .of_cons (by decide)
  · exact .refl

theorem looseTo_read? {cs r : List Char} {l : Literal} (h : read? cs = some (l, r)) :
    LooseTo cs r := by
  unfold read? at h
  simp only [] at h
  split at h
  · rename_i r' hdigits
    cases h
    exact (LooseTo.dropBlanks cs).trans <| (looseTo_readSign _).trans <|
      (looseTo_readDigits? hdigits).trans <| (looseTo_dropSuffix _).trans <| .dropBlanks _
  · cases h

/-- Literals with commas between them. -/
theorem exists_of_readList? : ∀ {n : Nat} {cs r : List Char} {ls : List Literal},
    readList? n cs = some (ls, r) → ∃ used, (∀ c ∈ used, IsLoose c ∨ c = ',') ∧ cs = used ++ r
  | 0, _, _, _, h => by cases h
  | 1, cs, r, ls, h => by
    obtain ⟨⟨l, r'⟩, hread, heq⟩ := Option.map_eq_some_iff.1 h
    cases heq
    obtain ⟨used, hused, rfl⟩ := looseTo_read? hread
    exact ⟨used, fun c hc => .inl (hused c hc), rfl⟩
  | n + 2, cs, r, ls, h => by
    rw [readList?] at h
    split at h
    · rename_i l cs' hread
      obtain ⟨⟨ls', r'⟩, hrest, heq⟩ := Option.map_eq_some_iff.1 h
      cases heq
      obtain ⟨used, hused, rfl⟩ := looseTo_read? hread
      obtain ⟨used', hused', rfl⟩ := exists_of_readList? hrest
      refine ⟨used ++ ',' :: used', ?_, by simp⟩
      simp only [List.mem_append, List.mem_cons]
      rintro c (hc | rfl | hc)
      · exact .inl (hused c hc)
      · exact .inr rfl
      · exact hused' c hc
    · cases h
    · simp

end Literal

namespace Quad

theorem readScalar?_eq_some_iff {cs : List Char} {q : Quad} :
    readScalar? cs = some q ↔ ∃ l, Literal.read? cs = some (l, []) ∧ q = uniform l.value := by
  unfold readScalar?
  split
  · rename_i l hread
    simp [hread, eq_comm]
  · rename_i hnone
    simpa using fun l hread => absurd hread (hnone l)

theorem readConstructor?_eq_some_iff {d : Dimension} {cs : List Char} {q : Quad} :
    readConstructor? d cs = some q ↔ ∃ name r r' r'' ls, d.constructor? = some name
      ∧ dropLiteral? name (dropBlanks cs) = some r ∧ dropBlanks r = '(' :: r'
      ∧ Literal.readList? d.size r' = some (ls, ')' :: r'') ∧ dropBlanks r'' = []
      ∧ q = ofList (ls.map (·.value)) := by
  constructor
  · intro h
    unfold readConstructor? at h
    split at h
    · cases h
    · rename_i name hname
      split at h
      · rename_i r' hopen
        obtain ⟨r, hr, hopen⟩ := Option.map_eq_some_iff.1 hopen
        split at h
        · rename_i ls r'' hlist
          split_ifs at h with hend
          exact ⟨name, r, r', r'', ls, hname, hr, hopen, hlist, hend, (Option.some.inj h).symm⟩
        · cases h
      · cases h
  · rintro ⟨name, r, r', r'', ls, hname, hr, hopen, hlist, hend, rfl⟩
    simp [readConstructor?, hname, hr, hopen, hlist, hend]

theorem selfContained_readScalar? {cs : List Char} {q : Quad} (h : readScalar? cs = some q) :
    SelfContained cs := by
  obtain ⟨l, hread, -⟩ := readScalar?_eq_some_iff.1 h
  obtain ⟨used, hused, rfl⟩ := Literal.looseTo_read? hread
  rw [List.append_nil]
  exact selfContained_of_loose hused

theorem selfContained_readConstructor? {d : Dimension} {cs : List Char} {q : Quad}
    (h : readConstructor? d cs = some q) : SelfContained cs := by
  obtain ⟨name, after, r, behind, ls, hname, hafter, hopen, hlist, hend, -⟩ :=
    readConstructor?_eq_some_iff.1 h
  obtain ⟨used, hused, rfl⟩ := Literal.exists_of_readList? hlist
  have hletters : ∀ c ∈ name, IsLoose c := by
    cases d <;> cases hname <;> decide
  have hfront : LooseTo cs ('(' :: (used ++ ')' :: behind)) := by
    rw [← hopen]
    refine (LooseTo.dropBlanks cs).trans ?_
    exact LooseTo.trans ⟨name, hletters, dropLiteral?_eq_some_iff.1 hafter⟩ (.dropBlanks _)
  obtain ⟨front, hloose, rfl⟩ := hfront
  obtain ⟨back, hback, hbehind⟩ := LooseTo.dropBlanks behind
  rw [hend, List.append_nil] at hbehind
  rw [← hbehind] at hback
  have htext : front ++ '(' :: (used ++ ')' :: behind)
      = front ++ ('(' :: used ++ [')']) ++ behind := by simp
  rw [htext]
  exact ((selfContained_of_loose hloose).append (selfContained_parens hused)).append
    (selfContained_of_loose hback)

/-- The text of a default value has no square bracket and commas only in its parentheses. -/
theorem selfContained_read? {d : Dimension} {text : String} {q : Quad}
    (h : read? d text = some q) : SelfContained text.toList := by
  unfold read? at h
  split at h
  · rename_i q' hscalar
    exact selfContained_readScalar? hscalar
  · exact selfContained_readConstructor? h

end Quad

end ShaderGraph
