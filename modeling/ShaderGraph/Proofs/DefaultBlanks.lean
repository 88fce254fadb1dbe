import ShaderGraph.Proofs.MetadataText
import ShaderGraph.Proofs.SelfContained

/-!
# Blanks around default values

A default value is the same with blanks around it: what stands before it is dropped first, and what
stands behind it belongs to no literal and is dropped after the last one.
-/

namespace ShaderGraph

open Text

variable {b : List Char}

namespace Text

theorem dropBlanks_append_eq (cs b : List Char) :
    dropBlanks (cs ++ b) = dropBlanks (dropBlanks cs ++ b) := by
  induction cs with
  | nil => rfl
  | cons c cs ih =>
    by_cases hc : isBlank c = true
    · rwa [List.cons_append, dropBlanks_cons_of_blank hc, dropBlanks_cons_of_blank hc]
    · rw [dropBlanks_cons_of_not_blank (Bool.eq_false_iff.2 hc)]

theorem dropBlanks_of_blanks (hb : ∀ c ∈ b, isBlank c = true) : dropBlanks b = [] :=
  List.dropWhile_eq_nil_iff.2 hb

theorem not_blank_of_dropBlanks {cs r : List Char} {c : Char} (h : dropBlanks cs = c :: r) :
    isBlank c = false := by
  have hc := List.head?_dropWhile_not isBlank cs
  rw [show cs.dropWhile isBlank = c :: r from h] at hc
  simpa using hc

theorem dropBlanks_dropBlanks (cs : List Char) : dropBlanks (dropBlanks cs) = dropBlanks cs := by
  simpa using (dropBlanks_append_eq cs []).symm

/-- Blanks behind a text stay there, unless there is nothing else. -/
theorem dropBlanks_append_cases (hb : ∀ c ∈ b, isBlank c = true) (cs : List Char) :
    (dropBlanks cs = [] ∧ dropBlanks (cs ++ b) = [])
      ∨ ∃ c r, dropBlanks cs = c :: r ∧ dropBlanks (cs ++ b) = c :: (r ++ b) := by
  rw [dropBlanks_append_eq]
  cases hcs : dropBlanks cs with
  | nil => exact .inl ⟨rfl, dropBlanks_of_blanks hb⟩
  | cons c r => exact .inr ⟨c, r, rfl, dropBlanks_cons_of_not_blank (not_blank_of_dropBlanks hcs) _⟩

theorem dropBlanks_append_eq_nil_iff (hb : ∀ c ∈ b, isBlank c = true) {cs : List Char} :
    dropBlanks (cs ++ b) = [] ↔ dropBlanks cs = [] := by
  rcases dropBlanks_append_cases hb cs with ⟨hnil, hboth⟩ | ⟨c, r, hcs, hboth⟩
  · simp [hnil, hboth]
  · simp [hcs, hboth]

theorem dropBlanks_append_eq_cons_iff (hb : ∀ c ∈ b, isBlank c = true) {cs r : List Char} {c : Char} :
    dropBlanks (cs ++ b) = c :: r ↔ ∃ r', dropBlanks cs = c :: r' ∧ r = r' ++ b := by
  rcases dropBlanks_append_cases hb cs with ⟨hnil, hboth⟩ | ⟨d, r', hcs, hboth⟩
  · simp [hnil, hboth]
  · rw [hcs, hboth]
    simp only [List.cons.injEq]
    constructor
    · rintro ⟨rfl, rfl⟩
      exact ⟨r', ⟨rfl, rfl⟩, rfl⟩
    · rintro ⟨r'', ⟨rfl, rfl⟩, rfl⟩
      exact ⟨rfl, rfl⟩

theorem exists_trimChars (cs : List Char) : ∃ a b, (∀ c ∈ a ++ b, isBlank c = true)
    ∧ cs = a ++ trimChars cs ++ b := by
  refine ⟨cs.takeWhile isBlank, ((dropBlanks cs).reverse.takeWhile isBlank).reverse, ?_, ?_⟩
  · simp only [List.mem_append, List.mem_reverse]
    rintro c (hc | hc) <;> exact List.mem_takeWhile_imp hc
  · rw [trimChars, dropTrailingBlanks, List.append_assoc, ← List.reverse_append,
      List.takeWhile_append_dropWhile, List.reverse_reverse, dropBlanks,
      List.takeWhile_append_dropWhile]

theorem trimChars_blanks {a b : List Char} (ha : ∀ c ∈ a, isBlank c = true)
    (hb : ∀ c ∈ b, isBlank c = true) (cs : List Char) : trimChars (a ++ (cs ++ b)) = trimChars cs := by
  rw [trimChars, trimChars, dropBlanks_append ha]
  rcases dropBlanks_append_cases hb cs with ⟨hnil, hboth⟩ | ⟨c, r, hcs, hboth⟩
  · rw [hnil, hboth]
  · have hback : ∀ c ∈ b.reverse, isBlank c = true := fun c hc => hb c (List.mem_reverse.1 hc)
    rw [hcs, hboth, ← List.cons_append, dropTrailingBlanks, List.reverse_append,
      List.dropWhile_append_of_pos hback, dropTrailingBlanks]

theorem takeWhile_append_blanks {p : Char → Bool} (hp : ∀ c, isBlank c = true → p c = false)
    (hb : ∀ c ∈ b, isBlank c = true) (cs : List Char) : (cs ++ b).takeWhile p = cs.takeWhile p :=
  takeWhile_append_of_stop (fun c hc => hp c (hb c (List.mem_of_mem_head? hc))) cs

theorem dropWhile_append_blanks {p : Char → Bool} (hp : ∀ c, isBlank c = true → p c = false)
    (hb : ∀ c ∈ b, isBlank c = true) (cs : List Char) :
    (cs ++ b).dropWhile p = cs.dropWhile p ++ b :=
  dropWhile_append_of_stop (fun c hc => hp c (hb c (List.mem_of_mem_head? hc))) cs

theorem dropLiteral?_append_blanks (hb : ∀ c ∈ b, isBlank c = true) :
    ∀ {p : List Char} (cs : List Char), (∀ c ∈ p, isBlank c = false) →
      dropLiteral? p (cs ++ b) = (dropLiteral? p cs).map (· ++ b)
  | [], cs, _ => rfl
  | c :: p, [], hp => by
    cases b with
    | nil => rfl
    | cons d b =>
      have hne : c ≠ d := by
        rintro rfl
        have hc := hp c List.mem_cons_self
        simp [hb c List.mem_cons_self] at hc
      simp [dropLiteral?, hne]
  | c :: p, d :: cs, hp => by
    rw [List.cons_append, dropLiteral?, dropLiteral?]
    split_ifs
    · exact dropLiteral?_append_blanks hb cs fun e he => hp e (List.mem_cons_of_mem _ he)
    · rfl

end Text

theorem not_isDigit_of_isBlank {c : Char} (h : isBlank c = true) : isDigit c = false := by
  have hcodes : ∀ n ∈ blankCodes, isDigit (Char.ofNat n) = false := by decide +kernel
  rw [← c.ofNat_toNat]
  exact hcodes _ (toNat_mem_blankCodes h)

/-- A character that is no blank is none of the blanks at the head of a text. -/
theorem ne_of_mem_blanks (hb : ∀ c ∈ b, isBlank c = true) {c d : Char} {r : List Char}
    (hc : isBlank c = false) (h : b = d :: r) : d ≠ c := by
  rintro rfl
  rw [hb d (by simp [h])] at hc
  cases hc

namespace Literal

/-- Without a point there are only the digits before it. -/
theorem readDigits?_of_ne {cs : List Char} (h : ∀ r, cs.dropWhile isDigit ≠ '.' :: r) :
    readDigits? cs = if (cs.takeWhile isDigit).isEmpty then none
      else some (cs.takeWhile isDigit, [], cs.dropWhile isDigit) := by
  unfold readDigits?
  split
  · rename_i r hr
    exact absurd hr (h r)
  · rfl

theorem readDigits?_append (hb : ∀ c ∈ b, isBlank c = true) (cs : List Char) :
    readDigits? (cs ++ b) = (readDigits? cs).map fun x => (x.1, x.2.1, x.2.2 ++ b) := by
  have htake := takeWhile_append_blanks (fun _ => not_isDigit_of_isBlank) hb
  have hdrop := dropWhile_append_blanks (fun _ => not_isDigit_of_isBlank) hb
  by_cases hpoint : ∃ r, cs.dropWhile isDigit = '.' :: r
  · obtain ⟨r, hr⟩ := hpoint
    unfold readDigits?
    simp only [htake, hdrop, hr, List.cons_append]
    split_ifs <;> rfl
  · have hcs : ∀ r, cs.dropWhile isDigit ≠ '.' :: r := fun r hr => hpoint ⟨r, hr⟩
    have hboth : ∀ r, (cs ++ b).dropWhile isDigit ≠ '.' :: r := by
      intro r hr
      rw [hdrop] at hr
      cases hd : cs.dropWhile isDigit with
      | nil =>
        rw [hd, List.nil_append] at hr
        exact ne_of_mem_blanks hb (by decide) hr rfl
      | cons c r' =>
        rw [hd, List.cons_append] at hr
        obtain ⟨rfl, -⟩ := List.cons.inj hr
        exact hcs r' hd
    rw [readDigits?_of_ne hcs, readDigits?_of_ne hboth, htake, hdrop]
    split_ifs <;> rfl

theorem dropSuffix_append (hb : ∀ c ∈ b, isBlank c = true) (cs : List Char) :
    dropSuffix (cs ++ b) = dropSuffix cs ++ b := by
  cases cs with
  | nil =>
    cases b with
    | nil => rfl
    | cons d b =>
      have hsuffix : d ≠ 'f' := ne_of_mem_blanks hb (by decide) rfl
      simp [dropSuffix, hsuffix]
  | cons c cs => by_cases hsuffix : c = 'f' <;> simp [dropSuffix, hsuffix]

/-- The digits after the blanks of a text. -/
theorem readDigits?_dropBlanks_append (hb : ∀ c ∈ b, isBlank c = true) (cs : List Char) :
    readDigits? (dropBlanks (cs ++ b))
      = (readDigits? (dropBlanks cs)).map fun x => (x.1, x.2.1, x.2.2 ++ b) := by
  rcases dropBlanks_append_cases hb cs with ⟨hnil, hboth⟩ | ⟨c, r, hcs, hboth⟩
  · rw [hnil, hboth]
    rfl
  · rw [hcs, hboth, ← List.cons_append, readDigits?_append hb]

theorem readDigits?_readSign_append (hb : ∀ c ∈ b, isBlank c = true) (cs : List Char) :
    (readSign (cs ++ b)).1 = (readSign cs).1 ∧ readDigits? (readSign (cs ++ b)).2
      = (readDigits? (readSign cs).2).map fun x => (x.1, x.2.1, x.2.2 ++ b) := by
  have hunsigned (cs : List Char) := readDigits?_append hb cs
  cases cs with
  | nil =>
    cases b with
    | nil => exact ⟨rfl, rfl⟩
    | cons d b =>
      have hminus : d ≠ '-' := ne_of_mem_blanks hb (by decide) rfl
      have hplus : d ≠ '+' := ne_of_mem_blanks hb (by decide) rfl
      simpa [readSign, hminus, hplus] using hunsigned []
  | cons c cs =>
    by_cases hminus : c = '-'
    · subst hminus
      exact ⟨rfl, readDigits?_dropBlanks_append hb cs⟩
    · by_cases hplus : c = '+'
      · subst hplus
        exact ⟨rfl, readDigits?_dropBlanks_append hb cs⟩
      · simpa [readSign, hminus, hplus] using hunsigned (c :: cs)

/-- Blanks behind a text are left over, unless nothing else is. -/
theorem read?_append (hb : ∀ c ∈ b, isBlank c = true) (cs : List Char) :
    read? (cs ++ b) = (read? cs).map fun x => (x.1, dropBlanks (x.2 ++ b)) := by
  unfold read?
  rcases dropBlanks_append_cases hb cs with ⟨hnil, hboth⟩ | ⟨c, r, hcs, hboth⟩
  · rw [hnil, hboth]
    rfl
  · rw [hcs, hboth, ← List.cons_append]
    obtain ⟨hsign, hdigits⟩ := readDigits?_readSign_append hb (c :: r)
    simp only [hsign, hdigits]
    cases readDigits? (readSign (c :: r)).2 with
    | none => rfl
    | some x =>
      simp only [Option.map_some, dropSuffix_append hb]
      rw [dropBlanks_append_eq]

theorem dropBlanks_of_read? {cs r : List Char} {l : Literal} (h : read? cs = some (l, r)) :
    dropBlanks r = r := by
  unfold read? at h
  split at h
  split at h
  · obtain ⟨-, rfl⟩ := Prod.mk.inj (Option.some.inj h)
    exact dropBlanks_dropBlanks _
  · cases h

theorem readList?_of_comma {n : Nat} {cs r : List Char} {l : Literal}
    (h : read? cs = some (l, ',' :: r)) :
    readList? (n + 2) cs = (readList? (n + 1) r).map fun x => (l :: x.1, x.2) := by
  rw [readList?]
  · rw [h]
    rfl
  · exact n.succ_ne_zero

theorem readList?_of_ne {n : Nat} {cs : List Char} (h : ∀ l r, read? cs ≠ some (l, ',' :: r)) :
    readList? (n + 2) cs = none := by
  rw [readList?]
  · split
    · rename_i l r hread
      exact absurd hread (h l r)
    · rfl
  · simp

theorem readList?_append (hb : ∀ c ∈ b, isBlank c = true) : ∀ (n : Nat) (cs : List Char),
    readList? n (cs ++ b) = (readList? n cs).map fun x => (x.1, dropBlanks (x.2 ++ b))
  | 0, _ => rfl
  | 1, cs => by
    rw [readList?, readList?, read?_append hb]
    cases read? cs <;> rfl
  | n + 2, cs => by
    have hcomma : isBlank ',' = false := by decide
    by_cases h : ∃ l r, read? cs = some (l, ',' :: r)
    · obtain ⟨l, r, hread⟩ := h
      have hboth : read? (cs ++ b) = some (l, ',' :: (r ++ b)) := by
        rw [read?_append hb, hread, Option.map_some, List.cons_append,
          dropBlanks_cons_of_not_blank hcomma]
      rw [readList?_of_comma hread, readList?_of_comma hboth, readList?_append hb (n + 1) r]
      cases readList? (n + 1) r <;> rfl
    · have hcs : ∀ l r, read? cs ≠ some (l, ',' :: r) := fun l r hread => h ⟨l, r, hread⟩
      have hboth : ∀ l r, read? (cs ++ b) ≠ some (l, ',' :: r) := by
        intro l r hread
        rw [read?_append hb] at hread
        obtain ⟨⟨l', r'⟩, hread', heq⟩ := Option.map_eq_some_iff.1 hread
        obtain ⟨rfl, hr⟩ := Prod.mk.inj heq
        obtain ⟨r₀, hr', -⟩ := (dropBlanks_append_eq_cons_iff hb).1 hr
        rw [dropBlanks_of_read? hread'] at hr'
        exact hcs l' r₀ (hr' ▸ hread')
      rw [readList?_of_ne hcs, readList?_of_ne hboth]
      rfl

theorem dropBlanks_of_readList? : ∀ {n : Nat} {cs r : List Char} {ls : List Literal},
    readList? n cs = some (ls, r) → dropBlanks r = r
  | 0, _, _, _, h => by cases h
  | 1, cs, r, ls, h => by
    obtain ⟨x, hx, heq⟩ := Option.map_eq_some_iff.1 h
    obtain ⟨-, rfl⟩ := Prod.mk.inj heq
    exact dropBlanks_of_read? hx
  | n + 2, cs, r, ls, h => by
    by_cases hcomma : ∃ l r, read? cs = some (l, ',' :: r)
    · obtain ⟨l, r', hread⟩ := hcomma
      rw [readList?_of_comma hread] at h
      obtain ⟨x, hx, heq⟩ := Option.map_eq_some_iff.1 h
      obtain ⟨-, rfl⟩ := Prod.mk.inj heq
      exact dropBlanks_of_readList? hx
    · rw [readList?_of_ne fun l r hread => hcomma ⟨l, r, hread⟩] at h
      cases h

end Literal

namespace Quad

theorem readScalar?_append (hb : ∀ c ∈ b, isBlank c = true) (cs : List Char) :
    readScalar? (cs ++ b) = readScalar? cs := by
  have hread (l : Literal) : Literal.read? (cs ++ b) = some (l, [])
      ↔ Literal.read? cs = some (l, []) := by
    rw [Literal.read?_append hb]
    constructor
    · intro h
      obtain ⟨⟨l', r⟩, hread, heq⟩ := Option.map_eq_some_iff.1 h
      obtain ⟨rfl, hr⟩ := Prod.mk.inj heq
      rw [dropBlanks_append_eq_nil_iff hb, Literal.dropBlanks_of_read? hread] at hr
      exact hr ▸ hread
    · intro h
      rw [h, Option.map_some, List.nil_append, dropBlanks_of_blanks hb]
  ext q
  simp only [readScalar?_eq_some_iff, hread]

/-- The name of a constructor is not read into the blanks behind a text. -/
theorem dropConstructor_append (hb : ∀ c ∈ b, isBlank c = true) {d : Dimension} {name : List Char}
    (hname : d.constructor? = some name) (cs : List Char) : dropLiteral? name (dropBlanks (cs ++ b))
      = (dropLiteral? name (dropBlanks cs)).map (· ++ b) := by
  have hspec : (∀ c ∈ name, isBlank c = false) ∧ dropLiteral? name [] = none := by
    cases d <;> cases hname <;> decide
  rcases dropBlanks_append_cases hb cs with ⟨hnil, hboth⟩ | ⟨c, r, hcs, hboth⟩
  · rw [hnil, hboth, hspec.2]
    rfl
  · rw [hcs, hboth, ← List.cons_append, dropLiteral?_append_blanks hb _ hspec.1]

theorem readConstructor?_append (hb : ∀ c ∈ b, isBlank c = true) (d : Dimension) (cs : List Char) :
    readConstructor? d (cs ++ b) = readConstructor? d cs := by
  ext q
  rw [readConstructor?_eq_some_iff, readConstructor?_eq_some_iff]
  constructor
  · rintro ⟨name, r, r', r'', ls, hname, hr, hopen, hlist, hend, rfl⟩
    rw [dropConstructor_append hb hname] at hr
    obtain ⟨s, hs, rfl⟩ := Option.map_eq_some_iff.1 hr
    obtain ⟨s', hs', rfl⟩ := (dropBlanks_append_eq_cons_iff hb).1 hopen
    rw [Literal.readList?_append hb] at hlist
    obtain ⟨⟨ls', t⟩, hlist', heq⟩ := Option.map_eq_some_iff.1 hlist
    obtain ⟨rfl, ht⟩ := Prod.mk.inj heq
    obtain ⟨s'', hs'', rfl⟩ := (dropBlanks_append_eq_cons_iff hb).1 ht
    rw [Literal.dropBlanks_of_readList? hlist'] at hs''
    exact ⟨name, s, s', s'', _, hname, hs, hs', hs'' ▸ hlist', (dropBlanks_append_eq_nil_iff hb).1 hend,
      rfl⟩
  · rintro ⟨name, r, r', r'', ls, hname, hr, hopen, hlist, hend, rfl⟩
    have hclose : isBlank ')' = false := by decide
    refine ⟨name, r ++ b, r' ++ b, r'' ++ b, ls, hname, ?_, ?_, ?_, ?_, rfl⟩
    · rw [dropConstructor_append hb hname, hr, Option.map_some]
    · exact (dropBlanks_append_eq_cons_iff hb).2 ⟨r', hopen, rfl⟩
    · rw [Literal.readList?_append hb, hlist, Option.map_some, List.cons_append,
        dropBlanks_cons_of_not_blank hclose]
    · exact (dropBlanks_append_eq_nil_iff hb).2 hend

/-- Blanks around a default value do not matter. -/
theorem read?_trim (d : Dimension) (text : String) : read? d (trim text) = read? d text := by
  obtain ⟨a, b, hblank, htext⟩ := exists_trimChars text.toList
  obtain ⟨ha, hb⟩ := List.forall_mem_append.1 hblank
  have hscalar (cs : List Char) : readScalar? (a ++ cs) = readScalar? cs := by
    rw [readScalar?, readScalar?, Literal.read?, Literal.read?, dropBlanks_append ha]
  have hconstructor (cs : List Char) : readConstructor? d (a ++ cs) = readConstructor? d cs := by
    rw [readConstructor?, readConstructor?, dropBlanks_append ha]
  rw [read?, read?, trim, String.toList_ofList]
  generalize trimChars text.toList = cs at htext
  rw [htext, List.append_assoc, hscalar, hconstructor, readScalar?_append hb,
    readConstructor?_append hb]

end Quad

end ShaderGraph
