import Mathlib.Algebra.Order.Group.Int
import ShaderGraph.Proofs.Legible
import ShaderGraph.Source.Scan

/-!
# Reading stretches of a source

What a scan does with a whole stretch of a source: a line of blanks, a comment or a directive, the
parts of a function one after the other. Each stretch is read by induction on its characters, from
any draft, line and functions found before, so stretches can be put together.
-/

namespace ShaderGraph

open Text

theorem lineBreaks_append (cs ds : List Char) :
    lineBreaks (cs ++ ds) = lineBreaks cs + lineBreaks ds :=
  List.countP_append

theorem lineBreaks_cons (c : Char) (cs : List Char) :
    lineBreaks (c :: cs) = lineBreaks [c] + lineBreaks cs :=
  lineBreaks_append [c] cs

theorem lineBreaks_singleton (c : Char) : lineBreaks [c] = if isLineBreak c then 1 else 0 := by
  rw [lineBreaks, List.countP_singleton]

theorem lineBreaks_eq_zero {cs : List Char} (h : ∀ c ∈ cs, isLineBreak c = false) :
    lineBreaks cs = 0 :=
  List.countP_eq_zero.2 fun c hc => by simp [h c hc]

theorem isLineBreak_of_not_blank {c : Char} (h : isBlank c = false) : isLineBreak c = false := by
  cases hb : isLineBreak c with
  | false => rfl
  | true => rw [isBlank_of_isLineBreak hb] at h; cases h

theorem joinCrLf_of_not_mem {cs : List Char} (h : '\r' ∉ cs) : joinCrLf cs = cs := by
  induction cs using joinCrLf.induct with
  | case1 => rfl
  | case2 cs ih => simp at h
  | case3 c cs hc ih =>
    rw [joinCrLf, ih fun hr => h (List.mem_cons_of_mem _ hr)]
    exact hc

theorem push_append_ofList (s : String) (c : Char) (cs : List Char) :
    s.push c ++ String.ofList cs = s ++ String.ofList (c :: cs) := by
  rw [← String.toList_inj]
  simp

theorem append_ofList_nil (s : String) : s ++ String.ofList [] = s := by
  rw [← String.toList_inj]
  simp

namespace ScanState

variable {n : Nat} {F : List ShaderFunction}

theorem feedAll_append {s t u : ScanState} {cs ds : List Char} (h : s.feedAll cs = .ok t)
    (h' : t.feedAll ds = .ok u) : s.feedAll (cs ++ ds) = .ok u := by
  induction cs generalizing s with
  | nil =>
    cases h
    exact h'
  | cons c cs ih =>
    rw [List.cons_append, feedAll]
    rw [feedAll] at h
    split at h
    · cases h
    · exact ih h

theorem countLine_eq (sc : Scope) (n : Nat) (F : List ShaderFunction) (c : Char) :
    countLine ⟨sc, n, F⟩ c = ⟨sc, n + lineBreaks [c], F⟩ := by
  rw [lineBreaks_singleton]
  unfold countLine
  split <;> rfl

/-- A character that is taken is read once, and the rest goes on from there. -/
theorem feedAll_of_taken {sc : Scope} {c : Char} {cs : List Char} {t u : ScanState}
    (h : lookIn ⟨sc, n + lineBreaks [c], F⟩ c = .ok (.taken t)) (h' : t.feedAll cs = .ok u) :
    feedAll ⟨sc, n, F⟩ (c :: cs) = .ok u := by
  rw [feedAll, feed, look, countLine_eq, h]
  exact h'

/-! ## Lines between functions -/

theorem feedAll_indent {p : Option Draft} :
    ∀ {cs : List Char}, (∀ c ∈ cs, isBlank c = true ∧ isLineBreak c = false) →
      feedAll ⟨.outside p, n, F⟩ cs = .ok ⟨.outside p, n, F⟩
  | [], _ => rfl
  | c :: cs, h => by
    obtain ⟨hb, hl⟩ := h c List.mem_cons_self
    refine feedAll_of_taken (t := ⟨.outside p, n, F⟩) ?_
      (feedAll_indent fun d hd => h d (List.mem_cons_of_mem _ hd))
    simp [lookIn, lookOutside, lineBreaks_singleton, hb, hl]

theorem feedAll_blankLine :
    ∀ {cs : List Char} {n : Nat} {p : Option Draft}, (∀ c ∈ cs, isBlank c = true) →
      feedAll ⟨.outside p, n, F⟩ (cs ++ ['\n'])
        = .ok ⟨.outside none, n + lineBreaks (cs ++ ['\n']), F⟩
  | [], n, p, _ => rfl
  | c :: cs, n, p, h => by
    have ih : ∀ q, feedAll ⟨.outside q, n + lineBreaks [c], F⟩ (cs ++ ['\n'])
        = .ok ⟨.outside none, n + lineBreaks [c] + lineBreaks (cs ++ ['\n']), F⟩ :=
      fun q => feedAll_blankLine fun d hd => h d (List.mem_cons_of_mem _ hd)
    rw [List.cons_append, lineBreaks_cons, ← Nat.add_assoc]
    refine feedAll_of_taken ?_ (ih (if isLineBreak c then none else p))
    simp only [lookIn, lookOutside, h c List.mem_cons_self]
    split <;> simp_all

/-- A character between functions that is put back is read where it leads to. -/
theorem feed_opened {p : Option Draft} {c : Char} (hb : isBlank c = false) (hc : c ≠ '}') :
    feed ⟨.outside p, n, F⟩ c = feed ⟨.opened c (p.getD {}), n, F⟩ c := by
  have hl := isLineBreak_of_not_blank hb
  have hopen : look ⟨.outside p, n, F⟩ c = .ok (.putBack ⟨.opened c (p.getD {}), n, F⟩) := by
    rw [look, countLine_eq, lineBreaks_singleton, hl]
    simp [lookIn, lookOutside, hb, hl, hc]
  rw [feed, hopen, feed]
  simp only [look, countLine_eq, Scope.opened]
  split_ifs <;> simp [lookIn, hb, hl]

theorem feedAll_opened {p : Option Draft} {c : Char} {cs : List Char} (hb : isBlank c = false)
    (hc : c ≠ '}') :
    feedAll ⟨.outside p, n, F⟩ (c :: cs)
      = feedAll ⟨.opened c (p.getD {}), n, F⟩ (c :: cs) := by
  rw [feedAll, feedAll, feed_opened hb hc]

theorem feedAll_comment :
    ∀ {cs : List Char} {d : Draft}, (∀ c ∈ cs, isLineBreak c = false) →
      feedAll ⟨.comment d, n, F⟩ (cs ++ ['\n'])
        = .ok ⟨.outside (some { d with comment := d.comment ++ String.ofList (cs ++ ['\n']) }),
          n + 1, F⟩
  | [], d, _ => by
    refine feedAll_of_taken rfl ?_
    rw [feedAll]
    congr
  | c :: cs, d, h => by
    have hl := h c List.mem_cons_self
    rw [List.cons_append, ← push_append_ofList]
    refine feedAll_of_taken ?_ (feedAll_comment (d := { d with comment := d.comment.push c })
      fun b hb => h b (List.mem_cons_of_mem _ hb))
    simp [lookIn, lineBreaks_singleton, hl]

theorem feedAll_directive {d : Draft} :
    ∀ {cs : List Char}, (∀ c ∈ cs, isLineBreak c = false) →
      feedAll ⟨.directive d, n, F⟩ (cs ++ ['\n']) = .ok ⟨.outside (some d), n + 1, F⟩
  | [], _ => rfl
  | c :: cs, h => by
    have hl := h c List.mem_cons_self
    refine feedAll_of_taken (t := ⟨.directive d, n, F⟩) ?_
      (feedAll_directive fun b hb => h b (List.mem_cons_of_mem _ hb))
    simp [lookIn, lineBreaks_singleton, hl]

theorem feedAll_commentLine {p : Option Draft} {indent text : List Char}
    (hi : ∀ c ∈ indent, isBlank c = true ∧ isLineBreak c = false)
    (ht : ∀ c ∈ text, isLineBreak c = false) :
    feedAll ⟨.outside p, n, F⟩ (indent ++ '/' :: text ++ ['\n'])
      = .ok ⟨.outside (some { p.getD {} with
          comment := (p.getD {}).comment ++ String.ofList ('/' :: text ++ ['\n']) }), n + 1, F⟩ := by
  have hline : ∀ c ∈ '/' :: text, isLineBreak c = false :=
    List.forall_mem_cons.2 ⟨by decide, ht⟩
  rw [List.append_assoc]
  refine feedAll_append (feedAll_indent hi) ?_
  rw [List.cons_append, feedAll_opened (by decide) (by decide)]
  exact feedAll_comment (d := p.getD {}) hline

theorem feedAll_directiveLine {p : Option Draft} {indent text : List Char}
    (hi : ∀ c ∈ indent, isBlank c = true ∧ isLineBreak c = false)
    (ht : ∀ c ∈ text, isLineBreak c = false) :
    feedAll ⟨.outside p, n, F⟩ (indent ++ '#' :: text ++ ['\n'])
      = .ok ⟨.outside (some (p.getD {})), n + 1, F⟩ := by
  have hline : ∀ c ∈ '#' :: text, isLineBreak c = false :=
    List.forall_mem_cons.2 ⟨by decide, ht⟩
  have hread := feedAll_directive (n := n) (F := F) (d := p.getD {}) hline
  rw [List.append_assoc]
  refine feedAll_append (feedAll_indent hi) ?_
  rw [List.cons_append, feedAll_opened (by decide) (by decide)]
  exact hread

/-! ## The parts of a function -/

theorem feedAll_returnType :
    ∀ {cs : List Char} {d : Draft}, (∀ c ∈ cs, isBlank c = false) →
      feedAll ⟨.returnType d, n, F⟩ cs
        = .ok ⟨.returnType { d with returnType := d.returnType ++ String.ofList cs }, n, F⟩
  | [], d, _ => by
    rw [append_ofList_nil]
    rfl
  | c :: cs, d, h => by
    have hb := h c List.mem_cons_self
    rw [← push_append_ofList]
    refine feedAll_of_taken ?_
      (feedAll_returnType (d := { d with returnType := d.returnType.push c })
        fun b hb => h b (List.mem_cons_of_mem _ hb))
    simp [lookIn, lineBreaks_singleton, isLineBreak_of_not_blank hb, hb]

theorem feedAll_blanks_name {d : Draft} :
    ∀ {cs : List Char} {n : Nat}, (∀ c ∈ cs, isBlank c = true) →
      feedAll ⟨.name d, n, F⟩ cs = .ok ⟨.name d, n + lineBreaks cs, F⟩
  | [], n, _ => rfl
  | c :: cs, n, h => by
    have hb := h c List.mem_cons_self
    rw [lineBreaks_cons, ← Nat.add_assoc]
    refine feedAll_of_taken ?_ (feedAll_blanks_name fun b hb => h b (List.mem_cons_of_mem _ hb))
    have hp : c ≠ '(' := by
      rintro rfl
      exact absurd hb (by decide)
    simp [lookIn, hb, hp]

/-- The first blank after the return type ends it, and all of them are skipped. -/
theorem feedAll_gap {d : Draft} {cs : List Char} (hne : cs ≠ [])
    (h : ∀ c ∈ cs, isBlank c = true) :
    feedAll ⟨.returnType d, n, F⟩ cs = .ok ⟨.name d, n + lineBreaks cs, F⟩ := by
  cases cs with
  | nil => exact absurd rfl hne
  | cons c cs =>
    rw [lineBreaks_cons, ← Nat.add_assoc]
    refine feedAll_of_taken ?_ (feedAll_blanks_name fun b hb => h b (List.mem_cons_of_mem _ hb))
    simp [lookIn, h c List.mem_cons_self]

theorem feedAll_name :
    ∀ {cs : List Char} {d : Draft}, (∀ c ∈ cs, isBlank c = false ∧ c ≠ '(') →
      feedAll ⟨.name d, n, F⟩ cs
        = .ok ⟨.name { d with name := d.name ++ String.ofList cs }, n, F⟩
  | [], d, _ => by
    rw [append_ofList_nil]
    rfl
  | c :: cs, d, h => by
    obtain ⟨hb, hp⟩ := h c List.mem_cons_self
    rw [← push_append_ofList]
    refine feedAll_of_taken ?_ (feedAll_name (d := { d with name := d.name.push c })
      fun b hb => h b (List.mem_cons_of_mem _ hb))
    simp [lookIn, lineBreaks_singleton, isLineBreak_of_not_blank hb, hb, hp]

theorem feedAll_blanks_bodyStart {d : Draft} :
    ∀ {cs : List Char} {n : Nat}, (∀ c ∈ cs, isBlank c = true) →
      feedAll ⟨.bodyStart d, n, F⟩ cs = .ok ⟨.bodyStart d, n + lineBreaks cs, F⟩
  | [], n, _ => rfl
  | c :: cs, n, h => by
    rw [lineBreaks_cons, ← Nat.add_assoc]
    refine feedAll_of_taken ?_
      (feedAll_blanks_bodyStart fun b hb => h b (List.mem_cons_of_mem _ hb))
    simp [lookIn, h c List.mem_cons_self]

theorem afterArgument_inside {d : Draft} {k : Nat} {b : Int} {c : Char}
    (hk : 0 ≤ k + net '(' ')' [c]) (hc : c = ',' → 0 < k ∨ b ≠ 0) :
    afterArgument d (k + 1) b c
      = .arguments (d.extendArgument c) ((k + net '(' ')' [c]).toNat + 1)
          (b + net '[' ']' [c]) := by
  have hparens : (if c = '(' then k + 1 + 1 else if c = ')' then k + 1 - 1 else k + 1)
      = (k + net '(' ')' [c]).toNat + 1 := by
    have hcount := natCast_count (o := '(') (c := ')') (q := k + 1) (by decide) k.succ_pos c
    omega
  rw [afterArgument, hparens, count_eq_add_net (by decide)]
  rw [if_neg (Nat.succ_ne_zero _), if_neg]
  rintro ⟨rfl, h1, h0⟩
  have h := hc rfl
  rw [net_other (by decide) (by decide)] at h1 h0
  omega

/-- A text inside the parentheses of an argument list, without a comma between arguments, is added
to the last argument. -/
theorem feedAll_argument :
    ∀ {cs : List Char} {d : Draft} {n k : Nat} {b : Int}, Inside '(' ')' k cs →
      (∀ p, p ++ [','] <+: cs → 0 < k + net '(' ')' p ∨ b + net '[' ']' p ≠ 0) →
      feedAll ⟨.arguments d (k + 1) b, n, F⟩ cs
        = .ok ⟨.arguments { d with current := d.current ++ String.ofList cs }
            ((k + net '(' ')' cs).toNat + 1) (b + net '[' ']' cs), n + lineBreaks cs, F⟩
  | [], d, n, k, b, _, _ => by
    rw [append_ofList_nil, net_nil, net_nil, add_zero, add_zero, Int.toNat_natCast]
    rfl
  | c :: cs, d, n, k, b, hin, hcomma => by
    obtain ⟨-, hin'⟩ := inside_cons.1 hin
    have hk : 0 ≤ k + net '(' ')' [c] := hin'.nonneg
    have ih := feedAll_argument (d := d.extendArgument c) (n := n + lineBreaks [c])
      (k := (k + net '(' ')' [c]).toNat) (b := b + net '[' ']' [c])
      (by rwa [Int.toNat_of_nonneg hk]) fun p hp => by
        have h := hcomma (c :: p) ((List.prefix_cons_inj c).2 hp)
        rw [net_cons c p, net_cons c p] at h
        rw [Int.toNat_of_nonneg hk]
        omega
    rw [lineBreaks_cons, ← Nat.add_assoc, ← push_append_ofList, net_cons c cs, net_cons c cs,
      ← add_assoc, ← add_assoc]
    rw [Int.toNat_of_nonneg hk] at ih
    refine feedAll_of_taken ?_ ih
    have hc : c = ',' → 0 < k ∨ b ≠ 0 := by
      rintro rfl
      have h := hcomma [] (List.prefix_append [','] cs)
      rw [net_nil, net_nil] at h
      omega
    simp only [lookIn, afterArgument_inside hk hc]

/-- An argument is read whole, from the comma or the parenthesis before it. -/
theorem feedAll_isArgument {cs : List Char} (h : IsArgument cs) {d : Draft}
    (hd : d.current = "") :
    feedAll ⟨.arguments d 1 0, n, F⟩ cs
      = .ok ⟨.arguments { d with current := String.ofList cs } 1 (net '[' ']' cs),
          n + lineBreaks cs, F⟩ := by
  have hread := feedAll_argument (F := F) (n := n) (d := d) (k := 0) (b := 0) h.parens.inside
    (by simpa using h.commas)
  rw [h.parens.closed, hd, String.empty_append] at hread
  simpa using hread

/-- The arguments of a list, joined by commas, are read one after the other. -/
theorem feedAll_join :
    ∀ {as : List (List Char)} {a : List Char} {d : Draft} {n : Nat},
      (∀ x ∈ a :: as, IsArgument x) → (∀ x ∈ (a :: as).dropLast, net '[' ']' x = 0) →
      d.current = "" →
      ∃ earlier current b, feedAll ⟨.arguments d 1 0, n, F⟩ ([','].intercalate (a :: as))
          = .ok ⟨.arguments { d with earlier := earlier, current := current } 1 b,
              n + lineBreaks ([','].intercalate (a :: as)), F⟩
        ∧ (current :: earlier).reverse = d.earlier.reverse ++ (a :: as).map String.ofList
  | [], a, d, n, harg, _, hd => by
    rw [List.intercalate_singleton]
    exact ⟨_, _, _, feedAll_isArgument (harg a List.mem_cons_self) hd, by simp⟩
  | a' :: as, a, d, n, harg, hbr, hd => by
    have hread := feedAll_isArgument (n := n) (F := F) (harg a List.mem_cons_self) hd
    rw [hbr a (by simp)] at hread
    have hcomma : ∀ e : Draft, feedAll ⟨.arguments e 1 0, n + lineBreaks a, F⟩ [',']
        = .ok ⟨.arguments e.endArgument 1 0, n + lineBreaks a, F⟩ := fun _ => rfl
    obtain ⟨earlier, current, b, hrest, hargs⟩ := feedAll_join (n := n + lineBreaks a)
      (d := Draft.endArgument { d with current := String.ofList a })
      (fun x hx => harg x (List.mem_cons_of_mem _ hx))
      (fun x hx => hbr x (List.mem_cons_of_mem _ hx)) rfl
    refine ⟨earlier, current, b, ?_, ?_⟩
    · rw [List.intercalate_cons_cons, lineBreaks_append, lineBreaks_append,
        show lineBreaks [','] = 0 from rfl, Nat.add_zero, ← Nat.add_assoc]
      exact feedAll_append (feedAll_append hread (hcomma _)) hrest
    · rw [hargs]
      simp [Draft.endArgument]

/-- The texts of an argument list are the arguments of the draft that has read them. -/
theorem feedAll_argumentList {as : List (List Char)} (h : IsArgumentList as) {d : Draft}
    (hd : d.earlier = []) (hd' : d.current = "") :
    ∃ earlier current b, feedAll ⟨.arguments d 1 0, n, F⟩ ([','].intercalate as)
        = .ok ⟨.arguments { d with earlier := earlier, current := current } 1 b,
            n + lineBreaks ([','].intercalate as), F⟩
      ∧ { d with earlier := earlier, current := current }.arguments = as.map String.ofList := by
  cases as with
  | nil =>
    refine ⟨d.earlier, d.current, 0, rfl, ?_⟩
    simp [Draft.arguments, hd, hd', isBlankText]
  | cons a as =>
    obtain ⟨earlier, current, b, hread, hargs⟩ := feedAll_join (n := n) (F := F) h.arguments
      h.brackets hd'
    refine ⟨earlier, current, b, hread, ?_⟩
    rw [hd, List.reverse_nil, List.nil_append] at hargs
    rw [Draft.arguments, if_neg, hargs]
    intro hblank
    rw [Bool.and_eq_true, List.isEmpty_iff, isBlankText] at hblank
    obtain ⟨hearlier, hcurrent⟩ : earlier = [] ∧ current.toList.all isBlank = true := hblank
    rw [hearlier, List.reverse_singleton, List.map_cons] at hargs
    obtain ⟨ha, has⟩ := List.cons.inj hargs
    have hsingle : (a :: as).length = 1 := by rw [List.map_eq_nil_iff.1 has.symm]; rfl
    rw [ha, String.toList_ofList, h.not_blank hsingle a List.mem_cons_self] at hcurrent
    cases hcurrent

theorem takeBody_inside {sc : Scope} {d : Draft} {k : Nat} {c : Char}
    (hk : 0 ≤ k + net '{' '}' [c]) :
    takeBody ⟨sc, n, F⟩ d (k + 1) c
      = ⟨.body { d with body := d.body.push c } ((k + net '{' '}' [c]).toNat + 1), n, F⟩ := by
  have hbraces : (if c = '{' then k + 1 + 1 else if c = '}' then k + 1 - 1 else k + 1)
      = (k + net '{' '}' [c]).toNat + 1 := by
    have hcount := natCast_count (o := '{') (c := '}') (q := k + 1) (by decide) k.succ_pos c
    omega
  rw [takeBody, hbraces]
  rfl

/-- A text inside the braces of a body is added to it. -/
theorem feedAll_body :
    ∀ {cs : List Char} {d : Draft} {n k : Nat}, Inside '{' '}' k cs →
      feedAll ⟨.body d (k + 1), n, F⟩ cs
        = .ok ⟨.body { d with body := d.body ++ String.ofList cs }
            ((k + net '{' '}' cs).toNat + 1), n + lineBreaks cs, F⟩
  | [], d, n, k, _ => by
    rw [append_ofList_nil, net_nil, add_zero, Int.toNat_natCast]
    rfl
  | c :: cs, d, n, k, hin => by
    obtain ⟨-, hin'⟩ := inside_cons.1 hin
    have hk : 0 ≤ k + net '{' '}' [c] := hin'.nonneg
    have ih := feedAll_body (d := { d with body := d.body.push c }) (n := n + lineBreaks [c])
      (k := (k + net '{' '}' [c]).toNat) (by rwa [Int.toNat_of_nonneg hk])
    rw [lineBreaks_cons, ← Nat.add_assoc, ← push_append_ofList, net_cons c cs, ← add_assoc]
    rw [Int.toNat_of_nonneg hk] at ih
    refine feedAll_of_taken ?_ ih
    simp only [lookIn, takeBody_inside hk]

end ScanState

/-- An argument list is known from its arguments joined by commas: they are read one way only. -/
theorem IsArgumentList.join_inj {as bs : List (List Char)} (ha : IsArgumentList as)
    (hb : IsArgumentList bs) (h : [','].intercalate as = [','].intercalate bs) : as = bs := by
  obtain ⟨earlier, current, k, hread, hargs⟩ := ScanState.feedAll_argumentList (n := 0)
    (F := []) ha (d := {}) rfl rfl
  obtain ⟨earlier', current', k', hread', hargs'⟩ := ScanState.feedAll_argumentList (n := 0)
    (F := []) hb (d := {}) rfl rfl
  rw [h, hread'] at hread
  injection hread with hstate
  injection hstate with hscope
  injection hscope with hdraft
  rw [hdraft, hargs] at hargs'
  exact List.map_injective_iff.2 (fun _ _ => String.ofList_injective) hargs'

end ShaderGraph
