import ShaderGraph.Proofs.Reading

/-!
# Scanning what has been written

A source is written item by item: blank lines, comment lines, directives and functions, each ended
by a line feed. A scan finds the functions again, each with the comment lines right before it and
the line on which its body starts: after every item the scan is between functions, and its draft
holds the comment that the next function would get.
-/

namespace ShaderGraph

open Text

/-- A function up to its opening brace, with the blanks between its parts. -/
def ShaderFunction.heading (f : ShaderFunction) (afterType afterName afterArguments : List Char) :
    List Char :=
  f.returnType.toList ++ afterType ++ f.name.toList ++ afterName ++ ['(']
    ++ [','].intercalate (f.arguments.map String.toList) ++ [')'] ++ afterArguments

/-- What a source is written from. The comment and the line of a function are not its own here but
come from where it stands. -/
inductive SourceItem where
  | blankLine (blanks : List Char)
  | comment (indent text : List Char)
  | directive (indent text : List Char)
  | function (f : ShaderFunction) (afterType afterName afterArguments : List Char)
deriving DecidableEq, Repr

namespace SourceItem

/-- An item as it is written, with the line feed that ends it. -/
def render : SourceItem → List Char
  | blankLine blanks => blanks ++ ['\n']
  | comment indent text => indent ++ '/' :: text ++ ['\n']
  | directive indent text => indent ++ '#' :: text ++ ['\n']
  | function f a b c => f.heading a b c ++ '{' :: f.body.toList ++ ['}', '\n']

/-- Items one after the other. -/
def renderAll (items : List SourceItem) : List Char := items.flatMap render

/-- An item that is one line, or one function whose parts can be told apart. -/
def WellFormed : SourceItem → Prop
  | blankLine blanks => ∀ c ∈ blanks, isBlank c = true
  | comment indent text | directive indent text =>
    (∀ c ∈ indent, isBlank c = true ∧ isLineBreak c = false) ∧ ∀ c ∈ text, isLineBreak c = false
  | function f a b c => f.Legible ∧ a ≠ [] ∧ ∀ x ∈ a ++ b ++ c, isBlank x = true

instance : (i : SourceItem) → Decidable i.WellFormed
  | blankLine blanks => inferInstanceAs (Decidable (∀ c ∈ blanks, isBlank c = true))
  | comment indent text | directive indent text => inferInstanceAs <| Decidable <|
    (∀ c ∈ indent, isBlank c = true ∧ isLineBreak c = false) ∧ ∀ c ∈ text, isLineBreak c = false
  | function f a b c => inferInstanceAs <| Decidable <|
    f.Legible ∧ a ≠ [] ∧ ∀ x ∈ a ++ b ++ c, isBlank x = true

/-- Whether an item parts the comments before it from the functions after it. -/
def separates : SourceItem → Bool
  | blankLine _ | function .. => true
  | comment .. | directive .. => false

/-- What an item adds to the comment of the next function. -/
def commentLine : SourceItem → List Char
  | comment _ text => '/' :: text ++ ['\n']
  | blankLine _ | directive .. | function .. => []

/-- The comment of a function that stands after some items: the comment lines after the last of
them that separates. -/
def attachedComment (before : List SourceItem) : List Char :=
  (before.reverse.takeWhile fun i => !i.separates).reverse.flatMap commentLine

/-- The function that an item is after others. -/
def functionAt (before : List SourceItem) : SourceItem → Option ShaderFunction
  | function f a b c =>
    some { f with
      startLine := lineBreaks (renderAll before ++ f.heading a b c),
      comment := String.ofList (attachedComment before) }
  | blankLine _ | comment .. | directive .. => none

/-- The functions among some items that stand after others. -/
def functionsAfter (before : List SourceItem) : List SourceItem → List ShaderFunction
  | [] => []
  | i :: items => (i.functionAt before).toList ++ functionsAfter (before ++ [i]) items

theorem renderAll_append (is js : List SourceItem) :
    renderAll (is ++ js) = renderAll is ++ renderAll js :=
  List.flatMap_append

theorem renderAll_singleton (i : SourceItem) : renderAll [i] = i.render :=
  List.flatMap_singleton _ _

theorem attachedComment_of_separates (before : List SourceItem) {i : SourceItem}
    (h : i.separates = true) : attachedComment (before ++ [i]) = [] := by
  simp [attachedComment, h]

theorem attachedComment_of_not_separates (before : List SourceItem) {i : SourceItem}
    (h : i.separates = false) :
    attachedComment (before ++ [i]) = attachedComment before ++ i.commentLine := by
  simp [attachedComment, h]

end SourceItem

open ScanState

variable {n : Nat} {F : List ShaderFunction}

theorem ShaderFunction.Legible.exists_opening {f : ShaderFunction} (hf : f.Legible) :
    ∃ c cs, f.returnType.toList = c :: cs ∧ c ≠ '#' ∧ c ≠ '/' ∧ c ≠ '}' := by
  have h := hf.opening
  cases hcs : f.returnType.toList with
  | nil => simp [hcs] at h
  | cons c cs =>
    simp only [hcs, List.head?_cons, List.mem_cons, not_or] at h
    obtain ⟨-, hhash, hslash, hbrace, -⟩ := h
    exact ⟨c, cs, rfl, by simpa using hhash, by simpa using hslash, by simpa using hbrace⟩

theorem feedAll_returnType_outside {f : ShaderFunction} (hf : f.Legible) {p : Option Draft}
    {text : String} (hp : p.getD {} = { comment := text }) :
    feedAll ⟨.outside p, n, F⟩ f.returnType.toList
      = .ok ⟨.returnType { comment := text, returnType := f.returnType }, n, F⟩ := by
  obtain ⟨c, cs, hcs, hhash, hslash, hbrace⟩ := hf.exists_opening
  have hb : isBlank c = false := hf.returnType c (by rw [hcs]; exact List.mem_cons_self)
  have hopened : Scope.opened c (p.getD {}) = .returnType { comment := text } := by
    rw [Scope.opened, if_neg hhash, if_neg hslash, hp]
  have hread := feedAll_returnType (n := n) (F := F) (d := { comment := text }) hf.returnType
  rw [String.ofList_toList, String.empty_append] at hread
  rw [← hread, hcs, feedAll_opened hb hbrace, hopened]

theorem lineBreaks_heading {f : ShaderFunction} (hf : f.Legible) (a b c : List Char) :
    lineBreaks (f.heading a b c)
      = lineBreaks a + lineBreaks b + lineBreaks ([','].intercalate (f.arguments.map String.toList))
        + lineBreaks c := by
  simp only [ShaderFunction.heading, lineBreaks_append]
  rw [lineBreaks_eq_zero fun x hx => isLineBreak_of_not_blank (hf.returnType x hx),
    lineBreaks_eq_zero fun x hx => isLineBreak_of_not_blank (hf.name x hx).1,
    show lineBreaks ['('] = 0 from rfl, show lineBreaks [')'] = 0 from rfl]
  omega

/-- A function is read up to its opening brace. -/
theorem feedAll_heading {f : ShaderFunction} (hf : f.Legible) {a b c : List Char} (ha : a ≠ [])
    (hblank : ∀ x ∈ a ++ b ++ c, isBlank x = true) {p : Option Draft} {text : String}
    (hp : p.getD {} = { comment := text }) :
    ∃ d : Draft, feedAll ⟨.outside p, n, F⟩ (f.heading a b c)
        = .ok ⟨.bodyStart d, n + lineBreaks (f.heading a b c), F⟩
      ∧ d.finish = ⟨0, text, f.returnType, f.name, f.arguments, ""⟩ := by
  simp only [List.mem_append, or_imp, forall_and] at hblank
  obtain ⟨⟨hba, hbb⟩, hbc⟩ := hblank
  have hname : ∀ m, feedAll ⟨.name { comment := text, returnType := f.returnType }, m, F⟩
      f.name.toList
        = .ok ⟨.name { comment := text, returnType := f.returnType, name := f.name }, m, F⟩ :=
    fun m => by
      have hread := feedAll_name (n := m) (F := F) hf.name
        (d := { comment := text, returnType := f.returnType })
      rwa [String.ofList_toList, String.empty_append] at hread
  have hopen : ∀ d m, feedAll ⟨.name d, m, F⟩ ['('] = .ok ⟨.arguments d 1 0, m, F⟩ :=
    fun _ _ => rfl
  have hclose : ∀ d b m, feedAll ⟨.arguments d 1 b, m, F⟩ [')'] = .ok ⟨.bodyStart d, m, F⟩ :=
    fun _ _ _ => rfl
  obtain ⟨earlier, current, k, hread, hargs⟩ := feedAll_argumentList (n := n + lineBreaks a + lineBreaks b)
    (F := F) (d := { comment := text, returnType := f.returnType, name := f.name })
    hf.arguments rfl rfl
  have htype := feedAll_returnType_outside (n := n) (F := F) hf hp
  have hfront := feedAll_append (feedAll_append (feedAll_append htype (feedAll_gap ha hba))
    (hname _)) (feedAll_blanks_name hbb)
  have hlist := feedAll_append (feedAll_append hfront (hopen _ _)) hread
  have hend := feedAll_append (feedAll_append hlist (hclose _ _ _)) (feedAll_blanks_bodyStart hbc)
  refine ⟨⟨text, f.returnType, f.name, earlier, current, 0, ""⟩, ?_, ?_⟩
  · rw [lineBreaks_heading hf, ← Nat.add_assoc, ← Nat.add_assoc, ← Nat.add_assoc]
    exact hend
  · rw [Draft.finish, hargs, List.map_map]
    simp

/-- A function that is written out is found when its last brace closes, with the comment of the
draft before it and the line of its opening brace. -/
theorem feedAll_braces {f : ShaderFunction} (hf : f.Legible) {a b c : List Char} (ha : a ≠ [])
    (hblank : ∀ x ∈ a ++ b ++ c, isBlank x = true) {p : Option Draft} {text : String}
    (hp : p.getD {} = { comment := text }) :
    feedAll ⟨.outside p, n, F⟩ (f.heading a b c ++ '{' :: f.body.toList ++ ['}'])
      = .ok ⟨.outside none, n + lineBreaks (f.heading a b c) + lineBreaks f.body.toList,
          { f with startLine := ↑(n + lineBreaks (f.heading a b c)), comment := text } :: F⟩ := by
  obtain ⟨d, hread, hd⟩ := feedAll_heading (n := n) (F := F) hf ha hblank hp
  have hbody := feedAll_body (n := n + lineBreaks (f.heading a b c)) (F := F) (k := 0)
    (d := { d with startLine := n + lineBreaks (f.heading a b c) }) hf.body.inside
  have hfinish : Draft.finish { d with
      startLine := n + lineBreaks (f.heading a b c), body := d.body ++ f.body }
        = { f with startLine := ↑(n + lineBreaks (f.heading a b c)), comment := text } := by
    obtain ⟨-, hcomment, htype, hname, hargs, hempty⟩ := ShaderFunction.mk.inj hd
    rw [hempty, String.empty_append, ← hcomment, ← htype, ← hname, ← hargs]
    rfl
  rw [String.ofList_toList, hf.body.closed] at hbody
  rw [← hfinish]
  exact feedAll_append (feedAll_append hread (feedAll_of_taken rfl hbody)) rfl

theorem feedAll_function {f : ShaderFunction} (hf : f.Legible) {a b c : List Char} (ha : a ≠ [])
    (hblank : ∀ x ∈ a ++ b ++ c, isBlank x = true) {p : Option Draft} {text : String}
    (hp : p.getD {} = { comment := text }) :
    feedAll ⟨.outside p, n, F⟩ (f.heading a b c ++ '{' :: f.body.toList ++ ['}', '\n'])
      = .ok ⟨.outside none, n + lineBreaks (f.heading a b c) + lineBreaks f.body.toList + 1,
          { f with startLine := ↑(n + lineBreaks (f.heading a b c)), comment := text } :: F⟩ := by
  rw [List.append_cons _ '}' ['\n']]
  exact feedAll_append (feedAll_braces hf ha hblank hp) rfl

theorem lineBreaks_line {indent text : List Char} {c : Char}
    (hi : ∀ c ∈ indent, isBlank c = true ∧ isLineBreak c = false) (hc : isLineBreak c = false)
    (ht : ∀ c ∈ text, isLineBreak c = false) :
    lineBreaks (indent ++ c :: text ++ ['\n']) = 1 := by
  rw [lineBreaks_append, lineBreaks_append, lineBreaks_eq_zero fun c h => (hi c h).2,
    lineBreaks_eq_zero (List.forall_mem_cons.2 ⟨hc, ht⟩)]
  rfl

/-- What a scan holds after an item: the next function's comment, the line, and the function that
the item is. -/
theorem feedAll_item (before : List SourceItem) {i : SourceItem} (hi : i.WellFormed)
    {p : Option Draft}
    (hp : p.getD {} = { comment := String.ofList (SourceItem.attachedComment before) }) :
    ∃ q : Option Draft,
      feedAll ⟨.outside p, lineBreaks (SourceItem.renderAll before), F⟩ i.render
        = .ok ⟨.outside q, lineBreaks (SourceItem.renderAll (before ++ [i])),
            (i.functionAt before).toList ++ F⟩
      ∧ q.getD {} = { comment := String.ofList (SourceItem.attachedComment (before ++ [i])) } := by
  rw [SourceItem.renderAll_append, SourceItem.renderAll_singleton, lineBreaks_append]
  cases i with
  | blankLine blanks =>
    refine ⟨none, feedAll_blankLine hi, ?_⟩
    rw [SourceItem.attachedComment_of_separates before rfl]
    rfl
  | comment indent text =>
    obtain ⟨hindent, htext⟩ := hi
    rw [SourceItem.render, lineBreaks_line hindent (by decide) htext]
    refine ⟨_, feedAll_commentLine hindent htext, ?_⟩
    have hcomment : String.ofList (SourceItem.attachedComment before)
        ++ String.ofList ('/' :: text ++ ['\n'])
          = String.ofList (SourceItem.attachedComment before ++ ('/' :: text ++ ['\n'])) :=
      String.ofList_append.symm
    rw [SourceItem.attachedComment_of_not_separates before rfl, SourceItem.commentLine,
      Option.getD_some, hp, ← hcomment]
  | directive indent text =>
    obtain ⟨hindent, htext⟩ := hi
    rw [SourceItem.render, lineBreaks_line hindent (by decide) htext]
    refine ⟨_, feedAll_directiveLine hindent htext, ?_⟩
    rw [SourceItem.attachedComment_of_not_separates before rfl, SourceItem.commentLine,
      List.append_nil, Option.getD_some, hp]
  | function f a b c =>
    obtain ⟨hf, ha, hblank⟩ := hi
    have hread := feedAll_function (n := lineBreaks (SourceItem.renderAll before)) (F := F) hf ha
      hblank hp
    refine ⟨none, ?_, ?_⟩
    · rw [SourceItem.functionAt, lineBreaks_append, SourceItem.render, hread, lineBreaks_append,
        lineBreaks_append, ← Nat.add_assoc, ← Nat.add_assoc]
      rfl
    · rw [SourceItem.attachedComment_of_separates before rfl]
      rfl

theorem feedAll_items :
    ∀ (items before : List SourceItem) {p : Option Draft} {F : List ShaderFunction},
      (∀ i ∈ items, i.WellFormed) →
      p.getD {} = { comment := String.ofList (SourceItem.attachedComment before) } →
      ∃ q, feedAll ⟨.outside p, lineBreaks (SourceItem.renderAll before), F⟩
            (SourceItem.renderAll items)
          = .ok ⟨.outside q, lineBreaks (SourceItem.renderAll (before ++ items)),
              (SourceItem.functionsAfter before items).reverse ++ F⟩
  | [], before, p, F, _, _ => ⟨p, by rw [List.append_nil]; rfl⟩
  | i :: items, before, p, F, h, hp => by
    obtain ⟨q, hread, hq⟩ := feedAll_item (F := F) before (h i List.mem_cons_self) hp
    obtain ⟨r, hrest⟩ := feedAll_items items (before ++ [i])
      (fun j hj => h j (List.mem_cons_of_mem _ hj)) hq
    refine ⟨r, feedAll_append hread ?_⟩
    have hone : (i.functionAt before).toList.reverse = (i.functionAt before).toList := by
      cases i.functionAt before <;> rfl
    rw [SourceItem.functionsAfter, List.reverse_append, hone, List.append_assoc,
      List.append_cons before i items]
    exact hrest

/-- A source that is written from items without a carriage return is read back: its functions are
found in order, as they were written, each with the comment that is attached to it and the line of
its opening brace. -/
theorem scan_renderAll (items : List SourceItem) (h : ∀ i ∈ items, i.WellFormed)
    (hr : '\r' ∉ SourceItem.renderAll items) :
    ShaderFunction.scan (String.ofList (SourceItem.renderAll items))
      = .ok (SourceItem.functionsAfter [] items) := by
  obtain ⟨q, hread⟩ := feedAll_items items [] (p := none) (F := []) h rfl
  have hread' : feedAll {} (SourceItem.renderAll items) = _ := hread
  rw [ShaderFunction.scan, String.toList_ofList, joinCrLf_of_not_mem hr, hread']
  simp only [ScanState.finish, List.append_nil, List.reverse_reverse]

theorem scan_renderAll_of_comments_and_brackets :
    ShaderFunction.scan (String.ofList (SourceItem.renderAll
      [.comment [] "/ lost".toList, .blankLine [' '], .comment ['\t'] "/ kept".toList,
        .directive [] "include \"/A.ush\"".toList, .comment [] "/ too".toList,
        .function
          { returnType := "float", name := "F",
            arguments := ["float3 A[2]", " out float(1, 2) R", "[Meta(1, 2), X] float B"],
            body := " if (A) \x7b R = 1; \x7d\n" }
          ['\n'] [' '] ['\x0b'],
        .function { returnType := "void", name := "G" } [' '] [] []]))
      = .ok [
        { startLine := 7, comment := "// kept\n// too\n", returnType := "float", name := "F",
          arguments := ["float3 A[2]", " out float(1, 2) R", "[Meta(1, 2), X] float B"],
          body := " if (A) \x7b R = 1; \x7d\n" },
        { startLine := 9, returnType := "void", name := "G" }] :=
  (scan_renderAll _ (by decide +kernel) (by decide +kernel)).trans
    (congrArg Except.ok (by decide +kernel))

end ShaderGraph
