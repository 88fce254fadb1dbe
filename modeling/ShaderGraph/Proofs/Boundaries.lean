import ShaderGraph.Proofs.Declarations
import ShaderGraph.Proofs.Extended
import ShaderGraph.Proofs.Rendering
import ShaderGraph.Proofs.Signature
import ShaderGraph.Proofs.WrittenPin

/-!
# Where arguments end

Two grammars meet in the arguments of a function. The scan counts brackets and knows no quotes; the
arguments that it cuts out are then read with their quoted texts. Arguments that resolve one by one
are cut out as they are written exactly if the count keeps the metadata of each together and no line
end of two characters loses one of them; whatever is cut out, their pins are those that are written
(`scan_iff_and_signature`).
-/

namespace ShaderGraph

open Text

/-! ## Line ends -/

namespace Text

theorem joinCrLf_eq_self {cs : List Char} (h : ¬['\r', '\n'] <:+: cs) : joinCrLf cs = cs := by
  induction cs using joinCrLf.induct with
  | case1 => rfl
  | case2 cs => exact absurd ⟨[], cs, rfl⟩ h
  | case3 c cs hc ih =>
    rw [joinCrLf, ih fun hcs => h (List.infix_cons hcs)]
    exact hc

theorem joinCrLf_sublist (cs : List Char) : (joinCrLf cs).Sublist cs := by
  induction cs using joinCrLf.induct with
  | case1 => exact .slnil
  | case2 cs ih => exact (ih.cons_cons _).cons _
  | case3 c cs hc ih =>
    rw [joinCrLf]
    · exact ih.cons_cons c
    · exact hc

/-- A line end of two characters loses one of them. -/
theorem count_joinCrLf_lt {cs : List Char} (h : ['\r', '\n'] <:+: cs) :
    (joinCrLf cs).count '\r' < cs.count '\r' := by
  obtain ⟨a, b, rfl⟩ := h
  have ha := (joinCrLf_sublist a).count_le '\r'
  have hb := (joinCrLf_sublist b).count_le '\r'
  have hjoined : (joinCrLf ('\r' :: '\n' :: b)).count '\r' = (joinCrLf b).count '\r' :=
    List.count_cons_of_ne (by decide)
  have hends : ('\r' :: '\n' :: b).count '\r' = b.count '\r' + 1 := by
    rw [List.count_cons_self, List.count_cons_of_ne (by decide)]
  rw [List.append_assoc, List.cons_append, List.cons_append, List.nil_append,
    joinCrLf_append (by simp), List.count_append, List.count_append]
  omega

end Text

/-- A source all of whose carriage returns are in the arguments of a function that is found in it
has no line end of two characters: the scan would have dropped one. -/
theorem not_infix_of_scan {text : String} {fs : List ShaderFunction} {f : ShaderFunction}
    (h : ShaderFunction.scan text = .ok fs) (hf : f ∈ fs)
    (hcount : text.toList.count '\r'
      ≤ ([','].intercalate (f.arguments.map String.toList)).count '\r') :
    ¬['\r', '\n'] <:+: text.toList := by
  intro hinfix
  obtain ⟨t, rest, htext, hlayout, -⟩ := layout_of_scan h
  obtain ⟨x, before, hx, hxt⟩ := hlayout.exists_spells hf
  have hxarguments : x.arguments <:+: x.text :=
    ⟨x.returnType ++ x.afterType :: x.name ++ ['('],
      ')' :: x.afterArguments ++ '{' :: x.body ++ ['}'], by
        simp [FunctionText.text, FunctionText.heading]⟩
  have hinside : x.arguments <:+: joinCrLf text.toList := by
    rw [htext]
    exact (hxarguments.trans hxt).trans (List.prefix_append t rest).isInfix
  have hkept := hinside.sublist.count_le '\r'
  have hargs : ([','].intercalate (f.arguments.map String.toList)).count '\r'
      ≤ x.arguments.count '\r' := by
    rcases hx.arguments with hargs | ⟨-, hnone⟩
    · rw [hargs]
    · rw [hnone]
      exact Nat.zero_le _
  have hlost := count_joinCrLf_lt hinfix
  omega

/-- A source that is one function without a comment. -/
theorem scan_function {f : ShaderFunction} (hf : f.Legible) {a b c : List Char} (ha : a ≠ [])
    (hblank : ∀ x ∈ a ++ b ++ c, isBlank x = true) {text : String}
    (htext : text.toList = f.heading a b c ++ '{' :: f.body.toList ++ ['}'])
    (hends : ¬['\r', '\n'] <:+: text.toList) :
    ShaderFunction.scan text
      = .ok [{ f with startLine := lineBreaks (f.heading a b c), comment := "" }] := by
  have hread := feedAll_braces (n := 0) (F := []) hf ha hblank (p := none) rfl
  rw [← htext, Nat.zero_add] at hread
  have hread' : ScanState.feedAll {} text.toList = _ := hread
  rw [ShaderFunction.scan, joinCrLf_eq_self hends, hread']
  rfl

/-- The brackets that an entry has are in its text. -/
theorem Metadata.Entry.not_mem_render {e : Metadata.Entry} {c : Char}
    (hc : c ∈ ['(', ')', '[', ']']) (he : e.WellFormed) (htext : ∀ v ∈ e.value, c ∉ v.2) :
    c ∉ e.render := by
  have hother : ∀ c ∈ ['(', ')', '[', ']'],
      isBlank c = false ∧ isWord c = false ∧ c ≠ '=' ∧ c ≠ '"' := by decide
  obtain ⟨hnotBlank, hnotWord, hsign, hquote⟩ := hother c hc
  have hblank {a : List Char} (ha : ∀ x ∈ a, isBlank x = true) : c ∉ a := fun hmem => by
    rw [ha c hmem] at hnotBlank
    cases hnotBlank
  have hkey : c ∉ e.key := fun hmem => by
    rw [he.key.word c hmem] at hnotWord
    cases hnotWord
  have hblanks := hblank he.blanks
  simp only [List.mem_append, not_or] at hblanks
  obtain ⟨⟨hbefore, hafterKey⟩, hafter⟩ := hblanks
  have hvalue : c ∉ e.valueText := by
    rw [valueText]
    cases hv : e.value with
    | none => exact List.not_mem_nil
    | some v => simp [hblank (he.value v hv).1, htext v hv, hsign, hquote]
  simp [render, hbefore, hkey, hafterKey, hvalue, hafter]

theorem Metadata.not_mem_render {es : List Metadata.Entry} {c : Char}
    (hc : c ∈ ['(', ')', '[', ']']) (h : ∀ e ∈ es, e.WellFormed ∧ ∀ v ∈ e.value, c ∉ v.2) :
    c ∉ Metadata.render es := by
  intro hmem
  rcases Code.mem_or_of_mem_intercalate hmem with hcomma | ⟨t, ht, hct⟩
  · obtain rfl := List.mem_singleton.1 hcomma
    exact absurd hc (by decide)
  · obtain ⟨e, he, rfl⟩ := List.mem_map.1 ht
    exact Metadata.Entry.not_mem_render hc (h e he).1 (h e he).2 hct

namespace WrittenPin

variable {p : WrittenPin} {ps : List WrittenPin}

/-- A source with one function that has these arguments. -/
def source (ps : List WrittenPin) : String :=
  "void F(" ++ ",".intercalate (ps.map (·.text)) ++ ") \x7b\x7d"

/-- The function of that source. -/
def sourceFunction (ps : List WrittenPin) (line : Nat) : ShaderFunction :=
  { startLine := line, name := "F", arguments := ps.map (·.text) }

theorem toList_source (ps : List WrittenPin) (line : Nat) :
    (source ps).toList = (sourceFunction ps line).heading [' '] [] [' ']
      ++ '{' :: (sourceFunction ps line).body.toList ++ ['}'] := by
  simp [source, sourceFunction, ShaderFunction.heading, String.toList_intercalate,
    Function.comp_def]

/-- Where an argument ends is up to its metadata. -/
theorem WellFormed.isArgument_iff (h : p.WellFormed) :
    IsArgument p.text.toList ↔ IsArgument p.front := by
  rw [text, String.toList_ofList]
  exact isArgument_append_iff h.selfContained_rest

theorem WellFormed.net_text (h : p.WellFormed) :
    net '[' ']' p.text.toList = net '[' ']' p.front := by
  have hrest := h.selfContained_rest
  rw [text, String.toList_ofList, net_append, net_of_not_mem hrest.opening hrest.closing, add_zero]

theorem WellFormed.not_blank (h : p.WellFormed) : p.text.toList.all isBlank = false := by
  obtain ⟨c, w, hw⟩ := List.exists_cons_of_ne_nil h.name.ne_nil
  have hc : isBlank c = false := not_isBlank_of_isWord (h.name.word c (by simp [hw]))
  refine List.all_eq_false.2 ⟨c, ?_, by simp [hc]⟩
  simp [text, rest, typed, hw]

/-- Arguments make a list if their metadata are such that each argument is one, and only the
metadata of the last leave square brackets open. -/
theorem isArgumentList_iff (h : ∀ p ∈ ps, p.WellFormed) :
    IsArgumentList ((ps.map (·.text)).map String.toList)
      ↔ (∀ p ∈ ps, IsArgument p.front) ∧ ∀ p ∈ ps.dropLast, net '[' ']' p.front = 0 := by
  rw [List.map_map]
  constructor
  · intro hlist
    refine ⟨fun p hp => ?_, fun p hp => ?_⟩
    · exact (h p hp).isArgument_iff.1 (hlist.arguments _ (List.mem_map_of_mem hp))
    · rw [← (h p (List.dropLast_subset ps hp)).net_text]
      refine hlist.brackets _ ?_
      rw [← List.map_dropLast]
      exact List.mem_map_of_mem hp
  · rintro ⟨harguments, hbrackets⟩
    refine ⟨?_, ?_, fun _ => ?_⟩
    · exact List.forall_mem_map.2 fun p hp => (h p hp).isArgument_iff.2 (harguments p hp)
    · rw [← List.map_dropLast]
      refine List.forall_mem_map.2 fun p hp => ?_
      exact (h p (List.dropLast_subset ps hp)).net_text.trans (hbrackets p hp)
    · exact List.forall_mem_map.2 fun p hp => (h p hp).not_blank

/-- Written arguments are cut out as they are written exactly if no line end of two characters is
in them, the metadata of each are kept together and those of all but the last close the square
brackets that they open. -/
theorem scan_source_iff (h : ∀ p ∈ ps, p.WellFormed) :
    (∃ line, ShaderFunction.scan (source ps) = .ok [sourceFunction ps line])
      ↔ ¬['\r', '\n'] <:+: (source ps).toList
        ∧ (∀ p ∈ ps, IsArgument p.front) ∧ ∀ p ∈ ps.dropLast, net '[' ']' p.front = 0 := by
  rw [← isArgumentList_iff h]
  constructor
  · rintro ⟨line, hscan⟩
    refine ⟨not_infix_of_scan hscan List.mem_cons_self ?_, ?_⟩
    · rw [toList_source ps line]
      simp [ShaderFunction.heading, sourceFunction]
    · exact (scanned_of_mem_scan hscan List.mem_cons_self).legible.arguments
  · rintro ⟨hends, hlist⟩
    have hlegible : (sourceFunction ps 0).Legible := by
      refine ⟨by simp [sourceFunction], ?_, ?_, hlist, balanced_nil⟩
      · change ∀ c ∈ "void".toList, isBlank c = false
        decide
      · change ∀ c ∈ "F".toList, isBlank c = false ∧ c ≠ '('
        decide
    have hscan := scan_function hlegible (a := [' ']) (b := []) (c := [' ']) (by decide) (by decide)
      (toList_source ps 0) hends
    exact ⟨_, hscan⟩

/-- Metadata whose texts have no bracket are kept together, with all their commas. -/
theorem WellFormed.front_of_plain (h : p.WellFormed)
    (hplain : ∀ es ∈ p.metadata, ∀ e ∈ es, ∀ v ∈ e.value, ∀ c ∈ ['(', ')', '[', ']'], c ∉ v.2) :
    IsArgument p.front ∧ net '[' ']' p.front = 0 := by
  have hbefore : SelfContained p.before :=
    selfContained_of_loose fun c hc => isLoose_of_isBlank (h.blanks c (by simp [hc]))
  have hnet : net '[' ']' p.before = 0 := net_of_not_mem hbefore.opening hbefore.closing
  rw [front]
  cases hm : p.metadata with
  | none => exact ⟨⟨hbefore.parens, fun q hq => .inl (hbefore.commas q hq)⟩, hnet⟩
  | some es =>
    have hother : ∀ c ∈ ['(', ')', '[', ']'], c ∉ Metadata.render es := fun c hc =>
      Metadata.not_mem_render hc fun e he =>
        ⟨h.metadata es hm e he, fun v hv => hplain es hm e he v hv c hc⟩
    have hin : ∀ q, q <+: Metadata.render es → net '[' ']' q = 0 := fun q hq =>
      net_of_not_mem (fun hm => hother _ (by decide) (hq.subset hm))
        fun hm => hother _ (by decide) (hq.subset hm)
    have hopen : net '[' ']' ['['] = 1 := by decide
    have hclose : net '[' ']' [']'] = -1 := by decide
    have hparens : Balanced '(' ')' ('[' :: Metadata.render es ++ [']']) :=
      balanced_of_not_mem (by simp [hother]) (by simp [hother])
    simp only [List.append_assoc]
    refine ⟨⟨hbefore.parens.append hparens, fun s hs => ?_⟩, ?_⟩
    · rcases comma_cases hs with hs | ⟨t, rfl, ht⟩
      · exact .inl (hbefore.commas s hs)
      · obtain ⟨q, rfl, hq⟩ := comma_in_brackets (o := '[') (c := ']') (by decide) (by decide) ht
        refine .inr ?_
        rw [net_append, hnet, net_cons, hopen, hin q hq]
        decide
    · rw [net_append, List.cons_append, net_cons, net_append, hnet, hopen, hclose,
        hin _ (List.prefix_refl _)]
      rfl

/-- Arguments with no bracket in their texts are cut out as they are written, whatever commas are in
them. -/
theorem scan_source_of_plain (h : ∀ p ∈ ps, p.WellFormed)
    (hplain : ∀ p ∈ ps, ∀ es ∈ p.metadata, ∀ e ∈ es, ∀ v ∈ e.value,
      ∀ c ∈ ['(', ')', '[', ']'], c ∉ v.2)
    (hends : ¬['\r', '\n'] <:+: (source ps).toList) :
    ∃ line, ShaderFunction.scan (source ps) = .ok [sourceFunction ps line] := by
  refine (scan_source_iff h).2 ⟨hends, fun p hp => ?_, fun p hp => ?_⟩
  · exact ((h p hp).front_of_plain (hplain p hp)).1
  · have hp' := List.dropLast_subset ps hp
    exact ((h p hp').front_of_plain (hplain p hp')).2

end WrittenPin

/-! ## The pins of written arguments -/

/-- The names of the pins of an argument: a matrix becomes its rows, and the parameters of a
material and samplers become none. -/
def pinNames (typeName name : String) : List String :=
  if typeName ∈ contextTypes ∨ typeName = "SamplerState" then []
  else if typeName = "float4x4" then (List.range 4).map fun i => name ++ toString i
  else [name]

/-- What an argument resolves to has its names, its metadata and its qualifier. -/
theorem Spelling.Resolves.pins {s : Spelling} {comment : String} {r : Resolution}
    (h : s.Resolves comment r) :
    r.pins.map (fun q => (q.name, q.metadata))
        = (pinNames (String.ofList s.typeName) (String.ofList s.name)).map
          (·, Metadata.parse (String.ofList s.metadata))
      ∧ ∀ q ∈ r.pins, q.isOutput = (s.qualifier == .output) := by
  cases h with
  | context htype => simp [pinNames, htype]
  | sampler htype => simp [pinNames, htype]
  | matrix htype hqualifier =>
    have hcontext : "float4x4" ∉ contextTypes := by decide
    refine ⟨?_, fun q hq => ?_⟩
    · simp [matrixResolution, pinNames, htype, hcontext, Pin.row, Function.comp_def, entries]
    · obtain ⟨i, -, rfl⟩ := List.mem_map.1 hq
      exact (beq_eq_false_iff_ne.2 hqualifier).symm
  | pin hkind =>
    obtain ⟨hcontext, hsampler, hmatrix⟩ := typeName_ne_of_pinKind? hkind
    simp [pinNames, hcontext, hsampler, hmatrix, Pin.isOutput, Pin.ofType, untyped, entries]

namespace WrittenPin

variable {p : WrittenPin} {ps : List WrittenPin}

/-- The names and the metadata of the pins that are written. -/
def pins (p : WrittenPin) : List (String × Metadata) :=
  (pinNames (String.ofList p.typeName) (String.ofList p.name)).map
    (·, OrderedMap.ofPairs ((p.metadata.getD []).map Metadata.Entry.pair))

theorem WellFormed.parse_metadata (h : p.WellFormed) :
    Metadata.parse (String.ofList p.spelling.metadata)
      = OrderedMap.ofPairs ((p.metadata.getD []).map Metadata.Entry.pair) := by
  rw [spelling]
  cases hm : p.metadata with
  | none =>
    have hnone := Metadata.parse_render (List.forall_mem_nil Metadata.Entry.WellFormed)
    exact hnone
  | some es => exact Metadata.parse_render (h.metadata es hm)

theorem WellFormed.pins_of_resolveArgument (h : p.WellFormed) {comment : String} {r : Resolution}
    (hr : resolveArgument p.text comment = .ok r) :
    r.pins.map (fun q => (q.name, q.metadata)) = p.pins
      ∧ ∀ q ∈ r.pins, q.isOutput = (p.qualifier == .output) := by
  obtain ⟨s, hread, -, hresolves⟩ := resolveArgument_eq_ok_iff.1 hr
  obtain rfl := Option.some.inj (h.read?.symm.trans hread)
  obtain ⟨hpins, hqualifier⟩ := hresolves.pins
  rw [h.parse_metadata] at hpins
  exact ⟨hpins, hqualifier⟩

end WrittenPin

theorem Signature.exists_extendAll {comment : String} : ∀ {raws : List String} (s : Signature),
    (∀ raw ∈ raws, ∃ r, resolveArgument raw comment = .ok r) → ∃ t, s.extendAll comment raws = .ok t
  | [], s, _ => ⟨s, rfl⟩
  | raw :: raws, s, h => by
    obtain ⟨r, hr⟩ := h raw List.mem_cons_self
    rw [Signature.extendAll, hr]
    exact exists_extendAll _ fun raw' hraw => h raw' (List.mem_cons_of_mem raw hraw)

namespace WrittenPin

variable {p : WrittenPin} {ps : List WrittenPin}

/-- The pins of written arguments on one side of a function. -/
theorem pins_of_resolutions {comment : String} (output : Bool) {rs : List Resolution}
    (h : ∀ p ∈ ps, p.WellFormed)
    (hrs : List.Forall₂ (fun p r => resolveArgument p.text comment = .ok r) ps rs) :
    ((rs.flatMap (·.pins)).filter fun q => q.isOutput == output).map
        (fun q => (q.name, q.metadata))
      = (ps.filter fun p => (p.qualifier == .output) == output).flatMap (·.pins) := by
  induction hrs with
  | nil => rfl
  | @cons p r ps rs hr _ ih =>
    obtain ⟨hpins, hqualifier⟩ := (h p List.mem_cons_self).pins_of_resolveArgument hr
    rw [List.flatMap_cons, List.filter_append, List.map_append,
      ih fun p' hp' => h p' (List.mem_cons_of_mem p hp'), List.filter_cons]
    by_cases hside : (p.qualifier == .output) = output
    · have hall : r.pins.filter (fun q => q.isOutput == output) = r.pins :=
        List.filter_eq_self.2 fun q hq => by simp [hqualifier q hq, hside]
      rw [hall, hpins, if_pos (by simpa using hside), List.flatMap_cons]
    · have hnone : r.pins.filter (fun q => q.isOutput == output) = [] :=
        List.filter_eq_nil_iff.2 fun q hq => by simp [hqualifier q hq, hside]
      rw [hnone, if_neg (by simpa using hside), List.map_nil, List.nil_append]

/-- Two grammars agree on where arguments end as far as the count of brackets allows. Arguments each
of which resolves alone are cut out of a source as they are written exactly if the source has no
line end of two characters, each metadata by itself is the text of one argument and that of each but
the last closes the square brackets that it opens. Cut out or not, they resolve together, to pins
with the names and the metadata that are written. -/
theorem scan_iff_and_signature (h : ∀ p ∈ ps, p.WellFormed)
    (haccepted : ∀ p ∈ ps, (resolveArgument p.text "").isOk = true) :
    ((∃ line, ShaderFunction.scan (source ps) = .ok [sourceFunction ps line])
      ↔ ¬['\r', '\n'] <:+: (source ps).toList
        ∧ (∀ p ∈ ps, IsArgument p.front) ∧ ∀ p ∈ ps.dropLast, net '[' ']' p.front = 0)
    ∧ ∀ line, ∃ s, (sourceFunction ps line).signature = .ok s
      ∧ s.inputs.map (fun q => (q.name, q.metadata))
          = (ps.filter (·.qualifier != .output)).flatMap (·.pins)
      ∧ s.outputs.map (fun q => (q.name, q.metadata))
          = (ps.filter (·.qualifier == .output)).flatMap (·.pins) := by
  refine ⟨scan_source_iff h, fun line => ?_⟩
  have hresolve : ∀ raw ∈ ps.map (·.text), ∃ r, resolveArgument raw "" = .ok r := by
    refine List.forall_mem_map.2 fun p hp => ?_
    have hok := haccepted p hp
    cases hr : resolveArgument p.text "" with
    | ok r => exact ⟨r, rfl⟩
    | error e =>
      rw [hr] at hok
      cases hok
  obtain ⟨s, hs⟩ := Signature.exists_extendAll {} hresolve
  have hsignature : (sourceFunction ps line).signature = .ok s := (if_pos rfl).trans hs
  obtain ⟨rs, hrs, hmade⟩ := ShaderFunction.exists_resolutions hsignature
  have hrs' := List.forall₂_map_left_iff.1 hrs
  refine ⟨s, hsignature, ?_, ?_⟩
  · have hinputs := pins_of_resolutions false h hrs'
    rw [hmade.inputs]
    simpa [bne] using hinputs
  · have houtputs := pins_of_resolutions true h hrs'
    rw [hmade.outputs]
    simpa using houtputs

end WrittenPin

namespace QuotedBrackets

/-- `[Tip="a, (b) [c, d]", Expose] const float4 A = float4(1, 2., -3f, 0)` -/
def color : WrittenPin where
  metadata := some [{ key := "Tip".toList, value := some ([], "a, (b) [c, d]".toList) },
    { before := [' '], key := "Expose".toList }]
  afterMetadata := [' ']
  qualifier := .const
  afterQualifier := [' ']
  typeName := "float4".toList
  name := "A".toList
  afterName := [' ']
  default := some " float4(1, 2., -3f, 0)".toList

/-- ` out float3 R` -/
def result : WrittenPin where
  before := [' ']
  qualifier := .output
  afterQualifier := [' ']
  typeName := "float3".toList
  name := "R".toList

/-- `[Expose] float4x4 M` -/
def matrix : WrittenPin where
  metadata := some [{ key := "Expose".toList }]
  afterMetadata := [' ']
  typeName := "float4x4".toList
  name := "M".toList

/-- `[Tip="["] Texture2D<float4> T` -/
def texture : WrittenPin where
  metadata := some [{ key := "Tip".toList, value := some ([], ['[']) }]
  afterMetadata := [' ']
  typeName := "Texture2D".toList
  template := some ([], "float4".toList)
  name := "T".toList

/-- A `float A` after metadata whose text is this. -/
def told (text : List Char) : WrittenPin where
  metadata := some [{ key := "Tooltip".toList, value := some ([], text) },
    { key := "Hidden".toList }]
  afterMetadata := [' ']
  typeName := "float".toList
  name := "A".toList

/-- ` SamplerState TSampler` -/
def sampler : WrittenPin where
  before := [' ']
  typeName := "SamplerState".toList
  name := "TSampler".toList

open WrittenPin

theorem scan_iff_and_signature_of_texture :
    let ps := [color, result, matrix, texture]
    (∃ line, ShaderFunction.scan (source ps) = .ok [sourceFunction ps line])
      ∧ ∃ s, (sourceFunction ps 0).signature = .ok s
        ∧ s.inputs.map (·.name) = ["A", "M0", "M1", "M2", "M3", "T"]
        ∧ s.outputs.map (·.name) = ["R"] := by
  intro ps
  have hevaluated : (∀ p ∈ ps, p.WellFormed) ∧ (∀ p ∈ ps, (resolveArgument p.text "").isOk = true)
      ∧ (¬['\r', '\n'] <:+: (source ps).toList
        ∧ (∀ p ∈ ps, IsArgument p.front) ∧ ∀ p ∈ ps.dropLast, net '[' ']' p.front = 0)
      ∧ ((ps.filter (·.qualifier != .output)).flatMap (·.pins)).map Prod.fst
        = ["A", "M0", "M1", "M2", "M3", "T"]
      ∧ ((ps.filter (·.qualifier == .output)).flatMap (·.pins)).map Prod.fst = ["R"] := by
    decide +kernel
  obtain ⟨hwell, haccepted, hkept, hin, hout⟩ := hevaluated
  obtain ⟨hscan, hsignature⟩ := scan_iff_and_signature hwell haccepted
  obtain ⟨s, hs, hinputs, houtputs⟩ := hsignature 0
  refine ⟨hscan.2 hkept, s, hs, ?_, ?_⟩
  · rw [← hin, ← hinputs, List.map_map]
    rfl
  · rw [← hout, ← houtputs, List.map_map]
    rfl

/-- Arguments that resolve alone do not always stay apart in a source: a parenthesis in a text ends
the list, a comma behind a bracket that a text closes starts another argument, a bracket that a text
leaves open takes the next argument in, and a line end of two characters becomes one. Nor has every
pin the name of its argument, or every argument a pin. -/
theorem not_scanned_of_brackets :
    (∀ ps ∈ [[told "a)".toList], [told "]".toList], [told "[".toList, result],
        [told ['\r', '\n']]],
      (∀ p ∈ ps, p.WellFormed) ∧ (∀ p ∈ ps, (resolveArgument p.text "").isOk = true)
        ∧ ¬∃ line, ShaderFunction.scan (source ps) = .ok [sourceFunction ps line])
    ∧ ∀ x ∈ [(matrix, ["M0", "M1", "M2", "M3"]), (sampler, [])],
      x.1.WellFormed ∧ (resolveArgument x.1.text "").isOk = true
        ∧ (sourceFunction [x.1] 0).signature.toOption.map (fun s => s.inputs.map (·.name))
          = some x.2 := by
  have hevaluated : ∀ ps ∈ [[told "a)".toList], [told "]".toList], [told "[".toList, result],
      [told ['\r', '\n']]],
        (∀ p ∈ ps, p.WellFormed) ∧ (∀ p ∈ ps, (resolveArgument p.text "").isOk = true)
        ∧ (ShaderFunction.scan (source ps)).toOption.map (·.map (·.arguments))
          ≠ some [ps.map (·.text)] := by
    decide +kernel
  refine ⟨fun ps hps => ?_, by decide +kernel⟩
  obtain ⟨hwell, haccepted, hscan⟩ := hevaluated ps hps
  refine ⟨hwell, haccepted, ?_⟩
  rintro ⟨line, hline⟩
  rw [hline] at hscan
  exact hscan rfl

end QuotedBrackets

end ShaderGraph
