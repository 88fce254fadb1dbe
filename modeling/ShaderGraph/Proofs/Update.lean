import ShaderGraph.Proofs.Generate
import ShaderGraph.Proofs.Includes
import ShaderGraph.Proofs.Routine

/-!
# Updates step by step

An update gathers what it needs and then does with one function after the other what has to be done:
one relation says what can happen to a function and to the store, and the later ones follow it
through the functions, the end of the update and a history of updates. A function that is alone in
its name has one turn, which decides what is reported of it and what its artifact is.
-/

namespace ShaderGraph

open Routine

/-- What an update reads before it comes to the functions, and the report so far; or the report of
an update that ends here. -/
def Library.gather {m : Type → Type} [Monad m] [MonadExceptOf Fault m] [Journal m] [Sources m]
    (l : Library) (p : Project) : m (UpdateReport ⊕ UpdateInputs × UpdateReport) := do
  let r : UpdateReport := { library := l.name }
  let source := p.sourcePath l
  if !(← Sources.isFile source) then
    return .inl (← r.abort source (l.name ++ ": invalid path " ++ l.file))
  match ← readSource source with
  | .error e => return .inl (← r.abort source e.text)
  | .ok text =>
    match ShaderFunction.scan text with
    | .error e => return .inl (← r.abort source (e.toFailure.inFile source.toText).text)
    | .ok functions =>
      let current ← Sources.current
      let roots ← orFault .path (p.roots current)
      let includes ← orFault .path (Include.ofSource roots current source text)
      (Include.warnings source.toText includes).forM report
      let r := { r with includes := includes }
      match ← readIncludes includes with
      | .error e => return .inl (← r.abort source e.text)
      | .ok texts => return .inr (l.inputs functions includes (Directive.defines text) texts, r)

variable {σ : Type} [Sources (Routine σ)] [Journal (Routine σ)] [MonadStateOf Supply (Routine σ)]

/-- What an update does once all is read. -/
def Library.proceed (l : Library) (p : Project) (store : ArtifactStore (Routine σ)) :
    UpdateReport ⊕ UpdateInputs × UpdateReport → Routine σ UpdateReport
  | .inl r => pure r
  | .inr (u, r) => updateFunctions store u (p.sourcePath l).toText r

theorem Library.update_eq (l : Library) (p : Project) (store : ArtifactStore (Routine σ)) :
    l.update p store = l.gather p >>= l.proceed p store := by
  unfold Library.update Library.gather
  simp only [bind_assoc]
  refine bind_congr fun b => ?_
  cases b with
  | false => simp [Library.proceed]
  | true =>
    simp only [Bool.not_true, Bool.false_eq_true, ↓reduceIte, bind_assoc]
    refine bind_congr fun r => ?_
    cases r with
    | error e => simp [Library.proceed]
    | ok text =>
      simp only []
      cases ShaderFunction.scan text with
      | error e => simp [Library.proceed]
      | ok functions =>
        simp only [bind_assoc]
        refine bind_congr fun current => bind_congr fun roots => bind_congr fun includes =>
          bind_congr fun _ => bind_congr fun texts => ?_
        cases texts <;> simp [Library.proceed]

/-- What an update can have read: a source with its functions and directives, and a text for each
include that has a file. -/
def Library.Reads (l : Library) (p : Project) (u : UpdateInputs) : Prop :=
  ∃ text functions current roots folder texts, ShaderFunction.scan text = .ok functions
    ∧ p.roots current = .ok roots
    ∧ texts.length = (Include.ofText roots folder text).countP (·.diskPath.isSome)
    ∧ u = l.inputs functions (Include.ofText roots folder text) (Directive.defines text) texts

omit [Sources (Routine σ)] [MonadStateOf Supply (Routine σ)] in
theorem yields_abort (r : UpdateReport) (source : DiskPath) (message : String) :
    Yields (r.abort source message : Routine σ UpdateReport) fun r' =>
      r' = { r with error := some message } :=
  Yields.bind yields_of_result fun _ _ => yields_pure rfl

omit [MonadStateOf Supply (Routine σ)] in
/-- Before the functions nothing but the includes is reported, and an error if it does not come to
them. -/
theorem Library.yields_gather (l : Library) (p : Project) :
    Yields (l.gather p : Routine σ (UpdateReport ⊕ UpdateInputs × UpdateReport)) fun
      | .inl r => ∃ includes message, r = { library := l.name, includes, error := some message }
      | .inr (u, r) => (∃ includes, r = { library := l.name, includes := includes })
        ∧ l.Reads p u := by
  unfold Library.gather
  refine Yields.bind yields_of_result fun b _ => ?_
  cases b with
  | false => exact Yields.bind (yields_abort _ _ _) fun r hr => yields_pure ⟨_, _, hr⟩
  | true =>
    simp only [Bool.not_true, Bool.false_eq_true, ↓reduceIte]
    refine Yields.bind yields_of_result fun source _ => ?_
    cases source with
    | error e => exact Yields.bind (yields_abort _ _ _) fun r hr => yields_pure ⟨_, _, hr⟩
    | ok text =>
      simp only []
      cases hscan : ShaderFunction.scan text with
      | error e => exact Yields.bind (yields_abort _ _ _) fun r hr => yields_pure ⟨_, _, hr⟩
      | ok functions =>
        refine Yields.bind yields_of_result fun current _ => Yields.bind (yields_orFault _ _)
          fun roots hroots => Yields.bind (yields_orFault _ _) fun includes hincludes =>
          Yields.bind yields_of_result fun _ _ => Yields.bind (yields_readIncludes _)
          fun texts htexts => ?_
        cases texts with
        | error e => exact Yields.bind (yields_abort _ _ _) fun r hr => yields_pure ⟨_, _, hr⟩
        | ok texts =>
          obtain ⟨folder, rfl⟩ := Include.exists_folder hincludes
          exact yields_pure ⟨⟨_, rfl⟩, text, functions, current, roots, folder, texts, hscan, hroots,
            htexts texts rfl, rfl⟩

omit [MonadStateOf Supply (Routine σ)] in
theorem Calm.along_gather {R : σ → σ → Prop} [IsPreorder σ R] (h : Calm R) (l : Library)
    (p : Project) :
    Along R (l.gather p : Routine σ (UpdateReport ⊕ UpdateInputs × UpdateReport)) := by
  unfold Library.gather
  refine (h.isFile _).bind fun b => ?_
  cases b with
  | false => exact (h.along_abort _ _ _).bind fun _ => along_pure _
  | true =>
    simp only [Bool.not_true, Bool.false_eq_true, ↓reduceIte]
    refine (h.along_readSource _).bind fun source => ?_
    cases source with
    | error e => exact (h.along_abort _ _ _).bind fun _ => along_pure _
    | ok text =>
      simp only []
      cases ShaderFunction.scan text with
      | error e => exact (h.along_abort _ _ _).bind fun _ => along_pure _
      | ok functions =>
        refine h.current.bind fun _ => (along_orFault _ _).bind fun _ =>
          (along_orFault _ _).bind fun _ => (along_forM h.along_report _).bind fun _ =>
          (h.along_readIncludes _).bind fun texts => ?_
        cases texts with
        | error e => exact (h.along_abort _ _ _).bind fun _ => along_pure _
        | ok texts => exact along_pure _

omit [MonadStateOf Supply (Routine σ)] in
theorem Undisturbed.keeps_gather {ν : Type} {view : σ → ν} (h : Undisturbed view) (l : Library)
    (p : Project) :
    Keeps view (l.gather p : Routine σ (UpdateReport ⊕ UpdateInputs × UpdateReport)) :=
  h.calm.along_gather l p

variable (D : LawfulStore σ)

/-- One time that a function was generated: what the update knew, the function and its signature,
the identifiers of its pins and the texture coordinates that it reads. -/
structure Generation where
  inputs : UpdateInputs
  function : ShaderFunction
  signature : Signature
  table : IdentifierTable
  texCoordinate : Option Nat

namespace Generation

def tag (g : Generation) : String := g.inputs.tag g.function

/-- What was generated. -/
def artifact (g : Generation) : Artifact :=
  .withIdentifiers g.function g.signature g.tag g.inputs.context g.table g.texCoordinate

/-- The parts of a generation fit together. -/
structure Sound (g : Generation) : Prop where
  signature : g.function.signature = .ok g.signature
  named : g.signature.NamedBy g.table
  texCoordinate : TexCoordinate.highest g.function.body = .ok g.texCoordinate

end Generation

/-- What is generated is sound. -/
theorem exists_generation {u : UpdateInputs} {f : ShaderFunction} {s : Signature}
    {identifiers : Option IdentifierTable} {supply : Supply} {a : Artifact}
    (hs : f.signature = .ok s)
    (ha : (Artifact.generate f s (u.tag f) u.context identifiers supply).1 = .ok a) :
    ∃ g : Generation, g.Sound ∧ g.inputs = u ∧ g.function = f ∧ g.artifact = a := by
  obtain ⟨n, hn, rfl⟩ := Artifact.exists_of_generate_eq_ok ha
  exact ⟨⟨u, f, s, (s.naming identifiers supply).table, n⟩,
    ⟨hs, s.namedBy_naming identifiers supply, hn⟩, rfl, rfl, rfl⟩

section

variable (store : ArtifactStore (Routine σ)) (u : UpdateInputs) (source : String) (p : Progress)
  (f : ShaderFunction) (s : σ)

/-- What drawing the identifiers of a function came to, which is not current and has a signature. -/
inductive Drawn : Except Fault (Except NumeralError Artifact) → σ → Prop
  | intro {earlier : Option ArtifactRecord} {signature : Signature}
      {identifiers : Option IdentifierTable} {r : Except Fault (Except NumeralError Artifact)} {t v : σ}
      (hload : exec (store.load f.name) s = (.ok earlier, t))
      (hc : ArtifactRecord.isCurrent earlier (u.tag f) = .ok false) (hs : f.signature = .ok signature)
      (hi : (earlier.mapM fun a => a.identifiers.table) = .ok identifiers)
      (hdraw : exec (modifyGetThe Supply (Artifact.generate f signature (u.tag f) u.context identifiers) :
        Routine σ (Except NumeralError Artifact)) t = (r, v)) : Drawn r v

/-- How a function is brought up to date, whatever the store does: what the operations came to, as
far as the one that ended it. -/
inductive Course : Except Fault Progress → σ → Prop
  | unlisted {e : DocumentError} (hp : p.register f.name = .error e) : Course (.error (.document e)) s
  | unloaded {e : Fault} {t : σ} (hload : exec (store.load f.name) s = (.error e, t)) :
      Course (.error e) t
  | uncompared {earlier : Option ArtifactRecord} {e : DocumentError} {t : σ}
      (hload : exec (store.load f.name) s = (.ok earlier, t))
      (hc : ArtifactRecord.isCurrent earlier (u.tag f) = .error e) : Course (.error (.document e)) t
  | skipped {q : Progress} {earlier : Option ArtifactRecord} {r : Except Fault Unit} {t v : σ}
      (hq : p.register f.name = .ok q) (hload : exec (store.load f.name) s = (.ok earlier, t))
      (hc : ArtifactRecord.isCurrent earlier (u.tag f) = .ok true)
      (hlog : exec (Journal.log .info (f.name ++ " already up to date") : Routine σ Unit) t = (r, v)) :
      Course (r.map fun _ => q.skipped f.name) v
  | failed {q : Progress} {earlier : Option ArtifactRecord} {e : PinError} {message : String}
      {r : Except Fault Unit} {t v : σ} (hq : p.register f.name = .ok q)
      (hload : exec (store.load f.name) s = (.ok earlier, t))
      (hc : ArtifactRecord.isCurrent earlier (u.tag f) = .ok false) (hs : f.signature = .error e)
      (hmessage : message = "Function " ++ f.name ++ ": " ++ e.toFailure.text)
      (hreport : exec (report ⟨.error, message, some source⟩ : Routine σ Unit) t = (r, v)) :
      Course (r.map fun _ => q.failed f.name message) v
  | unidentified {earlier : Option ArtifactRecord} {signature : Signature} {e : DocumentError} {t : σ}
      (hload : exec (store.load f.name) s = (.ok earlier, t))
      (hc : ArtifactRecord.isCurrent earlier (u.tag f) = .ok false) (hs : f.signature = .ok signature)
      (hi : (earlier.mapM fun a => a.identifiers.table) = .error e) : Course (.error (.document e)) t
  | undrawn {e : Fault} {t : σ} (h : Drawn store u f s (.error e) t) : Course (.error e) t
  | unnumbered {e : NumeralError} {t : σ} (h : Drawn store u f s (.ok (.error e)) t) :
      Course (.error (.numeral e)) t
  | unsaved {a : Artifact} {e : Fault} {t v : σ} (h : Drawn store u f s (.ok (.ok a)) t)
      (hsave : exec (store.save a.record) t = (.error e, v)) : Course (.error e) v
  | updated {q : Progress} {a : Artifact} {r : Except Fault Unit} {t v w : σ}
      (hq : p.register f.name = .ok q) (h : Drawn store u f s (.ok (.ok a)) t)
      (hsave : exec (store.save a.record) t = (.ok (), v))
      (hlog : exec (Journal.log .info (f.name ++ " updated") : Routine σ Unit) v = (r, w)) :
      Course (r.map fun _ => q.updated f.name) w

omit [Sources (Routine σ)] in
theorem course_updateFunction : Course store u source p f s
    (exec (updateFunction store u source p f) s).1 (exec (updateFunction store u source p f) s).2 := by
  unfold updateFunction logInfo
  refine exec_orFault_bind_cases (fun _ hp => .unlisted hp) fun q hq => ?_
  refine exec_bind_cases (fun _ _ hload => .unloaded hload) fun earlier t hload => ?_
  refine exec_orFault_bind_cases (fun _ hc => .uncompared hload hc) fun b hc => ?_
  cases b with
  | true =>
    simp only [↓reduceIte]
    rw [exec_bind_pure]
    exact .skipped hq hload hc rfl
  | false =>
    simp only [Bool.false_eq_true, ↓reduceIte]
    cases hs : f.signature with
    | error e =>
      rw [exec_bind_pure]
      exact .failed hq hload hc hs rfl rfl
    | ok signature =>
      refine exec_orFault_bind_cases (fun _ hi => .unidentified hload hc hs hi) fun identifiers hi => ?_
      refine exec_bind_cases (fun _ _ hdraw => .undrawn (.intro hload hc hs hi hdraw))
        fun made v hdraw => ?_
      have hdrawn : Drawn store u f s (.ok made) v := .intro hload hc hs hi hdraw
      refine exec_orFault_bind_cases (fun e he => .unnumbered (he ▸ hdrawn)) fun a ha => ?_
      refine exec_bind_cases (fun _ _ hsave => .unsaved (ha ▸ hdrawn) hsave) fun _ w hsave => ?_
      rw [exec_bind_pure]
      exact .updated hq (ha ▸ hdrawn) hsave rfl

variable {store u source p f s}

omit [Sources (Routine σ)] in
/-- A function that is brought up to date is listed, and then told of. -/
theorem Course.exists_of_ok {q : Progress} {t : σ} (h : Course store u source p f s (.ok q) t) :
    ∃ p', p.register f.name = .ok p' ∧ (q = p'.skipped f.name
      ∨ (∃ message, q = p'.failed f.name message) ∨ q = p'.updated f.name) := by
  generalize hres : Except.ok q = res at h
  cases h with
  | @skipped p' earlier r v t hq =>
    cases r with
    | error e => cases hres
    | ok => exact ⟨p', hq, .inl (Except.ok.inj hres)⟩
  | @failed p' earlier e message r v t hq =>
    cases r with
    | error e => cases hres
    | ok => exact ⟨p', hq, .inr (.inl ⟨message, Except.ok.inj hres⟩)⟩
  | @updated p' a r v w t hq =>
    cases r with
    | error e => cases hres
    | ok => exact ⟨p', hq, .inr (.inr (Except.ok.inj hres))⟩
  | unlisted | unloaded | uncompared | unidentified | undrawn | unnumbered | unsaved => cases hres

end

/-- What an update does with one function: it ends in a fault, or the function is up to date, or it
has no signature, or it is generated and its artifact saved. -/
inductive Stepped (u : UpdateInputs) (p : Progress) (f : ShaderFunction) (s : σ) :
    Except Fault Progress → σ → Prop
  | fault {e : Fault} {t : σ} (ht : D.artifact t = D.artifact s) : Stepped u p f s (.error e) t
  | skipped {q : Progress} {r : ArtifactRecord} {t : σ} (hq : p.register f.name = .ok q)
      (hr : D.artifact s f.name = some r) (hc : r.comment.includes (u.tag f) = .ok true)
      (ht : D.artifact t = D.artifact s) : Stepped u p f s (.ok (q.skipped f.name)) t
  | failed {q : Progress} {e : PinError} {message : String} {t : σ}
      (hq : p.register f.name = .ok q)
      (hc : ArtifactRecord.isCurrent (D.artifact s f.name) (u.tag f) = .ok false)
      (hf : f.signature = .error e) (ht : D.artifact t = D.artifact s) :
      Stepped u p f s (.ok (q.failed f.name message)) t
  | generated {g : Generation} {res : Except Fault Progress} {t : σ}
      (hc : ArtifactRecord.isCurrent (D.artifact s f.name) (u.tag f) = .ok false)
      (hg : g.Sound) (hu : g.inputs = u) (hf : g.function = f)
      (ht : D.artifact t = Function.update (D.artifact s) f.name (some g.artifact.record))
      (hres : ∀ q, res = .ok q → ∃ q', p.register f.name = .ok q' ∧ q = q'.updated f.name) :
      Stepped u p f s res t

section

variable {u : UpdateInputs} {source : String} {p : Progress} {f : ShaderFunction} {s t : σ}

theorem loaded_of_exec {r : Except Fault (Option ArtifactRecord)}
    (h : exec (D.store.load f.name) s = (r, t)) :
    (∀ earlier, r = .ok earlier → earlier = D.artifact s f.name) ∧ D.artifact t = D.artifact s :=
  ⟨fun earlier hr => D.loaded f.name s earlier (hr ▸ congrArg Prod.fst h), (D.load f.name).of_exec h⟩

theorem Drawn.artifact {r : Except Fault (Except NumeralError Artifact)}
    (h : Drawn D.store u f s r t) :
    ArtifactRecord.isCurrent (D.artifact s f.name) (u.tag f) = .ok false
      ∧ D.artifact t = D.artifact s := by
  obtain ⟨hload, hc, -, -, hdraw⟩ := h
  obtain ⟨hearlier, hkept⟩ := loaded_of_exec D hload
  rw [← hearlier _ rfl]
  exact ⟨hc, ((D.draw _).1.of_exec hdraw).trans hkept⟩

/-- What is drawn is sound. -/
theorem Drawn.exists_generation {a : Artifact} (h : Drawn D.store u f s (.ok (.ok a)) t) :
    ∃ g : Generation, g.Sound ∧ g.inputs = u ∧ g.function = f ∧ g.artifact = a := by
  obtain ⟨-, -, hs, -, hdraw⟩ := h
  obtain ⟨supply, hsupply⟩ := (D.draw _).2 _
  rw [hdraw] at hsupply
  exact ShaderGraph.exists_generation hs (Except.ok.inj hsupply).symm

theorem Course.stepped {res : Except Fault Progress} (h : Course D.store u source p f s res t) :
    Stepped D u p f s res t := by
  cases h with
  | unlisted => exact .fault rfl
  | unloaded hload | uncompared hload | unidentified hload => exact .fault (loaded_of_exec D hload).2
  | undrawn h | unnumbered h => exact .fault (h.artifact D).2
  | @skipped q earlier r v t hq hload hc hlog =>
    obtain ⟨hearlier, hv⟩ := loaded_of_exec D hload
    obtain rfl := hearlier _ rfl
    have ht := ((D.log _ _).of_exec hlog).trans hv
    cases r with
    | error e => exact .fault ht
    | ok =>
      cases hr : D.artifact s f.name with
      | none => rw [hr] at hc; cases hc
      | some a =>
        rw [hr] at hc
        exact .skipped hq hr hc ht
  | @failed q earlier e message r v t hq hload hc hs _ hreport =>
    obtain ⟨hearlier, hv⟩ := loaded_of_exec D hload
    obtain rfl := hearlier _ rfl
    have ht := ((D.undisturbed.keeps_report _).of_exec hreport).trans hv
    cases r with
    | error e => exact .fault ht
    | ok => exact .failed hq hc hs ht
  | @unsaved a e v t h hsave =>
    have hnot := D.notSaved a v e (congrArg Prod.fst hsave)
    rw [hsave] at hnot
    exact .fault (hnot.trans (h.artifact D).2)
  | @updated q a r v w t hq h hsave hlog =>
    obtain ⟨hc, hv⟩ := h.artifact D
    obtain ⟨g, hg, rfl, rfl, rfl⟩ := h.exists_generation D
    have hsaved := D.saved g.artifact v (congrArg Prod.fst hsave)
    rw [hsave, hv] at hsaved
    refine .generated hc hg rfl rfl (((D.log _ _).of_exec hlog).trans hsaved) fun q' hq' => ?_
    cases r with
    | error e => cases hq'
    | ok => exact ⟨q, hq, (Except.ok.inj hq').symm⟩

end

/-- Each function takes an update one step. -/
theorem stepped_updateFunction (u : UpdateInputs) (source : String) (p : Progress)
    (f : ShaderFunction) (s : σ) :
    Stepped D u p f s (exec (updateFunction D.store u source p f) s).1
      (exec (updateFunction D.store u source p f) s).2 :=
  (course_updateFunction D.store u source p f s).stepped D

theorem Progress.register_report {p q : Progress} {name : String} (h : p.register name = .ok q) :
    q.report = p.report := by
  unfold register at h
  cases hadd : p.manifest.add? name with
  | error e => rw [hadd] at h; cases h
  | ok m =>
    rw [hadd] at h
    cases m <;> cases h <;> rfl

theorem Progress.removeOthers_report {p q : Progress} {names : List String}
    (h : p.removeOthers names = .ok q) :
    q.report = { p.report with removed := q.report.removed } := by
  unfold removeOthers at h
  cases hothers : p.manifest.others names with
  | error e => rw [hothers] at h; cases h
  | ok removed =>
    rw [hothers] at h
    cases removed <;> cases h <;> rfl

/-- Reports that tell the same of a function, as far as it has been generated or was up to date. -/
structure UpdateReport.SameAt (r r' : UpdateReport) (name : String) : Prop where
  updated : name ∈ r.updated ↔ name ∈ r'.updated
  skipped : name ∈ r.skipped ↔ name ∈ r'.skipped

namespace UpdateReport.SameAt

variable {r r' r'' : UpdateReport} {name : String}

theorem refl : r.SameAt r name := ⟨Iff.rfl, Iff.rfl⟩

theorem trans (h : r.SameAt r' name) (h' : r'.SameAt r'' name) : r.SameAt r'' name :=
  ⟨h.updated.trans h'.updated, h.skipped.trans h'.skipped⟩

end UpdateReport.SameAt

namespace Stepped

variable {D : LawfulStore σ} {u : UpdateInputs} {p : Progress} {f : ShaderFunction} {s t : σ}
  {res : Except Fault Progress} {name : String}

theorem artifact_of_ne (h : Stepped D u p f s res t) (hne : name ≠ f.name) :
    D.artifact t name = D.artifact s name := by
  cases h with
  | fault ht | skipped _ _ _ ht | failed _ _ _ ht => rw [ht]
  | generated _ _ _ _ ht _ => rw [ht, Function.update_of_ne hne]

/-- An artifact was there before or has just been generated. -/
theorem artifact_cases (h : Stepped D u p f s res t) {r : ArtifactRecord}
    (hr : D.artifact t name = some r) :
    D.artifact s name = some r ∨ ∃ g : Generation, g.Sound ∧ g.inputs = u ∧ g.function = f
      ∧ f.name = name ∧ g.artifact.record = r := by
  cases h with
  | fault ht | skipped _ _ _ ht | failed _ _ _ ht =>
    rw [ht] at hr
    exact .inl hr
  | @generated g _ _ _ hg hu hf ht _ =>
    rw [ht] at hr
    by_cases hname : name = f.name
    · subst hname
      rw [Function.update_self] at hr
      exact .inr ⟨g, hg, hu, hf, rfl, Option.some.inj hr⟩
    · rw [Function.update_of_ne hname] at hr
      exact .inl hr

theorem sameAt_of_ne {q : Progress} (h : Stepped D u p f s (.ok q) t) (hne : name ≠ f.name) :
    p.report.SameAt q.report name := by
  cases h with
  | skipped hq _ _ _ =>
    constructor <;> simp [Progress.skipped, Progress.register_report hq, hne]
  | failed hq _ _ _ => constructor <;> simp [Progress.failed, Progress.register_report hq]
  | generated _ _ _ _ _ hres =>
    obtain ⟨q', hq, rfl⟩ := hres q rfl
    constructor <;> simp [Progress.updated, Progress.register_report hq, hne]

/-- A function is skipped when the header of its artifact tells its fingerprint. -/
theorem exists_of_skipped {q : Progress} (h : Stepped D u p f s (.ok q) t)
    (hp : f.name ∉ p.report.skipped) (hq : f.name ∈ q.report.skipped) :
    D.artifact t = D.artifact s ∧ ∃ r, D.artifact s f.name = some r
      ∧ r.comment.includes (u.tag f) = .ok true := by
  cases h with
  | skipped _ hr hc ht => exact ⟨ht, _, hr, hc⟩
  | failed hreg _ _ _ =>
    simp only [Progress.failed, Progress.register_report hreg] at hq
    exact absurd hq hp
  | generated _ _ _ _ _ hres =>
    obtain ⟨q', hreg, rfl⟩ := hres q rfl
    simp only [Progress.updated, Progress.register_report hreg] at hq
    exact absurd hq hp

theorem exists_of_updated {q : Progress} (h : Stepped D u p f s (.ok q) t)
    (hp : f.name ∉ p.report.updated) (hq : f.name ∈ q.report.updated) :
    ∃ g : Generation, g.Sound ∧ g.inputs = u ∧ g.function = f
      ∧ D.artifact t f.name = some g.artifact.record := by
  cases h with
  | skipped hreg _ _ _ =>
    simp only [Progress.skipped, Progress.register_report hreg] at hq
    exact absurd hq hp
  | failed hreg _ _ _ =>
    simp only [Progress.failed, Progress.register_report hreg] at hq
    exact absurd hq hp
  | generated _ hg hu hf ht _ => exact ⟨_, hg, hu, hf, by rw [ht, Function.update_self]⟩

end Stepped

/-- What an update does with functions one after the other, up to a fault. -/
inductive Ran (u : UpdateInputs) :
    Progress → List ShaderFunction → σ → Except Fault Progress → σ → Prop
  | done {p : Progress} {s : σ} : Ran u p [] s (.ok p) s
  | fault {p : Progress} {f : ShaderFunction} {fs : List ShaderFunction} {e : Fault} {s t : σ}
      (h : Stepped D u p f s (.error e) t) : Ran u p (f :: fs) s (.error e) t
  | step {p q : Progress} {f : ShaderFunction} {fs : List ShaderFunction} {s t v : σ}
      {res : Except Fault Progress} (h : Stepped D u p f s (.ok q) t) (hrest : Ran u q fs t res v) :
      Ran u p (f :: fs) s res v

theorem ran_foldlM (u : UpdateInputs) (source : String) :
    ∀ (fs : List ShaderFunction) (p : Progress) (s : σ),
      Ran D u p fs s (exec (fs.foldlM (updateFunction D.store u source) p) s).1
        (exec (fs.foldlM (updateFunction D.store u source) p) s).2
  | [], _, _ => .done
  | f :: fs, p, s => by
    have hstep := stepped_updateFunction D u source p f s
    rw [List.foldlM_cons]
    refine exec_bind_cases (fun e t h => ?_) fun q t h => ?_ <;> rw [h] at hstep
    · exact .fault hstep
    · exact .step hstep (ran_foldlM u source fs q t)

namespace Ran

variable {D : LawfulStore σ} {u : UpdateInputs} {p : Progress} {fs : List ShaderFunction} {s t : σ}
  {res : Except Fault Progress} {name : String}

theorem artifact_of_not_mem (h : Ran D u p fs s res t) (hname : name ∉ fs.map (·.name)) :
    D.artifact t name = D.artifact s name := by
  induction h with
  | done => rfl
  | fault h =>
    rw [List.map_cons, List.mem_cons, not_or] at hname
    exact h.artifact_of_ne hname.1
  | step h _ ih =>
    rw [List.map_cons, List.mem_cons, not_or] at hname
    exact (ih hname.2).trans (h.artifact_of_ne hname.1)

/-- An artifact was there before the functions or has been generated for one of them. -/
theorem artifact_cases (h : Ran D u p fs s res t) {r : ArtifactRecord}
    (hr : D.artifact t name = some r) :
    D.artifact s name = some r ∨ ∃ g : Generation, g.Sound ∧ g.inputs = u ∧ g.function ∈ fs
      ∧ g.function.name = name ∧ g.artifact.record = r := by
  induction h with
  | done => exact .inl hr
  | fault h =>
    rcases h.artifact_cases hr with h | ⟨g, hg, hu, rfl, hname, hgr⟩
    · exact .inl h
    · exact .inr ⟨g, hg, hu, List.mem_cons_self, hname, hgr⟩
  | step h _ ih =>
    rcases ih hr with hs | ⟨g, hg, hu, hmem, hname, hgr⟩
    · rcases h.artifact_cases hs with h | ⟨g, hg, hu, rfl, hname, hgr⟩
      · exact .inl h
      · exact .inr ⟨g, hg, hu, List.mem_cons_self, hname, hgr⟩
    · exact .inr ⟨g, hg, hu, List.mem_cons_of_mem _ hmem, hname, hgr⟩

theorem sameAt_of_not_mem {q : Progress} (h : Ran D u p fs s (.ok q) t)
    (hname : name ∉ fs.map (·.name)) : p.report.SameAt q.report name := by
  generalize hres : Except.ok q = res at h
  induction h with
  | done => cases hres; exact .refl
  | fault h => cases hres
  | step h _ ih =>
    rw [List.map_cons, List.mem_cons, not_or] at hname
    exact (h.sameAt_of_ne hname.1).trans (ih hname.2 hres)

/-- A function that is alone in its name has its turn once, and the turns of the other ones neither
change its artifact nor what is told of it. -/
theorem exists_stepped {q : Progress} (h : Ran D u p fs s (.ok q) t) {f : ShaderFunction}
    (hf : f ∈ fs) (honce : (fs.map (·.name)).count f.name = 1) :
    ∃ p' q' s' t', Stepped D u p' f s' (.ok q') t'
      ∧ p.report.SameAt p'.report f.name ∧ q'.report.SameAt q.report f.name
      ∧ D.artifact s' f.name = D.artifact s f.name
      ∧ D.artifact t f.name = D.artifact t' f.name := by
  generalize hres : Except.ok q = res at h
  induction h with
  | done => cases hf
  | fault h => cases hres
  | @step p q' f' fs s t v res h hrest ih =>
    subst hres
    rw [List.map_cons] at honce
    by_cases hname : f.name = f'.name
    · -- the function is this one, and the later ones have other names
      have hlater : f.name ∉ fs.map (·.name) := by
        rw [hname, List.count_cons_self] at honce
        rw [hname]
        exact List.count_eq_zero.1 (by omega)
      have hff : f = f' := by
        rcases List.mem_cons.1 hf with hf | hf
        · exact hf
        · exact absurd (List.mem_map_of_mem hf) hlater
      subst hff
      exact ⟨p, q', s, t, h, .refl, hrest.sameAt_of_not_mem hlater, rfl,
        hrest.artifact_of_not_mem hlater⟩
    · have hf' : f ∈ fs := by
        rcases List.mem_cons.1 hf with rfl | hf
        · exact absurd rfl hname
        · exact hf
      rw [List.count_cons_of_ne (Ne.symm hname)] at honce
      obtain ⟨p1, q1, s1, t1, hstep, hp, hq, hs, ht⟩ := ih hf' honce rfl
      exact ⟨p1, q1, s1, t1, hstep, (h.sameAt_of_ne hname).trans hp, hq,
        hs.trans (h.artifact_of_ne hname), ht⟩

/-- A function that is alone in its name and skipped keeps its artifact, whose header tells its
fingerprint. -/
theorem exists_of_skipped {q : Progress} (h : Ran D u p fs s (.ok q) t) {f : ShaderFunction}
    (hf : f ∈ fs) (honce : (fs.map (·.name)).count f.name = 1) (hp : f.name ∉ p.report.skipped)
    (hq : f.name ∈ q.report.skipped) :
    D.artifact t f.name = D.artifact s f.name ∧ ∃ r, D.artifact s f.name = some r
      ∧ r.comment.includes (u.tag f) = .ok true := by
  obtain ⟨p', q', s', t', hstep, hbefore, hafter, hs, ht⟩ := h.exists_stepped hf honce
  obtain ⟨hkept, r, hr, hc⟩ := hstep.exists_of_skipped
    (fun hmem => hp (hbefore.skipped.2 hmem)) (hafter.skipped.2 hq)
  exact ⟨by rw [ht, hkept, hs], r, by rw [← hs, hr], hc⟩

/-- A function that is alone in its name and updated has the artifact that was generated for it. -/
theorem exists_of_updated {q : Progress} (h : Ran D u p fs s (.ok q) t) {f : ShaderFunction}
    (hf : f ∈ fs) (honce : (fs.map (·.name)).count f.name = 1) (hp : f.name ∉ p.report.updated)
    (hq : f.name ∈ q.report.updated) :
    ∃ g : Generation, g.Sound ∧ g.inputs = u ∧ g.function = f
      ∧ D.artifact t f.name = some g.artifact.record := by
  obtain ⟨p', q', s', t', hstep, hbefore, hafter, -, ht⟩ := h.exists_stepped hf honce
  obtain ⟨g, hg, hu, hgf, hmade⟩ := hstep.exists_of_updated
    (fun hmem => hp (hbefore.updated.2 hmem)) (hafter.updated.2 hq)
  exact ⟨g, hg, hu, hgf, ht.trans hmade⟩

end Ran

/-- What an update does once all is read: it ends in a fault before the functions, or does with them
what it has to and then saves the manifest. -/
inductive Updated (u : UpdateInputs) (r : UpdateReport) (s : σ) :
    Except Fault UpdateReport → σ → Prop
  | fault {e : Fault} {t : σ} (ht : D.artifact t = D.artifact s) : Updated u r s (.error e) t
  | ran {manifest : Manifest} {s1 s2 t : σ} {mid : Except Fault Progress}
      {res : Except Fault UpdateReport} (hs : D.artifact s1 = D.artifact s)
      (h : Ran D u (.start r manifest u.context.sourceFile) u.functions s1 mid s2)
      (ht : D.artifact t = D.artifact s2)
      (hres : ∀ report, res = .ok report →
        ∃ q, mid = .ok q ∧ ∀ name, q.report.SameAt report name) : Updated u r s res t

theorem updated_updateFunctions (u : UpdateInputs) (source : String) (r : UpdateReport) (s : σ) :
    Updated D u r s (exec (updateFunctions D.store u source r) s).1
      (exec (updateFunctions D.store u source r) s).2 := by
  unfold updateFunctions
  refine (D.loadManifest _).exec_bind_cases (fun _ _ h => .fault h) fun manifest s1 _ hs => ?_
  have hran := ran_foldlM D u source u.functions (.start r manifest u.context.sourceFile) s1
  refine exec_bind_cases (fun e s2 h => ?_) fun q s2 h => ?_ <;> rw [h] at hran
  · exact .ran hs hran rfl fun report h => by cases h
  · refine exec_orFault_bind_cases (fun e _ => .ran hs hran rfl fun report h => by cases h)
      fun q' hq' => ?_
    have hsame : ∀ name, q.report.SameAt q'.report name := by
      intro name
      rw [Progress.removeOthers_report hq']
      exact ⟨Iff.rfl, Iff.rfl⟩
    have hdone : ∀ t, D.artifact t = D.artifact s2 → Updated D u r s (.ok q'.report) t := by
      intro t ht
      refine .ran hs hran ht fun report h => ⟨q, rfl, ?_⟩
      cases h
      exact hsame
    simp only
    split
    · refine (D.saveManifest _).exec_bind_cases (fun _ t ht => ?_) fun _ t _ ht => hdone t ht
      exact .ran hs hran ht fun report h => by cases h
    · exact hdone s2 rfl

namespace Updated

variable {D : LawfulStore σ} {u : UpdateInputs} {r : UpdateReport} {s t : σ}
  {res : Except Fault UpdateReport} {name : String}

theorem artifact_cases (h : Updated D u r s res t) {a : ArtifactRecord}
    (ha : D.artifact t name = some a) :
    D.artifact s name = some a ∨ ∃ g : Generation, g.Sound ∧ g.inputs = u
      ∧ g.function ∈ u.functions ∧ g.function.name = name ∧ g.artifact.record = a := by
  cases h with
  | fault ht =>
    rw [ht] at ha
    exact .inl ha
  | ran hs h ht _ =>
    rw [ht] at ha
    rw [← hs]
    exact h.artifact_cases ha

theorem exists_of_skipped {report : UpdateReport} (h : Updated D u r s (.ok report) t)
    (hr : r.skipped = []) {f : ShaderFunction} (hf : f ∈ u.functions)
    (honce : (u.functions.map (·.name)).count f.name = 1) (hskip : f.name ∈ report.skipped) :
    D.artifact t f.name = D.artifact s f.name ∧ ∃ a, D.artifact s f.name = some a
      ∧ a.comment.includes (u.tag f) = .ok true := by
  cases h with
  | ran hs h ht hres =>
    obtain ⟨q, rfl, hq⟩ := hres report rfl
    have hstart : ∀ manifest source,
        f.name ∉ (Progress.start r manifest source).report.skipped := by
      simp [Progress.start, hr]
    have hran := h.exists_of_skipped hf honce (hstart _ _) ((hq _).skipped.2 hskip)
    rwa [hs, ← ht] at hran

theorem exists_of_updated {report : UpdateReport} (h : Updated D u r s (.ok report) t)
    (hr : r.updated = []) {f : ShaderFunction} (hf : f ∈ u.functions)
    (honce : (u.functions.map (·.name)).count f.name = 1) (hupdated : f.name ∈ report.updated) :
    ∃ g : Generation, g.Sound ∧ g.inputs = u ∧ g.function = f
      ∧ D.artifact t f.name = some g.artifact.record := by
  cases h with
  | ran hs h ht hres =>
    obtain ⟨q, rfl, hq⟩ := hres report rfl
    have hstart : ∀ manifest source,
        f.name ∉ (Progress.start r manifest source).report.updated := by
      simp [Progress.start, hr]
    have hran := h.exists_of_updated hf honce (hstart _ _) ((hq _).updated.2 hupdated)
    rwa [← ht] at hran

end Updated

/-! ## Histories -/

namespace LawfulStore

/-- What an update reads in a state, if it comes to the functions. -/
def inputsAt (l : Library) (p : Project) (s : σ) : Option UpdateInputs :=
  match (exec (l.gather p : Routine σ (UpdateReport ⊕ UpdateInputs × UpdateReport)) s).1 with
  | .ok (.inr (u, _)) => some u
  | _ => none

/-- The states that updates of a library lead to from an empty store, with what these have read, the
latest first. Between updates everything but the store may change. -/
inductive Reached (l : Library) (p : Project) : List UpdateInputs → σ → Prop
  | start {s : σ} (h : ∀ name, D.artifact s name = none) : Reached l p [] s
  | edit {us : List UpdateInputs} {s t : σ} (h : Reached l p us s)
      (ht : D.artifact t = D.artifact s) : Reached l p us t
  | update {us : List UpdateInputs} {s : σ} (h : Reached l p us s) :
      Reached l p ((inputsAt l p s).toList ++ us) (exec (l.update p D.store) s).2

variable {D : LawfulStore σ} {l : Library} {p : Project} {us : List UpdateInputs} {s : σ}

omit [MonadStateOf Supply (Routine σ)] in
theorem reads_of_inputsAt {u : UpdateInputs} (h : inputsAt l p s = some u) : l.Reads p u := by
  have hyields := l.yields_gather (σ := σ) p s
  unfold inputsAt at h
  split at h
  · rename_i u' r hg
    obtain rfl := Option.some.inj h
    exact (hyields _ hg).2
  · cases h

/-- An update that comes to the functions goes on with them, whatever its store. -/
theorem exists_update_eq {u : UpdateInputs} (hu : inputsAt l p s = some u) :
    ∃ includes s1, exec (l.gather p : Routine σ (UpdateReport ⊕ UpdateInputs × UpdateReport)) s
        = (.ok (.inr (u, { library := l.name, includes := includes })), s1)
      ∧ ∀ store : ArtifactStore (Routine σ), exec (l.update p store) s
        = exec (updateFunctions store u (p.sourcePath l).toText
          { library := l.name, includes := includes }) s1 := by
  have hyields := l.yields_gather (σ := σ) p s
  unfold inputsAt at hu
  rcases hx : exec (l.gather p : Routine σ (UpdateReport ⊕ UpdateInputs × UpdateReport)) s with
    ⟨res, s1⟩
  rw [hx] at hyields hu
  rcases res with e | r | ⟨u', r⟩
  · cases hu
  · cases hu
  · obtain rfl := Option.some.inj hu
    obtain ⟨⟨includes, rfl⟩, -⟩ := hyields _ rfl
    refine ⟨includes, s1, rfl, fun store => ?_⟩
    rw [Library.update_eq, exec_bind, hx]
    rfl

/-- An update that does not come to the functions only gathers. -/
theorem exec_update_of_none (hu : inputsAt l p s = none) (store : ArtifactStore (Routine σ)) :
    (exec (l.update p store) s).2
      = (exec (l.gather p : Routine σ (UpdateReport ⊕ UpdateInputs × UpdateReport)) s).2 := by
  unfold inputsAt at hu
  rw [Library.update_eq, exec_bind]
  rcases hx : exec (l.gather p : Routine σ (UpdateReport ⊕ UpdateInputs × UpdateReport)) s with
    ⟨res, t⟩
  rw [hx] at hu
  rcases res with e | r | ⟨u', r⟩
  · rfl
  · rfl
  · cases hu

/-- What an update does: it ends before it comes to the functions, or goes on with what it has
read. -/
inductive Outcome (D : LawfulStore σ) (l : Library) (p : Project) (s : σ) :
    Except Fault UpdateReport → σ → Prop
  | ended {res : Except Fault UpdateReport} {t : σ} (ht : D.artifact t = D.artifact s)
      (hres : ∀ report, res = .ok report →
        ∃ includes error, report = { library := l.name, includes, error }) : Outcome D l p s res t
  | functions {u : UpdateInputs} {r : UpdateReport} {s1 t : σ} {res : Except Fault UpdateReport}
      (hu : inputsAt l p s = some u) (hr : ∃ includes, r = { library := l.name, includes })
      (hs : D.artifact s1 = D.artifact s) (h : Updated D u r s1 res t) : Outcome D l p s res t

theorem outcome_update (D : LawfulStore σ) (l : Library) (p : Project) (s : σ) :
    Outcome D l p s (exec (l.update p D.store) s).1 (exec (l.update p D.store) s).2 := by
  rw [Library.update_eq]
  have hyields := l.yields_gather (σ := σ) p s
  refine (D.undisturbed.keeps_gather l p).exec_bind_cases (fun e t ht => .ended ht fun _ h => by cases h)
    fun gathered t hg ht => ?_
  rw [hg] at hyields
  rcases gathered with r | ⟨u, r⟩
  · refine .ended ht fun report h => ?_
    obtain ⟨includes, message, rfl⟩ := hyields _ rfl
    exact ⟨includes, some message, (Except.ok.inj h).symm⟩
  · have hu : inputsAt l p s = some u := by
      unfold inputsAt
      rw [hg]
    exact .functions hu (hyields _ rfl).1 ht (updated_updateFunctions D u _ _ t)

theorem exists_updated (D : LawfulStore σ) {u : UpdateInputs} (hu : inputsAt l p s = some u) :
    ∃ includes s1, D.artifact s1 = D.artifact s
      ∧ Updated D u { library := l.name, includes := includes } s1 (exec (l.update p D.store) s).1
        (exec (l.update p D.store) s).2 := by
  obtain ⟨includes, s1, hgather, heq⟩ := exists_update_eq hu
  rw [heq]
  exact ⟨includes, s1, (D.undisturbed.keeps_gather l p).of_exec hgather,
    updated_updateFunctions D u _ _ s1⟩

/-- Every artifact of a store was generated by an earlier update. -/
theorem Reached.exists_generation (h : D.Reached l p us s) {name : String} {a : ArtifactRecord}
    (ha : D.artifact s name = some a) :
    ∃ g : Generation, g.Sound ∧ g.inputs ∈ us ∧ g.function ∈ g.inputs.functions
      ∧ g.function.name = name ∧ g.artifact.record = a := by
  induction h with
  | start h => rw [h] at ha; cases ha
  | edit _ ht ih => exact ih (by rwa [← ht])
  | @update us s h ih =>
    have hearlier : D.artifact s name = some a →
        ∃ g : Generation, g.Sound ∧ g.inputs ∈ (inputsAt l p s).toList ++ us
          ∧ g.function ∈ g.inputs.functions ∧ g.function.name = name ∧ g.artifact.record = a := by
      intro ha
      obtain ⟨g, hg, hmem, hrest⟩ := ih ha
      exact ⟨g, hg, List.mem_append_right _ hmem, hrest⟩
    cases outcome_update D l p s with
    | ended ht _ =>
      rw [ht] at ha
      exact hearlier ha
    | functions hu _ hs hupdated =>
      rcases hupdated.artifact_cases ha with ha | ⟨g, hg, rfl, hf, hname, hrecord⟩
      · rw [hs] at ha
        exact hearlier ha
      · refine ⟨g, hg, List.mem_append_left _ ?_, hf, hname, hrecord⟩
        rw [hu]
        exact List.mem_cons_self

/-- Every update that came to the functions has read a source that scans. -/
theorem Reached.reads (h : D.Reached l p us s) : ∀ u ∈ us, l.Reads p u := by
  induction h with
  | start h => simp
  | edit _ _ ih => exact ih
  | @update us s h ih =>
    intro u hu
    rcases List.mem_append.1 hu with hu | hu
    · exact reads_of_inputsAt (Option.mem_toList.1 hu)
    · exact ih u hu

end LawfulStore

end ShaderGraph
