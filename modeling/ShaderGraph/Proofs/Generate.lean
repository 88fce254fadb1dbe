import ShaderGraph.Proofs.Identifiers

/-!
# What is generated

Generating fails only at a numeral that is too long. Of a function it needs the text, and its place
only when compiler errors are to point at it.
-/

namespace ShaderGraph

/-- Where a function starts does not count unless compiler errors are to point at it. -/
theorem Code.ofFunction_congr {f g : ShaderFunction} {declarations fingerprint : String}
    {context : GenerationContext} (hname : f.name = g.name) (hbody : f.body = g.body)
    (hline : context.accurateErrors = true → f.startLine = g.startLine) :
    ofFunction f declarations fingerprint context
      = ofFunction g declarations fingerprint context := by
  unfold ofFunction placed
  rw [hname, hbody]
  cases hacc : context.accurateErrors with
  | false => rfl
  | true => rw [hline hacc]

/-- A body that reads no texture coordinates. -/
theorem TexCoordinate.highest_of_references_eq_nil {body : String}
    (h : references body.toList = []) : highest body = .ok none := by
  rw [highest, h]
  rfl

namespace Artifact

/-- Generating fails only where a body numbers a texture coordinate by a numeral that is too long.
-/
theorem generate_cases (f : ShaderFunction) (s : Signature) (tag : String)
    (context : GenerationContext) (earlier : Option IdentifierTable) (supply : Supply) :
    (∃ e, TexCoordinate.highest f.body = .error e
        ∧ (generate f s tag context earlier supply).1 = .error e)
      ∨ ∃ n, TexCoordinate.highest f.body = .ok n
        ∧ (generate f s tag context earlier supply).1
          = .ok (withIdentifiers f s tag context (s.naming earlier supply).table n) := by
  unfold generate
  cases h : TexCoordinate.highest f.body with
  | error e => exact Or.inl ⟨e, rfl, rfl⟩
  | ok n => exact Or.inr ⟨n, rfl, rfl⟩

variable {f g : ShaderFunction} {s : Signature} {tag : String} {context : GenerationContext}
  {earlier : Option IdentifierTable} {supply : Supply}

theorem generate_eq_ok {n : Option Nat} (hn : TexCoordinate.highest f.body = .ok n) :
    generate f s tag context earlier supply
      = (.ok (withIdentifiers f s tag context (s.naming earlier supply).table n),
        (s.naming earlier supply).supply) := by
  unfold generate
  rw [hn]
  rfl

theorem exists_of_generate_eq_ok {a : Artifact}
    (h : (generate f s tag context earlier supply).1 = .ok a) :
    ∃ n, TexCoordinate.highest f.body = .ok n
      ∧ withIdentifiers f s tag context (s.naming earlier supply).table n = a := by
  rcases generate_cases f s tag context earlier supply with ⟨e, -, he⟩ | ⟨n, hn, ha⟩
  · rw [he] at h
    cases h
  · rw [ha] at h
    exact ⟨n, hn, Except.ok.inj h⟩

theorem withIdentifiers_congr (hname : f.name = g.name) (hcomment : f.comment = g.comment)
    (hbody : f.body = g.body)
    (hline : context.accurateErrors = true → f.startLine = g.startLine) (t : IdentifierTable)
    (n : Option Nat) :
    withIdentifiers f s tag context t n = withIdentifiers g s tag context t n := by
  have hvariant : variant f s tag context n = variant g s tag context n := by
    funext w
    simp only [variant, Code.ofFunction_congr hname hbody hline]
  unfold withIdentifiers
  rw [hvariant, hname, hcomment]

end Artifact

end ShaderGraph
