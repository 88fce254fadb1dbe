import ShaderGraph.Proofs.BrokenRecords
import ShaderGraph.Proofs.Held

/-!
# Damaged documents

Most damage to a document makes it count as missing. It stops the program that reads it if its bytes
are no text, if a number in it has too many digits or its nesting is too deep, or if it tells a value
that breaks the reading of an artifact (`DocumentStore.exec_read_cases`).
-/

namespace ShaderGraph

open Routine

/-- The text that bytes are, with universal line ends. -/
def textOf? (bytes : ByteArray) : Option String :=
  (String.fromUTF8? bytes).map fun s => String.ofList (Text.universalNewlines s.toList)

theorem textOf?_render (j : Json) : textOf? j.render.toUTF8 = some j.render := by
  rw [textOf?, fromUTF8?_toUTF8, Option.map_some, Text.universalNewlines_render, String.ofList_toList]

theorem World.readText_of_bytesAt {w : World} {path : DiskPath} {bytes : ByteArray}
    (h : w.bytesAt path = .ok bytes) : w.readText path = .ok (match textOf? bytes with
      | some text => .ok text
      | none => .error (.undecodable w.noText)) := by
  unfold bytesAt at h
  rw [readText, h, textOf?]
  dsimp only
  cases String.fromUTF8? bytes <;> rfl

namespace InWorld

variable {α β : Type} {x : InWorld α} {f : α → InWorld β} {w : World}

/-- Whether a program that is run in a world ends in a fault. -/
def Faults (x : InWorld α) (w : World) : Prop := ∃ e, (exec x w).1 = .error e

theorem not_faults_of_ok {a : α} (h : (exec x w).1 = .ok a) : ¬Faults x w := by
  rintro ⟨e, he⟩
  cases h.symm.trans he

theorem faults_bind_left (h : Faults x w) : Faults (x >>= f) w := by
  obtain ⟨e, he⟩ := h
  refine ⟨e, ?_⟩
  rw [exec_bind, exec_of_fst he]

/-- A program ends in a fault if its second part does in every world that the first one leads to. -/
theorem faults_bind (h : ∀ a t, exec x w = (.ok a, t) → Faults (f a) t) : Faults (x >>= f) w := by
  unfold Faults
  rw [exec_bind]
  rcases hx : exec x w with ⟨e | a, t⟩
  · exact ⟨e, rfl⟩
  · exact h a t hx

end InWorld

namespace DocumentStore

open InWorld

variable {α : Type} {decoder : Json → Except DocumentError α} {breaks : Json → Prop} {kind : String}
  {path : DiskPath} {bytes : ByteArray} {D : DocumentStore} {w t : World}

/-! ## Bytes that stop a reader -/

/-- Whether the bytes of a document stop the program that reads it: they are no text, or a text with a
number or a nesting that is refused, or they tell a value that breaks its decoder. -/
inductive Stops (breaks : Json → Prop) (bytes : ByteArray) : Prop
  | noText (h : textOf? bytes = none)
  | longNumeral {text : String} (h : textOf? bytes = some text)
    (hparse : Json.parse text = .error .longNumeral)
  | tooDeep {text : String} (h : textOf? bytes = some text)
    (hparse : Json.parse text = .error .tooDeep)
  | value {text : String} {j : Json} (h : textOf? bytes = some text) (hparse : Json.parse text = .ok j)
    (hbreaks : breaks j)

/-- Whether bytes are the document of something. -/
def Carries (decoder : Json → Except DocumentError α) (bytes : ByteArray) (a : α) : Prop :=
  ∃ text j, textOf? bytes = some text ∧ Json.parse text = .ok j ∧ decoder j = .ok a

theorem decode_eq_ok_iff {text : String} {a : α} :
    decode decoder text = .ok a ↔ ∃ j, Json.parse text = .ok j ∧ decoder j = .ok a := by
  unfold decode
  cases Json.parse text with
  | error e => simp
  | ok j =>
    simp only [Except.ok.injEq, exists_eq_left']
    cases decoder j <;> simp [Except.mapError]

/-- A text stops its reader if its error is a fault. -/
theorem stops_iff_of_text {text : String} (hbreaks : ∀ j, IsBroken (decoder j) ↔ breaks j)
    (h : textOf? bytes = some text) : Stops breaks bytes
      ↔ ∃ e, decode decoder text = .error e ∧ e.fault?.isSome = true := by
  have htext : ∀ {text'}, textOf? bytes = some text' → text' = text := fun h' =>
    Option.some.inj (h'.symm.trans h)
  constructor
  · rintro (hnone | ⟨h', hparse⟩ | ⟨h', hparse⟩ | ⟨h', hparse, hbroken⟩)
    · cases h.symm.trans hnone
    · rw [htext h'] at hparse
      exact ⟨.unreadable .longNumeral, by rw [decode, hparse], rfl⟩
    · rw [htext h'] at hparse
      exact ⟨.unreadable .tooDeep, by rw [decode, hparse], rfl⟩
    · rw [htext h'] at hparse
      obtain ⟨e, he, hfatal⟩ := (hbreaks _).2 hbroken
      exact ⟨.content e, by rw [decode, hparse]; simp only [he]; rfl, hfatal⟩
  · rintro ⟨e, he, hfault⟩
    unfold decode at he
    rcases hparse : Json.parse text with (_ | _ | _) | j <;> rw [hparse] at he
    · cases he
      cases hfault
    · exact .longNumeral h hparse
    · exact .tooDeep h hparse
    · simp only at he
      cases hj : decoder j with
      | ok a =>
        rw [hj] at he
        cases he
      | error e' =>
        rw [hj] at he
        cases he
        exact .value h hparse ((hbreaks j).1 ⟨e', hj, hfault⟩)

/-- Reading a document either ends in a fault that leaves the world as it was, if its bytes stop the
reader, or gives what they carry, if they carry anything. -/
theorem exec_read_cases (kind : String) (hbreaks : ∀ j, IsBroken (decoder j) ↔ breaks j)
    (h : w.bytesAt path = .ok bytes) :
    Stops breaks bytes ∧ (∃ e, exec (read kind decoder path : InWorld (Option α)) w = (.error e, w))
      ∨ ¬Stops breaks bytes ∧ ∃ found t,
        exec (read kind decoder path : InWorld (Option α)) w = (.ok found, t)
          ∧ t.silenced = w.silenced ∧ ∀ a, found = some a ↔ Carries decoder bytes a := by
  unfold read
  rw [exec_bind, InWorld.exec_isThere, World.holds_of_bytesAt h]
  simp only [Except.mapError, Bool.not_true, Bool.false_eq_true, ↓reduceIte]
  rw [exec_bind, InWorld.exec_readText, World.readText_of_bytesAt h]
  cases htext : textOf? bytes with
  | none => exact .inl ⟨.noText htext, _, rfl⟩
  | some text =>
    have hcarries : ∀ a, decode decoder text = .ok a ↔ Carries decoder bytes a := by
      intro a
      rw [decode_eq_ok_iff, Carries]
      simp [htext]
    rw [stops_iff_of_text hbreaks htext]
    simp only
    cases hdecode : decode decoder text with
    | ok a =>
      refine .inr ⟨by simp, some a, w, rfl, rfl, fun b => ?_⟩
      rw [← hcarries, hdecode]
      simp
    | error e =>
      cases hfault : e.fault? with
      | some fault => exact .inl ⟨⟨e, rfl, by rw [hfault]; rfl⟩, fault, by simp only [hfault]; rfl⟩
      | none =>
        let told := (Severity.warning, "Ignoring unreadable " ++ kind ++ " " ++ path.toText ++ ": " ++ e.text)
        refine .inr ⟨?_, none, { w with messages := w.messages ++ [told] }, by simp only [hfault]; rfl, rfl,
          fun b => ?_⟩
        · rintro ⟨e', he', hsome⟩
          rw [← Except.error.inj he', hfault] at hsome
          cases hsome
        · rw [← hcarries, hdecode]
          simp

variable {name library : String}

theorem faults_load_iff (h : w.bytesAt (D.artifactPath (.string name)) = .ok bytes) :
    Faults (D.store.load name) w ↔ Stops ArtifactRecord.Breaks bytes := by
  rcases exec_read_cases "artifact" (fun _ => ArtifactRecord.isBroken_ofJson) h
    with ⟨hstops, e, he⟩ | ⟨hnot, found, t, hfound, -, -⟩
  · exact iff_of_true ⟨e, congrArg Prod.fst he⟩ hstops
  · exact iff_of_false (not_faults_of_ok (congrArg Prod.fst hfound)) hnot

theorem loaded_iff (h : w.bytesAt (D.artifactPath (.string name)) = .ok bytes)
    {found : Option ArtifactRecord} (hfound : (exec (D.store.load name : InWorld _) w).1 = .ok found)
    (a : ArtifactRecord) : found = some a ↔ Carries ArtifactRecord.ofJson bytes a := by
  rcases exec_read_cases "artifact" (fun _ => ArtifactRecord.isBroken_ofJson) h
    with ⟨-, e, he⟩ | ⟨-, found', t, hfound', -, hcarries⟩
  · cases (congrArg Prod.fst he).symm.trans hfound
  · obtain rfl := Except.ok.inj ((congrArg Prod.fst hfound').symm.trans hfound)
    exact hcarries a

/-- No value breaks the reading of a manifest. -/
theorem isBroken_manifest_iff (j : Json) : IsBroken (Manifest.ofJson j) ↔ False := by
  rw [iff_false, Manifest.ofJson, isBroken_bind, or_iff_right (Json.not_isBroken_recordFields _ j)]
  rintro ⟨fields, -, hbroken⟩
  exact not_isBroken_ok _ hbroken

theorem loadManifest_cases (h : w.bytesAt (D.manifestPath (.string library)) = .ok bytes) :
    Stops (fun _ => False) bytes ∧ (∃ e, exec (D.loadManifest library : InWorld Manifest) w = (.error e, w))
      ∨ ¬Stops (fun _ => False) bytes ∧ ∃ m, (exec (D.loadManifest library : InWorld Manifest) w).1 = .ok m
        ∧ (Carries Manifest.ofJson bytes m
          ∨ (∀ m', ¬Carries Manifest.ofJson bytes m') ∧ m = { library := .string library }) := by
  unfold loadManifest
  rw [exec_bind_pure]
  rcases exec_read_cases "manifest" isBroken_manifest_iff h
    with ⟨hstops, e, he⟩ | ⟨hnot, found, t, hfound, -, hcarries⟩
  · exact .inl ⟨hstops, e, by rw [he]; rfl⟩
  · refine .inr ⟨hnot, found.getD { library := .string library }, by rw [hfound]; rfl, ?_⟩
    cases found with
    | some m => exact .inl ((hcarries m).1 rfl)
    | none => exact .inr ⟨fun m' hm' => absurd ((hcarries m').2 hm') (by simp), rfl⟩

end DocumentStore

end ShaderGraph
