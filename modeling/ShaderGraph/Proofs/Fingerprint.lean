import Mathlib.Data.List.Basic
import ShaderGraph.Fingerprint
import ShaderGraph.Proofs.Scanned

/-!
# What a fingerprint tells

The text that is digested for a function is its parts one after the other, with nothing that says
where one ends. For a function that a scan finds it can be cut again: its line has no blank, its
comment ends with the first line that has no slash before it, the options are the same for all
functions of a library, and the return type, the name, the arguments and the body do not run into
each other.
-/

namespace ShaderGraph

open Text

/-- Two functions that are the same up to their bodies, and at the same place if that counts. -/
structure ShaderFunction.SameHead (accurateErrors : Bool) (f g : ShaderFunction) : Prop where
  comment : f.comment = g.comment
  returnType : f.returnType = g.returnType
  name : f.name = g.name
  arguments : f.arguments = g.arguments
  startLine : accurateErrors = true → f.startLine = g.startLine

/-- Two functions with the same text, and at the same place if that counts. -/
structure ShaderFunction.Agrees (accurateErrors : Bool) (f g : ShaderFunction) : Prop
    extends SameHead accurateErrors f g where
  body : f.body = g.body

theorem ShaderFunction.Agrees.refl {accurateErrors : Bool} {f : ShaderFunction} :
    f.Agrees accurateErrors f := ⟨⟨rfl, rfl, rfl, rfl, fun _ => rfl⟩, rfl⟩

/-- The first `x` after a text without it is where the text ends. -/
theorem append_cons_inj_of_not_mem {x : Char} :
    ∀ {s t u v : List Char}, x ∉ s → x ∉ t → s ++ x :: u = t ++ x :: v → s = t ∧ u = v
  | [], [], _, _, _, _, h => ⟨rfl, (List.cons.inj h).2⟩
  | [], y :: t, _, _, _, ht, h => by
    obtain ⟨rfl, -⟩ := List.cons.inj h
    exact absurd List.mem_cons_self ht
  | y :: s, [], _, _, hs, _, h => by
    obtain ⟨rfl, -⟩ := List.cons.inj h
    exact absurd List.mem_cons_self hs
  | y :: s, z :: t, u, v, hs, ht, h => by
    obtain ⟨rfl, htail⟩ := List.cons.inj h
    obtain ⟨rfl, huv⟩ := append_cons_inj_of_not_mem (fun hx => hs (List.mem_cons_of_mem _ hx))
      (fun hx => ht (List.mem_cons_of_mem _ hx)) htail
    exact ⟨rfl, huv⟩

/-- A comment ends before the first blank that starts a line. -/
theorem commentText_append_inj :
    ∀ {ls ms : List (List Char)} {u v : List Char},
      (∀ l ∈ ls, ∀ c ∈ l, isLineBreak c = false) → (∀ l ∈ ms, ∀ c ∈ l, isLineBreak c = false) →
      commentText ls ++ ' ' :: u = commentText ms ++ ' ' :: v →
      commentText ls = commentText ms ∧ u = v
  | [], [], _, _, _, _, h => ⟨rfl, (List.cons.inj h).2⟩
  | [], m :: ms, _, _, _, _, h => by
    rw [commentText_cons] at h
    exact absurd (List.cons.inj h).1 (by decide)
  | l :: ls, [], _, _, _, _, h => by
    rw [commentText_cons] at h
    exact absurd (List.cons.inj h).1 (by decide)
  | l :: ls, m :: ms, u, v, hl, hm, h => by
    have hfeed : ∀ {t : List Char}, (∀ c ∈ t, isLineBreak c = false) → '\n' ∉ t :=
      fun ht hn => absurd (ht _ hn) (by decide)
    rw [commentText_cons, commentText_cons, List.cons_append, List.cons_append, List.append_assoc,
      List.append_assoc, List.cons_append, List.cons_append] at h
    obtain ⟨rfl, hrest⟩ := append_cons_inj_of_not_mem (hfeed (hl l List.mem_cons_self))
      (hfeed (hm m List.mem_cons_self)) (List.cons.inj h).2
    obtain ⟨hlines, huv⟩ := commentText_append_inj
      (fun k hk => hl k (List.mem_cons_of_mem _ hk))
      (fun k hk => hm k (List.mem_cons_of_mem _ hk)) hrest
    rw [commentText_cons, commentText_cons, hlines]
    exact ⟨rfl, huv⟩

theorem blank_not_mem_toString {n : Int} (h : 0 ≤ n) : ' ' ∉ (toString n).toList := by
  obtain ⟨m, rfl⟩ := Int.eq_ofNat_of_zero_le h
  change ' ' ∉ (Nat.repr m).toList
  rw [Nat.toList_repr]
  intro hmem
  exact absurd (Nat.isDigit_of_mem_toDigits (by decide) (by decide) hmem) (by decide)

theorem toString_inj_of_nonneg {n m : Int} (hn : 0 ≤ n) (hm : 0 ≤ m)
    (h : toString n = toString m) : n = m := by
  obtain ⟨i, rfl⟩ := Int.eq_ofNat_of_zero_le hn
  obtain ⟨j, rfl⟩ := Int.eq_ofNat_of_zero_le hm
  have hdigits : Nat.toDigits 10 i = Nat.toDigits 10 j := by
    rw [← Nat.toList_repr, ← Nat.toList_repr]
    exact congrArg String.toList h
  rw [← Nat.ofDigitChars_ten_toDigits (n := i), hdigits, Nat.ofDigitChars_ten_toDigits]

namespace Fingerprint

theorem toList_content (f : ShaderFunction) (dependencies : String) (accurateErrors : Bool)
    (options : String) :
    (content f dependencies accurateErrors options).toList
      = '1' :: ' ' :: ((if accurateErrors then toString f.startLine else "").toList ++ ' '
        :: (f.comment.toList ++ ' ' :: (options.toList ++ ' ' :: (f.returnType.toList ++ ' '
        :: (f.name.toList ++ '(' :: ([','].intercalate (f.arguments.map String.toList) ++ ')'
        :: (f.body.toList ++ dependencies.toList))))))) := by
  simp [content, codeVersion]

variable {accurateErrors : Bool} {options : String}

/-- The digested text can be cut again, up to where the body ends. -/
theorem content_inj {f g : ShaderFunction} (hf : f.Scanned) (hg : g.Scanned) {d e : String}
    (h : content f d accurateErrors options = content g e accurateErrors options) :
    f.SameHead accurateErrors g ∧ f.body ++ d = g.body ++ e := by
  have hline : ∀ {k : ShaderFunction}, k.Scanned →
      ' ' ∉ (if accurateErrors then toString k.startLine else "").toList := by
    intro k hk
    split_ifs
    · exact blank_not_mem_toString hk.startLine
    · simp
  have htype : ∀ {k : ShaderFunction}, k.Scanned → ' ' ∉ k.returnType.toList :=
    fun hk hmem => absurd (hk.legible.returnType _ hmem) (by decide)
  have hname : ∀ {k : ShaderFunction}, k.Scanned → '(' ∉ k.name.toList :=
    fun hk hmem => (hk.legible.name _ hmem).2 rfl
  have hargs : ∀ {k : ShaderFunction}, k.Scanned →
      Balanced '(' ')' ([','].intercalate (k.arguments.map String.toList)) :=
    fun hk => Balanced.intercalate (by decide) (by decide) fun a ha =>
      (hk.legible.arguments.arguments a ha).parens
  obtain ⟨ls, hls, hfls⟩ := hf.comment
  obtain ⟨ms, hms, hgms⟩ := hg.comment
  have h1 := congrArg String.toList h
  rw [toList_content, toList_content, List.cons_inj_right, List.cons_inj_right] at h1
  obtain ⟨hl, h2⟩ := append_cons_inj_of_not_mem (hline hf) (hline hg) h1
  rw [hfls, hgms] at h2
  obtain ⟨hcomment, h3⟩ := commentText_append_inj hls hms h2
  rw [List.append_cancel_left_eq, List.cons_inj_right] at h3
  obtain ⟨hrt, h4⟩ := append_cons_inj_of_not_mem (htype hf) (htype hg) h3
  obtain ⟨hn, h5⟩ := append_cons_inj_of_not_mem (hname hf) (hname hg) h4
  obtain ⟨hjoin, h6⟩ := (hargs hf).append_close_inj (by decide) (hargs hg) h5
  have has := hf.legible.arguments.join_inj hg.legible.arguments hjoin
  refine ⟨⟨?_, String.toList_inj.1 hrt, String.toList_inj.1 hn, ?_, ?_⟩, ?_⟩
  · rw [← hfls, ← hgms] at hcomment
    exact String.toList_inj.1 hcomment
  · exact List.map_injective_iff.2 (fun _ _ => String.toList_injective) has
  · intro hacc
    rw [if_pos hacc, if_pos hacc] at hl
    exact toString_inj_of_nonneg hf.startLine hg.startLine (String.toList_inj.1 hl)
  · rw [← String.toList_inj, String.toList_append, String.toList_append, h6]

theorem hash_eq_of_ofFunction_eq {f g : ShaderFunction} {d e : String} {accurateErrors' : Bool}
    {options' : String}
    (h : ofFunction f d accurateErrors options = ofFunction g e accurateErrors' options') :
    Digest.hash (content f d accurateErrors options)
      = Digest.hash (content g e accurateErrors' options') := by
  have hlist := congrArg String.toList h
  rw [ofFunction, ofFunction, String.toList_append, String.toList_append,
    List.append_cancel_left_eq] at hlist
  exact String.toList_inj.1 hlist

/-- No edit of a function goes unnoticed: functions that are found in two sources and have the same
digested text agree, so functions with the same tag agree unless two different texts have the same
digest. -/
theorem agrees_of_ofFunction_eq {text text' : String} {fs gs : List ShaderFunction}
    (hfs : ShaderFunction.scan text = .ok fs) (hgs : ShaderFunction.scan text' = .ok gs)
    {f g : ShaderFunction} (hf : f ∈ fs) (hg : g ∈ gs) (base metadata : String)
    (accurateErrors : Bool) :
    (content f base accurateErrors metadata = content g base accurateErrors metadata →
        f.Agrees accurateErrors g)
      ∧ (ofFunction f base accurateErrors metadata = ofFunction g base accurateErrors metadata →
        (content f base accurateErrors metadata ≠ content g base accurateErrors metadata
            ∧ Digest.hash (content f base accurateErrors metadata)
              = Digest.hash (content g base accurateErrors metadata))
          ∨ f.Agrees accurateErrors g) := by
  have hagrees : content f base accurateErrors metadata = content g base accurateErrors metadata →
      f.Agrees accurateErrors g := by
    intro h
    obtain ⟨hhead, hbody⟩ := content_inj (scanned_of_mem_scan hfs hf) (scanned_of_mem_scan hgs hg) h
    exact ⟨hhead, by simpa using hbody⟩
  refine ⟨hagrees, fun h => ?_⟩
  by_cases hcontent : content f base accurateErrors metadata = content g base accurateErrors metadata
  · exact .inr (hagrees hcontent)
  · exact .inl ⟨hcontent, hash_eq_of_ofFunction_eq h⟩

theorem agrees_of_ofFunction_eq_of_moved :
    let f : ShaderFunction := ⟨0, "", "void", "F", ["int A", "int B"], " \x7b \x7d "⟩
    let g : ShaderFunction := ⟨2, "", "void", "F", ["int A", "int B"], " \x7b \x7d "⟩
    ofFunction f "base" false "" = ofFunction g "base" false "" ∧ f.Agrees false g := by
  intro f g
  have hfs : ShaderFunction.scan "void F(int A,int B) \x7b \x7b \x7d \x7d" = .ok [f] := by
    decide +kernel
  have hgs : ShaderFunction.scan "\n\nvoid F(int A,int B)\x7b \x7b \x7d \x7d\n" = .ok [g] := by
    decide +kernel
  have hcontent : content f "base" false "" = content g "base" false "" := rfl
  refine ⟨by rw [ofFunction, hcontent, ofFunction], ?_⟩
  exact (agrees_of_ofFunction_eq hfs hgs List.mem_cons_self List.mem_cons_self "base" "" false).1
    hcontent

end Fingerprint

end ShaderGraph
