import Mathlib.Data.List.Infix
import ShaderGraph.Memory.Disk
import ShaderGraph.Proofs.OrderedMap

/-!
# Files that stay

The place that a path leads to depends on its names alone; the disk only decides whether the way
there is open. Making a directory, writing a file and putting one in the place of another leave every
open way open and every other file as it is, even on a disk where files stand inside of files.
-/

namespace ShaderGraph

/-- The place that a path from the root leads to, if it leads anywhere. -/
def DiskPath.place (p : DiskPath) : List String := p.names.foldl walk []

namespace MemoryDisk

variable {d d' d'' : MemoryDisk} {p q : DiskPath} {place other : List String} {bytes : ByteArray}

/-- A place that is a directory, as all that it is in are. -/
def Open (d : MemoryDisk) (place : List String) : Prop :=
  ∀ above, above <:+ place → d.lookup above = some .directory

theorem Open.lookup (h : d.Open place) : d.lookup place = some .directory :=
  h place (List.suffix_refl _)

theorem Open.of_suffix (h : d.Open place) (ho : other <:+ place) : d.Open other :=
  fun above ha => h above (ha.trans ho)

theorem open_root : d.Open [] := by
  intro above ha
  rw [List.suffix_nil.1 ha]
  rfl

theorem open_of_lookup (hwithin : d.Open (place.drop 1))
    (h : d.lookup place = some .directory) : d.Open place := by
  intro above ha
  cases place with
  | nil => exact open_root above ha
  | cons name place =>
    rcases List.suffix_cons_iff.1 ha with rfl | ha
    · exact h
    · exact hwithin above ha

theorem Open.walk (h : d.Open place) (name : String) : d.Open ((DiskPath.walk place name).drop 1) := by
  unfold DiskPath.walk
  split_ifs
  · exact h.of_suffix ((List.drop_suffix _ _).trans (List.drop_suffix _ _))
  · exact h

theorem step_eq_ok {name : String} (h : d.step place name = .ok other) :
    d.lookup place = some .directory ∧ other = DiskPath.walk place name := by
  unfold step at h
  split at h
  · cases h
  · cases h
  · split_ifs at h
    cases h
    exact ⟨‹_›, rfl⟩

/-- Names lead to a place from one whose directory is open, and so is that of the place. -/
theorem foldlM_step_eq_ok : ∀ (names start : List String), d.Open (start.drop 1) →
    names.foldlM d.step start = .ok place →
      place = names.foldl DiskPath.walk start ∧ d.Open (place.drop 1)
  | [], _, hstart, h => by
    cases h
    exact ⟨rfl, hstart⟩
  | name :: names, start, hstart, h => by
    rw [List.foldlM_cons] at h
    cases hnext : d.step start name with
    | error e =>
      rw [hnext] at h
      cases h
    | ok next =>
      rw [hnext] at h
      obtain ⟨hlookup, rfl⟩ := step_eq_ok hnext
      exact foldlM_step_eq_ok names _ ((open_of_lookup hstart hlookup).walk name) h

theorem place_eq_of_locate (h : d.locate p = .ok place) : place = p.place ∧ d.Open (place.drop 1) := by
  unfold locate at h
  split_ifs at h
  exact foldlM_step_eq_ok _ _ open_root h

/-- Every open place of a disk is open in another. -/
def KeepsOpen (d d' : MemoryDisk) : Prop := ∀ place, d.Open place → d'.Open place

theorem KeepsOpen.foldlM_step (h : d.KeepsOpen d') : ∀ {names : List String} {start : List String},
    d.Open (start.drop 1) → names.foldlM d.step start = .ok place →
      names.foldlM d'.step start = .ok place
  | [], _, _, hd => hd
  | name :: names, start, hstart, hd => by
    rw [List.foldlM_cons] at hd ⊢
    cases hnext : d.step start name with
    | error e =>
      rw [hnext] at hd
      cases hd
    | ok next =>
      rw [hnext] at hd
      obtain ⟨hlookup, rfl⟩ := step_eq_ok hnext
      have hopen := open_of_lookup hstart hlookup
      have hnext' : d'.step start name = .ok (DiskPath.walk start name) := by
        rw [← hnext, step, step, hlookup, (h start hopen).lookup]
      rw [hnext']
      exact h.foldlM_step (hopen.walk name) hd

theorem KeepsOpen.locate (h : d.KeepsOpen d') (hd : d.locate p = .ok place) :
    d'.locate p = .ok place := by
  unfold MemoryDisk.locate at hd ⊢
  split_ifs at hd ⊢
  exact h.foldlM_step open_root hd

theorem read_eq_ok_iff : d.read p = .ok bytes ↔
    d.locate p = .ok p.place ∧ d.lookup p.place = some (.file bytes) := by
  unfold read find
  constructor
  · intro h
    cases hplace : d.locate p with
    | error e => simp [hplace] at h
    | ok place =>
      obtain ⟨rfl, -⟩ := place_eq_of_locate hplace
      cases hlookup : d.lookup p.place with
      | none => simp [hplace, hlookup] at h
      | some e => cases e <;> simp_all
  · rintro ⟨hplace, hlookup⟩
    simp [hplace, hlookup]

/-- What a change of a disk does to its files: no open place is closed, no file appears but at
some places, and the other files can be read as before. -/
structure ChangesAt (d : MemoryDisk) (places : List (List String)) (d' : MemoryDisk) : Prop where
  keepsOpen : d.KeepsOpen d'
  new : ∀ place bytes, d'.lookup place = some (.file bytes) → place ∉ places →
    d.lookup place = some (.file bytes)
  kept : ∀ p bytes, d.read p = .ok bytes → p.place ∉ places → d'.read p = .ok bytes

variable {places places' : List (List String)}

theorem ChangesAt.refl : d.ChangesAt places d := ⟨fun _ => id, fun _ _ h _ => h, fun _ _ h _ => h⟩

theorem ChangesAt.trans (h : d.ChangesAt places d') (h' : d'.ChangesAt places d'') :
    d.ChangesAt places d'' where
  keepsOpen place hp := h'.keepsOpen place (h.keepsOpen place hp)
  new place bytes hb hp := h.new place bytes (h'.new place bytes hb hp) hp
  kept p bytes hb hp := h'.kept p bytes (h.kept p bytes hb hp) hp

theorem ChangesAt.mono (h : d.ChangesAt places d') (hsub : places ⊆ places') :
    d.ChangesAt places' d' where
  keepsOpen := h.keepsOpen
  new place bytes hb hp := h.new place bytes hb fun hmem => hp (hsub hmem)
  kept p bytes hb hp := h.kept p bytes hb fun hmem => hp (hsub hmem)

/-- A change is known from the files at other places, where it keeps what is open. -/
theorem changesAt_of_lookup (hopen : d.KeepsOpen d')
    (h : ∀ place ∉ places, ∀ bytes, d'.lookup place = some (.file bytes)
      ↔ d.lookup place = some (.file bytes)) : d.ChangesAt places d' where
  keepsOpen := hopen
  new place bytes hb hp := (h place hp bytes).1 hb
  kept p bytes hb hp := by
    obtain ⟨hplace, hlookup⟩ := read_eq_ok_iff.1 hb
    exact read_eq_ok_iff.2 ⟨hopen.locate hplace, (h _ hp bytes).2 hlookup⟩

theorem lookup_put_of_ne {e : Entry} (h : other ≠ place) : (d.put place e).lookup other = d.lookup other := by
  by_cases hroot : other = []
  · rw [hroot]
    rfl
  · rw [lookup_put _ _ _ _ hroot, if_neg h]

theorem lookup_put_self {e : Entry} (h : place ≠ []) : (d.put place e).lookup place = some e := by
  rw [lookup_put _ _ _ _ h, if_pos rfl]

theorem keepsOpen_put {e : Entry} (h : d.lookup place = some .directory → e = .directory) :
    d.KeepsOpen (d.put place e) := by
  intro open' hopen above ha
  have hdirectory := hopen above ha
  by_cases hplace : above = place
  · subst hplace
    by_cases hroot : above = []
    · rw [hroot]
      rfl
    · rw [lookup_put_self hroot, h hdirectory]
  · rw [lookup_put_of_ne hplace, hdirectory]

/-- A written file stands where its path leads, in the place of a file or of nothing. -/
theorem write_eq_ok (h : d.write p bytes = .ok d') :
    d.locate p = .ok p.place ∧ d.lookup p.place ≠ some .directory
      ∧ d' = d.put p.place (.file bytes) := by
  unfold write at h
  split at h
  · cases h
  · rename_i place hplace
    obtain ⟨rfl, -⟩ := place_eq_of_locate hplace
    split at h
    · cases h
    · rename_i hlookup
      split at h
      · cases h
        exact ⟨hplace, hlookup, rfl⟩
      · cases h
      · cases h

theorem changesAt_write (h : d.write p bytes = .ok d') : d.ChangesAt [p.place] d' := by
  obtain ⟨-, hlookup, rfl⟩ := write_eq_ok h
  refine changesAt_of_lookup (keepsOpen_put fun hd => absurd hd hlookup) fun place hp b => ?_
  rw [lookup_put_of_ne (by simpa using hp)]

theorem read_of_write (h : d.write p bytes = .ok d') : d'.read p = .ok bytes := by
  have hopen := (changesAt_write h).keepsOpen
  obtain ⟨hplace, hlookup, rfl⟩ := write_eq_ok h
  refine read_eq_ok_iff.2 ⟨hopen.locate hplace, lookup_put_self fun hroot => hlookup ?_⟩
  rw [hroot]
  rfl

theorem lookup_removeAt_of_not_suffix (h : ¬ place <:+ other) :
    (d.removeAt place).lookup other = d.lookup other := by
  unfold lookup removeAt
  congr 1
  rw [OrderedMap.get?, OrderedMap.get?, List.find?_filter]
  congr 2
  funext e
  have hsuffix : place.isSuffixOf other = false := by
    rwa [← Bool.not_eq_true, List.isSuffixOf_iff_suffix]
  by_cases he : e.1 = other <;> simp [he, hsuffix]

theorem lookup_removeAt_of_suffix (hplace : place ≠ []) (h : place <:+ other) :
    (d.removeAt place).lookup other = none := by
  have hroot : other ≠ [] := by
    rintro rfl
    exact hplace (List.suffix_nil.1 h)
  rw [lookup, if_neg hroot, OrderedMap.get?, Option.map_eq_none_iff, List.find?_eq_none]
  intro e he hother
  have hkept := (List.mem_filter.1 he).2
  rw [decide_eq_true_iff.1 hother, List.isSuffixOf_iff_suffix.2 h] at hkept
  cases hkept

/-- Without a file nothing is missing that could be read elsewhere, even if something stood in it. -/
theorem changesAt_removeAt (h : d.lookup place = some (.file bytes)) :
    d.ChangesAt [place] (d.removeAt place) := by
  have hplace : place ≠ [] := by
    rintro rfl
    cases h
  have hnot : ∀ {above}, d.Open above → ¬ place <:+ above := by
    intro above ha hs
    have := ha place hs
    rw [h] at this
    cases this
  have hopen : d.KeepsOpen (d.removeAt place) := by
    intro open' ho above ha
    rw [lookup_removeAt_of_not_suffix (hnot (ho.of_suffix ha)), ho above ha]
  refine ⟨hopen, fun other b hb _ => ?_, fun p b hb hp => ?_⟩
  · by_cases hs : place <:+ other
    · rw [lookup_removeAt_of_suffix hplace hs] at hb
      cases hb
    · rwa [lookup_removeAt_of_not_suffix hs] at hb
  · obtain ⟨hlocate, hlookup⟩ := read_eq_ok_iff.1 hb
    obtain ⟨-, hwithin⟩ := place_eq_of_locate hlocate
    refine read_eq_ok_iff.2 ⟨hopen.locate hlocate, ?_⟩
    rw [lookup_removeAt_of_not_suffix, hlookup]
    intro hs
    cases hpath : p.place with
    | nil =>
      rw [hpath] at hs
      exact hplace (List.suffix_nil.1 hs)
    | cons name above =>
      rw [hpath] at hs hwithin hp
      rcases List.suffix_cons_iff.1 hs with rfl | hs
      · exact hp List.mem_cons_self
      · exact hnot hwithin hs

/-- A file that is put in the place of another one has its bytes. -/
theorem rename_eq_ok (h : d.rename p q = .ok d') :
    d.ChangesAt [p.place, q.place] d' ∧ ∃ bytes, d.read p = .ok bytes ∧ d'.read q = .ok bytes := by
  unfold rename at h
  split at h
  · cases h
  · cases h
  · rename_i bytes place hread hplace
    obtain ⟨rfl, -⟩ := place_eq_of_locate hplace
    have hremoved := changesAt_removeAt (read_eq_ok_iff.1 hread).2
    refine ⟨(hremoved.mono ?_).trans ((changesAt_write h).mono ?_), bytes, hread, read_of_write h⟩
    · simp
    · simp

theorem changesAt_makeOne (h : d.makeOne p = .ok d') : d.ChangesAt [] d' := by
  unfold makeOne at h
  split at h
  · cases h
  · split at h
    · cases h
      exact .refl
    · cases h
    · rename_i place hplace _ hnone
      cases h
      refine changesAt_of_lookup (keepsOpen_put fun _ => rfl) fun other _ b => ?_
      by_cases hother : other = place
      · subst hother
        rw [hnone, lookup_put_self]
        · simp
        · rintro rfl
          cases hnone
      · rw [lookup_put_of_ne hother]

theorem changesAt_makeAll : ∀ (names : List String) (d : MemoryDisk),
    d.ChangesAt [] (d.makeAll names).1
  | [], _ => .refl
  | name :: names, d => by
    have hrest := changesAt_makeAll names d
    unfold makeAll
    simp only
    cases hfirst : d.makeOne ⟨.root, (name :: names).reverse⟩ with
    | ok d' => exact changesAt_makeOne hfirst
    | error e =>
      cases e with
      | notFound =>
        rcases hall : d.makeAll names with ⟨d', e | u⟩ <;> rw [hall] at hrest
        · exact hrest
        · simp only
          cases hsecond : d'.makeOne ⟨.root, (name :: names).reverse⟩ with
          | ok d'' => exact hrest.trans (changesAt_makeOne hsecond)
          | error e => exact hrest
      | _ => exact .refl

end MemoryDisk

end ShaderGraph
