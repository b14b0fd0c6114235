import PageTemplate.Proofs.Url.Encoding

/-!
# PageTemplate.Proofs.Url.Segments

The segments of a path. Reading a path normalizes it: no segment holds a slash or anything to be
encoded, none is written as one or two points, and the drive of a file ends in a colon
(`Segments.addPieces`). Reading segments that are normalized already yields them again
(`addPieces_of_segments`).
-/

namespace PageTemplate

namespace Url

/-! The pieces of a text between its slashes. -/

variable {special last : Bool} {c u : CodeUnit} {s t scheme : Text} {ss ps : List Text}

theorem pieces_ne_nil (special : Bool) (t : Text) : pieces special t ≠ [] := by
  cases t with
  | nil => exact List.cons_ne_nil _ _
  | cons c t =>
    rw [pieces, List.foldr_cons]
    split
    · exact List.cons_ne_nil _ _
    · split <;> exact List.cons_ne_nil _ _

theorem pieces_slash (h : isSlash special c) :
    pieces special (c :: t) = [] :: pieces special t := by
  rw [pieces, List.foldr_cons, if_pos h]
  rfl

theorem pieces_cons (h : isSlash special c = false) (ht : pieces special t = s :: ss) :
    pieces special (c :: t) = (c :: s) :: ss := by
  rw [pieces] at ht
  rw [pieces, List.foldr_cons, if_neg (by simp [h]), ht]

/-- The pieces of a text hold units of the text, and no slash. -/
theorem mem_pieces (hs : s ∈ pieces special t) (hu : u ∈ s) :
    u ∈ t ∧ isSlash special u = false := by
  induction t generalizing s with
  | nil =>
    rw [List.mem_singleton.1 hs] at hu
    cases hu
  | cons c t ih =>
    cases hslash : isSlash special c with
    | true =>
      rw [pieces_slash hslash] at hs
      rcases List.mem_cons.1 hs with rfl | hs
      · cases hu
      · exact ⟨List.mem_cons_of_mem c (ih hs hu).1, (ih hs hu).2⟩
    | false =>
      cases ht : pieces special t with
      | nil => exact absurd ht (pieces_ne_nil special t)
      | cons p ps =>
        rw [pieces_cons hslash ht] at hs
        rw [ht] at ih
        rcases List.mem_cons.1 hs with rfl | hs
        · rcases List.mem_cons.1 hu with rfl | hu
          · exact ⟨List.mem_cons_self, hslash⟩
          · have hp := ih List.mem_cons_self hu
            exact ⟨List.mem_cons_of_mem c hp.1, hp.2⟩
        · have hs := List.mem_cons_of_mem p hs
          exact ⟨List.mem_cons_of_mem c (ih hs hu).1, (ih hs hu).2⟩

theorem pieces_append (h : ∀ u ∈ s, isSlash special u = false) (ht : pieces special t = [] :: ss) :
    pieces special (s ++ t) = s :: ss := by
  induction s with
  | nil => exact ht
  | cons c s ih =>
    obtain ⟨hc, hs⟩ := List.forall_mem_cons.1 h
    exact pieces_cons hc (ih hs)

/-- Segments with slashes between them. -/
def joined (ss : List Text) : Text := List.intercalate [unit '/'] ss

theorem joined_cons_cons (s s' : Text) (ss : List Text) :
    joined (s :: s' :: ss) = s ++ unit '/' :: joined (s' :: ss) := by
  rw [joined, List.intercalate_cons_cons, List.append_assoc]
  rfl

theorem joined_singleton (s : Text) : joined [s] = s := List.intercalate_singleton

/-- Joining and cutting again. -/
theorem pieces_joined (hne : ss ≠ []) (h : ∀ s ∈ ss, ∀ u ∈ s, isSlash special u = false) :
    pieces special (joined ss) = ss := by
  induction ss with
  | nil => exact absurd rfl hne
  | cons s ss ih =>
    obtain ⟨hs, hss⟩ := List.forall_mem_cons.1 h
    cases ss with
    | nil =>
      rw [joined_singleton]
      have hone := pieces_append hs (show pieces special [] = [[]] from rfl)
      rwa [List.append_nil] at hone
    | cons s' ss =>
      rw [joined_cons_cons]
      refine pieces_append hs ?_
      rw [pieces_slash (by simp [isSlash]), ih (List.cons_ne_nil _ _) hss]

theorem flatMap_slash (hne : ss ≠ []) :
    (ss.flatMap fun s => unit '/' :: s) = unit '/' :: joined ss := by
  induction ss with
  | nil => exact absurd rfl hne
  | cons s ss ih =>
    cases ss with
    | nil => simp [joined_singleton]
    | cons s' ss =>
      rw [List.flatMap_cons, ih (List.cons_ne_nil _ _), joined_cons_cons]
      rfl

/-! Segments that are points. -/

theorem plainPoints_of_not_mem (h : unit '%' ∉ s) : plainPoints s = s.asciiLower := by
  have hlower : unit '%' ∉ s.asciiLower := by
    intro hm
    obtain ⟨v, hv, he⟩ := List.mem_map.1 hm
    have hpercent : unit '%' = 37 := rfl
    have hup : ∀ v : CodeUnit, CodeUnit.isUpperLetter v → v + 32 ≠ 37 := by
      intro v hv
      have hA : unit 'A' = 65 := rfl
      have hZ : unit 'Z' = 90 := rfl
      simp only [CodeUnit.isUpperLetter, Bool.and_eq_true, decide_eq_true_eq, hA, hZ] at hv
      grind
    rw [CodeUnit.asciiLower] at he
    split at he
    · exact hup v ‹_› (he.trans hpercent)
    · exact h (he ▸ hv)
  have hnone : Text.breakOn "%2e" s.asciiLower = none :=
    Text.breakOn_eq_none_iff.2 fun hin => hlower (hin.subset (by decide))
  rw [plainPoints, Text.replaceAll, Text.splitOn, dif_neg (by decide)]
  split
  · exact List.intercalate_singleton
  · rename_i before after hb
    rw [hnone] at hb
    cases hb

theorem isSinglePoint_point : isSinglePoint "." := by
  rw [isSinglePoint, plainPoints_of_not_mem (by decide)]
  decide

/-- A drive is a letter and a mark. -/
theorem isDrive_iff : isDrive s ↔ ∃ letter mark, s = [letter, mark] ∧ CodeUnit.isLetter letter ∧
    (mark = unit ':' ∨ mark = unit '|') := by
  constructor
  · intro h
    match s, h with
    | [letter, mark], h =>
      rw [isDrive, Bool.and_eq_true, Bool.or_eq_true, beq_iff_eq, beq_iff_eq] at h
      exact ⟨letter, mark, rfl, h.1, h.2⟩
  · rintro ⟨letter, mark, rfl, hl, rfl | rfl⟩ <;> simp [isDrive, hl]

theorem not_point_of_isDrive (h : isDrive s) :
    isSinglePoint s = false ∧ isDoublePoint s = false := by
  obtain ⟨letter, mark, rfl, hl, hm⟩ := isDrive_iff.1 h
  have hpercent : unit '%' ∉ [letter, mark] := by
    have hletter : unit '%' ≠ letter := by
      rintro rfl
      exact absurd hl (by decide)
    have hmark : unit '%' ≠ mark := by rcases hm with rfl | rfl <;> decide
    simp [hletter, hmark]
  have hmark : CodeUnit.asciiLower mark ≠ unit '.' := by rcases hm with rfl | rfl <;> decide
  rw [isSinglePoint, isDoublePoint, plainPoints_of_not_mem hpercent, beq_eq_false_iff_ne,
    beq_eq_false_iff_ne]
  constructor
  · intro he
    have hlength := congrArg List.length he
    cases hlength
  · intro he
    exact hmark (List.cons.inj (List.cons.inj he).2).1

theorem not_point_nil : isSinglePoint [] = false ∧ isDoublePoint [] = false := by
  rw [isSinglePoint, isDoublePoint, plainPoints_of_not_mem List.not_mem_nil]
  decide

/-! Normalized segments. -/

/-- Segments as reading leaves them. -/
structure Segments (scheme : Text) (ss : List Text) : Prop where
  plain : ∀ s ∈ ss, Plain escapedInPath s
  uncut : ∀ s ∈ ss, ∀ u ∈ s, isSlash (isSpecialScheme scheme) u = false
  points : ∀ s ∈ ss, isSinglePoint s = false ∧ isDoublePoint s = false
  drive : scheme = fileScheme → ∀ s ∈ ss.head?, isDrive s → isPlainDrive s

theorem segments_nil (scheme : Text) : Segments scheme [] := ⟨nofun, nofun, nofun, fun _ => nofun⟩

/-- The beginning of normalized segments. -/
theorem Segments.prefix {first : List Text} (h : Segments scheme ss) (hp : first <+: ss) :
    Segments scheme first := by
  refine ⟨fun s hs => h.plain s (hp.subset hs), fun s hs => h.uncut s (hp.subset hs),
    fun s hs => h.points s (hp.subset hs), fun hf s hs => h.drive hf s ?_⟩
  obtain ⟨rest, rfl⟩ := hp
  rw [List.head?_append, hs]
  rfl

/-- The drive that segments start with. -/
theorem Segments.drive_take (h : Segments scheme ss) :
    Segments scheme ((ss.take 1).filter isPlainDrive) := by
  refine h.prefix ?_
  cases ss with
  | nil => exact List.nil_prefix
  | cons s ss =>
    cases hs : isPlainDrive s with
    | true => simp [hs]
    | false => simp [hs]

theorem Segments.shorten (h : Segments scheme ss) : Segments scheme (shorten scheme ss) := by
  unfold Url.shorten
  split
  · split
    · exact h
    · exact segments_nil scheme
  · exact h.prefix (List.dropLast_prefix _)

theorem Segments.concat (h : Segments scheme ss) (hp : Plain escapedInPath s)
    (hu : ∀ u ∈ s, isSlash (isSpecialScheme scheme) u = false)
    (hs : isSinglePoint s = false ∧ isDoublePoint s = false)
    (hd : scheme = fileScheme → ss = [] → isDrive s → isPlainDrive s) :
    Segments scheme (ss ++ [s]) := by
  refine ⟨fun r hr => ?_, fun r hr => ?_, fun r hr => ?_, fun hf r hr => ?_⟩
  · rcases List.mem_append.1 hr with hr | hr
    · exact h.plain r hr
    · rwa [List.mem_singleton.1 hr]
  · rcases List.mem_append.1 hr with hr | hr
    · exact h.uncut r hr
    · rwa [List.mem_singleton.1 hr]
  · rcases List.mem_append.1 hr with hr | hr
    · exact h.points r hr
    · rwa [List.mem_singleton.1 hr]
  · cases ss with
    | nil =>
      cases hr
      exact hd hf rfl
    | cons s' ss => exact h.drive hf r hr

theorem Segments.concat_nil (h : Segments scheme ss) : Segments scheme (ss ++ [[]]) :=
  h.concat nofun nofun not_point_nil fun _ _ => nofun

/-- A drive with a colon, made of any drive. -/
theorem isPlainDrive_take (h : isDrive s) : isPlainDrive (s.take 1 ++ [unit ':']) := by
  obtain ⟨letter, mark, rfl, hl, _⟩ := isDrive_iff.1 h
  simp [isPlainDrive, isDrive, hl]

theorem take_of_isPlainDrive (h : isPlainDrive s) : s.take 1 ++ [unit ':'] = s := by
  rw [isPlainDrive, Bool.and_eq_true, beq_iff_eq] at h
  obtain ⟨letter, mark, rfl, _, _⟩ := isDrive_iff.1 h.1
  rw [← Option.some.inj h.2]
  rfl

/-- Adding a piece keeps segments normalized. -/
theorem Segments.addSegment (h : Segments scheme ss) (hp : Plain escapedInPath s)
    (hu : ∀ u ∈ s, isSlash (isSpecialScheme scheme) u = false) (last : Bool) :
    Segments scheme (addSegment scheme ss s last) := by
  rw [Url.addSegment]
  split
  · dsimp only
    split
    · exact h.shorten.concat_nil
    · exact h.shorten
  split
  · split
    · exact h.concat_nil
    · exact h
  rename_i hdouble hsingle
  have hpoints : isSinglePoint s = false ∧ isDoublePoint s = false := by simp_all
  split
  · rename_i hdrive
    rw [Bool.and_eq_true] at hdrive
    have hplain := isPlainDrive_take hdrive.2
    have hmem : ∀ u ∈ s.take 1 ++ [unit ':'], u ∈ s ∨ u = unit ':' := by
      intro u hu
      rcases List.mem_append.1 hu with hu | hu
      · exact .inl (List.mem_of_mem_take hu)
      · exact .inr (List.mem_singleton.1 hu)
    refine h.concat (fun u hm => ?_) (fun u hm => ?_)
      (not_point_of_isDrive (Bool.and_eq_true_iff.1 hplain).1) fun _ _ _ => hplain
    · rcases hmem u hm with hm | rfl
      · exact hp u hm
      · decide
    · rcases hmem u hm with hm | rfl
      · exact hu u hm
      · cases isSpecialScheme scheme <;> decide
  · rename_i hdrive
    refine h.concat hp hu hpoints fun hf hnil hd => ?_
    simp [hf, hnil, hd] at hdrive

/-- **Reading a path yields normalized segments.** -/
theorem Segments.addPieces (h : Segments scheme ss) (hp : ∀ p ∈ ps, Plain escapedInPath p)
    (hu : ∀ p ∈ ps, ∀ u ∈ p, isSlash (isSpecialScheme scheme) u = false) :
    Segments scheme (addPieces scheme ss ps) := by
  induction ps generalizing ss with
  | nil => exact h
  | cons p ps ih =>
    obtain ⟨hplain, hps⟩ := List.forall_mem_cons.1 hp
    obtain ⟨huncut, hus⟩ := List.forall_mem_cons.1 hu
    cases ps with
    | nil => exact h.addSegment hplain huncut true
    | cons p' ps => exact ih (h.addSegment hplain huncut false) hps hus

/-- A path of a special scheme has a segment. -/
theorem addPieces_ne_nil (hs : isSpecialScheme scheme) (hne : ps ≠ []) :
    addPieces scheme ss ps ≠ [] := by
  induction ps generalizing ss with
  | nil => exact absurd rfl hne
  | cons p ps ih =>
    cases ps with
    | nil =>
      rw [addPieces, addSegment]
      split
      · simp [hs]
      split
      · simp
      split <;> simp
    | cons p' ps => exact ih (List.cons_ne_nil _ _)

theorem shorten_subset (scheme : Text) (ss : List Text) : shorten scheme ss ⊆ ss := by
  unfold shorten
  split
  · split
    · exact List.Subset.refl _
    · exact List.nil_subset _
  · exact (List.dropLast_prefix ss).subset

/-- What holds of the empty segment, of all segments and of all pieces holds of the segments that
are read. The drive of a file may be changed by reading. -/
theorem forall_addPieces {p : Text → Prop} (hfile : scheme ≠ fileScheme) (hnil : p [])
    (hss : ∀ s ∈ ss, p s) (hps : ∀ s ∈ ps, p s) : ∀ s ∈ addPieces scheme ss ps, p s := by
  have hconcat : ∀ ss : List Text, (∀ s ∈ ss, p s) → ∀ s, p s → ∀ r ∈ ss ++ [s], p r := by
    intro ss hss s hs r hr
    rcases List.mem_append.1 hr with hr | hr
    · exact hss r hr
    · rwa [List.mem_singleton.1 hr]
  have hadd : ∀ ss : List Text, (∀ s ∈ ss, p s) → ∀ s, p s → ∀ last,
      ∀ r ∈ addSegment scheme ss s last, p r := by
    intro ss hss s hs last
    have hshort : ∀ r ∈ shorten scheme ss, p r := fun r hr => hss r (shorten_subset scheme ss hr)
    rw [addSegment]
    split
    · dsimp only
      split
      · exact hconcat _ hshort [] hnil
      · exact hshort
    split
    · split
      · exact hconcat ss hss [] hnil
      · exact hss
    split
    · rename_i hdrive
      simp [hfile] at hdrive
    · exact hconcat ss hss s hs
  induction ps generalizing ss with
  | nil => exact hss
  | cons s ps ih =>
    obtain ⟨hs, hps⟩ := List.forall_mem_cons.1 hps
    cases ps with
    | nil => exact hadd ss hss s hs true
    | cons s' ps => exact ih (hadd ss hss s hs false) hps

/-- **Normalized segments are read as they are.** -/
theorem addPieces_of_segments {done : List Text} (h : Segments scheme (done ++ ss)) :
    addPieces scheme done ss = done ++ ss := by
  induction ss generalizing done with
  | nil => rw [addPieces, List.append_nil]
  | cons s ss ih =>
    have hadd : ∀ last, addSegment scheme done s last = done ++ [s] := by
      intro last
      have hpoints := h.points s (List.mem_append_right _ List.mem_cons_self)
      rw [addSegment, if_neg (by simp [hpoints.2]), if_neg (by simp [hpoints.1])]
      split
      · rename_i hdrive
        simp only [Bool.and_eq_true, beq_iff_eq, List.isEmpty_iff] at hdrive
        obtain ⟨⟨hf, rfl⟩, hd⟩ := hdrive
        rw [take_of_isPlainDrive (h.drive hf s rfl hd)]
      · rfl
    have happend : done ++ s :: ss = (done ++ [s]) ++ ss := by simp
    cases ss with
    | nil => exact hadd true
    | cons s' ss =>
      rw [addPieces, hadd, ih (happend ▸ h), happend]
      exact List.cons_ne_nil _ _

end Url

end PageTemplate
