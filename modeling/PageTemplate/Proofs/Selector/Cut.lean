import Mathlib.Data.List.Basic
import PageTemplate.Proofs.Text
import PageTemplate.Selector.Syntax

/-!
# PageTemplate.Proofs.Selector.Cut

How a selector is cut before its parts are read. The cuts are made at commas, at white space and at
`>`, wherever these stand, so none of them is left in a part.
-/

namespace PageTemplate

namespace Text

def firstWord (t : Text) : Text := t.takeWhile (!isBlank ·)

def afterWord (t : Text) : Text := t.dropWhile (!isBlank ·)

/-- One unit more in front of the words that are cut off already. -/
def wordStep (u : CodeUnit) (cut : Text × List Text) : Text × List Text :=
  if isBlank u then ([], if cut.1.isEmpty then cut.2 else cut.1 :: cut.2)
  else (u :: cut.1, cut.2)

theorem words_eq_foldr (t : Text) :
    words t =
      if (t.foldr wordStep ([], [])).1.isEmpty then (t.foldr wordStep ([], [])).2
      else (t.foldr wordStep ([], [])).1 :: (t.foldr wordStep ([], [])).2 := rfl

theorem words_cons_blank {u : CodeUnit} (h : isBlank u) (t : Text) : words (u :: t) = words t := by
  rw [words_eq_foldr, words_eq_foldr t, List.foldr_cons, wordStep, if_pos h]
  rfl

/-- The first word is cut off and the rest is cut into words. -/
theorem foldr_wordStep (t : Text) :
    t.foldr wordStep ([], []) = (firstWord t, words (afterWord t)) := by
  induction t with
  | nil => rfl
  | cons u t ih =>
    cases hu : isBlank u with
    | true =>
      have hfirst : firstWord (u :: t) = [] := by simp [firstWord, hu]
      have hafter : afterWord (u :: t) = u :: t := by simp [afterWord, hu]
      rw [hfirst, hafter, words_cons_blank hu, words_eq_foldr, List.foldr_cons, wordStep,
        if_pos hu]
    | false =>
      have hfirst : firstWord (u :: t) = u :: firstWord t := by simp [firstWord, hu]
      have hafter : afterWord (u :: t) = afterWord t := by simp [afterWord, hu]
      rw [hfirst, hafter, List.foldr_cons, ih, wordStep, if_neg (by simp [hu])]

/-- A word ends where the text does or where white space stands. -/
theorem words_append {s r : Text} (hne : s ≠ []) (hs : ∀ u ∈ s, isBlank u = false)
    (hr : ∀ u ∈ r.head?, isBlank u) : words (s ++ r) = s :: words r := by
  have hfirst : firstWord (s ++ r) = s :=
    takeWhile_append (by simpa using hs) (by simpa using hr)
  have hafter : afterWord (s ++ r) = r :=
    dropWhile_append (by simpa using hs) (by simpa using hr)
  rw [words_eq_foldr, foldr_wordStep, hfirst, hafter, if_neg (by simpa using hne)]

/-- A separator is in none of the pieces. -/
theorem not_mem_of_mem_splitOn {c : CodeUnit} {t p : Text} (h : p ∈ splitOn [c] t) : c ∉ p := by
  induction hn : t.length using Nat.strong_induction_on generalizing t with
  | _ n ih =>
    by_cases hc : c ∈ t
    · obtain ⟨s, r, rfl, hs⟩ := List.eq_append_cons_of_mem hc
      rw [splitOn_append hs] at h
      rcases List.mem_cons.1 h with rfl | h
      · exact hs
      · have hshorter : r.length < n := by
          rw [← hn, List.length_append, List.length_cons]
          omega
        exact ih r.length hshorter h rfl
    · rw [splitOn_of_not_mem hc, List.mem_singleton] at h
      rwa [h]

end Text

namespace Selector

open Text

/-- The units at which a selector is cut. -/
def separates (u : CodeUnit) : Bool := isBlank u || u == unit ',' || u == unit '>'

/-- A text without a unit at which a selector is cut. -/
def IsWhole (t : Text) : Prop := ∀ u ∈ t, separates u = false

instance (t : Text) : Decidable (IsWhole t) := List.decidableBAll _ t

theorem separates_eq_false_iff {u : CodeUnit} :
    separates u = false ↔ isBlank u = false ∧ u ≠ unit ',' ∧ u ≠ unit '>' := by
  simp [separates, and_assoc]

theorem separates_of_isNameUnit {u : CodeUnit} (h : isNameUnit u = true) :
    separates u = false := by
  -- The units of names are ASCII, and of these there are few enough to look at each.
  have hlt : u.toNat < 128 := by
    simp only [isNameUnit, CodeUnit.isWord, CodeUnit.isLetter, CodeUnit.isLowerLetter,
      CodeUnit.isUpperLetter, CodeUnit.isDigit, Bool.or_eq_true, Bool.and_eq_true,
      decide_eq_true_eq, beq_iff_eq, UInt16.le_iff_toNat_le, ← UInt16.toNat_inj] at h
    have h1 : (unit 'z').toNat = 122 := by decide
    have h2 : (unit 'Z').toNat = 90 := by decide
    have h3 : (unit '9').toNat = 57 := by decide
    have h4 : (unit '_').toNat = 95 := by decide
    have h5 : (unit '-').toNat = 45 := by decide
    omega
  have hall : ∀ n : Fin 128, isNameUnit (UInt16.ofNat n) = true →
      separates (UInt16.ofNat n) = false := by
    decide +kernel
  have hu : UInt16.ofNat u.toNat = u := UInt16.ofNat_toNat
  have := hall ⟨u.toNat, hlt⟩
  rw [hu] at this
  exact this h

/-- White space around a sign for children. -/
def spread (u : CodeUnit) : Text := if u == unit '>' then [unit ' ', u, unit ' '] else [u]

theorem spread_blank {u : CodeUnit} (h : isBlank u) : spread u = [u] := by
  have hne : u ≠ unit '>' := by
    rintro rfl
    exact absurd h (by decide)
  simp [spread, hne]

theorem spread_whole {s : Text} (h : IsWhole s) : s.flatMap spread = s := by
  refine (List.flatMap_congr fun u hu => ?_).trans (List.flatMap_singleton' s)
  simp [spread, (separates_eq_false_iff.1 (h u hu)).2.2]

theorem chainWords_eq (t : Text) : chainWords t = words (t.flatMap spread) := rfl

theorem chainWords_nil : chainWords [] = [] := rfl

theorem chainWords_blank {u : CodeUnit} (h : isBlank u) (t : Text) :
    chainWords (u :: t) = chainWords t := by
  rw [chainWords_eq, List.flatMap_cons, spread_blank h]
  exact words_cons_blank h _

/-- A sign for children is a word wherever it stands. -/
theorem chainWords_child (t : Text) : chainWords (unit '>' :: t) = [unit '>'] :: chainWords t := by
  have hspread : spread (unit '>') = [unit ' '] ++ ([unit '>'] ++ [unit ' ']) := rfl
  rw [chainWords_eq, List.flatMap_cons, hspread, List.append_assoc, List.append_assoc]
  have hsign : words ([unit '>'] ++ ([unit ' '] ++ t.flatMap spread)) =
      [unit '>'] :: words ([unit ' '] ++ t.flatMap spread) :=
    words_append (by decide) (List.forall_mem_singleton.2 (by decide)) (by rintro _ ⟨⟩; decide)
  refine (words_cons_blank (by decide) _).trans (hsign.trans ?_)
  rw [chainWords_eq]
  exact congrArg _ (words_cons_blank (by decide) _)

/-- What stands in an alternative up to the next cut is a word. -/
theorem chainWords_append {s r : Text} (hne : s ≠ []) (hs : IsWhole s)
    (hr : ∀ u ∈ r.head?, isBlank u ∨ u = unit '>') :
    chainWords (s ++ r) = s :: chainWords r := by
  rw [chainWords_eq, List.flatMap_append, spread_whole hs]
  refine words_append hne (fun u hu => (separates_eq_false_iff.1 (hs u hu)).1) ?_
  intro v hv
  cases r with
  | nil => cases hv
  | cons u r =>
    rcases hr u rfl with hu | rfl
    · rw [List.flatMap_cons, spread_blank hu] at hv
      cases hv
      exact hu
    · cases hv
      rfl

/-- What stands in a text up to its first cut. -/
def uncut (t : Text) : Text := t.takeWhile (!separates ·)

theorem whole_uncut (t : Text) : IsWhole (uncut t) :=
  fun u hu => by simpa using List.mem_takeWhile_imp hu

theorem exists_eq_uncut_append (t : Text) :
    ∃ r, t = uncut t ++ r ∧ ∀ u ∈ r.head?, separates u := by
  refine ⟨t.dropWhile (!separates ·), List.takeWhile_append_dropWhile.symm, fun u hu => ?_⟩
  have hfirst := List.head?_dropWhile_not (!separates ·) t
  rw [Option.mem_def.1 hu] at hfirst
  simpa using hfirst

/-- No word of an alternative has a cut in it, the sign for children apart. -/
theorem whole_of_mem_chainWords {t w : Text} (hcomma : unit ',' ∉ t) (h : w ∈ chainWords t) :
    w = [unit '>'] ∨ IsWhole w := by
  -- One word, one unit of white space or one sign is taken off the front at a time.
  induction hn : t.length using Nat.strong_induction_on generalizing t with
  | _ n ih =>
    obtain ⟨s, r, rfl, hs, hr⟩ : ∃ s r, t = s ++ r ∧ IsWhole s ∧ ∀ u ∈ r.head?, separates u := by
      obtain ⟨r, ht, hr⟩ := exists_eq_uncut_append t
      exact ⟨uncut t, r, ht, whole_uncut t, hr⟩
    rw [List.mem_append, not_or] at hcomma
    have hcut : ∀ u ∈ r.head?, isBlank u ∨ u = unit '>' := by
      intro u hu
      have hne : u ≠ unit ',' := fun hu' => hcomma.2 (hu' ▸ List.mem_of_mem_head? hu)
      simpa [separates, hne] using hr u hu
    cases s with
    | cons v s =>
      rw [chainWords_append (List.cons_ne_nil v s) hs hcut, List.mem_cons] at h
      rcases h with rfl | h
      · exact .inr hs
      · have hshorter : r.length < n := by
          rw [← hn, List.length_append, List.length_cons]
          omega
        exact ih r.length hshorter hcomma.2 h rfl
    | nil =>
      rw [List.nil_append] at h hn
      cases r with
      | nil => cases h
      | cons u r =>
        have hshorter : r.length < n := by simp [← hn]
        have hrest : unit ',' ∉ r := fun hmem => hcomma.2 (List.mem_cons_of_mem u hmem)
        rcases hcut u rfl with hu | rfl
        · rw [chainWords_blank hu] at h
          exact ih r.length hshorter hrest h rfl
        · rw [chainWords_child, List.mem_cons] at h
          rcases h with rfl | h
          · exact .inl rfl
          · exact ih r.length hshorter hrest h rfl

/-- The alternatives that a selector is cut into, white space around them aside. -/
def alternatives (t : Text) : List Text :=
  ((splitOn [unit ','] t).map Text.trim).filter (!·.isEmpty)

theorem read_eq (t : Text) : read t = (alternatives t).mapM chainOf := rfl

theorem not_mem_comma_of_mem_alternatives {t a : Text} (h : a ∈ alternatives t) :
    unit ',' ∉ a := by
  obtain ⟨p, hp, rfl⟩ := List.mem_map.1 (List.mem_filter.1 h).1
  exact fun hmem => not_mem_of_mem_splitOn hp (trim_subset p hmem)

theorem sign_of_whole {t : Text} (h : IsWhole t) : (t == [unit '>']) = false := by
  rw [beq_eq_false_iff_ne]
  rintro rfl
  exact absurd h (by decide)

/-- A text that is not cut is a selector of one compound, if it is a compound. -/
theorem read_whole {t : Text} {c : Compound Pseudo} (hne : t ≠ []) (ht : IsWhole t)
    (hc : compound? Pseudo.of t = some c) : read t = .ok [[⟨.descendant, c⟩]] := by
  have hparts := fun u hu => separates_eq_false_iff.1 (ht u hu)
  have halternatives : alternatives t = [t] := by
    rw [alternatives, splitOn_of_not_mem fun hm => (hparts _ hm).2.1 rfl, List.map_cons,
      trim_of_not_blank fun u hu => (hparts u hu).1]
    simp [hne]
  have hwords : chainWords t = [t] := by
    have hone := chainWords_append hne ht (r := []) (by simp)
    rwa [List.append_nil, chainWords_nil] at hone
  rw [read_eq, halternatives, List.mapM_cons, chainOf, hwords, stepsOf, sign_of_whole ht, hc]
  rfl

theorem trimEnd_head (t : Text) : ∀ u ∈ (trimEnd t).head?, u ∈ t.head? := by
  intro u hu
  obtain ⟨w, -, ht⟩ := exists_blanks t
  rw [ht, List.head?_append, Option.mem_def.1 hu]
  rfl

/-- The first alternative of a text begins with what stands up to the first cut. -/
theorem alternatives_append {s r : Text} (hne : s ≠ []) (hs : IsWhole s)
    (hr : ∀ u ∈ r.head?, separates u) :
    ∃ r' more, alternatives (s ++ r) = (s ++ r') :: more ∧
      ∀ u ∈ r'.head?, isBlank u ∨ u = unit '>' := by
  have hcomma : unit ',' ∉ s := fun hmem => (separates_eq_false_iff.1 (hs _ hmem)).2.1 rfl
  -- The first piece goes on to the first comma, which is behind `s` if there is one.
  have hfirst : ∃ r₁ pieces, splitOn [unit ','] (s ++ r) = (s ++ r₁) :: pieces ∧
      ∀ u ∈ r₁.head?, isBlank u ∨ u = unit '>' := by
    by_cases hmem : unit ',' ∈ r
    · obtain ⟨r₁, r₂, rfl, hr₁⟩ := List.eq_append_cons_of_mem hmem
      refine ⟨r₁, splitOn [unit ','] r₂, ?_, fun u hu => ?_⟩
      · rw [← List.append_assoc, splitOn_append]
        rw [List.mem_append, not_or]
        exact ⟨hcomma, hr₁⟩
      · have hsep := hr u (by rw [List.head?_append, Option.mem_def.1 hu]; rfl)
        have hu' : u ≠ unit ',' := fun h => hr₁ (h ▸ List.mem_of_mem_head? hu)
        simpa [separates, hu'] using hsep
    · refine ⟨r, [], splitOn_of_not_mem ?_, fun u hu => ?_⟩
      · rw [List.mem_append, not_or]
        exact ⟨hcomma, hmem⟩
      · have hu' : u ≠ unit ',' := fun h => hmem (h ▸ List.mem_of_mem_head? hu)
        simpa [separates, hu'] using hr u hu
  obtain ⟨r₁, pieces, hsplit, hr₁⟩ := hfirst
  have hstart : trimStart (s ++ r₁) = s ++ r₁ := by
    refine trimStart_eq_self fun u hu => ?_
    rw [List.head?_append_of_ne_nil _ hne] at hu
    exact (separates_eq_false_iff.1 (hs u (List.mem_of_mem_head? hu))).1
  have hend : trimEnd s = s := by
    refine trimEnd_eq_self fun u hu => ?_
    exact (separates_eq_false_iff.1 (hs u (List.mem_of_getLast? hu))).1
  have htrim : trim (s ++ r₁) = s ++ trimEnd r₁ := by
    rw [show trim (s ++ r₁) = trimEnd (trimStart (s ++ r₁)) from rfl, hstart, trimEnd_append, hend]
    split
    · rename_i hnil
      rw [List.isEmpty_iff.1 hnil, List.append_nil]
    · rfl
  refine ⟨trimEnd r₁, (pieces.map trim).filter (!·.isEmpty), ?_, fun u hu => ?_⟩
  · rw [alternatives, hsplit, List.map_cons, htrim, List.filter_cons_of_pos]
    simp [hne]
  · exact hr₁ u (trimEnd_head r₁ u hu)

/-- What stands up to the first cut has to be a compound by itself. -/
theorem read_append {s r : Text} (hne : s ≠ []) (hs : IsWhole s)
    (hr : ∀ u ∈ r.head?, separates u) (hc : compound? Pseudo.of s = none) :
    read (s ++ r) = .error (.unsupportedSelector s) := by
  obtain ⟨r', more, halternatives, hr'⟩ := alternatives_append hne hs hr
  rw [read_eq, halternatives, List.mapM_cons, chainOf, chainWords_append hne hs hr', stepsOf,
    sign_of_whole hs, hc]
  rfl

/-- Every compound of a selector is one of the words of an alternative. -/
theorem exists_word_of_mem_steps {combinator : Combinator} {ws : List Text} {steps : List Step}
    (h : stepsOf combinator ws = .ok steps) {step : Step} (hstep : step ∈ steps) :
    ∃ w ∈ ws, w ≠ [unit '>'] ∧ compound? Pseudo.of w = some step.compound := by
  induction ws generalizing combinator steps with
  | nil =>
    cases h
    cases hstep
  | cons w ws ih =>
    rw [stepsOf] at h
    split at h
    · obtain ⟨w', hmem, hspec⟩ := ih h hstep
      exact ⟨w', List.mem_cons_of_mem w hmem, hspec⟩
    · rename_i hsign
      cases hc : compound? Pseudo.of w with
      | none =>
        rw [hc] at h
        cases h
      | some c =>
        rw [hc] at h
        cases hrest : stepsOf .descendant ws with
        | error fault =>
          simp only [hrest] at h
          cases h
        | ok rest =>
          simp only [hrest] at h
          cases h
          rcases List.mem_cons.1 hstep with rfl | hstep
          · exact ⟨w, List.mem_cons_self, by simpa using hsign, hc⟩
          · obtain ⟨w', hmem, hspec⟩ := ih hrest hstep
            exact ⟨w', List.mem_cons_of_mem w hmem, hspec⟩

theorem exists_alternative_of_mem {as : List Text} {s : Alternatives}
    (h : as.mapM chainOf = .ok s) {chain : Chain} (hchain : chain ∈ s) :
    ∃ a ∈ as, chainOf a = .ok chain := by
  induction as generalizing s with
  | nil =>
    cases h
    cases hchain
  | cons a as ih =>
    rw [List.mapM_cons] at h
    cases hfirst : chainOf a with
    | error fault =>
      rw [hfirst] at h
      cases h
    | ok c =>
      cases hmore : as.mapM chainOf with
      | error fault =>
        rw [hfirst, hmore] at h
        cases h
      | ok cs =>
        rw [hfirst, hmore] at h
        cases h
        rcases List.mem_cons.1 hchain with rfl | hchain
        · exact ⟨a, List.mem_cons_self, hfirst⟩
        · obtain ⟨a', hmem, ha'⟩ := ih hmore hchain
          exact ⟨a', List.mem_cons_of_mem a hmem, ha'⟩

/-- Every compound of a selector is written by a text without a cut. -/
theorem exists_whole_of_read {t : Text} {s : Alternatives} (h : read t = .ok s) {chain : Chain}
    (hchain : chain ∈ s) {step : Step} (hstep : step ∈ chain) :
    ∃ w, IsWhole w ∧ compound? Pseudo.of w = some step.compound := by
  obtain ⟨a, ha, hread⟩ := exists_alternative_of_mem h hchain
  rw [chainOf] at hread
  cases hsteps : stepsOf .descendant (chainWords a) with
  | error fault =>
    rw [hsteps] at hread
    cases hread
  | ok steps =>
    rw [hsteps] at hread
    cases hread
    obtain ⟨w, hw, hsign, hc⟩ := exists_word_of_mem_steps hsteps (List.mem_reverse.1 hstep)
    have hwhole := whole_of_mem_chainWords (not_mem_comma_of_mem_alternatives ha) hw
    exact ⟨w, hwhole.resolve_left hsign, hc⟩

end Selector

end PageTemplate
