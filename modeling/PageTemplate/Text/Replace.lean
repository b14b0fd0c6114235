import PageTemplate.Text.Search

/-!
# PageTemplate.Text.Replace

Replacing several patterns in one pass from left to right. The earliest occurrence is replaced
first, of several at one place that of the pattern that is listed first, and what was put in is
not looked at again.
-/

namespace PageTemplate

namespace Text

/-- An occurrence of a pattern: the text before it, what replaces it, and the text after it. -/
structure Occurrence where
  before : Text
  replacement : Text
  after : Text

/-- The earliest occurrence of a pattern that is not empty. -/
def earliest? : List (Text × Text) → Text → Option Occurrence
  | [], _ => none
  | (pattern, replacement) :: pairs, t =>
    let later := earliest? pairs t
    if pattern.isEmpty then later
    else
      match breakOn pattern t, later with
      | none, _ => later
      | some (before, after), none => some ⟨before, replacement, after⟩
      | some (before, after), some o =>
        if before.length ≤ o.before.length then some ⟨before, replacement, after⟩ else some o

theorem length_earliest? {pairs : List (Text × Text)} {t : Text} {o : Occurrence}
    (h : earliest? pairs t = some o) : o.after.length < t.length := by
  induction pairs generalizing o with
  | nil => simp [earliest?] at h
  | cons p pairs ih =>
    obtain ⟨pattern, replacement⟩ := p
    simp only [earliest?] at h
    split at h
    · exact ih h
    · rename_i hne
      have hpos : 0 < pattern.length := by
        cases pattern with
        | nil => simp at hne
        | cons _ _ => simp
      split at h
      · exact ih h
      · rename_i before after hb _
        have := length_breakOn hb
        cases h
        show after.length < t.length
        omega
      · rename_i before after o' hb ho
        have := length_breakOn hb
        split at h
        · cases h
          show after.length < t.length
          omega
        · cases h
          exact ih ho

/-- The text with every pattern replaced in one pass. -/
def replaceMany (pairs : List (Text × Text)) (t : Text) : Text :=
  match _h : earliest? pairs t with
  | none => t
  | some o => o.before ++ o.replacement ++ replaceMany pairs o.after
termination_by t.length
decreasing_by exact length_earliest? _h

/-- A list of an even number of texts as patterns with their replacements. -/
def pairUp? : List Text → Option (List (Text × Text))
  | [] => some []
  | [_] => none
  | pattern :: replacement :: rest => (pairUp? rest).map ((pattern, replacement) :: ·)

end Text

end PageTemplate
