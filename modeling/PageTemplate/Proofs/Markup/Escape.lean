import PageTemplate.Markup.Entity
import PageTemplate.Proofs.Assoc
import PageTemplate.Proofs.Case

/-!
# PageTemplate.Proofs.Markup.Escape

Escaping is undone by decoding. An escaped text holds no `<`, no `>` and no quote, so it ends
neither a text node nor an attribute value.
-/

namespace PageTemplate

namespace Markup

theorem escape_cons (u : CodeUnit) (t : Text) : escape (u :: t) = escapeUnit u ++ escape t := rfl

theorem decodeFrom_skip (s rest : Text) : decodeFrom s.length (s ++ rest) = decodeFrom 0 rest := by
  induction s with
  | nil => rfl
  | cons u s ih => simpa [decodeFrom] using ih

/-- Decoding at a known reference. -/
theorem decodeFrom_reference (body value : Text) (hb : body.all isReferenceUnit)
    (hr : reference? body = some value) (rest : Text) :
    decodeFrom 0 (unit '&' :: (body ++ unit ';' :: rest)) = value ++ decodeFrom 0 rest := by
  have hs : ∀ u ∈ (unit ';' :: rest).head?, isReferenceUnit u = false := by
    intro u hu
    cases hu
    decide
  have hl : leadingReference? (body ++ unit ';' :: rest) = some (value, body.length + 1) := by
    have hb := List.all_eq_true.1 hb
    simp only [leadingReference?, Text.takeWhile_append hb hs, Text.dropWhile_append hb hs,
      beq_self_eq_true, if_true, hr, Option.map_some]
  have hd := decodeFrom_skip (body ++ [unit ';']) rest
  simp only [List.length_append, List.length_singleton, List.append_assoc, List.cons_append,
    List.nil_append] at hd
  simp only [decodeFrom, beq_self_eq_true, if_true, hl, hd]

/-- A unit that is no `&` stands for itself. -/
theorem decodeFrom_cons {u : CodeUnit} (h : u ≠ unit '&') (rest : Text) :
    decodeFrom 0 (u :: rest) = u :: decodeFrom 0 rest := by
  simp [decodeFrom, h]

theorem decodeFrom_escapeUnit (u : CodeUnit) (rest : Text) :
    decodeFrom 0 (escapeUnit u ++ rest) = u :: decodeFrom 0 rest := by
  simp only [escapeUnit, beq_iff_eq]
  split
  · rename_i h
    rw [h]
    exact decodeFrom_reference "amp" [unit '&'] rfl (by decide) rest
  split
  · rename_i h
    rw [h]
    exact decodeFrom_reference "lt" [unit '<'] rfl (by decide) rest
  split
  · rename_i h
    rw [h]
    exact decodeFrom_reference "gt" [unit '>'] rfl (by decide) rest
  split
  · rename_i h
    rw [h]
    exact decodeFrom_reference "quot" [unit '"'] rfl (by decide) rest
  split
  · rename_i h
    rw [h]
    exact decodeFrom_reference "#39" [unit '\''] rfl (by decide) rest
  · rename_i h _ _ _ _
    exact decodeFrom_cons h rest

theorem decodeReferences_escape (t : Text) : decodeReferences (escape t) = t := by
  simp only [decodeReferences]
  induction t with
  | nil => rfl
  | cons u t ih => rw [escape_cons, decodeFrom_escapeUnit, ih]

theorem reference_ne_nil {body value : Text} (h : reference? body = some value) : value ≠ [] := by
  have hpoint : ∀ {n}, reference?.point? n = some value → value ≠ [] := by
    intro n hn
    simp only [reference?.point?] at hn
    split at hn
    · cases hn
      exact Text.ofCodePoint_ne_nil n
    · cases hn
  have hnamed : ∀ {name}, Assoc.find? name namedReferences = some value → value ≠ [] := by
    intro name hf
    have hall : ∀ pair ∈ namedReferences, pair.2 ≠ [] := by decide
    exact hall _ (Assoc.mem_of_find? hf)
  simp only [reference?] at h
  split at h
  · cases h
  split at h
  · split at h
    · cases h
    split at h
    · split at h
      · exact hpoint h
      · cases h
    split at h
    · exact hpoint h
    · cases h
  split at h
  · exact hnamed h
  · cases h

/-- Decoding leaves something of a text. -/
theorem decodeReferences_ne_nil {t : Text} (h : t ≠ []) : decodeReferences t ≠ [] := by
  cases t with
  | nil => exact absurd rfl h
  | cons u t =>
    simp only [decodeReferences, decodeFrom]
    split
    · split
      · rename_i value size hl
        simp only [leadingReference?] at hl
        split at hl
        · split at hl
          · obtain ⟨value', hr, he⟩ := Option.map_eq_some_iff.1 hl
            cases he
            exact List.append_ne_nil_of_left_ne_nil (reference_ne_nil hr) _
          · cases hl
        · cases hl
      · exact List.cons_ne_nil _ _
    · exact List.cons_ne_nil _ _

/-- What an escaped text never holds. -/
def isDelimiter (u : CodeUnit) : Bool := u == unit '<' || u == unit '>' || u == unit '"'

theorem not_delimiter_of_escapeUnit {u v : CodeUnit} (h : v ∈ escapeUnit u) :
    isDelimiter v = false := by
  have hall : ∀ reference ∈ (["&amp;", "&lt;", "&gt;", "&quot;", "&#39;"].map Text.ofString),
      ∀ v ∈ reference, isDelimiter v = false := by
    have hnone : (["&amp;", "&lt;", "&gt;", "&quot;", "&#39;"].map Text.ofString).all
        (fun reference => reference.all fun v => !isDelimiter v) = true := rfl
    simpa only [List.all_eq_true, Bool.not_eq_true'] using hnone
  simp only [escapeUnit, beq_iff_eq] at h
  split at h
  · exact hall "&amp;" (by decide) v h
  split at h
  · exact hall "&lt;" (by decide) v h
  split at h
  · exact hall "&gt;" (by decide) v h
  split at h
  · exact hall "&quot;" (by decide) v h
  split at h
  · exact hall "&#39;" (by decide) v h
  · rename_i h2 h3 h4 h5
    simp only [List.mem_singleton] at h
    simp [isDelimiter, h, h2, h3, h4]

theorem not_delimiter_of_escape {t : Text} {v : CodeUnit} (h : v ∈ escape t) :
    isDelimiter v = false := by
  obtain ⟨u, _, hv⟩ := List.mem_flatMap.1 h
  exact not_delimiter_of_escapeUnit hv

theorem escape_ne_less {t : Text} {v : CodeUnit} (h : v ∈ escape t) : v ≠ unit '<' := by
  rintro rfl
  exact absurd (not_delimiter_of_escape h) (by decide)

theorem quote_not_mem_escape (t : Text) : unit '"' ∉ escape t := by
  intro h
  exact absurd (not_delimiter_of_escape h) (by decide)

theorem escapeUnit_ne_nil (u : CodeUnit) : escapeUnit u ≠ [] := by
  simp only [escapeUnit]
  split
  · decide
  split
  · decide
  split
  · decide
  split
  · decide
  split
  · decide
  · simp

theorem escape_eq_nil_iff {t : Text} : escape t = [] ↔ t = [] := by
  cases t with
  | nil => simp [escape]
  | cons u t => simp [escape_cons, escapeUnit_ne_nil]

/-- White space stays white space, and nothing else becomes white space alone. -/
theorem exists_not_blank_escape {t : Text} (h : ∃ u ∈ t, isBlank u = false) :
    ∃ v ∈ escape t, isBlank v = false := by
  obtain ⟨u, hu, hb⟩ := h
  have : ∃ v ∈ escapeUnit u, isBlank v = false := by
    simp only [escapeUnit]
    split
    · exact ⟨unit '&', by decide, by decide⟩
    split
    · exact ⟨unit '&', by decide, by decide⟩
    split
    · exact ⟨unit '&', by decide, by decide⟩
    split
    · exact ⟨unit '&', by decide, by decide⟩
    split
    · exact ⟨unit '&', by decide, by decide⟩
    · exact ⟨u, by simp, hb⟩
  obtain ⟨v, hv, hvb⟩ := this
  exact ⟨v, List.mem_flatMap.2 ⟨u, hu, hv⟩, hvb⟩

end Markup

end PageTemplate
