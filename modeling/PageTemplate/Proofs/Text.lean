import Mathlib.Data.List.Lex
import Mathlib.Data.List.TakeWhile
import PageTemplate.Text.Blank
import PageTemplate.Text.Case

/-!
# PageTemplate.Proofs.Text

Facts about searching and cutting text that the proofs about markup and templates rest on: where
the first occurrence of a pattern is, how a run of units ends, which texts are in lower case, and in
which order texts are.
-/

namespace PageTemplate

namespace Text

theorem afterPrefix_append (p rest : Text) : afterPrefix p (p ++ rest) = some rest :=
  afterPrefix_eq_some_iff.2 rfl

theorem afterPrefix_eq_none_iff {p t : Text} : afterPrefix p t = none ↔ ¬ p <+: t := by
  constructor
  · intro h hp
    obtain ⟨rest, hr⟩ := hp
    rw [← hr, afterPrefix_append] at h
    cases h
  · intro h
    cases hp : afterPrefix p t with
    | none => rfl
    | some rest => exact absurd ⟨rest, (afterPrefix_eq_some_iff.1 hp).symm⟩ h

/-- A pattern is not found exactly when it does not occur. -/
theorem breakOn_eq_none_iff {p t : Text} : breakOn p t = none ↔ ¬ p <:+: t := by
  constructor
  · intro h
    rintro ⟨before, after, rfl⟩
    induction before with
    | nil =>
      cases p with
      | nil => cases after <;> simp [breakOn, afterPrefix] at h
      | cons u p =>
        have := afterPrefix_append (u :: p) after
        simp only [List.nil_append, List.cons_append, breakOn] at h this
        rw [this] at h
        cases h
    | cons u before ih =>
      simp only [List.cons_append, breakOn] at h
      split at h
      · cases h
      · exact ih (Option.map_eq_none_iff.1 h)
  · intro h
    cases hb : breakOn p t with
    | none => rfl
    | some found =>
      obtain ⟨before, after⟩ := found
      exact absurd ⟨before, after, (eq_of_breakOn hb).symm⟩ h

/-- A pattern whose last unit occurs nowhere else in it cannot begin in a text that it does not
occur in and end behind it. -/
theorem not_prefix_of_straddle {q s r : Text} {z : CodeUnit} (hz : z ∉ q)
    (h : ¬ (q ++ [z]) <+: s) (hs : s ≠ []) : ¬ (q ++ [z]) <+: s ++ (q ++ [z]) ++ r := by
  intro hp
  by_cases hl : (q ++ [z]).length ≤ s.length
  · rw [List.append_assoc] at hp
    exact h (List.prefix_of_prefix_length_le hp (List.prefix_append _ _) hl)
  · obtain ⟨rest, hr⟩ := hp
    have hs' : 0 < s.length := List.length_pos_iff.2 hs
    have hq : q.length - s.length < q.length := by
      simp only [List.length_append, List.length_singleton] at hl
      omega
    -- The last unit of the pattern falls on a unit of `q`.
    have hl' : s.length ≤ q.length := by simp at hl; omega
    have h1 : (q ++ [z] ++ rest)[q.length]? = some z := by simp
    rw [hr, List.append_assoc, List.getElem?_append_right hl',
      List.append_assoc, List.getElem?_append_left (by omega)] at h1
    exact hz (List.mem_of_getElem? h1)

/-- The first occurrence of a pattern that is added behind a text without it. -/
theorem breakOn_append {q s r : Text} {z : CodeUnit} (hz : z ∉ q) (h : ¬ (q ++ [z]) <:+: s) :
    breakOn (q ++ [z]) (s ++ (q ++ [z]) ++ r) = some (s, r) := by
  induction s with
  | nil =>
    have := afterPrefix_append (q ++ [z]) r
    cases q with
    | nil =>
      simp only [List.nil_append, List.cons_append] at this ⊢
      simp only [breakOn, this]
    | cons u q =>
      simp only [List.nil_append, List.cons_append] at this ⊢
      simp only [breakOn, this]
  | cons u s ih =>
    have hp : ¬ (q ++ [z]) <+: u :: s := fun hp => h hp.isInfix
    have hn := afterPrefix_eq_none_iff.2 (not_prefix_of_straddle (r := r) hz hp (by simp))
    have hs : ¬ (q ++ [z]) <:+: s := fun hi => h (hi.trans (List.suffix_cons u s).isInfix)
    simp only [List.cons_append] at hn ⊢
    simp only [breakOn, hn, ih hs, Option.map_some]

/-- The first occurrence of a unit that is added behind a text without it. -/
theorem breakAt_append {u : CodeUnit} {s : Text} (h : u ∉ s) (r : Text) :
    breakAt u (s ++ u :: r) = some (s, r) := by
  induction s with
  | nil => simp [breakAt]
  | cons v s ih =>
    have hv : v ≠ u := fun e => h (by simp [e])
    have hs : u ∉ s := fun m => h (List.mem_cons_of_mem v m)
    simp [breakAt, hv, ih hs]

/-- Nothing is lost when a text is broken at a unit. -/
theorem eq_of_breakAt {u : CodeUnit} {t before after : Text}
    (h : breakAt u t = some (before, after)) : t = before ++ u :: after := by
  induction t generalizing before with
  | nil => cases h
  | cons c t ih =>
    simp only [breakAt] at h
    split at h
    · rename_i hc
      cases h
      rw [eq_of_beq hc, List.nil_append]
    · obtain ⟨⟨b, a⟩, hb, he⟩ := Option.map_eq_some_iff.1 h
      cases he
      rw [ih hb, List.cons_append]

theorem breakAt_of_not_mem {u : CodeUnit} {t : Text} (h : u ∉ t) : breakAt u t = none := by
  cases hb : breakAt u t with
  | none => rfl
  | some parts =>
    rw [eq_of_breakAt hb] at h
    simp at h

theorem suffix_of_breakAt {u : CodeUnit} {t before after : Text}
    (h : breakAt u t = some (before, after)) : after <:+ t :=
  ⟨before ++ [u], by rw [eq_of_breakAt h, List.append_assoc, List.singleton_append]⟩

theorem suffix_of_breakOn {p t before after : Text} (h : breakOn p t = some (before, after)) :
    after <:+ t :=
  ⟨before ++ p, (eq_of_breakOn h).symm⟩

theorem suffix_of_afterPrefix {p t after : Text} (h : afterPrefix p t = some after) :
    after <:+ t :=
  ⟨p, (afterPrefix_eq_some_iff.1 h).symm⟩

/-- A run of units ends where the first other unit stands. -/
theorem takeWhile_append {p : CodeUnit → Bool} {s r : Text} (hs : ∀ u ∈ s, p u)
    (hr : ∀ u ∈ r.head?, p u = false) : (s ++ r).takeWhile p = s := by
  rw [List.takeWhile_append_of_pos hs]
  cases r with
  | nil => simp
  | cons u r =>
    have := hr u (by simp)
    simp [this]

theorem dropWhile_append {p : CodeUnit → Bool} {s r : Text} (hs : ∀ u ∈ s, p u)
    (hr : ∀ u ∈ r.head?, p u = false) : (s ++ r).dropWhile p = r := by
  rw [List.dropWhile_append_of_pos hs]
  cases r with
  | nil => simp
  | cons u r =>
    have := hr u (by simp)
    simp [this]

theorem trimStart_cons {u : CodeUnit} (h : isBlank u = false) (t : Text) :
    trimStart (u :: t) = u :: t := by
  simp [trimStart, h]

/-- A text that neither begins nor ends with white space. -/
theorem trim_of_not_blank {t : Text} (h : ∀ u ∈ t, isBlank u = false) : trim t = t := by
  have keep : ∀ s : Text, (∀ u ∈ s, isBlank u = false) → s.dropWhile isBlank = s := by
    intro s hs
    cases s with
    | nil => rfl
    | cons u s => exact List.dropWhile_cons_of_neg (by simp [hs u])
  rw [trim, trimEnd, dropEndWhile, trimStart, keep t h,
    keep t.reverse (fun u hu => h u (List.mem_reverse.1 hu)), List.reverse_reverse]

/-- Nothing is left of a text exactly when all of it is white space. -/
theorem trim_eq_nil_iff {t : Text} : trim t = [] ↔ ∀ u ∈ t, isBlank u := by
  simp only [trim, trimEnd, trimStart, dropEndWhile, List.reverse_eq_nil_iff]
  rw [List.dropWhile_eq_nil_iff]
  simp only [List.mem_reverse]
  constructor
  · intro h
    induction t with
    | nil => simp
    | cons u t ih =>
      cases hu : isBlank u with
      | true =>
        rw [List.dropWhile_cons_of_pos hu] at h
        simpa [hu] using ih h
      | false =>
        rw [List.dropWhile_cons_of_neg (by simp [hu])] at h
        simpa [hu] using h u (by simp)
  · intro h u hu
    exact h u ((List.dropWhile_suffix _).subset hu)

theorem trim_subset (t : Text) : trim t ⊆ t := by
  intro u hu
  have h : u ∈ (trimStart t).reverse := (List.dropWhile_suffix _).subset (List.mem_reverse.1 hu)
  exact (List.dropWhile_suffix _).subset (List.mem_reverse.1 h)

theorem trimStart_eq_self {t : Text} (h : ∀ u ∈ t.head?, isBlank u = false) : trimStart t = t := by
  cases t with
  | nil => rfl
  | cons u t => exact trimStart_cons (h u rfl) t

theorem trimEnd_eq_self {t : Text} (h : ∀ u ∈ t.getLast?, isBlank u = false) : trimEnd t = t := by
  have : trimStart t.reverse = t.reverse := trimStart_eq_self (by simpa using h)
  rw [trimEnd, dropEndWhile, ← trimStart, this, List.reverse_reverse]

theorem head_trimStart (t : Text) : ∀ u ∈ (trimStart t).head?, isBlank u = false := by
  intro u hu
  have := List.head?_dropWhile_not isBlank t
  rw [← trimStart, hu] at this
  simpa using this

/-- White space around a text is taken off once. -/
theorem trim_idem (t : Text) : trim (trim t) = trim t := by
  have hlast : ∀ u ∈ (trim t).getLast?, isBlank u = false := by
    intro u hu
    rw [trim, trimEnd, dropEndWhile, List.getLast?_reverse] at hu
    exact head_trimStart (trimStart t).reverse u hu
  have hhead : ∀ u ∈ (trim t).head?, isBlank u = false := by
    intro u hu
    have hp : trim t <+: trimStart t := by
      rw [← List.reverse_suffix, trim, trimEnd, dropEndWhile, List.reverse_reverse]
      exact List.dropWhile_suffix _
    obtain ⟨rest, hr⟩ := hp
    refine head_trimStart t u ?_
    rw [← hr, List.head?_append, hu]
    rfl
  have h1 : trimStart (trim t) = trim t := trimStart_eq_self hhead
  have h2 : trimEnd (trim t) = trim t := trimEnd_eq_self hlast
  rw [show trim (trim t) = trimEnd (trimStart (trim t)) from rfl, h1, h2]

theorem trimEnd_append (t y : Text) :
    (t ++ y).trimEnd = if y.trimEnd.isEmpty then t.trimEnd else t ++ y.trimEnd := by
  simp only [trimEnd, dropEndWhile, List.reverse_append, List.dropWhile_append,
    List.isEmpty_reverse]
  split <;> simp

theorem trimEnd_cons {u : CodeUnit} (h : isBlank u = false) (t : Text) :
    trimEnd (u :: t) = u :: t.trimEnd := by
  have hone : trimEnd [u] = [u] := by simp [trimEnd, dropEndWhile, h]
  have hend := trimEnd_append [u] t
  rw [List.singleton_append, hone] at hend
  rw [hend]
  split
  · rename_i hnil
    rw [List.isEmpty_iff.1 hnil]
  · rfl

/-- White space ends a text behind what is left when it is trimmed. -/
theorem exists_blanks (t : Text) : ∃ w : Text, (∀ u ∈ w, isBlank u) ∧ t = t.trimEnd ++ w := by
  refine ⟨(t.reverse.takeWhile isBlank).reverse, fun u hu => ?_, ?_⟩
  · exact List.mem_takeWhile_imp (List.mem_reverse.1 hu)
  · rw [trimEnd, dropEndWhile, ← List.reverse_append, List.takeWhile_append_dropWhile,
      List.reverse_reverse]

theorem trimStart_suffix (t : Text) : trimStart t <:+ t := List.dropWhile_suffix _

/-- A text without the separator is one piece. -/
theorem splitOn_of_not_mem {u : CodeUnit} {t : Text} (h : u ∉ t) : splitOn [u] t = [t] := by
  have hnone : breakOn [u] t = none := breakOn_eq_none_iff.2 fun hin => h (hin.subset (by simp))
  rw [splitOn, dif_neg (by simp)]
  split
  · rfl
  · rename_i before after hb
    rw [hnone] at hb
    cases hb

theorem splitOn_append {u : CodeUnit} {s : Text} (h : u ∉ s) (r : Text) :
    splitOn [u] (s ++ u :: r) = s :: splitOn [u] r := by
  have hbreak : breakOn [u] (s ++ u :: r) = some (s, r) := by
    have hone := breakOn_append (q := []) (z := u) (s := s) (r := r) List.not_mem_nil
      fun hin => h (hin.subset (by simp))
    simpa using hone
  rw [splitOn, dif_neg (by simp)]
  split
  · rename_i hnone
    cases hnone.symm.trans hbreak
  · rename_i before after hb
    cases hb.symm.trans hbreak
    rfl

/-- The pieces of a text hold units of the text. -/
theorem mem_of_mem_splitOn {c u : CodeUnit} {t p : Text} (hp : p ∈ splitOn [c] t) (hu : u ∈ p) :
    u ∈ t := by
  induction hn : t.length using Nat.strong_induction_on generalizing t with
  | _ n ih =>
    by_cases hc : c ∈ t
    · obtain ⟨s, r, rfl, hs⟩ := List.eq_append_cons_of_mem hc
      rw [splitOn_append hs] at hp
      rcases List.mem_cons.1 hp with rfl | hp
      · exact List.mem_append_left _ hu
      · have hshorter : r.length < n := by
          rw [← hn, List.length_append, List.length_cons]
          omega
        exact List.mem_append_right _ (List.mem_cons_of_mem c (ih r.length hshorter hp rfl))
    · rw [splitOn_of_not_mem hc, List.mem_singleton] at hp
      rwa [← hp]

/-- The first piece of a text that does not start with the separator. -/
theorem exists_splitOn {c : CodeUnit} {t : Text} (hne : t ≠ []) (hhead : t.head? ≠ some c) :
    ∃ first ps, splitOn [c] t = first :: ps ∧ first.head? = t.head? ∧ first ≠ [] := by
  by_cases hc : c ∈ t
  · obtain ⟨s, r, rfl, hs⟩ := List.eq_append_cons_of_mem hc
    refine ⟨s, _, splitOn_append hs r, ?_⟩
    cases s with
    | nil => exact absurd rfl hhead
    | cons d s => exact ⟨rfl, List.cons_ne_nil _ _⟩
  · exact ⟨t, [], splitOn_of_not_mem hc, rfl, hne⟩

/-- What stands between two pieces, or in one of them. -/
theorem mem_intercalate {u c : CodeUnit} {pieces : List Text}
    (h : u ∈ List.intercalate [c] pieces) : u = c ∨ ∃ p ∈ pieces, u ∈ p := by
  induction pieces with
  | nil => cases h
  | cons p pieces ih =>
    cases pieces with
    | nil =>
      rw [List.intercalate_singleton] at h
      exact .inr ⟨p, List.mem_cons_self, h⟩
    | cons p' pieces =>
      rw [List.intercalate_cons_cons, List.append_assoc] at h
      rcases List.mem_append.1 h with h | h
      · exact .inr ⟨p, List.mem_cons_self, h⟩
      · rcases List.mem_cons.1 h with h | h
        · exact .inl h
        · rcases ih h with h | ⟨q, hq, hu⟩
          · exact .inl h
          · exact .inr ⟨q, List.mem_cons_of_mem p hq, hu⟩

/-- A text of ASCII units without capital letters is in lower case. -/
theorem toLower_of_ascii {t : Text} (ha : ∀ u ∈ t, u < 0x80)
    (hu : ∀ u ∈ t, CodeUnit.asciiLower u = u) : toLower t = t := by
  have hall : t.all (· < 0x80) := by simpa using ha
  simp only [toLower, hall, if_true]
  exact (List.map_congr_left hu).trans (List.map_id t)

/-- Texts are in the order of the numbers of their units, the first difference first. -/
theorem lessThan_iff {s t : Text} :
    lessThan s t ↔ s.map UInt16.toNat < t.map UInt16.toNat := by
  induction s generalizing t with
  | nil => cases t <;> simp [lessThan]
  | cons a s ih =>
    cases t with
    | nil => simp [lessThan]
    | cons b t =>
      rw [lessThan, List.map_cons, List.map_cons, List.cons_lt_cons_iff, ← ih]
      simp [UInt16.lt_iff_toNat_lt, ← UInt16.toNat_inj]

end Text

end PageTemplate
