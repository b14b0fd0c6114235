import PageTemplate.Proofs.Markup.Reading

/-!
# PageTemplate.Proofs.Markup.Scanning

Reading comes to an end. Every part of a tag and every piece of a text is taken from the start of
what is left and leaves less of it, so the bounds on the number of parts and of pieces are never
reached. Reading stops before the end at one place only: at inline code without an end.
-/

namespace PageTemplate

namespace Markup

variable {options : ReadOptions}

/-! Tags. -/

theorem attributeValue_suffix {t value after : Text} (h : attributeValue? t = some (value, after)) :
    after <:+ t := by
  have hbare : ∀ {t : Text}, (if (t.takeWhile isBareUnit).isEmpty then none
      else some (t.takeWhile isBareUnit, t.dropWhile isBareUnit)) = some (value, after) →
      after <:+ t := by
    intro t h
    split at h
    · cases h
    · cases h
      exact List.dropWhile_suffix _
  cases t with
  | nil => exact hbare h
  | cons q t =>
    simp only [attributeValue?] at h
    split at h
    · cases hq : Text.breakAt q t with
      | none =>
        rw [hq] at h
        exact hbare h
      | some found =>
        rw [hq] at h
        cases h
        exact (Text.suffix_of_breakAt hq).trans (List.suffix_cons q t)
    · exact hbare h

/-- An attribute takes its name at least. -/
theorem attribute_suffix {t after : Text} {pair : Text × Text}
    (h : attribute? t = some (pair, after)) : after <:+ t ∧ after.length < t.length := by
  have hsplit := congrArg List.length (List.takeWhile_append_dropWhile (p := isNameUnit) (l := t))
  rw [List.length_append] at hsplit
  have hrest : after <:+ t.dropWhile isNameUnit ∧ t.takeWhile isNameUnit ≠ [] := by
    simp only [attribute?] at h
    split at h
    · cases h
    · rename_i hne
      refine ⟨?_, by simpa using hne⟩
      split at h
      · rename_i value after' hv
        cases h
        split at hv
        · rename_i e more hm
          split at hv
          · have he : more <:+ t.dropWhile isNameUnit := by
              refine (List.suffix_cons e more).trans ?_
              rw [← hm]
              exact Text.trimStart_suffix _
            exact (attributeValue_suffix hv).trans ((Text.trimStart_suffix more).trans he)
          · cases hv
        · cases hv
      · cases h
        exact List.suffix_rfl
  obtain ⟨hs, hne⟩ := hrest
  have := List.length_pos_of_ne_nil hne
  have := hs.length_le
  exact ⟨hs.trans (List.dropWhile_suffix _), by omega⟩

/-- What the inside of a tag starts with, and how much of it is left. -/
theorem tagPart_cases (t : Text) :
    (∃ closed rest, tagPart t = .finish closed rest ∧ rest <:+ t) ∨
      (∃ name value after, tagPart t = .attribute name value after ∧ after <:+ t ∧
        after.length < t.length) ∨
      ∃ rest, tagPart t = .stray rest ∧ rest <:+ t ∧ rest.length < t.length := by
  have htrim := Text.trimStart_suffix t
  rw [tagPart]
  cases hb : Text.trimStart t with
  | nil => exact .inl ⟨false, [], rfl, List.nil_suffix⟩
  | cons u rest =>
    rw [hb] at htrim
    have hrest : rest <:+ t := (List.suffix_cons u rest).trans htrim
    have hlt : rest.length < t.length := htrim.length_le
    dsimp only
    split
    · exact .inl ⟨false, rest, rfl, hrest⟩
    split
    · exact .inl ⟨true, rest.drop 1, rfl, (List.drop_suffix 1 rest).trans hrest⟩
    cases ha : attribute? (u :: rest) with
    | none => exact .inr (.inr ⟨rest, rfl, hrest, hlt⟩)
    | some found =>
      obtain ⟨⟨name, value⟩, after⟩ := found
      obtain ⟨hs, hl⟩ := attribute_suffix ha
      exact .inr (.inl ⟨name, value, after, rfl, hs.trans htrim,
        Nat.lt_of_lt_of_le hl htrim.length_le⟩)

/-- Reading the inside of a tag part by part, each one from a shorter rest, until the tag ends. -/
inductive ReadsTag : Attributes → Text → Attributes × Bool × Text → Prop where
  | finish {done : Attributes} {t rest : Text} {closed : Bool}
    (part : tagPart t = .finish closed rest) (left : rest <:+ t) :
    ReadsTag done t (done, closed, rest)
  | attribute {done : Attributes} {t name value after : Text} {r : Attributes × Bool × Text}
    (part : tagPart t = .attribute name value after) (left : after <:+ t)
    (shorter : after.length < t.length) (more : ReadsTag (Assoc.put name value done) after r) :
    ReadsTag done t r
  | stray {done : Attributes} {t rest : Text} {r : Attributes × Bool × Text}
    (part : tagPart t = .stray rest) (left : rest <:+ t) (shorter : rest.length < t.length)
    (more : ReadsTag done rest r) : ReadsTag done t r

/-- The bound on the number of parts is not reached. -/
theorem readsTag_attributesFrom {fuel : Nat} {t : Text} (h : t.length < fuel) (done : Attributes) :
    ReadsTag done t (attributesFrom fuel done t) := by
  induction fuel generalizing done t with
  | zero => omega
  | succ n ih =>
    rw [attributesFrom]
    obtain ⟨closed, rest, hp, hs⟩ | ⟨name, value, after, hp, hs, hl⟩ | ⟨rest, hp, hs, hl⟩ :=
      tagPart_cases t
    · rw [hp]
      exact .finish hp hs
    · rw [hp]
      exact .attribute hp hs hl (ih (by omega) _)
    · rw [hp]
      exact .stray hp hs hl (ih (by omega) _)

theorem ReadsTag.suffix {done : Attributes} {t : Text} {r : Attributes × Bool × Text}
    (h : ReadsTag done t r) : r.2.2 <:+ t := by
  induction h with
  | finish _ left => exact left
  | «attribute» _ left _ _ ih => exact ih.trans left
  | stray _ left _ _ ih => exact ih.trans left

theorem afterRawEnd_suffix {tag t after : Text} (h : afterRawEnd? tag t = some after) :
    after <:+ t := by
  simp only [afterRawEnd?] at h
  split at h
  · cases h
  · rename_i rest hp
    split at h
    · split at h
      · rename_i u more hm
        split at h
        · cases h
          have hmore : u :: after <:+ rest.drop tag.length := hm ▸ Text.trimStart_suffix _
          exact ((List.suffix_cons u after).trans hmore).trans
            ((List.drop_suffix _ rest).trans (Text.suffix_of_afterPrefix hp))
        · cases h
      · cases h
    · cases h

theorem rawContent_suffix (tag t : Text) : (rawContent tag t).2 <:+ t := by
  induction t with
  | nil => exact List.suffix_rfl
  | cons u t ih =>
    rw [rawContent]
    cases ha : afterRawEnd? tag (u :: t) with
    | some after => exact afterRawEnd_suffix ha
    | none => exact ih.trans (List.suffix_cons u t)

theorem openingTag_suffix (t : Text) : (openingTag options t).2 <:+ t := by
  have hname : t.dropWhile isTagUnit <:+ t := List.dropWhile_suffix _
  have hread := (readsTag_attributesFrom (Nat.lt_succ_self _) []).suffix.trans hname
  rw [openingTag]
  generalize attributesFrom _ [] (t.dropWhile isTagUnit) = read at hread ⊢
  obtain ⟨attributes, closed, rest⟩ := read
  dsimp only at hread ⊢
  split
  · exact hread
  split
  · exact (rawContent_suffix _ rest).trans hread
  · exact hread

/-! Pieces. -/

theorem untilTagLike_suffix (t : Text) : (untilTagLike t).2 <:+ t := by
  induction t with
  | nil => exact List.suffix_rfl
  | cons u t ih =>
    rw [untilTagLike]
    split
    · exact List.suffix_rfl
    · exact ih.trans (List.suffix_cons u t)

theorem upTo_suffix (stop t : Text) : (upTo stop t).2 <:+ t := by
  rw [upTo]
  cases hb : Text.breakOn stop t with
  | none => exact List.nil_suffix
  | some found => exact Text.suffix_of_breakOn hb

/-- What a `<` starts, if it does not start inline code without an end. -/
theorem tagToken_cases (options : ReadOptions) (t : Text) :
    (∃ token rest, tagToken? options t = some (token, rest) ∧ rest <:+ t) ∨
      ∃ code, options.inlineCode = true ∧ t = unit '%' :: code ∧ ¬ Text.ofString "%>" <:+: code ∧
        tagToken? options t = none := by
  have hstray : ∀ t : Text, ∃ token rest, some (strayText t) = some (token, rest) ∧ rest <:+ t :=
    fun t => ⟨(strayText t).1, (strayText t).2, rfl, untilTagLike_suffix t⟩
  cases t with
  | nil => exact .inl (hstray [])
  | cons u more =>
    have hmore := List.suffix_cons u more
    rw [tagToken?]
    split
    · rename_i hcode
      obtain ⟨hcode, hu⟩ := Bool.and_eq_true_iff.1 hcode
      cases hb : Text.breakOn "%>" more with
      | none =>
        refine .inr ⟨more, hcode, by rw [eq_of_beq hu], Text.breakOn_eq_none_iff.1 hb, rfl⟩
      | some found =>
        exact .inl ⟨_, _, rfl, (Text.suffix_of_breakOn hb).trans hmore⟩
    · refine .inl ?_
      split
      · split
        · rename_i inner hp
          have hinner := (Text.suffix_of_afterPrefix hp).trans hmore
          exact ⟨_, _, rfl, (upTo_suffix _ inner).trans hinner⟩
        · exact ⟨_, _, rfl, (upTo_suffix _ more).trans hmore⟩
      split
      · split
        · rename_i name after hb
          exact ⟨_, _, rfl, (Text.suffix_of_breakOn hb).trans hmore⟩
        · exact hstray _
      split
      · exact ⟨_, _, rfl, openingTag_suffix _⟩
      · exact hstray _

/-- A text that is not empty starts with a piece, or with inline code that has no end. -/
theorem token_cases (options : ReadOptions) {t : Text} (h : t ≠ []) :
    (∃ token rest, token? options t = some (token, rest) ∧ rest <:+ t ∧ rest.length < t.length) ∨
      ∃ code, options.inlineCode = true ∧ t = Text.ofString "<%" ++ code ∧
        ¬ Text.ofString "%>" <:+: code ∧ token? options t = none := by
  cases t with
  | nil => exact absurd rfl h
  | cons u t =>
    have hcons := List.suffix_cons u t
    have hlt : ∀ {rest : Text}, rest <:+ t → rest.length < (u :: t).length := fun hs =>
      Nat.lt_succ_of_le hs.length_le
    rw [token?]
    split
    · rename_i hu
      obtain ⟨token, rest, ht, hs⟩ | ⟨code, hcode, rfl, hend, ht⟩ :=
        tagToken_cases options t
      · exact .inl ⟨token, rest, ht, hs.trans hcons, hlt hs⟩
      · refine .inr ⟨code, hcode, ?_, hend, ht⟩
        rw [eq_of_beq hu]
        rfl
    · rename_i hu
      have hs : (u :: t).dropWhile (· != unit '<') <:+ t := by
        rw [List.dropWhile_cons_of_pos (by simpa using hu)]
        exact List.dropWhile_suffix _
      exact .inl ⟨_, _, rfl, hs.trans hcons, hlt hs⟩

/-- Reading takes piece after piece until nothing is left, or until inline code without an end. -/
theorem lexes_or_stops (options : ReadOptions) (t : Text) : (∃ pieces, Lexes options t pieces) ∨
    ∃ last code, options.inlineCode = true ∧ last <:+ t ∧ last = Text.ofString "<%" ++ code ∧
      ¬ Text.ofString "%>" <:+: code ∧ ∀ total fuel, t.length ≤ fuel →
        tokensFrom options total fuel t = .error (.unterminatedCode (total - last.length)) := by
  by_cases ht : t = []
  · rw [ht]
    exact .inl ⟨[], .nil⟩
  have hfuel : ∀ {fuel}, t.length ≤ fuel → ∃ n, fuel = n + 1 := by
    intro fuel hf
    have := List.length_pos_of_ne_nil ht
    exact ⟨fuel - 1, by omega⟩
  obtain ⟨token, rest, hr, hs, hl⟩ | ⟨code, hcode, he, hend, hnone⟩ := token_cases options ht
  · obtain ⟨pieces, hp⟩ | ⟨last, code, hcode, hlast, he, hend, hstop⟩ := lexes_or_stops options rest
    · exact .inl ⟨token :: pieces, .cons hr hl hp⟩
    · refine .inr ⟨last, code, hcode, hlast.trans hs, he, hend, fun total fuel hf => ?_⟩
      obtain ⟨n, rfl⟩ := hfuel hf
      cases t with
      | nil => exact absurd rfl ht
      | cons u t =>
        simp only [tokensFrom, hr, hstop total n (by omega)]
        rfl
  · refine .inr ⟨t, code, hcode, List.suffix_rfl, he, hend, fun total fuel hf => ?_⟩
    obtain ⟨n, rfl⟩ := hfuel hf
    cases t with
    | nil => exact absurd rfl ht
    | cons u t => simp only [tokensFrom, hnone]
termination_by t.length

/-- A text is read as nodes, or there is inline code in it that has no end; the failure says where
that code starts. -/
theorem parse_cases (options : ReadOptions) (t : Text) :
    (∃ pieces, Lexes options t pieces ∧ parse options t = .ok (Node.ofTokens pieces)) ∨
      ∃ offset code, options.inlineCode = true ∧ t.drop offset = Text.ofString "<%" ++ code ∧
        ¬ Text.ofString "%>" <:+: code ∧ parse options t = .error (.unterminatedCode offset) := by
  obtain ⟨pieces, hp⟩ | ⟨last, code, hcode, hlast, he, hend, hstop⟩ := lexes_or_stops options t
  · refine .inl ⟨pieces, hp, ?_⟩
    rw [parse, hp.tokens_eq]
    rfl
  · refine .inr ⟨t.length - last.length, code, hcode, ?_, hend, ?_⟩
    · rw [← List.suffix_iff_eq_drop.1 hlast, he]
    · rw [parse, tokens, hstop t.length t.length (Nat.le_refl _)]
      rfl

end Markup

end PageTemplate
