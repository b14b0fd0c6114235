import PageTemplate.Proofs.Selector.Agreement

/-!
# PageTemplate.Proofs.Selector.Quoted

Values in quotes. What a compound asks for is taken from its text, and this text has no cut in it.
So a test for a value in quotes selects the elements whose attribute compares to this value as long
as there is no cut in the value, and it is refused otherwise.
-/

namespace PageTemplate

namespace Selector

open Text

/-! What the pieces of a compound take from its text. -/

section Parts

variable {t after value : Text} {test : AttributeTest}

def AttributeTest.IsFrom (t : Text) (test : AttributeTest) : Prop :=
  ∀ c value, test.comparison = some (c, value) → value ⊆ t

theorem AttributeTest.IsFrom.mono {s : Text} (h : test.IsFrom s) (hs : s ⊆ t) : test.IsFrom t :=
  fun c value hc => List.Subset.trans (h c value hc) hs

theorem suffix_of_closed (h : closed? t = some after) : unit ']' :: after <:+ t := by
  have hrest : trimStart t = unit ']' :: after := Text.afterPrefix_eq_some_iff.1 h
  exact hrest ▸ trimStart_suffix t

theorem comparison?_suffix {c : Comparison} (h : comparison? t = some (c, after)) :
    after <:+ t := by
  obtain ⟨⟨sign, c'⟩, -, hsign⟩ := List.exists_of_findSome?_eq_some h
  obtain ⟨rest, hrest, hpair⟩ := Option.map_eq_some_iff.1 hsign
  cases hpair
  exact suffix_of_afterPrefix hrest

theorem quotedValue?_spec (h : quotedValue? t = some (value, after)) :
    value ⊆ t ∧ unit ']' :: after <:+ t := by
  cases t with
  | nil => cases h
  | cons q rest =>
    simp only [quotedValue?] at h
    split at h
    · obtain ⟨⟨v, behind⟩, hbreak, h⟩ := Option.bind_eq_some_iff.1 h
      obtain ⟨last, hclosed, hpair⟩ := Option.bind_eq_some_iff.1 h
      cases hpair
      have hsplit := eq_of_breakAt hbreak
      constructor
      · intro u hu
        exact List.mem_cons_of_mem q (hsplit ▸ List.mem_append_left _ hu)
      · exact (suffix_of_closed hclosed).trans
          ((suffix_of_breakAt hbreak).trans (List.suffix_cons q rest))
    · cases h

theorem bareValue?_spec (h : bareValue? t = some (value, after)) :
    value ⊆ t ∧ unit ']' :: after <:+ t := by
  simp only [bareValue?] at h
  split at h
  · cases h
  · obtain ⟨last, hclosed, hpair⟩ := Option.map_eq_some_iff.1 h
    cases hpair
    exact ⟨(List.takeWhile_prefix _).subset,
      (suffix_of_closed hclosed).trans (List.dropWhile_suffix _)⟩

/-- A test is closed by a bracket and takes its value from what is before it. -/
theorem attributeTest?_spec (h : attributeTest? t = some (test, after)) :
    test.IsFrom t ∧ unit ']' :: after <:+ t := by
  have hname : ∀ {r : Text}, r <:+ trimStart ((trimStart t).dropWhile
      fun u => isNameUnit u || u == unit ':') → r <:+ t :=
    fun hr => hr.trans ((trimStart_suffix _).trans
      ((List.dropWhile_suffix _).trans (trimStart_suffix t)))
  simp only [attributeTest?] at h
  split at h
  · cases h
  split at h
  · rename_i c rest hc
    obtain ⟨⟨v, behind⟩, hvalue, hpair⟩ := Option.bind_eq_some_iff.1 h
    cases hpair
    have hrest : trimStart rest <:+ t :=
      (trimStart_suffix rest).trans (hname (comparison?_suffix hc))
    have hspec : v ⊆ trimStart rest ∧ unit ']' :: behind <:+ trimStart rest := by
      rcases Option.or_eq_some_iff.1 hvalue with hv | ⟨-, hv⟩
      · exact quotedValue?_spec hv
      · exact bareValue?_spec hv
    refine ⟨?_, hspec.2.trans hrest⟩
    rintro _ _ ⟨⟩
    exact List.Subset.trans hspec.1 hrest.subset
  · obtain ⟨behind, hclosed, hpair⟩ := Option.bind_eq_some_iff.1 h
    cases hpair
    exact ⟨nofun, hname (suffix_of_closed hclosed)⟩

theorem attributeTest?_unclosed (h : unit ']' ∉ t) : attributeTest? t = none := by
  cases htest : attributeTest? t with
  | none => rfl
  | some found =>
    obtain ⟨test, after⟩ := found
    have hclosed := (attributeTest?_spec htest).2
    exact absurd (hclosed.subset List.mem_cons_self) h

theorem pseudo?_spec {name : Text} {argument : Option Text}
    (h : pseudo? t = some ((name, argument), after)) :
    (∀ a, argument = some a → a ⊆ t) ∧ after <:+ t := by
  obtain ⟨⟨n, rest⟩, hname, h⟩ := Option.bind_eq_some_iff.1 h
  have hrest : rest <:+ t := by
    simp only [name?] at hname
    split at hname
    · cases hname
    · cases hname
      exact List.dropWhile_suffix _
  dsimp only at h
  split at h
  · rename_i p inner
    split at h
    · split at h
      · rename_i a behind hbreak
        cases h
        have hinner := (List.suffix_cons p inner).trans hrest
        refine ⟨?_, (suffix_of_breakAt hbreak).trans hinner⟩
        rintro _ ⟨⟩ u hu
        exact hinner.subset (eq_of_breakAt hbreak ▸ List.mem_append_left _ hu)
      · cases h
        exact ⟨by simp, hrest⟩
    · cases h
      exact ⟨by simp, hrest⟩
  · cases h
    exact ⟨by simp, List.nil_suffix⟩

/-- A piece takes the values and arguments in it from a text. -/
def Piece.IsFrom (t : Text) : Piece → Prop
  | .attribute test => test.IsFrom t
  | .pseudo _ argument => ∀ a, argument = some a → a ⊆ t
  | .id _ | .class _ => True

theorem Piece.IsFrom.mono {s : Text} {p : Piece} (h : p.IsFrom s) (hs : s ⊆ t) : p.IsFrom t := by
  cases p with
  | «attribute» test => exact AttributeTest.IsFrom.mono h hs
  | pseudo name argument => exact fun a ha => List.Subset.trans (h a ha) hs
  | id | «class» => trivial

theorem piece?_spec {p : Piece} (h : piece? t = some (p, after)) :
    p.IsFrom t ∧ after <:+ t := by
  cases t with
  | nil => cases h
  | cons u rest =>
    have hrest := List.suffix_cons u rest
    have hname : ∀ {name : Text}, name? rest = some (name, after) → after <:+ u :: rest := by
      intro name hname
      simp only [name?] at hname
      split at hname
      · cases hname
      · cases hname
        exact (List.dropWhile_suffix _).trans hrest
    simp only [piece?] at h
    split at h
    · obtain ⟨_, hn, hpair⟩ := Option.map_eq_some_iff.1 h
      cases hpair
      exact ⟨trivial, hname hn⟩
    split at h
    · obtain ⟨_, hn, hpair⟩ := Option.map_eq_some_iff.1 h
      cases hpair
      exact ⟨trivial, hname hn⟩
    split at h
    · obtain ⟨_, ht, hpair⟩ := Option.map_eq_some_iff.1 h
      cases hpair
      obtain ⟨htest, hafter⟩ := attributeTest?_spec ht
      exact ⟨htest.mono hrest.subset, ((List.suffix_cons _ _).trans hafter).trans hrest⟩
    split at h
    · obtain ⟨_, hp, hpair⟩ := Option.map_eq_some_iff.1 h
      cases hpair
      obtain ⟨hargument, hafter⟩ := pseudo?_spec hp
      exact ⟨fun a ha => List.Subset.trans (hargument a ha) hrest.subset, hafter.trans hrest⟩
    · cases h

theorem tag?_bracket (t : Text) : tag? (unit '[' :: t) = none := by
  have hstar : (unit '[' == unit '*') = false := by decide
  have hletter : CodeUnit.isLetter (unit '[') = false := by decide
  simp [tag?, hstar, hletter]

/-- A compound that begins with a bracket has one that closes it. -/
theorem compound?_unclosed {π : Type} {pseudoOf : Text → Option Text → π} (h : unit ']' ∉ t) :
    compound? pseudoOf (unit '[' :: t) = none := by
  have hpiece : piece? (unit '[' :: t) = none := by
    rw [piece?, if_neg (by decide), if_neg (by decide), if_pos (by decide),
      attributeTest?_unclosed h]
    rfl
  simp only [compound?, tag?_bracket, Option.getD_none, List.length_cons, piecesWithin?, hpiece]
  rfl

theorem isFrom_of_mem_pieces {n : Nat} {ps : List Piece} (h : piecesWithin? n t = some ps) :
    ∀ p ∈ ps, p.IsFrom t := by
  induction n generalizing t ps with
  | zero =>
    cases t with
    | nil =>
      cases h
      exact nofun
    | cons u t => cases h
  | succ n ih =>
    cases t with
    | nil =>
      cases h
      exact nofun
    | cons u t =>
      obtain ⟨⟨p, rest⟩, hp, h⟩ := Option.bind_eq_some_iff.1 h
      obtain ⟨more, hmore, hpair⟩ := Option.bind_eq_some_iff.1 h
      cases hpair
      obtain ⟨hfrom, hrest⟩ := piece?_spec hp
      intro q hq
      rcases List.mem_cons.1 hq with rfl | hq
      · exact hfrom
      · exact (ih hmore q hq).mono hrest.subset

/-- What a compound asks for is taken from its text: the values of its tests, and the arguments of
its pseudo-classes. -/
theorem compound?_spec {π : Type} {pseudoOf : Text → Option Text → π} {c : Compound π}
    (h : compound? pseudoOf t = some c) :
    (∀ test ∈ c.attributes, test.IsFrom t) ∧
      ∀ p ∈ c.pseudos, ∃ name argument, p = pseudoOf name argument ∧
        ∀ a, argument = some a → a ⊆ t := by
  obtain ⟨ps, hps, rfl⟩ := Option.map_eq_some_iff.1 h
  have hrest : ((tag? t).getD (none, t)).2 ⊆ t := by
    cases t with
    | nil => exact List.Subset.refl _
    | cons u rest =>
      simp only [tag?]
      split
      · exact List.subset_cons_self u rest
      split
      · exact (List.dropWhile_suffix _).subset
      · exact List.Subset.refl _
  have hfrom := isFrom_of_mem_pieces hps
  constructor
  · intro test htest
    obtain ⟨p, hp, hsome⟩ := List.mem_filterMap.1 htest
    cases p with
    | «attribute» =>
      cases hsome
      exact AttributeTest.IsFrom.mono (hfrom _ hp) hrest
    | id | «class» | pseudo => cases hsome
  · intro q hq
    obtain ⟨p, hp, hsome⟩ := List.mem_filterMap.1 hq
    cases p with
    | pseudo name argument =>
      cases hsome
      exact ⟨name, argument, rfl, fun a ha => List.Subset.trans (hfrom _ hp a ha) hrest⟩
    | id | «class» | «attribute» => cases hsome

def Pseudo.tests : Pseudo → List AttributeTest
  | .negation (.ok c) => c.attributes
  | .negation (.error _) | .plain _ => []

/-- The tests of attributes that a compound makes, those for what it must not match among them. -/
def Compound.tests (c : Compound Pseudo) : List AttributeTest :=
  c.attributes ++ c.pseudos.flatMap Pseudo.tests

theorem isFrom_of_mem_tests {name : Text} {argument : Option Text}
    (h : ∀ a, argument = some a → a ⊆ t) (htest : test ∈ (Pseudo.of name argument).tests) :
    test.IsFrom t := by
  cases argument with
  | none => cases htest
  | some a =>
    rw [Pseudo.of] at htest
    split at htest
    · cases hc : compound? (fun name _ => PlainPseudo.ofName name) a.trim with
      | none =>
        simp only [hc] at htest
        cases htest
      | some c =>
        simp only [hc] at htest
        exact ((compound?_spec hc).1 test htest).mono
          (List.Subset.trans (trim_subset a) (h a rfl))
    · cases htest

/-- **No test asks for a value with a cut in it.** Whatever selector is read, no value that an
attribute is compared to has white space, a comma or a sign for children in it, also where the
value stood in quotes. -/
theorem whole_of_mem_tests {s : Alternatives} (h : read t = .ok s) {chain : Chain}
    (hchain : chain ∈ s) {step : Step} (hstep : step ∈ chain)
    (htest : test ∈ step.compound.tests) {c : Comparison} (hc : test.comparison = some (c, value)) :
    IsWhole value := by
  obtain ⟨w, hw, hcompound⟩ := exists_whole_of_read h hchain hstep
  obtain ⟨hattributes, hpseudos⟩ := compound?_spec hcompound
  have hfrom : test.IsFrom w := by
    rcases List.mem_append.1 htest with hmem | hmem
    · exact hattributes test hmem
    · obtain ⟨p, hp, hmem⟩ := List.mem_flatMap.1 hmem
      obtain ⟨name, argument, rfl, hargument⟩ := hpseudos p hp
      exact isFrom_of_mem_tests hargument hmem
  exact fun u hu => hw u (hfrom c value hc hu)

end Parts

section Quoted

def Comparison.sign : Comparison → Text
  | .equals => "="
  | .hasWord => "~="
  | .hyphenated => "|="
  | .beginsWith => "^="
  | .endsWith => "$="
  | .contains => "*="

/-- A test of an attribute up to where its value in quotes goes on. -/
def openTest (name : Text) (c : Comparison) (value : Text) : Text :=
  unit '[' :: (name ++ (c.sign ++ unit '"' :: value))

/-- The selector that asks for an attribute whose value compares to a text in quotes. -/
def quotedTest (name : Text) (c : Comparison) (value : Text) : Text :=
  openTest name c (value ++ unit '"' :: [unit ']'])

variable {name value : Text}

theorem whole_openTest {c : Comparison} (hname : ∀ u ∈ name, isNameUnit u)
    (hvalue : IsWhole value) : IsWhole (openTest name c value) := by
  have hsign : IsWhole c.sign := by cases c <;> decide
  intro u hu
  simp only [openTest, List.mem_cons, List.mem_append] at hu
  rcases hu with rfl | hu | hu | rfl | hu
  · decide
  · exact separates_of_isNameUnit (hname u hu)
  · exact hsign u hu
  · decide
  · exact hvalue u hu

/-- A sign is read as its comparison, also where the signs of two comparisons end alike. -/
theorem comparison?_sign (c : Comparison) (rest : Text) :
    comparison? (c.sign ++ rest) = some (c, rest) := by
  cases c <;> rfl

theorem exists_sign_eq (c : Comparison) :
    ∃ u more, c.sign = u :: more ∧ isNameUnit u = false ∧ (u == unit ':') = false ∧
      isBlank u = false := by
  cases c <;> exact ⟨_, _, rfl, by decide, by decide, by decide⟩

/-- The value in quotes is all that stands between the quotes. -/
theorem attributeTest?_quoted (c : Comparison) (hne : name ≠ [])
    (hname : ∀ u ∈ name, isNameUnit u) (hvalue : unit '"' ∉ value) :
    attributeTest? (name ++ (c.sign ++ unit '"' :: (value ++ unit '"' :: [unit ']']))) =
      some (⟨Text.toLower name, some (c, value)⟩, []) := by
  obtain ⟨s, more, hsign, hs, hcolon, hblank⟩ := exists_sign_eq c
  have hattribute : ∀ u ∈ name, (isNameUnit u || u == unit ':') = true :=
    fun u hu => by rw [hname u hu, Bool.true_or]
  have hend : ∀ rest : Text, ∀ u ∈ (c.sign ++ rest).head?,
      (isNameUnit u || u == unit ':') = false := by
    rintro rest u hu
    rw [hsign] at hu
    cases hu
    rw [hs, hcolon, Bool.or_false]
  have hstart : ∀ rest : Text, trimStart (name ++ rest) = name ++ rest := by
    intro rest
    cases name with
    | nil => exact absurd rfl hne
    | cons u name =>
      have := separates_of_isNameUnit (hname u List.mem_cons_self)
      exact trimStart_cons (separates_eq_false_iff.1 this).1 _
  have hoperator : ∀ rest : Text, trimStart (c.sign ++ rest) = c.sign ++ rest := by
    intro rest
    rw [hsign]
    exact trimStart_cons hblank _
  have hquote : ∀ rest : Text, trimStart (unit '"' :: rest) = unit '"' :: rest :=
    trimStart_cons (by decide)
  have hquoted : quotedValue? (unit '"' :: (value ++ unit '"' :: [unit ']'])) =
      some (value, []) := by
    rw [quotedValue?, if_pos (by decide), breakAt_append hvalue]
    rfl
  have hempty : name.isEmpty = false := by simpa using hne
  simp only [attributeTest?, hstart, takeWhile_append hattribute (hend _),
    dropWhile_append hattribute (hend _), hoperator, comparison?_sign, hquote, hquoted, hempty]
  rfl

theorem piecesWithin?_single {t : Text} {p : Piece} (hne : t ≠ []) (h : piece? t = some (p, [])) :
    piecesWithin? t.length t = some [p] := by
  cases t with
  | nil => exact absurd rfl hne
  | cons u t =>
    rw [List.length_cons, piecesWithin?.eq_def]
    simp only [h]
    simp [piecesWithin?]

theorem compound?_quotedTest (c : Comparison) (hne : name ≠ [])
    (hname : ∀ u ∈ name, isNameUnit u) (hvalue : unit '"' ∉ value) :
    compound? Pseudo.of (quotedTest name c value) =
      some ⟨none, none, [], [⟨Text.toLower name, some (c, value)⟩], []⟩ := by
  have htag : tag? (quotedTest name c value) = none := tag?_bracket _
  have hpiece : piece? (quotedTest name c value) =
      some (.attribute ⟨Text.toLower name, some (c, value)⟩, []) := by
    rw [quotedTest, openTest, piece?, if_neg (by decide), if_neg (by decide), if_pos (by decide),
      attributeTest?_quoted c hne hname hvalue]
    rfl
  have hpieces : piecesWithin? (quotedTest name c value).length (quotedTest name c value) =
      some [.attribute ⟨Text.toLower name, some (c, value)⟩] :=
    piecesWithin?_single (List.cons_ne_nil _ _) hpiece
  simp only [compound?, htag, Option.getD_none, hpieces]
  rfl

/-- A test that is not cut is a selector for it. -/
theorem read_quotedTest (c : Comparison) (hne : name ≠ []) (hname : ∀ u ∈ name, isNameUnit u)
    (hvalue : unit '"' ∉ value) (hwhole : IsWhole value) :
    read (quotedTest name c value) =
      .ok [[⟨.descendant, ⟨none, none, [], [⟨Text.toLower name, some (c, value)⟩], []⟩⟩]] := by
  refine read_whole (List.cons_ne_nil _ _) (whole_openTest hname ?_)
    (compound?_quotedTest c hne hname hvalue)
  intro u hu
  rcases List.mem_append.1 hu with hu | hu
  · exact hwhole u hu
  · exact (by decide : IsWhole (unit '"' :: [unit ']'])) u hu

/-- A test whose value has a cut in it is no selector, although the value stands in quotes: what
is left of it at the cut is not closed. -/
theorem read_quotedTest_cut (c : Comparison) (hname : ∀ u ∈ name, isNameUnit u)
    (hclosed : unit ']' ∉ value) (hcut : ¬ IsWhole value) :
    read (quotedTest name c value) =
      .error (.unsupportedSelector (openTest name c (uncut value))) := by
  obtain ⟨rest, hvalue, hrest⟩ := exists_eq_uncut_append value
  have hne : rest ≠ [] := by
    rintro rfl
    rw [List.append_nil] at hvalue
    exact hcut (hvalue ▸ whole_uncut value)
  have htext : quotedTest name c value =
      openTest name c (uncut value) ++ (rest ++ unit '"' :: [unit ']']) := by
    conv_lhs => rw [hvalue]
    simp only [quotedTest, openTest, List.cons_append, List.append_assoc]
  have hopen : unit ']' ∉ name ++ (c.sign ++ unit '"' :: uncut value) := by
    have hsign : unit ']' ∉ c.sign := by cases c <;> decide
    have hbracket : isNameUnit (unit ']') = false := by decide
    simp only [List.mem_append, List.mem_cons, not_or]
    refine ⟨fun hmem => ?_, hsign, by decide, fun hmem => ?_⟩
    · rw [hname _ hmem] at hbracket
      cases hbracket
    · exact hclosed (hvalue ▸ List.mem_append_left rest hmem)
  rw [htext]
  refine read_append (List.cons_ne_nil _ _) (whole_openTest hname (whole_uncut value))
    (fun u hu => ?_) (compound?_unclosed hopen)
  rw [List.head?_append_of_ne_nil _ hne] at hu
  exact hrest u hu

/-- A title of two words cannot be asked for. -/
example : read (quotedTest "title" .equals "a b") =
    .error (.unsupportedSelector (openTest "title" .equals "a")) := by cbv

end Quoted

end Selector

namespace Tree

open Selector

variable {env : Env} {w : World} {V : View} {name value : Text}

/-- Below a node, a test that is not cut selects the elements whose attribute compares to the value
in its quotes. The name of the attribute is looked for in lower case. -/
theorem selectAll_quotedTest (hs : Shows w V) (hm : V.IsMarkup) {root : ObjectId}
    (hroot : V.Container root) (c : Comparison) (hne : name ≠ []) (hname : ∀ u ∈ name, isNameUnit u)
    (hvalue : unit '"' ∉ value) (hwhole : IsWhole value) :
    ∃ es, V.Lists root
        (fun e => ∃ actual, V.attribute? e name.toLower = some actual ∧ c.Relates actual value) es ∧
      M.run' env w (selectAll (.object root) (quotedTest name c value)) =
        (.ok (es.map .object), w) := by
  obtain ⟨es, hes, hall⟩ := selectAll_lists env hs hm hroot
    (read_quotedTest c hne hname hvalue hwhole) (by simp [IsApplicable])
  refine ⟨es, ⟨hes.ordered, hes.nodup, fun x => (hes.mem_iff x).trans ?_⟩, hall⟩
  rw [matches_single, fits_attribute]
  simp [AttributeTest.Fits]

/-- A test that is cut fails, whatever is in the tree. -/
theorem selectAll_quotedTest_cut (root : Value) (c : Comparison) (hname : ∀ u ∈ name, isNameUnit u)
    (hclosed : unit ']' ∉ value) (hcut : ¬ IsWhole value) :
    M.run' env w (selectAll root (quotedTest name c value)) =
      (.error (.unsupportedSelector (openTest name c (uncut value))), w) := by
  rw [selectAll, read_quotedTest_cut c hname hclosed hcut]
  rfl

end Tree

end PageTemplate
