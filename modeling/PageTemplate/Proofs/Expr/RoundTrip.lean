import PageTemplate.Proofs.Expr.Reading

/-!
# PageTemplate.Proofs.Expr.RoundTrip

Programs that are written and read again. A program that can be written is read back as it is when
its expressions do not lie too deep, and rejected for their depth when they do.
-/

namespace PageTemplate

namespace Program

open PageTemplate.Expr (bindingOf itemTokens itemDepth propertyTokens propertyDepth keyTokens keyDepth IsPrintable
  ItemsPrintable PropertiesPrintable)

theorem first_append {ts : List Text} (first : ∃ u t more, ts = (u :: t) :: more ∧ opens u)
    (ts' : List Text) : ∃ u t more, ts ++ ts' = (u :: t) :: more ∧ opens u := by
  obtain ⟨u, t, more, rfl, hu⟩ := first
  exact ⟨u, t, more ++ ts', rfl, hu⟩

theorem IsOperand.readsFrom {token : Text} {e : Expr} (h : IsOperand token e) :
    ReadsFrom 9 [token] 0 e := by
  obtain ⟨u, t, ht, hu⟩ := h.first
  exact readsFrom_postfix ⟨u, t, [], by rw [ht], hu⟩ h.readsPostfix

/-- A property is read as it is written, with its key in quotes or in brackets. -/
theorem readsProperty {key value : Expr} (hk : ReadsExpression key.tokens key.depth key)
    (hv : ReadsExpression value.tokens value.depth value) :
    (∃ u t more, keyTokens key key.tokens ++ [unit ':'] :: value.tokens = (u :: t) :: more ∧
      opens u) ∧
    ReadsProperty (keyTokens key key.tokens ++ [unit ':'] :: value.tokens)
      (max (keyDepth key key.depth) (value.depth + 1)) (key, value) := by
  unfold keyTokens keyDepth
  split
  · rw [Nat.zero_max]
    exact ⟨⟨_, _, _, rfl, by decide⟩, readsProperty_quoted hv⟩
  · refine ⟨⟨_, _, _, rfl, by decide⟩, ?_⟩
    rw [List.append_assoc]
    exact readsProperty_computed hk hv

mutual

/-- An expression that can be written is read back from its tokens, by recursion on it. -/
theorem reads (e : Expr) (h : e.IsPrintable) : ReadsFrom e.binding e.tokens e.depth e := by
  cases e with
  | literal l =>
    rw [IsPrintable] at h
    rw [Expr.tokens, Expr.depth]
    exact (isOperand_literal h).readsFrom
  | name n =>
    rw [IsPrintable] at h
    rw [Expr.tokens, Expr.depth]
    exact (isOperand_name h).readsFrom
  | member holder index =>
    rw [IsPrintable] at h
    obtain ⟨b, hb, hholder⟩ := (reads holder h.1).operand 9 (Nat.le_refl 9)
    have hindex := reads index h.2
    rw [Expr.tokens, Expr.depth]
    refine readsFrom_postfix ?_ (readsPostfix_member (hholder.member hb) hindex.expression)
    exact first_append (first_append hholder.first _) _
  | call f arguments =>
    rw [IsPrintable] at h
    obtain ⟨b, hb, hf⟩ := (reads f h.1).operand 9 (Nat.le_refl 9)
    have harguments := readsItems (Or.inl rfl) arguments h.2
    rw [Expr.tokens, Expr.depth]
    refine readsFrom_postfix ?_ (readsPostfix_call (hf.member hb) harguments)
    exact first_append (first_append hf.first _) _
  | unary op operand =>
    rw [IsPrintable] at h
    obtain ⟨b, hb, hoperand⟩ := (reads operand h).operand 8 (by decide)
    rw [Expr.tokens, Expr.depth]
    refine readsFrom_unary ?_ (readsUnary_unary hoperand.first (hoperand.unary hb))
    cases op <;> exact ⟨_, _, _, rfl, by decide⟩
  | binary op left right =>
    rw [IsPrintable] at h
    have hle := bindingOf_le op
    obtain ⟨b, hb, hleft⟩ := (reads left h.1).operand (bindingOf op) (by omega)
    obtain ⟨b', hb', hright⟩ := (reads right h.2).operand (bindingOf op + 1) (by omega)
    rw [Expr.tokens, Expr.depth]
    exact readsFrom_chain (first_append hleft.first _)
      (readsChain_binary hright.first (hleft.chain op hb) (hright.binary (bindingOf op) hb'))
  | ternary condition consequent alternate =>
    rw [IsPrintable] at h
    obtain ⟨b, hb, hcondition⟩ := (reads condition h.1).operand 1 (by decide)
    have hconsequent := reads consequent h.2.1
    have halternate := reads alternate h.2.2
    rw [Expr.tokens, Expr.depth]
    refine readsFrom_expression ?_ (readsExpression_ternary hcondition.first hconsequent.first
      (hcondition.binary 0 hb) hconsequent.expression halternate.expression)
    exact first_append (first_append hcondition.first _) _
  | array elements =>
    rw [IsPrintable] at h
    have helements := readsItems (Or.inr rfl) elements h
    rw [Expr.tokens, Expr.depth]
    exact readsFrom_postfix ⟨_, _, _, rfl, by decide⟩ (readsPostfix_array helements)
  | object properties =>
    rw [IsPrintable] at h
    have hproperties := readsProperties properties h
    rw [Expr.tokens, Expr.depth]
    exact readsFrom_postfix ⟨_, _, _, rfl, by decide⟩ (readsPostfix_object hproperties)
  | assignName n value =>
    rw [IsPrintable] at h
    have hname := (isOperand_name h.1).readsFrom
    have hvalue := reads value h.2
    rw [Expr.tokens, Expr.depth]
    have hassign := readsExpression_assign (e := .assignName n value) hname.first hvalue.first
      (hname.binary 0 (by decide)) hvalue.expression rfl rfl
    rw [Nat.zero_max] at hassign
    exact readsFrom_expression (first_append hname.first _) hassign
  | assignMember holder index value =>
    rw [IsPrintable] at h
    obtain ⟨b, hb, hholder⟩ := (reads holder h.1).operand 9 (Nat.le_refl 9)
    have hindex := reads index h.2.1
    have hvalue := reads value h.2.2
    have htarget := readsFrom_postfix (first_append (first_append hholder.first _) _)
      (readsPostfix_member (hholder.member hb) hindex.expression)
    have hassign := readsExpression_assign (e := .assignMember holder index value) htarget.first
      hvalue.first (htarget.binary 0 (by decide)) hvalue.expression rfl rfl
    rw [Expr.tokens, Expr.depth]
    simp only [List.append_assoc, List.cons_append, List.nil_append] at hassign ⊢
    refine readsFrom_expression ?_ hassign
    exact first_append hholder.first _

theorem readsItems {close : Char} (hclose : close = ')' ∨ close = ']') (es : List Expr)
    (h : ItemsPrintable es) : ReadsItems close (itemTokens es) (itemDepth es) es := by
  match es with
  | [] =>
    rw [itemTokens, itemDepth]
    exact readsItems_nil (by rcases hclose with rfl | rfl <;> decide)
  | [e] =>
    rw [ItemsPrintable] at h
    have he := reads e h.1
    rw [itemTokens, itemDepth, itemDepth, Nat.max_zero]
    exact readsItems_one hclose he.first he.expression
  | e :: e' :: es =>
    rw [ItemsPrintable] at h
    have he := reads e h.1
    have hes := readsItems hclose (e' :: es) h.2
    rw [itemTokens, itemDepth]
    · exact readsItems_cons hclose he.first he.expression hes
    · simp

theorem readsProperties (ps : List (Expr × Expr)) (h : PropertiesPrintable ps) :
    ReadsProperties (propertyTokens ps) (propertyDepth ps) ps := by
  match ps with
  | [] =>
    rw [propertyTokens, propertyDepth]
    exact readsProperties_nil
  | [(key, value)] =>
    rw [PropertiesPrintable] at h
    obtain ⟨first, hproperty⟩ := readsProperty (reads key h.1).expression
      (reads value h.2.1).expression
    rw [propertyTokens, propertyDepth, propertyDepth, Nat.max_zero]
    exact readsProperties_one first hproperty
  | (key, value) :: p :: ps =>
    rw [PropertiesPrintable] at h
    obtain ⟨first, hproperty⟩ := readsProperty (reads key h.1).expression
      (reads value h.2.1).expression
    have hps := readsProperties (p :: ps) h.2.2
    rw [propertyTokens, propertyDepth]
    · exact readsProperties_cons first hproperty hps
    · simp

end

/-- The last token ends with something that is not white space. -/
def IsClosed (ts : List Text) : Prop := ∃ before t u, ts = before ++ [t ++ [u]] ∧ isBlank u = false

theorem IsClosed.append {ts' : List Text} (h : IsClosed ts') (ts : List Text) :
    IsClosed (ts ++ ts') := by
  obtain ⟨before, t, u, rfl, hu⟩ := h
  exact ⟨ts ++ before, t, u, by rw [List.append_assoc], hu⟩

theorem IsClosed.cons {ts : List Text} (h : IsClosed ts) (t : Text) : IsClosed (t :: ts) :=
  h.append [t]

theorem IsClosed.operand {ts : List Text} (h : IsClosed ts) (least : Nat) (e : Expr) :
    IsClosed (Expr.operandTokens least e ts) := by
  unfold Expr.operandTokens
  split
  · exact ⟨[unit '('] :: ts, [], unit ')', rfl, by decide⟩
  · exact h

theorem isClosed_of_all {token : Text} (hne : token ≠ [])
    (h : token.all fun u => !isBlank u) : IsClosed [token] := by
  have hlast := List.all_eq_true.1 h _ (List.getLast_mem hne)
  rw [Bool.not_eq_true'] at hlast
  refine ⟨[], token.dropLast, token.getLast hne, ?_, hlast⟩
  rw [List.dropLast_concat_getLast hne]
  rfl

theorem isClosed_word {w : Text} (hw : IsWord w) : IsClosed [w] := by
  obtain ⟨u, t, rfl, -⟩ := hw.start
  refine isClosed_of_all (List.cons_ne_nil u t) (List.all_eq_true.2 fun v hv => ?_)
  rw [CodeUnit.not_isBlank_of_isIdentifierPart (hw.parts v hv)]
  rfl

theorem isClosed_literal {l : Literal} (h : l.IsPrintable) : IsClosed [l.print] := by
  cases l with
  | undefined => exact isClosed_of_all (by decide) rfl
  | null => exact isClosed_of_all (by decide) rfl
  | bool b => cases b <;> exact isClosed_of_all (by decide) rfl
  | text t => exact ⟨[], unit '"' :: Expr.escape t, unit '"', rfl, by decide⟩
  | number x =>
    rcases h with rfl | rfl | ⟨k, hk, rfl⟩
    · exact isClosed_of_all (by decide) rfl
    · exact isClosed_of_all (by decide) rfl
    · simp only [Literal.print, Number.toInt?_ofNat hk]
      refine isClosed_of_all (Text.ofNat_ne_nil k) (List.all_eq_true.2 fun u hu => ?_)
      rw [not_isBlank_of_isDigit (Text.isDigit_of_mem_ofNat hu)]
      rfl

theorem isClosed_tokens (e : Expr) (h : e.IsPrintable) : IsClosed e.tokens := by
  have hbracket : IsClosed [[unit ']']] := ⟨[], [], unit ']', rfl, by decide⟩
  have hparenthesis : IsClosed [[unit ')']] := ⟨[], [], unit ')', rfl, by decide⟩
  have hbrace : IsClosed [[unit '\x7d']] := ⟨[], [], unit '\x7d', rfl, by decide⟩
  cases e with
  | literal l =>
    rw [IsPrintable] at h
    rw [Expr.tokens]
    exact isClosed_literal h
  | name n =>
    rw [IsPrintable] at h
    rw [Expr.tokens]
    exact isClosed_word (isWord_of_isName h)
  | member holder index =>
    rw [Expr.tokens]
    exact hbracket.append _
  | call f arguments =>
    rw [Expr.tokens]
    exact hparenthesis.append _
  | unary op operand =>
    rw [IsPrintable] at h
    rw [Expr.tokens]
    exact ((isClosed_tokens operand h).operand 8 operand).cons _
  | binary op left right =>
    rw [IsPrintable] at h
    rw [Expr.tokens]
    exact (((isClosed_tokens right h.2).operand _ right).cons _).append _
  | ternary condition consequent alternate =>
    rw [IsPrintable] at h
    rw [Expr.tokens]
    exact ((isClosed_tokens alternate h.2.2).cons _).append _
  | array elements =>
    rw [Expr.tokens]
    exact hbracket.append _
  | object properties =>
    rw [Expr.tokens]
    exact hbrace.append _
  | assignName n value =>
    rw [IsPrintable] at h
    rw [Expr.tokens]
    exact ((isClosed_tokens value h.2).cons _).cons _
  | assignMember holder index value =>
    rw [IsPrintable] at h
    rw [Expr.tokens]
    exact (((isClosed_tokens value h.2.2).cons _).cons _).append _

theorem tokens_cons (e : Expr) {es : Program} (h : es ≠ []) :
    tokens (e :: es) = e.tokens ++ [unit ';'] :: tokens es := by
  cases es with
  | nil => exact absurd rfl h
  | cons e' es => rfl

theorem first_tokens {es : Program} (h : ∀ e ∈ es, e.IsPrintable) (hne : es ≠ []) :
    ∃ u t more, tokens es = (u :: t) :: more ∧ opens u := by
  cases es with
  | nil => exact absurd rfl hne
  | cons e es =>
    have he := (reads e (h e List.mem_cons_self)).first
    by_cases hes : es = []
    · rw [hes]
      exact he
    · rw [tokens_cons e hes]
      exact first_append he _

theorem isClosed_program {es : Program} (h : ∀ e ∈ es, e.IsPrintable) (hne : es ≠ []) :
    IsClosed (tokens es) := by
  induction es with
  | nil => exact absurd rfl hne
  | cons e es ih =>
    by_cases hes : es = []
    · rw [hes]
      exact isClosed_tokens e (h e List.mem_cons_self)
    · rw [tokens_cons e hes]
      exact ((ih (fun e' he' => h e' (List.mem_cons_of_mem e he')) hes).cons _).append _

theorem length_le_tokens {es : Program} (h : ∀ e ∈ es, e.IsPrintable) :
    es.length ≤ (tokens es).length := by
  induction es with
  | nil => exact Nat.le_refl 0
  | cons e es ih =>
    have he := (reads e (h e List.mem_cons_self)).length_pos
    by_cases hes : es = []
    · rw [hes]
      exact he
    · have := ih fun e' he' => h e' (List.mem_cons_of_mem e he')
      rw [tokens_cons e hes, List.length_append, List.length_cons, List.length_cons]
      omega

/-- Tokens with a space before each are the tokens with a space between them, and one before. -/
theorem space_join {ts : List Text} (h : ts ≠ []) : unit ' ' :: Text.join " " ts = spaced ts := by
  have hspace : Text.ofString " " = [unit ' '] := rfl
  unfold Text.join
  induction ts with
  | nil => exact absurd rfl h
  | cons t ts ih =>
    cases ts with
    | nil => simp
    | cons t' ts =>
      rw [List.intercalate_cons_cons, hspace, spaced_cons, ← ih (List.cons_ne_nil t' ts)]
      simp [hspace]

theorem length_le_spaced (ts : List Text) : ts.length ≤ (spaced ts).length := by
  induction ts with
  | nil => exact Nat.le_refl 0
  | cons t ts ih =>
    rw [spaced_cons, List.length_append, List.length_cons, List.length_cons]
    omega

/-- The first token has just one space before it. -/
theorem space_skip {ts : List Text} (first : ∃ u t more, ts = (u :: t) :: more ∧ opens u)
    (rest : Text) : unit ' ' :: skip (spaced ts ++ rest) = spaced ts ++ rest := by
  obtain ⟨u, t, more, rfl, hu⟩ := first
  simp only [opens, Bool.and_eq_true, Bool.not_eq_true'] at hu
  simp [skip_cons hu.1.1.1.1]

/-- What is taken for a separator ends where an expression begins. -/
theorem skipSeparators_spaced {ts : List Text} (first : ∃ u t more, ts = (u :: t) :: more ∧ opens u)
    (rest : Text) : skipSeparators (spaced ts ++ rest) = skip (spaced ts ++ rest) := by
  obtain ⟨u, t, more, rfl, hu⟩ := first
  simp only [opens, Bool.and_eq_true, Bool.not_eq_true', bne] at hu
  obtain ⟨⟨⟨⟨hblank, -⟩, -⟩, -⟩, hsemicolon⟩ := hu
  have hspace : (isBlank (unit ' ') || unit ' ' == unit ';') = true := by decide
  have hfirst : (isBlank u || u == unit ';') = false := by rw [hblank, hsemicolon]; rfl
  simp [skipSeparators, hspace, hfirst, skip_cons hblank]

/-- A statement is read with the fuel that its text provides. -/
theorem expression_statement {e : Expr} (h : e.IsPrintable) {rest : Text} (hrest : IsApart rest)
    (hends : endsExpression rest) :
    expression (fuelFor (skip (spaced e.tokens ++ rest)).length) maxNesting
        (skip (spaced e.tokens ++ rest)) =
      enough e.nesting maxNesting >>= fun _ => .ok (e, skip rest) := by
  have he := reads e h
  have hlength := congrArg List.length (space_skip he.first rest)
  have hle := length_le_spaced e.tokens
  rw [List.length_cons, List.length_append] at hlength
  rw [expression_skip]
  refine he.expression _ _ rest hrest hends ?_
  unfold fuelFor
  omega

/-- Statements are read one after another. -/
theorem statements_spaced {es : Program} (h : ∀ e ∈ es, e.IsPrintable) (hne : es ≠ []) {n : Nat}
    (hn : es.length ≤ n) {text : Text} (htext : skipSeparators text = skip (spaced (tokens es))) :
    statements n text = enough (itemDepth es) maxNesting >>= fun _ => .ok es := by
  induction es generalizing n text with
  | nil => exact absurd rfl hne
  | cons e es ih =>
    rw [List.length_cons] at hn
    obtain ⟨n, rfl⟩ : ∃ m, n = m + 1 := ⟨n - 1, by omega⟩
    have he := h e List.mem_cons_self
    have hes : ∀ e' ∈ es, e'.IsPrintable := fun e' he' => h e' (List.mem_cons_of_mem e he')
    have hnotEmpty : ∀ rest, (skip (spaced e.tokens ++ rest)).isEmpty = false := by
      intro rest
      obtain ⟨u, t, more, htokens, hu⟩ := (reads e he).first
      simp only [opens, Bool.and_eq_true, Bool.not_eq_true'] at hu
      simp [htokens, skip_cons hu.1.1.1.1]
    by_cases hend : es = []
    · subst hend
      have hread := expression_statement he isApart_nil rfl
      have hempty := hnotEmpty []
      rw [List.append_nil] at hread hempty
      have hone : tokens [e] = e.tokens := rfl
      rw [statements, htext, hone]
      change (if (skip (spaced e.tokens)).isEmpty = true then _ else _) = _
      rw [hempty, if_neg (by decide)]
      rw [hread, bind_assoc, itemDepth, itemDepth, Nat.max_zero]
      rfl
    · have hsplit : spaced (tokens (e :: es)) =
          spaced e.tokens ++ unit ' ' :: unit ';' :: spaced (tokens es) := by
        rw [tokens_cons e hend]
        simp
      have hread := expression_statement he (isApart_space _)
        (endsExpression_close (u := unit ';') (by decide) (spaced (tokens es)))
      have hseparators := skipSeparators_spaced (first_tokens hes hend) []
      rw [List.append_nil] at hseparators
      have hmore := ih hes hend (n := n) (by omega) hseparators
      rw [statements, htext, hsplit]
      change (if (skip (spaced e.tokens ++ _)).isEmpty = true then _ else _) = _
      rw [hnotEmpty, if_neg (by decide)]
      change (expression (fuelFor (skip (spaced e.tokens ++ _)).length) maxNesting _ >>= _) = _
      rw [hread, bind_assoc, itemDepth, ← enough_bind]
      refine bind_congr fun _ => ?_
      change (statements n (spaced (tokens es)) >>= _) = _
      rw [hmore, bind_assoc]
      rfl

/-- The writing of a program has no white space around it. -/
theorem trim_print {es : Program} (h : ∀ e ∈ es, e.IsPrintable) : (print es).trim = print es := by
  by_cases hne : es = []
  · rw [hne]
    rfl
  · have first := first_tokens h hne
    have htokens : tokens es ≠ [] := by
      obtain ⟨u, t, more, ht, -⟩ := first
      rw [ht]
      exact List.cons_ne_nil _ _
    have hstart : Text.trimStart (print es) = print es := by
      have hspace := space_skip first []
      rw [List.append_nil, ← space_join htokens] at hspace
      exact (List.cons.inj hspace).2
    obtain ⟨before, t, u, hlast, hu⟩ := isClosed_program h hne
    have hclosed : ∃ s, unit ' ' :: print es = s ++ [u] := by
      refine ⟨spaced before ++ unit ' ' :: t, ?_⟩
      rw [print, space_join htokens, hlast]
      simp
    obtain ⟨s, hs⟩ := hclosed
    have hprint : ∃ s', print es = s' ++ [u] := by
      cases s with
      | nil =>
        have hspace := (List.cons.inj hs).1
        rw [← hspace] at hu
        exact absurd hu (by decide)
      | cons v s => exact ⟨s, (List.cons.inj hs).2⟩
    obtain ⟨s', hs'⟩ := hprint
    rw [Text.trim, hstart, hs', Text.trimEnd, Text.dropEndWhile]
    simp [hu]

/-- How the writing of a program is read: as the program, unless its expressions lie too deep. -/
theorem parse_print_eq {es : Program} (h : ∀ e ∈ es, e.IsPrintable) :
    parse (print es) = enough (itemDepth es) maxNesting >>= fun _ => .ok es := by
  by_cases hne : es = []
  · rw [hne, itemDepth, enough_zero]
    change statements 1 [] = _
    rw [statements]
    rfl
  · have first := first_tokens h hne
    have htokens : tokens es ≠ [] := by
      obtain ⟨u, t, more, ht, -⟩ := first
      rw [ht]
      exact List.cons_ne_nil _ _
    have hspace := space_join htokens
    have hlength := length_le_spaced (tokens es)
    have hcount := length_le_tokens h
    rw [← hspace, List.length_cons] at hlength
    have hseparators : skipSeparators (print es) = skip (spaced (tokens es)) := by
      have hskip := skipSeparators_spaced first []
      rw [List.append_nil, ← hspace] at hskip
      rw [← hspace, ← hskip]
      rfl
    rw [parse, trim_print h]
    exact statements_spaced h hne (Nat.le_trans hcount hlength) hseparators

theorem itemDepth_le_iff {es : List Expr} {n : Nat} :
    itemDepth es ≤ n ↔ ∀ e ∈ es, e.nesting ≤ n := by
  induction es with
  | nil => simp [itemDepth]
  | cons e es ih => simp [itemDepth, Expr.nesting, ih]

/-- A program that can be written is read back as it is, unless it nests too deep. -/
theorem parse_print (es : Program) (h : ∀ e ∈ es, e.IsPrintable)
    (hnesting : ∀ e ∈ es, e.nesting ≤ maxNesting) : parse (print es) = .ok es := by
  rw [parse_print_eq h, enough, if_pos (itemDepth_le_iff.2 hnesting)]
  rfl

/-- An assignment under a condition, and a product with a sum in it. -/
def sampleProgram : Program :=
  [.assignName "total"
      (.ternary (.binary .within (.literal (.text "a\"b")) (.name "row")) (.unary .negate (.name "n"))
        (.call (.member (.name "row") (.literal (.text "at"))) [.literal (.number (Number.ofNat 7))])),
    .binary .multiply (.binary .add (.name "n") (.literal .null)) (.object [(.name "n", .array [])])]

/-- The sample is written with parentheses around the sum only, and read back. -/
theorem parse_print_sampleProgram :
    (∀ e ∈ sampleProgram, e.IsPrintable) ∧ (∀ e ∈ sampleProgram, e.nesting ≤ maxNesting) ∧
    print sampleProgram = Text.ofString
      ("total = \"a\\\"b\" in row ? - n : row [ \"at\" ] ( 7 ) ; " ++
        "( n + null ) * \x7b [ n ] : [ ] \x7d") ∧
    parse (print sampleProgram) = .ok sampleProgram := by
  have htotal : Expr.IsName "total" := ⟨⟨_, _, rfl, by decide, List.all_eq_true.1 rfl⟩, by decide, by decide⟩
  have hrow : Expr.IsName "row" := ⟨⟨_, _, rfl, by decide, List.all_eq_true.1 rfl⟩, by decide, by decide⟩
  have hn : Expr.IsName "n" := ⟨⟨_, _, rfl, by decide, List.all_eq_true.1 rfl⟩, by decide, by decide⟩
  have hseven : (Literal.number (Number.ofNat 7)).IsPrintable := Or.inr (Or.inr ⟨7, by decide, rfl⟩)
  have hprintable : ∀ e ∈ sampleProgram, e.IsPrintable := by
    intro e he
    rcases List.mem_cons.1 he with rfl | he
    · exact ⟨htotal, ⟨trivial, hrow⟩, hn, ⟨hrow, trivial⟩, hseven, trivial⟩
    · rw [List.mem_singleton.1 he]
      exact ⟨⟨hn, trivial⟩, ⟨hn, trivial, trivial⟩⟩
  have hnesting : ∀ e ∈ sampleProgram, e.nesting ≤ maxNesting := by decide
  exact ⟨hprintable, hnesting, by decide +kernel, parse_print sampleProgram hprintable hnesting⟩

/-- A program that nests too deep in writing is rejected for that. -/
theorem parse_print_tooDeep {es : Program} (h : ∀ e ∈ es, e.IsPrintable) {e : Expr} (he : e ∈ es)
    (hnesting : maxNesting < e.nesting) : parse (print es) = .error .tooDeep := by
  have hdeep : ¬ itemDepth es ≤ maxNesting := by
    intro hle
    have := itemDepth_le_iff.1 hle e he
    omega
  rw [parse_print_eq h, enough, if_neg hdeep]
  rfl

end Program

end PageTemplate
