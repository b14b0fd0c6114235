import PageTemplate.Proofs.Expr.Levels

/-!
# PageTemplate.Proofs.Expr.Reading

Reading expressions constructor by constructor. When the parts of an expression are read back from
their tokens, so is the expression, on its own level and on every looser one.
-/

namespace PageTemplate

namespace Program

open PageTemplate.Expr (bindingOf operandTokens operandDepth)

/-- The operators that bind like a given one. -/
def levelOf (op : BinaryOp) : List BinaryOp := operatorLevels.getD (bindingOf op - 1) []

theorem drop_bindingOf (op : BinaryOp) :
    operatorLevels.drop (bindingOf op - 1) = levelOf op :: operatorLevels.drop (bindingOf op) := by
  cases op <;> rfl

theorem bindingOf_pos (op : BinaryOp) : 0 < bindingOf op := by cases op <;> decide

theorem bindingOf_le (op : BinaryOp) : bindingOf op ≤ 7 := by cases op <;> decide

theorem levelOf_congr {op op' : BinaryOp} (h : bindingOf op = bindingOf op') :
    levelOf op = levelOf op' := by
  rw [levelOf, levelOf, h]

theorem drop_append {k j : Nat} (h : k ≤ j) :
    ∃ weaker, operatorLevels.drop k = weaker ++ operatorLevels.drop j := by
  refine ⟨(operatorLevels.drop k).take (j - k), ?_⟩
  have hsplit := List.take_append_drop (j - k) (operatorLevels.drop k)
  rw [List.drop_drop, Nat.add_sub_cancel' h] at hsplit
  exact hsplit.symm

/-- Tokens that are read as an expression on every level down to the given one. -/
structure ReadsFrom (binding : Nat) (tokens : List Text) (need : Nat) (e : Expr) : Prop where
  first : ∃ u t more, tokens = (u :: t) :: more ∧ opens u
  expression : ReadsExpression tokens need e
  binary : ∀ k, k < binding → ReadsBinary tokens need e (operatorLevels.drop k)
  chain : ∀ op, bindingOf op ≤ binding →
    ReadsChain tokens need e (levelOf op) (operatorLevels.drop (bindingOf op))
  unary : 8 ≤ binding → ReadsUnary tokens need e
  member : 9 ≤ binding → ReadsPostfix tokens need e

section

variable {tokens : List Text} {need : Nat} {e : Expr}

theorem ReadsFrom.length_pos {b : Nat} (h : ReadsFrom b tokens need e) : 0 < tokens.length := by
  obtain ⟨u, t, more, rfl, -⟩ := h.first
  exact Nat.succ_pos _

theorem readsFrom_expression (first : ∃ u t more, tokens = (u :: t) :: more ∧ opens u)
    (h : ReadsExpression tokens need e) : ReadsFrom 0 tokens need e where
  first := first
  expression := h
  binary := by
    intro k hk
    omega
  chain := by
    intro op hop
    have := bindingOf_pos op
    omega
  unary := by omega
  member := by omega

theorem length_pos_of_first (h : ∃ u t more, tokens = (u :: t) :: more ∧ opens u) :
    0 < tokens.length := by
  obtain ⟨u, t, more, rfl, -⟩ := h
  exact Nat.succ_pos _

theorem readsFrom_chain {op : BinaryOp} (first : ∃ u t more, tokens = (u :: t) :: more ∧ opens u)
    (h : ReadsChain tokens need e (levelOf op) (operatorLevels.drop (bindingOf op))) :
    ReadsFrom (bindingOf op) tokens need e := by
  have hpos := length_pos_of_first first
  have hop := bindingOf_pos op
  have hlevel : ReadsBinary tokens need e (operatorLevels.drop (bindingOf op - 1)) := by
    rw [drop_bindingOf]
    exact h.binary hpos
  have hbinary : ∀ k, k < bindingOf op → ReadsBinary tokens need e (operatorLevels.drop k) := by
    intro k hk
    obtain ⟨weaker, hweaker⟩ := drop_append (k := k) (j := bindingOf op - 1) (by omega)
    rw [hweaker]
    exact hlevel.append hpos weaker
  refine ⟨first, (hbinary 0 hop).expression hpos, hbinary, ?_, ?_, ?_⟩
  · intro op' hle
    by_cases heq : bindingOf op' = bindingOf op
    · rw [heq, levelOf_congr heq]
      exact h
    · exact (hbinary (bindingOf op') (by omega)).chain hpos _
  · have := bindingOf_le op
    omega
  · have := bindingOf_le op
    omega

theorem ReadsUnary.level (h : ReadsUnary tokens need e) (hpos : 0 < tokens.length) (k : Nat) :
    ReadsBinary tokens need e (operatorLevels.drop k) := by
  rw [← List.append_nil (operatorLevels.drop k)]
  exact (h.binary hpos).append hpos _

theorem readsFrom_unary (first : ∃ u t more, tokens = (u :: t) :: more ∧ opens u)
    (h : ReadsUnary tokens need e) : ReadsFrom 8 tokens need e where
  first := first
  expression := (h.level (length_pos_of_first first) 0).expression (length_pos_of_first first)
  binary := fun k _ => h.level (length_pos_of_first first) k
  chain := fun op _ =>
    (h.level (length_pos_of_first first) (bindingOf op)).chain (length_pos_of_first first) _
  unary := fun _ => h
  member := by omega

theorem readsFrom_postfix (first : ∃ u t more, tokens = (u :: t) :: more ∧ opens u)
    (h : ReadsPostfix tokens need e) : ReadsFrom 9 tokens need e := by
  have hunary := h.unary (length_pos_of_first first)
  have hfrom := readsFrom_unary first hunary
  refine ⟨first, hfrom.expression, fun k _ => hunary.level (length_pos_of_first first) k, ?_,
    fun _ => hunary, fun _ => h⟩
  intro op _
  exact hfrom.chain op (Nat.le_succ_of_le (bindingOf_le op))

/-- An operand is read as it is written, with parentheses or without. -/
theorem ReadsFrom.operand (h : ReadsFrom e.binding tokens need e) (least : Nat) (hleast : least ≤ 9) :
    ∃ b, least ≤ b ∧
      ReadsFrom b (operandTokens least e tokens) (operandDepth least e need) e := by
  by_cases hb : e.binding < least
  · refine ⟨9, hleast, ?_⟩
    rw [operandTokens, operandDepth, if_pos hb, if_pos hb]
    exact readsFrom_postfix ⟨unit '(', [], _, rfl, by decide⟩ h.expression.parentheses
  · refine ⟨e.binding, Nat.le_of_not_lt hb, ?_⟩
    rw [operandTokens, operandDepth, if_neg hb, if_neg hb]
    exact h

theorem IsOperand.readsPostfix {token : Text} (h : IsOperand token e) :
    ReadsPostfix [token] 0 e := by
  obtain ⟨u, t, rfl, hu⟩ := h.first
  have hblank : isBlank u = false := by
    simp only [opens, Bool.and_eq_true, Bool.not_eq_true'] at hu
    exact hu.1.1.1.1
  refine ⟨fun rest hrest => ?_, fun n d rest hrest hfuel => ⟨n, by omega, ?_⟩⟩
  · have hskip : skip (spaced [u :: t] ++ rest) = (u :: t) ++ rest := by
      simp [skip_cons hblank]
    rw [hskip]
    exact h.notOperator rest hrest
  · simp only [List.length_cons, List.length_nil] at hfuel
    obtain ⟨n, rfl⟩ : ∃ m, n = m + 1 := ⟨n - 1, by omega⟩
    have hread := h.primary n d rest hrest
    simp only [spaced_cons, spaced_nil, List.append_nil, List.cons_append] at hread ⊢
    rw [hread, enough_zero]
    rfl

end

/-- The tokens are read as expressions with commas between them, up to a closing unit. -/
def ReadsItems (close : Char) (tokens : List Text) (need : Nat) (es : List Expr) : Prop :=
  ∀ n d rest, 16 * tokens.length + 1 ≤ n →
    items n d close (spaced tokens ++ unit ' ' :: unit close :: rest) =
      enough need d >>= fun _ => .ok (es, unit close :: rest)

/-- The tokens are read as properties, up to a closing brace. -/
def ReadsProperties (tokens : List Text) (need : Nat) (ps : List (Expr × Expr)) : Prop :=
  ∀ n d rest, 16 * tokens.length + 1 ≤ n →
    properties n d (spaced tokens ++ unit ' ' :: unit '\x7d' :: rest) =
      enough need d >>= fun _ => .ok (ps, unit '\x7d' :: rest)

/-- The tokens are read as one property. -/
def ReadsProperty (tokens : List Text) (need : Nat) (p : Expr × Expr) : Prop :=
  ∀ n d rest, IsApart rest → endsExpression rest → 16 * tokens.length ≤ n →
    property n d (spaced tokens ++ rest) = enough need d >>= fun _ => .ok (p, skip rest)

section

variable {holder index left right value e : Expr} {ts ts' : List Text} {need need' : Nat}

theorem readsPostfix_member (ho : ReadsPostfix ts need holder)
    (hp : ReadsExpression ts' need' index) :
    ReadsPostfix (ts ++ [unit '['] :: ts' ++ [[unit ']']]) (max need (need' + 1))
      (.member holder index) := by
  have htext : ∀ rest, spaced (ts ++ [unit '['] :: ts' ++ [[unit ']']]) ++ rest =
      spaced ts ++ unit ' ' :: unit '[' :: (spaced ts' ++ unit ' ' :: unit ']' :: rest) := by
    intro rest
    simp
  refine ⟨fun rest hrest => ?_, fun n d rest hrest hfuel => ?_⟩
  · rw [htext]
    exact ho.1 _ (isApart_space _)
  · simp only [List.length_append, List.length_cons, List.length_nil] at hfuel ⊢
    obtain ⟨m, hm, hread⟩ := ho.2 n d
      (unit ' ' :: unit '[' :: (spaced ts' ++ unit ' ' :: unit ']' :: rest))
      (isApart_space _) (by omega)
    obtain ⟨m, rfl⟩ : ∃ k, m = k + 1 := ⟨m - 1, by omega⟩
    have hproperty := hp m d (unit ' ' :: unit ']' :: rest) (isApart_space _)
      (endsExpression_close (by decide) rest) (by omega)
    have hsuffix : postfixes (m + 1) d holder
        (unit ' ' :: unit '[' :: (spaced ts' ++ unit ' ' :: unit ']' :: rest)) =
        enough (need' + 1) d >>= fun _ => postfixes m d (.member holder index) rest := by
      have hskip : ∀ t, skip (unit ' ' :: unit '[' :: t) = unit '[' :: t := fun t => rfl
      rw [postfixes, hskip]
      simp only [beq_self_eq_true, if_true]
      rw [if_neg (by decide), hproperty, bind_assoc]
      rfl
    refine ⟨m, by omega, ?_⟩
    rw [htext, hread, hsuffix, enough_bind]

theorem readsPostfix_call {es : List Expr} (ho : ReadsPostfix ts need holder)
    (hes : ReadsItems ')' ts' need' es) :
    ReadsPostfix (ts ++ [unit '('] :: ts' ++ [[unit ')']]) (max need need') (.call holder es) := by
  have htext : ∀ rest, spaced (ts ++ [unit '('] :: ts' ++ [[unit ')']]) ++ rest =
      spaced ts ++ unit ' ' :: unit '(' :: (spaced ts' ++ unit ' ' :: unit ')' :: rest) := by
    intro rest
    simp
  refine ⟨fun rest hrest => ?_, fun n d rest hrest hfuel => ?_⟩
  · rw [htext]
    exact ho.1 _ (isApart_space _)
  · simp only [List.length_append, List.length_cons, List.length_nil] at hfuel ⊢
    obtain ⟨m, hm, hread⟩ := ho.2 n d
      (unit ' ' :: unit '(' :: (spaced ts' ++ unit ' ' :: unit ')' :: rest))
      (isApart_space _) (by omega)
    obtain ⟨m, rfl⟩ : ∃ k, m = k + 1 := ⟨m - 1, by omega⟩
    have harguments := hes m d rest (by omega)
    have hsuffix : postfixes (m + 1) d holder
        (unit ' ' :: unit '(' :: (spaced ts' ++ unit ' ' :: unit ')' :: rest)) =
        enough need' d >>= fun _ => postfixes m d (.call holder es) rest := by
      have hskip : ∀ t, skip (unit ' ' :: unit '(' :: t) = unit '(' :: t := fun t => rfl
      rw [postfixes, hskip]
      simp only [beq_self_eq_true, if_true]
      rw [if_neg (by decide), if_neg (by decide), harguments, bind_assoc]
      rfl
    refine ⟨m, by omega, ?_⟩
    rw [htext, hread, hsuffix, enough_bind]

theorem readsPostfix_array {es : List Expr} (h : ReadsItems ']' ts need es) :
    ReadsPostfix ([unit '['] :: ts ++ [[unit ']']]) need (.array es) := by
  refine ⟨fun rest hrest => rfl, fun n d rest hrest hfuel => ⟨n, by omega, ?_⟩⟩
  simp only [List.length_append, List.length_cons, List.length_nil] at hfuel
  obtain ⟨n, rfl⟩ : ∃ m, n = m + 1 := ⟨n - 1, by omega⟩
  have hitems := h n d rest (by omega)
  have hprimary : primary (n + 1) d (spaced ([unit '['] :: ts ++ [[unit ']']]) ++ rest) =
      enough need d >>= fun _ => .ok (.array es, rest) := by
    have hskip : skip (spaced ([unit '['] :: ts ++ [[unit ']']]) ++ rest) =
        unit '[' :: (spaced ts ++ unit ' ' :: unit ']' :: rest) := by
      simp [skip_cons (u := unit '[') (by decide)]
    rw [primary, hskip]
    simp only [beq_self_eq_true, if_true]
    rw [if_neg (by decide), hitems, bind_assoc]
    rfl
  rw [hprimary, bind_assoc]
  rfl

theorem readsPostfix_object {ps : List (Expr × Expr)} (h : ReadsProperties ts need ps) :
    ReadsPostfix ([unit '\x7b'] :: ts ++ [[unit '\x7d']]) need (.object ps) := by
  refine ⟨fun rest hrest => rfl, fun n d rest hrest hfuel => ⟨n, by omega, ?_⟩⟩
  simp only [List.length_append, List.length_cons, List.length_nil] at hfuel
  obtain ⟨n, rfl⟩ : ∃ m, n = m + 1 := ⟨n - 1, by omega⟩
  have hproperties := h n d rest (by omega)
  have hprimary : primary (n + 1) d (spaced ([unit '\x7b'] :: ts ++ [[unit '\x7d']]) ++ rest) =
      enough need d >>= fun _ => .ok (.object ps, rest) := by
    have hskip : skip (spaced ([unit '\x7b'] :: ts ++ [[unit '\x7d']]) ++ rest) =
        unit '\x7b' :: (spaced ts ++ unit ' ' :: unit '\x7d' :: rest) := by
      simp [skip_cons (u := unit '\x7b') (by decide)]
    rw [primary, hskip]
    simp only [beq_self_eq_true, if_true]
    rw [if_neg (by decide), if_neg (by decide), hproperties, bind_assoc]
    rfl
  rw [hprimary, bind_assoc]
  rfl

/-- Tokens in writing begin with a space. -/
theorem exists_spaced_eq (h : ∃ u t more, ts = (u :: t) :: more ∧ opens u) (rest : Text) :
    ∃ text, spaced ts ++ rest = unit ' ' :: text := by
  obtain ⟨u, t, more, rfl, -⟩ := h
  exact ⟨_, rfl⟩

theorem readsUnary_unary {op : UnaryOp} (first : ∃ u t more, ts = (u :: t) :: more ∧ opens u)
    (h : ReadsUnary ts need e) :
    ReadsUnary (Text.ofString op.sign :: ts) need (.unary op e) := by
  intro n d rest hrest hends hfuel
  rw [List.length_cons] at hfuel
  obtain ⟨n, rfl⟩ : ∃ m, n = m + 1 := ⟨n - 1, by omega⟩
  have hoperand := h n d rest hrest hends (by omega)
  obtain ⟨text, htext⟩ := exists_spaced_eq first rest
  have hsign : skip (spaced (Text.ofString op.sign :: ts) ++ rest) =
      Text.ofString op.sign ++ unit ' ' :: text := by
    rw [spaced_cons, List.append_assoc, htext]
    cases op <;> rfl
  have hop : unaryOperator? (Text.ofString op.sign ++ unit ' ' :: text) =
      some (op, unit ' ' :: text) := by
    cases op <;> rfl
  rw [htext] at hoperand
  rw [unary, hsign]
  simp only [hop]
  rw [hoperand, bind_assoc]
  rfl

/-- A further operand of a level to the right of the ones before it. -/
theorem readsChain_binary {op : BinaryOp} (first : ∃ u t more, ts' = (u :: t) :: more ∧ opens u)
    (hl : ReadsChain ts need left (levelOf op) (operatorLevels.drop (bindingOf op)))
    (hr : ReadsBinary ts' need' right (operatorLevels.drop (bindingOf op))) :
    ReadsChain (ts ++ Text.ofString op.sign :: ts') (max need need') (.binary op left right)
      (levelOf op) (operatorLevels.drop (bindingOf op)) := by
  intro n d rest hrest hends hfuel
  simp only [List.length_append, List.length_cons] at hfuel ⊢
  obtain ⟨text, htext⟩ := exists_spaced_eq first rest
  have hsplit : spaced (ts ++ Text.ofString op.sign :: ts') ++ rest =
      spaced ts ++ unit ' ' :: (Text.ofString op.sign ++ unit ' ' :: text) := by
    rw [spaced_append, spaced_cons, List.append_assoc, List.append_assoc, htext]
    rfl
  have hsign : endsOperand (operatorLevels.drop (bindingOf op))
      (unit ' ' :: (Text.ofString op.sign ++ unit ' ' :: text)) := by
    cases op <;> rfl
  have hskip : skip (unit ' ' :: (Text.ofString op.sign ++ unit ' ' :: text)) =
      Text.ofString op.sign ++ unit ' ' :: text := by
    cases op <;> rfl
  have hop : operator? (levelOf op) (Text.ofString op.sign ++ unit ' ' :: text) =
      some (op, unit ' ' :: text) := by
    cases op <;> rfl
  obtain ⟨m, hm, hleft⟩ := hl n d _ (isApart_space _) hsign (by omega)
  obtain ⟨m, rfl⟩ : ∃ k, m = k + 1 := ⟨m - 1, by omega⟩
  have hright := hr m d rest hrest hends (by omega)
  rw [htext] at hright
  have hclimb : climb (m + 1) d (levelOf op) (operatorLevels.drop (bindingOf op)) left
      (unit ' ' :: (Text.ofString op.sign ++ unit ' ' :: text)) =
      enough need' d >>= fun _ => climb m d (levelOf op) (operatorLevels.drop (bindingOf op))
        (.binary op left right) rest := by
    rw [climb, hskip]
    simp only [hop]
    rw [hright, bind_assoc]
    refine bind_congr fun _ => ?_
    exact climb_skip m d _ _ _ rest
  refine ⟨m, by omega, ?_⟩
  rw [hsplit, hleft, hclimb, enough_bind]

theorem readsExpression_ternary {ts'' : List Text} {need'' : Nat} {condition : Expr}
    (first : ∃ u t more, ts = (u :: t) :: more ∧ opens u)
    (first' : ∃ u t more, ts' = (u :: t) :: more ∧ opens u)
    (hc : ReadsBinary ts need condition operatorLevels) (hl : ReadsExpression ts' need' left)
    (hr : ReadsExpression ts'' need'' right) :
    ReadsExpression (ts ++ [unit '?'] :: ts' ++ [unit ':'] :: ts'')
      (max need (max (need' + 1) (need'' + 1))) (.ternary condition left right) := by
  intro n d rest hrest hends hfuel
  have hpos := length_pos_of_first first
  have hlevels : operatorLevels.length = 7 := rfl
  simp only [List.length_append, List.length_cons] at hfuel
  obtain ⟨n, rfl⟩ : ∃ m, n = m + 2 := ⟨n - 2, by omega⟩
  cases d with
  | zero =>
    rw [expression.eq_def]
    rfl
  | succ d =>
    obtain ⟨text, htext⟩ :=
      exists_spaced_eq first' (unit ' ' :: unit ':' :: (spaced ts'' ++ rest))
    have hsplit : spaced (ts ++ [unit '?'] :: ts' ++ [unit ':'] :: ts'') ++ rest =
        spaced ts ++ unit ' ' :: unit '?' :: unit ' ' :: text := by
      rw [← htext]
      simp
    have hcondition := hc n d (unit ' ' :: unit '?' :: unit ' ' :: text) (isApart_space _) rfl
      (by omega)
    have hleft := hl n d (unit ' ' :: unit ':' :: (spaced ts'' ++ rest)) (isApart_space _)
      (endsExpression_close (by decide) _) (by omega)
    have hright := hr n d rest hrest hends (by omega)
    rw [htext] at hleft
    have hoperands : ternary (n + 1) d (spaced ts ++ unit ' ' :: unit '?' :: unit ' ' :: text) =
        enough (max need (max (need' + 1) (need'' + 1))) d >>= fun _ =>
          .ok (.ternary condition left right, skip rest) := by
      rw [ternary, hcondition, bind_assoc, ← enough_bind]
      refine bind_congr fun _ => ?_
      change (expression n d (unit ' ' :: text) >>= _) = _
      rw [hleft, bind_assoc, ← enough_bind]
      refine bind_congr fun _ => ?_
      change (expression n d (spaced ts'' ++ rest) >>= _) = _
      rw [hright, bind_assoc]
      rfl
    simp only [endsExpression, Bool.and_eq_true, Option.isNone_iff_eq_none] at hends
    rw [hsplit, expression, hoperands, enough_succ, bind_assoc]
    refine bind_congr fun _ => ?_
    dsimp only [bind, Except.bind]
    rw [skip_skip, hends.2]
    rfl

theorem readsExpression_assign (first : ∃ u t more, ts = (u :: t) :: more ∧ opens u)
    (first' : ∃ u t more, ts' = (u :: t) :: more ∧ opens u)
    (ht : ReadsBinary ts need holder operatorLevels) (hv : ReadsExpression ts' need' value)
    (htarget : isTarget holder) (hassign : assign? holder value = some e) :
    ReadsExpression (ts ++ [unit '='] :: ts') (max need (need' + 1)) e := by
  intro n d rest hrest hends hfuel
  have hpos := length_pos_of_first first
  simp only [List.length_append, List.length_cons] at hfuel
  obtain ⟨n, rfl⟩ : ∃ m, n = m + 1 := ⟨n - 1, by omega⟩
  cases d with
  | zero =>
    rw [expression.eq_def]
    rfl
  | succ d =>
    obtain ⟨text, htext⟩ := exists_spaced_eq first' rest
    have hsplit : spaced (ts ++ [unit '='] :: ts') ++ rest =
        spaced ts ++ unit ' ' :: unit '=' :: unit ' ' :: text := by
      rw [← htext]
      simp
    have hholder := ht.ternary n d (unit ' ' :: unit '=' :: unit ' ' :: text)
      (isApart_space _) rfl rfl hpos (by omega)
    have hvalue := hv n d rest hrest hends (by omega)
    rw [htext] at hvalue
    rw [hsplit, expression, hholder, enough_succ, bind_assoc, ← enough_bind]
    refine bind_congr fun _ => ?_
    change (if (!isTarget holder) = true then _ else expression n d (unit ' ' :: text) >>= _) = _
    rw [htarget, hvalue, if_neg (by decide), bind_assoc]
    refine bind_congr fun _ => ?_
    dsimp only [bind, Except.bind]
    rw [hassign]
    rfl

theorem readsItems_nil {close : Char} (hblank : isBlank (unit close) = false) :
    ReadsItems close [] 0 [] := by
  intro n d rest hfuel
  obtain ⟨n, rfl⟩ : ∃ m, n = m + 1 := ⟨n - 1, by omega⟩
  have hskip : skip (spaced [] ++ unit ' ' :: unit close :: rest) = unit close :: rest :=
    skip_cons hblank rest
  rw [items, hskip]
  simp only [startsWithUnit, beq_self_eq_true, if_true, enough_zero]

/-- What an item begins with does not close the list. -/
theorem startsWithUnit_first (close : Char) (hclose : close = ')' ∨ close = ']' ∨ close = '\x7d')
    (first : ∃ u t more, ts = (u :: t) :: more ∧ opens u) (rest : Text) :
    startsWithUnit close (skip (spaced ts ++ rest)) = false := by
  obtain ⟨u, t, more, rfl, hu⟩ := first
  simp only [opens, Bool.and_eq_true, Bool.not_eq_true', bne] at hu
  obtain ⟨⟨⟨⟨hblank, hparenthesis⟩, hbracket⟩, hbrace⟩, -⟩ := hu
  have hskip : skip (spaced ((u :: t) :: more) ++ rest) = u :: (t ++ spaced more ++ rest) := by
    simp [skip_cons hblank]
  rw [hskip]
  rcases hclose with rfl | rfl | rfl
  · exact hparenthesis
  · exact hbracket
  · exact hbrace

theorem readsItems_one {close : Char} (hclose : close = ')' ∨ close = ']')
    (first : ∃ u t more, ts = (u :: t) :: more ∧ opens u) (h : ReadsExpression ts need e) :
    ReadsItems close ts (need + 1) [e] := by
  intro n d rest hfuel
  obtain ⟨n, rfl⟩ : ∃ m, n = m + 1 := ⟨n - 1, by omega⟩
  have hfirst := startsWithUnit_first close (by rcases hclose with h | h <;> simp [h])
    first (unit ' ' :: unit close :: rest)
  have hitem := h n d (unit ' ' :: unit close :: rest) (isApart_space _)
    (endsExpression_close (by rcases hclose with rfl | rfl <;> decide) rest) (by omega)
  rw [items]
  simp only [hfirst, Bool.false_eq_true, if_false, expression_skip]
  rw [hitem, bind_assoc]
  refine bind_congr fun _ => ?_
  rcases hclose with rfl | rfl <;> rfl

theorem readsItems_cons {close : Char} (hclose : close = ')' ∨ close = ']') {es : List Expr}
    (first : ∃ u t more, ts = (u :: t) :: more ∧ opens u) (h : ReadsExpression ts need e)
    (hes : ReadsItems close ts' need' es) :
    ReadsItems close (ts ++ [unit ','] :: ts') (max (need + 1) need') (e :: es) := by
  intro n d rest hfuel
  simp only [List.length_append, List.length_cons] at hfuel
  obtain ⟨n, rfl⟩ : ∃ m, n = m + 1 := ⟨n - 1, by omega⟩
  have hsplit : spaced (ts ++ [unit ','] :: ts') ++ unit ' ' :: unit close :: rest = spaced ts ++
      unit ' ' :: unit ',' :: (spaced ts' ++ unit ' ' :: unit close :: rest) := by
    simp
  have hfirst := startsWithUnit_first close (by rcases hclose with h | h <;> simp [h])
    first (unit ' ' :: unit ',' :: (spaced ts' ++ unit ' ' :: unit close :: rest))
  have hitem := h n d (unit ' ' :: unit ',' :: (spaced ts' ++ unit ' ' :: unit close :: rest))
    (isApart_space _) (endsExpression_close (by decide) _) (by omega)
  have hmore := hes n d rest (by omega)
  rw [items, hsplit]
  simp only [hfirst, Bool.false_eq_true, if_false, expression_skip]
  rw [hitem, bind_assoc, ← enough_bind]
  refine bind_congr fun _ => ?_
  change (items n d close (spaced ts' ++ unit ' ' :: unit close :: rest) >>= _) = _
  rw [hmore, bind_assoc]
  rfl

/-- A property with its key in quotes. -/
theorem readsProperty_quoted {t : Text} (h : ReadsExpression ts need value) :
    ReadsProperty (Expr.quote t :: [unit ':'] :: ts) (need + 1) (.literal (.text t), value) := by
  intro n d rest hrest hends hfuel
  simp only [List.length_cons] at hfuel
  obtain ⟨n, rfl⟩ : ∃ m, n = m + 1 := ⟨n - 1, by omega⟩
  have hvalue := h n d rest hrest hends (by omega)
  have hskip : skip (spaced (Expr.quote t :: [unit ':'] :: ts) ++ rest) =
      unit '"' :: (Expr.escape t ++ unit '"' :: unit ' ' :: unit ':' :: (spaced ts ++ rest)) := by
    simp [Expr.quote, skip_cons (u := unit '"') (by decide)]
  have hname : propertyName (unit '"')
      (Expr.escape t ++ unit '"' :: unit ' ' :: unit ':' :: (spaced ts ++ rest)) =
      .ok (t, unit ' ' :: unit ':' :: (spaced ts ++ rest)) := by
    rw [propertyName, if_pos (by decide), quoted, quoted?_escape]
  rw [property, hskip]
  simp only [hname]
  rw [if_neg (by decide)]
  change (expression n d (spaced ts ++ rest) >>= _) = _
  rw [hvalue, bind_assoc]
  rfl

/-- A property with its key in brackets. -/
theorem readsProperty_computed (hk : ReadsExpression ts need index)
    (h : ReadsExpression ts' need' value) :
    ReadsProperty ([unit '['] :: ts ++ [unit ']'] :: [unit ':'] :: ts')
      (max (need + 1) (need' + 1)) (index, value) := by
  intro n d rest hrest hends hfuel
  simp only [List.length_cons, List.length_append] at hfuel
  obtain ⟨n, rfl⟩ : ∃ m, n = m + 1 := ⟨n - 1, by omega⟩
  have hkey := hk n d (unit ' ' :: unit ']' :: unit ' ' :: unit ':' :: (spaced ts' ++ rest))
    (isApart_space _) (endsExpression_close (by decide) _) (by omega)
  have hvalue := h n d rest hrest hends (by omega)
  have hskip : skip (spaced ([unit '['] :: ts ++ [unit ']'] :: [unit ':'] :: ts') ++ rest) =
      unit '[' :: (spaced ts ++ unit ' ' :: unit ']' :: unit ' ' :: unit ':' ::
        (spaced ts' ++ rest)) := by
    simp [skip_cons (u := unit '[') (by decide)]
  rw [property, hskip]
  simp only [beq_self_eq_true, if_true]
  rw [hkey, bind_assoc, ← enough_bind]
  refine bind_congr fun _ => ?_
  change (expression n d (spaced ts' ++ rest) >>= _) = _
  rw [hvalue, bind_assoc]
  rfl

theorem readsProperties_nil : ReadsProperties [] 0 [] := by
  intro n d rest hfuel
  obtain ⟨n, rfl⟩ : ∃ m, n = m + 1 := ⟨n - 1, by omega⟩
  have hskip : skip (spaced [] ++ unit ' ' :: unit '\x7d' :: rest) = unit '\x7d' :: rest := rfl
  rw [properties, hskip]
  simp only [startsWithUnit, beq_self_eq_true, if_true, enough_zero]

theorem property_skip (n d : Nat) (t : Text) : property n d (skip t) = property n d t := by
  cases n with
  | zero => rw [property, property]
  | succ n => rw [property, property, skip_skip]

theorem readsProperties_one {p : Expr × Expr}
    (first : ∃ u t more, ts = (u :: t) :: more ∧ opens u) (h : ReadsProperty ts need p) :
    ReadsProperties ts need [p] := by
  intro n d rest hfuel
  obtain ⟨n, rfl⟩ : ∃ m, n = m + 1 := ⟨n - 1, by omega⟩
  have hfirst := startsWithUnit_first '\x7d' (by simp) first
    (unit ' ' :: unit '\x7d' :: rest)
  have hproperty := h n d (unit ' ' :: unit '\x7d' :: rest) (isApart_space _)
    (endsExpression_close (by decide) rest) (by omega)
  rw [properties]
  simp only [hfirst, Bool.false_eq_true, if_false, property_skip]
  rw [hproperty, bind_assoc]
  rfl

theorem readsProperties_cons {p : Expr × Expr} {ps : List (Expr × Expr)}
    (first : ∃ u t more, ts = (u :: t) :: more ∧ opens u) (h : ReadsProperty ts need p)
    (hps : ReadsProperties ts' need' ps) :
    ReadsProperties (ts ++ [unit ','] :: ts') (max need need') (p :: ps) := by
  intro n d rest hfuel
  simp only [List.length_append, List.length_cons] at hfuel
  obtain ⟨n, rfl⟩ : ∃ m, n = m + 1 := ⟨n - 1, by omega⟩
  have hsplit : spaced (ts ++ [unit ','] :: ts') ++ unit ' ' :: unit '\x7d' :: rest = spaced ts ++
      unit ' ' :: unit ',' :: (spaced ts' ++ unit ' ' :: unit '\x7d' :: rest) := by
    simp
  have hfirst := startsWithUnit_first '\x7d' (by simp) first
    (unit ' ' :: unit ',' :: (spaced ts' ++ unit ' ' :: unit '\x7d' :: rest))
  have hproperty := h n d
    (unit ' ' :: unit ',' :: (spaced ts' ++ unit ' ' :: unit '\x7d' :: rest))
    (isApart_space _) (endsExpression_close (by decide) _) (by omega)
  have hmore := hps n d rest (by omega)
  rw [properties, hsplit]
  simp only [hfirst, Bool.false_eq_true, if_false, property_skip]
  rw [hproperty, bind_assoc, ← enough_bind]
  refine bind_congr fun _ => ?_
  change (properties n d (spaced ts' ++ unit ' ' :: unit '\x7d' :: rest) >>= _) = _
  rw [hmore, bind_assoc]
  rfl

end

end Program

end PageTemplate
