import PageTemplate.Proofs.Expr.Tokens

/-!
# PageTemplate.Proofs.Expr.Levels

Reading level by level. That tokens are read as an expression is stated once for each level of the
reader, from members and calls up to whole expressions; each level follows from the tighter one when
no operator of the looser level comes next. Fuel is counted by tokens, and where expressions lie too
deep the outcome is known as well.
-/

namespace PageTemplate

namespace Program

/-- Nothing happens when what is needed is at hand; otherwise expressions lie too deep. -/
def enough (need nesting : Nat) : Except ParseFault Unit :=
  if need ≤ nesting then .ok () else .error .tooDeep

section

variable {α : Type}

@[simp] theorem enough_zero (d : Nat) (f : Except ParseFault α) :
    (enough 0 d >>= fun _ => f) = f := by
  rw [enough, if_pos (Nat.zero_le d)]
  rfl

theorem enough_bind (a b d : Nat) (f : Except ParseFault α) :
    (enough a d >>= fun _ => enough b d >>= fun _ => f) = enough (max a b) d >>= fun _ => f := by
  unfold enough
  by_cases ha : a ≤ d
  · by_cases hb : b ≤ d
    · rw [if_pos ha, if_pos hb, if_pos (Nat.max_le.2 ⟨ha, hb⟩)]
      rfl
    · rw [if_pos ha, if_neg hb, if_neg (fun h => hb (Nat.max_le.1 h).2)]
      rfl
  · rw [if_neg ha, if_neg (fun h => ha (Nat.max_le.1 h).1)]
    rfl

theorem enough_succ (a d : Nat) : enough (a + 1) (d + 1) = enough a d := by
  simp only [enough, Nat.add_le_add_iff_right]

end

/-- Whether no member, no call and no operator of the given levels goes on behind an operand. -/
def endsOperand (levels : List (List BinaryOp)) (rest : Text) : Bool :=
  !startsWithUnit '.' (skip rest) && !startsWithUnit '[' (skip rest) &&
    !startsWithUnit '(' (skip rest) && levels.all fun ops => (operator? ops (skip rest)).isNone

/-- Whether a whole expression ends before a text. -/
def endsExpression (rest : Text) : Bool :=
  endsOperand operatorLevels rest && (afterQuestion? (skip rest)).isNone &&
    (afterAssignment? (skip rest)).isNone

theorem endsOperand_suffix {levels stronger : List (List BinaryOp)} {rest : Text}
    (h : endsOperand levels rest) (hs : ∀ ops ∈ stronger, ops ∈ levels) :
    endsOperand stronger rest := by
  simp only [endsOperand, Bool.and_eq_true, List.all_eq_true] at h ⊢
  exact ⟨h.1, fun ops hops => h.2 ops (hs ops hops)⟩

section

variable (tokens : List Text) (need : Nat) (e : Expr)

/-- The tokens are read as an operand that members and calls may follow. -/
def ReadsPostfix : Prop :=
  (∀ rest, IsApart rest → unaryOperator? (skip (spaced tokens ++ rest)) = none) ∧
  ∀ n d rest, IsApart rest → 16 * tokens.length ≤ n + 11 →
    ∃ m, n ≤ m + tokens.length ∧
      (primary n d (spaced tokens ++ rest) >>= fun (object, rest) => postfixes n d object rest) =
        enough need d >>= fun _ => postfixes m d e rest

/-- The tokens are read as an operand with the unary operators before it. -/
def ReadsUnary : Prop :=
  ∀ n d rest, IsApart rest → endsOperand [] rest → 16 * tokens.length ≤ n + 10 →
    unary n d (spaced tokens ++ rest) = enough need d >>= fun _ => .ok (e, skip rest)

/-- The tokens are read as operands joined by operators of the given levels. -/
def ReadsBinary (levels : List (List BinaryOp)) : Prop :=
  ∀ n d rest, IsApart rest → endsOperand levels rest → 16 * tokens.length + levels.length ≤ n + 9 →
    binary n d levels (spaced tokens ++ rest) = enough need d >>= fun _ => .ok (e, skip rest)

/-- The tokens are read as what further operands of a level may be joined to. -/
def ReadsChain (ops : List BinaryOp) (stronger : List (List BinaryOp)) : Prop :=
  ∀ n d rest, IsApart rest → endsOperand stronger rest →
    16 * tokens.length + stronger.length ≤ n + 8 →
    ∃ m, n ≤ m + tokens.length ∧
      binary n d (ops :: stronger) (spaced tokens ++ rest) =
        enough need d >>= fun _ => climb m d ops stronger e rest

/-- The tokens are read as an expression. -/
def ReadsExpression : Prop :=
  ∀ n d rest, IsApart rest → endsExpression rest → 16 * tokens.length ≤ n →
    expression n d (spaced tokens ++ rest) = enough (need + 1) d >>= fun _ => .ok (e, skip rest)

end

section

variable {tokens : List Text} {need : Nat} {e : Expr}

theorem primary_skip (n d : Nat) (t : Text) : primary n d (skip t) = primary n d t := by
  cases n with
  | zero => rw [primary, primary]
  | succ n => rw [primary, primary, skip_skip]

theorem climb_skip (n d : Nat) (ops : List BinaryOp) (stronger : List (List BinaryOp)) (e : Expr)
    (t : Text) : climb n d ops stronger e (skip t) = climb n d ops stronger e t := by
  cases n with
  | zero => rw [climb, climb]
  | succ n => rw [climb, climb, skip_skip]

theorem unary_skip (n d : Nat) (t : Text) : unary n d (skip t) = unary n d t := by
  cases n with
  | zero => rw [unary, unary]
  | succ n => rw [unary, unary, skip_skip]

theorem binary_skip (n d : Nat) (levels : List (List BinaryOp)) (t : Text) :
    binary n d levels (skip t) = binary n d levels t := by
  induction levels generalizing n with
  | nil =>
    cases n with
    | zero => rw [binary, binary]
    | succ n => rw [binary, binary, unary_skip]
  | cons ops stronger ih =>
    cases n with
    | zero => rw [binary, binary]
    | succ n => rw [binary, binary, ih]

/-- White space before an expression does not count. -/
theorem expression_skip (n d : Nat) (t : Text) : expression n d (skip t) = expression n d t := by
  have hternary : ∀ n d, ternary n d (skip t) = ternary n d t := by
    intro n d
    cases n with
    | zero => rw [ternary, ternary]
    | succ n => rw [ternary, ternary, binary_skip]
  rw [expression.eq_def, expression.eq_def n d t]
  simp only [hternary]

/-- Nothing is joined to an operand that ends. -/
theorem postfixes_end {n d : Nat} {rest : Text} (hn : 0 < n) (h : endsOperand [] rest) :
    postfixes n d e rest = .ok (e, skip rest) := by
  obtain ⟨n, rfl⟩ : ∃ m, n = m + 1 := ⟨n - 1, by omega⟩
  simp only [endsOperand, Bool.and_eq_true, Bool.not_eq_true'] at h
  obtain ⟨⟨⟨hpoint, hbracket⟩, hparenthesis⟩, -⟩ := h
  rw [postfixes]
  cases hskip : skip rest with
  | nil => rfl
  | cons u t =>
    rw [hskip] at hpoint hbracket hparenthesis
    simp only [startsWithUnit] at hpoint hbracket hparenthesis
    simp only [hpoint, hbracket, hparenthesis]
    rfl

theorem climb_end {n d : Nat} {ops : List BinaryOp} {stronger : List (List BinaryOp)} {rest : Text}
    (hn : 0 < n) (h : operator? ops (skip rest) = none) :
    climb n d ops stronger e rest = .ok (e, skip rest) := by
  obtain ⟨n, rfl⟩ : ∃ m, n = m + 1 := ⟨n - 1, by omega⟩
  rw [climb]
  simp only [h]

theorem ReadsPostfix.unary (h : ReadsPostfix tokens need e) (hpos : 0 < tokens.length) :
    ReadsUnary tokens need e := by
  intro n d rest hrest hends hfuel
  obtain ⟨n, rfl⟩ : ∃ m, n = m + 1 := ⟨n - 1, by omega⟩
  obtain ⟨m, hm, hread⟩ := h.2 n d rest hrest (by omega)
  rw [Program.unary]
  simp only [h.1 rest hrest, primary_skip]
  rw [hread, postfixes_end (by omega) hends]

theorem ReadsUnary.binary (h : ReadsUnary tokens need e) (hpos : 0 < tokens.length) :
    ReadsBinary tokens need e [] := by
  intro n d rest hrest hends hfuel
  rw [List.length_nil] at hfuel
  obtain ⟨n, rfl⟩ : ∃ m, n = m + 1 := ⟨n - 1, by omega⟩
  rw [Program.binary]
  exact h n d rest hrest hends (by omega)

theorem ReadsBinary.chain {stronger : List (List BinaryOp)}
    (h : ReadsBinary tokens need e stronger) (hpos : 0 < tokens.length) (ops : List BinaryOp) :
    ReadsChain tokens need e ops stronger := by
  intro n d rest hrest hends hfuel
  obtain ⟨n, rfl⟩ : ∃ m, n = m + 1 := ⟨n - 1, by omega⟩
  refine ⟨n, by omega, ?_⟩
  rw [Program.binary, h n d rest hrest hends (by omega), bind_assoc]
  refine bind_congr fun _ => ?_
  exact climb_skip n d ops stronger e rest

theorem ReadsChain.binary {ops : List BinaryOp} {stronger : List (List BinaryOp)}
    (h : ReadsChain tokens need e ops stronger) (hpos : 0 < tokens.length) :
    ReadsBinary tokens need e (ops :: stronger) := by
  intro n d rest hrest hends hfuel
  rw [List.length_cons] at hfuel
  have hstronger := endsOperand_suffix hends fun _ => List.mem_cons_of_mem ops
  have hnone : operator? ops (skip rest) = none := by
    simp only [endsOperand, Bool.and_eq_true, List.all_cons, Option.isNone_iff_eq_none] at hends
    exact hends.2.1
  obtain ⟨m, hm, hread⟩ := h n d rest hrest hstronger (by omega)
  rw [hread, climb_end (by omega) hnone]

/-- An operand of a tighter level is one of every looser level. -/
theorem ReadsBinary.append {stronger : List (List BinaryOp)}
    (h : ReadsBinary tokens need e stronger) (hpos : 0 < tokens.length)
    (weaker : List (List BinaryOp)) : ReadsBinary tokens need e (weaker ++ stronger) := by
  induction weaker with
  | nil => exact h
  | cons ops weaker ih => exact (ih.chain hpos ops).binary hpos

theorem ReadsBinary.ternary (h : ReadsBinary tokens need e operatorLevels) (n d : Nat) (rest : Text)
    (hrest : IsApart rest) (hends : endsOperand operatorLevels rest)
    (hquestion : afterQuestion? (skip rest) = none) (hpos : 0 < tokens.length)
    (hfuel : 16 * tokens.length ≤ n + 1) :
    ternary n d (spaced tokens ++ rest) = enough need d >>= fun _ => .ok (e, skip rest) := by
  obtain ⟨n, rfl⟩ : ∃ m, n = m + 1 := ⟨n - 1, by omega⟩
  have hlevels : operatorLevels.length = 7 := rfl
  rw [Program.ternary, h n d rest hrest hends (by omega), bind_assoc]
  refine bind_congr fun _ => ?_
  dsimp only [bind, Except.bind]
  rw [skip_skip, hquestion]
  rfl

theorem ReadsBinary.expression (h : ReadsBinary tokens need e operatorLevels)
    (hpos : 0 < tokens.length) : ReadsExpression tokens need e := by
  intro n d rest hrest hends hfuel
  obtain ⟨n, rfl⟩ : ∃ m, n = m + 1 := ⟨n - 1, by omega⟩
  simp only [endsExpression, Bool.and_eq_true, Option.isNone_iff_eq_none] at hends
  obtain ⟨⟨hoperand, hquestion⟩, hassignment⟩ := hends
  cases d with
  | zero =>
    rw [Program.expression.eq_def]
    rfl
  | succ d =>
    rw [Program.expression, h.ternary _ _ rest hrest hoperand hquestion hpos (by omega), enough_succ,
      bind_assoc]
    refine bind_congr fun _ => ?_
    dsimp only [bind, Except.bind]
    rw [skip_skip, hassignment]
    rfl

theorem endsExpression_close {u : CodeUnit} (h : u ∈ [')', ']', '\x7d', ',', ':', ';'].map unit)
    (rest : Text) : endsExpression (unit ' ' :: u :: rest) := by
  simp only [List.map_cons, List.map_nil, List.mem_cons, List.not_mem_nil, or_false] at h
  rcases h with rfl | rfl | rfl | rfl | rfl | rfl <;> rfl

/-- An expression in parentheses is an operand. -/
theorem ReadsExpression.parentheses (h : ReadsExpression tokens need e) :
    ReadsPostfix ([unit '('] :: tokens ++ [[unit ')']]) (need + 1) e := by
  refine ⟨fun rest hrest => rfl, ?_⟩
  intro n d rest hrest hfuel
  simp only [List.length_append, List.length_cons, List.length_nil] at hfuel
  obtain ⟨n, rfl⟩ : ∃ m, n = m + 1 := ⟨n - 1, by omega⟩
  refine ⟨n + 1, by omega, ?_⟩
  have hread := h n d (unit ' ' :: unit ')' :: rest) (isApart_space _)
    (endsExpression_close (by decide) rest) (by omega)
  have hprimary : primary (n + 1) d (spaced ([unit '('] :: tokens ++ [[unit ')']]) ++ rest) =
      enough (need + 1) d >>= fun _ => .ok (e, rest) := by
    have hskip : skip (spaced ([unit '('] :: tokens ++ [[unit ')']]) ++ rest) =
        unit '(' :: (spaced tokens ++ unit ' ' :: unit ')' :: rest) := by
      simp [skip_cons (u := unit '(') (by decide)]
    rw [primary, hskip]
    simp only [beq_self_eq_true, if_true]
    rw [hread, bind_assoc]
    rfl
  rw [hprimary, bind_assoc]
  rfl

end

end Program

end PageTemplate
