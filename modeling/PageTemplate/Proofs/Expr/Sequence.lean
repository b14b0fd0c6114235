import PageTemplate.Expr.Evaluate
import PageTemplate.Proofs.Expr.Extension
import PageTemplate.Proofs.Expr.RoundTrip
import PageTemplate.Proofs.Run

/-!
# PageTemplate.Proofs.Expr.Sequence

Programs one after the other. The text of a program matters to its evaluation in one place only:
rejected expressions are quoted. So two programs with a semicolon between them do what the first
one does and then, unless it fails, what the second one does.

Signs before operands. A plus or minus sign makes a number of any operand that has no digit right
behind the sign. A digit right behind a minus sign makes a negative number of both; behind a plus
sign it is no expression at all.
-/

namespace PageTemplate

/-- A fault apart from the expression that it quotes. -/
def Fault.unquoted : Fault → Fault
  | .evaluation _ reason => .evaluation [] reason
  | f => f

/-- What an action comes to, apart from the expression that is quoted where it fails. -/
def unquoted {α : Type} (r : Except Fault α × World) : Except Fault α × World :=
  (r.1.mapError Fault.unquoted, r.2)

/-- Two actions that come to the same everywhere, apart from what is quoted. -/
def Alike (env : Env) {α : Type} (x y : M α) : Prop :=
  ∀ w, unquoted (M.run' env w x) = unquoted (M.run' env w y)

variable {env : Env}

namespace Alike

variable {α β : Type}

theorem refl (x : M α) : Alike env x x := fun _ => rfl

theorem bind {x y : M α} {f g : α → M β} (h : Alike env x y) (hf : ∀ a, Alike env (f a) (g a)) :
    Alike env (x >>= f) (y >>= g) := by
  intro w
  have hw := h w
  rw [M.run'_bind, M.run'_bind]
  rcases hx : M.run' env w x with ⟨e | a, w₁⟩ <;> rcases hy : M.run' env w y with ⟨e' | a', w₂⟩
  all_goals rw [hx, hy] at hw
  · -- Both fail; what would follow is not reached.
    obtain ⟨he, rfl⟩ := Prod.mk.inj hw
    exact Prod.ext (congrArg Except.error (Except.error.inj he)) rfl
  · cases (Prod.mk.inj hw).1
  · cases (Prod.mk.inj hw).1
  · obtain ⟨ha, rfl⟩ := Prod.mk.inj hw
    cases Except.ok.inj ha
    exact hf a w₁

/-- The same continuation of actions that are alike. -/
theorem bind_left {x y : M α} (h : Alike env x y) (f : α → M β) : Alike env (x >>= f) (y >>= f) :=
  h.bind fun a => .refl (f a)

theorem bind_right (x : M α) {f g : α → M β} (hf : ∀ a, Alike env (f a) (g a)) :
    Alike env (x >>= f) (x >>= g) :=
  (refl x).bind hf

/-- Where one of two such actions succeeds, the other one does the same. -/
theorem run'_eq {x y : M α} (h : Alike env x y) {w w' : World} {a : α}
    (hx : M.run' env w x = (.ok a, w')) : M.run' env w y = (.ok a, w') := by
  have hw := h w
  rw [hx] at hw
  rcases hy : M.run' env w y with ⟨e | b, w₂⟩
  all_goals rw [hy] at hw
  · cases (Prod.mk.inj hw).1
  · obtain ⟨ha, rfl⟩ := Prod.mk.inj hw
    cases Except.ok.inj ha
    rfl

theorem ite {p : Prop} [Decidable p] {x y x' y' : M α} (h : Alike env x y) (h' : Alike env x' y') :
    Alike env (if p then x else x') (if p then y else y') := by
  split
  · exact h
  · exact h'

end Alike

namespace Expr

variable (a b : Text) (c : ScopeId)

theorem alike_reject {α : Type} (reason : Text) :
    Alike env (Site.reject ⟨a, c⟩ reason : M α) (Site.reject ⟨b, c⟩ reason) := fun _ => rfl

theorem alike_keyText (v : Value) : Alike env (keyText ⟨a, c⟩ v) (keyText ⟨b, c⟩ v) := by
  unfold keyText
  cases v
  case symbol => exact alike_reject a b c _
  all_goals exact .refl _

theorem alike_isWithin (key container : Value) :
    Alike env (isWithin ⟨a, c⟩ key container) (isWithin ⟨b, c⟩ key container) := by
  unfold isWithin
  cases container
  case object id =>
    exact .bind_right _ fun name => .ite (.bind_left (alike_reject a b c _) _) (.refl _)
  all_goals exact alike_reject a b c _

theorem alike_applyBinary (op : BinaryOp) (v w : Value) :
    Alike env (applyBinary ⟨a, c⟩ op v w) (applyBinary ⟨b, c⟩ op v w) := by
  unfold applyBinary
  cases op
  case within => exact alike_isWithin a b c v w
  all_goals exact .refl _

theorem alike_writeMember (object : Value) (key : Text) (value : Value) :
    Alike env (writeMember ⟨a, c⟩ object key value) (writeMember ⟨b, c⟩ object key value) := by
  unfold writeMember
  cases object
  case object id =>
    have hreject : Alike env (Site.reject ⟨a, c⟩ ("cannot set " ++ inQuotes key) : M Unit)
        (Site.reject ⟨b, c⟩ ("cannot set " ++ inQuotes key)) := alike_reject a b c _
    have hother : ∀ set : M Bool, Alike env
        (do if !(← set) then Site.reject ⟨a, c⟩ ("cannot set " ++ inQuotes key))
        (do if !(← set) then Site.reject ⟨b, c⟩ ("cannot set " ++ inQuotes key)) :=
      fun set => .bind_right set fun done => .ite hreject (.refl _)
    refine .ite (.bind_left (alike_reject a b c _) _) (.bind_right _ fun cell => ?_)
    cases cell
    case map | array | sparseArray => exact .refl _
    all_goals exact .bind_right _ fun isMap => .ite (.refl _) (hother _)
  all_goals exact alike_reject a b c _

theorem alike_writeName (name : Text) (value : Value) :
    Alike env (writeName ⟨a, c⟩ name value) (writeName ⟨b, c⟩ name value) := by
  unfold writeName
  exact .ite (.bind_left (alike_reject a b c _) _) (.refl _)

theorem alike_method? (receiver : Value) (key : Text) :
    Alike env (method? ⟨a, c⟩ receiver key) (method? ⟨b, c⟩ receiver key) := by
  unfold method?
  exact .ite (.bind_right _ fun t => .bind_left (alike_reject a b c _) _) (.refl _)

theorem alike_callee (f : Value) (label : Text) :
    Alike env (callee ⟨a, c⟩ f label) (callee ⟨b, c⟩ f label) := by
  unfold callee
  cases f
  case function => exact .refl _
  all_goals exact alike_reject a b c _

variable {a b c}

/-- The call of a function with arguments that are evaluated alike. -/
theorem alike_call {arguments : List Expr}
    (h : Alike env (evaluateAll ⟨a, c⟩ arguments) (evaluateAll ⟨b, c⟩ arguments)) (f : Value)
    (label : Text) (receiver : Value) :
    Alike env
      (do
        let f ← callee ⟨a, c⟩ f label
        M.call f receiver (← evaluateAll ⟨a, c⟩ arguments))
      (do
        let f ← callee ⟨b, c⟩ f label
        M.call f receiver (← evaluateAll ⟨b, c⟩ arguments)) :=
  (alike_callee a b c f label).bind fun _ => h.bind_left _

variable (a b c)

set_option linter.unusedSectionVars false in
mutual

/-- An expression is evaluated alike wherever it was read from. -/
theorem alike_evaluate (e : Expr) : Alike env (evaluate ⟨a, c⟩ e) (evaluate ⟨b, c⟩ e) := by
  cases e with
  | literal l =>
    unfold evaluate
    exact .refl _
  | name n =>
    unfold evaluate
    exact .refl _
  | member holder property =>
    unfold evaluate
    refine (alike_evaluate holder).bind fun o => .ite (.refl _) ?_
    exact (alike_evaluate property).bind fun v => (alike_keyText a b c v).bind_left _
  | call f arguments =>
    have hcall := alike_call (alike_evaluateAll arguments)
    cases f with
    | member holder property =>
      unfold evaluate
      refine (alike_evaluate holder).bind fun receiver => (alike_evaluate property).bind fun v =>
        (alike_keyText a b c v).bind fun key =>
          (alike_method? a b c receiver key).bind fun method => ?_
      cases method with
      | none => exact .refl _
      | some f => exact hcall f key receiver
    | _ =>
      unfold evaluate
      exact (alike_evaluate _).bind fun f => hcall f _ .undefined
  | unary op operand =>
    unfold evaluate
    exact (alike_evaluate operand).bind_left _
  | binary op left right =>
    unfold evaluate
    refine (alike_evaluate left).bind fun v => .bind_right _ fun settled => ?_
    exact .ite (.refl _) ((alike_evaluate right).bind fun w => alike_applyBinary a b c op v w)
  | ternary condition consequent alternate =>
    unfold evaluate
    refine (alike_evaluate condition).bind fun v => .bind_right _ fun holds => ?_
    exact .ite (alike_evaluate consequent) (alike_evaluate alternate)
  | array elements =>
    unfold evaluate
    exact (alike_evaluateAll elements).bind_left _
  | object properties =>
    unfold evaluate
    exact (alike_evaluateProperties properties).bind_left _
  | assignName n value =>
    unfold evaluate
    exact (alike_evaluate value).bind fun v => (alike_writeName a b c n v).bind_left _
  | assignMember holder property value =>
    unfold evaluate
    exact (alike_evaluate value).bind fun v => (alike_evaluate holder).bind fun o =>
      (alike_evaluate property).bind fun k => (alike_keyText a b c k).bind fun key =>
        (alike_writeMember a b c o key v).bind_left _

theorem alike_evaluateAll (es : List Expr) :
    Alike env (evaluateAll ⟨a, c⟩ es) (evaluateAll ⟨b, c⟩ es) := by
  cases es with
  | nil =>
    unfold evaluateAll
    exact .refl _
  | cons e es =>
    unfold evaluateAll
    exact (alike_evaluate e).bind fun v => (alike_evaluateAll es).bind_left _

theorem alike_evaluateProperties (properties : List (Expr × Expr)) :
    Alike env (evaluateProperties ⟨a, c⟩ properties) (evaluateProperties ⟨b, c⟩ properties) := by
  cases properties with
  | nil =>
    unfold evaluateProperties
    exact .refl _
  | cons p rest =>
    obtain ⟨key, value⟩ := p
    have hrest := alike_evaluateProperties rest
    unfold evaluateProperties
    refine (alike_evaluate key).bind fun k => (alike_keyText a b c k).bind fun name => ?_
    refine .ite (.bind_right _ fun _ => hrest) ?_
    exact (alike_evaluate value).bind fun v => hrest.bind_left _

end

end Expr

namespace Program

variable {a b : Text} {p q : Program}

theorem alike_run (a b : Text) (c : ScopeId) (p : Program) :
    Alike env (run ⟨a, c⟩ p) (run ⟨b, c⟩ p) := by
  induction p with
  | nil => exact .refl _
  | cons e es ih =>
    have he : Alike env _ _ := Expr.alike_evaluate a b c e
    cases es with
    | nil => exact he
    | cons e' es => exact he.bind fun _ => ih

/-- Statements in front of others: their value is dropped. -/
theorem run_append (s : Expr.Site) (p : Program) (hq : q ≠ []) :
    run s (p ++ q) = run s p >>= fun _ => run s q := by
  induction p with
  | nil => rw [run, List.nil_append, pure_bind]
  | cons e es ih =>
    cases es with
    | nil =>
      obtain ⟨e', q, rfl⟩ := List.exists_cons_of_ne_nil hq
      rfl
    | cons e' es =>
      change (e.evaluate s >>= fun _ => run s (e' :: es ++ q)) =
        (e.evaluate s >>= fun _ => run s (e' :: es)) >>= fun _ => run s q
      rw [ih, bind_assoc]

/-- Programs compose. Put behind one another with a semicolon between them, the texts of two
programs are read as the statements of both; when there are statements in the second, evaluating
them comes to what evaluating the first text and, unless it fails, the second one comes to,
wherever this is done: to the same value or the same fault, apart from the expression it quotes,
and to the same store. -/
theorem evaluateText_join (ha : parse a = .ok p) (hb : parse b = .ok q) (hq : q ≠ []) :
    parse (a ++ ";" ++ b) = .ok (p ++ q) ∧
      ∀ (env : Env) (c : ScopeId) (w : World),
        unquoted (M.run' env w (evaluateText c (a ++ ";" ++ b))) =
          unquoted (M.run' env w (evaluateText c a >>= fun _ => evaluateText c b)) := by
  have hread : parse (a ++ ";" ++ b) = .ok (p ++ q) := by
    rw [List.append_assoc]
    exact parse_append ha hb
  refine ⟨hread, fun env c w => ?_⟩
  simp only [evaluateText, hread, ha, hb]
  rw [run_append _ p hq]
  exact (alike_run _ a c p).bind (fun _ => alike_run _ b c q) w

/-- An assignment, and the name that it binds. -/
theorem evaluateText_join_sample :
    ∃ e : Expr, parse "x = \"a\"" = .ok [e] ∧ parse "x" = .ok [.name "x"] ∧
      parse "x = \"a\";x" = .ok [e, .name "x"] ∧
      unquoted (M.run' Env.silent World.blank (evaluateText 0 "x = \"a\";x")) =
        unquoted (M.run' Env.silent World.blank
          (evaluateText 0 "x = \"a\"" >>= fun _ => evaluateText 0 "x")) := by
  have hx : Expr.IsName "x" :=
    ⟨⟨_, _, rfl, by decide, List.all_eq_true.1 rfl⟩, by decide, by decide⟩
  have read : ∀ e : Expr, e.IsPrintable → e.nesting ≤ maxNesting → parse (print [e]) = .ok [e] := by
    intro e he hnesting
    have hdepth : Expr.itemDepth [e] ≤ maxNesting := itemDepth_le_iff.2 (by simpa using hnesting)
    rw [parse_print_eq (by simpa using he), enough, if_pos hdepth]
    rfl
  have ha := read (.assignName "x" (.literal (.text "a"))) ⟨hx, trivial⟩ (by decide)
  have hb := read (.name "x") hx (by decide)
  have hjoin := evaluateText_join ha hb (by simp)
  exact ⟨_, ha, hb, hjoin.1, hjoin.2 Env.silent 0 World.blank⟩

end Program

/-! Signs before operands. -/

namespace Program

open CodeUnit

/-- The steps that are left for an operand when the reader comes to it in a text. -/
def operandFuel (t : Text) : Nat := fuelFor t.length - 10

/-- A source that is a single operand, with the unary operators before it. -/
def IsOperandSource (u : Text) (e : Expr) : Prop :=
  ∃ rest, unary (operandFuel u.trim) (maxNesting - 1) u.trim = .ok (e, rest) ∧ skip rest = []

section Alone

variable {n d : Nat} {t rest : Text} {e : Expr}

theorem operator?_nil (ops : List BinaryOp) : operator? ops [] = none := by
  rw [operator?, List.findSome?_eq_none_iff]
  intro op _
  cases op <;> rfl

/-- An operand that ends a text is all that is read on the levels of binary operators. -/
theorem binary_alone (h : unary n d t = .ok (e, rest)) (hrest : skip rest = [])
    (levels : List (List BinaryOp)) :
    ∃ rest', binary (n + levels.length + 1) d levels t = .ok (e, rest') ∧ skip rest' = [] := by
  induction levels with
  | nil => exact ⟨rest, by rw [List.length_nil, binary]; exact h, hrest⟩
  | cons ops stronger ih =>
    obtain ⟨rest', hread, hrest'⟩ := ih
    refine ⟨[], ?_, rfl⟩
    rw [binary, List.length_cons, ← Nat.add_assoc, hread]
    change climb _ d ops stronger e rest' = _
    rw [climb_end (by omega) (by rw [hrest']; exact operator?_nil ops), hrest']

theorem expression_alone (h : unary n d t = .ok (e, rest)) (hrest : skip rest = []) :
    expression (n + 10) (d + 1) t = .ok (e, []) := by
  obtain ⟨rest', hread, hrest'⟩ := binary_alone h hrest operatorLevels
  have hternary : ternary (n + 9) d t = .ok (e, []) := by
    rw [ternary, show n + 8 = n + operatorLevels.length + 1 from rfl, hread]
    simp only [bind, Except.bind, hrest']
    rfl
  rw [expression, hternary]
  rfl

/-- When there is no operand, there is no expression. -/
theorem expression_error {f : ParseFault} (h : unary n d t = .error f) :
    expression (n + 10) (d + 1) t = .error f := by
  have hbinary : ∀ levels, binary (n + levels.length + 1) d levels t = .error f := by
    intro levels
    induction levels with
    | nil => rw [List.length_nil, binary]; exact h
    | cons ops stronger ih =>
      rw [binary, List.length_cons, ← Nat.add_assoc, ih]
      rfl
  have hternary : ternary (n + 9) d t = .error f := by
    rw [ternary, show n + 8 = n + operatorLevels.length + 1 from rfl, hbinary]
    rfl
  rw [expression, hternary]
  rfl

theorem operandFuel_add (t : Text) : operandFuel t + 10 = fuelFor t.length := by
  rw [operandFuel, fuelFor]
  omega

theorem skipSeparators_cons {u : CodeUnit} (h : isSeparator u = false) (t : Text) :
    skipSeparators (u :: t) = u :: t :=
  List.dropWhile_cons_of_neg (by rw [isSeparator] at h; simp [h])

/-- A text that begins with an expression is no longer than it. -/
theorem statements_alone {u : CodeUnit} (hu : isSeparator u = false)
    (h : unary (operandFuel (u :: t)) (maxNesting - 1) (u :: t) = .ok (e, rest))
    (hrest : skip rest = []) (n : Nat) : statements (n + 1) (u :: t) = .ok [e] := by
  have hfirst := skipSeparators_cons hu t
  have hread := expression_alone h hrest
  rw [operandFuel_add] at hread
  have hne : skipSeparators (u :: t) ≠ [] := by
    rw [hfirst]
    exact List.cons_ne_nil u t
  exact (statements_eq_ok hne).2 ⟨e, [], by rw [hfirst]; exact hread, .inl ⟨rfl, rfl⟩⟩

/-- No operand is at the end of a text or begins with a semicolon. -/
theorem unary_of_end (ht : t = [] ∨ ∃ s, t = unit ';' :: s) (n d : Nat) :
    ∃ f, unary n d t = .error f := by
  have hskip : skip t = t := by
    rcases ht with rfl | ⟨s, rfl⟩
    · rfl
    · exact skip_cons (by decide) s
  cases n with
  | zero => exact ⟨.outOfFuel, by rw [unary]⟩
  | succ n =>
    have hprimary : ∃ f, primary n d t = .error f := by
      cases n with
      | zero => exact ⟨.outOfFuel, by rw [primary]⟩
      | succ n =>
        rw [primary, hskip]
        rcases ht with rfl | ⟨s, rfl⟩ <;> exact ⟨_, rfl⟩
    obtain ⟨f, hf⟩ := hprimary
    have hnone : unaryOperator? t = none := by
      rcases ht with rfl | ⟨s, rfl⟩ <;> rfl
    refine ⟨f, ?_⟩
    rw [unary, hskip, hnone]
    dsimp only
    rw [hf]
    rfl

end Alone

section Signs

variable {u w : Text} {e : Expr} {sign : CodeUnit} {op : UnaryOp}

/-- A sign and what it does with an operand. -/
inductive IsSign : CodeUnit → UnaryOp → Prop where
  | plus : IsSign (unit '+') .toNumber
  | minus : IsSign (unit '-') .negate

theorem IsSign.not_separator (h : IsSign sign op) : isSeparator sign = false := by
  cases h <;> decide

/-- A sign is an operator unless a digit is right behind it. -/
theorem IsSign.unaryOperator? (h : IsSign sign op) {t : Text}
    (ht : t.head?.any isDigit = false) : unaryOperator? (sign :: t) = some (op, t) := by
  cases h with
  | plus =>
    have hnot : (unit '+' == unit '!') = false := by decide
    have hminus : (unit '+' == unit '-') = false := by decide
    simp [Program.unaryOperator?, ht, hnot, hminus]
  | minus =>
    have hnot : (unit '-' == unit '!') = false := by decide
    simp [Program.unaryOperator?, ht, hnot]

/-- White space at the end of a text does not count behind a sign. -/
theorem trim_sign (hsign : isSeparator sign = false) (t : Text) :
    Text.trim (sign :: t) = sign :: t.trimEnd := by
  rw [isSeparator, Bool.or_eq_false_iff] at hsign
  rw [Text.trim, Text.trimStart_cons hsign.1, Text.trimEnd_cons hsign.1]

theorem head?_trimEnd {t : Text} (h : t.head?.any isDigit = false) :
    t.trimEnd.head?.any isDigit = false := by
  obtain ⟨w, -, hsplit⟩ := Text.exists_blanks t
  cases hend : t.trimEnd with
  | nil => rfl
  | cons c more =>
    rw [hsplit, hend] at h
    exact h

/-- A trimmed text does not begin with white space. -/
theorem not_isBlank_of_trim {c : CodeUnit} {t : Text} (h : u.trim = c :: t) :
    isBlank c = false := by
  obtain ⟨w, -, hsplit⟩ := Text.exists_blanks (skip u)
  rw [show (skip u).trimEnd = c :: t from h] at hsplit
  exact not_isBlank_of_skip hsplit

/-- A source that is an operand is a program of one statement. -/
theorem IsOperandSource.parse (h : IsOperandSource u e) : parse u = .ok [e] := by
  obtain ⟨rest, hread, hrest⟩ := h
  rw [Program.parse]
  cases ht : u.trim with
  | nil =>
    obtain ⟨f, hf⟩ := unary_of_end (.inl ht) (operandFuel u.trim) (maxNesting - 1)
    cases hf.symm.trans hread
  | cons c t =>
    have hsemicolon : (c == unit ';') = false := by
      rw [beq_eq_false_iff_ne]
      rintro rfl
      obtain ⟨f, hf⟩ := unary_of_end (.inr ⟨t, ht⟩) (operandFuel u.trim) (maxNesting - 1)
      cases hf.symm.trans hread
    rw [ht] at hread
    refine statements_alone ?_ hread hrest _
    rw [isSeparator, not_isBlank_of_trim ht, hsemicolon]
    rfl

/-- With a sign before it, and white space in between, an operand is an operand again, unless a
digit is right behind the sign. -/
theorem IsOperandSource.signed (h : IsOperandSource u e) (hsign : IsSign sign op)
    (hw : ∀ c ∈ w, isBlank c) (hdigit : (w ++ u).head?.any isDigit = false) :
    IsOperandSource (sign :: (w ++ u)) (.unary op e) := by
  obtain ⟨rest, hread, hrest⟩ := h
  obtain ⟨v, hv, htrim⟩ := exists_trimEnd_eq (w ++ u)
  have hsame : (w ++ u).trim = u.trim := by
    rw [Text.trim, Text.trimStart, List.dropWhile_append_of_pos hw]
    rfl
  have hfuel :
      operandFuel (sign :: (v ++ u.trim)) = 16 * v.length + 15 + operandFuel u.trim + 1 := by
    have := operandFuel_add u.trim
    have := operandFuel_add (sign :: (v ++ u.trim))
    simp only [fuelFor, List.length_cons, List.length_append] at *
    omega
  have hlater := (extends_of_quiet (x := []) (by intro c hc; cases hc) _).unary
    (16 * v.length + 15) ⟨[], rfl, (List.append_nil u.trim).symm⟩ _ hread
  obtain ⟨⟨_, rest'⟩, hread', rfl, hgoes⟩ := hlater
  have hrest' : skip rest' = [] := by
    rcases hgoes.skip_cases with ⟨c, r, -, hr, -, -⟩ | ⟨-, hr⟩
    · cases hrest.symm.trans hr
    · exact hr
  have hskip : skip (v ++ u.trim) = skip u.trim := List.dropWhile_append_of_pos hv
  rw [IsOperandSource, trim_sign hsign.not_separator, htrim, hsame, hfuel]
  refine ⟨rest', ?_, hrest'⟩
  have hhead : (v ++ u.trim).head?.any isDigit = false := by
    rw [← hsame, ← htrim]
    exact head?_trimEnd hdigit
  have hfirst : skip (sign :: (v ++ u.trim)) = sign :: (v ++ u.trim) := by
    have := hsign.not_separator
    rw [isSeparator, Bool.or_eq_false_iff] at this
    exact skip_cons this.1 _
  rw [unary, hfirst, hsign.unaryOperator? hhead]
  dsimp only
  rw [← unary_skip, hskip, unary_skip, hread']
  rfl

/-- A sign makes a number of its operand. When there is no digit right behind it, a sign in front of
an operand is read as the sign of the operand; and wherever the operand has a value, the sign makes
its number of it, for a minus sign the opposite one. -/
theorem evaluate_sign (h : IsOperandSource u e) (hsign : IsSign sign op)
    (hw : ∀ c ∈ w, isBlank c) (hdigit : (w ++ u).head?.any isDigit = false) :
    parse (sign :: (w ++ u)) = .ok [.unary op e] ∧
      ∀ (env : Env) (c : ScopeId) (v : Value) (s s' : World),
        M.run' env s (evaluateText c u) = (.ok v, s') →
        M.run' env s (evaluateText c (sign :: (w ++ u))) =
          M.run' env s' (Expr.applyUnary op v) := by
  have hread := (h.signed hsign hw hdigit).parse
  refine ⟨hread, fun env c v s s' hv => ?_⟩
  simp only [evaluateText, h.parse, run] at hv
  simp only [evaluateText, hread, run]
  rw [Expr.evaluate, M.run'_bind_ok ((Expr.alike_evaluate u _ c e).run'_eq hv)]

/-- A digit right behind a plus sign: no expression begins there. -/
theorem parse_plus_digit {c : CodeUnit} (hc : isDigit c) (t : Text) :
    parse (unit '+' :: c :: t) =
      .error (.unexpectedUnit (unit '+') (Text.trim (unit '+' :: c :: t)).length) := by
  have hblank := not_isBlank_of_isDigit hc
  have htrim : Text.trim (unit '+' :: c :: t) = unit '+' :: c :: t.trimEnd := by
    rw [trim_sign (by decide), Text.trimEnd_cons hblank]
  have hskip : skip (unit '+' :: c :: t.trimEnd) = unit '+' :: c :: t.trimEnd :=
    skip_cons (by decide) _
  have hunary : ∀ n d, unary (n + 2) d (unit '+' :: c :: t.trimEnd) =
      .error (.unexpectedUnit (unit '+') (unit '+' :: c :: t.trimEnd).length) := by
    intro n d
    have hnone : unaryOperator? (unit '+' :: c :: t.trimEnd) = none := by
      have hnot : (unit '+' == unit '!') = false := by decide
      have hminus : (unit '+' == unit '-') = false := by decide
      simp only [unaryOperator?, hnot, hminus, List.head?_cons, Option.any_some, hc]
      rfl
    rw [unary, hskip, hnone]
    dsimp only
    rw [primary, hskip]
    rfl
  obtain ⟨n, hn⟩ : ∃ n, fuelFor (unit '+' :: c :: t.trimEnd).length = n + 2 + 10 :=
    ⟨16 * t.trimEnd.length + 52, by simp only [fuelFor, List.length_cons]; omega⟩
  have hfirst := skipSeparators_cons (u := unit '+') (by decide) (c :: t.trimEnd)
  rw [parse, htrim, statements, hfirst, hn, show maxNesting = 49 + 1 from rfl,
    expression_error (hunary n 49)]
  rfl

end Signs

end Program

end PageTemplate
