import PageTemplate.Proofs.Expr.Nesting

/-!
# PageTemplate.Proofs.Expr.Limit

The limit of nesting and no more. With a lower limit the reader does what it does with a higher one,
or it says that expressions lie too deep. So every source that a reader with any higher limit takes
for a program with a path beyond the limit is rejected for its depth (`parse_eq_tooDeep`).
-/

namespace PageTemplate

namespace Program

/-- The one result is the other, unless a limit of nesting cuts the reading short. -/
def Cuts {α : Type} (r r' : Except ParseFault α) : Prop := r = r' ∨ r = .error .tooDeep

namespace Cuts

variable {α β : Type} {r r' : Except ParseFault α} {f f' : α → Except ParseFault β}

theorem refl (r : Except ParseFault α) : Cuts r r := .inl rfl

theorem bind (h : Cuts r r') (hf : ∀ a, Cuts (f a) (f' a)) : Cuts (r >>= f) (r' >>= f') := by
  rcases h with rfl | rfl
  · cases r with
    | error e => exact .refl _
    | ok a => exact hf a
  · exact .inr rfl

/-- What comes first is the same. -/
theorem after (r : Except ParseFault α) (hf : ∀ a, Cuts (f a) (f' a)) :
    Cuts (r >>= f) (r >>= f') :=
  (refl r).bind hf

end Cuts

/-- With `n` steps, the reader does the same where `k` more levels are left, unless it runs out of
levels. -/
structure Limits (k n : Nat) : Prop where
  expression : ∀ {d : Nat} {t : Text}, Cuts (expression n d t) (expression n (k + d) t)
  ternary : ∀ {d : Nat} {t : Text}, Cuts (ternary n d t) (ternary n (k + d) t)
  binary : ∀ {d : Nat} {levels : List (List BinaryOp)} {t : Text},
    Cuts (binary n d levels t) (binary n (k + d) levels t)
  climb : ∀ {d : Nat} {ops : List BinaryOp} {stronger : List (List BinaryOp)} {left : Expr}
    {t : Text}, Cuts (climb n d ops stronger left t) (climb n (k + d) ops stronger left t)
  unary : ∀ {d : Nat} {t : Text}, Cuts (unary n d t) (unary n (k + d) t)
  postfixes : ∀ {d : Nat} {object : Expr} {t : Text},
    Cuts (postfixes n d object t) (postfixes n (k + d) object t)
  items : ∀ {d : Nat} {close : Char} {t : Text},
    Cuts (items n d close t) (items n (k + d) close t)
  properties : ∀ {d : Nat} {t : Text}, Cuts (properties n d t) (properties n (k + d) t)
  property : ∀ {d : Nat} {t : Text}, Cuts (property n d t) (property n (k + d) t)
  primary : ∀ {d : Nat} {t : Text}, Cuts (primary n d t) (primary n (k + d) t)

section Steps

variable {k n d : Nat} {t : Text}

theorem limits_zero (k : Nat) : Limits k 0 where
  expression {_ _} := by rw [Program.expression, Program.expression]; exact .refl _
  ternary {_ _} := by rw [Program.ternary, Program.ternary]; exact .refl _
  binary {_ _ _} := by rw [Program.binary, Program.binary]; exact .refl _
  climb {_ _ _ _ _} := by rw [Program.climb, Program.climb]; exact .refl _
  unary {_ _} := by rw [Program.unary, Program.unary]; exact .refl _
  postfixes {_ _ _} := by rw [Program.postfixes, Program.postfixes]; exact .refl _
  items {_ _ _} := by rw [Program.items, Program.items]; exact .refl _
  properties {_ _} := by rw [Program.properties, Program.properties]; exact .refl _
  property {_ _} := by rw [Program.property, Program.property]; exact .refl _
  primary {_ _} := by rw [Program.primary, Program.primary]; exact .refl _

/-- The one place where the limit shows: no level is left for an expression. -/
theorem Limits.expression_succ (h : Limits k n) :
    Cuts (Program.expression (n + 1) d t) (Program.expression (n + 1) (k + d) t) := by
  cases d with
  | zero =>
    refine .inr ?_
    rw [Program.expression]
    simp
  | succ d =>
    rw [← Nat.add_assoc, Program.expression, Program.expression]
    refine h.ternary.bind fun target => ?_
    dsimp only
    cases afterAssignment? (skip target.2) with
    | none => exact .refl _
    | some rest =>
      dsimp only
      split
      · exact .refl _
      · exact h.expression.bind fun _ => .refl _

theorem Limits.ternary_succ (h : Limits k n) :
    Cuts (Program.ternary (n + 1) d t) (Program.ternary (n + 1) (k + d) t) := by
  rw [Program.ternary, Program.ternary]
  refine h.binary.bind fun condition => ?_
  dsimp only
  cases afterQuestion? (skip condition.2) with
  | none => exact .refl _
  | some rest =>
    refine h.expression.bind fun consequent => ?_
    cases skip consequent.2 with
    | nil => exact .refl _
    | cons u rest =>
      dsimp only
      split
      · exact .refl _
      · exact h.expression.bind fun _ => .refl _

theorem Limits.binary_succ (h : Limits k n) (levels : List (List BinaryOp)) :
    Cuts (Program.binary (n + 1) d levels t) (Program.binary (n + 1) (k + d) levels t) := by
  cases levels with
  | nil =>
    rw [Program.binary, Program.binary]
    exact h.unary
  | cons ops stronger =>
    rw [Program.binary, Program.binary]
    exact h.binary.bind fun _ => h.climb

theorem Limits.climb_succ (h : Limits k n) {ops : List BinaryOp}
    {stronger : List (List BinaryOp)} {left : Expr} :
    Cuts (Program.climb (n + 1) d ops stronger left t)
      (Program.climb (n + 1) (k + d) ops stronger left t) := by
  rw [Program.climb, Program.climb]
  dsimp only
  cases operator? ops (skip t) with
  | none => exact .refl _
  | some found => exact h.binary.bind fun _ => h.climb

theorem Limits.unary_succ (h : Limits k n) :
    Cuts (Program.unary (n + 1) d t) (Program.unary (n + 1) (k + d) t) := by
  rw [Program.unary, Program.unary]
  dsimp only
  cases unaryOperator? (skip t) with
  | none => exact h.primary.bind fun _ => h.postfixes
  | some found => exact h.unary.bind fun _ => .refl _

theorem Limits.postfixes_succ (h : Limits k n) {object : Expr} :
    Cuts (Program.postfixes (n + 1) d object t) (Program.postfixes (n + 1) (k + d) object t) := by
  rw [Program.postfixes, Program.postfixes]
  dsimp only
  cases skip t with
  | nil => exact .refl _
  | cons u rest =>
    dsimp only
    split
    · cases identifier? (skip rest) with
      | none => exact .refl _
      | some found => exact h.postfixes
    split
    · exact h.expression.bind fun _ => .after _ fun _ => h.postfixes
    split
    · exact h.items.bind fun _ => .after _ fun _ => h.postfixes
    · exact .refl _

theorem Limits.items_succ (h : Limits k n) {close : Char} :
    Cuts (Program.items (n + 1) d close t) (Program.items (n + 1) (k + d) close t) := by
  rw [Program.items, Program.items]
  dsimp only
  split
  · exact .refl _
  refine h.expression.bind fun item => ?_
  cases skip item.2 with
  | nil => exact .refl _
  | cons u rest =>
    dsimp only
    split
    · exact h.items.bind fun _ => .refl _
    · exact .refl _

theorem Limits.properties_succ (h : Limits k n) :
    Cuts (Program.properties (n + 1) d t) (Program.properties (n + 1) (k + d) t) := by
  rw [Program.properties, Program.properties]
  dsimp only
  split
  · exact .refl _
  refine h.property.bind fun p => ?_
  cases skip p.2 with
  | nil => exact .refl _
  | cons u rest =>
    dsimp only
    split
    · exact h.properties.bind fun _ => .refl _
    · exact .refl _

theorem Limits.property_succ (h : Limits k n) :
    Cuts (Program.property (n + 1) d t) (Program.property (n + 1) (k + d) t) := by
  rw [Program.property, Program.property]
  cases skip t with
  | nil => exact .refl _
  | cons u rest =>
    dsimp only
    split
    · refine h.expression.bind fun _ => .after _ fun _ => .after _ fun _ => ?_
      exact h.expression.bind fun _ => .refl _
    · refine .after _ fun name => ?_
      cases skip name.2 with
      | nil => exact .refl _
      | cons c rest =>
        dsimp only
        split
        · exact h.expression.bind fun _ => .refl _
        · exact .refl _

theorem Limits.primary_succ (h : Limits k n) :
    Cuts (Program.primary (n + 1) d t) (Program.primary (n + 1) (k + d) t) := by
  rw [Program.primary, Program.primary]
  dsimp only
  cases skip t with
  | nil => exact .refl _
  | cons u rest =>
    dsimp only
    split
    · exact h.expression.bind fun _ => .refl _
    split
    · exact h.items.bind fun _ => .refl _
    split
    · exact h.properties.bind fun _ => .refl _
    · exact .refl _

end Steps

/-- A lower limit only cuts readings short, by induction on the steps. -/
theorem limits (k n : Nat) : Limits k n := by
  induction n with
  | zero => exact limits_zero k
  | succ n ih =>
    exact {
      expression := ih.expression_succ
      ternary := ih.ternary_succ
      binary := ih.binary_succ _
      climb := ih.climb_succ
      unary := ih.unary_succ
      postfixes := ih.postfixes_succ
      items := ih.items_succ
      properties := ih.properties_succ
      property := ih.property_succ
      primary := ih.primary_succ }

/-- Statements as a reader with another limit of nesting reads them. -/
def statementsWithin (limit : Nat) (fuel : Nat) (t : Text) : Except ParseFault Program :=
  match fuel with
  | 0 => .error .outOfFuel
  | n + 1 =>
    let t := skipSeparators t
    if t.isEmpty then .ok []
    else do
      let (e, rest) ← expression (fuelFor t.length) limit t
      match skip rest with
      | [] => return [e]
      | u :: rest =>
        if u != unit ';' then throw (.unexpectedUnit u (u :: rest).length)
        return e :: (← statementsWithin limit n rest)

/-- A program as a reader with another limit of nesting reads it. -/
def parseWithin (limit : Nat) (t : Text) : Except ParseFault Program :=
  statementsWithin limit (t.trim.length + 1) t.trim

/-- With a lower limit, statements are read as with a higher one or lie too deep. -/
theorem cuts_statements (k n : Nat) (t : Text) :
    Cuts (statements n t) (statementsWithin (k + maxNesting) n t) := by
  induction n generalizing t with
  | zero =>
    rw [statements, statementsWithin]
    exact .refl _
  | succ n ih =>
    rw [statements, statementsWithin]
    dsimp only
    split
    · exact .refl _
    refine (limits k _).expression.bind fun first => ?_
    cases skip first.2 with
    | nil => exact .refl _
    | cons u rest =>
      dsimp only
      split
      · exact .refl _
      · exact (ih rest).bind fun _ => .refl _

theorem parseWithin_maxNesting (t : Text) : parseWithin maxNesting t = parse t := by
  have hsame : ∀ n t, statementsWithin maxNesting n t = statements n t := by
    intro n
    induction n with
    | zero =>
      intro t
      rw [statements, statementsWithin]
    | succ n ih =>
      intro t
      rw [statements, statementsWithin]
      dsimp only
      split
      · rfl
      refine bind_congr fun first => ?_
      cases skip first.2 with
      | nil => rfl
      | cons u rest => simp only [ih]
  exact hsame _ _

/-- **The limit only rejects.** Whatever a reader with a higher limit makes of a source, a program
or a fault, comes out with the limit as well, unless expressions lie too deep for it. -/
theorem parse_eq_or_tooDeep {limit : Nat} (h : maxNesting ≤ limit) (t : Text) :
    parse t = parseWithin limit t ∨ parse t = .error .tooDeep := by
  obtain ⟨k, rfl⟩ := Nat.exists_eq_add_of_le' h
  exact cuts_statements k _ _

/-- **Deeper sources are rejected.** A source that a reader with a higher limit takes for a program
with a path beyond `maxNesting` is rejected for its depth. -/
theorem parse_eq_tooDeep {limit : Nat} (h : maxNesting ≤ limit) {t : Text} {p : Program}
    (hread : parseWithin limit t = .ok p) {e : Expr} (he : e ∈ p)
    (hdeep : ¬ e.NestsWithin maxNesting) : parse t = .error .tooDeep := by
  rcases parse_eq_or_tooDeep h t with hsame | hcut
  · exact absurd (nestsWithin_of_parse (hsame.trans hread) e he) hdeep
  · exact hcut

end Program

end PageTemplate
