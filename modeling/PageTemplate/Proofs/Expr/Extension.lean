import PageTemplate.Proofs.Expr.Lookahead

/-!
# PageTemplate.Proofs.Expr.Extension

Programs in a row. An expression is read in the same way when white space or a semicolon stands
behind its text, and with more fuel; so the statements of one program and those of another are what
is read when a semicolon is put between the two texts.
-/

namespace PageTemplate

namespace Program

/-- With `n` steps, whatever is read of a text is also read when `x` is behind it, and with more
steps. -/
structure Extends (x : Text) (n : Nat) : Prop where
  expression : ∀ (k : Nat) {d : Nat} {t t' : Text}, Continues x t t' →
    Stays (SameBut x) (expression n d t) (expression (k + n) d t')
  ternary : ∀ (k : Nat) {d : Nat} {t t' : Text}, Continues x t t' →
    Stays (SameBut x) (ternary n d t) (ternary (k + n) d t')
  binary : ∀ (k : Nat) {d : Nat} {levels : List (List BinaryOp)} {t t' : Text},
    Continues x t t' →
    Stays (SameBut x) (binary n d levels t) (binary (k + n) d levels t')
  climb : ∀ (k : Nat) {d : Nat} {ops : List BinaryOp} {stronger : List (List BinaryOp)}
    {left : Expr} {t t' : Text}, Continues x t t' →
    Stays (SameBut x) (climb n d ops stronger left t) (climb (k + n) d ops stronger left t')
  unary : ∀ (k : Nat) {d : Nat} {t t' : Text}, Continues x t t' →
    Stays (SameBut x) (unary n d t) (unary (k + n) d t')
  postfixes : ∀ (k : Nat) {d : Nat} {object : Expr} {t t' : Text}, Continues x t t' →
    Stays (SameBut x) (postfixes n d object t) (postfixes (k + n) d object t')
  items : ∀ (k : Nat) {d : Nat} {close : Char} {t t' : Text},
    isSeparator (unit close) = false → Continues x t t' →
    Stays (SameBut x) (items n d close t) (items (k + n) d close t')
  properties : ∀ (k : Nat) {d : Nat} {t t' : Text}, Continues x t t' →
    Stays (SameBut x) (properties n d t) (properties (k + n) d t')
  property : ∀ (k : Nat) {d : Nat} {t t' : Text}, Continues x t t' →
    Stays (SameBut x) (property n d t) (property (k + n) d t')
  primary : ∀ (k : Nat) {d : Nat} {t t' : Text}, Continues x t t' →
    Stays (SameBut x) (primary n d t) (primary (k + n) d t')

section Steps

variable {x t t' : Text} {n d : Nat}

theorem extends_zero (x : Text) : Extends x 0 where
  expression _ _ _ _ _ := by rw [Program.expression]; exact .error _ _
  ternary _ _ _ _ _ := by rw [Program.ternary]; exact .error _ _
  binary _ _ _ _ _ _ := by rw [Program.binary]; exact .error _ _
  climb _ _ _ _ _ _ _ _ := by rw [Program.climb]; exact .error _ _
  unary _ _ _ _ _ := by rw [Program.unary]; exact .error _ _
  postfixes _ _ _ _ _ _ := by rw [Program.postfixes]; exact .error _ _
  items _ _ _ _ _ _ _ := by rw [Program.items]; exact .error _ _
  properties _ _ _ _ _ := by rw [Program.properties]; exact .error _ _
  property _ _ _ _ _ := by rw [Program.property]; exact .error _ _
  primary _ _ _ _ _ := by rw [Program.primary]; exact .error _ _

/-- What is read is kept by what is done with it. -/
theorem Stays.same {α β : Type} {r r' : Except ParseFault (α × Text)}
    (h : Stays (SameBut x) r r') {f f' : α × Text → Except ParseFault (β × Text)}
    (hf : ∀ a rest rest', Continues x rest rest' →
      Stays (SameBut x) (f (a, rest)) (f' (a, rest'))) :
    Stays (SameBut x) (r >>= f) (r' >>= f') := by
  refine h.bind ?_
  rintro ⟨a, rest⟩ ⟨_, rest'⟩ ⟨rfl, hrest⟩
  exact hf a rest rest' hrest

theorem Extends.expression_succ (h : Extends x n) (hx : IsQuiet (skip x)) (k : Nat)
    (ht : Continues x t t') :
    Stays (SameBut x) (Program.expression (n + 1) d t) (Program.expression (k + n + 1) d t') := by
  cases d with
  | zero =>
    rw [Program.expression]
    · exact .error _ _
    · simp
  | succ d =>
    rw [Program.expression, Program.expression]
    refine (h.ternary k ht).same fun target rest rest' hrest => ?_
    obtain ⟨y, hy, hbehind, hgoes⟩ := hrest.skip.exists_quiet hx
    dsimp only
    rw [hbehind, afterAssignment?_quiet hy]
    cases afterAssignment? (skip rest) with
    | none => exact .ok ⟨rfl, hgoes _⟩
    | some after =>
      dsimp only [Option.map_some]
      cases isTarget target with
      | false => exact .error _ _
      | true =>
        refine (h.expression k (hgoes after)).same fun value rest rest' hrest => ?_
        dsimp only
        cases assign? target value with
        | none => exact .error _ _
        | some e => exact .ok ⟨rfl, hrest⟩

theorem Extends.ternary_succ (h : Extends x n) (hx : IsQuiet (skip x)) (k : Nat)
    (ht : Continues x t t') :
    Stays (SameBut x) (Program.ternary (n + 1) d t) (Program.ternary (k + n + 1) d t') := by
  rw [Program.ternary, Program.ternary]
  refine (h.binary k ht).same fun condition rest rest' hrest => ?_
  obtain ⟨y, hy, hbehind, hgoes⟩ := hrest.skip.exists_quiet hx
  dsimp only
  rw [hbehind, afterQuestion?_quiet hy]
  cases afterQuestion? (skip rest) with
  | none => exact .ok ⟨rfl, hgoes _⟩
  | some after =>
    dsimp only [Option.map_some]
    refine (h.expression k (hgoes after)).same fun consequent rest rest' hrest => ?_
    dsimp only
    rcases hrest.skip_cases with ⟨u, r, r', hr, hr', hmore⟩ | ⟨hr, -⟩
    · rw [hr, hr']
      dsimp only
      split
      · exact .error _ _
      · exact (h.expression k hmore).same fun alternate rest rest' hrest => .ok ⟨rfl, hrest⟩
    · rw [hr]
      exact .error _ _

theorem Extends.binary_succ (h : Extends x n) (levels : List (List BinaryOp)) (k : Nat)
    (ht : Continues x t t') :
    Stays (SameBut x) (Program.binary (n + 1) d levels t)
      (Program.binary (k + n + 1) d levels t') := by
  cases levels with
  | nil =>
    rw [Program.binary, Program.binary]
    exact h.unary k ht
  | cons ops stronger =>
    rw [Program.binary, Program.binary]
    exact (h.binary k ht).same fun left rest rest' hrest => h.climb k hrest

theorem Extends.climb_succ (h : Extends x n) (hx : IsQuiet (skip x)) (ops : List BinaryOp)
    (stronger : List (List BinaryOp)) (left : Expr) (k : Nat) (ht : Continues x t t') :
    Stays (SameBut x) (Program.climb (n + 1) d ops stronger left t)
      (Program.climb (k + n + 1) d ops stronger left t') := by
  obtain ⟨y, hy, hbehind, hgoes⟩ := ht.skip.exists_quiet hx
  rw [Program.climb, Program.climb]
  dsimp only
  rw [hbehind, operator?_quiet hy]
  cases operator? ops (skip t) with
  | none => exact .ok ⟨rfl, hgoes _⟩
  | some found =>
    exact (h.binary k (hgoes found.2)).same fun right rest rest' hrest => h.climb k hrest

theorem Extends.unary_succ (h : Extends x n) (hx : IsQuiet (skip x)) (k : Nat)
    (ht : Continues x t t') :
    Stays (SameBut x) (Program.unary (n + 1) d t) (Program.unary (k + n + 1) d t') := by
  obtain ⟨y, hy, hbehind, hgoes⟩ := ht.skip.exists_quiet hx
  rw [Program.unary, Program.unary]
  dsimp only
  rw [hbehind, unaryOperator?_quiet hy]
  cases unaryOperator? (skip t) with
  | none =>
    exact (h.primary k (hgoes _)).same fun object rest rest' hrest => h.postfixes k hrest
  | some found =>
    exact (h.unary k (hgoes found.2)).same fun operand rest rest' hrest => .ok ⟨rfl, hrest⟩

/-- No white space is left where it is skipped. -/
theorem not_isBlank_of_skip {u : CodeUnit} {s : Text} (h : skip x = u :: s) :
    isBlank u = false := by
  have hfirst := List.head?_dropWhile_not isBlank x
  rw [show x.dropWhile isBlank = u :: s from h] at hfirst
  exact hfirst

/-- At its end a text goes on with nothing or with a semicolon. -/
theorem skip_quiet_cases (hx : IsQuiet (skip x)) :
    skip x = [] ∨ ∃ s, skip x = unit ';' :: s := by
  cases hs : skip x with
  | nil => exact .inl rfl
  | cons u s =>
    have hseparator : isSeparator u := hx u (by rw [hs]; rfl)
    rw [isSeparator, not_isBlank_of_skip hs, Bool.false_or, beq_iff_eq] at hseparator
    exact .inr ⟨s, by rw [hseparator]⟩

theorem Extends.postfixes_succ (h : Extends x n) (hx : IsQuiet (skip x)) (object : Expr)
    (k : Nat) (ht : Continues x t t') :
    Stays (SameBut x) (Program.postfixes (n + 1) d object t)
      (Program.postfixes (k + n + 1) d object t') := by
  rw [Program.postfixes, Program.postfixes]
  dsimp only
  rcases ht.skip_cases with ⟨u, r, r', hr, hr', hmore⟩ | ⟨hr, hr'⟩
  · rw [hr, hr']
    dsimp only
    split
    · obtain ⟨y, hy, hbehind, hgoes⟩ := hmore.skip.exists_quiet hx
      rw [hbehind, identifier?_quiet hy]
      cases identifier? (skip r) with
      | none => exact .error _ _
      | some found => exact h.postfixes k (hgoes _)
    split
    · refine (h.expression k hmore).same fun property rest rest' hrest => ?_
      exact (stays_expect ']' hrest).bind fun rest rest' hrest => h.postfixes k hrest
    split
    · refine (h.items k (by decide) hmore).same fun arguments rest rest' hrest => ?_
      exact (stays_expect ')' hrest).bind fun rest rest' hrest => h.postfixes k hrest
    · exact .ok ⟨rfl, hmore.cons u⟩
  · rw [hr, hr']
    rcases skip_quiet_cases hx with hs | ⟨s, hs⟩
    all_goals
      rw [hs]
      exact .ok ⟨rfl, hs ▸ continues_nil x⟩

theorem Extends.items_succ (h : Extends x n) (hx : IsQuiet (skip x)) {close : Char}
    (hclose : isSeparator (unit close) = false) (k : Nat) (ht : Continues x t t') :
    Stays (SameBut x) (Program.items (n + 1) d close t)
      (Program.items (k + n + 1) d close t') := by
  obtain ⟨y, hy, hbehind, hgoes⟩ := ht.skip.exists_quiet hx
  rw [Program.items, Program.items]
  dsimp only
  rw [hbehind, startsWithUnit_quiet hclose hy]
  split
  · exact .ok ⟨rfl, hgoes _⟩
  refine (h.expression k (hgoes _)).same fun item rest rest' hrest => ?_
  dsimp only
  rcases hrest.skip_cases with ⟨u, r, r', hr, hr', hmore⟩ | ⟨hr, hr'⟩
  · rw [hr, hr']
    dsimp only
    split
    · exact (h.items k hclose hmore).same fun more rest rest' hrest => .ok ⟨rfl, hrest⟩
    · exact .ok ⟨rfl, hmore.cons u⟩
  · rw [hr, hr']
    rcases skip_quiet_cases hx with hs | ⟨s, hs⟩
    all_goals
      rw [hs]
      exact .ok ⟨rfl, hs ▸ continues_nil x⟩

theorem Extends.properties_succ (h : Extends x n) (hx : IsQuiet (skip x)) (k : Nat)
    (ht : Continues x t t') :
    Stays (SameBut x) (Program.properties (n + 1) d t) (Program.properties (k + n + 1) d t') := by
  obtain ⟨y, hy, hbehind, hgoes⟩ := ht.skip.exists_quiet hx
  rw [Program.properties, Program.properties]
  dsimp only
  rw [hbehind, startsWithUnit_quiet (by decide) hy]
  split
  · exact .ok ⟨rfl, hgoes _⟩
  refine (h.property k (hgoes _)).same fun p rest rest' hrest => ?_
  dsimp only
  rcases hrest.skip_cases with ⟨u, r, r', hr, hr', hmore⟩ | ⟨hr, hr'⟩
  · rw [hr, hr']
    dsimp only
    split
    · exact (h.properties k hmore).same fun more rest rest' hrest => .ok ⟨rfl, hrest⟩
    · exact .ok ⟨rfl, hmore.cons u⟩
  · rw [hr, hr']
    rcases skip_quiet_cases hx with hs | ⟨s, hs⟩
    all_goals
      rw [hs]
      exact .ok ⟨rfl, hs ▸ continues_nil x⟩

theorem Extends.property_succ (h : Extends x n) (hx : IsQuiet (skip x)) (k : Nat)
    (ht : Continues x t t') :
    Stays (SameBut x) (Program.property (n + 1) d t) (Program.property (k + n + 1) d t') := by
  rw [Program.property, Program.property]
  rcases ht.skip_cases with ⟨u, r, r', hr, hr', hmore⟩ | ⟨hr, -⟩
  · rw [hr, hr']
    dsimp only
    split
    · refine (h.expression k hmore).same fun key rest rest' hrest => ?_
      refine (stays_expect ']' hrest).bind fun rest rest' hrest => ?_
      refine (stays_expect ':' hrest).bind fun rest rest' hrest => ?_
      exact (h.expression k hrest).same fun value rest rest' hrest => .ok ⟨rfl, hrest⟩
    · refine (stays_propertyName hx hmore u).same fun name rest rest' hrest => ?_
      dsimp only
      rcases hrest.skip_cases with ⟨c, s, s', hs, hs', hmore⟩ | ⟨hs, hs'⟩
      · rw [hs, hs']
        dsimp only
        split
        · exact (h.expression k hmore).same fun value rest rest' hrest => .ok ⟨rfl, hrest⟩
        · exact .ok ⟨rfl, hmore.cons c⟩
      · rw [hs, hs']
        rcases skip_quiet_cases hx with hc | ⟨s, hc⟩
        all_goals
          rw [hc]
          exact .ok ⟨rfl, hc ▸ continues_nil x⟩
  · rw [hr]
    exact .error _ _

theorem Extends.primary_succ (h : Extends x n) (hx : IsQuiet (skip x)) (k : Nat)
    (ht : Continues x t t') :
    Stays (SameBut x) (Program.primary (n + 1) d t) (Program.primary (k + n + 1) d t') := by
  rw [Program.primary, Program.primary]
  dsimp only
  rcases ht.skip_cases with ⟨u, r, r', hr, hr', hmore⟩ | ⟨hr, -⟩
  · obtain ⟨y, hy, hbehind, hgoes⟩ := (hmore.cons u).exists_quiet hx
    rw [hr, hr']
    dsimp only
    split
    · refine (h.expression k hmore).same fun e rest rest' hrest => ?_
      exact (stays_expect ')' hrest).bind fun rest rest' hrest => .ok ⟨rfl, hrest⟩
    split
    · refine (h.items k (by decide) hmore).same fun elements rest rest' hrest => ?_
      exact (stays_expect ']' hrest).bind fun rest rest' hrest => .ok ⟨rfl, hrest⟩
    split
    · refine (h.properties k hmore).same fun ps rest rest' hrest => ?_
      exact (stays_expect _ hrest).bind fun rest rest' hrest => .ok ⟨rfl, hrest⟩
    split
    · exact (stays_quoted u hmore).same fun value rest rest' hrest => .ok ⟨rfl, hrest⟩
    rw [hbehind, startsNumber_quiet hy, number_quiet hy, identifier?_quiet hy]
    split
    · exact .ok ⟨rfl, hgoes _⟩
    · cases identifier? (u :: r) with
      | none => exact .error _ _
      | some found => exact .ok ⟨rfl, hgoes _⟩
  · rw [hr]
    exact .error _ _

end Steps

/-- Reading goes on in the same way with more behind the text, by induction on the steps. -/
theorem extends_of_quiet {x : Text} (hx : IsQuiet (skip x)) (n : Nat) : Extends x n := by
  induction n with
  | zero => exact extends_zero x
  | succ n ih =>
    exact {
      expression := fun k _ _ _ ht => ih.expression_succ hx k ht
      ternary := fun k _ _ _ ht => ih.ternary_succ hx k ht
      binary := fun k _ _ _ _ ht => ih.binary_succ _ k ht
      climb := fun k _ _ _ _ _ _ ht => ih.climb_succ hx _ _ _ k ht
      unary := fun k _ _ _ ht => ih.unary_succ hx k ht
      postfixes := fun k _ _ _ _ ht => ih.postfixes_succ hx _ k ht
      items := fun k _ _ _ _ hclose ht => ih.items_succ hx hclose k ht
      properties := fun k _ _ _ ht => ih.properties_succ hx k ht
      property := fun k _ _ _ ht => ih.property_succ hx k ht
      primary := fun k _ _ _ ht => ih.primary_succ hx k ht }

section Statements

variable {x s t t' : Text} {p q : Program} {n k : Nat}

theorem statements_congr (h : skipSeparators t = skipSeparators t') (n : Nat) :
    statements n t = statements n t' := by
  cases n with
  | zero => rw [statements, statements]
  | succ n => rw [statements, statements, h]

theorem skipSeparators_append (t y : Text) :
    skipSeparators (t ++ y) =
      if (skipSeparators t).isEmpty then skipSeparators y else skipSeparators t ++ y :=
  List.dropWhile_append

theorem skipSeparators_blanks {w : Text} (hw : ∀ u ∈ w, isBlank u) (t : Text) :
    skipSeparators (w ++ t) = skipSeparators t :=
  List.dropWhile_append_of_pos fun u hu => by simp [hw u hu]

theorem skipSeparators_skip (t : Text) : skipSeparators (skip t) = skipSeparators t := by
  have hsplit : t.takeWhile isBlank ++ skip t = t := List.takeWhile_append_dropWhile
  conv_rhs => rw [← hsplit]
  exact (skipSeparators_blanks (fun u hu => List.mem_takeWhile_imp hu) _).symm

theorem statements_of_nil (h : skipSeparators t = []) (n : Nat) :
    statements (n + 1) t = .ok [] := by
  rw [statements, h]
  rfl

/-- The first statement of a text, and what can be behind it. -/
theorem statements_eq_ok (h : skipSeparators t ≠ []) :
    statements (n + 1) t = .ok p ↔
      ∃ e rest, expression (fuelFor (skipSeparators t).length) maxNesting (skipSeparators t) =
        .ok (e, rest) ∧ (skip rest = [] ∧ p = [e] ∨
          ∃ r q, skip rest = unit ';' :: r ∧ statements n r = .ok q ∧ p = e :: q) := by
  rw [statements]
  dsimp only
  rw [if_neg (by simpa using h)]
  cases expression (fuelFor (skipSeparators t).length) maxNesting (skipSeparators t) with
  | error f =>
    refine iff_of_false (fun hp => by cases hp) ?_
    rintro ⟨e, rest, ⟨⟩, -⟩
  | ok found =>
    obtain ⟨e, rest⟩ := found
    simp only [Except.ok.injEq, Prod.mk.injEq, ↓existsAndEq, and_true, bind, Except.bind]
    cases skip rest with
    | nil => simpa [pure, Except.pure] using eq_comm
    | cons u r =>
      by_cases hu : u = unit ';'
      · subst hu
        cases hq : statements n r with
        | error f => simp [hq]
        | ok q => simpa [pure, Except.pure, hq] using eq_comm
      · simp [hu, throw, throwThe, MonadExceptOf.throw]

/-- A program is read with more steps as well. -/
theorem statements_more (h : statements n t = .ok p) (k : Nat) : statements (k + n) t = .ok p := by
  induction n generalizing t p with
  | zero =>
    rw [statements] at h
    cases h
  | succ n ih =>
    by_cases hne : skipSeparators t = []
    · rw [statements_of_nil hne] at h
      exact (statements_of_nil hne _).trans h
    · obtain ⟨e, rest, he, ⟨hr, rfl⟩ | ⟨r, q, hr, hq, rfl⟩⟩ := (statements_eq_ok hne).1 h
      · exact (statements_eq_ok hne).2 ⟨e, rest, he, .inl ⟨hr, rfl⟩⟩
      · exact (statements_eq_ok hne).2 ⟨e, rest, he, .inr ⟨r, q, hr, ih hq, rfl⟩⟩

/-- Behind the statements of one text stand those of another one, when a semicolon is between
them. By induction on the statements of the first. -/
theorem statements_append (hx : skip x = unit ';' :: s) (ht : Continues x t t')
    (hp : statements n t = .ok p) (hq : statements k s = .ok q) :
    statements (k + n) t' = .ok (p ++ q) := by
  have hquiet : IsQuiet (skip x) := by
    rintro u hu
    rw [hx] at hu
    cases hu
    rfl
  induction n generalizing t t' p with
  | zero =>
    rw [statements] at hp
    cases hp
  | succ n ih =>
    obtain ⟨y, hy, rfl⟩ := ht
    by_cases hne : skipSeparators t = []
    · -- There is no statement in the text, and its separators go on with the semicolon.
      rw [statements_of_nil hne] at hp
      cases hp
      have hsame : skipSeparators (t ++ y) = skipSeparators s := by
        rw [skipSeparators_append, hne, ← skipSeparators_skip y, hy, hx]
        rfl
      rw [statements_congr hsame, List.nil_append, Nat.add_comm]
      exact statements_more hq _
    · obtain ⟨e, rest, he, hrest⟩ := (statements_eq_ok hne).1 hp
      have hlong : skipSeparators (t ++ y) = skipSeparators t ++ y := by
        rw [skipSeparators_append, if_neg (by simpa using hne)]
      have hfuel : fuelFor (skipSeparators (t ++ y)).length =
          16 * y.length + fuelFor (skipSeparators t).length := by
        rw [hlong, List.length_append, fuelFor, fuelFor]
        omega
      obtain ⟨⟨_, rest'⟩, he', rfl, hgoes⟩ :=
        (extends_of_quiet hquiet _).expression (16 * y.length) ⟨y, hy, rfl⟩ _ he
      rw [← hlong, ← hfuel] at he'
      have hne' : skipSeparators (t ++ y) ≠ [] := by
        rw [hlong]
        exact fun h => hne (List.append_eq_nil_iff.1 h).1
      refine (statements_eq_ok hne').2 ⟨e, rest', he', .inr ?_⟩
      rcases hgoes.skip_cases with ⟨u, r, r', hr, hr', hmore⟩ | ⟨hr, hr'⟩
      · rcases hrest with ⟨hnil, -⟩ | ⟨r₁, q₁, hr₁, hq₁, rfl⟩
        · cases hr.symm.trans hnil
        · cases hr.symm.trans hr₁
          exact ⟨r', q₁ ++ q, hr', ih hmore hq₁, rfl⟩
      · rcases hrest with ⟨-, rfl⟩ | ⟨r₁, q₁, hr₁, -, -⟩
        · refine ⟨s, q, hr'.trans hx, ?_, rfl⟩
          change statements (k + n) s = .ok q
          rw [Nat.add_comm]
          exact statements_more hq n
        · cases hr.symm.trans hr₁

end Statements

section Parsing

variable {a b : Text} {p q : Program}

theorem trim_join (a b : Text) :
    (a ++ unit ';' :: b).trim = skip a ++ unit ';' :: b.trimEnd := by
  have hstart : skip (a ++ unit ';' :: b) = skip a ++ unit ';' :: b := by
    rw [skip_append]
    split
    · rename_i h
      rw [List.isEmpty_iff.1 h]
      rfl
    · rfl
  change (skip (a ++ unit ';' :: b)).trimEnd = _
  rw [hstart, Text.trimEnd_append, Text.trimEnd_cons (by decide)]
  rfl

/-- A text that is trimmed at both ends lacks white space that it has when it is trimmed at its
end. -/
theorem exists_trimEnd_eq (t : Text) : ∃ w, (∀ u ∈ w, isBlank u) ∧ t.trimEnd = w ++ t.trim := by
  have hsplit : t.takeWhile isBlank ++ skip t = t := List.takeWhile_append_dropWhile
  have hblanks : ∀ u ∈ t.takeWhile isBlank, isBlank u := fun u hu => List.mem_takeWhile_imp hu
  have hend := Text.trimEnd_append (t.takeWhile isBlank) (skip t)
  rw [hsplit] at hend
  split at hend
  · rename_i h
    obtain ⟨w, -, hboth⟩ := Text.exists_blanks (t.takeWhile isBlank)
    refine ⟨_, fun u hu => hblanks u (hboth ▸ List.mem_append_left w hu), ?_⟩
    change t.trimEnd = _ ++ (skip t).trimEnd
    rw [hend, List.isEmpty_iff.1 h, List.append_nil]
  · exact ⟨t.takeWhile isBlank, hblanks, hend⟩

/-- Two programs with a semicolon between them are read as the statements of both. -/
theorem parse_append (ha : parse a = .ok p) (hb : parse b = .ok q) :
    parse (a ++ unit ';' :: b) = .ok (p ++ q) := by
  obtain ⟨w, hw, hblanks⟩ := Text.exists_blanks (skip a)
  obtain ⟨v, hv, htrim⟩ := exists_trimEnd_eq b
  have hgoes : Continues (unit ';' :: b.trimEnd) a.trim (a ++ unit ';' :: b).trim := by
    refine ⟨w ++ unit ';' :: b.trimEnd, List.dropWhile_append_of_pos hw, ?_⟩
    rw [trim_join, ← List.append_assoc]
    exact congrArg (· ++ unit ';' :: b.trimEnd) hblanks
  have hsame : skipSeparators b.trim = skipSeparators b.trimEnd := by
    rw [htrim, skipSeparators_blanks hv]
  rw [parse, statements_congr hsame] at hb
  have hread := statements_append (skip_cons (by decide) _) hgoes ha hb
  have hlength : (a ++ unit ';' :: b).trim.length + 1 =
      w.length + v.length + (b.trim.length + 1 + (a.trim.length + 1)) := by
    have ha : (skip a).length = a.trim.length + w.length := by
      rw [hblanks, List.length_append]
      rfl
    rw [trim_join, htrim]
    simp only [List.length_append, List.length_cons, ha]
    omega
  rw [parse, hlength]
  exact statements_more hread _

end Parsing

end Program

end PageTemplate
