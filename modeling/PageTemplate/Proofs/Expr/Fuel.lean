import PageTemplate.Proofs.Expr.Lookahead

/-!
# PageTemplate.Proofs.Expr.Fuel

The reader of programs always comes to an end. Each function of it takes a unit off the text before
it calls another one, or calls one that stands below it; the functions are ranked from `primary`
and its like, of rank 1, up to `items`, of rank 13. So sixteen steps for each unit of the text, and
as many as the rank says, are enough (`suffices_steps`), and every text is a program or is rejected
for a reason (`parse_ne_outOfFuel`).
-/

namespace PageTemplate

/-! What is left behind a token is shorter than the text. -/

namespace Number

open CodeUnit

theorem length_dropWhile_le {p : CodeUnit → Bool} (t : Text) :
    (t.dropWhile p).length ≤ t.length :=
  (List.dropWhile_suffix p).length_le

theorem length_exponentSign_le (t : Text) : (exponentSign t).2.length ≤ t.length := by
  cases t with
  | nil => exact Nat.le_refl _
  | cons s more =>
    rw [exponentSign]
    split
    · exact Nat.le_succ _
    · split
      · exact Nat.le_succ _
      · exact Nat.le_refl _

theorem length_scanExponent_le (t : Text) : (scanExponent t).2.length ≤ t.length := by
  cases t with
  | nil => exact Nat.le_refl _
  | cons e rest =>
    cases he : asciiLower e == unit 'e' with
    | false => rw [scanExponent_of_ne he]
    | true =>
      rw [scanExponent_cons he]
      split
      · exact Nat.le_refl _
      · have hdigits := length_dropWhile_le (p := isDigit) (exponentSign rest).2
        have hsign := length_exponentSign_le rest
        rw [List.length_cons]
        dsimp only
        omega

theorem length_fraction_le (whole t : Text) : (fraction whole t).2.length ≤ t.length := by
  cases t with
  | nil => exact Nat.le_refl _
  | cons d more =>
    rw [fraction]
    split
    · split
      · exact Nat.le_refl _
      · exact Nat.le_succ_of_le (length_dropWhile_le more)
    · exact Nat.le_refl _

theorem length_scanDecimal?_le {t rest : Text} {x : Float} (h : scanDecimal? t = some (x, rest)) :
    rest.length ≤ t.length := by
  rw [scanDecimal?_eq] at h
  dsimp only at h
  split at h
  · cases h
  · cases h
    have hwhole := length_dropWhile_le (p := isDigit) t
    have hfraction := length_fraction_le (t.takeWhile isDigit) (t.dropWhile isDigit)
    have hexponent := length_scanExponent_le
      (fraction (t.takeWhile isDigit) (t.dropWhile isDigit)).2
    omega

theorem length_scanUnsigned?_le {t rest : Text} {x : Float}
    (h : scanUnsigned? t = some (x, rest)) : rest.length ≤ t.length := by
  rw [scanUnsigned?] at h
  split at h
  · rename_i after hafter
    cases h
    exact (Text.suffix_of_afterPrefix hafter).length_le
  · exact length_scanDecimal?_le h

theorem length_scanSigned?_le {t rest : Text} {x : Float} (h : scanSigned? t = some (x, rest)) :
    rest.length ≤ t.length := by
  cases t with
  | nil => cases h
  | cons s more =>
    rw [scanSigned?] at h
    split at h
    · obtain ⟨⟨y, after⟩, hscan, hy⟩ := Option.map_eq_some_iff.1 h
      cases hy
      exact Nat.le_succ_of_le (length_scanUnsigned?_le hscan)
    · split at h
      · exact Nat.le_succ_of_le (length_scanUnsigned?_le h)
      · exact length_scanUnsigned?_le h

end Number

namespace Program

section Tokens

variable {t rest : Text}

theorem length_skip_le (t : Text) : (skip t).length ≤ t.length :=
  Number.length_dropWhile_le t

/-- What is behind the first unit that is not white space. -/
theorem length_lt_of_skip {u : CodeUnit} (h : skip t = u :: rest) : rest.length < t.length := by
  have hle := length_skip_le t
  rw [h, List.length_cons] at hle
  exact hle

theorem length_identifier?_le {word : Text} (h : identifier? t = some (word, rest)) :
    rest.length ≤ t.length := by
  cases t with
  | nil => cases h
  | cons u more =>
    rw [identifier?] at h
    split at h
    · cases h
      exact Number.length_dropWhile_le _
    · cases h

theorem length_number_le (t : Text) : (number t).2.length ≤ t.length := by
  rw [number]
  cases h : Number.scanSigned? t with
  | none => exact Nat.le_refl _
  | some r => exact Number.length_scanSigned?_le h

theorem length_afterPrefix_lt {p : Text} (hp : p ≠ []) (h : Text.afterPrefix p t = some rest) :
    rest.length < t.length := by
  have hpos := List.length_pos_of_ne_nil hp
  rw [Text.afterPrefix_eq_some_iff.1 h, List.length_append]
  omega

theorem length_afterWord?_lt {word : String} (hword : Text.ofString word ≠ [])
    (h : afterWord? word t = some rest) : rest.length < t.length := by
  rw [afterWord?] at h
  cases hafter : Text.afterPrefix (Text.ofString word) t with
  | none =>
    rw [hafter] at h
    cases h
  | some after =>
    have hlt := length_afterPrefix_lt hword hafter
    rw [hafter] at h
    cases after with
    | nil =>
      cases h
      exact hlt
    | cons u after =>
      dsimp only at h
      split at h
      · cases h
      · cases h
        exact hlt

theorem length_afterOperator?_lt {op : BinaryOp} (h : afterOperator? op t = some rest) :
    rest.length < t.length := by
  have hsign : Text.ofString op.sign ≠ [] := by cases op <;> decide
  cases op with
  | within => exact length_afterWord?_lt hsign h
  | add | subtract =>
    rw [afterOperator?] at h
    split at h
    · rename_i after hafter
      split at h
      · cases h
      · cases h
        exact length_afterPrefix_lt hsign hafter
    · cases h
  | _ => exact length_afterPrefix_lt hsign h

theorem length_operator?_lt {ops : List BinaryOp} {found : BinaryOp × Text}
    (h : operator? ops t = some found) : found.2.length < t.length := by
  obtain ⟨op, -, hop⟩ := List.exists_of_findSome?_eq_some h
  obtain ⟨after, hafter, rfl⟩ := Option.map_eq_some_iff.1 hop
  exact length_afterOperator?_lt hafter

theorem length_unaryOperator?_lt {found : UnaryOp × Text} (h : unaryOperator? t = some found) :
    found.2.length < t.length := by
  cases t with
  | nil => cases h
  | cons u more =>
    rw [unaryOperator?] at h
    split_ifs at h
    · cases h
      exact Nat.lt_succ_self _
    · cases h
      exact Nat.lt_succ_self _
    · cases h
      exact Nat.lt_succ_self _
    · obtain ⟨after, hafter, rfl⟩ := Option.map_eq_some_iff.1 h
      exact length_afterWord?_lt (by decide) hafter

theorem length_afterAssignment?_lt (h : afterAssignment? t = some rest) :
    rest.length < t.length := by
  cases t with
  | nil => cases h
  | cons u more =>
    rw [afterAssignment?] at h
    split at h
    · cases h
      exact Nat.lt_succ_self _
    · cases h

theorem length_afterQuestion?_lt (h : afterQuestion? t = some rest) :
    rest.length < t.length := by
  cases t with
  | nil => cases h
  | cons u more =>
    rw [afterQuestion?] at h
    split at h
    · cases h
      exact Nat.lt_succ_self _
    · cases h

theorem length_quoted?_le {quote : CodeUnit} {v : Text} (h : quoted? quote t = some (v, rest)) :
    rest.length ≤ t.length := by
  induction t using quoted?.induct quote generalizing v with
  | case1 => simp [quoted?.eq_def] at h
  | case2 u more hu =>
    rw [quoted?.eq_def] at h
    simp only [hu, if_true] at h
    cases h
    exact Nat.le_succ _
  | case3 u hu hslash =>
    rw [quoted?.eq_def] at h
    simp [hu, hslash] at h
  | case4 u hu hslash e more ih =>
    rw [quoted?.eq_def] at h
    simp only [hu, hslash, if_true] at h
    obtain ⟨⟨v', rest'⟩, hmore, hv⟩ := Option.map_eq_some_iff.1 h
    cases hv
    exact Nat.le_succ_of_le (Nat.le_succ_of_le (ih hmore))
  | case5 u more hu hslash ih =>
    rw [quoted?.eq_def] at h
    simp only [hu, hslash] at h
    obtain ⟨⟨v', rest'⟩, hmore, hv⟩ := Option.map_eq_some_iff.1 h
    cases hv
    exact Nat.le_succ_of_le (ih hmore)

end Tokens

/-- A reading that comes to an end: no more than so many units are left, or there is a reason for
which the text is rejected. -/
inductive Ends {α : Type} (length : Nat) : Except ParseFault (α × Text) → Prop where
  | ok {a : α} {rest : Text} (h : rest.length ≤ length) : Ends length (.ok (a, rest))
  | error {f : ParseFault} (h : f ≠ .outOfFuel) : Ends length (.error f)

section Combine

variable {α β : Type} {l m : Nat}

theorem Ends.bind {r : Except ParseFault (α × Text)}
    {f : α × Text → Except ParseFault (β × Text)} (h : Ends l r)
    (hf : ∀ a, a.2.length ≤ l → Ends m (f a)) : Ends m (r >>= f) := by
  cases h with
  | ok h => exact hf _ h
  | error h => exact .error h

theorem Ends.mono {r : Except ParseFault (α × Text)} (h : Ends l r) (hle : l ≤ m) :
    Ends m r := by
  cases h with
  | ok h => exact .ok (Nat.le_trans h hle)
  | error h => exact .error h

theorem Ends.length_le {a : α × Text} (h : Ends l (.ok a)) : a.2.length ≤ l := by
  cases h with
  | ok h => exact h

theorem Ends.ne_outOfFuel {r : Except ParseFault (α × Text)} (h : Ends l r) :
    r ≠ .error .outOfFuel := by
  cases h with
  | ok h => nofun
  | error h => exact fun hout => h (Except.error.inj hout)

theorem bind_ne_outOfFuel {r : Except ParseFault α} {f : α → Except ParseFault β}
    (h : r ≠ .error .outOfFuel) (hf : ∀ a, r = .ok a → f a ≠ .error .outOfFuel) :
    (r >>= f) ≠ .error .outOfFuel := by
  cases r with
  | error e => exact fun hout => h (congrArg Except.error (Except.error.inj hout))
  | ok a => exact hf a rfl

/-- A unit that is expected is taken off, or the text is rejected for its absence. -/
theorem ends_expect (c : Char) {t : Text} {f : Text → Except ParseFault (β × Text)}
    (hf : ∀ rest, rest.length < t.length → Ends m (f rest)) : Ends m (expect c t >>= f) := by
  rw [expect]
  cases h : skip t with
  | nil => exact .error (by simp)
  | cons u rest =>
    dsimp only
    split
    · exact hf rest (length_lt_of_skip h)
    · exact .error (by simp)

theorem ends_quoted (quote : CodeUnit) (t : Text) : Ends t.length (quoted quote t) := by
  rw [quoted]
  split
  · rename_i r h
    exact .ok (length_quoted?_le h)
  · exact .error (by decide)

theorem ends_propertyName (u : CodeUnit) (t : Text) :
    Ends (t.length + 1) (propertyName u t) := by
  rw [propertyName]
  split
  · exact (ends_quoted u t).mono (Nat.le_succ _)
  split
  · exact .ok (length_number_le (u :: t))
  split
  · rename_i r h
    exact .ok (length_identifier?_le h)
  · exact .error (by simp)

end Combine

/-- With `n` steps, every function comes to an end for which sixteen steps for each unit of its text
and the steps of its rank are no more than that. -/
structure Suffices (n : Nat) : Prop where
  expression : ∀ {d : Nat} {t : Text}, 16 * t.length + 12 ≤ n → Ends t.length (expression n d t)
  ternary : ∀ {d : Nat} {t : Text}, 16 * t.length + 11 ≤ n → Ends t.length (ternary n d t)
  binary : ∀ {d : Nat} {levels : List (List BinaryOp)} {t : Text}, levels.length ≤ 7 →
    16 * t.length + levels.length + 3 ≤ n → Ends t.length (binary n d levels t)
  climb : ∀ {d : Nat} {ops : List BinaryOp} {stronger : List (List BinaryOp)} {left : Expr}
    {t : Text}, stronger.length ≤ 7 → 16 * t.length + 1 ≤ n →
    Ends t.length (climb n d ops stronger left t)
  unary : ∀ {d : Nat} {t : Text}, 16 * t.length + 2 ≤ n → Ends t.length (unary n d t)
  postfixes : ∀ {d : Nat} {object : Expr} {t : Text}, 16 * t.length + 1 ≤ n →
    Ends t.length (postfixes n d object t)
  items : ∀ {d : Nat} {close : Char} {t : Text}, 16 * t.length + 13 ≤ n →
    Ends t.length (items n d close t)
  properties : ∀ {d : Nat} {t : Text}, 16 * t.length + 2 ≤ n → Ends t.length (properties n d t)
  property : ∀ {d : Nat} {t : Text}, 16 * t.length + 1 ≤ n → Ends t.length (property n d t)
  primary : ∀ {d : Nat} {t : Text}, 16 * t.length + 1 ≤ n → Ends t.length (primary n d t)

section Steps

variable {n d : Nat} {t : Text}

theorem suffices_zero : Suffices 0 where
  expression h := absurd h (by omega)
  ternary h := absurd h (by omega)
  binary _ h := absurd h (by omega)
  climb _ h := absurd h (by omega)
  unary h := absurd h (by omega)
  postfixes h := absurd h (by omega)
  items h := absurd h (by omega)
  properties h := absurd h (by omega)
  property h := absurd h (by omega)
  primary h := absurd h (by omega)

theorem Suffices.expression_succ (h : Suffices n) (hn : 16 * t.length + 12 ≤ n + 1) :
    Ends t.length (Program.expression (n + 1) d t) := by
  cases d with
  | zero =>
    rw [Program.expression]
    · exact .error (by decide)
    · simp
  | succ d =>
    rw [Program.expression]
    refine (h.ternary (by omega)).bind fun target htarget => ?_
    have hskip := length_skip_le target.2
    dsimp only
    cases hafter : afterAssignment? (skip target.2) with
    | none => exact .ok (by omega)
    | some rest =>
      have hrest := length_afterAssignment?_lt hafter
      dsimp only
      split
      · exact .error (by decide)
      refine (h.expression (by omega)).bind fun value hvalue => ?_
      split
      · exact .ok (by omega)
      · exact .error (by decide)

theorem Suffices.ternary_succ (h : Suffices n) (hn : 16 * t.length + 11 ≤ n + 1) :
    Ends t.length (Program.ternary (n + 1) d t) := by
  have hlevels : operatorLevels.length = 7 := rfl
  rw [Program.ternary]
  refine (h.binary hlevels.le (by omega)).bind fun condition hcondition => ?_
  have hskip := length_skip_le condition.2
  dsimp only
  cases hafter : afterQuestion? (skip condition.2) with
  | none => exact .ok (by omega)
  | some rest =>
    have hrest := length_afterQuestion?_lt hafter
    refine (h.expression (by omega)).bind fun consequent hconsequent => ?_
    cases hcolon : skip consequent.2 with
    | nil => exact .error (by decide)
    | cons u rest =>
      have hrest := length_lt_of_skip hcolon
      dsimp only
      split
      · exact .error (by decide)
      · exact (h.expression (by omega)).bind fun alternate halternate => .ok (by omega)

theorem Suffices.binary_succ (h : Suffices n) {levels : List (List BinaryOp)}
    (hlevels : levels.length ≤ 7) (hn : 16 * t.length + levels.length + 3 ≤ n + 1) :
    Ends t.length (Program.binary (n + 1) d levels t) := by
  cases levels with
  | nil =>
    rw [Program.binary]
    exact h.unary (by simpa using hn)
  | cons ops stronger =>
    rw [List.length_cons] at hlevels hn
    rw [Program.binary]
    refine (h.binary (by omega) (by omega)).bind fun left hleft => ?_
    exact (h.climb (by omega) (by omega)).mono hleft

theorem Suffices.climb_succ (h : Suffices n) {ops : List BinaryOp}
    {stronger : List (List BinaryOp)} {left : Expr} (hstronger : stronger.length ≤ 7)
    (hn : 16 * t.length + 1 ≤ n + 1) :
    Ends t.length (Program.climb (n + 1) d ops stronger left t) := by
  have hskip := length_skip_le t
  rw [Program.climb]
  dsimp only
  cases hop : operator? ops (skip t) with
  | none => exact .ok hskip
  | some found =>
    have hfound := length_operator?_lt hop
    refine (h.binary hstronger (by omega)).bind fun right hright => ?_
    exact (h.climb hstronger (by omega)).mono (by omega)

theorem Suffices.unary_succ (h : Suffices n) (hn : 16 * t.length + 2 ≤ n + 1) :
    Ends t.length (Program.unary (n + 1) d t) := by
  have hskip := length_skip_le t
  rw [Program.unary]
  dsimp only
  cases hop : unaryOperator? (skip t) with
  | none =>
    refine (h.primary (by omega)).bind fun object hobject => ?_
    exact (h.postfixes (by omega)).mono (by omega)
  | some found =>
    have hfound := length_unaryOperator?_lt hop
    exact (h.unary (by omega)).bind fun operand hoperand => .ok (by omega)

theorem Suffices.postfixes_succ (h : Suffices n) {object : Expr}
    (hn : 16 * t.length + 1 ≤ n + 1) :
    Ends t.length (Program.postfixes (n + 1) d object t) := by
  have hskip := length_skip_le t
  rw [Program.postfixes]
  dsimp only
  cases ht : skip t with
  | nil => exact .ok (Nat.zero_le _)
  | cons u rest =>
    have hrest := length_lt_of_skip ht
    dsimp only
    split
    · cases hname : identifier? (skip rest) with
      | none => exact .error (by decide)
      | some found =>
        have hskip := length_skip_le rest
        have hfound := length_identifier?_le hname
        exact (h.postfixes (by omega)).mono (by omega)
    split
    · refine (h.expression (by omega)).bind fun property hproperty => ?_
      exact ends_expect ']' fun more hmore => (h.postfixes (by omega)).mono (by omega)
    split
    · refine (h.items (by omega)).bind fun arguments harguments => ?_
      exact ends_expect ')' fun more hmore => (h.postfixes (by omega)).mono (by omega)
    · rw [ht] at hskip
      exact .ok hskip

theorem Suffices.items_succ (h : Suffices n) {close : Char} (hn : 16 * t.length + 13 ≤ n + 1) :
    Ends t.length (Program.items (n + 1) d close t) := by
  have hskip := length_skip_le t
  rw [Program.items]
  dsimp only
  split
  · exact .ok hskip
  refine (h.expression (by omega)).bind fun item hitem => ?_
  cases hmore : skip item.2 with
  | nil => exact .ok (Nat.zero_le _)
  | cons u rest =>
    have hrest := length_lt_of_skip hmore
    dsimp only
    split
    · exact (h.items (by omega)).bind fun more hmore => .ok (by omega)
    · exact .ok (by rw [List.length_cons]; omega)

theorem Suffices.properties_succ (h : Suffices n) (hn : 16 * t.length + 2 ≤ n + 1) :
    Ends t.length (Program.properties (n + 1) d t) := by
  have hskip := length_skip_le t
  rw [Program.properties]
  dsimp only
  split
  · exact .ok hskip
  refine (h.property (by omega)).bind fun p hp => ?_
  cases hmore : skip p.2 with
  | nil => exact .ok (Nat.zero_le _)
  | cons u rest =>
    have hrest := length_lt_of_skip hmore
    dsimp only
    split
    · exact (h.properties (by omega)).bind fun more hmore => .ok (by omega)
    · exact .ok (by rw [List.length_cons]; omega)

theorem Suffices.property_succ (h : Suffices n) (hn : 16 * t.length + 1 ≤ n + 1) :
    Ends t.length (Program.property (n + 1) d t) := by
  rw [Program.property]
  cases ht : skip t with
  | nil => exact .error (by simp)
  | cons u rest =>
    have hrest := length_lt_of_skip ht
    dsimp only
    split
    · refine (h.expression (by omega)).bind fun key hkey => ?_
      refine ends_expect ']' fun _ hbracket => ends_expect ':' fun _ hcolon => ?_
      exact (h.expression (by omega)).bind fun value hvalue => .ok (by omega)
    · refine (ends_propertyName u rest).bind fun name hname => ?_
      cases hmore : skip name.2 with
      | nil => exact .ok (Nat.zero_le _)
      | cons c more =>
        have hcolon := length_lt_of_skip hmore
        dsimp only
        split
        · exact (h.expression (by omega)).bind fun value hvalue => .ok (by omega)
        · exact .ok (by rw [List.length_cons]; omega)

theorem Suffices.primary_succ (h : Suffices n) (hn : 16 * t.length + 1 ≤ n + 1) :
    Ends t.length (Program.primary (n + 1) d t) := by
  have hskip := length_skip_le t
  rw [Program.primary]
  dsimp only
  cases ht : skip t with
  | nil => exact .error (by decide)
  | cons u rest =>
    have hrest := length_lt_of_skip ht
    rw [ht] at hskip
    dsimp only
    split
    · refine (h.expression (by omega)).bind fun e he => ?_
      exact ends_expect ')' fun more hmore => .ok (by omega)
    split
    · refine (h.items (by omega)).bind fun elements helements => ?_
      exact ends_expect ']' fun more hmore => .ok (by omega)
    split
    · refine (h.properties (by omega)).bind fun ps hps => ?_
      exact ends_expect '\x7d' fun more hmore => .ok (by omega)
    split
    · exact (ends_quoted u rest).bind fun value hvalue => .ok (by omega)
    split
    · exact .ok (Nat.le_trans (length_number_le (u :: rest)) hskip)
    split
    · rename_i word more hword
      exact .ok (Nat.le_trans (length_identifier?_le hword) hskip)
    · exact .error (by simp)

end Steps

/-- Enough steps are enough for every function of the reader, by induction on the steps. -/
theorem suffices_steps (n : Nat) : Suffices n := by
  induction n with
  | zero => exact suffices_zero
  | succ n ih =>
    exact {
      expression := ih.expression_succ
      ternary := ih.ternary_succ
      binary := ih.binary_succ
      climb := ih.climb_succ
      unary := ih.unary_succ
      postfixes := ih.postfixes_succ
      items := ih.items_succ
      properties := ih.properties_succ
      property := ih.property_succ
      primary := ih.primary_succ }

/-- A step for each unit, and one more, is enough for statements: each is followed by a
semicolon. -/
theorem statements_ne_outOfFuel {n : Nat} {t : Text} (h : t.length < n) :
    statements n t ≠ .error .outOfFuel := by
  induction n generalizing t with
  | zero => omega
  | succ n ih =>
    have hlength : (skipSeparators t).length ≤ t.length := Number.length_dropWhile_le t
    have hfuel : 16 * (skipSeparators t).length + 12 ≤ fuelFor (skipSeparators t).length := by
      rw [fuelFor]
      omega
    have hfirst := (suffices_steps _).expression (d := maxNesting) hfuel
    rw [statements]
    dsimp only
    split
    · nofun
    refine bind_ne_outOfFuel hfirst.ne_outOfFuel fun first hread => ?_
    have hrest := (hread ▸ hfirst).length_le
    cases hmore : skip first.2 with
    | nil => nofun
    | cons u more =>
      have hlt := length_lt_of_skip hmore
      dsimp only
      split
      · nofun
      · exact bind_ne_outOfFuel (ih (by omega)) fun _ _ => nofun

/-- **Every text is a program or is rejected for a reason.** The reader has fuel enough for every
text. -/
theorem parse_ne_outOfFuel (t : Text) : parse t ≠ .error .outOfFuel :=
  statements_ne_outOfFuel (Nat.lt_succ_self _)

end Program

end PageTemplate
