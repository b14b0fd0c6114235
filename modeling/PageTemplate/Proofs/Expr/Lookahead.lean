import PageTemplate.Proofs.Expr.Tokens

/-!
# PageTemplate.Proofs.Expr.Lookahead

Reading with more text behind. Whatever the reader takes off a text, it takes off the same text
with white space or a semicolon behind it: no token goes on there, no operator begins there, and an
expression that could end with the text ends in front of it. More fuel does no harm either.
-/

namespace PageTemplate

open CodeUnit

/-- A unit between statements. -/
def isSeparator (u : CodeUnit) : Bool := isBlank u || u == unit ';'

/-- A text that begins with white space or a semicolon, if it begins at all. -/
def IsQuiet (t : Text) : Prop := ∀ u ∈ t.head?, isSeparator u

namespace IsQuiet

variable {t y : Text} {p : CodeUnit → Bool}

/-- A quiet text does not begin with a unit that belongs to something else. -/
theorem head_of (h : IsQuiet y) (hp : ∀ u, p u → isSeparator u = false) :
    ∀ u ∈ y.head?, p u = false := by
  intro u hu
  cases hpu : p u with
  | false => rfl
  | true => exact absurd (h u hu) (by simp [hp u hpu])

theorem head_beq (h : IsQuiet y) {c : CodeUnit} (hc : isSeparator c = false) :
    ∀ u ∈ y.head?, (u == c) = false :=
  h.head_of fun _ hu => eq_of_beq hu ▸ hc

theorem takeWhile_append (hp : ∀ u ∈ y.head?, p u = false) (t : Text) :
    (t ++ y).takeWhile p = t.takeWhile p := by
  induction t with
  | nil =>
    cases y with
    | nil => rfl
    | cons u y => exact List.takeWhile_cons_of_neg (by simp [hp u rfl])
  | cons u t ih => rw [List.cons_append, List.takeWhile_cons, List.takeWhile_cons, ih]

theorem dropWhile_append (hp : ∀ u ∈ y.head?, p u = false) (t : Text) :
    (t ++ y).dropWhile p = t.dropWhile p ++ y := by
  induction t with
  | nil =>
    cases y with
    | nil => rfl
    | cons u y => exact List.dropWhile_cons_of_neg (by simp [hp u rfl])
  | cons u t ih =>
    rw [List.cons_append, List.dropWhile_cons, List.dropWhile_cons, ih]
    split <;> rfl

end IsQuiet

theorem isSeparator_of_part {u : CodeUnit} (h : isIdentifierPart u) : isSeparator u = false := by
  rw [isSeparator, not_isBlank_of_isIdentifierPart h, Bool.false_or, beq_eq_false_iff_ne]
  rintro rfl
  exact absurd h (by decide)

theorem isSeparator_of_digit {u : CodeUnit} (h : isDigit u) : isSeparator u = false := by
  rw [isSeparator, Program.not_isBlank_of_isDigit h, Bool.false_or, beq_eq_false_iff_ne]
  rintro rfl
  exact absurd h (by decide)

/-- No letter is a separator, so a separator has no other case. -/
theorem asciiLower_of_separator {u : CodeUnit} (h : isSeparator u) : asciiLower u = u := by
  have hupper : isUpperLetter u = false := by
    by_contra hupper
    rw [Bool.not_eq_false] at hupper
    have hascii : u < 0x80 := by
      simp only [isUpperLetter, Bool.and_eq_true, decide_eq_true_eq,
        UInt16.le_iff_toNat_le] at hupper
      have hZ : (unit 'Z').toNat = 90 := by decide
      have h80 : (0x80 : CodeUnit).toNat = 128 := by decide
      rw [UInt16.lt_iff_toNat_lt]
      omega
    have hpart : isIdentifierPart u := by
      simp [isIdentifierPart, isIdentifierStart, isLetter, hascii, hupper]
    rw [isSeparator_of_part hpart] at h
    cases h
  rw [asciiLower, hupper]
  rfl

/-- A pattern without separators does not reach into a quiet text. -/
theorem Text.afterPrefix_quiet {p y : Text} (hp : p.all (!isSeparator ·)) (hy : IsQuiet y)
    (t : Text) : Text.afterPrefix p (t ++ y) = (Text.afterPrefix p t).map (· ++ y) := by
  induction p generalizing t with
  | nil => simp [Text.afterPrefix]
  | cons c p ih =>
    rw [List.all_cons, Bool.and_eq_true, Bool.not_eq_true'] at hp
    cases t with
    | nil =>
      cases y with
      | nil => rfl
      | cons u y =>
        have hne : (c == u) = false := by
          rw [beq_eq_false_iff_ne]
          rintro rfl
          exact absurd (hy c rfl) (by simp [hp.1])
        simp [Text.afterPrefix, hne]
    | cons u t =>
      simp only [List.cons_append, Text.afterPrefix]
      split
      · exact ih hp.2 t
      · rfl

namespace Number

variable {y : Text}

theorem takeWhile_quiet (hy : IsQuiet y) (t : Text) :
    (t ++ y).takeWhile isDigit = t.takeWhile isDigit :=
  IsQuiet.takeWhile_append (hy.head_of fun _ => isSeparator_of_digit) t

theorem dropWhile_quiet (hy : IsQuiet y) (t : Text) :
    (t ++ y).dropWhile isDigit = t.dropWhile isDigit ++ y :=
  IsQuiet.dropWhile_append (hy.head_of fun _ => isSeparator_of_digit) t

/-- Whether a minus sign stands before the digits of an exponent, and these digits. -/
def exponentSign (t : Text) : Bool × Text :=
  match t with
  | s :: more =>
    if s == unit '-' then (true, more) else if s == unit '+' then (false, more) else (false, t)
  | [] => (false, t)

theorem scanExponent_cons {e : CodeUnit} (he : (asciiLower e == unit 'e') = true) (rest : Text) :
    scanExponent (e :: rest) =
      if ((exponentSign rest).2.takeWhile isDigit).isEmpty then (0, e :: rest)
      else
        let n : Int := Text.readNat 10 ((exponentSign rest).2.takeWhile isDigit)
        (if (exponentSign rest).1 then -n else n, (exponentSign rest).2.dropWhile isDigit) := by
  simp only [scanExponent, he, if_true]
  rfl

theorem scanExponent_of_ne {e : CodeUnit} (he : (asciiLower e == unit 'e') = false) (rest : Text) :
    scanExponent (e :: rest) = (0, e :: rest) := by
  simp [scanExponent, he]

theorem exponentSign_quiet (hy : IsQuiet y) (t : Text) :
    exponentSign (t ++ y) = ((exponentSign t).1, (exponentSign t).2 ++ y) := by
  cases t with
  | nil =>
    cases y with
    | nil => rfl
    | cons u y =>
      have hminus := hy.head_beq (c := unit '-') (by decide) u rfl
      have hplus := hy.head_beq (c := unit '+') (by decide) u rfl
      simp [exponentSign, hminus, hplus]
  | cons s more =>
    simp only [List.cons_append, exponentSign]
    split
    · rfl
    · split <;> rfl

theorem scanExponent_quiet (hy : IsQuiet y) (t : Text) :
    scanExponent (t ++ y) = ((scanExponent t).1, (scanExponent t).2 ++ y) := by
  cases t with
  | nil =>
    cases y with
    | nil => rfl
    | cons u y =>
      have he : (asciiLower u == unit 'e') = false := by
        rw [asciiLower_of_separator (hy u rfl)]
        exact hy.head_beq (by decide) u rfl
      exact scanExponent_of_ne he y
  | cons e rest =>
    rw [List.cons_append]
    cases he : asciiLower e == unit 'e' with
    | true =>
      rw [scanExponent_cons he, scanExponent_cons he, exponentSign_quiet hy]
      dsimp only
      rw [takeWhile_quiet hy, dropWhile_quiet hy]
      split <;> rfl
    | false => rw [scanExponent_of_ne he, scanExponent_of_ne he, List.cons_append]

/-- The digits behind a decimal point, and what follows them. The point belongs to a number when a
digit stands on one of its sides. -/
def fraction (whole rest : Text) : Text × Text :=
  match rest with
  | d :: more =>
    if d == unit '.' then
      if whole.isEmpty && (more.takeWhile isDigit).isEmpty then ([], rest)
      else (more.takeWhile isDigit, more.dropWhile isDigit)
    else ([], rest)
  | [] => ([], rest)

theorem scanDecimal?_eq (t : Text) :
    scanDecimal? t =
      let whole := t.takeWhile isDigit
      let f := fraction whole (t.dropWhile isDigit)
      if whole.isEmpty && f.1.isEmpty then none
      else some (ofDecimal (Text.readNat 10 (whole ++ f.1)) ((scanExponent f.2).1 - f.1.length),
        (scanExponent f.2).2) := rfl

theorem fraction_quiet (hy : IsQuiet y) (whole t : Text) :
    fraction whole (t ++ y) = ((fraction whole t).1, (fraction whole t).2 ++ y) := by
  cases t with
  | nil =>
    cases y with
    | nil => rfl
    | cons u y =>
      have hdot := hy.head_beq (c := unit '.') (by decide) u rfl
      simp [fraction, hdot]
  | cons d more =>
    simp only [List.cons_append, fraction, takeWhile_quiet hy, dropWhile_quiet hy]
    split
    · split <;> rfl
    · rfl

theorem scanDecimal?_quiet (hy : IsQuiet y) (t : Text) :
    scanDecimal? (t ++ y) = (scanDecimal? t).map fun r => (r.1, r.2 ++ y) := by
  rw [scanDecimal?_eq, scanDecimal?_eq, takeWhile_quiet hy, dropWhile_quiet hy]
  simp only [fraction_quiet hy, scanExponent_quiet hy]
  split <;> rfl

theorem scanUnsigned?_quiet (hy : IsQuiet y) (t : Text) :
    scanUnsigned? (t ++ y) = (scanUnsigned? t).map fun r => (r.1, r.2 ++ y) := by
  rw [scanUnsigned?, scanUnsigned?, Text.afterPrefix_quiet (p := "Infinity") rfl hy]
  cases Text.afterPrefix "Infinity" t with
  | none => exact scanDecimal?_quiet hy t
  | some rest => rfl

theorem scanSigned?_quiet (hy : IsQuiet y) (t : Text) :
    scanSigned? (t ++ y) = (scanSigned? t).map fun r => (r.1, r.2 ++ y) := by
  cases t with
  | nil =>
    cases y with
    | nil => rfl
    | cons u y =>
      have hminus := hy.head_beq (c := unit '-') (by decide) u rfl
      have hplus := hy.head_beq (c := unit '+') (by decide) u rfl
      have hnone := scanUnsigned?_quiet hy []
      rw [List.nil_append] at hnone ⊢
      rw [scanSigned?, hminus, hplus, hnone]
      rfl
  | cons s rest =>
    have hwhole := scanUnsigned?_quiet hy (s :: rest)
    rw [List.cons_append] at hwhole ⊢
    rw [scanSigned?, scanSigned?, scanUnsigned?_quiet hy, hwhole]
    split
    · cases scanUnsigned? rest <;> rfl
    · split <;> rfl

end Number

namespace Program

section Tokens

variable {y : Text}

theorem identifier?_quiet (hy : IsQuiet y) (t : Text) :
    identifier? (t ++ y) = (identifier? t).map fun r => (r.1, r.2 ++ y) := by
  have hpart := hy.head_of fun _ => isSeparator_of_part
  cases t with
  | nil =>
    cases y with
    | nil => rfl
    | cons u y =>
      have hstart : isIdentifierStart u = false := by
        by_contra hstart
        have := isIdentifierPart_of_start (by simpa using hstart)
        rw [hpart u rfl] at this
        cases this
      simp [identifier?, hstart]
  | cons u t =>
    have htake := IsQuiet.takeWhile_append hpart (u :: t)
    have hdrop := IsQuiet.dropWhile_append hpart (u :: t)
    rw [List.cons_append] at htake hdrop ⊢
    rw [identifier?, identifier?, htake, hdrop]
    split <;> rfl

theorem startsWithUnit_quiet {c : Char} (hc : isSeparator (unit c) = false) (hy : IsQuiet y)
    (t : Text) : startsWithUnit c (t ++ y) = startsWithUnit c t := by
  cases t with
  | nil =>
    cases y with
    | nil => rfl
    | cons u y => exact hy.head_beq hc u rfl
  | cons u t => rfl

theorem afterWord?_quiet {word : String} (hw : (Text.ofString word).all (!isSeparator ·))
    (hy : IsQuiet y) (t : Text) : afterWord? word (t ++ y) = (afterWord? word t).map (· ++ y) := by
  rw [afterWord?, afterWord?, Text.afterPrefix_quiet hw hy]
  cases Text.afterPrefix word t with
  | none => rfl
  | some rest =>
    cases rest with
    | nil =>
      cases y with
      | nil => rfl
      | cons u y =>
        have hpart := hy.head_of (fun _ => isSeparator_of_part) u rfl
        simp [hpart]
    | cons u rest =>
      simp only [Option.map_some, List.cons_append]
      split <;> rfl

theorem afterOperator?_quiet (hy : IsQuiet y) (op : BinaryOp) (t : Text) :
    afterOperator? op (t ++ y) = (afterOperator? op t).map (· ++ y) := by
  have hsign : (Text.ofString op.sign).all (!isSeparator ·) := by cases op <;> rfl
  have hprefix := Text.afterPrefix_quiet hsign hy t
  have hequals := startsWithUnit_quiet (c := '=') (by decide) hy
  cases op with
  | within => exact afterWord?_quiet hsign hy t
  | add | subtract =>
    simp only [afterOperator?, hprefix]
    split
    · rename_i hrest
      obtain ⟨rest, hfound, rfl⟩ := Option.map_eq_some_iff.1 hrest
      simp only [hfound, hequals]
      split <;> rfl
    · rename_i hnone
      simp [Option.map_eq_none_iff.1 hnone]
  | _ => exact hprefix

theorem operator?_quiet (hy : IsQuiet y) (ops : List BinaryOp) (t : Text) :
    operator? ops (t ++ y) = (operator? ops t).map fun r => (r.1, r.2 ++ y) := by
  rw [operator?, operator?, List.map_findSome?]
  refine congrArg (List.findSome? · ops) (funext fun op => ?_)
  rw [afterOperator?_quiet hy]
  simp [Function.comp_def]

theorem head?_quiet (hy : IsQuiet y) (t : Text) :
    (t ++ y).head?.any isDigit = t.head?.any isDigit := by
  cases t with
  | nil =>
    cases y with
    | nil => rfl
    | cons u y => exact hy.head_of (fun _ => isSeparator_of_digit) u rfl
  | cons u t => rfl

theorem unaryOperator?_quiet (hy : IsQuiet y) (t : Text) :
    unaryOperator? (t ++ y) = (unaryOperator? t).map fun r => (r.1, r.2 ++ y) := by
  have htypeof : afterWord? "typeof" (t ++ y) = (afterWord? "typeof" t).map (· ++ y) :=
    afterWord?_quiet rfl hy t
  cases t with
  | nil =>
    rw [List.nil_append] at htypeof ⊢
    cases y with
    | nil => rfl
    | cons u y =>
      have hnot := hy.head_beq (c := unit '!') (by decide) u rfl
      have hminus := hy.head_beq (c := unit '-') (by decide) u rfl
      have hplus := hy.head_beq (c := unit '+') (by decide) u rfl
      simp only [unaryOperator?, hnot, hminus, hplus, htypeof]
      rfl
  | cons u t =>
    rw [List.cons_append] at htypeof ⊢
    simp only [unaryOperator?, head?_quiet hy, startsWithUnit_quiet (c := '=') (by decide) hy,
      htypeof]
    split
    · rfl
    · split
      · rfl
      · split
        · rfl
        · cases afterWord? "typeof" (u :: t) <;> rfl

theorem afterAssignment?_quiet (hy : IsQuiet y) (t : Text) :
    afterAssignment? (t ++ y) = (afterAssignment? t).map (· ++ y) := by
  cases t with
  | nil =>
    cases y with
    | nil => rfl
    | cons u y => simp [afterAssignment?, hy.head_beq (c := unit '=') (by decide) u rfl]
  | cons u t =>
    simp only [List.cons_append, afterAssignment?, startsWithUnit_quiet (c := '=') (by decide) hy]
    split <;> rfl

theorem afterQuestion?_quiet (hy : IsQuiet y) (t : Text) :
    afterQuestion? (t ++ y) = (afterQuestion? t).map (· ++ y) := by
  cases t with
  | nil =>
    cases y with
    | nil => rfl
    | cons u y => simp [afterQuestion?, hy.head_beq (c := unit '?') (by decide) u rfl]
  | cons u t =>
    simp only [List.cons_append, afterQuestion?, startsWithUnit_quiet (c := '?') (by decide) hy]
    split <;> rfl

theorem startsNumber_quiet (hy : IsQuiet y) (t : Text) :
    startsNumber (t ++ y) = startsNumber t := by
  cases t with
  | nil =>
    cases y with
    | nil => rfl
    | cons u y =>
      have hdigit := hy.head_of (fun _ => isSeparator_of_digit) u rfl
      have hminus := hy.head_beq (c := unit '-') (by decide) u rfl
      simp [startsNumber, hdigit, hminus]
  | cons u t => simp only [List.cons_append, startsNumber, head?_quiet hy]

theorem number_quiet (hy : IsQuiet y) (t : Text) :
    number (t ++ y) = ((number t).1, (number t).2 ++ y) := by
  rw [number, number, Number.scanSigned?_quiet hy]
  cases Number.scanSigned? t <;> rfl

/-- A quoted text ends at its quote, whatever is behind it. -/
theorem quoted?_append {quote : CodeUnit} {t v rest : Text} (h : quoted? quote t = some (v, rest))
    (y : Text) : quoted? quote (t ++ y) = some (v, rest ++ y) := by
  induction t using quoted?.induct quote generalizing v with
  | case1 => simp [quoted?.eq_def] at h
  | case2 u more hu =>
    rw [quoted?.eq_def] at h ⊢
    simp only [List.cons_append, hu, if_true] at h ⊢
    cases h
    rfl
  | case3 u hu hslash =>
    rw [quoted?.eq_def] at h
    simp [hu, hslash] at h
  | case4 u hu hslash e more ih =>
    rw [quoted?.eq_def] at h ⊢
    simp only [List.cons_append, hu, hslash, if_true] at h ⊢
    obtain ⟨⟨v', rest'⟩, hmore, hv⟩ := Option.map_eq_some_iff.1 h
    cases hv
    simp [ih hmore]
  | case5 u more hu hslash ih =>
    rw [quoted?.eq_def] at h ⊢
    simp only [List.cons_append, hu, hslash] at h ⊢
    obtain ⟨⟨v', rest'⟩, hmore, hv⟩ := Option.map_eq_some_iff.1 h
    cases hv
    simp [ih hmore]

end Tokens

/-- The same text, with more behind it that begins like `x`, white space aside. -/
def Continues (x t t' : Text) : Prop := ∃ y, skip y = skip x ∧ t' = t ++ y

/-- When one reading succeeds, the other one does, with a related result. -/
def Stays {α : Type} (R : α → α → Prop) (r r' : Except ParseFault α) : Prop :=
  ∀ a, r = .ok a → ∃ a', r' = .ok a' ∧ R a a'

/-- What is read is the same, and the other text goes on behind it. -/
def SameBut (x : Text) {α : Type} (p p' : α × Text) : Prop := p.1 = p'.1 ∧ Continues x p.2 p'.2

namespace Stays

variable {α β : Type} {R : α → α → Prop} {S : β → β → Prop}

theorem ok {a a' : α} (h : R a a') : Stays R (.ok a) (.ok a') := by
  rintro _ ⟨⟩
  exact ⟨a', rfl, h⟩

theorem error (f : ParseFault) (r' : Except ParseFault α) : Stays R (.error f) r' := by
  rintro _ ⟨⟩

theorem bind {r r' : Except ParseFault α} {f f' : α → Except ParseFault β} (h : Stays R r r')
    (hf : ∀ a a', R a a' → Stays S (f a) (f' a')) : Stays S (r >>= f) (r' >>= f') := by
  intro b hb
  cases r with
  | error e => cases hb
  | ok a =>
    obtain ⟨a', rfl, ha⟩ := h a rfl
    exact hf a a' ha b hb

end Stays

section Continuing

variable {x t t' : Text}

theorem isQuiet_of_skip_eq {y : Text} (hx : IsQuiet (skip x)) (h : skip y = skip x) :
    IsQuiet y := by
  rintro u hu
  obtain ⟨y, rfl⟩ : ∃ more, y = u :: more := List.head?_eq_some_iff.1 hu
  cases hblank : isBlank u with
  | true => simp [isSeparator, hblank]
  | false => exact hx u (by rw [← h, skip_cons hblank]; rfl)

theorem skip_append (t y : Text) :
    skip (t ++ y) = if (skip t).isEmpty then skip y else skip t ++ y :=
  List.dropWhile_append

/-- White space is skipped on both sides. -/
theorem Continues.skip (h : Continues x t t') : Continues x (skip t) (Program.skip t') := by
  obtain ⟨y, hy, rfl⟩ := h
  rw [skip_append]
  split
  · rename_i hnil
    exact ⟨Program.skip y, by rw [skip_skip, hy], by rw [List.isEmpty_iff.1 hnil, List.nil_append]⟩
  · exact ⟨y, hy, rfl⟩

theorem Continues.cons (h : Continues x t t') (u : CodeUnit) : Continues x (u :: t) (u :: t') := by
  obtain ⟨y, hy, rfl⟩ := h
  exact ⟨y, hy, rfl⟩

/-- What stands behind white space: the same unit on both sides, or nothing on the one and what
goes on there on the other. -/
theorem Continues.skip_cases (h : Continues x t t') :
    (∃ u r r', Program.skip t = u :: r ∧ Program.skip t' = u :: r' ∧ Continues x r r') ∨
      Program.skip t = [] ∧ Program.skip t' = Program.skip x := by
  obtain ⟨y, hy, rfl⟩ := h
  rw [skip_append]
  cases ht : Program.skip t with
  | nil => exact .inr ⟨rfl, hy⟩
  | cons u r => exact .inl ⟨u, r, r ++ y, rfl, rfl, y, hy, rfl⟩

theorem continues_nil (x : Text) : Continues x [] (Program.skip x) :=
  ⟨Program.skip x, skip_skip x, rfl⟩

/-- What is behind a text that goes on is quiet. -/
theorem Continues.exists_quiet (hx : IsQuiet (Program.skip x)) (h : Continues x t t') :
    ∃ y, IsQuiet y ∧ t' = t ++ y ∧ ∀ s, Continues x s (s ++ y) := by
  obtain ⟨y, hy, rfl⟩ := h
  exact ⟨y, isQuiet_of_skip_eq hx hy, rfl, fun s => ⟨y, hy, rfl⟩⟩

end Continuing

section Steps

variable {x t t' : Text}

/-- A unit that is expected is found on both sides. -/
theorem stays_expect (c : Char) (h : Continues x t t') :
    Stays (Continues x) (expect c t) (expect c t') := by
  simp only [expect]
  rcases h.skip_cases with ⟨u, r, r', ht, ht', hr⟩ | ⟨ht, -⟩
  · rw [ht, ht']
    dsimp only
    split
    · exact .ok hr
    · exact .error _ _
  · rw [ht]
    exact .error _ _

theorem stays_quoted (quote : CodeUnit) (h : Continues x t t') :
    Stays (SameBut x) (quoted quote t) (quoted quote t') := by
  obtain ⟨y, hy, rfl⟩ := h
  simp only [quoted]
  cases hq : quoted? quote t with
  | none => exact .error _ _
  | some r =>
    obtain ⟨v, rest⟩ := r
    rw [quoted?_append hq y]
    exact .ok ⟨rfl, y, hy, rfl⟩

theorem stays_propertyName (hx : IsQuiet (skip x)) (h : Continues x t t') (u : CodeUnit) :
    Stays (SameBut x) (propertyName u t) (propertyName u t') := by
  simp only [propertyName]
  obtain ⟨y, hy, ht, hbehind⟩ := h.exists_quiet hx
  split
  · exact stays_quoted u h
  · rw [ht, ← List.cons_append, number_quiet hy, identifier?_quiet hy]
    split
    · exact .ok ⟨rfl, hbehind _⟩
    · cases identifier? (u :: t) with
      | none => exact .error _ _
      | some r => exact .ok ⟨rfl, hbehind _⟩

end Steps

end Program

end PageTemplate
