import Mathlib.Algebra.Group.Nat.Defs
import PageTemplate.Expr.Parser
import PageTemplate.Proofs.Assoc
import PageTemplate.Proofs.Number

/-!
# PageTemplate.Proofs.Expr.Tokens

Expressions in writing. An expression is written as tokens with single spaces between them, and in
parentheses exactly where it stands as an operand of something that binds as tightly or more so.

How the reader takes single tokens off a text: words, numbers, quoted texts and operators, each with
white space before it and nothing else behind it.
-/

namespace PageTemplate

namespace Expr

/-- A text with a backslash before every quote and every backslash. -/
def escape : Text → Text
  | [] => []
  | u :: t =>
    if u == unit '"' || u == unit '\\' then unit '\\' :: u :: escape t else u :: escape t

/-- A text between quotes. -/
def quote (t : Text) : Text := unit '"' :: escape t ++ [unit '"']

/-- How tightly a binary operator binds. -/
def bindingOf : BinaryOp → Nat
  | .or => 1
  | .and => 2
  | .otherwise => 3
  | .identical | .distinct | .equal | .unequal => 4
  | .less | .greater | .atMost | .atLeast | .within => 5
  | .add | .subtract => 6
  | .multiply | .divide | .remainder => 7

/-- How tightly the outermost operator of an expression binds: assignments and conditions least,
members, calls and everything without an operator most. -/
def binding : Expr → Nat
  | .assignName .. | .assignMember .. | .ternary .. => 0
  | .binary op .. => bindingOf op
  | .unary .. => 8
  | .literal _ | .name _ | .member .. | .call .. | .array _ | .object _ => 9

end Expr

/-- A literal in writing. A number is written in decimal digits. -/
def Literal.print : Literal → Text
  | .undefined => "undefined"
  | .null => "null"
  | .bool b => if b then "true" else "false"
  | .number x =>
    match Number.toInt? x with
    | some n => Text.ofInt n
    | none => if x.isNaN then "NaN" else "Infinity"
  | .text t => Expr.quote t

namespace Expr

/-- The tokens of an operand, in parentheses unless it binds at least as tightly as asked for. -/
def operandTokens (least : Nat) (e : Expr) (tokens : List Text) : List Text :=
  if e.binding < least then [unit '('] :: tokens ++ [[unit ')']] else tokens

/-- The tokens of a key: a text in quotes, and anything else in brackets. -/
def keyTokens (key : Expr) (tokens : List Text) : List Text :=
  match key with
  | .literal (.text t) => [quote t]
  | _ => [unit '['] :: tokens ++ [[unit ']']]

mutual

def tokens : Expr → List Text
  | .literal l => [l.print]
  | .name n => [n]
  | .member holder property =>
    operandTokens 9 holder (tokens holder) ++ [unit '['] :: tokens property ++ [[unit ']']]
  | .call f arguments =>
    operandTokens 9 f (tokens f) ++ [unit '('] :: itemTokens arguments ++ [[unit ')']]
  | .unary op operand => Text.ofString op.sign :: operandTokens 8 operand (tokens operand)
  | .binary op left right =>
    operandTokens (bindingOf op) left (tokens left) ++
      Text.ofString op.sign :: operandTokens (bindingOf op + 1) right (tokens right)
  | .ternary condition consequent alternate =>
    operandTokens 1 condition (tokens condition) ++
      [unit '?'] :: tokens consequent ++ [unit ':'] :: tokens alternate
  | .array elements => [unit '['] :: itemTokens elements ++ [[unit ']']]
  | .object properties => [unit '\x7b'] :: propertyTokens properties ++ [[unit '\x7d']]
  | .assignName n value => n :: [unit '='] :: tokens value
  | .assignMember holder property value =>
    operandTokens 9 holder (tokens holder) ++ [unit '['] :: tokens property ++
      [unit ']'] :: [unit '='] :: tokens value

/-- The tokens of expressions with commas between them. -/
def itemTokens : List Expr → List Text
  | [] => []
  | [e] => tokens e
  | e :: es => tokens e ++ [unit ','] :: itemTokens es

/-- The tokens of properties with commas between them. -/
def propertyTokens : List (Expr × Expr) → List Text
  | [] => []
  | [(key, value)] => keyTokens key (tokens key) ++ [unit ':'] :: tokens value
  | (key, value) :: rest =>
    keyTokens key (tokens key) ++ [unit ':'] :: tokens value ++ [unit ','] :: propertyTokens rest

end

/-- The depth of an operand, one more in parentheses. -/
def operandDepth (least : Nat) (e : Expr) (depth : Nat) : Nat :=
  if e.binding < least then depth + 1 else depth

/-- The depth of a key. -/
def keyDepth (key : Expr) (depth : Nat) : Nat :=
  match key with
  | .literal (.text _) => 0
  | _ => depth + 1

mutual

/-- How deep expressions lie inside the writing of an expression: in brackets, parentheses and
braces, on both sides of a colon and behind an assignment sign. -/
def depth : Expr → Nat
  | .literal _ | .name _ => 0
  | .member holder property => max (operandDepth 9 holder (depth holder)) (depth property + 1)
  | .call f arguments => max (operandDepth 9 f (depth f)) (itemDepth arguments)
  | .unary _ operand => operandDepth 8 operand (depth operand)
  | .binary op left right =>
    max (operandDepth (bindingOf op) left (depth left))
      (operandDepth (bindingOf op + 1) right (depth right))
  | .ternary condition consequent alternate =>
    max (operandDepth 1 condition (depth condition))
      (max (depth consequent + 1) (depth alternate + 1))
  | .array elements => itemDepth elements
  | .object properties => propertyDepth properties
  | .assignName _ value => depth value + 1
  | .assignMember holder property value =>
    max (max (operandDepth 9 holder (depth holder)) (depth property + 1)) (depth value + 1)

def itemDepth : List Expr → Nat
  | [] => 0
  | e :: es => max (depth e + 1) (itemDepth es)

def propertyDepth : List (Expr × Expr) → Nat
  | [] => 0
  | (key, value) :: rest =>
    max (max (keyDepth key (depth key)) (depth value + 1)) (propertyDepth rest)

end

/-- How deep the reader nests expressions when it reads the writing of an expression. -/
def nesting (e : Expr) : Nat := depth e + 1

/-- A text that is read as a name: it begins as an identifier and goes on as one, and is neither a
word that writes a value nor one that is an operator. -/
structure IsName (n : Text) : Prop where
  identifier : ∃ u t, n = u :: t ∧ CodeUnit.isIdentifierStart u ∧ ∀ v ∈ t, CodeUnit.isIdentifierPart v
  notKeyword : n ∉ Program.keywords.map Prod.fst
  notOperator : n ≠ Text.ofString "in" ∧ n ≠ Text.ofString "typeof"

end Expr

/-- A literal that can be written. Of the numbers these are the whole ones from zero up to, not
including, 2^53, and those that have a name. -/
def Literal.IsPrintable : Literal → Prop
  | .number x =>
    x = Number.nan ∨ x = Number.infinity ∨ ∃ n, n < 2 ^ 53 ∧ x = Number.ofNat n
  | .undefined | .null | .bool _ | .text _ => True

namespace Expr

mutual

/-- An expression whose literals and names can be written. -/
def IsPrintable : Expr → Prop
  | .literal l => l.IsPrintable
  | .name n => IsName n
  | .member holder property => IsPrintable holder ∧ IsPrintable property
  | .call f arguments => IsPrintable f ∧ ItemsPrintable arguments
  | .unary _ operand => IsPrintable operand
  | .binary _ left right => IsPrintable left ∧ IsPrintable right
  | .ternary condition consequent alternate =>
    IsPrintable condition ∧ IsPrintable consequent ∧ IsPrintable alternate
  | .array elements => ItemsPrintable elements
  | .object properties => PropertiesPrintable properties
  | .assignName n value => IsName n ∧ IsPrintable value
  | .assignMember holder property value =>
    IsPrintable holder ∧ IsPrintable property ∧ IsPrintable value

def ItemsPrintable : List Expr → Prop
  | [] => True
  | e :: es => IsPrintable e ∧ ItemsPrintable es

def PropertiesPrintable : List (Expr × Expr) → Prop
  | [] => True
  | (key, value) :: rest => IsPrintable key ∧ IsPrintable value ∧ PropertiesPrintable rest

end

end Expr

namespace Program

/-- The tokens of statements with semicolons between them. -/
def tokens : Program → List Text
  | [] => []
  | [e] => e.tokens
  | e :: es => e.tokens ++ [unit ';'] :: tokens es

/-- A program in writing. -/
def print (program : Program) : Text := Text.join " " (tokens program)

end Program

/-! Single tokens. -/

namespace IdentifierTable

/-- Whether every range of one table lies within a range of another; both are in ascending order. -/
def coversAll : List (Nat × Nat) → List (Nat × Nat) → Bool
  | [], inner => inner.isEmpty
  | s :: outer, inner => coversAll outer (inner.dropWhile fun r => s.1 ≤ r.1 && r.2 ≤ s.2)

theorem exists_of_coversAll {outer inner : List (Nat × Nat)} (h : coversAll outer inner) :
    ∀ r ∈ inner, ∃ s ∈ outer, s.1 ≤ r.1 ∧ r.2 ≤ s.2 := by
  induction outer generalizing inner with
  | nil =>
    intro r hr
    rw [coversAll, List.isEmpty_iff] at h
    rw [h] at hr
    cases hr
  | cons s outer ih =>
    intro r hr
    rw [coversAll] at h
    rw [← List.takeWhile_append_dropWhile (p := fun r => decide (s.1 ≤ r.1) && decide (r.2 ≤ s.2))
      (l := inner)] at hr
    rcases List.mem_append.1 hr with hr | hr
    · have hcovers := List.mem_takeWhile_imp hr
      simp only [Bool.and_eq_true, decide_eq_true_eq] at hcovers
      exact ⟨s, List.mem_cons_self, hcovers⟩
    · obtain ⟨s', hs', hcovers⟩ := ih h r hr
      exact ⟨s', List.mem_cons_of_mem s hs', hcovers⟩

theorem inner_coversAll_start : coversAll inner start = true := by decide +kernel

end IdentifierTable

namespace CodeUnit

theorem isIdentifierPart_of_start {u : CodeUnit} (h : isIdentifierStart u) :
    isIdentifierPart u := by
  unfold isIdentifierPart
  split
  · simp [h]
  · rename_i hascii
    rw [isIdentifierStart, if_neg hascii] at h
    simp only [inRanges, List.any_eq_true, Bool.and_eq_true, decide_eq_true_eq] at h ⊢
    obtain ⟨r, hr, hlow, hhigh⟩ := h
    obtain ⟨s, hs, hleft, hright⟩ :=
      IdentifierTable.exists_of_coversAll IdentifierTable.inner_coversAll_start r hr
    exact ⟨s, hs, by omega, by omega⟩

/-- No unit of an identifier is white space. -/
theorem not_isBlank_of_isIdentifierPart {u : CodeUnit} (h : isIdentifierPart u) :
    isBlank u = false := by
  have hblanks : ∀ n ∈ [9, 10, 11, 12, 13, 32, 0xA0, 0x1680, 0x2000, 0x2001, 0x2002, 0x2003,
      0x2004, 0x2005, 0x2006, 0x2007, 0x2008, 0x2009, 0x200A, 0x2028, 0x2029, 0x202F, 0x205F,
      0x3000, 0xFEFF], isIdentifierPart (UInt16.ofNat n) = false := by decide +kernel
  by_contra hblank
  have hmem : u.toNat ∈ [9, 10, 11, 12, 13, 32, 0xA0, 0x1680, 0x2000, 0x2001, 0x2002, 0x2003,
      0x2004, 0x2005, 0x2006, 0x2007, 0x2008, 0x2009, 0x200A, 0x2028, 0x2029, 0x202F, 0x205F,
      0x3000, 0xFEFF] := by
    simp only [isBlank, Bool.or_eq_true, Bool.and_eq_true, decide_eq_true_eq, beq_iff_eq,
      Bool.not_eq_false, UInt16.le_iff_toNat_le, ← UInt16.toNat_inj] at hblank
    simp only [List.mem_cons, List.not_mem_nil, or_false]
    simp at hblank
    omega
  have := hblanks _ hmem
  rw [UInt16.ofNat_toNat, h] at this
  cases this

theorem not_isDigit_of_isIdentifierStart {u : CodeUnit} (h : isIdentifierStart u) :
    isDigit u = false := by
  have hdigits : ∀ n ∈ List.range' 48 10, isIdentifierStart (UInt16.ofNat n) = false := by decide
  by_contra hdigit
  have hrange := isDigit_iff.1 (by simpa using hdigit)
  have := hdigits u.toNat (by rw [List.mem_range'_1]; omega)
  rw [UInt16.ofNat_toNat, h] at this
  cases this

end CodeUnit

namespace Program

open CodeUnit

/-- Nothing stands behind a token but the end of the text or a space. -/
def IsApart (rest : Text) : Prop := ∀ u ∈ rest.head?, u = unit ' '

/-- Tokens in writing, each with a space before it. -/
def spaced (tokens : List Text) : Text := tokens.flatMap fun t => unit ' ' :: t

@[simp] theorem spaced_nil : spaced [] = [] := rfl

@[simp] theorem spaced_cons (t : Text) (tokens : List Text) :
    spaced (t :: tokens) = unit ' ' :: t ++ spaced tokens := rfl

@[simp] theorem spaced_append (s t : List Text) : spaced (s ++ t) = spaced s ++ spaced t :=
  List.flatMap_append

theorem isApart_nil : IsApart [] := by
  intro u hu
  cases hu

theorem isApart_space (rest : Text) : IsApart (unit ' ' :: rest) := by
  intro u hu
  exact (Option.some.inj hu).symm

theorem IsApart.not_part {rest : Text} (h : IsApart rest) :
    ∀ u ∈ rest.head?, isIdentifierPart u = false := by
  intro u hu
  rw [h u hu]
  decide

@[simp] theorem skip_space (t : Text) : skip (unit ' ' :: t) = skip t := rfl

theorem skip_cons {u : CodeUnit} (h : isBlank u = false) (t : Text) : skip (u :: t) = u :: t :=
  Text.trimStart_cons h t

@[simp] theorem skip_skip (t : Text) : skip (skip t) = skip t := by
  unfold skip Text.trimStart
  induction t with
  | nil => rfl
  | cons u t ih =>
    cases hu : isBlank u with
    | true => rw [List.dropWhile_cons_of_pos hu, ih]
    | false => rw [List.dropWhile_cons_of_neg (by simp [hu]), List.dropWhile_cons_of_neg (by simp [hu])]

/-- A word: it begins and goes on as an identifier and is no unary operator. -/
structure IsWord (w : Text) : Prop where
  start : ∃ u t, w = u :: t ∧ isIdentifierStart u
  parts : ∀ u ∈ w, isIdentifierPart u
  notOperator : w ≠ Text.ofString "typeof"

theorem identifier?_word {w rest : Text} (hw : IsWord w) (hrest : IsApart rest) :
    identifier? (w ++ rest) = some (w, rest) := by
  obtain ⟨u, t, rfl, hu⟩ := hw.start
  have htake := Text.takeWhile_append hw.parts hrest.not_part
  have hdrop := Text.dropWhile_append hw.parts hrest.not_part
  rw [List.cons_append] at htake hdrop ⊢
  simp only [identifier?, hu, if_true, htake, hdrop]

/-- A word that only begins like an operator is none. -/
theorem afterWord?_typeof {w rest : Text} (hw : IsWord w) (hrest : IsApart rest) :
    afterWord? "typeof" (w ++ rest) = none := by
  unfold afterWord?
  cases hafter : Text.afterPrefix "typeof" (w ++ rest) with
  | none => rfl
  | some r =>
    have happend := Text.afterPrefix_eq_some_iff.1 hafter
    have hletters : ∀ u ∈ Text.ofString "typeof", isIdentifierPart u := List.all_eq_true.1 rfl
    have hw' : w = Text.ofString "typeof" ++ r.takeWhile isIdentifierPart := by
      rw [← Text.takeWhile_append hw.parts hrest.not_part, happend,
        List.takeWhile_append_of_pos hletters]
    cases r with
    | nil => exact absurd (by simpa using hw') hw.notOperator
    | cons v r =>
      cases hv : isIdentifierPart v with
      | true => simp [hv]
      | false =>
        refine absurd ?_ hw.notOperator
        simpa [hv] using hw'

/-- A unit is not one that it does not share a property with. -/
theorem beq_eq_false_of {p : CodeUnit → Bool} {u v : CodeUnit} (hu : p u = true)
    (hv : p v = false) : (u == v) = false := by
  rw [beq_eq_false_iff_ne]
  rintro rfl
  rw [hu] at hv
  cases hv

theorem unaryOperator?_word {w rest : Text} (hw : IsWord w) (hrest : IsApart rest) :
    unaryOperator? (w ++ rest) = none := by
  have htypeof := afterWord?_typeof hw hrest
  obtain ⟨u, t, rfl, hu⟩ := hw.start
  rw [List.cons_append] at htypeof ⊢
  simp only [unaryOperator?, htypeof, beq_eq_false_of hu (v := unit '!') (by decide),
    beq_eq_false_of hu (v := unit '-') (by decide), beq_eq_false_of hu (v := unit '+') (by decide)]
  rfl

theorem primary_word {w rest : Text} (hw : IsWord w) (hrest : IsApart rest) (n d : Nat) :
    primary (n + 1) d (unit ' ' :: (w ++ rest)) = .ok (ofIdentifier w, rest) := by
  have hword := identifier?_word hw hrest
  obtain ⟨u, t, rfl, hu⟩ := hw.start
  have hblank := not_isBlank_of_isIdentifierPart (isIdentifierPart_of_start hu)
  have hdigit := not_isDigit_of_isIdentifierStart hu
  rw [List.cons_append] at hword ⊢
  simp only [primary, skip_space, skip_cons hblank, startsNumber, hdigit, hword,
    beq_eq_false_of hu (v := unit '(') (by decide), beq_eq_false_of hu (v := unit '[') (by decide),
    beq_eq_false_of hu (v := unit '\x7b') (by decide),
    beq_eq_false_of hu (v := unit '"') (by decide), beq_eq_false_of hu (v := unit '\'') (by decide),
    beq_eq_false_of hu (v := 0x60) (by decide), beq_eq_false_of hu (v := unit '-') (by decide)]
  rfl

theorem quoted?_close (quote : CodeUnit) (rest : Text) :
    quoted? quote (quote :: rest) = some ([], rest) := by
  rw [quoted?.eq_def]
  simp

theorem quoted?_escaped {quote u : CodeUnit} (h : (unit '\\' == quote) = false) (t : Text) :
    quoted? quote (unit '\\' :: u :: t) =
      (quoted? quote t).map fun (t, after) => (unescape u :: t, after) := by
  rw [quoted?.eq_def]
  simp [h]

theorem quoted?_plain {quote u : CodeUnit} (hquote : (u == quote) = false)
    (hslash : (u == unit '\\') = false) (t : Text) :
    quoted? quote (u :: t) = (quoted? quote t).map fun (t, after) => (u :: t, after) := by
  rw [quoted?.eq_def]
  simp [hquote, hslash]

/-- The escaped form of a text is read as the text. -/
theorem quoted?_escape (t rest : Text) :
    quoted? (unit '"') (Expr.escape t ++ unit '"' :: rest) = some (t, rest) := by
  induction t with
  | nil => exact quoted?_close _ rest
  | cons u t ih =>
    unfold Expr.escape
    split
    · rename_i h
      have hunescape : unescape u = u := by
        rcases Bool.or_eq_true_iff.1 h with h | h <;> rw [eq_of_beq h] <;> rfl
      rw [List.cons_append, List.cons_append, quoted?_escaped (by decide), ih, Option.map_some,
        hunescape]
    · rename_i h
      rw [Bool.or_eq_true_iff, not_or, Bool.not_eq_true, Bool.not_eq_true] at h
      rw [List.cons_append, quoted?_plain h.1 h.2, ih, Option.map_some]

theorem primary_quote (t rest : Text) (n d : Nat) :
    primary (n + 1) d (unit ' ' :: (Expr.quote t ++ rest)) = .ok (.literal (.text t), rest) := by
  have hquoted : quoted (unit '"') (Expr.escape t ++ unit '"' :: rest) = .ok (t, rest) := by
    rw [quoted, quoted?_escape]
  have hskip : ∀ s, skip (unit ' ' :: unit '"' :: s) = unit '"' :: s := fun s => rfl
  simp only [Expr.quote, List.cons_append, List.append_assoc, List.nil_append, primary, hskip]
  rw [if_neg (by decide), if_neg (by decide), if_neg (by decide), if_pos (by decide), hquoted]
  rfl

theorem ofNat_eq_cons (k : Nat) : ∃ u t, Text.ofNat k = u :: t ∧ isDigit u := by
  cases hdigits : Text.ofNat k with
  | nil => exact absurd hdigits (Text.ofNat_ne_nil k)
  | cons u t =>
    exact ⟨u, t, rfl, Text.isDigit_of_mem_ofNat (hdigits ▸ List.mem_cons_self)⟩

theorem not_isBlank_of_isDigit {u : CodeUnit} (h : isDigit u) : isBlank u = false := by
  have hpart : isIdentifierPart u := by
    have hascii : u < 0x80 := by
      have := isDigit_iff.1 h
      rw [UInt16.lt_iff_toNat_lt]
      have h80 : (0x80 : CodeUnit).toNat = 128 := by decide
      omega
    simp [isIdentifierPart, hascii, h]
  exact not_isBlank_of_isIdentifierPart hpart

theorem primary_ofNat {k : Nat} (hk : k < 2 ^ 53) {rest : Text} (hrest : IsApart rest)
    (n d : Nat) :
    primary (n + 1) d (unit ' ' :: (Text.ofNat k ++ rest)) =
      .ok (.literal (.number (Number.ofNat k)), rest) := by
  have hnumber : number (Text.ofNat k ++ rest) = (Number.ofNat k, rest) := by
    rw [number, Number.scanSigned?_ofNat hk hrest]
    rfl
  obtain ⟨u, t, hdigits, hu⟩ := ofNat_eq_cons k
  rw [hdigits, List.cons_append] at hnumber ⊢
  simp only [primary, skip_space, skip_cons (not_isBlank_of_isDigit hu), startsNumber, hu, hnumber,
    beq_eq_false_of hu (v := unit '(') (by decide), beq_eq_false_of hu (v := unit '[') (by decide),
    beq_eq_false_of hu (v := unit '\x7b') (by decide),
    beq_eq_false_of hu (v := unit '"') (by decide), beq_eq_false_of hu (v := unit '\'') (by decide),
    beq_eq_false_of hu (v := 0x60) (by decide)]
  rfl

theorem unaryOperator?_ofNat (k : Nat) (rest : Text) :
    unaryOperator? (Text.ofNat k ++ rest) = none := by
  obtain ⟨u, t, hdigits, hu⟩ := ofNat_eq_cons k
  have htypeof : Text.afterPrefix "typeof" (u :: (t ++ rest)) = none := by
    rw [Text.afterPrefix_eq_none_iff]
    intro hprefix
    have hhead : unit 't' = u := (List.cons_prefix_cons.1 hprefix).1
    rw [← hhead] at hu
    exact absurd hu (by decide)
  rw [hdigits, List.cons_append]
  simp only [unaryOperator?, afterWord?, htypeof,
    beq_eq_false_of hu (v := unit '!') (by decide),
    beq_eq_false_of hu (v := unit '-') (by decide), beq_eq_false_of hu (v := unit '+') (by decide)]
  rfl

/-- A unit that an expression can begin with: neither white space nor something that closes. -/
def opens (u : CodeUnit) : Bool :=
  !isBlank u && u != unit ')' && u != unit ']' && u != unit '\x7d' && u != unit ';'

theorem opens_of {p : CodeUnit → Bool} {u : CodeUnit} (hu : p u = true) (hblank : isBlank u = false)
    (hparenthesis : p (unit ')') = false) (hbracket : p (unit ']') = false)
    (hbrace : p (unit '\x7d') = false) (hsemicolon : p (unit ';') = false) : opens u := by
  simp [opens, hblank, bne, beq_eq_false_of hu hparenthesis, beq_eq_false_of hu hbracket,
    beq_eq_false_of hu hbrace, beq_eq_false_of hu hsemicolon]

/-- A token that stands for a whole operand: it is read as the expression and begins no unary
operator. -/
structure IsOperand (token : Text) (e : Expr) : Prop where
  first : ∃ u t, token = u :: t ∧ opens u
  notOperator : ∀ rest, IsApart rest → unaryOperator? (token ++ rest) = none
  primary : ∀ n d rest, IsApart rest →
    primary (n + 1) d (unit ' ' :: (token ++ rest)) = .ok (e, rest)

theorem IsWord.isOperand {w : Text} (hw : IsWord w) : IsOperand w (ofIdentifier w) where
  first := by
    obtain ⟨u, t, rfl, hu⟩ := hw.start
    have hblank := not_isBlank_of_isIdentifierPart (isIdentifierPart_of_start hu)
    exact ⟨u, t, rfl, opens_of hu hblank (by decide) (by decide) (by decide) (by decide)⟩
  notOperator := fun _ hrest => unaryOperator?_word hw hrest
  primary := fun n d _ hrest => primary_word hw hrest n d

theorem isOperand_quote (t : Text) : IsOperand (Expr.quote t) (.literal (.text t)) where
  first := ⟨unit '"', Expr.escape t ++ [unit '"'], rfl, by decide⟩
  notOperator := fun _ _ => rfl
  primary := fun n d rest _ => primary_quote t rest n d

theorem isOperand_ofNat {k : Nat} (hk : k < 2 ^ 53) :
    IsOperand (Text.ofNat k) (.literal (.number (Number.ofNat k))) where
  first := by
    obtain ⟨u, t, hdigits, hu⟩ := ofNat_eq_cons k
    have hblank := not_isBlank_of_isDigit hu
    exact ⟨u, t, hdigits, opens_of hu hblank (by decide) (by decide) (by decide) (by decide)⟩
  notOperator := fun rest _ => unaryOperator?_ofNat k rest
  primary := fun n d _ hrest => primary_ofNat hk hrest n d

theorem isWord_of_isName {n : Text} (h : Expr.IsName n) : IsWord n := by
  obtain ⟨u, t, rfl, hu, ht⟩ := h.identifier
  refine ⟨⟨u, t, rfl, hu⟩, ?_, h.notOperator.2⟩
  intro v hv
  rcases List.mem_cons.1 hv with rfl | hv
  · exact isIdentifierPart_of_start hu
  · exact ht v hv

theorem isOperand_name {n : Text} (h : Expr.IsName n) : IsOperand n (.name n) := by
  have hword : ofIdentifier n = .name n := by
    rw [ofIdentifier, Assoc.find?_of_not_mem h.notKeyword]
  rw [← hword]
  exact (isWord_of_isName h).isOperand

/-- A word that writes a value. -/
theorem isOperand_keyword {w : Text} {l : Literal} (hstart : ∃ u t, w = u :: t ∧ isIdentifierStart u)
    (hparts : w.all isIdentifierPart) (hne : w ≠ Text.ofString "typeof")
    (hl : Assoc.find? w keywords = some l) : IsOperand w (.literal l) := by
  have hword : ofIdentifier w = .literal l := by rw [ofIdentifier, hl]
  rw [← hword]
  exact IsWord.isOperand ⟨hstart, List.all_eq_true.1 hparts, hne⟩

/-- A literal in writing is read as the literal. -/
theorem isOperand_literal {l : Literal} (h : l.IsPrintable) : IsOperand l.print (.literal l) := by
  cases l with
  | undefined => exact isOperand_keyword ⟨_, _, rfl, by decide⟩ rfl (by decide) rfl
  | null => exact isOperand_keyword ⟨_, _, rfl, by decide⟩ rfl (by decide) rfl
  | bool b =>
    cases b with
    | true => exact isOperand_keyword ⟨_, _, rfl, by decide⟩ rfl (by decide) rfl
    | false => exact isOperand_keyword ⟨_, _, rfl, by decide⟩ rfl (by decide) rfl
  | text t => exact isOperand_quote t
  | number x =>
    rcases h with rfl | rfl | ⟨k, hk, rfl⟩
    · exact isOperand_keyword ⟨_, _, rfl, by decide⟩ rfl (by decide) rfl
    · exact isOperand_keyword ⟨_, _, rfl, by decide⟩ rfl (by decide) rfl
    · simp only [Literal.print, Number.toInt?_ofNat hk]
      exact isOperand_ofNat hk

end Program

end PageTemplate
