import PageTemplate.Proofs.Expr.Induction
import PageTemplate.Proofs.Expr.Sequence

/-!
# PageTemplate.Proofs.Expr.WellFormed

The names in a program that is read. A name that stands for a value, or that is assigned to, is a
whole identifier and none of the words that write a value. There is one exception: the property of
an object literal that is given without a value can be written as any key, and its key is then taken
for a name.
-/

namespace PageTemplate

namespace Expr

/-- A whole identifier that is none of the words that write a value. -/
structure IsIdentifier (n : Text) : Prop where
  identifier : (∃ u t, n = u :: t ∧ CodeUnit.isIdentifierStart u) ∧
    ∀ u ∈ n, CodeUnit.isIdentifierPart u
  notKeyword : n ∉ Program.keywords.map Prod.fst

/-- A key that is taken for a name. -/
def IsShorthand (key value : Expr) : Prop := ∃ n, key = .literal (.text n) ∧ value = .name n

mutual

/-- An expression whose names are identifiers, those that are taken from keys apart. -/
def IsWellFormed : Expr → Prop
  | .literal _ => True
  | .name n => IsIdentifier n
  | .member holder property => IsWellFormed holder ∧ IsWellFormed property
  | .call f arguments => IsWellFormed f ∧ ItemsWellFormed arguments
  | .unary _ operand => IsWellFormed operand
  | .binary _ left right => IsWellFormed left ∧ IsWellFormed right
  | .ternary condition consequent alternate =>
    IsWellFormed condition ∧ IsWellFormed consequent ∧ IsWellFormed alternate
  | .array elements => ItemsWellFormed elements
  | .object properties => PropertiesWellFormed properties
  | .assignName n value => IsIdentifier n ∧ IsWellFormed value
  | .assignMember holder property value =>
    IsWellFormed holder ∧ IsWellFormed property ∧ IsWellFormed value

def ItemsWellFormed : List Expr → Prop
  | [] => True
  | e :: es => IsWellFormed e ∧ ItemsWellFormed es

def PropertiesWellFormed : List (Expr × Expr) → Prop
  | [] => True
  | (key, value) :: rest =>
    (IsWellFormed key ∧ IsWellFormed value ∨ IsShorthand key value) ∧ PropertiesWellFormed rest

end

end Expr

namespace Program

open PageTemplate.Expr (IsIdentifier IsShorthand IsWellFormed ItemsWellFormed PropertiesWellFormed)

theorem itemsWellFormed_iff {es : List Expr} :
    ItemsWellFormed es ↔ ∀ e ∈ es, e.IsWellFormed := by
  induction es with
  | nil => simp [ItemsWellFormed]
  | cons e es ih => simp [ItemsWellFormed, ih]

theorem propertiesWellFormed_iff {ps : List (Expr × Expr)} :
    PropertiesWellFormed ps ↔
      ∀ p ∈ ps, p.1.IsWellFormed ∧ p.2.IsWellFormed ∨ IsShorthand p.1 p.2 := by
  induction ps with
  | nil => simp [PropertiesWellFormed]
  | cons p ps ih => rw [PropertiesWellFormed, ih, List.forall_mem_cons]

/-- An identifier is a name, unless it writes a value. -/
theorem isWellFormed_identifier? {t word rest : Text} (h : identifier? t = some (word, rest)) :
    (ofIdentifier word).IsWellFormed := by
  rw [ofIdentifier]
  split
  · trivial
  · rename_i hkeyword
    refine ⟨?_, Assoc.not_mem_of_find? hkeyword⟩
    cases t with
    | nil => cases h
    | cons u t =>
      rw [identifier?] at h
      split at h
      · rename_i hstart
        cases h
        refine ⟨⟨u, t.takeWhile CodeUnit.isIdentifierPart, ?_, hstart⟩,
          fun v hv => List.mem_takeWhile_imp hv⟩
        exact List.takeWhile_cons_of_pos (CodeUnit.isIdentifierPart_of_start hstart)
      · cases h

/-- Whatever is put together from well-formed parts is well formed, for names come from identifiers
alone, shorthand properties apart. -/
theorem closed_isWellFormed : Closed (fun _ => IsWellFormed) (fun _ => IsWellFormed)
    (fun _ key value => key.IsWellFormed ∧ value.IsWellFormed ∨ IsShorthand key value) where
  operand := id
  assignName hn hvalue := ⟨hn, hvalue⟩
  assignMember hmember hvalue := ⟨hmember.1, hmember.2, hvalue⟩
  ternary hcondition hconsequent halternate := ⟨hcondition, hconsequent, halternate⟩
  binary hleft hright := ⟨hleft, hright⟩
  unary := id
  point _ hholder := ⟨hholder, trivial⟩
  member hholder hproperty := ⟨hholder, hproperty⟩
  call hf harguments := ⟨hf, itemsWellFormed_iff.2 harguments⟩
  parentheses := id
  array helements := itemsWellFormed_iff.2 helements
  object hproperties := propertiesWellFormed_iff.2 hproperties
  literal _ := trivial
  word := isWellFormed_identifier?
  computed hkey hvalue := .inl ⟨hkey, hvalue⟩
  named _ hvalue := .inl ⟨trivial, hvalue⟩
  shorthand n := .inr ⟨n, rfl, rfl⟩

/-- **A program that is read is well formed.** Wherever a name stands for a value, and wherever one
is assigned to, it is a whole identifier that is none of the words for values; only a property that
is given without a value takes any key for a name. -/
theorem isWellFormed_of_parse {t : Text} {p : Program} (h : parse t = .ok p) :
    ∀ e ∈ p, e.IsWellFormed :=
  forall_of_parse (fun {n _} => (closed_isWellFormed.reads n).expression) h

section Shorthand

/-- The object literal of one property in quotes without a value. -/
def shorthand (n : Text) : Text := unit '\x7b' :: (Expr.quote n ++ [unit '\x7d'])

variable (k d : Nat) (n : Text)

theorem quote_brace : Expr.quote n ++ [unit '\x7d'] =
    unit '"' :: (Expr.escape n ++ unit '"' :: [unit '\x7d']) := by
  simp [Expr.quote]

theorem property_shorthand : property (k + 1) d (Expr.quote n ++ [unit '\x7d']) =
    .ok ((.literal (.text n), .name n), [unit '\x7d']) := by
  have hname : propertyName (unit '"') (Expr.escape n ++ unit '"' :: [unit '\x7d']) =
      .ok (n, [unit '\x7d']) := by
    rw [propertyName, if_pos (by decide), quoted, quoted?_escape]
  rw [quote_brace, property, skip_cons (by decide)]
  simp only [hname]
  rw [if_neg (by decide)]
  rfl

theorem properties_shorthand : properties (k + 2) d (Expr.quote n ++ [unit '\x7d']) =
    .ok ([(.literal (.text n), .name n)], [unit '\x7d']) := by
  have hskip : skip (Expr.quote n ++ [unit '\x7d']) = Expr.quote n ++ [unit '\x7d'] := by
    rw [quote_brace, skip_cons (by decide)]
  have hopen : startsWithUnit '\x7d' (Expr.quote n ++ [unit '\x7d']) = false := rfl
  rw [properties, hskip]
  simp only [hopen, property_shorthand]
  rfl

theorem unary_shorthand :
    unary (k + 4) d (shorthand n) = .ok (.object [(.literal (.text n), .name n)], []) := by
  have hskip : skip (shorthand n) = shorthand n := skip_cons (by decide) _
  have hprimary : primary (k + 3) d (shorthand n) =
      .ok (.object [(.literal (.text n), .name n)], []) := by
    rw [primary, hskip]
    simp only [shorthand]
    rw [if_neg (by decide), if_neg (by decide), if_pos (by decide), properties_shorthand]
    rfl
  have hoperator : unaryOperator? (shorthand n) = none := rfl
  rw [unary, hskip, hoperator]
  simp only [hprimary]
  exact postfixes_end (by omega) rfl

/-- Every text whatever is a name when it is given in quotes as a property without a value. -/
theorem parse_shorthand : parse (shorthand n) = .ok [.object [(.literal (.text n), .name n)]] := by
  have htrim : (shorthand n).trim = shorthand n := by
    change Text.trimEnd (skip (shorthand n)) = shorthand n
    rw [shorthand, skip_cons (by decide)]
    refine Text.trimEnd_eq_self fun u hu => ?_
    rw [← List.cons_append, List.getLast?_concat] at hu
    cases hu
    decide
  obtain ⟨k, hk⟩ : ∃ k, operandFuel (shorthand n) = k + 4 :=
    ⟨operandFuel (shorthand n) - 4, by rw [operandFuel, fuelFor]; omega⟩
  have hunary := unary_shorthand k (maxNesting - 1) n
  rw [← hk] at hunary
  rw [parse, htrim]
  exact statements_alone (by decide) hunary rfl _

end Shorthand

end Program

end PageTemplate
