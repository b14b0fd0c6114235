import PageTemplate.Proofs.Expr.Induction
import PageTemplate.Proofs.Expr.RoundTrip

/-!
# PageTemplate.Proofs.Expr.Nesting

How deep expressions lie in one another. On every path down into an expression that is read, no more
than `maxNesting` steps lead into an index, an argument, a branch of a condition, an element, an
entry of an object or an assigned value (`nestsWithin_of_parse`), while expressions side by side may
be as many as one likes (`parse_siblings`).

Steps into the operand of a unary operator are not among these. The reader goes from one unary
operator to the next without a look at the limit, so an operand is read behind any number of them
(`parse_prefixed`), and no number bounds the paths on which they count (`exists_path_operands`).
-/

namespace PageTemplate

namespace Expr

/-- What an expression is to the one it stands in. -/
inductive Role where
  | holder | callee | operand | side | condition
  | index | argument | branch | element | entry | assigned
  deriving DecidableEq

/-- The roles that the limit of nesting is about. -/
def Role.isInner : Role → Bool
  | .index | .argument | .branch | .element | .entry | .assigned => true
  | .holder | .callee | .operand | .side | .condition => false

/-- One expression stands in another one, right below it and in a role. -/
inductive Part : Expr → Role → Expr → Prop where
  | holder {holder index : Expr} : Part (.member holder index) .holder holder
  | index {holder index : Expr} : Part (.member holder index) .index index
  | callee {f : Expr} {arguments : List Expr} : Part (.call f arguments) .callee f
  | argument {f e : Expr} {arguments : List Expr} (h : e ∈ arguments) :
    Part (.call f arguments) .argument e
  | operand {op : UnaryOp} {operand : Expr} : Part (.unary op operand) .operand operand
  | left {op : BinaryOp} {left right : Expr} : Part (.binary op left right) .side left
  | right {op : BinaryOp} {left right : Expr} : Part (.binary op left right) .side right
  | condition {condition consequent alternate : Expr} :
    Part (.ternary condition consequent alternate) .condition condition
  | consequent {condition consequent alternate : Expr} :
    Part (.ternary condition consequent alternate) .branch consequent
  | alternate {condition consequent alternate : Expr} :
    Part (.ternary condition consequent alternate) .branch alternate
  | element {e : Expr} {elements : List Expr} (h : e ∈ elements) :
    Part (.array elements) .element e
  | key {p : Expr × Expr} {properties : List (Expr × Expr)} (h : p ∈ properties) :
    Part (.object properties) .entry p.1
  | value {p : Expr × Expr} {properties : List (Expr × Expr)} (h : p ∈ properties) :
    Part (.object properties) .entry p.2
  | named {n : Text} {value : Expr} : Part (.assignName n value) .assigned value
  | targetHolder {holder index value : Expr} : Part (.assignMember holder index value) .holder holder
  | targetIndex {holder index value : Expr} : Part (.assignMember holder index value) .index index
  | assigned {holder index value : Expr} : Part (.assignMember holder index value) .assigned value

/-- A path down into an expression: the roles on it, and where it ends. -/
inductive Path : Expr → List Role → Expr → Prop where
  | here (e : Expr) : Path e [] e
  | down {e e' e'' : Expr} {r : Role} {roles : List Role} (part : Part e r e')
    (path : Path e' roles e'') : Path e (r :: roles) e''

/-- No path into an expression has more than so many roles that the limit of nesting is about. -/
def NestsWithin (n : Nat) (e : Expr) : Prop :=
  ∀ roles e', Path e roles e' → roles.countP Role.isInner ≤ n

/-- How deep expressions may nest in a part when they may nest one level deeper in the whole than
in what is inside it. -/
def Role.allows (d : Nat) (r : Role) : Nat := if r.isInner then d else d + 1

section

variable {n d : Nat} {e : Expr}

theorem NestsWithin.mono {m : Nat} (h : e.NestsWithin n) (hle : n ≤ m) : e.NestsWithin m :=
  fun roles e' hpath => Nat.le_trans (h roles e' hpath) hle

theorem nestsWithin_of_leaf (h : ∀ r e', ¬ Part e r e') (n : Nat) : e.NestsWithin n := by
  intro roles e' hpath
  cases hpath with
  | here => exact Nat.zero_le n
  | down part path => exact absurd part (h _ _)

theorem countP_cons_le_iff {r : Role} {roles : List Role} :
    (r :: roles).countP Role.isInner ≤ d + 1 ↔ roles.countP Role.isInner ≤ r.allows d := by
  rw [List.countP_cons, Role.allows]
  cases r.isInner with
  | true => simp
  | false => simp

/-- An expression nests as deep as its parts, and one level deeper than those inside it. -/
theorem nestsWithin_succ_iff :
    e.NestsWithin (d + 1) ↔ ∀ r e', Part e r e' → e'.NestsWithin (r.allows d) := by
  constructor
  · intro h r e' part roles e'' path
    exact countP_cons_le_iff.1 (h (r :: roles) e'' (.down part path))
  · intro h roles e'' path
    cases path with
    | here => exact Nat.zero_le _
    | down part path => exact countP_cons_le_iff.2 (h _ _ part _ e'' path)

end

end Expr

namespace Program

open PageTemplate.Expr (Part Path Role NestsWithin nestsWithin_of_leaf nestsWithin_succ_iff)

theorem nestsWithin_literal (l : Literal) (n : Nat) : (Expr.literal l).NestsWithin n :=
  nestsWithin_of_leaf (fun _ _ part => by cases part) n

theorem nestsWithin_name (name : Text) (n : Nat) : (Expr.name name).NestsWithin n :=
  nestsWithin_of_leaf (fun _ _ part => by cases part) n

theorem nestsWithin_ofIdentifier (word : Text) (n : Nat) : (ofIdentifier word).NestsWithin n := by
  rw [ofIdentifier]
  split
  · exact nestsWithin_literal _ n
  · exact nestsWithin_name word n

/-- What is read where `d` levels are left nests within `d`: each way of putting an expression
together takes a level off for what is inside it. -/
theorem closed_nestsWithin : Closed (fun d => NestsWithin d) (fun d => NestsWithin (d + 1))
    (fun d key value => key.NestsWithin d ∧ value.NestsWithin d) where
  operand := id
  assignName _ hvalue := nestsWithin_succ_iff.2 fun _ _ part => by
    cases part with
    | named => exact hvalue
  assignMember hmember hvalue := nestsWithin_succ_iff.2 fun _ _ part => by
    cases part with
    | targetHolder => exact nestsWithin_succ_iff.1 hmember _ _ .holder
    | targetIndex => exact nestsWithin_succ_iff.1 hmember _ _ .index
    | assigned => exact hvalue
  ternary hcondition hconsequent halternate := nestsWithin_succ_iff.2 fun _ _ part => by
    cases part with
    | condition => exact hcondition
    | consequent => exact hconsequent
    | alternate => exact halternate
  binary hleft hright := nestsWithin_succ_iff.2 fun _ _ part => by
    cases part with
    | left => exact hleft
    | right => exact hright
  unary hoperand := nestsWithin_succ_iff.2 fun _ _ part => by
    cases part with
    | operand => exact hoperand
  point _ hholder := nestsWithin_succ_iff.2 fun _ _ part => by
    cases part with
    | holder => exact hholder
    | index => exact nestsWithin_literal _ _
  member hholder hproperty := nestsWithin_succ_iff.2 fun _ _ part => by
    cases part with
    | holder => exact hholder
    | index => exact hproperty
  call hf harguments := nestsWithin_succ_iff.2 fun _ _ part => by
    cases part with
    | callee => exact hf
    | argument he => exact harguments _ he
  parentheses he := he.mono (Nat.le_succ _)
  array helements := nestsWithin_succ_iff.2 fun _ _ part => by
    cases part with
    | element he => exact helements _ he
  object hproperties := nestsWithin_succ_iff.2 fun _ _ part => by
    cases part with
    | key hp => exact (hproperties _ hp).1
    | value hp => exact (hproperties _ hp).2
  literal l := nestsWithin_literal l _
  word {_ _ word _} _ := nestsWithin_ofIdentifier word _
  computed hkey hvalue := ⟨hkey, hvalue⟩
  named n hvalue := ⟨nestsWithin_literal _ _, hvalue⟩
  shorthand n := ⟨nestsWithin_literal _ _, nestsWithin_name n _⟩

/-- **The limit of nesting bounds depth.** On every path into an expression that is read, at most
`maxNesting` steps lead into an index, an argument, a branch, an element, an entry or an assigned
value. -/
theorem nestsWithin_of_parse {t : Text} {p : Program} (h : parse t = .ok p) :
    ∀ e ∈ p, e.NestsWithin maxNesting :=
  forall_of_parse (fun {n _} => (closed_nestsWithin.reads n).expression) h

/-! What the limit leaves alone. -/

/-- A printable program is read back when its writing does not nest too deep. -/
theorem parse_print_of_depth {es : Program} (h : ∀ e ∈ es, e.IsPrintable)
    (hdepth : Expr.itemDepth es ≤ maxNesting) : parse (print es) = .ok es := by
  rw [parse_print_eq h, enough, if_pos hdepth]
  rfl

theorem itemsPrintable_iff {es : List Expr} :
    Expr.ItemsPrintable es ↔ ∀ e ∈ es, e.IsPrintable := by
  induction es with
  | nil => simp [Expr.ItemsPrintable]
  | cons e es ih => simp [Expr.ItemsPrintable, ih]

section Siblings

variable {f : Expr} {es : List Expr}

theorem itemDepth_singleton (e : Expr) : Expr.itemDepth [e] = e.nesting := by
  rw [Expr.itemDepth, Expr.itemDepth, Nat.max_zero, Expr.nesting]

/-- A call nests one level deeper than the function and the arguments in their writing. -/
theorem nesting_call_le {n : Nat} (hf : f.nesting ≤ n) (hes : ∀ e ∈ es, e.nesting ≤ n) :
    (Expr.call f es).nesting ≤ n + 1 := by
  have hfunction : Expr.operandDepth 9 f f.depth ≤ n := by
    rw [Expr.nesting] at hf
    unfold Expr.operandDepth
    split <;> omega
  have harguments := itemDepth_le_iff.2 hes
  rw [Expr.nesting, Expr.depth]
  omega

theorem nesting_array_le {n : Nat} (hes : ∀ e ∈ es, e.nesting ≤ n) :
    (Expr.array es).nesting ≤ n + 1 := by
  rw [Expr.nesting, Expr.depth]
  exact Nat.succ_le_succ (itemDepth_le_iff.2 hes)

/-- **The limit is on depth only.** Any number of expressions, each of them short of the limit, are
read side by side: as statements, as the elements of an array and as the arguments of a call. -/
theorem parse_siblings (hf : f.IsPrintable) (hes : ∀ e ∈ es, e.IsPrintable)
    (hfn : f.nesting < maxNesting) (hn : ∀ e ∈ es, e.nesting < maxNesting) :
    parse (print es) = .ok es ∧ parse (print [.array es]) = .ok [.array es] ∧
      parse (print [.call f es]) = .ok [.call f es] := by
  have hitems := itemsPrintable_iff.2 hes
  have hone : ∀ e : Expr, e.IsPrintable → e.nesting ≤ maxNesting → parse (print [e]) = .ok [e] := by
    intro e he hle
    refine parse_print_of_depth (List.forall_mem_singleton.2 he) ?_
    rw [itemDepth_singleton]
    exact hle
  refine ⟨parse_print_of_depth hes (itemDepth_le_iff.2 fun e he => (hn e he).le), ?_, ?_⟩
  · exact hone _ hitems (nesting_array_le fun e he => Nat.le_pred_of_lt (hn e he))
  · refine hone _ ⟨hf, hitems⟩ ?_
    exact nesting_call_le (Nat.le_pred_of_lt hfn) fun e he => Nat.le_pred_of_lt (hn e he)

end Siblings

section Brackets

/-- An empty array inside so many others. -/
def brackets : Nat → Expr
  | 0 => .array []
  | n + 1 => .array [brackets n]

theorem isPrintable_brackets (n : Nat) : (brackets n).IsPrintable := by
  induction n with
  | zero => exact trivial
  | succ n ih => exact ⟨ih, trivial⟩

theorem nesting_brackets (n : Nat) : (brackets n).nesting = n + 1 := by
  induction n with
  | zero => rfl
  | succ n ih => rw [Expr.nesting, brackets, Expr.depth, itemDepth_singleton, ih]

/-- Arrays in arrays are read up to the limit and not beyond it. -/
theorem parse_brackets (n : Nat) : parse (print [brackets n]) =
    if n < maxNesting then .ok [brackets n] else .error .tooDeep := by
  rw [parse_print_eq (List.forall_mem_singleton.2 (isPrintable_brackets n)), itemDepth_singleton,
    nesting_brackets, enough]
  by_cases h : n < maxNesting
  · rw [if_pos h, if_pos (Nat.succ_le_of_lt h)]
    rfl
  · rw [if_neg h, if_neg (show ¬ n + 1 ≤ maxNesting from h)]
    rfl

end Brackets

section Prefixes

/-- Unary operators before an operand. -/
def prefixed (ops : List UnaryOp) (e : Expr) : Expr := ops.foldr Expr.unary e

variable {e : Expr}

theorem binding_prefixed (h : 8 ≤ e.binding) (ops : List UnaryOp) :
    8 ≤ (prefixed ops e).binding := by
  cases ops with
  | nil => exact h
  | cons op ops => exact Nat.le_refl 8

theorem isPrintable_prefixed (h : e.IsPrintable) (ops : List UnaryOp) :
    (prefixed ops e).IsPrintable := by
  induction ops with
  | nil => exact h
  | cons op ops ih => exact ih

/-- Unary operators do not nest their operand. -/
theorem nesting_prefixed (h : 8 ≤ e.binding) (ops : List UnaryOp) :
    (prefixed ops e).nesting = e.nesting := by
  induction ops with
  | nil => rfl
  | cons op ops ih =>
    have hopen : ¬ (prefixed ops e).binding < 8 := Nat.not_lt.2 (binding_prefixed h ops)
    rw [← ih, Expr.nesting, Expr.nesting]
    change Expr.operandDepth 8 (prefixed ops e) (prefixed ops e).depth + 1 = _
    rw [Expr.operandDepth, if_neg hopen]

/-- Any number of unary operators is read before an operand that is itself short of the limit. -/
theorem parse_prefixed (h : e.IsPrintable) (hbinding : 8 ≤ e.binding)
    (hnesting : e.nesting ≤ maxNesting) (ops : List UnaryOp) :
    parse (print [prefixed ops e]) = .ok [prefixed ops e] := by
  refine parse_print_of_depth (List.forall_mem_singleton.2 (isPrintable_prefixed h ops)) ?_
  rw [itemDepth_singleton, nesting_prefixed hbinding]
  exact hnesting

/-- The path to an operand through the unary operators before it. -/
theorem path_prefixed (ops : List UnaryOp) (e : Expr) :
    Path (prefixed ops e) (List.replicate ops.length .operand) e := by
  induction ops with
  | nil => exact .here e
  | cons op ops ih => exact .down .operand ih

/-- **No number bounds the unary operators on a path.** For every number there is a source that is
read, with more operands of unary operators inside one another. -/
theorem exists_path_operands (n : Nat) : ∃ t e e' roles,
    parse t = .ok [e] ∧ Path e roles e' ∧ n < roles.count .operand := by
  have hone : (Expr.literal (.number (Number.ofNat 1))).IsPrintable :=
    .inr (.inr ⟨1, by decide, rfl⟩)
  have hread := parse_prefixed hone (by decide) (by decide) (List.replicate (n + 1) .not)
  refine ⟨_, _, _, _, hread, path_prefixed _ _, ?_⟩
  rw [List.count_replicate_self, List.length_replicate]
  exact Nat.lt_succ_self n

end Prefixes

end Program

end PageTemplate
