import PageTemplate.Proofs.Expr.Extension

/-!
# PageTemplate.Proofs.Expr.Induction

Induction over what is read. A property that goes over from the parts of an expression to the
whole, in every way that the reader puts one together, holds of whatever is read (`Closed.reads`).
How much deeper expressions may lie goes along as an index, which falls by one from an expression to
those in its brackets.
-/

namespace PageTemplate

namespace Program

/-- Whatever is read has a property. -/
def Gives {α : Type} (P : α → Prop) (r : Except ParseFault α) : Prop := ∀ a, r = .ok a → P a

section Combine

variable {α β : Type} {P : α → Prop} {Q : β → Prop}

theorem Gives.ok {a : α} (h : P a) : Gives P (.ok a) := by
  rintro _ ⟨⟩
  exact h

theorem Gives.error (f : ParseFault) : Gives P (.error f) := nofun

theorem Gives.bind {r : Except ParseFault α} {f : α → Except ParseFault β} (h : Gives P r)
    (hf : ∀ a, P a → Gives Q (f a)) : Gives Q (r >>= f) := by
  cases r with
  | error e => exact .error e
  | ok a => exact hf a (h a rfl)

theorem Gives.after {r : Except ParseFault α} {f : α → Except ParseFault β}
    (hf : ∀ a, Gives Q (f a)) : Gives Q (r >>= f) :=
  Gives.bind (P := fun _ => True) (fun _ _ => trivial) fun a _ => hf a

end Combine

/-- Properties that go over from the parts of what is read to the whole. `P d` is about expressions
that are read where `d` levels of nesting are left, `Q d` about the operands they consist of, and
`R d` about the keys and values of object literals. -/
structure Closed (P Q : Nat → Expr → Prop) (R : Nat → Expr → Expr → Prop) : Prop where
  operand : ∀ {d e}, Q d e → P (d + 1) e
  assignName : ∀ {d n value}, Q d (.name n) → P d value → P (d + 1) (.assignName n value)
  assignMember : ∀ {d holder property value}, Q d (.member holder property) → P d value →
    P (d + 1) (.assignMember holder property value)
  ternary : ∀ {d condition consequent alternate}, Q d condition → P d consequent →
    P d alternate → Q d (.ternary condition consequent alternate)
  binary : ∀ {d op left right}, Q d left → Q d right → Q d (.binary op left right)
  unary : ∀ {d op operand}, Q d operand → Q d (.unary op operand)
  point : ∀ {d holder} (n : Text), Q d holder → Q d (.member holder (.literal (.text n)))
  member : ∀ {d holder property}, Q d holder → P d property → Q d (.member holder property)
  call : ∀ {d f arguments}, Q d f → (∀ e ∈ arguments, P d e) → Q d (.call f arguments)
  parentheses : ∀ {d e}, P d e → Q d e
  array : ∀ {d elements}, (∀ e ∈ elements, P d e) → Q d (.array elements)
  object : ∀ {d properties}, (∀ p ∈ properties, R d p.1 p.2) → Q d (.object properties)
  literal : ∀ {d} (l : Literal), Q d (.literal l)
  word : ∀ {d t word rest}, identifier? t = some (word, rest) → Q d (ofIdentifier word)
  computed : ∀ {d key value}, P d key → P d value → R d key value
  named : ∀ {d value} (n : Text), P d value → R d (.literal (.text n)) value
  shorthand : ∀ {d} (n : Text), R d (.literal (.text n)) (.name n)

/-- With `n` steps, whatever is read has the property of its kind. -/
structure Reads (P Q : Nat → Expr → Prop) (R : Nat → Expr → Expr → Prop) (n : Nat) : Prop where
  expression : ∀ {d : Nat} {t : Text}, Gives (fun r => P d r.1) (expression n d t)
  ternary : ∀ {d : Nat} {t : Text}, Gives (fun r => Q d r.1) (ternary n d t)
  binary : ∀ {d : Nat} {levels : List (List BinaryOp)} {t : Text},
    Gives (fun r => Q d r.1) (binary n d levels t)
  climb : ∀ {d : Nat} {ops : List BinaryOp} {stronger : List (List BinaryOp)} {left : Expr}
    {t : Text}, Q d left → Gives (fun r => Q d r.1) (climb n d ops stronger left t)
  unary : ∀ {d : Nat} {t : Text}, Gives (fun r => Q d r.1) (unary n d t)
  postfixes : ∀ {d : Nat} {object : Expr} {t : Text}, Q d object →
    Gives (fun r => Q d r.1) (postfixes n d object t)
  items : ∀ {d : Nat} {close : Char} {t : Text},
    Gives (fun r => ∀ e ∈ r.1, P d e) (items n d close t)
  properties : ∀ {d : Nat} {t : Text},
    Gives (fun r => ∀ p ∈ r.1, R d p.1 p.2) (properties n d t)
  property : ∀ {d : Nat} {t : Text}, Gives (fun r => R d r.1.1 r.1.2) (property n d t)
  primary : ∀ {d : Nat} {t : Text}, Gives (fun r => Q d r.1) (primary n d t)

section Steps

variable {P Q : Nat → Expr → Prop} {R : Nat → Expr → Expr → Prop} {n d : Nat} {t : Text}

theorem reads_zero : Reads P Q R 0 where
  expression {_ _} := by rw [Program.expression]; exact .error _
  ternary {_ _} := by rw [Program.ternary]; exact .error _
  binary {_ _ _} := by rw [Program.binary]; exact .error _
  climb _ := by rw [Program.climb]; exact .error _
  unary {_ _} := by rw [Program.unary]; exact .error _
  postfixes _ := by rw [Program.postfixes]; exact .error _
  items {_ _ _} := by rw [Program.items]; exact .error _
  properties {_ _} := by rw [Program.properties]; exact .error _
  property {_ _} := by rw [Program.property]; exact .error _
  primary {_ _} := by rw [Program.primary]; exact .error _

/-- An assignment is to a name or to a member. -/
theorem Closed.assign (c : Closed P Q R) {target value e : Expr} (ht : Q d target)
    (hv : P d value) (h : assign? target value = some e) : P (d + 1) e := by
  cases target with
  | name n =>
    cases h
    exact c.assignName ht hv
  | member holder property =>
    cases h
    exact c.assignMember ht hv
  | _ => cases h

theorem Closed.expression_succ (c : Closed P Q R) (h : Reads P Q R n) :
    Gives (fun r => P d r.1) (Program.expression (n + 1) d t) := by
  cases d with
  | zero =>
    rw [Program.expression]
    · exact .error _
    · simp
  | succ d =>
    rw [Program.expression]
    refine h.ternary.bind fun _ htarget => ?_
    dsimp only at htarget ⊢
    split
    · exact .ok (c.operand htarget)
    · split
      · exact .error _
      refine h.expression.bind fun _ hvalue => ?_
      split
      · rename_i e he
        exact .ok (c.assign htarget hvalue he)
      · exact .error _

theorem Closed.ternary_succ (c : Closed P Q R) (h : Reads P Q R n) :
    Gives (fun r => Q d r.1) (Program.ternary (n + 1) d t) := by
  rw [Program.ternary]
  refine h.binary.bind fun _ hcondition => ?_
  dsimp only at hcondition ⊢
  split
  · exact .ok hcondition
  refine h.expression.bind fun _ hconsequent => ?_
  split
  · split
    · exact .error _
    · exact h.expression.bind fun _ halternate => .ok (c.ternary hcondition hconsequent halternate)
  · exact .error _

theorem Reads.binary_succ (h : Reads P Q R n) (levels : List (List BinaryOp)) :
    Gives (fun r => Q d r.1) (Program.binary (n + 1) d levels t) := by
  cases levels with
  | nil =>
    rw [Program.binary]
    exact h.unary
  | cons ops stronger =>
    rw [Program.binary]
    exact h.binary.bind fun _ hleft => h.climb hleft

theorem Closed.climb_succ (c : Closed P Q R) (h : Reads P Q R n) {ops : List BinaryOp}
    {stronger : List (List BinaryOp)} {left : Expr} (hleft : Q d left) :
    Gives (fun r => Q d r.1) (Program.climb (n + 1) d ops stronger left t) := by
  rw [Program.climb]
  dsimp only
  split
  · exact .ok hleft
  · exact h.binary.bind fun _ hright => h.climb (c.binary hleft hright)

theorem Closed.unary_succ (c : Closed P Q R) (h : Reads P Q R n) :
    Gives (fun r => Q d r.1) (Program.unary (n + 1) d t) := by
  rw [Program.unary]
  dsimp only
  split
  · exact h.unary.bind fun _ hoperand => .ok (c.unary hoperand)
  · exact h.primary.bind fun _ hobject => h.postfixes hobject

theorem Closed.postfixes_succ (c : Closed P Q R) (h : Reads P Q R n) {object : Expr}
    (hobject : Q d object) : Gives (fun r => Q d r.1) (Program.postfixes (n + 1) d object t) := by
  rw [Program.postfixes]
  dsimp only
  split
  · exact .ok hobject
  split
  · split
    · exact h.postfixes (c.point _ hobject)
    · exact .error _
  split
  · refine h.expression.bind fun _ hproperty => ?_
    exact .after fun _ => h.postfixes (c.member hobject hproperty)
  split
  · refine h.items.bind fun _ harguments => ?_
    exact .after fun _ => h.postfixes (c.call hobject harguments)
  · exact .ok hobject

theorem Reads.items_succ (h : Reads P Q R n) {close : Char} :
    Gives (fun r => ∀ e ∈ r.1, P d e) (Program.items (n + 1) d close t) := by
  rw [Program.items]
  dsimp only
  split
  · exact .ok (List.forall_mem_nil _)
  refine h.expression.bind fun _ hitem => ?_
  split
  · split
    · exact h.items.bind fun _ hmore => .ok (List.forall_mem_cons.2 ⟨hitem, hmore⟩)
    · exact .ok (List.forall_mem_singleton.2 hitem)
  · exact .ok (List.forall_mem_singleton.2 hitem)

theorem Reads.properties_succ (h : Reads P Q R n) :
    Gives (fun r => ∀ p ∈ r.1, R d p.1 p.2) (Program.properties (n + 1) d t) := by
  rw [Program.properties]
  dsimp only
  split
  · exact .ok (List.forall_mem_nil _)
  refine h.property.bind fun _ hp => ?_
  split
  · split
    · exact h.properties.bind fun _ hmore => .ok (List.forall_mem_cons.2 ⟨hp, hmore⟩)
    · exact .ok (List.forall_mem_singleton.2 hp)
  · exact .ok (List.forall_mem_singleton.2 hp)

/-- Behind a colon stands an expression; without one the key is a name as well. -/
theorem Closed.property_succ (c : Closed P Q R) (h : Reads P Q R n) :
    Gives (fun r => R d r.1.1 r.1.2) (Program.property (n + 1) d t) := by
  rw [Program.property]
  split
  · exact .error _
  split
  · refine h.expression.bind fun _ hkey => ?_
    refine .after fun _ => .after fun _ => h.expression.bind fun _ hvalue => ?_
    exact .ok (c.computed hkey hvalue)
  · refine .after fun _ => ?_
    dsimp only
    split
    · split
      · exact h.expression.bind fun _ hvalue => .ok (c.named _ hvalue)
      · exact .ok (c.shorthand _)
    · exact .ok (c.shorthand _)

theorem Closed.primary_succ (c : Closed P Q R) (h : Reads P Q R n) :
    Gives (fun r => Q d r.1) (Program.primary (n + 1) d t) := by
  rw [Program.primary]
  dsimp only
  split
  · exact .error _
  split
  · exact h.expression.bind fun _ he => .after fun _ => .ok (c.parentheses he)
  split
  · exact h.items.bind fun _ helements => .after fun _ => .ok (c.array helements)
  split
  · exact h.properties.bind fun _ hps => .after fun _ => .ok (c.object hps)
  split
  · exact .after fun _ => .ok (c.literal _)
  split
  · exact .ok (c.literal _)
  split
  · rename_i hword
    exact .ok (c.word hword)
  · exact .error _

end Steps

/-- **Induction over what is read.** Properties that go over from the parts to the whole hold of
whatever is read, by induction on the steps. -/
theorem Closed.reads {P Q : Nat → Expr → Prop} {R : Nat → Expr → Expr → Prop} (c : Closed P Q R)
    (n : Nat) : Reads P Q R n := by
  induction n with
  | zero => exact reads_zero
  | succ n ih =>
    exact {
      expression := c.expression_succ ih
      ternary := c.ternary_succ ih
      binary := ih.binary_succ _
      climb := c.climb_succ ih
      unary := c.unary_succ ih
      postfixes := c.postfixes_succ ih
      items := ih.items_succ
      properties := ih.properties_succ
      property := c.property_succ ih
      primary := c.primary_succ ih }

/-- What holds of every expression that is read holds of every statement of a program. -/
theorem forall_of_parse {S : Expr → Prop} {t : Text} {p : Program}
    (hS : ∀ {n t}, Gives (fun r => S r.1) (expression n maxNesting t)) (h : parse t = .ok p) :
    ∀ e ∈ p, S e := by
  have hstatements : ∀ (n : Nat) {t : Text} {p : Program}, statements n t = .ok p →
      ∀ e ∈ p, S e := by
    intro n
    induction n with
    | zero =>
      intro t p h
      rw [statements] at h
      cases h
    | succ n ih =>
      intro t p h
      by_cases hne : skipSeparators t = []
      · rw [statements_of_nil hne] at h
        cases h
        exact List.forall_mem_nil _
      · obtain ⟨e, rest, he, ⟨-, rfl⟩ | ⟨r, q, -, hq, rfl⟩⟩ := (statements_eq_ok hne).1 h
        · exact List.forall_mem_singleton.2 (hS _ he)
        · exact List.forall_mem_cons.2 ⟨hS _ he, ih hq⟩
  exact hstatements _ h

end Program

end PageTemplate
