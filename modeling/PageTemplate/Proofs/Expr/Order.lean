import PageTemplate.Expr.Evaluate
import PageTemplate.Proofs.Number.Difference
import PageTemplate.Proofs.Run

/-!
# PageTemplate.Proofs.Expr.Order

The relational operators. Each asks on which side of zero the difference of its operands lies, so
the four agree on the order of any two operands that have one. Texts have that of their units, and
numbers that of their exact values. Infinities of one sign are as NaN here: they have no order, and
none of the operators holds between them.
-/

namespace PageTemplate

namespace Expr

variable {env : Env} {w w₁ w₂ w₃ : World} {s : Site} {v u : Value} {o : Option Ordering}

/-- The orders in which a relational operator holds; `none` for the other operators. -/
def relation? : BinaryOp → Option (Ordering → Bool)
  | .less => some (· == .lt)
  | .greater => some (· == .gt)
  | .atMost => some Ordering.isLE
  | .atLeast => some Ordering.isGE
  | _ => none

/-- Which order is found between two values, if they have one. -/
def Compares (env : Env) (w : World) (v u : Value) (o : Option Ordering) (w₁ : World) : Prop :=
  ∃ x, M.run' env w (difference v u) = (.ok x, w₁) ∧ Number.sideOfZero x = o

theorem Compares.run'_applyBinary {op : BinaryOp} {p : Ordering → Bool}
    (h : Compares env w v u o w₁) (hop : relation? op = some p) :
    M.run' env w (applyBinary s op v u) = (.ok (.bool (o.any p)), w₁) := by
  obtain ⟨x, hx, rfl⟩ := h
  have key : ∀ {q : Prop} [Decidable q], (q ↔ (Number.sideOfZero x).any p) →
      M.run' env w₁ (pure (Value.bool (decide q)) : M Value) =
        (.ok (.bool ((Number.sideOfZero x).any p)), w₁) := by
    intro q _ hq
    rw [Bool.eq_iff_iff.2 (decide_eq_true_iff.trans hq)]
    rfl
  cases op <;> cases hop
  case less => exact (M.run'_bind_ok hx).trans (key Number.lt_zero_iff)
  case greater => exact (M.run'_bind_ok hx).trans (key Number.gt_zero_iff)
  case atMost => exact (M.run'_bind_ok hx).trans (key Number.le_zero_iff)
  case atLeast => exact (M.run'_bind_ok hx).trans (key Number.ge_zero_iff)

/-- A relational operator in a program is applied to the values of both its operands. -/
theorem run'_relational {op : BinaryOp} {l r : Expr} (hop : (relation? op).isSome)
    (hl : M.run' env w (l.evaluate s) = (.ok v, w₁))
    (hr : M.run' env w₁ (r.evaluate s) = (.ok u, w₂)) :
    M.run' env w (evaluate s (.binary op l r)) = M.run' env w₂ (applyBinary s op v u) := by
  have hsettles : M.run' env w₁ (settles op v) = (.ok false, w₁) := by
    cases op <;> first | rfl | cases hop
  rw [evaluate, M.run'_bind_ok hl, M.run'_bind_ok hsettles]
  simp only [Bool.false_eq_true, if_false]
  rw [M.run'_bind_ok hr]

/-- Whether an operator that is applied to two values answers if something is so. -/
def Tells (env : Env) (s : Site) (w : World) (op : BinaryOp) (v u : Value) (w₁ : World)
    (p : Prop) : Prop :=
  ∃ b : Bool, M.run' env w (applyBinary s op v u) = (.ok (.bool b), w₁) ∧ (b ↔ p)

/-- What the four relational operators answer when they are applied to two values. -/
structure Answers (env : Env) (s : Site) (w : World) (v u : Value) (w₁ : World)
    (less greater atMost atLeast : Prop) : Prop where
  less : Tells env s w .less v u w₁ less
  greater : Tells env s w .greater v u w₁ greater
  atMost : Tells env s w .atMost v u w₁ atMost
  atLeast : Tells env s w .atLeast v u w₁ atLeast

/-- Between values that have an order, the operators answer what the order of two elements of any
linear order says that are ordered like the values. -/
theorem Compares.answers {α : Type} [LinearOrder α] {o : Ordering} {a b : α}
    (h : Compares env w v u (some o) w₁) (ho : o.Compares a b) :
    Answers env s w v u w₁ (a < b) (b < a) (a ≤ b) (b ≤ a) := by
  refine ⟨⟨_, h.run'_applyBinary rfl, ?_⟩, ⟨_, h.run'_applyBinary rfl, ?_⟩,
    ⟨_, h.run'_applyBinary rfl, ?_⟩, ⟨_, h.run'_applyBinary rfl, ?_⟩⟩
  all_goals
    cases o with
    | lt => simp [show a < b from ho, (show a < b from ho).le, (show a < b from ho).not_gt]
    | eq => simp [show a = b from ho]
    | gt => simp [show b < a from ho, (show b < a from ho).le, (show b < a from ho).not_gt]

/-- **The operators agree.** Between values that have an order, `<=` is what `>` is not and `>=` is
what `<` is not, and one of `<`, `>` and both `<=` and `>=` holds and no two of them do. -/
theorem Compares.consistent {o : Ordering} (h : Compares env w v u (some o) w₁) :
    ∃ less greater, Answers env s w v u w₁ less greater (¬ greater) (¬ less) ∧
      ¬ (less ∧ greater) := by
  obtain ⟨a, b, ho⟩ : ∃ a b : Int, o.Compares a b := by
    cases o with
    | lt => exact ⟨0, 1, zero_lt_one⟩
    | eq => exact ⟨0, 0, rfl⟩
    | gt => exact ⟨1, 0, zero_lt_one⟩
  refine ⟨a < b, b < a, ?_, fun hboth => hboth.1.not_gt hboth.2⟩
  simpa only [not_lt] using h.answers ho

/-- Between values without an order no operator holds. -/
theorem Compares.answers_none (h : Compares env w v u none w₁) :
    Answers env s w v u w₁ False False False False :=
  ⟨⟨_, h.run'_applyBinary rfl, by decide⟩, ⟨_, h.run'_applyBinary rfl, by decide⟩,
    ⟨_, h.run'_applyBinary rfl, by decide⟩, ⟨_, h.run'_applyBinary rfl, by decide⟩⟩

theorem compares_text (env : Env) (w : World) (t₁ t₂ : Text) :
    ∃ o, Compares env w (.text t₁) (.text t₂) (some o) w ∧
      o.Compares (t₁.map UInt16.toNat) (t₂.map UInt16.toNat) := by
  have hrun : M.run' env w (difference (.text t₁) (.text t₂)) =
      (.ok (if Text.lessThan t₁ t₂ then -1.0 else if Text.lessThan t₂ t₁ then 1.0 else 0.0), w) :=
    rfl
  simp only [Text.lessThan_iff] at hrun
  rcases lt_trichotomy (t₁.map UInt16.toNat) (t₂.map UInt16.toNat) with h | h | h
  · rw [if_pos h] at hrun
    exact ⟨.lt, ⟨_, hrun, rfl⟩, h⟩
  · rw [h, if_neg (lt_irrefl _), if_neg (lt_irrefl _)] at hrun
    exact ⟨.eq, ⟨_, hrun, rfl⟩, h⟩
  · rw [if_neg h.not_gt, if_pos h] at hrun
    exact ⟨.gt, ⟨_, hrun, rfl⟩, h⟩

/-- **The order of texts.** Texts are in the order of their units. -/
theorem answers_text (t₁ t₂ : Text) :
    Answers env s w (.text t₁) (.text t₂) w
      (t₁.map UInt16.toNat < t₂.map UInt16.toNat) (t₂.map UInt16.toNat < t₁.map UInt16.toNat)
      (t₁.map UInt16.toNat ≤ t₂.map UInt16.toNat) (t₂.map UInt16.toNat ≤ t₁.map UInt16.toNat) := by
  obtain ⟨o, h, ho⟩ := compares_text env w t₁ t₂
  exact h.answers ho

section Numbers

variable {x y : Float}

theorem compares_number (htexts : ∀ t₁ t₂, v = .text t₁ → u ≠ .text t₂)
    (hv : M.run' env w (Convert.numberOf v) = (.ok x, w₁))
    (hu : M.run' env w₁ (Convert.numberOf u) = (.ok y, w₂)) :
    Compares env w v u (Number.order? x y) w₂ := by
  refine ⟨if x.isNaN || y.isNaN then Number.nan else x - y, ?_, ?_⟩
  · unfold difference
    split
    · exact absurd rfl (htexts _ _ rfl)
    · rw [M.run'_bind_ok hv, M.run'_bind_ok hu]
      rfl
  · split
    · rename_i h
      rw [Number.order?_eq_none (by simpa using h)]
      rfl
    · exact Number.sideOfZero_sub x y

theorem compares_number_swap (htexts : ∀ t₁ t₂, v = .text t₁ → u ≠ .text t₂)
    (hv : M.run' env w (Convert.numberOf v) = (.ok x, w))
    (hu : M.run' env w (Convert.numberOf u) = (.ok y, w)) :
    Compares env w u v ((Number.order? x y).map Ordering.swap) w := by
  rw [← Number.order?_swap]
  exact compares_number (fun t₁ t₂ hu hv => htexts t₂ t₁ hv hu) hu hv

/-- **The order of numbers.** Numbers other than NaN are in the order of their exact values, unless
they are infinities of one sign. -/
theorem answers_number (htexts : ∀ t₁ t₂, v = .text t₁ → u ≠ .text t₂)
    (hv : M.run' env w (Convert.numberOf v) = (.ok x, w₁))
    (hu : M.run' env w₁ (Convert.numberOf u) = (.ok y, w₂)) (hx : ¬ x.isNaN) (hy : ¬ y.isNaN)
    (h : x.isInf → Number.value x ≠ Number.value y) :
    Answers env s w v u w₂ (Number.value x < Number.value y) (Number.value y < Number.value x)
      (Number.value x ≤ Number.value y) (Number.value y ≤ Number.value x) := by
  have hcompares := compares_number htexts hv hu
  rw [Number.order?_eq_some hx hy h] at hcompares
  exact hcompares.answers (cmp_compares _ _)

/-- **No order.** None of the operators holds between infinities of one sign, nor when an operand is
NaN. -/
theorem answers_unordered (htexts : ∀ t₁ t₂, v = .text t₁ → u ≠ .text t₂)
    (hv : M.run' env w (Convert.numberOf v) = (.ok x, w₁))
    (hu : M.run' env w₁ (Convert.numberOf u) = (.ok y, w₂))
    (h : x.isNaN ∨ y.isNaN ∨ x.isInf ∧ Number.value x = Number.value y) :
    Answers env s w v u w₂ False False False False := by
  have hcompares := compares_number htexts hv hu
  rw [Number.order?, if_pos h] at hcompares
  exact hcompares.answers_none

example : M.run' env w (applyBinary s .atMost (.number Number.infinity) (.number Number.infinity)) =
    (.ok (.bool false), w) := by rfl

/-- `<` and `>` tell the order of the exact values also of infinities of one sign. -/
theorem tells_strict (htexts : ∀ t₁ t₂, v = .text t₁ → u ≠ .text t₂)
    (hv : M.run' env w (Convert.numberOf v) = (.ok x, w₁))
    (hu : M.run' env w₁ (Convert.numberOf u) = (.ok y, w₂)) (hx : ¬ x.isNaN) (hy : ¬ y.isNaN) :
    Tells env s w .less v u w₂ (Number.value x < Number.value y) ∧
      Tells env s w .greater v u w₂ (Number.value y < Number.value x) := by
  by_cases h : x.isInf ∧ Number.value x = Number.value y
  · have hanswers := answers_unordered (s := s) htexts hv hu (.inr (.inr h))
    rw [h.2, iff_false_intro (lt_irrefl _)]
    exact ⟨hanswers.less, hanswers.greater⟩
  · have hanswers := answers_number (s := s) htexts hv hu hx hy fun h' h'' => h ⟨h', h''⟩
    exact ⟨hanswers.less, hanswers.greater⟩

end Numbers

end Expr

end PageTemplate
