import PageTemplate.Expr.Evaluate
import PageTemplate.Proofs.Scope.Isolated

/-!
# PageTemplate.Proofs.Scope.Evaluate

An expression belongs to the scope in which it is evaluated: it sees what this scope and the scopes
around it bind, and binds nothing but the names that it assigns, in this scope itself.
-/

namespace PageTemplate

variable {env : Env} {Step : Properties → Properties → Prop} {c : ScopeId}

namespace World

/-- The value of a name, looked up through a number of scopes at most. -/
def lookup (w : World) (name : Text) : Nat → ScopeId → Option Value
  | 0, _ => none
  | n + 1, c =>
    match Assoc.find? name (w.bindings c), (w.scope c).parent with
    | some v, _ => some v
    | none, some p => w.lookup name n p
    | none, none => none

/-- The store with a name bound in a scope. -/
def bind (w : World) (c : ScopeId) (name : Text) (value : Value) : World :=
  let s : Scope := ⟨(w.scope c).parent, Assoc.put name value (w.bindings c)⟩
  { w with scopes := w.scopes.setIfInBounds c s }

theorem lookup_eq {live : ScopeId → Prop} {w v : World} (ha : w.AgreesOn live v)
    (hl : w.Encloses live) (name : Text) (n : Nat) {c : ScopeId} (hc : live c) :
    w.lookup name n c = v.lookup name n c := by
  induction n generalizing c with
  | zero => rfl
  | succ n ih =>
    rw [lookup, lookup, ← ha.bindings c hc, ← ha.parent c]
    cases Assoc.find? name (w.bindings c) with
    | some value => rfl
    | none =>
      cases hp : (w.scope c).parent with
      | none => rfl
      | some p => exact ih (hl.parent c p hc hp)

section Bind

variable {w : World} {name : Text} {value : Value}

@[simp] theorem size_bind : (w.bind c name value).scopes.size = w.scopes.size := by
  simp [bind]

theorem scope_bind_self (hc : c < w.scopes.size) :
    (w.bind c name value).scope c =
      ⟨(w.scope c).parent, Assoc.put name value (w.bindings c)⟩ := by
  simp [bind, scope, hc]

theorem scope_bind_other {d : ScopeId} (hd : d ≠ c) :
    (w.bind c name value).scope d = w.scope d := by
  simp [bind, scope, Array.getElem?_setIfInBounds_ne hd.symm]

theorem parent_bind (d : ScopeId) :
    ((w.bind c name value).scope d).parent = (w.scope d).parent := by
  by_cases hd : d = c
  · subst hd
    by_cases hlt : d < w.scopes.size
    · rw [scope_bind_self hlt]
    · simp [bind, scope, hlt]
  · rw [scope_bind_other hd]

theorem bindings_bind_self (hc : c < w.scopes.size) :
    (w.bind c name value).bindings c = Assoc.put name value (w.bindings c) := by
  rw [bindings, scope_bind_self hc]

theorem bindings_bind_other {d : ScopeId} (hd : d ≠ c) :
    (w.bind c name value).bindings d = w.bindings d := by
  rw [bindings, bindings, scope_bind_other hd]

end Bind

/-- Stores stay in agreement when the same is bound in both. -/
theorem AgreesOn.bind {live : ScopeId → Prop} {w v : World} (h : w.AgreesOn live v) {c : ScopeId}
    (hc : live c) (hlt : c < w.scopes.size) (name : Text) (value : Value) :
    (w.bind c name value).AgreesOn live (v.bind c name value) where
  cells := h.cells
  log := h.log
  warnings := h.warnings
  joining := h.joining
  size := by rw [size_bind, size_bind, h.size]
  parent d := by rw [parent_bind, parent_bind, h.parent]
  bindings d hd := by
    by_cases hdc : d = c
    · rw [hdc, bindings_bind_self hlt, bindings_bind_self (by rwa [← h.size]), h.bindings c hc]
    · rw [bindings_bind_other hdc, bindings_bind_other hdc, h.bindings d hd]

end World

namespace Scope

theorem run'_findWithin? (w : World) (name : Text) (n : Nat) (c : ScopeId) :
    M.run' env w (findWithin? name n c) = (.ok (w.lookup name n c), w) := by
  induction n generalizing c with
  | zero => rfl
  | succ n ih =>
    have hread : M.run' env w (read c) = (.ok (w.scope c), w) := rfl
    rw [findWithin?, World.lookup, M.run'_bind_ok hread, World.bindings]
    cases Assoc.find? name (w.scope c).bindings with
    | some value => rfl
    | none =>
      cases (w.scope c).parent with
      | none => rfl
      | some p => exact ih p

theorem run'_find? (w : World) (c : ScopeId) (name : Text) :
    M.run' env w (find? c name) = (.ok (w.lookup name (w.scopes.size + 1) c), w) := by
  rw [find?, M.run'_bind_ok (M.run'_get), run'_findWithin?]

theorem run'_bind (w : World) (c : ScopeId) {name : Text} (value : Value)
    (h : isBlockedName name = false) :
    M.run' env w (bind c name value) = (.ok (), w.bind c name value) := by
  unfold bind
  rw [h]
  rfl

theorem isolated_find? (name : Text) : Isolated env Step c (find? c name) (find? c name) := by
  intro live w v hc hl ha
  rw [run'_find?, run'_find?, World.lookup_eq ha hl name _ hc, ha.size]
  exact ⟨rfl, ha, .refl c w⟩

theorem isolated_bind {name : Text} {value : Value}
    (hs : ∀ b, Step b (Assoc.put name value b)) :
    Isolated env Step c (bind c name value) (bind c name value) := by
  intro live w v hc hl ha
  have hlt := hl.lt c hc
  cases hb : isBlockedName name with
  | true =>
    rw [bind, hb]
    exact ⟨rfl, ha, .refl c w⟩
  | false =>
    rw [run'_bind w c value hb, run'_bind v c value hb]
    refine ⟨rfl, ha.bind hc hlt name value, ⟨?_, fun d _ => ?_, fun d _ hd => ?_⟩, ?_⟩
    · exact Nat.le_of_eq World.size_bind.symm
    · exact World.parent_bind d
    · exact World.bindings_bind_other hd
    · rw [World.bindings_bind_self hlt]
      exact .single (hs _)

end Scope

/-! Names that are assigned. -/

namespace Expr

mutual

/-- The names that an expression assigns. -/
def assigned : Expr → List Text
  | .literal _ | .name _ => []
  | .member holder property => assigned holder ++ assigned property
  | .call f arguments => assigned f ++ assignedAll arguments
  | .unary _ operand => assigned operand
  | .binary _ left right => assigned left ++ assigned right
  | .ternary condition consequent alternate =>
    assigned condition ++ assigned consequent ++ assigned alternate
  | .array elements => assignedAll elements
  | .object properties => assignedProperties properties
  | .assignName n value => n :: assigned value
  | .assignMember holder property value =>
    assigned holder ++ assigned property ++ assigned value

def assignedAll : List Expr → List Text
  | [] => []
  | e :: es => assigned e ++ assignedAll es

def assignedProperties : List (Expr × Expr) → List Text
  | [] => []
  | (key, value) :: rest => assigned key ++ assigned value ++ assignedProperties rest

end

/-- A name out of some is bound to a value. -/
def Assigns (names : List Text) (before after : Properties) : Prop :=
  ∃ name ∈ names, ∃ value, after = Assoc.put name value before

/-! What an expression does besides going to its scope. -/

section Respects

variable {S : World → World → Prop} {s : Site}

omit c Step in
@[grind ←] theorem respects_reject {α : Type} (reason : Text) :
    Respects env S (s.reject reason : M α) := .throw _

section Reads

variable [KeptByReads env S]

@[grind ←] theorem respects_warnBlocked (what name : Text) :
    Respects env S (warnBlocked what name) := by
  unfold warnBlocked
  grind

@[grind ←] theorem respects_keyText (v : Value) : Respects env S (keyText s v) := by
  unfold keyText
  grind

@[grind ←] theorem respects_readMember (object : Value) (key : Text) :
    Respects env S (readMember object key) := by
  unfold readMember
  grind

@[grind ←] theorem respects_difference (v w : Value) : Respects env S (difference v w) := by
  unfold difference
  grind

@[grind ←] theorem respects_sum (v w : Value) : Respects env S (sum v w) := by
  unfold sum
  grind

@[grind ←] theorem respects_isWithin (key container : Value) :
    Respects env S (isWithin s key container) := by
  unfold isWithin
  cases container with
  | object id =>
    refine (Convert.respects_display key).bind fun name => .check (respects_reject _) ?_
    refine Store.respects_cell.bind fun cell => ?_
    cases cell <;> grind
  | _ => exact respects_reject _

@[grind ←] theorem respects_applyBinary (op : BinaryOp) (v w : Value) :
    Respects env S (applyBinary s op v w) := by
  unfold applyBinary
  cases op <;> grind

@[grind ←] theorem respects_settles (op : BinaryOp) (v : Value) :
    Respects env S (settles op v) := by
  unfold settles
  grind

@[grind ←] theorem respects_applyUnary (op : UnaryOp) (v : Value) :
    Respects env S (applyUnary op v) := by
  unfold applyUnary
  grind

@[grind ←] theorem respects_arrayLength (v : Value) : Respects env S (arrayLength v) := by
  unfold arrayLength
  grind

@[grind ←] theorem respects_method? (receiver : Value) (key : Text) :
    Respects env S (method? s receiver key) := by
  unfold method?
  grind

omit [KeptByReads env S] in
@[grind ←] theorem respects_callee (f : Value) (label : Text) :
    Respects env S (callee s f label) := by
  unfold callee
  grind

end Reads

@[grind ←] theorem respects_writeMember [KeptByWrites env S] (object : Value) (key : Text)
    (value : Value) : Respects env S (writeMember s object key value) := by
  unfold writeMember
  cases object with
  | object id =>
    refine .check (respects_reject _) (Store.respects_cell.bind fun cell => ?_)
    cases cell <;> grind
  | _ => exact respects_reject _

end Respects

section Isolated

variable (henv : env.SparesScopes) {names : List Text} {s : Site}

include henv

theorem isolated_lookup (name : Text) :
    Isolated env Step s.scope (lookup s name) (lookup s name) := by
  refine (Scope.isolated_find? name).bind fun found => .of_respects henv ?_
  intro env S _
  grind

omit henv in
theorem isolated_writeName {name : Text} (h : name ∈ names) (value : Value) :
    Isolated env (Assigns names) s.scope (writeName s name value) (writeName s name value) := by
  have hbind : Isolated env (Assigns names) s.scope (Scope.bind s.scope name value)
      (Scope.bind s.scope name value) := Scope.isolated_bind fun b => ⟨name, h, value, rfl⟩
  unfold writeName
  exact Isolated.ite (.bind (.throw _) fun _ => hbind) hbind

theorem isolated_keyText (v : Value) :
    Isolated env Step s.scope (keyText s v) (keyText s v) :=
  .of_respects henv fun _ _ _ => respects_keyText v

/-- The call of a function with arguments that belong to its scope. -/
theorem isolated_call {arguments : List Expr}
    (h : Isolated env Step s.scope (evaluateAll s arguments) (evaluateAll s arguments)) (f : Value)
    (label : Text) (receiver : Value) :
    Isolated env Step s.scope
      (do
        let f ← callee s f label
        M.call f receiver (← evaluateAll s arguments))
      (do
        let f ← callee s f label
        M.call f receiver (← evaluateAll s arguments)) :=
  .bind (.of_respects henv fun _ _ _ => respects_callee f label) fun f =>
    h.bind fun vs => .of_respects henv fun _ _ _ => .call f receiver vs

set_option linter.unusedSectionVars false in
mutual

/-- An expression belongs to its scope. -/
theorem isolated_evaluate (e : Expr) (h : e.assigned ⊆ names) :
    Isolated env (Assigns names) s.scope (evaluate s e) (evaluate s e) := by
  cases e with
  | literal l =>
    unfold evaluate
    exact .pure _
  | name n =>
    unfold evaluate
    exact isolated_lookup henv n
  | member holder property =>
    rw [assigned, List.append_subset] at h
    unfold evaluate
    refine (isolated_evaluate holder h.1).bind fun o => .ite (.pure _) ?_
    refine (isolated_evaluate property h.2).bind fun v => (isolated_keyText henv v).bind fun key => ?_
    exact .of_respects henv fun _ _ _ => respects_readMember o key
  | call f arguments =>
    rw [assigned, List.append_subset] at h
    have hcall := isolated_call henv (isolated_evaluateAll arguments h.2)
    cases f with
    | member holder property =>
      rw [assigned, List.append_subset] at h
      unfold evaluate
      refine (isolated_evaluate holder h.1.1).bind fun receiver =>
        (isolated_evaluate property h.1.2).bind fun v => (isolated_keyText henv v).bind fun key => ?_
      refine .bind (.of_respects henv fun _ _ _ => respects_method? receiver key) fun method => ?_
      cases method with
      | none => exact .pure _
      | some f => exact hcall f key receiver
    | _ =>
      unfold evaluate
      exact (isolated_evaluate _ h.1).bind fun f => hcall f _ .undefined
  | unary op operand =>
    rw [assigned] at h
    unfold evaluate
    exact (isolated_evaluate operand h).bind fun v =>
      .of_respects henv fun _ _ _ => respects_applyUnary op v
  | binary op left right =>
    rw [assigned, List.append_subset] at h
    unfold evaluate
    refine (isolated_evaluate left h.1).bind fun v => ?_
    refine .bind (.of_respects henv fun _ _ _ => respects_settles op v) fun settled => ?_
    refine .ite (.pure v) ((isolated_evaluate right h.2).bind fun w => ?_)
    exact .of_respects henv fun _ _ _ => respects_applyBinary op v w
  | ternary condition consequent alternate =>
    rw [assigned, List.append_subset, List.append_subset] at h
    unfold evaluate
    refine (isolated_evaluate condition h.1.1).bind fun v => ?_
    refine .bind (.of_respects henv fun _ _ _ => Present.respects_toBool v) fun holds => ?_
    exact .ite (isolated_evaluate consequent h.1.2) (isolated_evaluate alternate h.2)
  | array elements =>
    rw [assigned] at h
    unfold evaluate
    exact (isolated_evaluateAll elements h).bind fun vs =>
      .of_respects henv fun _ _ _ => Store.respects_newArray
  | object properties =>
    rw [assigned] at h
    unfold evaluate
    exact (isolated_evaluateProperties properties h).bind fun vs =>
      .of_respects henv fun _ _ _ => Store.respects_newRecord
  | assignName n value =>
    rw [assigned, List.cons_subset] at h
    unfold evaluate
    exact (isolated_evaluate value h.2).bind fun v =>
      (isolated_writeName h.1 v).bind fun _ => .pure v
  | assignMember holder property value =>
    rw [assigned, List.append_subset, List.append_subset] at h
    unfold evaluate
    refine (isolated_evaluate value h.2).bind fun v => (isolated_evaluate holder h.1.1).bind fun o =>
      (isolated_evaluate property h.1.2).bind fun k => (isolated_keyText henv k).bind fun key => ?_
    exact .bind (.of_respects henv fun _ _ _ => respects_writeMember o key v) fun _ => .pure v

theorem isolated_evaluateAll (es : List Expr) (h : assignedAll es ⊆ names) :
    Isolated env (Assigns names) s.scope (evaluateAll s es) (evaluateAll s es) := by
  cases es with
  | nil =>
    unfold evaluateAll
    exact .pure []
  | cons e es =>
    rw [assignedAll, List.append_subset] at h
    unfold evaluateAll
    exact (isolated_evaluate e h.1).bind fun v =>
      (isolated_evaluateAll es h.2).bind fun vs => .pure _

theorem isolated_evaluateProperties (properties : List (Expr × Expr))
    (h : assignedProperties properties ⊆ names) :
    Isolated env (Assigns names) s.scope (evaluateProperties s properties)
      (evaluateProperties s properties) := by
  cases properties with
  | nil =>
    unfold evaluateProperties
    exact .pure []
  | cons p rest =>
    obtain ⟨key, value⟩ := p
    rw [assignedProperties, List.append_subset, List.append_subset] at h
    have hrest := isolated_evaluateProperties rest h.2
    unfold evaluateProperties
    refine (isolated_evaluate key h.1.1).bind fun k => (isolated_keyText henv k).bind fun name => ?_
    refine .ite (.bind (.of_respects henv fun _ _ _ => respects_warnBlocked _ _) fun _ => hrest) ?_
    exact (isolated_evaluate value h.1.2).bind fun v => hrest.bind fun vs => .pure _

end

end Isolated

end Expr

namespace Program

/-- The names that statements assign. -/
def assigned (program : Program) : List Text := program.flatMap Expr.assigned

/-- The source binds a name that one of its assignments names. -/
def Assigns (source : Text) (before after : Properties) : Prop :=
  ∃ program, parse source = .ok program ∧ Expr.Assigns program.assigned before after

variable (henv : env.SparesScopes)

include henv

theorem isolated_run {names : List Text} (s : Expr.Site) (program : Program)
    (h : program.assigned ⊆ names) :
    Isolated env (Expr.Assigns names) s.scope (run s program) (run s program) := by
  induction program with
  | nil => exact .pure _
  | cons e es ih =>
    rw [assigned, List.flatMap_cons, List.append_subset] at h
    have he := Expr.isolated_evaluate henv (s := s) e h.1
    cases es with
    | nil => exact he
    | cons e' es => exact he.bind fun _ => ih h.2

/-- An evaluation sees the scopes around its own, and changes nothing but what this scope binds, by
assignments of its source. -/
theorem isolated_evaluateText (c : ScopeId) (source : Text) :
    Isolated env (Assigns source) c (evaluateText c source) (evaluateText c source) := by
  unfold evaluateText
  cases hp : parse source with
  | error e => exact .throw _
  | ok program =>
    exact (isolated_run henv ⟨source, c⟩ program (List.Subset.refl _)).mono
      fun _ _ hs => ⟨program, hp, hs⟩

end Program

end PageTemplate
