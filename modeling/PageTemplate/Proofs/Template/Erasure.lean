import PageTemplate.Proofs.Template.Observer

/-!
# PageTemplate.Proofs.Template.Erasure

Observing an expansion does not change it. When an observer takes every step as it is, the observed
expander does what the expander does.
-/

namespace PageTemplate

open Recorded (Erases)

/-- The observer takes every step of the expander as it is. -/
structure Observer.Faithful {ε : Type} (o : Observer (Recorded ε)) (x : Expander) : Prop where
  step {α : Type} (action : M α) : (o.step action).Erases action
  look {α : Type} (action : M α) : (o.look action).Erases action
  making {α : Type} (action : M α) : (o.making action).Erases action
  evaluate (scope : ScopeId) (source : Text) :
    (o.evaluate scope source).Erases (x.evaluate scope source)
  loaded (markup : Text) : (o.loaded markup).Erases (pure ())
  leave (inner : ScopeId) : (o.leave inner).Erases (pure ())

namespace Observer.Faithful

variable {ε : Type} {o : Observer (Recorded ε)} {x : Expander} (h : o.Faithful x)
  {scope : ScopeId}

include h

theorem substituteText (encode : Value → M Value) (place t : Text) :
    (o.substituteText scope encode place t).Erases
      (Marker.substitute (x.evaluate scope) encode place t) := by
  unfold Observer.substituteText Marker.substitute
  refine .bind (.mapM (fun marker => ?_) _) fun parts => ?_
  · obtain ⟨before, code⟩ := marker
    exact (h.evaluate scope code).bind fun v => (h.look _).bind fun encoded =>
      (h.look _).bind fun part => .pure _
  · exact .ite ((h.step _).bind fun _ => .pure _) (.pure _)

theorem expandAttribute (attributes name value : Value) :
    (o.expandAttribute attributes scope name value).Erases
      (x.expandAttribute attributes scope name value) := by
  unfold Observer.expandAttribute Expander.expandAttribute
  refine .ite ((h.look _).bind fun shown => .bind ?_ fun v => h.step _) (.pure _)
  unfold Observer.substitute Expander.substitute
  cases value with
  | text t => exact (h.substituteText _ _ t).bind fun t => .pure _
  | _ => exact h.look _

theorem expandEntries (id : ObjectId) (n place : Nat) :
    (o.expandEntries scope id n place).Erases (x.expandEntries scope id n place) := by
  induction n generalizing place with
  | zero => exact h.step _
  | succ n ih =>
    unfold Observer.expandEntries Expander.expandEntries
    refine (h.step _).bind fun cell => ?_
    cases cell with
    | map entries =>
      dsimp only
      cases entries[place]? with
      | none => exact .pure _
      | some entry =>
        cases entry with
        | none => exact ih (place + 1)
        | some entry => exact (h.expandAttribute _ _ _).bind fun _ => ih (place + 1)
    | _ => exact h.step _

theorem visit {α : Type} (v : Value) {action : Value → Nat → Recorded ε α}
    {action' : Value → Nat → M α} (ha : ∀ item i, (action item i).Erases (action' item i)) :
    (o.visit v action).Erases (Sequence.visit v action') := by
  have hfrom : ∀ n place done,
      (o.visitFrom v action n place done).Erases (Sequence.visitFrom v action' n place done) := by
    intro n
    induction n with
    | zero => exact fun _ _ => h.step _
    | succ n ih =>
      intro place done
      unfold Observer.visitFrom Sequence.visitFrom
      refine (h.look _).bind fun turn => ?_
      cases turn with
      | done => exact .pure _
      | vacant => exact ih _ _
      | item item => exact (ha item _).bind fun a => ih _ _
  unfold Observer.visit Sequence.visit
  cases v with
  | text t => exact .mapM (fun (item : Value × Nat) => ha item.1 item.2) _
  | _ => exact hfrom _ _ _

theorem expandAttributes (element : Value) :
    (o.expandAttributes element scope).Erases (x.expandAttributes element scope) := by
  unfold Observer.expandAttributes Expander.expandAttributes
  refine (h.step _).bind fun attributes => (h.look _).bind fun entries => ?_
  cases entries with
  | some entries => exact h.expandEntries _ _ _
  | none =>
    exact .discard (h.visit _ fun entry _ => (h.look _).bind fun parts => h.expandAttribute _ _ _)

theorem finish (element : Value) :
    (o.finish element scope).Erases (x.finish element scope) := by
  unfold Observer.finish Expander.finish
  refine (h.step _).bind fun source => ?_
  have hwith : (o.finishWith element scope source).Erases (do
      let inner ← Scope.create (some scope)
      Scope.bind inner "this" (.object (← Store.alloc (.handle element [])))
      let _ ← x.evaluate inner (← Tree.expectText source)
      Tree.removeAttribute element (.text Expander.onrenderName)) :=
    (h.step _).bind fun inner => (h.step _).bind fun handle => (h.step _).bind fun _ =>
      (h.step _).bind fun source => (h.evaluate inner source).bind fun _ =>
        .skip (h.leave inner) (h.step _)
  cases source with
  | undefined => exact .pure _
  | _ => exact hwith

section Siblings

variable {siblings : Siblings (Recorded ε)} {siblings' : Expander.Siblings}
  (hs : ∀ scope nodes, (siblings scope nodes).Erases (siblings' scope nodes))

include hs

theorem expandElement (element : Value) :
    (o.expandElement siblings element scope).Erases (x.expandElement siblings' element scope) := by
  unfold Observer.expandElement Expander.expandElement
  exact (h.expandAttributes element).bind fun _ => (h.step _).bind fun children =>
    (hs _ children).bind fun _ => h.finish element

theorem keepChildren (element : Value) :
    (o.keepChildren siblings element scope).Erases
      (Expander.keepChildren siblings' element scope) := by
  unfold Observer.keepChildren Expander.keepChildren
  exact (h.step _).bind fun children => (hs _ children).bind fun _ => h.step _

theorem expandCondition (element : Value) :
    (o.expandCondition siblings element scope).Erases
      (x.expandCondition siblings' element scope) := by
  unfold Observer.expandCondition Expander.expandCondition
  refine (h.step _).bind fun source => (h.step _).bind fun condition =>
    (h.evaluate scope condition).bind fun v => (h.look _).bind fun holds => ?_
  exact .ite ((h.keepChildren hs element).bind fun _ => .pure _)
    ((h.step _).bind fun _ => .pure _)

theorem expandAlternative (element : Value) (prior : Bool) :
    (o.expandAlternative siblings element scope prior).Erases
      (Expander.expandAlternative siblings' element scope prior) := by
  unfold Observer.expandAlternative Expander.expandAlternative
  exact .ite (h.step _) (h.keepChildren hs element)

theorem expandEntry (loop fragment itemName keyName : Value) (entry : Option (Value × Value)) :
    (o.expandEntry siblings loop fragment scope itemName keyName entry).Erases
      (Expander.expandEntry siblings' loop fragment scope itemName keyName entry) := by
  unfold Observer.expandEntry Expander.expandEntry
  refine (h.step _).bind fun (key, item) => (h.step _).bind fun inner =>
    (h.step _).bind fun _ => ?_
  have hcopy : (o.expandCopy siblings loop fragment inner).Erases (do
      let copy := Value.object (← Tree.clone loop)
      siblings' inner (← Tree.children copy)
      Tree.stealChildren fragment copy) :=
    (h.making _).bind fun copy => (h.step _).bind fun children =>
      (hs _ children).bind fun _ => .skip (h.leave inner) (h.step _)
  exact .ite ((h.step _).bind fun _ => hcopy) hcopy

theorem expandLoop (element : Value) :
    (o.expandLoop x siblings element scope).Erases (x.expandLoop siblings' element scope) := by
  unfold Observer.expandLoop Expander.expandLoop
  refine (h.step _).bind fun source => (h.step _).bind fun itemName =>
    (h.step _).bind fun keyName => (h.step _).bind fun source =>
    (h.evaluate scope source).bind fun v => (h.look _).bind fun entries => .ite ?_ ?_
  · exact (h.step _).bind fun _ => .pure _
  · refine (h.making _).bind fun fragment =>
      .bind (.forM (fun entry => ?_) _) fun _ => (h.step _).bind fun _ =>
        (h.step _).bind fun _ => .pure _
    exact h.expandEntry hs element _ itemName keyName entry

end Siblings

theorem expandPartial {expandRoot : Value → ScopeId → Recorded ε Unit}
    {expandRoot' : Value → ScopeId → M Unit}
    (hr : ∀ root scope, (expandRoot root scope).Erases (expandRoot' root scope))
    (element : Value) :
    (o.expandPartial x expandRoot element scope).Erases
      (x.expandPartial expandRoot' element scope) := by
  unfold Observer.expandPartial Expander.expandPartial
  refine (h.step _).bind fun name => (h.look _).bind fun file => (h.step _).bind fun markup => ?_
  refine .skip (h.loaded markup) ((h.making _).bind fun document => (h.making _).bind fun root => ?_)
  refine (h.step _).bind fun inner => (h.step _).bind fun data => (h.look _).bind fun _ =>
    (hr root inner).bind fun _ => .skip (h.leave inner) ?_
  exact (h.step _).bind fun _ => (h.step _).bind fun fragment => h.step _

theorem expandFormData (element : Value) :
    (o.expandFormData element scope).Erases (x.expandFormData element scope) := by
  unfold Observer.expandFormData Expander.expandFormData
  exact (h.step _).bind fun source => (h.step _).bind fun name => (h.step _).bind fun form =>
    (h.step _).bind fun source => (h.evaluate scope source).bind fun v =>
      (h.look _).bind fun _ => (h.step _).bind fun fragment => h.step _

theorem detach (node : Value) :
    (o.detach node).Erases (do
      match ← Tree.kind? node with
      | some .document => Expander.fragmentOf [] [] node
      | some .fragment => return node
      | _ =>
        Tree.remove node
        return node) := by
  unfold Observer.detach
  refine (h.step _).bind fun kind => ?_
  cases kind with
  | none => exact (h.step _).bind fun _ => .pure _
  | some kind =>
    cases kind with
    | document => exact h.step _
    | fragment => exact .pure _
    | _ => exact (h.step _).bind fun _ => .pure _

theorem insertable (v place : Value) (expression : Text) :
    (o.insertable x v place expression).Erases (x.insertable v place expression) := by
  unfold Observer.insertable Expander.insertable
  refine (h.look _).bind fun node? => ?_
  cases node? with
  | none => exact (h.look _).bind fun fragment => .pure _
  | some node =>
    refine (h.step _).bind fun isWithin => ?_
    exact .ite ((h.step _).bind fun _ => h.detach node) (h.detach node)

theorem expandCode (node : Value) :
    (o.expandCode x node scope).Erases (x.expandCode node scope) := by
  unfold Observer.expandCode Expander.expandCode
  refine (h.step _).bind fun source => (h.step _).bind fun source => ?_
  cases source with
  | nil => exact (h.evaluate scope []).bind fun _ => h.step _
  | cons u code =>
    refine .ite ?_ ((h.evaluate scope _).bind fun _ => h.step _)
    cases Expander.markupSource? (u :: code) with
    | some expression =>
      exact (h.evaluate scope expression).bind fun v =>
        (h.insertable v node expression).bind fun inserted => h.step _
    | none =>
      exact (h.evaluate scope code).bind fun v => (h.look _).bind fun shown =>
        (h.step _).bind fun text => h.step _

theorem expandScript (element : Value) :
    (o.expandScript element scope).Erases (x.expandScript element scope) := by
  unfold Observer.expandScript Expander.expandScript
  refine (h.step _).bind fun source => (h.step _).bind fun source => .ite ?_ (.pure _)
  exact (h.substituteText _ _ source).bind fun code => (h.step _).bind fun _ =>
    (h.step _).bind fun body => h.step _

section Siblings

variable (hc : x.customTags = []) {siblings : Siblings (Recorded ε)}
  {siblings' : Expander.Siblings}
  (hs : ∀ scope nodes, (siblings scope nodes).Erases (siblings' scope nodes))

include hc hs

theorem expandTagged (element : Value) (tag : Text) (prior : Bool) :
    (o.expandTagged x siblings element tag scope prior).Erases
      (x.expandTagged siblings' element tag scope prior) := by
  have hroot : ∀ root scope, (o.expandElement siblings root scope).Erases
      (x.expandElement siblings' root scope) := fun root _ => h.expandElement hs root
  unfold Observer.expandTagged Expander.expandTagged
  dsimp only
  cases Assoc.find? tag Expander.controlTags with
  | some control =>
    cases control with
    | condition => exact h.expandCondition hs element
    | alternative => exact (h.expandAlternative hs element prior).bind fun _ => .pure _
    | loop => exact h.expandLoop hs element
    | partialTemplate => exact (h.expandPartial hroot element).bind fun _ => .pure _
    | formData => exact (h.expandFormData element).bind fun _ => .pure _
    | script => exact (h.expandScript element).bind fun _ => .pure _
  | none =>
    rw [hc]
    exact (hroot element scope).bind fun _ => .pure _

theorem expandSibling (prior : Bool) (v : Value) :
    (o.expandSibling x siblings scope prior v).Erases
      (x.expandSibling siblings' scope prior v) := by
  unfold Observer.expandSibling Expander.expandSibling
  refine (h.step _).bind fun kind => ?_
  cases kind with
  | none => exact .pure _
  | some kind =>
    cases kind with
    | code => exact (h.expandCode v).bind fun _ => .pure _
    | element =>
      refine (h.step _).bind fun tag => ?_
      cases tag with
      | text tag => exact h.expandTagged hc hs v tag prior
      | _ => exact (h.expandElement hs v).bind fun _ => .pure _
    | _ => exact .pure _

end Siblings

theorem expandSiblings (hc : x.customTags = []) (n : Nat) (nodes : List Value) :
    (o.expandSiblings x n scope nodes).Erases (x.expandSiblings n scope nodes) := by
  induction n generalizing scope nodes with
  | zero => exact h.step _
  | succ n ih =>
    unfold Observer.expandSiblings Expander.expandSiblings
    exact .discard (.foldlM (fun prior v => h.expandSibling hc (fun _ nodes => ih nodes) prior v)
      nodes false)

/-- The observed expander does what the expander does. -/
theorem expand (hc : x.customTags = []) (element : Value) :
    (o.expand x element scope).Erases (x.expand element scope) :=
  h.expandElement (fun _ nodes => h.expandSiblings hc x.maxDepth nodes) element

end Observer.Faithful

end PageTemplate
