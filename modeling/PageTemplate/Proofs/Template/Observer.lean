import PageTemplate.Proofs.Run
import PageTemplate.Template.Expand

/-!
# PageTemplate.Proofs.Template.Observer

Expansion under observation. The observed expander takes the steps that the expander takes, in the
same order, and hands each of them to an observer: evaluations, partials that are loaded, nodes that
are made for a template, scopes that are left, and everything else. Custom tags are left out.

An observer may keep a record of what happens. Actions with a record are run like actions without
one, and what they recorded before a failure stays recorded.
-/

namespace PageTemplate

/-- How the steps of an expansion are taken in a monad of one's own. -/
structure Observer (m : Type → Type) where
  /-- A step that is not told apart. -/
  step : {α : Type} → M α → m α
  /-- A step that looks at a value to put something in its place, for which it may call methods. -/
  look : {α : Type} → M α → m α
  /-- A step that makes nodes of a template: those of a partial, a copy, or what copies are
  collected in. -/
  making : {α : Type} → M α → m α
  evaluate : ScopeId → Text → m Value
  /-- The markup of a partial has been loaded. -/
  loaded : Text → m Unit
  /-- The block is over for which a scope was made. -/
  leave : ScopeId → m Unit

namespace Observer

open Expander (readOptions readTemplate logStep requireAttribute onrenderName bindLoopName rootOf
  bindData partialFragment fragmentOf markupSource? controlTags)

variable {m : Type → Type} [Monad m] (o : Observer m) (x : Expander)

/-- Replaces the markers of a text. -/
def substituteText (scope : ScopeId) (encode : Value → M Value) (place t : Text) : m Text := do
  let c := Marker.cut t
  let parts ← c.markers.mapM fun (before, code) => do
    let v ← o.evaluate scope code
    let encoded ← o.look (encode v)
    let part ← o.look (Convert.toSuffix encoded)
    return before ++ part
  if !c.terminated then o.step (throw (Marker.unterminated place))
  return parts.flatten ++ c.tail

def substitute (scope : ScopeId) (place : Text) (v : Value) : m Value := do
  match v with
  | .text t =>
    let t ← o.substituteText scope Present.shown place t
    return .text t
  | v => o.look (Marker.keepUnmarked place v)

def expandAttribute (attributes : Value) (scope : ScopeId) (name value : Value) : m Unit := do
  if !name.strictlyEqual (.text onrenderName) then
    let shown ← o.look (Convert.toText name)
    let v ← o.substitute scope ("attribute \"" ++ shown ++ "\"") value
    o.step (Tree.putEntry attributes name v)

def expandEntries (scope : ScopeId) (id : ObjectId) : Nat → Nat → m Unit
  | 0, _ => o.step (M.failLibrary .rangeError)
  | n + 1, place => do
    match ← o.step (Store.cell id) with
    | .map entries =>
      match entries[place]? with
      | none => return
      | some none => expandEntries scope id n (place + 1)
      | some (some (name, value)) =>
        o.expandAttribute (.object id) scope name value
        expandEntries scope id n (place + 1)
    | _ => o.step M.typeError

/-- Iterates over a value. -/
def visitFrom {α : Type} (v : Value) (action : Value → Nat → m α) :
    Nat → Nat → List α → m (List α)
  | 0, _, _ => o.step (M.failLibrary .rangeError)
  | n + 1, place, done => do
    match ← o.look (Sequence.turn v place) with
    | .done => return done.reverse
    | .vacant => visitFrom v action n (place + 1) done
    | .item item => visitFrom v action n (place + 1) ((← action item done.length) :: done)

def visit {α : Type} (v : Value) (action : Value → Nat → m α) : m (List α) :=
  match v with
  | .text t => (Sequence.characters t).zipIdx.mapM fun (c, i) => action c i
  | v => o.visitFrom v action Store.maxListed 0 []

def expandAttributes (element : Value) (scope : ScopeId) : m Unit := do
  let attributes ← o.step (Tree.attributeMap element)
  match ← o.look (Tree.mapEntries? attributes) with
  | some (id, _) => o.expandEntries scope id Store.maxListed 0
  | none =>
    discard (o.visit attributes fun entry _ => do
      let parts ← o.look (Sequence.iterate entry)
      o.expandAttribute attributes scope (parts.getD 0 .undefined) (parts.getD 1 .undefined))

/-- Evaluates the expression that an element is finished with in a scope of its own. -/
def finishWith (element : Value) (scope : ScopeId) (source : Value) : m Unit := do
  let inner ← o.step (Scope.create (some scope))
  let handle ← o.step (Store.alloc (.handle element []))
  o.step (Scope.bind inner "this" (.object handle))
  let source ← o.step (Tree.expectText source)
  let _ ← o.evaluate inner source
  o.leave inner
  o.step (Tree.removeAttribute element (.text onrenderName))

def finish (element : Value) (scope : ScopeId) : m Unit := do
  match ← o.step (Tree.getAttribute element (.text onrenderName)) with
  | .undefined => return
  | source => o.finishWith element scope source

/-- Expands siblings in a scope. -/
abbrev Siblings (m : Type → Type) := ScopeId → List Value → m Unit

variable (siblings : Siblings m)

def expandElement (element : Value) (scope : ScopeId) : m Unit := do
  o.expandAttributes element scope
  let children ← o.step (Tree.children element)
  siblings scope children
  o.finish element scope

def keepChildren (element : Value) (scope : ScopeId) : m Unit := do
  let children ← o.step (Tree.children element)
  siblings scope children
  o.step (Tree.stripOut element)

def expandCondition (element : Value) (scope : ScopeId) : m Bool := do
  let source ← o.step (requireAttribute element "cond")
  let condition ← o.step (Tree.expectText source)
  let v ← o.evaluate scope condition
  let holds ← o.look (Present.toBool v)
  if holds then o.keepChildren siblings element scope else o.step (Tree.remove element)
  return holds

def expandAlternative (element : Value) (scope : ScopeId) (prior : Bool) : m Unit :=
  if prior then o.step (Tree.remove element) else o.keepChildren siblings element scope

/-- Expands a copy of a loop in a scope and adds the outcome to a fragment. -/
def expandCopy (loop fragment : Value) (inner : ScopeId) : m Unit := do
  let copy ← o.making (Tree.clone loop)
  let children ← o.step (Tree.children (.object copy))
  siblings inner children
  o.leave inner
  o.step (Tree.stealChildren fragment (.object copy))

def expandEntry (loop fragment : Value) (scope : ScopeId) (itemName keyName : Value)
    (entry : Option (Value × Value)) : m Unit := do
  let (key, item) ← o.step (Present.expectEntry entry)
  let inner ← o.step (Scope.create (some scope))
  o.step (bindLoopName inner itemName item)
  if keyName.isTruthy then o.step (bindLoopName inner keyName key)
  o.expandCopy siblings loop fragment inner

def expandLoop (element : Value) (scope : ScopeId) : m Bool := do
  let source ← o.step (requireAttribute element "over")
  let itemName ← o.step (requireAttribute element "as")
  let keyName ← o.step (Tree.getAttribute element (.text "index"))
  let source ← o.step (Tree.expectText source)
  let v ← o.evaluate scope source
  let entries ← o.look (Present.entriesOf v source)
  if entries.isEmpty then
    o.step (Tree.remove element)
    return false
  let fragment ← o.making (Tree.create (.fragment []))
  entries.forM (o.expandEntry siblings element (.object fragment) scope itemName keyName)
  o.step (x.logStep
    ["[TemplateExpander] for-each:", source, "->", Text.ofNat entries.length, "items"])
  o.step (Tree.replaceWith element (.object fragment))
  return true

def expandPartial (expandRoot : Value → ScopeId → m Unit) (element : Value) (scope : ScopeId) :
    m Unit := do
  let name ← o.step (requireAttribute element "file")
  let file ← o.look (Convert.toText name)
  let markup ← o.step (x.loader file : Except Fault Text)
  o.loaded markup
  let document ← o.making (x.readTemplate markup true)
  let root ← o.making (rootOf (.object document))
  let inner ← o.step (Scope.create (some scope))
  let data ← o.step (Tree.getAttribute element (.text "data"))
  o.look (bindData inner file data)
  expandRoot root inner
  o.leave inner
  o.step (x.logStep ["[TemplateExpander] render-template:", file])
  let fragment ← o.step (x.partialFragment file root)
  o.step (Tree.replaceWith element fragment)

def expandFormData (element : Value) (scope : ScopeId) : m Unit := do
  let source ← o.step (requireAttribute element "from")
  let name ← o.step (requireAttribute element "name")
  let form ← o.step (Tree.createElement "form" [])
  let source ← o.step (Tree.expectText source)
  let v ← o.evaluate scope source
  o.look (Form.populate (.object form) v name)
  let fragment ← o.step (fragmentOf [] [] (.object form))
  o.step (Tree.replaceWith element fragment)

/-- Takes a node from where it is. -/
def detach (node : Value) : m Value := do
  match ← o.step (Tree.kind? node) with
  | some .document => o.step (fragmentOf [] [] node)
  | some .fragment => return node
  | _ =>
    o.step (Tree.remove node)
    return node

/-- What a value becomes as markup. -/
def insertable (v place : Value) (expression : Text) : m Value := do
  match ← o.look (Present.node? v) with
  | none =>
    let fragment ← o.look (x.readInserted v)
    return .object fragment
  | some node =>
    if ← o.step (Tree.contains node place) then
      o.step (throw (.evaluation expression "cannot insert a node into itself"))
    o.detach node

def expandCode (node : Value) (scope : ScopeId) : m Unit := do
  let source ← o.step (Tree.source node)
  let source ← o.step (Tree.expectText source)
  match source with
  | u :: code =>
    if u == unit '=' then
      match markupSource? source with
      | some expression =>
        let v ← o.evaluate scope expression
        let inserted ← o.insertable x v node expression
        o.step (Tree.replaceWith node inserted)
      | none =>
        let v ← o.evaluate scope code
        let shown ← o.look (Present.shown v)
        let text ← o.step (Tree.create (.text shown (.bool false)))
        o.step (Tree.replaceWith node (.object text))
    else
      let _ ← o.evaluate scope source
      o.step (Tree.remove node)
  | [] =>
    let _ ← o.evaluate scope []
    o.step (Tree.remove node)

def expandScript (element : Value) (scope : ScopeId) : m Unit := do
  let source ← o.step (Tree.innerMarkup element)
  let source ← o.step (Tree.expectText source)
  if Text.includes source Marker.opening then
    let encode (v : Value) : M Value := do return .text (← Present.toJson v)
    let code ← o.substituteText scope encode "<script>" source
    o.step (Tree.removeChildren element)
    let body ← o.step (Tree.createText code true)
    o.step (Tree.append element (.object body))

def expandTagged (element : Value) (tag : Text) (scope : ScopeId) (prior : Bool) : m Bool := do
  let expandRoot := o.expandElement siblings
  match Assoc.find? tag controlTags with
  | some .condition => o.expandCondition siblings element scope
  | some .alternative =>
    o.expandAlternative siblings element scope prior
    return prior
  | some .loop => o.expandLoop x siblings element scope
  | some .partialTemplate =>
    o.expandPartial x expandRoot element scope
    return prior
  | some .formData =>
    o.expandFormData element scope
    return prior
  | some .script =>
    o.expandScript element scope
    return prior
  | none =>
    expandRoot element scope
    return prior

def expandSibling (scope : ScopeId) (prior : Bool) (v : Value) : m Bool := do
  match ← o.step (Tree.kind? v) with
  | some .code =>
    o.expandCode x v scope
    return prior
  | some .element =>
    match ← o.step (Tree.tag v) with
    | .text tag => o.expandTagged x siblings v tag scope prior
    | _ =>
      o.expandElement siblings v scope
      return prior
  | _ => return prior

def expandSiblings : Nat → Siblings m
  | 0, _, _ => o.step (M.failLibrary .rangeError)
  | n + 1, scope, nodes =>
    discard (nodes.foldlM (o.expandSibling x (expandSiblings n) scope) false)

/-- Expands an element under observation. -/
def expand (element : Value) (scope : ScopeId) : m Unit :=
  o.expandElement (o.expandSiblings x x.maxDepth) element scope

end Observer

/-- A store with the record of what has happened so far, the latest first. -/
structure Record (ε : Type) where
  world : World
  events : List ε

/-- An action that records what happens. -/
abbrev Recorded (ε : Type) := ReaderT Env (ExceptT Fault (StateM (Record ε)))

namespace Recorded

variable {ε α β : Type} {env : Env} {r : Record ε}

/-- Runs an action and yields its outcome, and the store and the record after it. -/
def run' (env : Env) (r : Record ε) (action : Recorded ε α) : Except Fault α × Record ε :=
  StateT.run (ExceptT.run (ReaderT.run action env)) r

/-- An action, and what there is to be recorded about it: from the store before it, its outcome and
the store after it. -/
def lift (events : World → Except Fault α → World → List ε) (action : M α) : Recorded ε α :=
  fun env r =>
    match M.run' env r.world action with
    | (out, w) => (out, ⟨w, events r.world out w ++ r.events⟩)

/-- An action of which nothing is recorded. -/
def silent (action : M α) : Recorded ε α := lift (fun _ _ _ => []) action

theorem run'_pure (a : α) : run' env r (pure a) = (.ok a, r) := rfl

theorem run'_lift (events : World → Except Fault α → World → List ε) (action : M α) :
    run' env r (lift events action) =
      ((M.run' env r.world action).1,
        ⟨(M.run' env r.world action).2,
          events r.world (M.run' env r.world action).1 (M.run' env r.world action).2 ++
            r.events⟩) := rfl

theorem run'_silent (action : M α) :
    run' env r (silent action) =
      ((M.run' env r.world action).1, ⟨(M.run' env r.world action).2, r.events⟩) := rfl

/-- What follows an action is run where it ends, unless it fails. -/
theorem run'_bind (x : Recorded ε α) (f : α → Recorded ε β) :
    run' env r (x >>= f) =
      match run' env r x with
      | (.ok a, r') => run' env r' (f a)
      | (.error e, r') => (.error e, r') := by
  simp only [run', bind, ReaderT.bind, ReaderT.run, ExceptT.bind, ExceptT.mk, ExceptT.run,
    StateT.bind, StateT.run]
  rcases x env r with ⟨a | e, r'⟩ <;> rfl

/-- The action does what `plain` does, with the same outcome and the same store. -/
def Erases (seen : Recorded ε α) (plain : M α) : Prop :=
  ∀ env r, ((run' env r seen).1, (run' env r seen).2.world) = M.run' env r.world plain

namespace Erases

theorem pure (a : α) : Erases (pure a : Recorded ε α) (pure a) := fun _ _ => rfl

theorem lift (events : World → Except Fault α → World → List ε) (action : M α) :
    (Recorded.lift events action).Erases action := fun _ _ => rfl

theorem silent (action : M α) : (Recorded.silent action : Recorded ε α).Erases action :=
  fun _ _ => rfl

theorem bind {a : Recorded ε α} {a' : M α} {f : α → Recorded ε β} {f' : α → M β}
    (h : a.Erases a') (hf : ∀ x, (f x).Erases (f' x)) : (a >>= f).Erases (a' >>= f') := by
  intro env r
  rw [run'_bind, M.run'_bind, ← h env r]
  rcases run' env r a with ⟨e | x, r'⟩
  · rfl
  · exact hf x env r'

/-- What does nothing can be left out. -/
theorem skip {note : Recorded ε Unit} {a : Recorded ε α} {a' : M α}
    (hn : note.Erases (Pure.pure ())) (h : a.Erases a') : (note >>= fun _ => a).Erases a' := by
  rw [← pure_bind () fun _ => a']
  exact hn.bind fun _ => h

theorem map {a : Recorded ε α} {a' : M α} (f : α → β) (h : a.Erases a') :
    (f <$> a).Erases (f <$> a') := by
  rw [map_eq_pure_bind, map_eq_pure_bind]
  exact h.bind fun x => .pure (f x)

theorem discard {a : Recorded ε α} {a' : M α} (h : a.Erases a') :
    (discard a).Erases (discard a') := h.map _

theorem ite {p : Prop} [Decidable p] {a b : Recorded ε α} {a' b' : M α} (h : a.Erases a')
    (h' : b.Erases b') : (if p then a else b).Erases (if p then a' else b') := by
  split
  · exact h
  · exact h'

theorem mapM {f : α → Recorded ε β} {f' : α → M β} (h : ∀ x, (f x).Erases (f' x))
    (xs : List α) : (xs.mapM f).Erases (xs.mapM f') := by
  induction xs with
  | nil =>
    rw [List.mapM_nil, List.mapM_nil]
    exact .pure []
  | cons x xs ih =>
    rw [List.mapM_cons, List.mapM_cons]
    exact (h x).bind fun y => ih.bind fun ys => .pure (y :: ys)

theorem forM {f : α → Recorded ε PUnit} {f' : α → M PUnit} (h : ∀ x, (f x).Erases (f' x))
    (xs : List α) : (xs.forM f).Erases (xs.forM f') := by
  induction xs with
  | nil => exact .pure _
  | cons x xs ih => exact (h x).bind fun _ => ih

theorem foldlM {f : β → α → Recorded ε β} {f' : β → α → M β}
    (h : ∀ y x, (f y x).Erases (f' y x)) (xs : List α) (y : β) :
    (xs.foldlM f y).Erases (xs.foldlM f' y) := by
  induction xs generalizing y with
  | nil => exact .pure y
  | cons x xs ih => exact (h y x).bind fun y => ih y

end Erases

end Recorded

end PageTemplate
