import PageTemplate.Proofs.Respect.Templates
import PageTemplate.Proofs.Template.Erasure
import PageTemplate.Proofs.Template.Isolation

/-!
# PageTemplate.Proofs.Template.Scoping

Expansion is isolated in its scopes. The observed expander that forgets what was bound in the scopes
of a block, as soon as the block is over, mirrors the expander at every nesting of loops, partials,
conditions and expressions that elements are finished with.
-/

namespace PageTemplate

namespace Observer

/-- The observer that records evaluations, with something that is done at the end of a block. -/
def evaluations (atEnd : ScopeId → World → World) : Observer (Recorded Evaluation) where
  step := Recorded.silent
  look := Recorded.silent
  making := Recorded.silent
  evaluate := Evaluation.record
  loaded _ := pure ()
  leave inner := Recorded.silent (modify (atEnd inner))

/-- The observer that records evaluations. -/
def remembering : Observer (Recorded Evaluation) := evaluations fun _ => id

/-- The observer that records evaluations and overwrites the scopes of a block that is over. -/
def forgetting (junk : World → ScopeId → Properties) : Observer (Recorded Evaluation) :=
  evaluations fun inner w => w.forget inner (junk w)

theorem faithful_remembering {x : Expander} (hx : x.evaluate = Program.evaluateText) :
    remembering.Faithful x where
  step := .silent
  look := .silent
  making := .silent
  evaluate _ _ := hx ▸ .lift _ _
  loaded _ := .pure ()
  leave _ _ _ := rfl

end Observer

namespace Expander

variable {c : ScopeId} {x : Expander}

section Mirrored

variable {env : Env} {audited : Prop} (henv : env.SparesScopes)
  (junk : World → ScopeId → Properties)

include henv

section Steps

variable {α : Type} {action : M α}
  (h : ∀ (env : Env) (S : World → World → Prop) [KeptByWrites env S], Respects env S action)

include h

theorem mirrored_step :
    Mirrored env audited c (Observer.remembering.step action)
      ((Observer.forgetting junk).step action) := .of_respects henv h

theorem mirrored_look :
    Mirrored env audited c (Observer.remembering.look action)
      ((Observer.forgetting junk).look action) := .of_respects henv h

theorem mirrored_making :
    Mirrored env audited c (Observer.remembering.making action)
      ((Observer.forgetting junk).making action) := .of_respects henv h

end Steps

theorem mirrored_evaluate (source : Text) :
    Mirrored env audited c (Observer.remembering.evaluate c source)
      ((Observer.forgetting junk).evaluate c source) := .evaluate henv source

omit henv in
/-- What is bound in the scope of a block when it begins. -/
theorem mirrored_isolated {action : M Unit} (h : Isolated env (fun _ _ => True) c action action) :
    Mirrored env False c (Observer.remembering.step action)
      ((Observer.forgetting junk).step action) := .of_isolated h

omit junk in
theorem isolated_bindLoopName (name v : Value) :
    Isolated env (fun _ _ => True) c (bindLoopName c name v) (bindLoopName c name v) := by
  unfold bindLoopName
  cases name with
  | text name => exact Scope.isolated_bind fun _ => trivial
  | symbol => exact .pure _
  | _ => exact .of_respects henv fun _ _ _ => by grind

omit junk in
theorem isolated_bindData (file : Text) (data : Value) :
    Isolated env (fun _ _ => True) c (bindData c file data) (bindData c file data) := by
  have hbind : Isolated env (fun _ _ => True) c
      (partialData file data >>= Scope.bind c "data")
      (partialData file data >>= Scope.bind c "data") :=
    .bind (.of_respects henv fun _ _ _ => respects_partialData file data)
      fun v => Scope.isolated_bind fun _ => trivial
  unfold bindData
  cases data with
  | undefined => exact .pure _
  | _ => exact hbind

theorem mirrored_substituteText {encode : Value → M Value}
    (he : ∀ (env : Env) (S : World → World → Prop) [KeptByWrites env S] (v : Value),
      Respects env S (encode v)) (place t : Text) :
    Mirrored env audited c (Observer.remembering.substituteText c encode place t)
      ((Observer.forgetting junk).substituteText c encode place t) := by
  unfold Observer.substituteText
  refine .bind (.mapM (fun marker => ?_) _) fun parts => ?_
  · obtain ⟨before, code⟩ := marker
    refine .bind (mirrored_evaluate henv junk code) fun v => ?_
    refine .bind (mirrored_look henv junk fun _ _ _ => he _ _ v) fun encoded => ?_
    exact .bind (mirrored_look henv junk fun _ _ _ => Convert.respects_toSuffix encoded)
      fun part => .pure _
  · exact .ite (.bind (mirrored_step henv junk fun _ _ _ => .throw _) fun _ => .pure _) (.pure _)

theorem mirrored_substitute (place : Text) (v : Value) :
    Mirrored env audited c (Observer.remembering.substitute c place v)
      ((Observer.forgetting junk).substitute c place v) := by
  have hkeep (v : Value) : Mirrored env audited c
      (Observer.remembering.look (Marker.keepUnmarked place v))
      ((Observer.forgetting junk).look (Marker.keepUnmarked place v)) :=
    mirrored_look henv junk fun _ _ _ => Marker.respects_keepUnmarked place v
  unfold Observer.substitute
  cases v with
  | text t =>
    exact .bind (mirrored_substituteText henv junk (fun _ _ _ v => Present.respects_shown v) place t)
      fun t => .pure _
  | _ => exact hkeep _

theorem mirrored_expandAttribute (attributes name value : Value) :
    Mirrored env audited c (Observer.remembering.expandAttribute attributes c name value)
      ((Observer.forgetting junk).expandAttribute attributes c name value) := by
  unfold Observer.expandAttribute
  refine .ite ?_ (.pure _)
  refine .bind (mirrored_look henv junk fun _ _ _ => Convert.respects_toText name) fun shown => ?_
  refine .bind (mirrored_substitute henv junk _ value) fun v => ?_
  exact mirrored_step henv junk fun _ _ _ => Tree.respects_putEntry attributes name v

theorem mirrored_expandEntries (id : ObjectId) (n place : Nat) :
    Mirrored env audited c (Observer.remembering.expandEntries c id n place)
      ((Observer.forgetting junk).expandEntries c id n place) := by
  induction n generalizing place with
  | zero => exact mirrored_step henv junk fun _ _ _ => .failLibrary _
  | succ n ih =>
    unfold Observer.expandEntries
    refine .bind (mirrored_step henv junk fun _ _ _ => Store.respects_cell) fun cell => ?_
    cases cell with
    | map entries =>
      dsimp only
      cases entries[place]? with
      | none => exact .pure _
      | some entry =>
        cases entry with
        | none => exact ih (place + 1)
        | some entry =>
          exact .bind (mirrored_expandAttribute henv junk _ entry.1 entry.2)
            fun _ => ih (place + 1)
    | _ => exact mirrored_step henv junk fun _ _ _ => .typeError

theorem mirrored_visit {α : Type} (v : Value) {action : Value → Nat → Recorded Evaluation α}
    {action' : Value → Nat → Recorded Evaluation α}
    (h : ∀ item i, Mirrored env audited c (action item i) (action' item i)) :
    Mirrored env audited c (Observer.remembering.visit v action)
      ((Observer.forgetting junk).visit v action') := by
  have hfrom : ∀ n place done, Mirrored env audited c
      (Observer.remembering.visitFrom v action n place done)
      ((Observer.forgetting junk).visitFrom v action' n place done) := by
    intro n
    induction n with
    | zero => exact fun _ _ => mirrored_step henv junk fun _ _ _ => .failLibrary _
    | succ n ih =>
      intro place done
      unfold Observer.visitFrom
      refine .bind (mirrored_look henv junk fun _ _ _ => Sequence.respects_turn v place) fun turn => ?_
      cases turn with
      | done => exact .pure _
      | vacant => exact ih _ _
      | item item => exact (h item _).bind fun a => ih _ _
  unfold Observer.visit
  cases v with
  | text t => exact .mapM (fun (item : Value × Nat) => h item.1 item.2) _
  | _ => exact hfrom _ _ _

theorem mirrored_expandAttributes (element : Value) :
    Mirrored env audited c (Observer.remembering.expandAttributes element c)
      ((Observer.forgetting junk).expandAttributes element c) := by
  unfold Observer.expandAttributes
  refine .bind (mirrored_step henv junk fun _ _ _ => Tree.respects_attributeMap element)
    fun attributes => ?_
  refine .bind (mirrored_look henv junk fun _ _ _ => Tree.respects_mapEntries? attributes)
    fun entries => ?_
  cases entries with
  | some entries => exact mirrored_expandEntries henv junk _ _ _
  | none =>
    refine .discard (mirrored_visit henv junk _ fun entry _ => ?_)
    refine .bind (mirrored_look henv junk fun _ _ _ => Sequence.respects_iterate entry) fun parts => ?_
    exact mirrored_expandAttribute henv junk _ _ _

/-- What an expression that finishes an element binds, `this` included, is forgotten. -/
theorem mirrored_finishWith (element source : Value) :
    Mirrored env audited c (Observer.remembering.finishWith element c source)
      ((Observer.forgetting junk).finishWith element c source) := by
  refine .block fun inner => ?_
  refine .bind (mirrored_step henv junk fun _ _ _ => Store.respects_alloc) fun handle => ?_
  refine .bind (mirrored_isolated junk (Scope.isolated_bind fun _ => trivial)) fun _ => ?_
  refine .bind (mirrored_step henv junk fun _ _ _ => Tree.respects_expectText source) fun source => ?_
  refine .bind (mirrored_evaluate henv junk source) fun _ => .leave ?_ junk
  exact mirrored_step henv junk fun _ _ _ => Tree.respects_removeAttribute element _

theorem mirrored_finish (element : Value) :
    Mirrored env audited c (Observer.remembering.finish element c)
      ((Observer.forgetting junk).finish element c) := by
  unfold Observer.finish
  refine .bind (mirrored_step henv junk fun _ _ _ => Tree.respects_getAttribute element _)
    fun source => ?_
  cases source with
  | undefined => exact .pure _
  | _ => exact mirrored_finishWith henv junk element _

theorem mirrored_expandFormData (element : Value) :
    Mirrored env audited c (Observer.remembering.expandFormData element c)
      ((Observer.forgetting junk).expandFormData element c) := by
  unfold Observer.expandFormData
  refine .bind (mirrored_step henv junk fun _ _ _ => respects_requireAttribute element _)
    fun source => ?_
  refine .bind (mirrored_step henv junk fun _ _ _ => respects_requireAttribute element _)
    fun name => ?_
  refine .bind (mirrored_step henv junk fun _ _ _ => Tree.respects_createElement _ _) fun form => ?_
  refine .bind (mirrored_step henv junk fun _ _ _ => Tree.respects_expectText source) fun source => ?_
  refine .bind (mirrored_evaluate henv junk source) fun v => ?_
  refine .bind (mirrored_look henv junk fun _ _ _ => Form.respects_populate _ v name) fun _ => ?_
  refine .bind (mirrored_step henv junk fun _ _ _ => respects_fragmentOf _ _ _) fun fragment => ?_
  exact mirrored_step henv junk fun _ _ _ => Tree.respects_replaceWith element fragment

theorem mirrored_detach (node : Value) :
    Mirrored env audited c (Observer.remembering.detach node)
      ((Observer.forgetting junk).detach node) := by
  unfold Observer.detach
  refine .bind (mirrored_step henv junk fun _ _ _ => Tree.respects_kind? node) fun kind => ?_
  split
  · exact mirrored_step henv junk fun _ _ _ => respects_fragmentOf _ _ _
  · exact .pure _
  · exact .bind (mirrored_step henv junk fun _ _ _ => Tree.respects_remove node) fun _ => .pure _

theorem mirrored_insertable (v place : Value) (expression : Text) :
    Mirrored env audited c (Observer.remembering.insertable x v place expression)
      ((Observer.forgetting junk).insertable x v place expression) := by
  have hdetach (node : Value) :
      Mirrored env audited c (Observer.remembering.detach node)
        ((Observer.forgetting junk).detach node) := mirrored_detach henv junk node
  unfold Observer.insertable
  refine .bind (mirrored_look henv junk fun _ _ _ => Present.respects_node? v) fun node? => ?_
  cases node? with
  | none =>
    exact .bind (mirrored_look henv junk fun _ _ _ => respects_readInserted x v) fun _ => .pure _
  | some node =>
    refine .bind (mirrored_step henv junk fun _ _ _ => Tree.respects_contains node place)
      fun isWithin => ?_
    exact .ite (.bind (mirrored_step henv junk fun _ _ _ => .throw _) fun _ => hdetach node)
      (hdetach node)

theorem mirrored_expandCode (node : Value) :
    Mirrored env audited c (Observer.remembering.expandCode x node c)
      ((Observer.forgetting junk).expandCode x node c) := by
  have hremove : Mirrored env audited c (Observer.remembering.step (Tree.remove node))
      ((Observer.forgetting junk).step (Tree.remove node)) :=
    mirrored_step henv junk fun _ _ _ => Tree.respects_remove node
  unfold Observer.expandCode
  refine .bind (mirrored_step henv junk fun _ _ _ => Tree.respects_source node) fun source => ?_
  refine .bind (mirrored_step henv junk fun _ _ _ => Tree.respects_expectText source) fun source => ?_
  cases source with
  | nil => exact .bind (mirrored_evaluate henv junk []) fun _ => hremove
  | cons u code =>
    refine .ite ?_ (.bind (mirrored_evaluate henv junk _) fun _ => hremove)
    cases markupSource? (u :: code) with
    | some expression =>
      refine .bind (mirrored_evaluate henv junk expression) fun v => ?_
      refine .bind (mirrored_insertable henv junk v node expression) fun inserted => ?_
      exact mirrored_step henv junk fun _ _ _ => Tree.respects_replaceWith node inserted
    | none =>
      refine .bind (mirrored_evaluate henv junk code) fun v => ?_
      refine .bind (mirrored_look henv junk fun _ _ _ => Present.respects_shown v) fun shown => ?_
      refine .bind (mirrored_step henv junk fun _ _ _ => Tree.respects_create _) fun text => ?_
      exact mirrored_step henv junk fun _ _ _ => Tree.respects_replaceWith node _

theorem mirrored_expandScript (element : Value) :
    Mirrored env audited c (Observer.remembering.expandScript element c)
      ((Observer.forgetting junk).expandScript element c) := by
  unfold Observer.expandScript
  refine .bind (mirrored_step henv junk fun _ _ _ => Tree.respects_innerMarkup element)
    fun source => ?_
  refine .bind (mirrored_step henv junk fun _ _ _ => Tree.respects_expectText source) fun source => ?_
  refine .ite ?_ (.pure _)
  refine .bind (mirrored_substituteText henv junk (fun _ _ _ v => ?_) _ source) fun code => ?_
  · exact (Present.respects_toJson v).bind fun _ => .pure _
  · refine .bind (mirrored_step henv junk fun _ _ _ => Tree.respects_removeChildren element)
      fun _ => ?_
    refine .bind (mirrored_step henv junk fun _ _ _ => Tree.respects_createText code true)
      fun body => ?_
    exact mirrored_step henv junk fun _ _ _ => Tree.respects_append element _

/-- What is bound for a partial is forgotten after it. -/
theorem mirrored_expandPartial {expandRoot expandRoot' : Value → ScopeId → Recorded Evaluation Unit}
    (h : ∀ audited c root, Mirrored env audited c (expandRoot root c) (expandRoot' root c))
    (element : Value) :
    Mirrored env audited c (Observer.remembering.expandPartial x expandRoot element c)
      ((Observer.forgetting junk).expandPartial x expandRoot' element c) := by
  unfold Observer.expandPartial
  refine .bind (mirrored_step henv junk fun _ _ _ => respects_requireAttribute element _) fun name => ?_
  refine .bind (mirrored_look henv junk fun _ _ _ => Convert.respects_toText name) fun file => ?_
  refine .bind (mirrored_step henv junk fun _ _ _ => .liftExcept _) fun markup => ?_
  refine .bind (.pure ()) fun _ => ?_
  refine .bind (mirrored_making henv junk fun _ _ _ => respects_readTemplate x markup true)
    fun document => ?_
  refine .bind (mirrored_making henv junk fun _ _ _ => respects_rootOf _) fun root => ?_
  refine .block fun inner => ?_
  refine .bind (mirrored_step henv junk fun _ _ _ => Tree.respects_getAttribute element _)
    fun data => ?_
  refine .bind (.of_isolated (isolated_bindData henv file data)) fun _ => ?_
  refine .bind (h _ _ root) fun _ => .leave ?_ junk
  refine .bind (mirrored_step henv junk fun _ _ _ => respects_logStep x _) fun _ => ?_
  refine .bind (mirrored_step henv junk fun _ _ _ => respects_partialFragment x file root)
    fun fragment => ?_
  exact mirrored_step henv junk fun _ _ _ => Tree.respects_replaceWith element fragment

section Siblings

variable {siblings : Observer.Siblings (Recorded Evaluation)} {siblings' : Observer.Siblings (Recorded Evaluation)}
  (hs : ∀ (audited : Prop) (c : ScopeId) (nodes : List Value),
    Mirrored env audited c (siblings c nodes) (siblings' c nodes))

include hs

theorem mirrored_expandElement (element : Value) :
    Mirrored env audited c (Observer.remembering.expandElement siblings element c)
      ((Observer.forgetting junk).expandElement siblings' element c) := by
  unfold Observer.expandElement
  refine .bind (mirrored_expandAttributes henv junk element) fun _ => ?_
  refine .bind (mirrored_step henv junk fun _ _ _ => Tree.respects_children element) fun children => ?_
  exact .bind (hs _ _ children) fun _ => mirrored_finish henv junk element

theorem mirrored_keepChildren (element : Value) :
    Mirrored env audited c (Observer.remembering.keepChildren siblings element c)
      ((Observer.forgetting junk).keepChildren siblings' element c) := by
  unfold Observer.keepChildren
  refine .bind (mirrored_step henv junk fun _ _ _ => Tree.respects_children element) fun children => ?_
  refine .bind (hs _ _ children) fun _ => ?_
  exact mirrored_step henv junk fun _ _ _ => Tree.respects_stripOut element

/-- A condition stands in the scope around it. -/
theorem mirrored_expandCondition (element : Value) :
    Mirrored env audited c (Observer.remembering.expandCondition siblings element c)
      ((Observer.forgetting junk).expandCondition siblings' element c) := by
  unfold Observer.expandCondition
  refine .bind (mirrored_step henv junk fun _ _ _ => respects_requireAttribute element _)
    fun source => ?_
  refine .bind (mirrored_step henv junk fun _ _ _ => Tree.respects_expectText source)
    fun condition => ?_
  refine .bind (mirrored_evaluate henv junk condition) fun v => ?_
  refine .bind (mirrored_look henv junk fun _ _ _ => Present.respects_toBool v) fun holds => ?_
  exact .ite (.bind (mirrored_keepChildren henv junk hs element) fun _ => .pure _)
    (.bind (mirrored_step henv junk fun _ _ _ => Tree.respects_remove element) fun _ => .pure _)

theorem mirrored_expandAlternative (element : Value) (prior : Bool) :
    Mirrored env audited c (Observer.remembering.expandAlternative siblings element c prior)
      ((Observer.forgetting junk).expandAlternative siblings' element c prior) := by
  unfold Observer.expandAlternative
  exact .ite (mirrored_step henv junk fun _ _ _ => Tree.respects_remove element)
    (mirrored_keepChildren henv junk hs element)

/-- What is bound for an entry of a loop is forgotten before the next one. -/
theorem mirrored_expandEntry (loop fragment itemName keyName : Value)
    (entry : Option (Value × Value)) :
    Mirrored env audited c
      (Observer.remembering.expandEntry siblings loop fragment c itemName keyName entry)
      ((Observer.forgetting junk).expandEntry siblings' loop fragment c itemName keyName
        entry) := by
  unfold Observer.expandEntry
  refine .bind (mirrored_step henv junk fun _ _ _ => Present.respects_expectEntry entry)
    fun (key, item) => ?_
  refine .block fun inner => ?_
  refine .bind (mirrored_isolated junk (isolated_bindLoopName henv itemName item)) fun _ => ?_
  have hcopy : Mirrored.Within env audited c inner
      (Observer.remembering.expandCopy siblings loop fragment inner)
      ((Observer.forgetting junk).expandCopy siblings' loop fragment inner) := by
    refine .bind (mirrored_making henv junk fun _ _ _ => Tree.respects_clone loop) fun copy => ?_
    refine .bind (mirrored_step henv junk fun _ _ _ => Tree.respects_children _) fun children => ?_
    refine .bind (hs _ _ children) fun _ => .leave ?_ junk
    exact mirrored_step henv junk fun _ _ _ => Tree.respects_stealChildren fragment _
  split
  · exact .bind (mirrored_isolated junk (isolated_bindLoopName henv keyName key)) fun _ => hcopy
  · exact hcopy

theorem mirrored_expandLoop (element : Value) :
    Mirrored env audited c (Observer.remembering.expandLoop x siblings element c)
      ((Observer.forgetting junk).expandLoop x siblings' element c) := by
  unfold Observer.expandLoop
  refine .bind (mirrored_step henv junk fun _ _ _ => respects_requireAttribute element _)
    fun source => ?_
  refine .bind (mirrored_step henv junk fun _ _ _ => respects_requireAttribute element _)
    fun itemName => ?_
  refine .bind (mirrored_step henv junk fun _ _ _ => Tree.respects_getAttribute element _)
    fun keyName => ?_
  refine .bind (mirrored_step henv junk fun _ _ _ => Tree.respects_expectText source) fun source => ?_
  refine .bind (mirrored_evaluate henv junk source) fun v => ?_
  refine .bind (mirrored_look henv junk fun _ _ _ => Present.respects_entriesOf v source)
    fun entries => .ite ?_ ?_
  · exact .bind (mirrored_step henv junk fun _ _ _ => Tree.respects_remove element) fun _ => .pure _
  · refine .bind (mirrored_step henv junk fun _ _ _ => Tree.respects_create _) fun fragment => ?_
    refine .bind (.forM (fun entry => ?_) _) fun _ => ?_
    · exact mirrored_expandEntry henv junk hs element _ itemName keyName entry
    · refine .bind (mirrored_step henv junk fun _ _ _ => respects_logStep x _) fun _ => ?_
      refine .bind (mirrored_step henv junk fun _ _ _ => Tree.respects_replaceWith element _)
        fun _ => .pure _

theorem mirrored_expandTagged (element : Value) (tag : Text) (prior : Bool) :
    Mirrored env audited c (Observer.remembering.expandTagged x siblings element tag c prior)
      ((Observer.forgetting junk).expandTagged x siblings' element tag c prior) := by
  have hroot : ∀ audited c root,
      Mirrored env audited c (Observer.remembering.expandElement siblings root c)
        ((Observer.forgetting junk).expandElement siblings' root c) :=
    fun _ _ root => mirrored_expandElement henv junk hs root
  unfold Observer.expandTagged
  dsimp only
  cases Assoc.find? tag controlTags with
  | some control =>
    cases control with
    | condition => exact mirrored_expandCondition henv junk hs element
    | alternative =>
      exact .bind (mirrored_expandAlternative henv junk hs element prior) fun _ => .pure _
    | loop => exact mirrored_expandLoop henv junk hs element
    | partialTemplate =>
      exact .bind (mirrored_expandPartial henv junk hroot element) fun _ => .pure _
    | formData => exact .bind (mirrored_expandFormData henv junk element) fun _ => .pure _
    | script => exact .bind (mirrored_expandScript henv junk element) fun _ => .pure _
  | none =>
    exact .bind (hroot _ _ element) fun _ => .pure _

theorem mirrored_expandSibling (prior : Bool) (v : Value) :
    Mirrored env audited c (Observer.remembering.expandSibling x siblings c prior v)
      ((Observer.forgetting junk).expandSibling x siblings' c prior v) := by
  unfold Observer.expandSibling
  refine .bind (mirrored_step henv junk fun _ _ _ => Tree.respects_kind? v) fun kind => ?_
  cases kind with
  | none => exact .pure _
  | some kind =>
    cases kind with
    | code => exact .bind (mirrored_expandCode henv junk v) fun _ => .pure _
    | element =>
      refine .bind (mirrored_step henv junk fun _ _ _ => Tree.respects_tag v) fun tag => ?_
      cases tag with
      | text tag => exact mirrored_expandTagged henv junk hs v tag prior
      | _ => exact .bind (mirrored_expandElement henv junk hs v) fun _ => .pure _
    | _ => exact .pure _

end Siblings

/-- Siblings at any depth, by induction on how deep expansion still may go. -/
theorem mirrored_expandSiblings (n : Nat) (nodes : List Value) :
    Mirrored env audited c (Observer.remembering.expandSiblings x n c nodes)
      ((Observer.forgetting junk).expandSiblings x n c nodes) := by
  induction n generalizing audited c nodes with
  | zero => exact mirrored_step henv junk fun _ _ _ => .failLibrary _
  | succ n ih =>
    unfold Observer.expandSiblings
    refine .discard (.foldlM (fun prior v => ?_) nodes false)
    exact mirrored_expandSibling henv junk (fun _ _ nodes => ih nodes) prior v

theorem mirrored_expand (element : Value) :
    Mirrored env audited c (Observer.remembering.expand x element c)
      ((Observer.forgetting junk).expand x element c) :=
  mirrored_expandElement henv junk
    (fun _ _ nodes => mirrored_expandSiblings henv junk x.maxDepth nodes) element

end Mirrored

/-- **Scopes are isolated over whole runs.** Take a run in a scope `c`, with functions of the page
that do not touch scopes. Of the scopes that there were, it changes none but `c`; what `c` binds
has been turned into what it binds in the end by the assignments of the evaluations in `c`, one
after another; every other evaluation was made in a scope that is new. And when what was bound in
the scopes of an entry of a loop, of a partial or of an expression that finishes an element is
overwritten by anything at all as soon as this block is over, the run goes on in the same way: the
same sources are evaluated in the same scopes and come to the same, and the run leaves the same
outcome, the same objects and the same bindings in the scopes that there were. -/
theorem expand_isolated {host : HostFunctions}
    (hhost : ∀ name this arguments, Unscoped (host name this arguments))
    (hx : x.evaluate = Program.evaluateText) (hc : x.customTags = []) {w : World}
    (hw : ∀ d < w.scopes.size, ∀ p, (w.scope d).parent = some p → p < w.scopes.size)
    (hlt : c < w.scopes.size) (element : Value) (junk : World → ScopeId → Properties) :
    ∃ out r s,
      Recorded.run' (Env.of host) ⟨w, []⟩ (Observer.remembering.expand x element c) = (out, r) ∧
      Recorded.run' (Env.of host) ⟨w, []⟩ ((Observer.forgetting junk).expand x element c) =
        (out, s) ∧
      M.run' (Env.of host) w (x.expand element c) = (out, r.world) ∧
      (∀ d < w.scopes.size, (r.world.scope d).parent = (w.scope d).parent) ∧
      (∀ d < w.scopes.size, d ≠ c → r.world.bindings d = w.bindings d) ∧
      Evaluation.Account c r.events (w.bindings c) (r.world.bindings c) ∧
      (∀ e ∈ r.events, e.scope = c ∨ w.scopes.size ≤ e.scope) ∧
      s.events.map Evaluation.report = r.events.map Evaluation.report ∧
      r.world.AgreesOn (· < w.scopes.size) s.world := by
  have henv : (Env.of host).SparesScopes := Env.sparesScopes_of hhost
  have hl : w.Encloses (· < w.scopes.size) := ⟨fun _ => id, fun d p hd => hw d hd p⟩
  have hmirrored : Mirrored (Env.of host) True c (Observer.remembering.expand x element c)
      ((Observer.forgetting junk).expand x element c) := mirrored_expand henv junk element
  have hplain : (Observer.remembering.expand x element c).Erases (x.expand element c) :=
    (Observer.faithful_remembering hx).expand hc element
  have hmirror := hmirrored _ ⟨w, []⟩ ⟨w, []⟩ hlt hl (.refl _ w)
  have herase := hplain (Env.of host) ⟨w, []⟩
  rcases hr : Recorded.run' (Env.of host) ⟨w, []⟩ (Observer.remembering.expand x element c) with
    ⟨out, r⟩
  rcases hs : Recorded.run' (Env.of host) ⟨w, []⟩
    ((Observer.forgetting junk).expand x element c) with ⟨out', s⟩
  rw [hr, hs] at hmirror
  rw [hr] at herase
  obtain ⟨added, added', hadded, hadded', hsame, hscopes, haccount⟩ := hmirror.events
  rw [List.append_nil] at hadded hadded'
  have hout : out' = out := hmirror.outcome
  rw [← hadded] at hscopes haccount hsame
  rw [← hadded'] at hsame
  refine ⟨out, r, s, rfl, ?_, herase.symm, hmirror.frame.parent, hmirror.frame.bindings,
    haccount trivial, hscopes, hsame, hmirror.agrees⟩
  rw [hout]

/-- A loop that assigns a name in its body, and code that assigns the name behind it. -/
def loopNodes : List Markup.Node :=
  [.element "for-each"
      [(Text.ofString "over", Text.ofString "['p']"), (Text.ofString "as", Text.ofString "i")]
      [.code "n = i"],
    .code "n = 'q'"]

/-- An expander with nothing but the evaluator. -/
def plainExpander : Expander where
  loader := Loader.ofList []
  evaluate := Program.evaluateText
  customTags := []
  sanitize := none
  debug := false
  maxDepth := 4

/-- A store with a scope inside another one. -/
def twoScopes : World :=
  { World.blank with scopes := #[⟨none, [(Text.ofString "n", .null)]⟩, ⟨some 0, []⟩] }

/-- The store with the loop in it, as it is before the run. -/
def loopStore : World :=
  (M.run' Env.silent twoScopes (Tree.plant (.element rootTag [] loopNodes))).2

theorem scopes_loopStore : loopStore.scopes = twoScopes.scopes := rfl

/-- No function of the page can be called. -/
def noFunctions : HostFunctions := fun _ _ _ => M.typeError

/-- A run through the loop in the inner scope leaves the outer one alone. -/
theorem expand_isolated_loop :
    ∃ r : Record Evaluation,
      M.run' (Env.of noFunctions) loopStore (plainExpander.expand (.object 0) 1) =
        (.ok (), r.world) ∧
      r.world.bindings 0 = [(Text.ofString "n", .null)] ∧
      Evaluation.Account 1 r.events [] (r.world.bindings 1) := by
  have hok : (M.run' (Env.of noFunctions) loopStore
      (plainExpander.expand (.object 0) 1)).1.isOk = true := by decide +kernel
  have hparents : ∀ d < loopStore.scopes.size, ∀ p, (loopStore.scope d).parent = some p →
      p < loopStore.scopes.size := by
    intro d hd p hp
    rw [World.scope, scopes_loopStore] at hp
    rw [scopes_loopStore] at hd ⊢
    obtain rfl | rfl : d = 0 ∨ d = 1 := Nat.le_one_iff_eq_zero_or_eq_one.1 (Nat.le_of_lt_succ hd)
    · cases hp
    · cases hp
      exact Nat.zero_lt_two
  have hhost : ∀ name this arguments, Unscoped (noFunctions name this arguments) :=
    fun _ _ _ => .of_respects fun _ _ _ => .typeError
  have hlt : 1 < loopStore.scopes.size := Nat.one_lt_two
  have hx : plainExpander.evaluate = Program.evaluateText := rfl
  obtain ⟨out, r, s, -, -, hrun, -, hothers, haccount, -⟩ :=
    expand_isolated hhost hx rfl hparents hlt (.object 0) fun _ _ => []
  rw [hrun] at hok
  cases out with
  | error e => cases hok
  | ok => exact ⟨r, hrun, hothers 0 (Nat.zero_lt_two) Nat.zero_ne_one, haccount⟩

end Expander

end PageTemplate
