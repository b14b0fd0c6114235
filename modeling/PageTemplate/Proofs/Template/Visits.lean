import PageTemplate.Proofs.Respect.Templates
import PageTemplate.Proofs.Template.Attributes

/-!
# PageTemplate.Proofs.Template.Visits

The visit of an element under expansion: its attributes, its children, and what it is finished with.
A condition keeps the children of its element or drops the element.

What comes in the place of an element: copies of it for every turn of a loop, a partial, or the
fields of a form. Copies and partials are visited themselves.
-/

namespace PageTemplate

open Expander (onrenderName requireAttribute bindLoopName)

variable {x : Expander} {env : Env} {kept : ObjectId → Prop} {allowed : Text → Prop}
  {F : Frontier} {scope : ScopeId} {v : Value}

namespace Frontier

/-- Actions on scopes leave the objects alone. -/
theorem Moves.createScope (parent : Option ScopeId) : F.Moves (Scope.create parent) :=
  .of_cells fun _ _ => rfl

theorem Moves.bind (scope : ScopeId) (name : Text) (v : Value) :
    F.Moves (Scope.bind scope name v) := by
  refine .of_cells fun env w => ?_
  cases hb : Scope.isBlockedName name <;>
    simp [Scope.bind, hb, M.run'_bind, Scope.read, Scope.write]

theorem Moves.bindLoopName (scope : ScopeId) (name v : Value) :
    F.Moves (bindLoopName scope name v) := by
  unfold Expander.bindLoopName
  cases name with
  | text name => exact .bind scope name v
  | symbol => exact .of_cells fun _ _ => rfl
  | _ => exact .of_respects fun _ _ _ => (Convert.respects_toText _).bind fun _ =>
      .ite (.throw _) (.pure ())

end Frontier

namespace Sound

variable {α : Type} {P : World → Prop}

/-- Code that is allowed may be evaluated. -/
theorem evaluateAllowed (hP : Lasts kept P) {source : Text} :
    Sound x env kept allowed (fun w => allowed source ∧ P w)
      ((Observer.tracing x).evaluate scope source) fun _ => P :=
  (Sound.evaluate (fun w w' hw hk => ⟨hw.1, hP w w' hw.2 hk⟩) fun _ hw => hw.1).imp
    fun _ _ hw => hw.2

/-- What is known of a value if it is a text is known of the text that is expected of it. -/
theorem expectText {C : Text → Prop} (v : Value) :
    Sound x env kept allowed (fun w => (∀ t, v = .text t → C t) ∧ P w)
      ((Observer.tracing x).step (Tree.expectText v)) fun t w => C t ∧ P w := by
  refine .step_of fun env => ?_
  cases v with
  | text t => exact .pure fun w hw => ⟨hw.1 t rfl, hw.2⟩
  | _ => exact .typeError

end Sound

namespace Observer

/-! Nodes that are to be visited. -/

/-- Values are nodes of templates, and they are the next ones to be visited. -/
def Awaits (kept : ObjectId → Prop) (allowed : Text → Prop) (F : Frontier) (values : List Value)
    (w : World) : Prop :=
  ∃ ps : List Plot, values = ps.map (fun p => .object p.id) ∧
    (∀ p ∈ ps, p.node.Carries allowed) ∧ (F.plus ps).Ready kept w

/-- Whether siblings that are to be visited may be expanded. -/
def Visits (x : Expander) (env : Env) (kept : ObjectId → Prop) (allowed : Text → Prop)
    (siblings : Siblings (Recorded Event)) : Prop :=
  ∀ (F : Frontier) (scope : ScopeId) (values : List Value),
    Sound x env kept allowed (Awaits kept allowed F values) (siblings scope values)
      fun _ => F.Ready kept

/-- During the visit of an element: whatever it is finished with is code of a template. -/
def Entered (kept : ObjectId → Prop) (allowed : Text → Prop) (F : Frontier) (v : Value)
    (w : World) : Prop :=
  ∃ e : Element, (v = .object e.id ∧ ∀ code, (onrenderName, code) ∈ e.attributes → allowed code) ∧
    (F.visit e).Ready kept w

theorem held_entered (v : Value) : Sound.Held kept (Entered kept allowed F v) :=
  .exists_ fun _ => (Sound.Held.ready _).frame _

theorem Entered.ready {w : World} (h : Entered kept allowed F v w) : F.Ready kept w := by
  obtain ⟨e, -, hr⟩ := h
  exact hr.drop (.refl _) (List.subset_cons_self _ _) (List.sublist_cons_self _ _)

/-- Going on with the children of an element. -/
theorem sound_children (v : Value) :
    Sound x env kept allowed (Opens kept allowed F v)
      ((tracing x).step (Tree.children v)) fun values w =>
        ∃ e : Element,
          (v = .object e.id ∧ ∀ code, (onrenderName, code) ∈ e.attributes → allowed code) ∧
            Awaits kept allowed (F.visit e) values w := by
  refine .step_of fun env => ?_
  rintro w ⟨e, rfl, hc, hf, hr⟩ values w' hrun
  obtain ⟨cs, hchildren, hnodes, hready⟩ := hr.enter
  rw [hchildren env] at hrun
  cases hrun
  exact ⟨e, ⟨rfl, hf⟩, cs, rfl,
    fun p hp => hc _ (hnodes.subset (List.mem_map_of_mem hp)), hready⟩

variable {siblings : Siblings (Recorded Event)} (hs : Visits x env kept allowed siblings)

include hs in
theorem sound_siblings (scope : ScopeId) (v : Value) (values : List Value) :
    Sound x env kept allowed (fun w => ∃ e : Element,
        (v = .object e.id ∧ ∀ code, (onrenderName, code) ∈ e.attributes → allowed code) ∧
          Awaits kept allowed (F.visit e) values w)
      (siblings scope values) fun _ => Entered kept allowed F v :=
  .exists_ fun e => (hs (F.visit e) scope values).frame _

/-! Finishing an element. -/

theorem sound_finishWith (v source : Value) :
    Sound x env kept allowed
      (fun w => (∀ t, source = .text t → allowed t) ∧ Entered kept allowed F v w)
      ((tracing x).finishWith v scope source) fun _ => F.Ready kept := by
  unfold finishWith
  have hv : Sound.Held kept (Entered kept allowed F v) := held_entered v
  have hkept := hv.frame (∀ t, source = .text t → allowed t)
  refine (Sound.held hkept fun _ => .createScope _).bind fun inner => ?_
  refine (Sound.reads hkept fun _ _ _ => Store.respects_alloc).bind fun handle => ?_
  refine (Sound.held hkept fun _ => .bind _ _ _).bind fun _ => ?_
  refine (Sound.expectText source).bind fun code => ?_
  refine (Sound.evaluateAllowed hv.lasts).bind fun _ => ?_
  refine (Sound.leave inner).bind fun _ => .step_of fun env => ?_
  rintro w ⟨e, ⟨rfl, -⟩, hr⟩ a w' hrun
  obtain ⟨⟨q, hrecord⟩, hmap⟩ := hr.visited
  rw [Tree.removeAttribute, M.run'_bind_ok (Tree.run'_attributeMap hrecord rfl),
    M.run'_bind_ok (Tree.run'_mapEntries hmap)] at hrun
  cases hrun
  exact hr.unpin _

theorem sound_finish (v : Value) :
    Sound x env kept allowed (Entered kept allowed F v) ((tracing x).finish v scope)
      fun _ => F.Ready kept := by
  unfold finish
  refine .bind (Q := fun source w =>
    (∀ t, source = .text t → allowed t) ∧ Entered kept allowed F v w)
    (.step_of fun env => ?_) fun source => ?_
  · rintro w ⟨e, ⟨rfl, hf⟩, hr⟩ source w' hrun
    obtain ⟨⟨q, hrecord⟩, hmap⟩ := hr.visited
    rw [run'_getAttribute hrecord hmap] at hrun
    cases hrun
    refine ⟨fun t ht => ?_, e, ⟨rfl, hf⟩, hr⟩
    cases hfind : Assoc.find? onrenderName e.attributes with
    | none =>
      rw [hfind] at ht
      cases ht
    | some code =>
      rw [hfind] at ht
      cases ht
      exact hf t (Assoc.mem_of_find? hfind)
  · cases source with
    | undefined => exact .pure fun w hw => hw.2.ready
    | _ => exact sound_finishWith v _

include hs

/-- **Visiting an element** evaluates code of templates only. -/
theorem sound_expandElement (v : Value) :
    Sound x env kept allowed (Meets kept allowed F v)
      ((tracing x).expandElement siblings v scope) fun _ => F.Ready kept := by
  unfold expandElement
  refine (sound_expandAttributes v).bind fun _ => (sound_children v).bind fun values => ?_
  exact (sound_siblings hs scope v values).bind fun _ => sound_finish v

/-! Conditions. -/

theorem sound_keepChildren (v : Value) :
    Sound x env kept allowed (Meets kept allowed F v)
      ((tracing x).keepChildren siblings v scope) fun _ => F.Ready kept := by
  unfold keepChildren
  refine ((sound_children v).of_imp fun _ => Meets.opens).bind fun values => ?_
  refine (sound_siblings hs scope v values).bind fun _ => .moves ?_
  rintro w ⟨e, ⟨rfl, -⟩, hr⟩
  refine ⟨F.visit e, hr, .stripOut List.mem_cons_self, fun _ w' h' => ?_⟩
  exact h'.drop (.refl _) (List.subset_cons_self _ _) (List.sublist_cons_self _ _)

omit hs

/-- A node of a template is the next one to be visited. -/
def Reaches (kept : ObjectId → Prop) (F : Frontier) (v : Value) (w : World) : Prop :=
  ∃ p : Plot, v = .object p.id ∧ (F.plus [p]).Ready kept w

theorem held_reaches (v : Value) : Sound.Held kept (Reaches kept F v) := by
  rintro w ⟨p, hv, hr⟩
  exact ⟨_, hr, fun w' h' => ⟨p, hv, h'⟩⟩

theorem Meets.reaches {w : World} (h : Meets kept allowed F v w) : Reaches kept F v w := by
  obtain ⟨e, hv, -, hr⟩ := h
  exact ⟨e.plot, hv, hr⟩

theorem sound_dropNode (v : Value) :
    Sound x env kept allowed (Reaches kept F v) ((tracing x).step (Tree.remove v))
      fun _ => F.Ready kept :=
  (Sound.held (held_reaches v) fun _ => .remove v).imp fun _ _ ⟨_, _, hr⟩ => hr.last

theorem sound_replaceNode (v inserted : Value) :
    Sound x env kept allowed (Reaches kept F v)
      ((tracing x).step (Tree.replaceWith v inserted)) fun _ => F.Ready kept := by
  refine .moves ?_
  rintro w ⟨p, rfl, hr⟩
  exact ⟨F.plus [p], hr, .replaceWith inserted, fun _ _ h' => h'.last⟩

theorem sound_remove (v : Value) :
    Sound x env kept allowed (Meets kept allowed F v) ((tracing x).step (Tree.remove v))
      fun _ => F.Ready kept :=
  (sound_dropNode v).of_imp fun _ => Meets.reaches

theorem sound_replaceWith (v inserted : Value) :
    Sound x env kept allowed (Meets kept allowed F v)
      ((tracing x).step (Tree.replaceWith v inserted)) fun _ => F.Ready kept :=
  (sound_replaceNode v inserted).of_imp fun _ => Meets.reaches

/-- An attribute whose value is code. -/
theorem sound_requireCode (v : Value) {name : Text} (hn : name ∈ Markup.codeAttributes) :
    Sound x env kept allowed (Meets kept allowed F v)
      ((tracing x).step (requireAttribute v name)) fun source w =>
        (∀ t, source = .text t → allowed t) ∧ Meets kept allowed F v w := by
  refine .step_of fun env => ?_
  rintro w ⟨e, rfl, hc, hr⟩ source w' hrun
  obtain ⟨l, hl⟩ := hr.head
  obtain ⟨⟨q, hrecord⟩, hmap⟩ := Element.cells hl
  rw [requireAttribute, M.run'_bind_ok (run'_getAttribute hrecord hmap env name)] at hrun
  cases hfind : Assoc.find? name e.attributes with
  | none =>
    rw [hfind] at hrun
    obtain ⟨_, _, -, hrun⟩ := M.run'_bind_eq_ok.1 hrun
    obtain ⟨_, _, -, hrun⟩ := M.run'_bind_eq_ok.1 hrun
    cases hrun
  | some code =>
    rw [hfind] at hrun
    cases hrun
    refine ⟨fun t ht => ?_, e, rfl, hc, hr⟩
    cases ht
    exact hc.value hn (Assoc.mem_of_find? hfind)

include hs

theorem sound_expandCondition (v : Value) :
    Sound x env kept allowed (Meets kept allowed F v)
      ((tracing x).expandCondition siblings v scope) fun _ => F.Ready kept := by
  unfold expandCondition
  refine (sound_requireCode v (by decide)).bind fun source => ?_
  refine (Sound.expectText source).bind fun condition => ?_
  refine (Sound.evaluateAllowed (held_meets v).lasts).bind fun value => ?_
  refine (Sound.look (held_meets v).lasts _).bind fun holds => ?_
  cases holds with
  | true => exact (sound_keepChildren hs v).bind fun _ => .pure fun _ hw => hw
  | false => exact (sound_remove v).bind fun _ => .pure fun _ hw => hw

theorem sound_expandAlternative (v : Value) (prior : Bool) :
    Sound x env kept allowed (Meets kept allowed F v)
      ((tracing x).expandAlternative siblings v scope prior) fun _ => F.Ready kept :=
  .ite (sound_remove v) (sound_keepChildren hs v)

end Observer

/-! What comes in the place of an element. -/

open Expander (rootTag readTemplate rootOf)

variable {fragment : ObjectId} {core : NodeCore}

namespace Observer

variable {siblings : Siblings (Recorded Event)}

/-! Loops. -/

/-- A copy of an element is an element that is to be visited. -/
theorem sound_clone (v : Value) :
    Sound x env kept allowed (Meets kept allowed F v) ((tracing x).making (Tree.clone v))
      fun copy w => ∃ e : Element, (v = .object e.id ∧ e.node.Carries allowed) ∧
        Meets kept allowed (F.plus [e.plot]) (.object copy) w := by
  refine .making ?_
  rintro w ⟨e, rfl, hc, hr⟩ copy w' hrun hk
  obtain ⟨l, hl⟩ := hr.head
  obtain ⟨rfl, hrow⟩ := Tree.row_clone hl hc.tidy hrun
  exact ⟨e, ⟨rfl, hc⟩, { e with id := w.cells.size, stop := w'.cells.size }, rfl, hc,
    hr.addRow hrow hk⟩

/-- A fragment that copies are collected in. -/
theorem sound_collect (v : Value) :
    Sound x env kept allowed (Meets kept allowed F v)
      ((tracing x).making (Tree.create (.fragment []))) fun fragment =>
        Meets kept allowed (F.hold (fragment, .fragment)) v := by
  refine .making ?_
  rintro w ⟨e, rfl, hc, hr⟩ fragment w' hrun hk
  obtain ⟨w1, hrun1, hs⟩ := Tree.run'_createFragment env w
  rw [hrun1] at hrun
  cases hrun
  exact ⟨e, rfl, hc, hr.addSprout hs rfl hk⟩

section Loops

variable (hs : Visits x env kept allowed siblings) (hz : (fragment, core) ∈ F.holders)

include hs hz

/-- Visiting the children of a copy and moving them to the fragment. -/
theorem sound_takeOver (copy : Value) (inner : ScopeId) :
    Sound x env kept allowed (Meets kept allowed F copy) (do
        let children ← (tracing x).step (Tree.children copy)
        siblings inner children
        (tracing x).leave inner
        (tracing x).step (Tree.stealChildren (.object fragment) copy)) fun _ => F.Ready kept := by
  refine ((sound_children copy).of_imp fun _ => Meets.opens).bind fun children => ?_
  refine (sound_siblings hs inner copy children).bind fun _ => ?_
  refine (Sound.leave inner).bind fun _ => .moves ?_
  rintro w ⟨e, hv, hr⟩
  refine ⟨F.visit e, hr, .stealChildren (List.mem_cons_of_mem _ hz) copy, fun _ w' h' => ?_⟩
  exact Entered.ready ⟨e, hv, h'⟩

theorem sound_expandCopy (v : Value) (inner : ScopeId) :
    Sound x env kept allowed (Meets kept allowed F v)
      ((tracing x).expandCopy siblings v (.object fragment) inner)
      fun _ => Meets kept allowed F v := by
  unfold expandCopy
  refine (sound_clone v).bind fun copy => ?_
  refine (Sound.exists_ fun e : Element => (sound_takeOver (F := F.plus [e.plot]) hs hz
    (.object copy) inner).frame _).imp fun _ w hw => ?_
  obtain ⟨e, ⟨hv, hc⟩, hr⟩ := hw
  exact ⟨e, hv, hc, hr⟩

theorem sound_expandEntry (v itemName keyName : Value) (entry : Option (Value × Value)) :
    Sound x env kept allowed (Meets kept allowed F v)
      ((tracing x).expandEntry siblings v (.object fragment) scope itemName keyName entry)
      fun _ => Meets kept allowed F v := by
  have hv : Sound.Held kept (Meets kept allowed F v) := held_meets v
  unfold expandEntry
  refine (Sound.reads hv fun _ _ _ => Present.respects_expectEntry _).bind fun ⟨key, item⟩ => ?_
  refine (Sound.held hv fun _ => .createScope _).bind fun inner => ?_
  refine (Sound.held hv fun _ => .bindLoopName _ _ _).bind fun _ => ?_
  have hcopy := sound_expandCopy hs hz v inner
  refine .ite ?_ hcopy
  exact (Sound.held hv fun _ => .bindLoopName _ _ _).bind fun _ => hcopy

end Loops

theorem sound_expandLoop (hs : Visits x env kept allowed siblings) (v : Value) :
    Sound x env kept allowed (Meets kept allowed F v)
      ((tracing x).expandLoop x siblings v scope) fun _ => F.Ready kept := by
  have hv : Sound.Held kept (Meets kept allowed F v) := held_meets v
  unfold expandLoop
  refine (sound_requireCode v (by decide)).bind fun source => ?_
  have hcode := hv.frame (∀ t, source = .text t → allowed t)
  refine (Sound.reads hcode fun _ _ _ => Expander.respects_requireAttribute _ _).bind
    fun itemName => ?_
  refine (Sound.reads hcode fun _ _ _ => Tree.respects_getAttribute _ _).bind fun keyName => ?_
  refine (Sound.expectText source).bind fun source => ?_
  refine (Sound.evaluateAllowed hv.lasts).bind fun value => ?_
  refine (Sound.look hv.lasts _).bind fun entries => ?_
  refine .ite ((sound_remove v).bind fun _ => .pure fun _ hw => hw) ?_
  refine (sound_collect v).bind fun fragment => ?_
  refine (Sound.forM fun entry _ =>
    sound_expandEntry hs List.mem_cons_self v itemName keyName entry).bind fun _ => ?_
  refine (Sound.reads (held_meets v) fun _ _ _ => x.respects_logStep _).bind fun _ => ?_
  refine (sound_replaceWith v _).bind fun _ => .pure fun w hw => ?_
  exact hw.drop (.refl _) (List.subset_cons_self _ _) (.refl _)

/-! Partials. -/

/-- A document that was just made from a template, besides an element that is met. -/
def Planted (kept : ObjectId → Prop) (allowed : Text → Prop) (F : Frontier) (v : Value)
    (document : ObjectId) (w' : World) : Prop :=
  ∃ (e : Element) (w : World) (p : Plot) (nodes : List Markup.Node),
    (v = .object e.id ∧ e.node.Carries allowed) ∧ document = w.cells.size ∧
      p.node = .element rootTag [] nodes ∧ p.node.Carries allowed ∧
        Sprout w .document [] [p] w' ∧ ((F.plus [e.plot]).plus [p]).Ready kept w'

theorem sound_readTemplate (v : Value) (markup : Text) :
    Sound x env kept allowed
      (fun w => (∀ code, x.HasCode markup code → allowed code) ∧ Meets kept allowed F v w)
      ((tracing x).making (x.readTemplate markup true)) (Planted kept allowed F v) := by
  refine .making ?_
  rintro w ⟨ha, e, rfl, hc, hr⟩ document w' hrun hk
  obtain ⟨nodes, w0, hread, hrun⟩ := M.run'_bind_eq_ok.1 hrun
  unfold Tree.readNodes at hread
  cases hparse : Markup.parse (x.readOptions true) markup with
  | error e =>
    rw [hparse] at hread
    cases hread
  | ok ns =>
    rw [hparse] at hread
    cases hread
    obtain ⟨w1, ps, hplant, hnodes, hs⟩ :=
      Tree.run'_plantWithin env .document rfl [.element rootTag [] nodes] w
    rw [if_pos rfl, Tree.create, hplant] at hrun
    cases hrun
    obtain ⟨p, rfl, hp⟩ := List.map_eq_singleton_iff.1 hnodes
    refine ⟨e, w, p, nodes, ⟨rfl, hc⟩, rfl, hp, hp ▸ Expander.carries_root ?_, hs, ?_⟩
    · exact Expander.carries_parse hparse ha
    · exact (hr.addSprout hs rfl hk).drop (.refl _) (List.subset_cons_self _ _) (.refl _)

/-- The outermost element of a template that was just read is the one around it. -/
theorem sound_rootOf (v : Value) (document : ObjectId) :
    Sound x env kept allowed (Planted kept allowed F v document)
      ((tracing x).making (rootOf (.object document))) fun root w =>
        ∃ e : Element, (v = .object e.id ∧ e.node.Carries allowed) ∧
          Meets kept allowed (F.plus [e.plot]) root w := by
  refine .making ?_
  rintro w' ⟨e, w, p, nodes, hv, rfl, hp, hc, hs, hr⟩ root w'' hrun -
  have hroot := Tree.run'_firstPlot env hs
  simp only [List.find?_cons, hp, Markup.Node.kind, beq_self_eq_true, Option.map_some] at hroot
  rw [rootOf, M.run'_bind_ok hroot] at hrun
  cases hrun
  have hplot : p = (⟨rootTag, [], nodes, p.id, p.stop⟩ : Element).plot := by
    rw [Element.plot, Element.node, ← hp]
  have hcarries : (Markup.Node.element rootTag [] nodes).Carries allowed := hp ▸ hc
  exact ⟨e, hv, ⟨rootTag, [], nodes, p.id, p.stop⟩, rfl, hcarries, hplot ▸ hr⟩

/-- Partials, given how the element around one is expanded. -/
theorem sound_expandPartial {expandRoot : Value → ScopeId → Recorded Event Unit}
    (hroot : ∀ (F : Frontier) (scope : ScopeId) (v : Value), Sound x env kept allowed
      (Meets kept allowed F v) (expandRoot v scope) fun _ => F.Ready kept) (v : Value) :
    Sound x env kept allowed (Meets kept allowed F v)
      ((tracing x).expandPartial x expandRoot v scope) fun _ => F.Ready kept := by
  have hv : Sound.Held kept (Meets kept allowed F v) := held_meets v
  have hboth : ∀ root : Value, Sound.Held kept fun w => ∃ e : Element,
      (v = .object e.id ∧ e.node.Carries allowed) ∧ Meets kept allowed (F.plus [e.plot]) root w :=
    fun root => .exists_ fun e => (held_meets root).frame _
  unfold expandPartial
  refine (Sound.reads hv fun _ _ _ => Expander.respects_requireAttribute _ _).bind fun name => ?_
  refine (Sound.look hv.lasts _).bind fun file => ?_
  refine (Sound.reads hv fun _ _ _ => .liftExcept _).bind fun markup => ?_
  refine (Sound.loaded markup).bind fun _ => (sound_readTemplate v markup).bind fun document => ?_
  refine (sound_rootOf v document).bind fun root => ?_
  refine (Sound.held (hboth root) fun _ => .createScope _).bind fun inner => ?_
  refine (Sound.reads (hboth root) fun _ _ _ => Tree.respects_getAttribute _ _).bind
    fun data => ?_
  refine (Sound.look (hboth root).lasts _).bind fun _ => ?_
  refine .bind (Q := fun _ => Meets kept allowed F v) ?_ fun _ => ?_
  · refine (Sound.exists_ fun e : Element =>
      (hroot (F.plus [e.plot]) inner root).frame _).imp fun _ w hw => ?_
    obtain ⟨e, ⟨hv, hc⟩, hr⟩ := hw
    exact ⟨e, hv, hc, hr⟩
  · refine (Sound.leave inner).bind fun _ => ?_
    refine (Sound.reads hv fun _ _ _ => x.respects_logStep _).bind fun _ => ?_
    refine (Sound.held hv fun _ => .partialFragment x file root).bind fun fragment => ?_
    exact sound_replaceWith v fragment

theorem sound_expandFormData (v : Value) :
    Sound x env kept allowed (Meets kept allowed F v)
      ((tracing x).expandFormData v scope) fun _ => F.Ready kept := by
  have hv : Sound.Held kept (Meets kept allowed F v) := held_meets v
  unfold expandFormData
  refine (sound_requireCode v (by decide)).bind fun source => ?_
  have hcode := hv.frame (∀ t, source = .text t → allowed t)
  refine (Sound.reads hcode fun _ _ _ => Expander.respects_requireAttribute _ _).bind fun name => ?_
  refine (Sound.reads hcode fun _ _ _ => Tree.respects_allocNode _ _).bind fun form => ?_
  refine (Sound.expectText source).bind fun source => ?_
  refine (Sound.evaluateAllowed hv.lasts).bind fun value => (Sound.look hv.lasts _).bind fun _ => ?_
  refine (Sound.held hv fun _ => .fragmentOf _ _ _).bind fun fragment => ?_
  exact sound_replaceWith v fragment

end Observer

end PageTemplate
