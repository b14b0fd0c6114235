import PageTemplate.Proofs.Template.Render
import PageTemplate.Proofs.Template.Source
import PageTemplate.Proofs.Tree.Serialize
import PageTemplate.Proofs.Tree.Takeover

/-!
# PageTemplate.Proofs.Template.Controls

What comes in the place of inline code, of a script and of an element. How the siblings inside an
element are expanded is left open: all that is asked is that this amounts to rendering them.
-/

namespace PageTemplate

namespace Expander

open Markup (Node)

variable {x : Expander} {env : Env} {w : World} {V : View} {scope : ScopeId} {p c e : ObjectId}
  {pcore : NodeCore} {tag : Text} {attributes : Markup.Attributes} {children : List Node}

/-- Whether expanding the children of a node in their place amounts to rendering them. -/
def Refines (x : Expander) (env : Env) (siblings : Siblings) (renderer : Renderer) : Prop :=
  ∀ ⦃w : World⦄ ⦃V : View⦄ ⦃p : ObjectId⦄ ⦃core : NodeCore⦄ ⦃scope : ScopeId⦄ ⦃nodes : List Node⦄,
    V.core p = some core → core.hasChildren → (∀ n ∈ nodes, n.IsTemplate) →
    V.RepresentsAll (V.children p) (treesOf nodes) →
    Simulates x env w V (siblings scope ((V.children p).map .object)) (renderer scope nodes)
      fun _ ts V' =>
        V.Rebuilt p V' ∧ V'.attributes p = V.attributes p ∧ V'.RepresentsAll (V'.children p) ts

/-- What certain trees come in the place of a child, with the outcome that is passed on. -/
def Passes (V : View) (p c : ObjectId) (outcome : Bool) (rendered : Bool × List NodeTree)
    (V' : View) : Prop :=
  outcome = rendered.1 ∧ V.Yields p c rendered.2 V'

/-- The value of an attribute that there must be. -/
theorem simulates_requireAttribute (he : V.core e = some (.element (.text tag)))
    (ha : (V.attributes e).live = Markup.values attributes) (name : Text) :
    Simulates x env w V (requireAttribute (.object e) name) (required name attributes)
      fun v t V' => v = .text t ∧ V' = V := by
  refine Simulates.run (fun hs => Tree.run'_getText hs he ha name) ?_
  rw [required]
  cases Assoc.find? name attributes with
  | some value => exact .pure ⟨rfl, rfl⟩
  | none =>
    refine Simulates.run (fun hs => Tree.run'_tag (hs.record e _ he)) ?_
    exact .of_error rfl

/-! Inline code. -/

/-- A new leaf in the place of a child. -/
theorem simulates_putLeaf (hp : V.core p = some pcore) (hc : V.parent c = some p)
    {core : NodeCore} (hi : core.isInner) (hl : core.hasChildren = false) :
    Simulates x env w V
      (do Tree.replaceWith (.object c) (.object (← Tree.allocNode core [])))
      (pure [.leaf core]) fun _ ts V' => V.Yields p c ts V' := by
  refine .regular fun _ hg => ?_
  have ht : ∀ tag, core = .element tag → ∃ t, tag = .text t := by
    rintro tag rfl
    cases hl
  refine Simulates.tree (fun hs hg => Tree.leads_add hs hg ht) ?_
  rintro f w1 _ ⟨hnew, rfl⟩ _
  have hext := View.extends_add hnew core []
  obtain ⟨ccore, hcc, _⟩ := hg.inner c p hc
  refine Simulates.last (fun hs1 hg1 => Tree.leads_putLeaf hg.toIsForest hc hp hnew hs1 hg1
    (.of_extends hext c) ((hext.parent c ccore hcc).trans hc) (by simp [View.add]) hi hl
    (by simp [View.add])) ?_
  exact fun _ _ hy _ => hy

theorem simulates_remove (hc : V.parent c = some p) :
    Simulates x env w V (Tree.remove (.object c)) (pure [])
      fun _ ts V' => V.Yields p c ts V' := by
  refine .regular fun _ hg => ?_
  obtain ⟨ccore, hcc, _⟩ := hg.inner c p hc
  refine Simulates.last (fun hs hg => Tree.leads_remove hs hg hcc) ?_
  rintro _ V' rfl _
  exact View.yields_detach hg.toIsForest hc

/-- What inline code yields. -/
theorem simulates_expandCode (hp : V.core p = some pcore) (hc : V.parent c = some p)
    {source : Text} (hs : markupSource? source = none)
    (hcode : V.core c = some (.code (.text source))) :
    Simulates x env w V (x.expandCode (.object c) scope) (renderCode source scope)
      fun _ ts V' => V.Yields p c ts V' := by
  refine Simulates.run (fun hs => Tree.run'_source (hs.record c _ hcode)) ?_
  refine Simulates.run (a := source) (fun _ => rfl) ?_
  rw [renderCode.eq_def]
  cases source with
  | nil => exact Simulates.ask (.evaluate scope []) rfl fun _ _ => simulates_remove hc
  | cons u code =>
    simp only [hs]
    split
    · refine Simulates.ask (.evaluate scope code) rfl fun v _ => ?_
      exact Simulates.ask (.shown v) rfl fun shown _ => simulates_putLeaf hp hc rfl rfl
    · exact Simulates.ask (.evaluate scope (u :: code)) rfl fun _ _ => simulates_remove hc

/-! Scripts. -/

/-- Replacing the children of an element by a raw text. -/
theorem simulates_refill (he : V.core e = some (.element (.text tag)))
    (ha : (V.attributes e).live = Markup.values attributes) (code : Text) :
    Simulates x env w V
      (do Tree.removeChildren (.object e)
          Tree.append (.object e) (.object (← Tree.createText code true)))
      (pure (elementTree tag attributes [Markup.textLeaf (.text code) true]))
      fun _ t V' => V.Rebuilt e V' ∧ V'.Represents e t := by
  refine .regular fun _ hg => ?_
  refine Simulates.tree (fun hs hg => Tree.leads_removeChildren hs hg ⟨_, he, rfl⟩) ?_
  rintro _ w1 _ rfl _
  refine Simulates.last (P := fun _ V' => ∃ f, (V.takeChildren e).core f = none ∧ V' =
    ((V.takeChildren e).add f (.text (.text code) (.bool true)) []).append e f)
    (fun hs hg => Tree.leads_appendNew hs hg he rfl rfl (by simp) []) ?_
  rintro _ V' ⟨f, hnew, rfl⟩ _
  rw [View.takeChildren_core] at hnew
  have hne : f ≠ e := by
    rintro rfl
    rw [hnew] at he
    cases he
  let V2 := (V.takeChildren e).add f (.text (.text code) (.bool true)) []
  have hin : V2.Inner f := ⟨.text (.text code) (.bool true), by simp [V2, View.add], rfl⟩
  have hchildren : V2.children e = [] := by
    simp [V2, View.add, hne.symm, View.takeChildren_children]
  have hroot : V2.parent f = none := by simp [V2, View.add]
  rw [View.append_root hroot hin, hchildren, List.nil_append]
  let core := NodeCore.text (.text code) (.bool true)
  have hfill : V.Rebuilt e (((V.takeChildren e).add f core []).insert e [f] [f]) ∧ _ :=
    View.rebuilt_refill hg.toIsForest he hnew rfl
  obtain ⟨hreb, hrep⟩ := hfill
  refine ⟨hreb, hreb.core.trans he, ?_, ?_⟩
  · have hattr : (V2.insert e [f] [f]).attributes e = V.attributes e := by
      simp only [V2, View.insert, View.setChildren, View.setParents, View.add, if_neg hne.symm]
      rfl
    rw [hattr, ha]
  · rw [View.insert_children, if_pos rfl]
    exact hrep

theorem simulates_expandScript (h : V.Represents e (Node.element tag attributes children).tree) :
    Simulates x env w V (x.expandScript (.object e) scope)
      (renderScript tag attributes children scope)
      fun _ t V' => V.Rebuilt e V' ∧ V'.Represents e t := by
  refine .regular fun _ hg => ?_
  refine Simulates.run (fun hs => Tree.run'_innerMarkup hs hg.toIsForest h) ?_
  refine Simulates.run (a := Markup.serializeAll children) (fun _ => rfl) ?_
  rw [renderScript.eq_def]
  simp only
  split
  · refine Simulates.bind (simulates_substitute encodes_json _ _) ?_
    rintro code _ w1 _ ⟨rfl, rfl⟩ _
    exact simulates_refill h.1 h.2.1 code
  · exact .pure ⟨.refl V e, h⟩

/-! Elements. -/

/-- Expanding the children of an element. -/
theorem simulates_children {siblings : Siblings} {renderer : Renderer}
    (hr : Refines x env siblings renderer) (he : V.core e = some (.element (.text tag)))
    (ht : ∀ n ∈ children, n.IsTemplate) (h : V.RepresentsAll (V.children e) (treesOf children)) :
    Simulates x env w V (do siblings scope (← Tree.children (.object e)))
      (renderer scope children) fun _ ts V' =>
        V.Rebuilt e V' ∧ V'.attributes e = V.attributes e ∧
          V'.RepresentsAll (V'.children e) ts := by
  refine Simulates.run (fun hs => ?_) (hr he rfl ht h)
  rw [Tree.children, M.run'_bind_ok (Tree.run'_childList (hs.record e _ he) rfl)]
  exact Tree.ChildList.run'_toList (hs.list e _ he rfl)

/-- What an element is finished with. -/
theorem simulates_finish {ts : List NodeTree} (he : V.core e = some (.element (.text tag)))
    (ha : (V.attributes e).live = Markup.values attributes)
    (hts : V.RepresentsAll (V.children e) ts) :
    Simulates x env w V (x.finish (.object e) scope)
      (renderFinish tag attributes ts scope)
      fun _ t V' => V.Rebuilt e V' ∧ V'.Represents e t := by
  refine Simulates.run (fun hs => Tree.run'_getText hs he ha onrenderName) ?_
  rw [renderFinish]
  have hrep : V.Represents e (elementTree tag attributes ts) := ⟨he, ha, hts⟩
  cases Assoc.find? onrenderName attributes with
  | none => exact .pure ⟨.refl V e, hrep⟩
  | some source =>
    refine Simulates.ask (.inner scope) rfl fun inner w1 => ?_
    let rest (this : Value) : M Unit := do
      Scope.bind inner "this" this
      let _ ← x.evaluate inner source
      Tree.removeAttribute (.object e) (.text onrenderName)
    have hhandle : (Store.alloc (.handle (.object e) []) >>= fun id => rest (.object id)) =
        (do return .object (← Store.alloc (.handle (.object e) []))) >>= rest := by
      rw [bind_assoc]
      rfl
    change Simulates x env w1 V
      (Store.alloc (.handle (.object e) []) >>= fun id => rest (.object id)) _ _
    rw [hhandle]
    refine Simulates.ask (.handle (elementTree tag attributes ts)) ⟨e, hrep, rfl⟩ fun this w2 => ?_
    refine Simulates.ask (.bind inner "this" this) rfl fun _ w3 => ?_
    refine Simulates.ask (.evaluate inner source) rfl fun _ w4 => ?_
    refine .regular fun _ hg => ?_
    refine Simulates.last (fun hs hg => Tree.leads_removeAttribute hs hg he _) ?_
    rintro _ V' rfl _
    refine ⟨View.rebuilt_setAttributes V e _, he, ?_, ?_⟩
    · rw [View.setAttributes_attributes, Entries.live_erase, ha, Markup.erase_values]
    · exact View.setAttributes_representsAll hg.toIsForest e _ hts

/-- An element with everything in it. -/
theorem simulates_expandElement {siblings : Siblings} {renderer : Renderer}
    (hr : Refines x env siblings renderer) (ht : (Node.element tag attributes children).IsTemplate)
    (h : V.Represents e (Node.element tag attributes children).tree) :
    Simulates x env w V (x.expandElement siblings (.object e) scope)
      (renderElement renderer tag attributes children scope)
      fun _ t V' => V.Rebuilt e V' ∧ V'.Represents e t := by
  refine .regular fun _ hg => ?_
  obtain ⟨he, ha, hch⟩ := h
  refine Simulates.bind (simulates_expandAttributes he ha ht.distinct) ?_
  rintro _ rendered w1 _ ⟨es, rfl, hes⟩ _
  have hreb1 := View.rebuilt_setAttributes V e es
  have hch1 := View.setAttributes_representsAll hg.toIsForest e es hch
  rw [← bind_assoc]
  refine Simulates.bind (simulates_children hr he ht.inside hch1) ?_
  rintro _ ts w2 V2 ⟨hreb2, hattr, hts⟩ _
  rw [View.setAttributes_attributes] at hattr
  refine (simulates_finish (hreb2.core.trans he) (by rw [hattr, hes]) hts).imp ?_
  rintro _ t V3 _ ⟨hreb3, hrep⟩
  exact ⟨(hreb1.trans hg.toIsForest hreb2).trans hg.toIsForest hreb3, hrep⟩

/-! Conditions. -/

/-- The expanded children of an element come in its place. -/
theorem simulates_keepChildren {siblings : Siblings} {renderer : Renderer}
    (hr : Refines x env siblings renderer) (hp : V.core p = some pcore)
    (hc : V.parent c = some p) (hcore : V.core c = some (.element (.text tag)))
    (ht : ∀ n ∈ children, n.IsTemplate) (h : V.RepresentsAll (V.children c) (treesOf children)) :
    Simulates x env w V (keepChildren siblings (.object c) scope)
      (renderer scope children) fun _ ts V' => V.Yields p c ts V' := by
  refine .regular fun _ hg => ?_
  rw [keepChildren, ← bind_pure (renderer scope children), ← bind_assoc]
  refine Simulates.bind (simulates_children hr hcore ht h) ?_
  rintro _ ts w1 V1 ⟨hreb, _, hts⟩ hg1
  refine Simulates.last (fun hs hg1 => Tree.leads_stripOut hs hg1 (hreb.core.trans hcore)) ?_
  rintro _ V' ⟨f, hnew, rfl, _⟩ _
  exact View.yields_stripOut hg.toIsForest hc hp hreb hg1.toIsForest hnew hts

theorem simulates_expandCondition {siblings : Siblings} {renderer : Renderer}
    (hr : Refines x env siblings renderer) (hp : V.core p = some pcore)
    (hc : V.parent c = some p) (ht : ∀ n ∈ children, n.IsTemplate)
    (h : V.Represents c (Node.element tag attributes children).tree) :
    Simulates x env w V (x.expandCondition siblings (.object c) scope)
      (renderCondition renderer attributes children scope) (Passes V p c) := by
  obtain ⟨hcore, ha, hch⟩ := h
  refine Simulates.bind (simulates_requireAttribute hcore ha _) ?_
  rintro _ condition w1 _ ⟨rfl, rfl⟩ _
  refine Simulates.run (a := condition) (fun _ => rfl) ?_
  refine Simulates.ask (.evaluate scope condition) rfl fun v w2 => ?_
  refine Simulates.ask (.truth v) rfl fun holds w3 => ?_
  cases holds with
  | true =>
    simp only [if_true]
    rw [← bind_pure (renderer scope children), bind_assoc]
    refine Simulates.bind (simulates_keepChildren hr hp hc hcore ht hch) ?_
    exact fun _ ts _ V' hy _ => .pure ⟨rfl, hy⟩
  | false =>
    simp only [Bool.false_eq_true, if_false]
    rw [← pure_bind [] fun ts => (Pure.pure (false, ts) : Script (Bool × List NodeTree))]
    refine Simulates.bind (simulates_remove hc) ?_
    exact fun _ ts _ V' hy _ => .pure ⟨rfl, hy⟩

/-- The alternative to a condition. -/
theorem simulates_expandAlternative {siblings : Siblings} {renderer : Renderer}
    (hr : Refines x env siblings renderer) (hp : V.core p = some pcore)
    (hc : V.parent c = some p) (ht : ∀ n ∈ children, n.IsTemplate)
    (h : V.Represents c (Node.element tag attributes children).tree) (prior : Bool) :
    Simulates x env w V (expandAlternative siblings (.object c) scope prior)
      (renderAlternative renderer children scope prior) fun _ ts V' => V.Yields p c ts V' := by
  rw [expandAlternative, renderAlternative]
  cases prior with
  | true => exact simulates_remove hc
  | false => exact simulates_keepChildren hr hp hc h.1 ht h.2.2

end Expander

end PageTemplate
