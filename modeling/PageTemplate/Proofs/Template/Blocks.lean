import PageTemplate.Proofs.Template.Controls
import PageTemplate.Proofs.Tree.Plant

/-!
# PageTemplate.Proofs.Template.Blocks

Loops and partials. What comes in the place of one is built in a fragment outside of the tree: the
expanded copies of the children of a loop one after another, or the expanded nodes of another
template.
-/

namespace PageTemplate

namespace Expander

open Markup (Node)

variable {x : Expander} {env : Env} {w : World} {V V1 : View} {scope : ScopeId} {p c f : ObjectId}
  {pcore : NodeCore} {tag : Text} {attributes : Markup.Attributes} {children : List Node}
  {siblings : Siblings} {renderer : Renderer} {ts : List NodeTree}

/-! Loops. -/

/-- The names of a loop are bound in the scope of an entry. -/
theorem simulates_bindLoopName {α β : Type} {R : α → β → View → Prop} (inner : ScopeId)
    (name : Text) (v : Value) {action : M α} {s : Script β}
    (h : ∀ w', Simulates x env w' V action s R) :
    Simulates x env w V
      (do bindLoopName inner (.text name) v
          action)
      (do Script.query (.bind inner name v)
          s) R :=
  Simulates.ask (.bind inner name v) rfl fun _ w' => h w'

/-- Expanding a copy of a loop and adding the outcome to what was built. -/
theorem simulates_addCopy (hr : Refines x env siblings renderer) (hf : V.IsForest)
    (ht : (Node.element tag attributes children).IsTemplate)
    (h : V.Represents c (Node.element tag attributes children).tree) (hb : V.Built f .fragment ts V1)
    (inner : ScopeId) :
    Simulates x env w V1
      (do let copy := Value.object (← Tree.clone (.object c))
          siblings inner (← Tree.children copy)
          Tree.stealChildren (.object f) copy)
      (renderer inner children) fun _ us V' => V.Built f .fragment (ts ++ us) V' := by
  refine .regular fun _ hg1 => ?_
  have h1 := h.extend hf hb.extend
  refine Simulates.tree (fun hs hg => Tree.leads_clone hs hg ⟨_, h1.1, rfl⟩) ?_
  intro k w2 V2 hk hg2
  obtain ⟨hkc, hka, hkch⟩ := hk.represents _ h1 ht.tidy.copyable
  have hb2 := hb.later hg1.toIsForest hk.extend
  have hk0 : V.core k = none := (View.KeptOutside.of_extends hb.extend k).fresh hk.fresh
  rw [← bind_pure (renderer inner children), ← bind_assoc]
  refine Simulates.bind (simulates_children hr hkc ht.inside hkch) ?_
  rintro _ us w3 V3 ⟨hreb, _, hus⟩ hg3
  -- What has changed lies inside of the copy, so what was built before is as it was.
  have hext : V1.Extends V3 := hk.extend.trans_new hg1.toIsForest hk.fresh hreb.outside
  have hb3 := hb.later hg1.toIsForest hext
  have hkroot : V3.parent k = none := hreb.parent.trans hk.root
  have hne : f ≠ k := by
    rintro rfl
    cases hk.fresh.symm.trans hb.core
  have hab : ¬ V3.Above f k := fun ha => by
    obtain ⟨y, hy, _⟩ := Relation.TransGen.head'_iff.1 ha
    rw [hkroot] at hy
    cases hy
  have hu : ¬ V3.Under (V3.children k) f := by
    refine View.not_under_root hb3.root fun hm => ?_
    have := (hg3.mem_children k f).1 hm
    rw [hb3.root] at this
    cases this
  refine Simulates.last (fun hs hg => Tree.leads_stealChildren hs hg ⟨_, hb3.core, rfl⟩
    ⟨_, hreb.core.trans hkc, rfl⟩ hu) ?_
  rintro _ V' rfl _
  exact hb3.steal hf hg3.toIsForest hk0 hne hab hus

theorem simulates_expandEntry (hr : Refines x env siblings renderer) (hf : V.IsForest)
    (ht : (Node.element tag attributes children).IsTemplate)
    (h : V.Represents c (Node.element tag attributes children).tree) (hb : V.Built f .fragment ts V1)
    (itemName : Text) (keyName : Option Text) (entry : Option (Value × Value)) :
    Simulates x env w V1
      (expandEntry siblings (.object c) (.object f) scope (.text itemName)
        (.ofOption (keyName.map .text)) entry)
      (renderEntry renderer children scope itemName keyName entry)
      fun _ us V' => V.Built f .fragment (ts ++ us) V' := by
  cases entry with
  | none => exact .of_error rfl
  | some entry =>
    obtain ⟨key, item⟩ := entry
    refine Simulates.run (a := (key, item)) (fun _ => rfl) ?_
    refine Simulates.ask (.inner scope) rfl fun inner w2 => ?_
    refine simulates_bindLoopName inner itemName item fun w3 => ?_
    match keyName with
    | none => exact simulates_addCopy hr hf ht h hb inner
    | some [] => exact simulates_addCopy hr hf ht h hb inner
    | some (u :: name) =>
      exact simulates_bindLoopName inner (u :: name) key fun w4 =>
        simulates_addCopy hr hf ht h hb inner

/-- Going through the entries of a loop. -/
theorem simulates_entries (hr : Refines x env siblings renderer) (hf : V.IsForest)
    (ht : (Node.element tag attributes children).IsTemplate)
    (h : V.Represents c (Node.element tag attributes children).tree) (itemName : Text)
    (keyName : Option Text) (entries : List (Option (Value × Value))) :
    ∀ {w : World} {V1 : View} {ts : List NodeTree}, V.Built f .fragment ts V1 →
      Simulates x env w V1
        (entries.forM (expandEntry siblings (.object c) (.object f) scope (.text itemName)
          (.ofOption (keyName.map .text))))
        (renderEntries renderer children scope itemName keyName entries)
        fun _ us V' => V.Built f .fragment (ts ++ us) V' := by
  induction entries with
  | nil =>
    intro w V1 ts hb
    exact .pure (by rwa [List.append_nil])
  | cons entry entries ih =>
    intro w V1 ts hb
    rw [renderEntries]
    refine Simulates.bind (simulates_expandEntry hr hf ht h hb itemName keyName entry) ?_
    intro _ us w2 V2 hb2 _
    refine (ih hb2).map fun _ more V' hb' => ?_
    rwa [← List.append_assoc]

/-- Nothing comes in the place of a loop without entries. -/
theorem simulates_expandLoop (hr : Refines x env siblings renderer) (hp : V.core p = some pcore)
    (hc : V.parent c = some p) (ht : (Node.element tag attributes children).IsTemplate)
    (h : V.Represents c (Node.element tag attributes children).tree) :
    Simulates x env w V (x.expandLoop siblings (.object c) scope)
      (renderLoop renderer attributes children scope) (Passes V p c) := by
  refine .regular fun _ hg => ?_
  have hcore := h.1
  refine Simulates.bind (simulates_requireAttribute hcore h.2.1 _) ?_
  rintro _ source w1 _ ⟨rfl, rfl⟩ _
  refine Simulates.bind (simulates_requireAttribute hcore h.2.1 _) ?_
  rintro _ itemName w2 _ ⟨rfl, rfl⟩ _
  refine Simulates.run (fun hs => Tree.run'_getText hs hcore h.2.1 _) ?_
  refine Simulates.run (a := source) (fun _ => rfl) ?_
  refine Simulates.ask (.evaluate scope source) rfl fun v w3 => ?_
  refine Simulates.ask (.entries v source) rfl fun entries w4 => ?_
  cases entries with
  | nil =>
    refine Simulates.tree (fun hs hg => Tree.leads_remove hs hg hcore) ?_
    rintro _ w5 V5 rfl _
    exact .pure ⟨rfl, View.yields_detach hg.toIsForest hc⟩
  | cons entry entries =>
    simp only [List.isEmpty_cons, Bool.false_eq_true, if_false]
    refine Simulates.tree (fun hs hg => Tree.leads_plantWithin_nil hs hg (by simp) rfl) ?_
    rintro f w5 _ ⟨hnew, rfl⟩ _
    refine Simulates.bind (simulates_entries hr hg.toIsForest ht h itemName _ (entry :: entries)
      (.start hnew .fragment [])) ?_
    rintro _ us w6 V6 hb _
    rw [List.nil_append] at hb
    refine Simulates.ask (.log _) rfl fun _ w7 => ?_
    refine Simulates.tree (fun hs hg6 => Tree.leads_putBuilt hg.toIsForest hc hp hb hs hg6) ?_
    exact fun _ w8 V8 hy _ => .pure ⟨rfl, hy⟩

/-! Fragments around the children of a node. -/

/-- Adding a remark to a fragment. -/
theorem leads_addRemark (hs : Shows w V1) (hg : V1.IsRegular) (hb : V.Built f .fragment ts V1) (t : Text) :
    Leads env w V1 (addRemark (.object f) t) fun _ V' =>
      V.Built f .fragment (ts ++ [remark t]) V' ∧ ∀ k us, V1.Waits f k us → V'.Waits f k us := by
  let core := NodeCore.comment (.text (" " ++ t ++ " "))
  refine Leads.imp (P := fun _ V' => ∃ l, V1.core l = none ∧ V' = (V1.add l core []).append f l)
    (Tree.leads_appendNew hs hg hb.core rfl rfl (fun _ ht => by cases ht) []) ?_
  rintro _ V' ⟨l, hnew, rfl⟩
  have ht : (V1.add l core []).Represents l (remark t) := ⟨by simp [View.add, core], rfl⟩
  exact ⟨hb.append hg.toIsForest hnew rfl ht, fun k us hk =>
    hk.append hg.toIsForest hb.core hb.root hnew [] rfl⟩

theorem leads_addRemarks (texts : List Text) : ∀ {w : World} {V1 : View} {ts : List NodeTree},
    Shows w V1 → V1.IsRegular → V.Built f .fragment ts V1 →
    Leads env w V1 (texts.forM (addRemark (.object f))) fun _ V' =>
      V.Built f .fragment (ts ++ texts.map remark) V' ∧ ∀ k us, V1.Waits f k us → V'.Waits f k us := by
  induction texts with
  | nil =>
    intro w V1 ts hs hg hb
    rw [List.map_nil, List.append_nil]
    exact .of_does (.pure hs ()) hg ⟨hb, fun _ _ hk => hk⟩
  | cons t texts ih =>
    intro w V1 ts hs hg hb
    refine Leads.bind (leads_addRemark hs hg hb t) ?_
    rintro _ w2 V2 hs2 hg2 ⟨hb2, hk2⟩
    refine (ih hs2.shows hg2 hb2).imp ?_
    rintro _ V' ⟨hb', hk'⟩
    rw [List.append_assoc] at hb'
    exact ⟨hb', fun k us hk => hk' k us (hk2 k us hk)⟩

/-- The children of a new node with remarks around them. -/
theorem leads_fragmentOf (hf : V.IsForest) (hs : Shows w V1) (hg : V1.IsRegular)
    (hext : V.Extends V1) {k : ObjectId} (hk : V.core k = none) (hkc : V1.Container k)
    {us : List NodeTree} (hu : V1.RepresentsAll (V1.children k) us) (before behind : List Text) :
    Leads env w V1 (fragmentOf before behind (.object k)) fun fragment V' =>
      ∃ f, fragment = .object f ∧
        V.Built f .fragment (before.map remark ++ us ++ behind.map remark) V' := by
  refine Leads.bind (Tree.leads_plantWithin_nil hs hg (by simp) rfl) ?_
  rintro f w2 _ hs2 hg2 ⟨hnew, rfl⟩
  have hwaits := View.Waits.start hg.toIsForest hnew hkc hu
  refine Leads.bind (leads_addRemarks before hs2.shows hg2 (.of_extends hext (.start hnew .fragment []))) ?_
  rintro _ w3 V3 hs3 hg3 ⟨hb3, hk3⟩
  obtain ⟨hkc3, hw3, hu3⟩ := hk3 k us hwaits
  have hne : f ≠ k := fun he => hw3 (.inl he.symm)
  have hfk : ¬ V3.Under (V3.children k) f := by
    refine View.not_under_root hb3.root fun hm => ?_
    have hpar := (hg3.mem_children k f).1 hm
    rw [hb3.root] at hpar
    cases hpar
  refine Leads.bind (Tree.leads_stealChildren hs3.shows hg3 ⟨_, hb3.core, rfl⟩ hkc3 hfk) ?_
  rintro _ w4 _ hs4 hg4 rfl
  have hb4 := hb3.steal hf hg3.toIsForest hk hne (fun ha => hw3 (.inr ha)) hu3
  rw [List.nil_append] at hb4
  refine Leads.bind (leads_addRemarks behind hs4.shows hg4 hb4) ?_
  rintro _ w5 V5 hs5 hg5 ⟨hb5, _⟩
  exact .of_does (.pure hs5.shows _) hg5 ⟨f, rfl, hb5⟩

/-! Partials. -/

/-- The outermost element of a template that was read. -/
theorem leads_readTemplate (hs : Shows w V) (hg : V.IsRegular) {markup : Text} {nodes : List Node}
    (hparse : Markup.parse (x.readOptions true) markup = .ok nodes) :
    Leads env w V (do rootOf (.object (← x.readTemplate markup true))) fun root V' =>
      ∃ r, root = .object r ∧ V.Extends V' ∧ V.core r = none ∧
        V'.Represents r (Node.element rootTag [] nodes).tree := by
  have hplanted : ∃ d V1, Does env w V (Tree.plantWithin .document [.element rootTag [] nodes]) d V1 ∧
      V1.IsRegular ∧ V.Extends V1 ∧ V.NewAttributes V1 ∧ V.core d = none ∧
        V1.core d = some .document ∧ V1.parent d = none ∧
        V1.RepresentsAll (V1.children d) (treesOf [.element rootTag [] nodes]) :=
    Tree.does_plantWithin hs hg (by simp) rfl [.element rootTag [] nodes]
  obtain ⟨d, V1, hdoes, hg1, hext, _, hnew, hd, _, hch⟩ := hplanted
  obtain ⟨r, rest, hids, hr, hrest⟩ := hch
  rw [View.representsAll_nil.1 hrest] at hids
  have hrnew : V.core r = none := by
    cases hc : V.core r with
    | none => rfl
    | some rcore =>
      -- An old node would have an old parent, and the document is new.
      have hpar := (hg1.mem_children d r).1 (by simp [hids])
      rw [hext.parent r rcore hc] at hpar
      obtain ⟨_, hdc, _⟩ := hg.container r d hpar
      rw [hnew] at hdc
      cases hdc
  obtain ⟨w1, hrun, ht⟩ := hdoes
  have hplant : M.run' env w (x.readTemplate markup true) = (.ok d, w1) := by
    rw [readTemplate, M.run'_bind_ok (Tree.run'_readNodes hparse)]
    exact hrun
  have hroot : M.run' env w1 (rootOf (.object d)) = (.ok (.object r), w1) := by
    rw [rootOf, M.run'_bind_ok (Tree.run'_documentElement ht.shows hd rfl hids hr.1)]
    rfl
  refine .of_does ⟨w1, ?_, ht⟩ hg1 ⟨r, rfl, hext, hrnew, hr⟩
  rw [M.run'_bind_ok hplant, hroot]

theorem dataText_text (t : Text) : dataText? (.text t) = pure (some t) := rfl

/-- Binding the data of a partial. -/
theorem simulates_bindData (inner : ScopeId) (file : Text) (data : Option Text) :
    Simulates x env w V (bindData inner file (.ofOption (data.map .text)))
      (renderData inner data) fun _ _ V' => V' = V := by
  cases data with
  | none => exact .pure rfl
  | some data =>
    have hdata : bindData inner file (.ofOption ((some data).map .text)) =
        partialData file (.text data) >>= fun v => Scope.bind inner "data" v := rfl
    rw [hdata, partialData, dataText_text, pure_bind, renderData, Option.bind_some]
    cases Json.parse? data with
    | none => exact .of_error rfl
    | some document =>
      refine Simulates.ask (.data document) rfl fun v w1 => ?_
      exact (Simulates.query (.bind inner "data" v) rfl).imp fun _ _ _ _ h => h.2

/-- The trees of a partial, marked when steps are logged. -/
theorem leads_partialFragment (hf : V.IsForest) (hs : Shows w V1) (hg : V1.IsRegular)
    (hext : V.Extends V1) {k : ObjectId} (hk : V.core k = none) (hkc : V1.Container k)
    {us : List NodeTree} (hu : V1.RepresentsAll (V1.children k) us) (file : Text) :
    Leads env w V1 (x.partialFragment file (.object k)) fun fragment V' =>
      ∃ f, fragment = .object f ∧ V.Built f .fragment (x.marked file us) V' := by
  rw [partialFragment, marked]
  cases x.debug with
  | true => exact leads_fragmentOf hf hs hg hext hk hkc hu [file] ["end " ++ file]
  | false =>
    have hd : Leads env w V1 (fragmentOf [] [] (.object k)) _ :=
      leads_fragmentOf hf hs hg hext hk hkc hu [] []
    simpa using hd

theorem run'_readTemplate_error {markup : Text} {e : Markup.Malformed}
    (hparse : Markup.parse (x.readOptions true) markup = .error e) :
    M.run' env w (x.readTemplate markup true) = (.error (.ofMalformed e), w) :=
  M.run'_bind_error (Tree.run'_readNodes_error hparse)

theorem partialNodes_eq {file markup : Text} {nodes : List Node}
    (hload : x.loader file = .ok markup)
    (hparse : Markup.parse (x.readOptions true) markup = .ok nodes) :
    x.partialNodes file = pure nodes := by
  rw [partialNodes, hload]
  simp only [hparse]

/-- The outermost element of a template has neither attributes nor an expression that it is finished
with. -/
theorem simulates_expandRoot (hr : Refines x env siblings renderer) {r : ObjectId}
    {nodes : List Node} (ht : (Node.element rootTag [] nodes).IsTemplate)
    (h : V.Represents r (Node.element rootTag [] nodes).tree) :
    Simulates x env w V (x.expandElement siblings (.object r) scope) (renderer scope nodes)
      fun _ us V' => V.Rebuilt r V' ∧ V'.RepresentsAll (V'.children r) us := by
  have hscript : renderElement renderer rootTag [] nodes scope =
      (do let us ← renderer scope nodes
          return elementTree rootTag [] us) := by
    rw [renderElement, renderAttributes, pure_bind]
    rfl
  have hd : Simulates x env w V (x.expandElement siblings (.object r) scope)
      (renderElement renderer rootTag [] nodes scope) fun _ t V' =>
        V.Rebuilt r V' ∧ V'.Represents r t := simulates_expandElement hr ht h
  rw [hscript] at hd
  exact hd.of_map.imp fun _ _ _ _ hq => ⟨hq.1, hq.2.2.2⟩

/-- The trees of another template. -/
theorem simulates_expandPartial
    (hx : ∀ name markup nodes, x.loader name = .ok markup →
      Markup.parse (x.readOptions true) markup = .ok nodes → Markup.anyInsertsMarkup nodes = false)
    (hr : Refines x env siblings renderer) (hp : V.core p = some pcore)
    (hc : V.parent c = some p)
    (h : V.Represents c (Node.element tag attributes children).tree) :
    Simulates x env w V (x.expandPartial (x.expandElement siblings) (.object c) scope)
      (x.renderPartial renderer attributes scope) fun _ ts V' => V.Yields p c ts V' := by
  refine .regular fun _ hg => ?_
  refine Simulates.bind (simulates_requireAttribute h.1 h.2.1 _) ?_
  rintro _ file w1 V ⟨rfl, rfl⟩ _
  refine Simulates.run (a := file) (fun _ => rfl) ?_
  cases hload : x.loader file with
  | error e => exact .of_error rfl
  | ok markup =>
    refine Simulates.run (a := markup) (fun _ => rfl) ?_
    rw [← bind_assoc]
    cases hparse : Markup.parse (x.readOptions true) markup with
    | error e =>
      exact .of_error (M.run'_bind_error (M.run'_bind_error (run'_readTemplate_error hparse)))
    | ok nodes =>
      rw [partialNodes_eq hload hparse, pure_bind]
      refine Simulates.tree (fun hs hg => leads_readTemplate hs hg hparse) ?_
      rintro _ w2 V2 ⟨r, rfl, hext, hrnew, hroot⟩ hg2
      refine Simulates.ask (.inner scope) rfl fun inner w3 => ?_
      have h2 := h.extend hg.toIsForest hext
      refine Simulates.run (fun hs => Tree.run'_getText hs h2.1 h2.2.1 _) ?_
      refine Simulates.bind (simulates_bindData inner file _) ?_
      rintro _ _ w4 V2 rfl _
      have ht : (Node.element rootTag [] nodes).IsTemplate :=
        ⟨(Markup.IsProduced.root hparse).isTidy, hx file markup nodes hload hparse⟩
      refine Simulates.bind (simulates_expandRoot hr ht hroot) ?_
      rintro _ us w5 V5 ⟨hreb, hus⟩ hg5
      have hext5 : V.Extends V5 := hext.trans_new hg.toIsForest hrnew hreb.outside
      refine Simulates.ask (.log _) rfl fun _ w6 => ?_
      refine Simulates.tree (fun hs hg6 => leads_partialFragment hg.toIsForest hs hg6 hext5 hrnew
        ⟨_, hreb.core.trans hroot.1, rfl⟩ hus file) ?_
      rintro _ w7 V7 ⟨f, rfl, hb⟩ _
      refine Simulates.last (fun hs hg7 => Tree.leads_putBuilt hg.toIsForest hc hp hb hs hg7) ?_
      exact fun _ _ hy _ => hy

end Expander

end PageTemplate
