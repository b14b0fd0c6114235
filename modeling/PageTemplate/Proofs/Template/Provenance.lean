import PageTemplate.Proofs.Template.Inline

/-!
# PageTemplate.Proofs.Template.Provenance

Where the code comes from that an expansion evaluates: all of it was in the template or in one of
the partials, as long as nothing but the expansion changes their objects.
-/

namespace PageTemplate

open Recorded (run')
open Expander (rootTag)

deriving instance DecidableEq for Value
deriving instance DecidableEq for Proto
deriving instance DecidableEq for Cell

namespace Expander

variable {x : Expander} {env : Env} {allowed : Text → Prop} {scope : ScopeId} {markup : Text}
  {wrap : Bool} {first last w : World} {root : ObjectId}

/-- The document element of a template that was read is an element that may be visited. -/
theorem meets_readTemplate (hread : M.run' env first (do
      let document ← x.readTemplate markup wrap
      Tree.documentElement? (.object document)) = (.ok (some (.object root)), last))
    (ha : ∀ code, x.HasCode markup code → allowed code) :
    Observer.Meets (fun id => first.cells.size ≤ id ∧ id < last.cells.size) allowed ⟨[], [], []⟩
      (.object root) last := by
  obtain ⟨document, w1, hdocument, hroot⟩ := M.run'_bind_eq_ok.1 hread
  obtain ⟨nodes, w2, hnodes, hcreate⟩ := M.run'_bind_eq_ok.1 hdocument
  unfold Tree.readNodes at hnodes
  cases hparse : Markup.parse (x.readOptions true) markup with
  | error e =>
    rw [hparse] at hnodes
    cases hnodes
  | ok ns =>
    rw [hparse] at hnodes
    cases hnodes
    have hcarries := carries_parse hparse ha
    have hall : ∀ n ∈ (if wrap then [.element rootTag [] nodes] else nodes),
        n.Carries allowed := by
      cases wrap with
      | true => exact List.forall_mem_singleton.2 (carries_root hcarries)
      | false => exact hcarries
    obtain ⟨w3, ps, hplant, hps, hs⟩ := Tree.run'_plantWithin env .document rfl
      (if wrap then [.element rootTag [] nodes] else nodes) first
    rw [Tree.create, hplant] at hcreate
    cases hcreate
    rw [Tree.run'_firstPlot env hs] at hroot
    cases hfind : ps.find? (·.node.kind == .element) with
    | none =>
      rw [hfind] at hroot
      cases hroot
    | some p =>
      rw [hfind] at hroot
      cases hroot
      have hp := List.mem_of_find?_eq_some hfind
      have hempty : Frontier.Ready (fun id => first.cells.size ≤ id ∧ id < last.cells.size)
          ⟨[], [], []⟩ first := by
        refine .of_stands ?_ ?_ <;> constructor <;> simp
      have hready := hempty.addSprout hs rfl fun _ hge hlt => ⟨hge, hlt⟩
      have hc : p.node.Carries allowed := hall _ (hps ▸ List.mem_map_of_mem hp)
      obtain ⟨node, id, stop⟩ := p
      have hkind := List.find?_some hfind
      cases node with
      | element tag attributes children =>
        refine ⟨⟨tag, attributes, children, id, stop⟩, rfl, hc, hready.drop ?_ (List.nil_subset _) (.refl _)⟩
        exact List.singleton_sublist.2 (List.mem_append_left _ hp)
      | _ => cases hkind

/-- The objects of templates in a run: those that came into the store with the template, between
two stores, and those that the run itself adds to them. -/
def OfTemplates (first last : World) (events : List Event) (id : ObjectId) : Prop :=
  (first.cells.size ≤ id ∧ id < last.cells.size) ∨ ∃ e ∈ events, e.Brings id

/-- Whether code is in a template, or in one of the partials that a run has loaded. -/
def IsTemplateCode (x : Expander) (markup : Text) (events : List Event) (code : Text) : Prop :=
  x.HasCode markup code ∨
    ∃ e ∈ events, ∃ loaded, e.markup? = some loaded ∧ x.HasCode loaded code

/-- **Data never becomes code of a template.** Take a template that was read, and a run that expands
its document element later on, when the objects of the template are still as they were. As long as
the evaluations of the run, and the functions that it calls besides, change no object of a template,
all code that it evaluates was in the template or in a partial that it loaded. -/
theorem expand_evaluates_templates (hc : x.customTags = []) {env₀ : Env} {out : Except Fault Unit}
    {r : Record Event}
    (hread : M.run' env₀ first (do
      let document ← x.readTemplate markup wrap
      Tree.documentElement? (.object document)) = (.ok (some (.object root)), last))
    (hkeeps : last.Keeps (first.cells.size ≤ ·) w)
    (hrun : run' env ⟨w, []⟩ ((Observer.tracing x).expand x (.object root) scope) = (out, r))
    (hspares : ∀ e ∈ r.events, e.Spares (OfTemplates first last r.events)) :
    M.run' env w (x.expand (.object root) scope) = (out, r.world) ∧
      ∀ e ∈ r.events, e.Allowed (x.IsTemplateCode markup r.events) := by
  have herases : ((Observer.tracing x).expand x (.object root) scope).Erases
      (x.expand (.object root) scope) := (Observer.faithful_tracing x).expand hc (.object root)
  have hplain := herases env ⟨w, []⟩
  rw [hrun] at hplain
  refine ⟨hplain.symm, ?_⟩
  have hfair : ∀ e ∈ r.events,
      e.Fair x (OfTemplates first last r.events) (x.IsTemplateCode markup r.events) := fun e he =>
    ⟨hspares e he, fun _ hb => .inr ⟨e, he, hb⟩, fun loaded hm _ hcode =>
      .inr ⟨e, he, loaded, hm, hcode⟩⟩
  have hmeets : Observer.Meets (OfTemplates first last r.events) (x.IsTemplateCode markup r.events)
      ⟨[], [], []⟩ (.object root) w := by
    obtain ⟨e, hv, hcarries, hready⟩ := meets_readTemplate hread fun _ hcode => Or.inl hcode
    exact ⟨e, hv, hcarries, (hready.keep (hkeeps.mono fun _ h => h.1)).mono fun _ => .inl⟩
  have hsound : Sound x env (OfTemplates first last r.events) (x.IsTemplateCode markup r.events)
      (Observer.Meets (OfTemplates first last r.events) (x.IsTemplateCode markup r.events)
        ⟨[], [], []⟩ (.object root))
      ((Observer.tracing x).expand x (.object root) scope)
      fun _ => Frontier.Ready (OfTemplates first last r.events) ⟨[], [], []⟩ :=
    Observer.sound_expand _
  have hdone := hsound.sound ⟨w, []⟩ hmeets
  rw [hrun] at hdone
  exact (hdone hfair fun _ he => by cases he).1

/-! A template with a partial. -/

def sampleTemplate : Text := "<render-template file='p'></render-template>"

def samplePartial : Text := "<%= a %><if-true cond='c'></if-true>"

/-- An expander that knows one partial. -/
def sampleExpander (evaluate : ScopeId → Text → M Value) : Expander where
  loader := Loader.ofList [("p", samplePartial)]
  evaluate := evaluate
  customTags := []
  sanitize := none
  debug := false
  maxDepth := 4

/-- Every expression yields a text that looks like code. -/
def yieldCode : ScopeId → Text → M Value := fun _ _ => return .text "<% b %>"

/-- The store after the sample was read. -/
def sampleStore : World :=
  (M.run' Env.silent World.blank (Tree.create (.document [.element rootTag []
    [.element "render-template" [(Text.ofString "file", Text.ofString "p")] []]]))).2

theorem parse_sampleTemplate : Markup.parse (.of [] true) sampleTemplate =
    .ok [.element "render-template" [(Text.ofString "file", Text.ofString "p")] []] := rfl

theorem parse_samplePartial : Markup.parse (.of [] true) samplePartial =
    .ok [.code "= a ", .element "if-true" [(Text.ofString "cond", Text.ofString "c")] []] := rfl

theorem run'_readTemplate_sample (evaluate : ScopeId → Text → M Value) :
    M.run' Env.silent World.blank (do
      let document ← (sampleExpander evaluate).readTemplate sampleTemplate true
      Tree.documentElement? (.object document)) = (.ok (some (.object 2)), sampleStore) := by
  have hnodes : M.run' Env.silent World.blank (Tree.readNodes
      ((sampleExpander evaluate).readOptions true) sampleTemplate) =
      (.ok [.element "render-template" [(Text.ofString "file", Text.ofString "p")] []],
        World.blank) := by
    have hparse : Markup.parse ((sampleExpander evaluate).readOptions true) sampleTemplate = _ :=
      parse_sampleTemplate
    rw [Tree.readNodes, hparse]
    rfl
  rw [readTemplate, M.run'_bind, M.run'_bind_ok hnodes]
  rfl

/-- The run that expands the sample. -/
def sampleRun (evaluate : ScopeId → Text → M Value) : Except Fault Unit × Record Event :=
  run' Env.silent ⟨sampleStore, []⟩
    ((Observer.tracing (sampleExpander evaluate)).expand (sampleExpander evaluate) (.object 2) 0)

/-- Whether an evaluation or a look at a value has changed no object. -/
def isStill : Event → Bool
  | .evaluated _ before after | .looked before after => after.cells == before.cells
  | _ => true

theorem still_sampleRun : (sampleRun yieldCode).2.events.all isStill = true := by decide +kernel

theorem spares_sampleRun (kept : ObjectId → Prop) :
    ∀ e ∈ (sampleRun yieldCode).2.events, e.Spares kept := by
  have htraced : ∀ e ∈ (sampleRun yieldCode).2.events, e.IsTraced Env.silent := by
    have hsound : Sound (sampleExpander yieldCode) Env.silent (fun _ => True) (fun _ => True)
        (Observer.Meets (fun _ => True) (fun _ => True) ⟨[], [], []⟩ (.object 2))
        ((Observer.tracing (sampleExpander yieldCode)).expand (sampleExpander yieldCode) (.object 2) 0)
        fun _ => Frontier.Ready (fun _ => True) ⟨[], [], []⟩ := Observer.sound_expand _
    obtain ⟨new, hnew, htraced⟩ := hsound.grows ⟨sampleStore, []⟩
    rw [sampleRun, hnew, List.append_nil]
    exact htraced
  intro e he
  have hstill := List.all_eq_true.1 still_sampleRun e he
  cases e with
  | evaluated source before after => exact .of_cells (eq_of_beq hstill)
  | looked before after => exact .of_cells (eq_of_beq hstill)
  | made before after => trivial
  | stepped before after spared =>
    obtain ⟨α, action, hstep⟩ := htraced _ he
    rw [hstep]
    show M.run' (Env.silent.sparing _) before action = M.run' Env.silent before action
    rw [Env.sparing_silent]
  | loaded markup => trivial

/-- The sample is expanded to its end. Both expressions come from the partial, though one of them
yields a text that looks like code. -/
theorem expand_evaluates_templates_sample :
    ∃ r : Record Event,
      M.run' Env.silent sampleStore ((sampleExpander yieldCode).expand (.object 2) 0) =
        (.ok (), r.world) ∧
      r.events.filterMap Event.source? = ["c", " a "] ∧
      ∀ e ∈ r.events,
        e.Allowed ((sampleExpander yieldCode).IsTemplateCode sampleTemplate r.events) := by
  have hok : (sampleRun yieldCode).1.isOk = true := by decide +kernel
  have hsources : (sampleRun yieldCode).2.events.filterMap Event.source? = ["c", " a "] := by
    decide +kernel
  rcases hrun : sampleRun yieldCode with ⟨out, r⟩
  have hspares := spares_sampleRun
    (OfTemplates World.blank sampleStore (sampleRun yieldCode).2.events)
  rw [hrun] at hok hsources hspares
  obtain ⟨hplain, hall⟩ := expand_evaluates_templates rfl (run'_readTemplate_sample yieldCode)
    (.refl sampleStore) hrun hspares
  cases out with
  | error e => cases hok
  | ok => exact ⟨r, hplain, hsources, hall⟩

/-- The first expression puts something else into the condition behind it. -/
def rewriteCondition : ScopeId → Text → M Value := fun _ source => do
  if source == Text.ofString " a " then
    Store.setCell (Tree.attributesOf 14)
      (.map (Tree.entriesOfTexts [(Text.ofString "cond", Text.ofString "d")]))
  return .text "d"

theorem keeps_rewriteCondition (w : World) (scope : ScopeId) (source : Text) :
    w.Keeps (fun id => World.blank.cells.size ≤ id ∧ id < sampleStore.cells.size)
      (M.run' Env.silent w (rewriteCondition scope source)).2 := by
  have hsize : sampleStore.cells.size = 8 := rfl
  unfold rewriteCondition
  by_cases hs : (source == Text.ofString " a ") = true
  · rw [if_pos hs]
    refine ⟨Nat.le_of_eq (World.size_setCell ..).symm, fun id hid _ => World.setCell_other _ ?_⟩
    rintro rfl
    exact absurd hid.2 (by rw [hsize]; decide)
  · rw [if_neg hs]
    exact .of_cells rfl

/-- The code of an element with a single attribute that holds no marker. -/
theorem holds_single {tag name value code : Text} (hm : (Marker.cut value).markers = [])
    (h : (Markup.Node.element tag [(name, value)] []).Holds code) : code = value := by
  cases h with
  | value _ member => exact (Prod.mk.inj (List.mem_singleton.1 member)).2
  | marker member marked =>
    obtain ⟨before, marked⟩ := marked
    rw [(Prod.mk.inj (List.mem_singleton.1 member)).2, hm] at marked
    cases marked
  | script member => cases member

theorem hasCode_sampleTemplate {evaluate : ScopeId → Text → M Value} {code : Text}
    (h : (sampleExpander evaluate).HasCode sampleTemplate code) : code = "p" := by
  obtain ⟨nodes, hparse, n, hn, m, hw, hc⟩ := h
  cases parse_sampleTemplate.symm.trans hparse
  cases List.mem_singleton.1 hn
  cases hw with
  | self => exact holds_single (by decide +kernel) hc
  | inside member => cases member

theorem hasCode_samplePartial {evaluate : ScopeId → Text → M Value} {code : Text}
    (h : (sampleExpander evaluate).HasCode samplePartial code) : code = " a " ∨ code = "c" := by
  obtain ⟨nodes, hparse, n, hn, m, hw, hc⟩ := h
  cases parse_samplePartial.symm.trans hparse
  rcases List.mem_cons.1 hn with rfl | hn
  · cases hw with
    | self =>
      cases hc with
      | inline => exact .inl (by decide)
  · cases List.mem_singleton.1 hn
    cases hw with
    | self => exact .inr (holds_single (by decide +kernel) hc)
    | inside member => cases member

/-- Evaluations that leave the template alone and change a partial make the run evaluate what is in
neither. -/
theorem expand_evaluates_rewritten_partial :
    ∃ r : Record Event,
      M.run' Env.silent World.blank (do
        let document ← (sampleExpander rewriteCondition).readTemplate sampleTemplate true
        Tree.documentElement? (.object document)) = (.ok (some (.object 2)), sampleStore) ∧
      run' Env.silent ⟨sampleStore, []⟩ ((Observer.tracing (sampleExpander rewriteCondition)).expand
        (sampleExpander rewriteCondition) (.object 2) 0) = (.ok (), r) ∧
      (∀ (w : World) (scope : ScopeId) (source : Text),
        w.Keeps (fun id => World.blank.cells.size ≤ id ∧ id < sampleStore.cells.size)
          (M.run' Env.silent w ((sampleExpander rewriteCondition).evaluate scope source)).2) ∧
      ∃ e ∈ r.events, ¬ e.Allowed
        ((sampleExpander rewriteCondition).IsTemplateCode sampleTemplate r.events) := by
  have hok : (sampleRun rewriteCondition).1.isOk = true := by decide +kernel
  have hsources : (sampleRun rewriteCondition).2.events.filterMap Event.source? = ["d", " a "] := by
    decide +kernel
  have hloaded : (sampleRun rewriteCondition).2.events.filterMap Event.markup? = [samplePartial] := by
    decide +kernel
  rcases hrun : sampleRun rewriteCondition with ⟨out, r⟩
  rw [hrun] at hok hsources hloaded
  cases out with
  | error e => cases hok
  | ok =>
    refine ⟨r, run'_readTemplate_sample _, hrun, fun w scope source => ?_, ?_⟩
    · exact keeps_rewriteCondition w scope source
    · have hmem : Text.ofString "d" ∈ r.events.filterMap Event.source? := by
        rw [hsources]
        exact List.mem_cons_self
      obtain ⟨e, he, hsource⟩ := List.mem_filterMap.1 hmem
      refine ⟨e, he, fun hall => ?_⟩
      rcases hall _ hsource with hcode | ⟨e', he', loaded, hm, hcode⟩
      · exact absurd (hasCode_sampleTemplate hcode) (by decide)
      · have hmem : loaded ∈ r.events.filterMap Event.markup? := List.mem_filterMap.2 ⟨e', he', hm⟩
        rw [hloaded] at hmem
        cases List.mem_singleton.1 hmem
        rcases hasCode_samplePartial hcode with h | h
        · exact absurd h (by decide)
        · exact absurd h (by decide)

end Expander

end PageTemplate
