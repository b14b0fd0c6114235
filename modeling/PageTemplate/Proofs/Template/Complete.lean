import PageTemplate.Proofs.Template.Settled

/-!
# PageTemplate.Proofs.Template.Complete

Expansion is complete. Below an element that has been expanded there is no inline code and no
element that only says how to expand, at any depth: neither among what was there before nor in what
loops and partials have brought in.
-/

namespace PageTemplate

namespace NodeCore

/-- The tags of the elements that never stay: something comes in the place of each of them, or
nothing. -/
def directives : List Text :=
  ["if-true", "or-else", "for-each", "render-template", "hidden-form-data"].map Text.ofString

/-- Whether a node only says how to expand. -/
def IsDirective (core : NodeCore) : Prop :=
  core.kind = .code ∨ ∃ tag ∈ directives, core = .element (.text tag)

/-- The tag of a directive is a control tag. -/
theorem not_isDirective_of_find {tag : Text} (h : Assoc.find? tag Expander.controlTags = none) :
    ¬ (element (.text tag)).IsDirective := by
  have hall : ∀ tag ∈ directives, Assoc.find? tag Expander.controlTags ≠ none := by decide
  rintro (hk | ⟨tag', hm, he⟩)
  · cases hk
  · cases he
    exact hall tag hm h

end NodeCore

/-- What lies below a node lies in the tree of one of its children. -/
theorem View.IsForest.exists_child {V : View} (hf : V.IsForest) {p e : ObjectId}
    (h : V.Above p e) : ∃ c ∈ V.children p, V.Within c e := by
  obtain ⟨c, hc, hp⟩ := Relation.TransGen.tail'_iff.1 h
  exact ⟨c, (hf.mem_children p c).2 hp, View.within_iff.2 hc⟩

namespace NodeTree

variable {V : View} {e id : ObjectId} {core : NodeCore} {t : NodeTree}

/-- A leaf that is no inline code. -/
theorem not_isDirective_leaf (hf : V.IsForest) {leaf : NodeCore} (plain : leaf.kind ≠ .code)
    (h : V.Represents id (.leaf leaf)) (he : V.Within id e) (hc : V.core e = some core) :
    ¬ core.IsDirective := by
  rcases he with rfl | ha
  · cases h.1.symm.trans hc
    rintro (hk | ⟨tag, _, rfl⟩)
    · exact plain hk
    · exact absurd h.2 (by simp [NodeCore.hasChildren])
  · exact absurd ha (hf.not_above_leaf h.1 h.2)

/-- An expanded tree holds no directive. -/
theorem IsExpanded.not_isDirective (ht : t.IsExpanded) (hf : V.IsForest) (h : V.Represents id t)
    (he : V.Within id e) (hc : V.core e = some core) : ¬ core.IsDirective := by
  induction ht generalizing id with
  | leaf plain => exact not_isDirective_leaf hf plain h he hc
  | script attributes texts =>
    rcases he with rfl | ha
    · cases h.1.symm.trans hc
      rintro (hk | ⟨tag, hm, htag⟩)
      · cases hk
      · cases htag
        exact absurd hm (by decide)
    · obtain ⟨c, hm, hw⟩ := hf.exists_child ha
      obtain ⟨u, hu, hr⟩ := h.2.2.of_mem hm
      obtain ⟨value, raw, rfl⟩ := texts u hu
      have plain : (NodeCore.text value (.bool raw)).kind ≠ .code := nofun
      exact not_isDirective_leaf hf plain hr hw hc
  | element plain _ _ ih =>
    rcases he with rfl | ha
    · cases h.1.symm.trans hc
      exact NodeCore.not_isDirective_of_find plain
    · obtain ⟨c, hm, hw⟩ := hf.exists_child ha
      obtain ⟨u, hu, hr⟩ := h.2.2.of_mem hm
      exact ih u hu hr hw

end NodeTree

namespace Expander

open Markup (Node)

variable {x : Expander} {env : Env} {w w' : World} {V : View} {scope : ScopeId} {root : ObjectId}
  {tag : Text} {attributes : Markup.Attributes} {children : List Node}

/-- **Expansion is complete.** Take an element that was read, without inline code that yields
markup, and a run that expands it, in which no expression and no method of a value changes a node.
Afterwards the element is still there, and below it, at any depth, there is no inline code and no
directive. -/
theorem expand_leaves_no_directive {rawTags : List Text} {inlineCode : Bool}
    (hx : x.customTags = []) (hl : x.LoadsPlain)
    (hn : Markup.IsProduced (.of rawTags inlineCode) (.element tag attributes children))
    (hplain : (Node.element tag attributes children).insertsMarkup = false)
    (hs : Shows w V) (hg : V.IsRegular)
    (h : V.Represents root (Node.element tag attributes children).tree)
    (hk : (x.render tag attributes children scope).Keeps x env w V)
    (hr : M.run' env w (x.expand (.object root) scope) = (.ok (), w')) :
    ∃ V', Shows w' V' ∧ V'.IsForest ∧ V'.core root = some (.element (.text tag)) ∧
      ∀ e core, V'.Above root e → V'.core e = some core → ¬ core.IsDirective := by
  obtain ⟨as, ts, V', hs', hg', ⟨hroot, _, hts⟩, _, hall⟩ :=
    represents_expanded hx hl hn hplain hs hg h hk hr
  refine ⟨V', hs', hg'.toIsForest, hroot, fun e core ha hc => ?_⟩
  obtain ⟨c, hm, hw⟩ := hg'.exists_child ha
  obtain ⟨t, ht, hrep⟩ := hts.of_mem hm
  exact (hall t ht).not_isDirective hg'.toIsForest hrep hw hc

/-- Nothing of the condition, the alternative and the inline code of the sample is left. -/
theorem expand_leaves_no_directive_sample :
    ∃ w V w' V' root, Shows w V ∧
      V.Represents root (Node.element rootTag [] sampleNodes).tree ∧
      M.run' Env.silent w ((constantExpander "<x>").expand (.object root) 0) = (.ok (), w') ∧
      Shows w' V' ∧ V'.core root = some (.element (.text rootTag)) ∧
      ∀ e core, V'.Above root e → V'.core e = some core → ¬ core.IsDirective := by
  obtain ⟨w, V, w', root, hs, hg, h, hr⟩ := run'_expand_sampleNodes
  obtain ⟨V', hs', _, hroot, hall⟩ := expand_leaves_no_directive rfl
    (fun _ _ _ hload => by cases hload) isProduced_sampleNodes (by decide) hs hg h
    (keeps_render_sampleNodes w V) hr
  exact ⟨w, V, w', V', root, hs, h, hr, hs', hroot, hall⟩

end Expander

end PageTemplate
