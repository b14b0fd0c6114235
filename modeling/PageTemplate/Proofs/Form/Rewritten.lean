import PageTemplate.Proofs.Ensures
import PageTemplate.Proofs.Form.Filled
import PageTemplate.Proofs.Form.ReadBack

/-!
# PageTemplate.Proofs.Form.Rewritten

A form after a field was set, as markup. What setting the field makes of the nodes of the form is
what `withField` makes of the markup that they represent. It writes to none but certain places of
the form and makes new objects, and what is such a place afterwards was one before or is new.
-/

namespace PageTemplate

open Markup (Node)

namespace View

variable {V V' : View} {form id x z p : ObjectId} {name v tag : Text}
  {attributes : Markup.Attributes} {children ns : List Node} {ids : List ObjectId}

/-! The text of markup. -/

mutual

theorem Represents.preorder (hf : V.IsForest) (n : Node) {id : ObjectId}
    (h : V.Represents id n.tree) :
    ∃ ds, V.Preorder [id] ds ∧ ds.flatMap V.ownText = n.content := by
  match n with
  | .element tag attributes children =>
    obtain ⟨ds, hds, htext⟩ := RepresentsAll.preorder hf children h.2.2
    refine ⟨id :: ds, preorder_singleton.2 hds, ?_⟩
    have hown : V.ownText id = [] := by rw [ownText, h.1]
    rw [List.flatMap_cons, hown, htext, List.nil_append, Node.content]
  | .text value _ | .code _ | .comment _ | .doctype _ =>
    refine ⟨[id], preorder_singleton.2 ?_, ?_⟩
    · rw [hf.children_leaf h.1 h.2]
      exact .nil
    · simp [ownText, h.1, Node.content]

theorem RepresentsAll.preorder (hf : V.IsForest) (ns : List Node) {ids : List ObjectId}
    (h : V.RepresentsAll ids (treesOf ns)) :
    ∃ ds, V.Preorder ids ds ∧ ds.flatMap V.ownText = Markup.contentAll ns := by
  match ns with
  | [] =>
    rw [representsAll_nil.1 h]
    exact ⟨[], .nil, rfl⟩
  | n :: ns =>
    obtain ⟨id, rest, rfl, hn, hns⟩ := h
    obtain ⟨ds, hds, htext⟩ := Represents.preorder hf n hn
    obtain ⟨es, hes, htexts⟩ := RepresentsAll.preorder hf ns hns
    cases hds with
    | @cons _ _ below rest' hbelow hrest =>
      cases hrest
      refine ⟨_, .cons hbelow hes, ?_⟩
      rw [List.append_nil] at htext
      rw [← List.cons_append, List.flatMap_append, htext, htexts, Markup.contentAll]

end

/-- What an option of markup stands for. -/
theorem Represents.standsFor_iff (hf : V.IsForest)
    (h : V.Represents id (Node.element tag attributes children).tree) :
    Markup.optionIs attributes (Markup.contentAll children) v = true ↔ V.StandsFor id v := by
  obtain ⟨ds, hds, htext⟩ := Represents.preorder hf _ h
  have hhas : V.HasText id (Markup.contentAll children) := ⟨ds, hds, htext.symm⟩
  rw [Markup.optionIs, StandsFor, attribute?_eq h.2.1, beq_iff_eq]
  cases Assoc.find? (Text.ofString "value") attributes with
  | some own => rfl
  | none => exact ⟨fun he => he ▸ hhas, fun ht => hhas.unique ht⟩

/-! Nodes that no field with the name consists of. -/

theorem SetsControls.agree {F : ObjectId → Prop} (h : V.SetsControls v F V') (hz : V.Known z)
    (hfree : ∀ x, F x → ¬ V.Owns x z) : Agree V V' z where
  core := h.core z hz
  children := h.children z hz fun hzx => hfree z hzx.1 (.inl rfl)
  attributes := h.attributes z hz fun x _ hx hk => hfree x hx hk.owns

/-- What lies above a child lies above its parent or is the parent. -/
theorem above_of_child (hp : V.parent z = some p) (h : V.Above x z) : x = p ∨ V.Above x p := by
  obtain ⟨q, hq, hup⟩ := Relation.TransGen.head'_iff.1 h
  cases hp.symm.trans hq
  rcases Relation.reflTransGen_iff_eq_or_transGen.1 hup with rfl | ha
  · exact .inl rfl
  · exact .inr ha

/-- What setting a field that there is makes of a form with flat controls. -/
structure SetsField (V : View) (form : ObjectId) (name v : Text) (V' : View) : Prop where
  forest : V.IsForest
  flat : V.HasFlatControls form
  controls : V.SetsControls v (V.IsField form name) V'
  rewrites : V.Rewrites v (V.IsField form name) V'

namespace SetsField

mutual

/-- What is in a menu with the name. -/
theorem chosen (h : V.SetsField form name v V') (hx : V.IsField form name x)
    (hmenu : V.HasTag "select" x) (n : Node) {id : ObjectId} (hn : V.Represents id n.tree)
    (ha : V.Above x id) : V'.Represents id (n.chosen [v]).tree := by
  match n with
  | .element tag attributes children =>
    have hid : V.Known id := ⟨_, hn.1⟩
    have hno : ¬ V.IsControl id := h.flat x hx.below (.inr hmenu) id ha
    have hch : V'.children id = V.children id :=
      h.controls.children id hid fun hm => hno hm.1.control
    have hall := chosenAll h hx hmenu children hn.2.2 fun c hc =>
      .head ((h.forest.mem_children id c).1 hc) ha
    refine ⟨(h.controls.core id hid).trans hn.1, ?_, by rwa [hch]⟩
    by_cases htag : tag = "option"
    · rw [if_pos htag]
      have hoption : V.HasTag "option" id := htag ▸ hn.1
      exact h.rewrites x id attributes _ hx
        (.option hmenu ha hoption (hn.standsFor_iff h.forest)) hn.2.1
    · rw [if_neg htag, h.controls.attributes id hid fun y k hy hk => ?_]
      · exact hn.2.1
      · cases hk with
        | value hin => exact hno (.inl hin)
        | checked hin => exact hno (.inl hin)
        | selected _ _ hoption => exact htag (HasTag.unique hn.1 hoption)
  | .text .. | .code _ | .comment _ | .doctype _ =>
    exact ⟨(h.controls.core id ⟨_, hn.1⟩).trans hn.1, hn.2⟩

theorem chosenAll (h : V.SetsField form name v V') (hx : V.IsField form name x)
    (hmenu : V.HasTag "select" x) (ns : List Node) {ids : List ObjectId}
    (hns : V.RepresentsAll ids (treesOf ns)) (ha : ∀ c ∈ ids, V.Above x c) :
    V'.RepresentsAll ids (treesOf (Markup.chosenAll [v] ns)) := by
  match ns with
  | [] => exact hns
  | n :: ns =>
    obtain ⟨id, rest, rfl, hn, hns⟩ := hns
    obtain ⟨hid, hrest⟩ := List.forall_mem_cons.1 ha
    exact representsAll_cons.2 ⟨chosen h hx hmenu n hn hid, chosenAll h hx hmenu ns hns hrest⟩

end

/-- A textarea or a menu with another name is left alone, with everything in it. -/
theorem unnamed (h : V.SetsField form name v V') {t : NodeTree} (hrep : V.Represents id t)
    (hbelow : V.Above form id) (hcontent : V.HasContent id) (hname : ¬ V.IsField form name id)
    (hout : ∀ y, V.Above form y → V.HasContent y → ¬ V.Above y id) : V'.Represents id t := by
  obtain ⟨core, hcore, _⟩ := hrep.core
  refine hrep.frame h.forest t fun z hz => h.controls.agree (hz.core h.forest hcore) ?_
  intro y hy hown
  have hin : ¬ V.Within id y := by
    rintro (rfl | ha)
    · exact hname hy
    · exact h.flat id hbelow hcontent y ha hy.control
  rcases hown with rfl | ⟨hc, ha⟩
  · exact hin hz
  · rcases Within.or hz (.inr ha) with hw | rfl | hw
    · exact hin hw
    · exact hname hy
    · exact hout y hy.below hc hw

/-- The attributes of a node that is no input with the name, and in no menu. -/
theorem attributes_eq (h : V.SetsField form name v V') (hid : V.Known id)
    (hinput : V.HasTag "input" id → ¬ V.IsField form name id)
    (hout : ∀ y, V.Above form y → V.HasContent y → ¬ V.Above y id) :
    V'.attributes id = V.attributes id := by
  refine h.controls.attributes id hid fun y k hy hk => ?_
  cases hk with
  | value hin => exact hinput hin hy
  | checked hin => exact hinput hin hy
  | selected hsel ha => exact hout y hy.below (.inr hsel) ha

/-- What is below a node that is no textarea and no menu is in no other one either. -/
theorem out_of_child (hp : V.parent z = some p) (hcontent : ¬ V.HasContent p)
    (hout : ∀ y, V.Above form y → V.HasContent y → ¬ V.Above y p) :
    ∀ y, V.Above form y → V.HasContent y → ¬ V.Above y z := by
  intro y hy hc ha
  rcases above_of_child hp ha with rfl | ha
  · exact hcontent hc
  · exact hout y hy hc ha

theorem filled_textarea (h : V.SetsField form name v V')
    (hn : V.Represents id (Node.element "textarea" attributes children).tree)
    (hbelow : V.Above form id)
    (hout : ∀ y, V.Above form y → V.HasContent y → ¬ V.Above y id) :
    V'.Represents id ((Node.element "textarea" attributes children).filled [(name, v)]).tree := by
  have hid : V.Known id := ⟨_, hn.1⟩
  have hnamed : V.attribute? id "name" = Assoc.find? (Text.ofString "name") attributes :=
    attribute?_eq hn.2.1 _
  by_cases hname : Assoc.find? (Text.ofString "name") attributes = some name
  · have hx : V.IsField form name id := ⟨hbelow, .inr (.inl hn.1), hnamed.trans hname⟩
    obtain ⟨m, _, hch, hm⟩ := h.controls.refilled id hx hn.1
    have hinput : ¬ V.HasTag "input" id := fun hin => absurd (hin.unique hn.1) (by decide)
    rw [Markup.filled_textarea, Markup.valuesFor_named hname]
    refine ⟨(h.controls.core id hid).trans hn.1, ?_, ?_⟩
    · rw [h.attributes_eq hid (fun hin => absurd hin hinput) hout, hn.2.1]
    · rw [hch]
      exact representsAll_cons.2 ⟨hm, representsAll_nil.2 rfl⟩
  · rw [Markup.filled_textarea, Markup.valuesFor_unnamed (by simpa using hname)]
    exact h.unnamed hn hbelow (.inl hn.1) (fun hx => hname (hnamed.symm.trans hx.named)) hout

theorem filled_select (h : V.SetsField form name v V')
    (hn : V.Represents id (Node.element "select" attributes children).tree)
    (hbelow : V.Above form id)
    (hout : ∀ y, V.Above form y → V.HasContent y → ¬ V.Above y id) :
    V'.Represents id ((Node.element "select" attributes children).filled [(name, v)]).tree := by
  have hid : V.Known id := ⟨_, hn.1⟩
  have hnamed : V.attribute? id "name" = Assoc.find? (Text.ofString "name") attributes :=
    attribute?_eq hn.2.1 _
  by_cases hname : Assoc.find? (Text.ofString "name") attributes = some name
  · have hx : V.IsField form name id := ⟨hbelow, .inr (.inr hn.1), hnamed.trans hname⟩
    have hinput : ¬ V.HasTag "input" id := fun hin => absurd (hin.unique hn.1) (by decide)
    have harea : ¬ V.HasTag "textarea" id := fun ht => absurd (ht.unique hn.1) (by decide)
    rw [Markup.filled_select, Markup.valuesFor_named hname]
    refine ⟨(h.controls.core id hid).trans hn.1, ?_, ?_⟩
    · rw [h.attributes_eq hid (fun hin => absurd hin hinput) hout, hn.2.1]
    · rw [h.controls.children id hid fun hm => harea hm.2]
      exact h.chosenAll hx hn.1 children hn.2.2 fun c hc =>
        .single ((h.forest.mem_children id c).1 hc)
  · rw [Markup.filled_select, Markup.valuesFor_unnamed (by simpa using hname),
      Markup.chosenAll_nil]
    exact h.unnamed hn hbelow (.inr hn.1) (fun hx => hname (hnamed.symm.trans hx.named)) hout

/-- The attributes of an input. -/
theorem live_input (h : V.SetsField form name v V')
    (hn : V.Represents id (Node.element "input" attributes children).tree)
    (hbelow : V.Above form id)
    (hout : ∀ y, V.Above form y → V.HasContent y → ¬ V.Above y id) :
    (V'.attributes id).live =
      Markup.values
        ((Markup.valuesFor [(name, v)] attributes).foldl Markup.entered attributes) := by
  have hnamed : V.attribute? id "name" = Assoc.find? (Text.ofString "name") attributes :=
    attribute?_eq hn.2.1 _
  by_cases hname : Assoc.find? (Text.ofString "name") attributes = some name
  · have hx : V.IsField form name id := ⟨hbelow, .inl hn.1, hnamed.trans hname⟩
    rw [Markup.valuesFor_named hname]
    exact h.rewrites id id attributes _ hx (.input hn.1) hn.2.1
  · rw [Markup.valuesFor_unnamed (by simpa using hname),
      h.attributes_eq ⟨_, hn.1⟩ (fun _ hx => hname (hnamed.symm.trans hx.named)) hout, hn.2.1]
    rfl

mutual

/-- What is in a form, outside of its textareas and menus. -/
theorem filled (h : V.SetsField form name v V') (n : Node) {id : ObjectId}
    (hn : V.Represents id n.tree) (hbelow : V.Above form id)
    (hout : ∀ y, V.Above form y → V.HasContent y → ¬ V.Above y id) :
    V'.Represents id (n.filled [(name, v)]).tree := by
  match n with
  | .element tag attributes children =>
    have hid : V.Known id := ⟨_, hn.1⟩
    have hcore := (h.controls.core id hid).trans hn.1
    -- Elements that are no textarea and no menu are gone into.
    have hinside : tag ≠ "textarea" → tag ≠ "select" →
        V'.RepresentsAll (V'.children id) (treesOf (Markup.filledAll [(name, v)] children)) := by
      intro harea hmenu
      have hno : ¬ V.HasContent id := by
        rintro (ht | ht)
        · exact harea (HasTag.unique hn.1 ht)
        · exact hmenu (HasTag.unique hn.1 ht)
      have hparent : ∀ c ∈ V.children id, V.parent c = some id := fun c hc =>
        (h.forest.mem_children id c).1 hc
      rw [h.controls.children id hid fun hm => hno (.inl hm.2)]
      exact filledAll h children hn.2.2 (fun c hc => .head (hparent c hc) hbelow)
        fun c hc => out_of_child (hparent c hc) hno hout
    rcases Markup.tag_cases tag with rfl | rfl | rfl | htag
    · exact h.filled_textarea hn hbelow hout
    · exact h.filled_select hn hbelow hout
    · rw [Markup.filled_input]
      exact ⟨hcore, h.live_input hn hbelow hout, hinside (by decide) (by decide)⟩
    · rw [Markup.filled_other htag]
      refine ⟨hcore, ?_, hinside htag.1 htag.2.1⟩
      rw [h.attributes_eq hid (fun hin => absurd (HasTag.unique hn.1 hin) htag.2.2) hout, hn.2.1]
  | .text .. | .code _ | .comment _ | .doctype _ =>
    exact ⟨(h.controls.core id ⟨_, hn.1⟩).trans hn.1, hn.2⟩

theorem filledAll (h : V.SetsField form name v V') (ns : List Node) {ids : List ObjectId}
    (hns : V.RepresentsAll ids (treesOf ns)) (hbelow : ∀ c ∈ ids, V.Above form c)
    (hout : ∀ c ∈ ids, ∀ y, V.Above form y → V.HasContent y → ¬ V.Above y c) :
    V'.RepresentsAll ids (treesOf (Markup.filledAll [(name, v)] ns)) := by
  match ns with
  | [] => exact hns
  | n :: ns =>
    obtain ⟨id, rest, rfl, hn, hns⟩ := hns
    obtain ⟨hid, hrest⟩ := List.forall_mem_cons.1 hbelow
    obtain ⟨hoid, horest⟩ := List.forall_mem_cons.1 hout
    exact representsAll_cons.2 ⟨filled h n hn hid hoid, filledAll h ns hns hrest horest⟩

end

/-- The form itself. -/
theorem represents (h : V.SetsField form name v V')
    (hn : V.Represents form (Node.element tag attributes children).tree) :
    V'.Represents form
      (Node.element tag attributes (Markup.filledAll [(name, v)] children)).tree := by
  have hid : V.Known form := ⟨_, hn.1⟩
  have hself : ¬ V.Above form form := h.forest.acyclic form
  have hout : ∀ y, V.Above form y → V.HasContent y → ¬ V.Above y form := fun y hy _ ha =>
    hself (Relation.TransGen.trans ha hy)
  refine ⟨(h.controls.core form hid).trans hn.1, ?_, ?_⟩
  · rw [h.attributes_eq hid (fun _ hx => hself hx.below) hout, hn.2.1]
  · rw [h.controls.children form hid fun hm => hself hm.1.below]
    have hparent : ∀ c ∈ V.children form, V.parent c = some form := fun c hc =>
      (h.forest.mem_children form c).1 hc
    refine h.filledAll children hn.2.2 (fun c hc => .single (hparent c hc)) ?_
    intro c hc y hy hcontent ha
    rcases above_of_child (hparent c hc) ha with rfl | ha
    · exact hself hy
    · exact hout y hy hcontent ha

end SetsField

/-- A form with a new input. -/
theorem GainsField.represents (h : V.GainsField form name v V') (hf : V.IsForest)
    (hn : V.Represents form (Node.element tag attributes children).tree) :
    V'.Represents form
      (Node.element tag attributes (children ++ [Markup.hiddenInput (name, v)])).tree := by
  obtain ⟨l, happ, hl⟩ := h
  have hform : form ≠ l := happ.ne ⟨_, hn.1⟩
  refine ⟨(happ.core form hform).trans hn.1, by rw [happ.attributes form hform, hn.2.1], ?_⟩
  rw [happ.last, treesOf_append]
  refine representsAll_append (hn.2.2.frame hf _ fun c hc z hz => ?_)
    (representsAll_cons.2 ⟨hl, representsAll_nil.2 rfl⟩)
  have hparent := (hf.mem_children form c).1 hc
  have hzl : z ≠ l := happ.ne (hz.core hf (Tree.child_core hf c hc).choose_spec)
  have hzf : z ≠ form := by
    rintro rfl
    rcases hz with rfl | ha
    · exact hf.acyclic z (.single hparent)
    · exact hf.acyclic z (.tail ha hparent)
  exact ⟨happ.core z hzl, happ.children z hzl hzf, happ.attributes z hzl⟩

/-! Which fields there are. -/

mutual

theorem Represents.hasField_iff (hf : V.IsForest) (hflat : V.HasFlatControls form) (n : Node)
    {id : ObjectId} (h : V.Represents id n.tree) (hbelow : V.Above form id) :
    n.hasField name = true ↔ ∃ x, V.Within id x ∧ V.IsField form name x := by
  match n with
  | .element tag attributes children =>
    have hnamed : V.attribute? id "name" = Assoc.find? (Text.ofString "name") attributes :=
      attribute?_eq h.2.1 _
    have hown : V.IsField form name id ↔ V.IsControl id ∧
        Assoc.find? (Text.ofString "name") attributes = some name :=
      ⟨fun hx => ⟨hx.control, hnamed.symm.trans hx.named⟩,
        fun hx => ⟨hbelow, hx.1, hnamed.trans hx.2⟩⟩
    have hchildren : Markup.hasFieldAll name children = true ↔
        ∃ x, V.Above id x ∧ V.IsField form name x := by
      rw [RepresentsAll.hasFieldAll_iff hf hflat children h.2.2 fun c hc =>
        .head ((hf.mem_children id c).1 hc) hbelow]
      constructor
      · rintro ⟨c, hc, x, hw, hx⟩
        exact ⟨x, hf.above_iff_child.2 ⟨c, hc, hw⟩, hx⟩
      · rintro ⟨x, ha, hx⟩
        obtain ⟨c, hc, hw⟩ := hf.above_iff_child.1 ha
        exact ⟨c, hc, x, hw, hx⟩
    have hsplit : (∃ x, V.Within id x ∧ V.IsField form name x) ↔
        V.IsField form name id ∨ ∃ x, V.Above id x ∧ V.IsField form name x := by
      simp only [Within, or_and_right, exists_or, exists_eq_left]
    have hcontent : V.HasContent id → ¬ ∃ x, V.Above id x ∧ V.IsField form name x :=
      fun hc ⟨x, ha, hx⟩ => hflat id hbelow hc x ha hx.control
    rw [hsplit]
    rcases Markup.tag_cases tag with rfl | rfl | rfl | htag
    · have hc : V.HasContent id := .inl h.1
      rw [Markup.hasField_content (.inl rfl), decide_eq_true_iff, or_iff_left (hcontent hc), hown,
        and_iff_right hc.isControl]
    · have hc : V.HasContent id := .inr h.1
      rw [Markup.hasField_content (.inr rfl), decide_eq_true_iff, or_iff_left (hcontent hc), hown,
        and_iff_right hc.isControl]
    · have hc : V.IsControl id := .inl h.1
      rw [Markup.hasField_input, Bool.or_eq_true, decide_eq_true_iff, hchildren, hown,
        and_iff_right hc]
    · have hno : ¬ V.IsControl id := by
        rintro (ht | ht | ht)
        · exact htag.2.2 (HasTag.unique h.1 ht)
        · exact htag.1 (HasTag.unique h.1 ht)
        · exact htag.2.1 (HasTag.unique h.1 ht)
      rw [Markup.hasField_other htag, hchildren, or_iff_right fun hx => hno hx.control]
  | .text .. | .code _ | .comment _ | .doctype _ =>
    refine iff_of_false Bool.false_ne_true ?_
    rintro ⟨x, rfl | ha, hx⟩
    · obtain ⟨tag, htag⟩ := hx.control.exists_tag
      exact nomatch h.1.symm.trans htag
    · exact hf.not_above_leaf h.1 h.2 ha

theorem RepresentsAll.hasFieldAll_iff (hf : V.IsForest) (hflat : V.HasFlatControls form)
    (ns : List Node) {ids : List ObjectId} (h : V.RepresentsAll ids (treesOf ns))
    (hbelow : ∀ c ∈ ids, V.Above form c) :
    Markup.hasFieldAll name ns = true ↔
      ∃ c ∈ ids, ∃ x, V.Within c x ∧ V.IsField form name x := by
  match ns with
  | [] =>
    rw [representsAll_nil.1 h]
    simp [Markup.hasFieldAll]
  | n :: ns =>
    obtain ⟨id, rest, rfl, hn, hns⟩ := h
    obtain ⟨hid, hrest⟩ := List.forall_mem_cons.1 hbelow
    rw [Markup.hasFieldAll, Bool.or_eq_true, Represents.hasField_iff hf hflat n hn hid,
      RepresentsAll.hasFieldAll_iff hf hflat ns hns hrest]
    simp

end

/-- The fields of a form are those of its markup. -/
theorem Represents.exists_field_iff (hf : V.IsForest)
    (h : V.Represents form (Node.element tag attributes children).tree)
    (hflat : V.HasFlatControls form) :
    (∃ x, V.IsField form name x) ↔ Markup.hasFieldAll name children = true := by
  rw [RepresentsAll.hasFieldAll_iff hf hflat children h.2.2 fun c hc =>
    .single ((hf.mem_children form c).1 hc)]
  constructor
  · rintro ⟨x, hx⟩
    obtain ⟨c, hc, hw⟩ := hf.above_iff_child.1 hx.below
    exact ⟨c, hc, x, hw, hx⟩
  · rintro ⟨_, _, x, _, hx⟩
    exact ⟨x, hx⟩

/-- The controls in a form are flat as soon as those in its markup are. -/
theorem Represents.flat_of_children (hf : V.IsForest)
    (h : V.Represents form (Node.element tag attributes children).tree)
    (hflat : Markup.hasFlatControlsAll children = true) : V.HasFlatControls form := by
  intro a ha hcontent
  obtain ⟨c, hc, hw⟩ := hf.above_iff_child.1 ha
  exact RepresentsAll.flat hf children h.2.2 hflat hc hw hcontent

/-! The places that are written to. -/

/-- The places that filling a form writes to: its list of children, the attributes of its inputs and
of the options in its menus, and in its textareas the list of children and these children. -/
inductive Written (V : View) (form : ObjectId) : ObjectId → Prop where
  | last : Written V form (Tree.childrenOf form)
  | input {x : ObjectId} : V.Above form x → V.HasTag "input" x →
    Written V form (Tree.attributesOf x)
  | option {x o : ObjectId} : V.Above form x → V.HasTag "select" x → V.Above x o →
    V.HasTag "option" o → Written V form (Tree.attributesOf o)
  | content {x : ObjectId} : V.Above form x → V.HasTag "textarea" x →
    Written V form (Tree.childrenOf x)
  | removed {x c : ObjectId} : V.Above form x → V.HasTag "textarea" x → V.parent c = some x →
    Written V form c

theorem Written.place (hf : V.IsForest) (hform : V.Container form) {id : ObjectId}
    (h : V.Written form id) : V.Place id := by
  cases h with
  | last =>
    obtain ⟨core, hcore, hh⟩ := hform
    exact ⟨form, core, hcore, .inr (.inl ⟨hh, rfl⟩)⟩
  | input _ hx => exact ⟨_, _, hx, .inr (.inr ⟨rfl, rfl⟩)⟩
  | option _ _ _ ho => exact ⟨_, _, ho, .inr (.inr ⟨rfl, rfl⟩)⟩
  | content _ hx => exact ⟨_, _, hx, .inr (.inl ⟨rfl, rfl⟩)⟩
  | removed _ _ hp =>
    obtain ⟨core, hcore, _⟩ := hf.inner _ _ hp
    exact ⟨_, core, hcore, .inl rfl⟩

end View

namespace TreeStep

variable {w w' : World} {V V' : View} {P : ObjectId → Prop} {form : ObjectId}

/-- A tree step after which some nodes are what they were. -/
theorem differsAt (h : TreeStep w V w' V') (hs : Shows w V)
    (hparent : ∀ z, V.Known z → ¬ P z → V'.parent z = V.parent z)
    (hchildren : ∀ z, V.Known z → ¬ P (Tree.childrenOf z) → V'.children z = V.children z)
    (hattributes : ∀ z, V.Known z → ¬ P (Tree.attributesOf z) →
      V'.attributes z = V.attributes z) : w.DiffersAt P w' where
  size := h.size
  cells id hid hlt := by
    by_cases hp : V.Place id
    · obtain ⟨n, core, hc, ho⟩ := hp
      have hc' : V'.core n = some core := (h.core n (hs.lt hc)).trans hc
      rcases ho with rfl | ⟨hh, rfl⟩ | ⟨hh, rfl⟩
      · rw [h.shows.record id core hc', hs.record id core hc, hparent id ⟨core, hc⟩ hid]
      · rw [h.shows.list n core hc' hh, hs.list n core hc hh, hchildren n ⟨core, hc⟩ hid]
      · rw [h.shows.map n core hc' hh, hs.map n core hc hh, hattributes n ⟨core, hc⟩ hid]
    · exact h.frame id hlt hp
  rest := h.rest

/-- What filling a form writes to is what it wrote to before, or new. -/
theorem written_back (h : TreeStep w V w' V') (hs : Shows w V) (hf : V.IsForest)
    (hf' : V'.IsForest) (hparents : V.KeepsParents V') {id : ObjectId} (hlt : id < w.cells.size)
    (hw : V'.Written form id) : V.Written form id := by
  have htag : ∀ {tag z}, z < w.cells.size → V'.HasTag tag z → V.HasTag tag z :=
    fun hz hx => (h.core _ hz).symm.trans hx
  have hupper : ∀ {x z}, V.Above x z → x < w.cells.size := fun ha => by
    obtain ⟨c, _, hp⟩ := Relation.TransGen.tail'_iff.1 ha
    obtain ⟨core, hcore, _⟩ := hf.container c _ hp
    exact hs.lt hcore
  cases hw with
  | last => exact .last
  | @input x ha hx =>
    have hx := htag (Nat.lt_of_succ_lt (Nat.lt_of_succ_lt hlt)) hx
    exact .input (hparents.above hf ⟨_, hx⟩ ha) hx
  | @option x o ha hx ho htago =>
    have htago := htag (Nat.lt_of_succ_lt (Nat.lt_of_succ_lt hlt)) htago
    have ho := hparents.above hf ⟨_, htago⟩ ho
    have hx := htag (hupper ho) hx
    exact .option (hparents.above hf ⟨_, hx⟩ ha) hx ho htago
  | @content x ha hx =>
    have hx := htag (Nat.lt_of_succ_lt hlt) hx
    exact .content (hparents.above hf ⟨_, hx⟩ ha) hx
  | @removed x c ha hx hp =>
    obtain ⟨core, hcore, _⟩ := hf'.inner _ _ hp
    have hp := hparents _ _ ⟨core, (h.core _ hlt).symm.trans hcore⟩ hp
    have hx := htag (hupper (.single hp)) hx
    exact .removed (hparents.above hf ⟨_, hx⟩ ha) hx hp

end TreeStep

namespace View

variable {w w' : World} {V V' : View} {form : ObjectId} {name v : Text}

namespace SetsField

/-- Setting a field that there is writes to the controls. -/
theorem differsAt (h : V.SetsField form name v V') (hs : Shows w V) (ht : TreeStep w V w' V') :
    w.DiffersAt (V.Written form) w' := by
  refine ht.differsAt hs (fun z hz hp => ?_) (fun z hz hp => ?_) (fun z hz hp => ?_)
  · refine h.controls.parent z hz fun x hx htag hm => hp ?_
    exact .removed hx.below htag ((h.forest.mem_children x z).1 hm)
  · exact h.controls.children z hz fun hx => hp (.content hx.1.below hx.2)
  · refine h.controls.attributes z hz fun x k hx hk => hp ?_
    cases hk with
    | value hin => exact .input hx.below hin
    | checked hin => exact .input hx.below hin
    | selected hsel ha ho => exact .option hx.below hsel ha ho

/-- The form keeps its children. -/
theorem children (h : V.SetsField form name v V') (hform : V.Known form) :
    V'.children form = V.children form :=
  h.controls.children form hform fun hx => h.forest.acyclic form hx.1.below

end SetsField

namespace GainsField

/-- A new field is written behind the other children of the form. -/
theorem differsAt (h : V.GainsField form name v V') (hs : Shows w V) (ht : TreeStep w V w' V') :
    w.DiffersAt (V.Written form) w' := by
  obtain ⟨l, happ, _⟩ := h
  refine ht.differsAt hs (fun z hz _ => happ.parent z (happ.ne hz)) (fun z hz hp => ?_)
    (fun z hz _ => happ.attributes z (happ.ne hz))
  refine happ.children z (happ.ne hz) ?_
  rintro rfl
  exact hp .last

end GainsField

end View

end PageTemplate
