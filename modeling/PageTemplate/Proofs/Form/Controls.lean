import PageTemplate.Form.Field
import PageTemplate.Proofs.Page.Queries
import PageTemplate.Proofs.Tree.TextContent

/-!
# PageTemplate.Proofs.Form.Controls

The controls of a form, and what they read. An ordinary input reads its value and a textarea its
text; a box is checked or not, and a menu has some of its options selected. What a control reads is
found in the control itself and, for a textarea or a menu, in what lies below it, so two controls of
which neither is inside the other have nothing in common.
-/

namespace PageTemplate

open Markup (Node)

namespace Markup

mutual

/-- Whether no control is written in markup. -/
def Node.lacksControls : Node → Bool
  | .element tag _ children =>
    tag != "input" && tag != "textarea" && tag != "select" && lacksControlsAll children
  | _ => true

def lacksControlsAll : List Node → Bool
  | [] => true
  | n :: ns => n.lacksControls && lacksControlsAll ns

end

mutual

/-- Whether no control is written inside a textarea or a menu. -/
def Node.hasFlatControls : Node → Bool
  | .element tag _ children =>
    (tag != "textarea" && tag != "select" || lacksControlsAll children) &&
      hasFlatControlsAll children
  | _ => true

def hasFlatControlsAll : List Node → Bool
  | [] => true
  | n :: ns => n.hasFlatControls && hasFlatControlsAll ns

end

end Markup

namespace View

variable {V V' : View} {form x y z : ObjectId} {name v t k : Text}

/-- Whether a node is a control. -/
def IsControl (V : View) (x : ObjectId) : Prop :=
  V.HasTag "input" x ∨ V.HasTag "textarea" x ∨ V.HasTag "select" x

/-- Whether a node is a control whose content belongs to it. -/
def HasContent (V : View) (x : ObjectId) : Prop := V.HasTag "textarea" x ∨ V.HasTag "select" x

/-- Whether a node is one of the controls with a name in a form. -/
structure IsField (V : View) (form : ObjectId) (name : Text) (x : ObjectId) : Prop where
  below : V.Above form x
  control : V.IsControl x
  named : V.attribute? x "name" = some name

/-- Whether no control in a form is a descendant of a textarea or of a menu. -/
def HasFlatControls (V : View) (form : ObjectId) : Prop :=
  ∀ a, V.Above form a → V.HasContent a → ∀ x, V.Above a x → ¬ V.IsControl x

/-- Whether an input is a box or a button that is checked or not. -/
def IsBox (V : View) (x : ObjectId) : Prop :=
  Text.toLower ((V.attribute? x "type").getD "text") = "checkbox" ∨
    Text.toLower ((V.attribute? x "type").getD "text") = "radio"

/-- Whether an option stands for a value: by its own value, or by its text when it has none. -/
def StandsFor (V : View) (o : ObjectId) (v : Text) : Prop :=
  match V.attribute? o "value" with
  | some own => own = v
  | none => V.HasText o v

/-- What it means for a control to read a value. -/
structure Reads (V : View) (x : ObjectId) (v : Text) : Prop where
  text : V.HasTag "textarea" x → V.HasText x v
  value : V.HasTag "input" x → ¬ V.IsBox x → V.attribute? x "value" = some v
  checked : V.HasTag "input" x → V.IsBox x →
    ((V.attribute? x "checked").isSome ↔ (V.attribute? x "value").getD "on" = v)
  selected : V.HasTag "select" x → ∀ o, V.Above x o → V.HasTag "option" o →
    ((V.attribute? o "selected").isSome ↔ V.StandsFor o v)

/-- Whether setting a control is about an attribute of a node. -/
inductive Concerns (V : View) (x : ObjectId) : ObjectId → Text → Prop where
  | value : V.HasTag "input" x → ¬ V.IsBox x → Concerns V x x "value"
  | checked : V.HasTag "input" x → V.IsBox x → Concerns V x x "checked"
  | selected {o : ObjectId} : V.HasTag "select" x → V.Above x o → V.HasTag "option" o →
    Concerns V x o "selected"

/-- The nodes that a control consists of. -/
def Owns (V : View) (x z : ObjectId) : Prop := z = x ∨ V.HasContent x ∧ V.Above x z

theorem HasContent.isControl (h : V.HasContent x) : V.IsControl x := .inr h

theorem IsControl.exists_tag (h : V.IsControl x) : ∃ tag, V.HasTag tag x := by
  rcases h with h | h | h
  · exact ⟨_, h⟩
  · exact ⟨_, h⟩
  · exact ⟨_, h⟩

theorem Concerns.owns (h : V.Concerns x z k) : V.Owns x z := by
  cases h with
  | value => exact .inl rfl
  | checked => exact .inl rfl
  | selected hx ha => exact .inr ⟨.inr hx, ha⟩

theorem Owns.known (hf : V.IsForest) (hx : V.Known x) (h : V.Owns x z) : V.Known z := by
  rcases h with rfl | ⟨_, ha⟩
  · exact hx
  · obtain ⟨p, hp, _⟩ := Relation.TransGen.head'_iff.1 ha
    obtain ⟨core, hcore, _⟩ := hf.inner z p hp
    exact ⟨core, hcore⟩

/-- Textareas have no attributes that setting them is about. -/
theorem Concerns.not_textarea (h : V.Concerns x z k) : ¬ V.HasTag "textarea" x := by
  intro hx
  cases h with
  | value hin => exact absurd (hin.unique hx) (by decide)
  | checked hin => exact absurd (hin.unique hx) (by decide)
  | selected hsel => exact absurd (hsel.unique hx) (by decide)

/-! Controls that are written in markup. -/

mutual

theorem Represents.not_isControl (hf : V.IsForest) (n : Node) {id x : ObjectId}
    (h : V.Represents id n.tree) (hn : n.lacksControls = true) (hx : V.Within id x) :
    ¬ V.IsControl x := by
  match n with
  | .element tag attributes children =>
    simp only [Node.lacksControls, Bool.and_eq_true, bne_iff_ne, ne_eq] at hn
    obtain ⟨⟨⟨hin, harea⟩, hmenu⟩, hch⟩ := hn
    rcases hx with rfl | ha
    · have htag : V.HasTag tag x := h.1
      rintro (ht | ht | ht)
      · exact hin (htag.unique ht)
      · exact harea (htag.unique ht)
      · exact hmenu (htag.unique ht)
    · obtain ⟨c, hc, hw⟩ := hf.above_iff_child.1 ha
      exact RepresentsAll.not_isControl hf children h.2.2 hch hc hw
  | .text .. | .code _ | .comment _ | .doctype _ =>
    rcases hx with rfl | ha
    · intro hx
      obtain ⟨tag, htag⟩ := hx.exists_tag
      exact nomatch h.1.symm.trans htag
    · exact absurd ha (hf.not_above_leaf h.1 h.2)

theorem RepresentsAll.not_isControl (hf : V.IsForest) (ns : List Node) {ids : List ObjectId}
    {c x : ObjectId} (h : V.RepresentsAll ids (treesOf ns)) (hns : Markup.lacksControlsAll ns = true)
    (hc : c ∈ ids) (hx : V.Within c x) : ¬ V.IsControl x := by
  match ns with
  | [] =>
    rw [representsAll_nil.1 h] at hc
    cases hc
  | n :: ns =>
    obtain ⟨id, rest, rfl, hn, hrest⟩ := h
    rw [Markup.lacksControlsAll, Bool.and_eq_true] at hns
    rcases List.mem_cons.1 hc with rfl | hc
    · exact Represents.not_isControl hf n hn hns.1 hx
    · exact RepresentsAll.not_isControl hf ns hrest hns.2 hc hx

end

mutual

theorem Represents.flat (hf : V.IsForest) (n : Node) {id a : ObjectId} (h : V.Represents id n.tree)
    (hn : n.hasFlatControls = true) (ha : V.Within id a) (hcontent : V.HasContent a) :
    ∀ x, V.Above a x → ¬ V.IsControl x := by
  match n with
  | .element tag attributes children =>
    simp only [Node.hasFlatControls, Bool.and_eq_true, Bool.or_eq_true, bne_iff_ne, ne_eq] at hn
    obtain ⟨hown, hbelow⟩ := hn
    rcases ha with rfl | ha
    · have htag : V.HasTag tag a := h.1
      have hlacks : Markup.lacksControlsAll children = true := by
        rcases hown with ⟨harea, hmenu⟩ | hlacks
        · rcases hcontent with ht | ht
          · exact absurd (htag.unique ht) harea
          · exact absurd (htag.unique ht) hmenu
        · exact hlacks
      intro x hx
      obtain ⟨c, hc, hw⟩ := hf.above_iff_child.1 hx
      exact RepresentsAll.not_isControl hf children h.2.2 hlacks hc hw
    · obtain ⟨c, hc, hw⟩ := hf.above_iff_child.1 ha
      exact RepresentsAll.flat hf children h.2.2 hbelow hc hw hcontent
  | .text .. | .code _ | .comment _ | .doctype _ =>
    rcases ha with rfl | ha
    · obtain ⟨tag, htag⟩ := hcontent.isControl.exists_tag
      exact nomatch h.1.symm.trans htag
    · exact absurd ha (hf.not_above_leaf h.1 h.2)

theorem RepresentsAll.flat (hf : V.IsForest) (ns : List Node) {ids : List ObjectId}
    {c a : ObjectId} (h : V.RepresentsAll ids (treesOf ns))
    (hns : Markup.hasFlatControlsAll ns = true) (hc : c ∈ ids) (ha : V.Within c a)
    (hcontent : V.HasContent a) : ∀ x, V.Above a x → ¬ V.IsControl x := by
  match ns with
  | [] =>
    rw [representsAll_nil.1 h] at hc
    cases hc
  | n :: ns =>
    obtain ⟨id, rest, rfl, hn, hrest⟩ := h
    rw [Markup.hasFlatControlsAll, Bool.and_eq_true] at hns
    rcases List.mem_cons.1 hc with rfl | hc
    · exact Represents.flat hf n hn hns.1 ha hcontent
    · exact RepresentsAll.flat hf ns hrest hns.2 hc ha hcontent

end

/-- The controls of a form are as flat as those of the markup that it represents. -/
theorem Represents.hasFlatControls (hf : V.IsForest) {n : Node} (h : V.Represents form n.tree)
    (hn : n.hasFlatControls = true) : V.HasFlatControls form :=
  fun _ ha hcontent => h.flat hf n hn (.inr ha) hcontent

/-! Controls of a view that was changed elsewhere. -/

theorem hasTag_congr (h : V'.core x = V.core x) : V'.HasTag t x ↔ V.HasTag t x := by
  rw [HasTag, HasTag, h]

theorem attribute?_congr (h : V'.attributes x = V.attributes x) (name : Text) :
    V'.attribute? x name = V.attribute? x name := by
  rw [attribute?, attribute?, h]

theorem isControl_congr (h : V'.core x = V.core x) : V'.IsControl x ↔ V.IsControl x := by
  simp only [IsControl, hasTag_congr h]

theorem hasContent_congr (h : V'.core x = V.core x) : V'.HasContent x ↔ V.HasContent x := by
  simp only [HasContent, hasTag_congr h]

theorem isBox_congr (h : V'.attribute? x "type" = V.attribute? x "type") :
    V'.IsBox x ↔ V.IsBox x := by
  rw [IsBox, IsBox, h]

/-- The way down from a node depends on the children of the nodes on it. -/
theorem above_of_children (hf : V.IsForest) (hf' : V'.IsForest)
    (h : ∀ z, V.Within x z → V'.children z = V.children z) : V'.Above x z ↔ V.Above x z := by
  constructor
  · intro ha
    induction ha using Relation.TransGen.head_induction_on with
    | @single z hp =>
      exact .single ((hf.mem_children x z).1 (h x (.inl rfl) ▸ (hf'.mem_children x z).2 hp))
    | @head z y hp _ ih =>
      exact .head ((hf.mem_children y z).1 (h y (.inr ih) ▸ (hf'.mem_children y z).2 hp)) ih
  · intro ha
    induction ha using Relation.TransGen.head_induction_on with
    | @single z hp =>
      exact .single ((hf'.mem_children x z).1 (h x (.inl rfl) ▸ (hf.mem_children x z).2 hp))
    | @head z y hp hy ih =>
      exact .head ((hf'.mem_children y z).1 (h y (.inr hy) ▸ (hf.mem_children y z).2 hp)) ih

theorem hasText_congr (hf : V.IsForest) (hf' : V'.IsForest)
    (h : ∀ z, V.Within x z → V'.core z = V.core z ∧ V'.children z = V.children z) :
    V'.HasText x t ↔ V.HasText x t := by
  refine ⟨fun ht => ht.congr hf' fun z hz => ?_, fun ht => ht.congr hf h⟩
  have hz' : V.Within x z :=
    hz.imp_right (above_of_children hf hf' fun z hz => (h z hz).2).1
  exact ⟨(h z hz').1.symm, (h z hz').2.symm⟩

theorem standsFor_congr (hf : V.IsForest) (hf' : V'.IsForest)
    (hvalue : V'.attribute? x "value" = V.attribute? x "value")
    (h : ∀ z, V.Within x z → V'.core z = V.core z ∧ V'.children z = V.children z) :
    V'.StandsFor x v ↔ V.StandsFor x v := by
  rw [StandsFor, StandsFor, hvalue]
  split
  · rfl
  · exact hasText_congr hf hf' h

/-- A control reads what it did as long as the nodes that it consists of are what they were. -/
theorem Reads.congr (hf : V.IsForest) (hf' : V'.IsForest) (h : V.Reads x v)
    (hag : ∀ z, V.Owns x z → Agree V V' z) : V'.Reads x v := by
  have hself := hag x (.inl rfl)
  have hin : V.HasContent x → ∀ z, V.Within x z → Agree V V' z := fun hx z hz =>
    hag z (hz.imp_right fun ha => ⟨hx, ha⟩)
  constructor
  · intro hx
    rw [hasTag_congr hself.core] at hx
    refine (hasText_congr hf hf' fun z hz => ?_).2 (h.text hx)
    exact ⟨(hin (.inl hx) z hz).core, (hin (.inl hx) z hz).children⟩
  · intro hx hbox
    rw [hasTag_congr hself.core] at hx
    rw [isBox_congr (attribute?_congr hself.attributes _)] at hbox
    rw [attribute?_congr hself.attributes]
    exact h.value hx hbox
  · intro hx hbox
    rw [hasTag_congr hself.core] at hx
    rw [isBox_congr (attribute?_congr hself.attributes _)] at hbox
    rw [attribute?_congr hself.attributes, attribute?_congr hself.attributes]
    exact h.checked hx hbox
  · intro hx o ho htag
    rw [hasTag_congr hself.core] at hx
    rw [above_of_children hf hf' fun z hz => (hin (.inr hx) z hz).children] at ho
    have hao := hin (.inr hx) o (.inr ho)
    rw [hasTag_congr hao.core] at htag
    rw [attribute?_congr hao.attributes, h.selected hx o ho htag]
    refine (standsFor_congr hf hf' (attribute?_congr hao.attributes _) fun z hz => ?_).symm
    have haz := hin (.inr hx) z (.inr (by
      rcases hz with rfl | hz
      · exact ho
      · exact Relation.TransGen.trans hz ho))
    exact ⟨haz.core, haz.children⟩

/-- Distinct controls of which none is a descendant of the other consist of different nodes. -/
theorem Owns.disjoint (hne : x ≠ y) (hxy : V.HasContent x → ¬ V.Above x y)
    (hyx : V.HasContent y → ¬ V.Above y x) (hx : V.Owns x z) : ¬ V.Owns y z := by
  intro hy
  rcases hx with rfl | ⟨hcx, hax⟩
  · rcases hy with rfl | ⟨hcy, hay⟩
    · exact hne rfl
    · exact hyx hcy hay
  · rcases hy with rfl | ⟨hcy, hay⟩
    · exact hxy hcx hax
    · rcases Within.or (.inr hax) (.inr hay) with (h | h) | h | h
      · exact hne h.symm
      · exact hxy hcx h
      · exact hne h
      · exact hyx hcy h

end View

namespace Selector

variable {V : View} {x : ObjectId}

theorem read_option : read "option" = .ok [[⟨.descendant, ofTag "option"⟩]] :=
  read_of_parts "option" (by decide +kernel) rfl

theorem matches_controls : Matches V
    [[⟨.descendant, ofTag "input"⟩], [⟨.descendant, ofTag "textarea"⟩],
      [⟨.descendant, ofTag "select"⟩]] x ↔ V.IsControl x := by
  have hsingle : ∀ tag : Text, (∃ es, Chosen V [⟨.descendant, ofTag tag⟩] (x :: es)) ↔
      V.HasTag tag x := fun tag => by
    rw [exists_chosen_single, fits_ofTag]
    exact ⟨And.right, fun h => ⟨h.isElement, h⟩⟩
  simp only [Matches, List.mem_cons, List.not_mem_nil, or_false, exists_eq_or_imp, exists_eq_left,
    hsingle]
  rfl

end Selector

namespace Form

open View

variable {env : Env} {w : World} {V : View} {form e o : ObjectId} {tag : Value} {name d : Text}

variable (env) in
/-- The controls with a name are found. -/
theorem run'_fields (hs : Shows w V) (hm : V.IsMarkup) (hform : V.Container form) (name : Text) :
    ∃ xs : List ObjectId, xs.Nodup ∧ (∀ x, x ∈ xs ↔ V.IsField form name x) ∧
      M.run' env w (controls (.object form) (.text name)) = (.ok (xs.map .object), w) := by
  obtain ⟨all, hall, hselect⟩ := Tree.selectAll_lists env hs hm hform Selector.read_controls
    (by simp [Selector.IsApplicable])
  let isNamed : ObjectId → Bool := fun x => V.attribute? x "name" == some name
  refine ⟨all.filter isNamed, hall.nodup.filter _, fun x => ?_, ?_⟩
  · rw [List.mem_filter, hall.mem_iff, Selector.matches_controls, beq_iff_eq]
    constructor
    · rintro ⟨⟨ha, _, hcontrol⟩, hnamed⟩
      exact ⟨ha, hcontrol, hnamed⟩
    · rintro ⟨ha, hcontrol, hnamed⟩
      obtain ⟨tag, htag⟩ := hcontrol.exists_tag
      exact ⟨⟨ha, htag.isElement, hcontrol⟩, hnamed⟩
  · rw [controls, M.run'_bind_ok hselect]
    refine M.run'_filterM fun x hx => ?_
    obtain ⟨tag, hcore⟩ := Tree.isElement_iff.1 ((hall.mem_iff x).1 hx).2.1
    rw [M.run'_bind_ok (Tree.run'_getAttribute hs hcore _), M.run'_pure]
    congr 2
    rw [Bool.eq_iff_iff, Tree.strictlyEqual_text_iff, beq_iff_eq, Tree.attribute?_eq_some_iff]

variable (env) in
/-- The options of a menu are found. -/
theorem run'_options (hs : Shows w V) (hm : V.IsMarkup) (he : V.Container e) :
    ∃ os : List ObjectId, os.Nodup ∧ (∀ o, o ∈ os ↔ V.Above e o ∧ V.HasTag "option" o) ∧
      M.run' env w (Tree.selectAll (.object e) "option") = (.ok (os.map .object), w) := by
  obtain ⟨os, hos, hselect⟩ := Tree.selectAll_lists env hs hm he Selector.read_option
    (by simp [Selector.IsApplicable])
  refine ⟨os, hos.nodup, fun o => ?_, hselect⟩
  rw [hos.mem_iff, Selector.matches_tag]
  exact ⟨fun h => ⟨h.1, h.2.2⟩, fun h => ⟨h.1, h.2.isElement, h.2⟩⟩

/-- An attribute with a default. -/
theorem run'_attributeOr (hs : Shows w V) (hm : V.IsMarkup) (he : V.core e = some (.element tag))
    (name : Text) {default : M Value} (hd : M.run' env w default = (.ok (.text d), w)) :
    M.run' env w (attributeOr (.object e) name default) =
      (.ok (.text ((V.attribute? e name).getD d)), w) := by
  obtain ⟨attributes, ha⟩ := hm.attributes e tag he
  rw [attributeOr, M.run'_bind_ok (Tree.run'_getText hs he ha name), attribute?_eq ha]
  cases Assoc.find? name attributes with
  | none => exact hd
  | some own => rfl

variable (env) in
/-- What an option stands for. -/
theorem run'_own (hs : Shows w V) (hm : V.IsMarkup)
    (ho : V.core o = some (.element tag)) (htexts : V.HoldsTexts o) :
    ∃ own : Text, M.run' env w (attributeOr (.object o) "value" (Tree.textContent (.object o))) =
      (.ok (.text own), w) ∧ ∀ v, V.StandsFor o v ↔ own = v := by
  obtain ⟨d, hcontent, hd⟩ := Tree.run'_textContent env hs hm.toIsForest ho htexts
  refine ⟨_, run'_attributeOr hs hm ho "value" hcontent, fun v => ?_⟩
  rw [StandsFor]
  cases V.attribute? o "value" with
  | some own => rfl
  | none => exact ⟨fun h => hd.unique h, fun h => h ▸ hd⟩

/-- Whether an input is a box. -/
theorem run'_inputKind (hs : Shows w V) (hm : V.IsMarkup) (he : V.core e = some (.element tag)) :
    M.run' env w (inputKind (.object e)) =
      (.ok (.text (Text.toLower ((V.attribute? e "type").getD "text"))), w) := by
  rw [inputKind, M.run'_bind_ok (run'_attributeOr hs hm he "type" (M.run'_pure _))]
  rfl

end Form

end PageTemplate
