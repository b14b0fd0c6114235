import PageTemplate.Proofs.Form.Setting

/-!
# PageTemplate.Proofs.Form.ReadBack

A field reads what it was set to. Where there are controls with its name, each of them reads the
value and nothing else is changed, but that a textarea has the value for its only content; where
there is none, the form has a hidden input with the name and the value for a new last child.
-/

namespace PageTemplate

open Markup (Node)

namespace View

/-- Whether a form has a new last child that is a hidden input with a name and a value. -/
def GainsField (V : View) (form : ObjectId) (name v : Text) (V' : View) : Prop :=
  ∃ l, V.Appended form l V' ∧ V'.Represents l
    (Node.element "input" [("type", "hidden"), ("name", name), ("value", v)] []).tree

end View

namespace Form

open View

variable {env : Env} {w : World} {V : View} {form x o e : ObjectId} {tag : Value} {name v : Text}

/-! One control. -/

/-- Setting a flag. -/
theorem does_setFlag (env : Env) (hs : Shows w V) (he : V.core e = some (.element tag))
    {attributes : Markup.Attributes} (ha : (V.attributes e).live = Markup.values attributes)
    (name : Text) (on : Bool) :
    ∃ entries : Entries, entries.live = Markup.values (Markup.markAttribute name on attributes) ∧
      Does env w V (setFlag (.object e) name on) () (V.setAttributes e entries) := by
  rw [setFlag]
  cases on with
  | true => exact ⟨_, Entries.live_put_values ha name name, Tree.does_setAttribute hs he _ _⟩
  | false =>
    refine ⟨_, ?_, Tree.does_removeAttribute hs he (.text name)⟩
    rw [Entries.live_erase, ha, Markup.erase_values]
    rfl

/-- Entering a value into an input. -/
theorem does_enter (env : Env) (hs : Shows w V) (hm : V.IsMarkup) (hx : V.HasTag "input" x)
    (v : Text) :
    ∃ V', Does env w V (enter (.object x) (.text v)) () V' ∧ V'.IsMarkup ∧
      V.SetsControls v (· = x) V' ∧ V.Rewrites v (· = x) V' := by
  have hkind : M.run' env w (inputKind (.object x)) = _ := run'_inputKind hs hm hx
  have harea : ¬ V.HasTag "textarea" x := fun h => absurd (hx.unique h) (by decide)
  have hmenu : ¬ V.HasTag "select" x := fun h => absurd (hx.unique h) (by decide)
  obtain ⟨attributes, ha⟩ := hm.attributes x _ hx
  have hrewrites : ∀ {entries : Entries},
      entries.live = Markup.values (Markup.entered attributes v) →
      V.Rewrites v (· = x) (V.setAttributes x entries) := by
    rintro entries hl _ z a a' rfl (_ | ⟨hsel, _⟩) hz
    · rw [Markup.values_injective (hz.symm.trans ha), View.setAttributes_attributes, hl]
    · exact absurd hsel hmenu
  by_cases hbox : V.IsBox x
  · have hown : M.run' env w (attributeOr (.object x) "value" (return .text "on")) = _ :=
      run'_attributeOr hs hm hx "value" (M.run'_pure _)
    obtain ⟨entries, hl, hdoes⟩ := does_setFlag env hs hx ha "checked"
      ((Value.text ((V.attribute? x "value").getD "on")).strictlyEqual (.text v))
    have hbut := sameBut_setAttributes ha hl (Markup.erase_markAttribute _)
    refine ⟨_, .bind_of_run hkind ?_, hm.setAttributes hl,
      .of_sameLinks (sameLinks_setAttributes V x entries) harea ?_ ?_ ?_, hrewrites ?_⟩
    · rw [if_pos (by simpa [IsBox] using hbox)]
      exact .bind_of_run hown hdoes
    · intro z hz
      rw [List.mem_singleton.1 hz]
      exact ⟨_, .checked hx hbox⟩
    · rintro z k (⟨_, hb⟩ | _ | ⟨hsel, _⟩)
      · exact absurd hbox hb
      · exact hbut
      · exact absurd hsel hmenu
    · refine ⟨fun h => absurd h harea, fun _ hb => absurd ?_ hb, fun _ _ => ?_,
        fun h => absurd h hmenu⟩
      · exact (isBox_congr (hbut.attribute? (by decide))).2 hbox
      · rw [attribute?_setAttributes hl, Markup.isSome_markAttribute,
          hbut.attribute? (by decide)]
        simp
    · rw [hl, Markup.entered, if_pos ((isBox_iff ha).1 hbox), Markup.boxIs, ← attribute?_eq ha]
      rfl
  · have hl := Entries.live_put_values ha "value" v
    have hbut := sameBut_setAttributes ha hl (Markup.erase_bindAttribute _ _ _)
    refine ⟨_, .bind_of_run hkind ?_, hm.setAttributes hl,
      .of_sameLinks (sameLinks_setAttributes V x _) harea ?_ ?_ ?_, hrewrites ?_⟩
    · rw [if_neg (by simpa [IsBox] using hbox)]
      exact Tree.does_setAttribute hs hx _ _
    · intro z hz
      rw [List.mem_singleton.1 hz]
      exact ⟨_, .value hx hbox⟩
    · rintro z k (_ | ⟨_, hb⟩ | ⟨hsel, _⟩)
      · exact hbut
      · exact absurd hb hbox
      · exact absurd hsel hmenu
    · refine ⟨fun h => absurd h harea, fun _ _ => ?_, fun _ hb => absurd ?_ hbox,
        fun h => absurd h hmenu⟩
      · rw [attribute?_setAttributes hl, Markup.find?_bindAttribute, if_pos rfl]
      · exact (isBox_congr (hbut.attribute? (by decide))).1 hb
    · rw [hl, Markup.entered, if_neg (mt (isBox_iff ha).2 hbox)]

/-- Selecting exactly those of some options that stand for a value. -/
theorem does_chooseAmong (env : Env) (v : Text) {os : List ObjectId} :
    ∀ {w : World} {V : View}, Shows w V → V.IsMarkup → os.Nodup →
      (∀ o ∈ os, V.HasTag "option" o ∧ V.HoldsTexts o) →
      ∃ V', Does env w V ((os.map Value.object).forM fun option => do
          let own ← attributeOr option "value" (Tree.textContent option)
          setFlag option "selected" (own.strictlyEqual (.text v))) () V' ∧ V'.IsMarkup ∧
        V.SameLinks os V' ∧ ∀ o ∈ os, ∃ a on, (on = true ↔ V.StandsFor o v) ∧
          (V.attributes o).live = Markup.values a ∧
          (V'.attributes o).live = Markup.values (Markup.markAttribute "selected" on a) := by
  induction os with
  | nil => exact fun {_ V} hs hm _ _ => ⟨V, .pure hs (), hm, .refl V [], nofun⟩
  | cons o os ih =>
    intro w V hs hm hn hos
    obtain ⟨hno, hn⟩ := List.nodup_cons.1 hn
    obtain ⟨ho, htexts⟩ := hos o List.mem_cons_self
    obtain ⟨own, hown, hstands⟩ := run'_own env hs hm ho htexts
    obtain ⟨a, ha⟩ := hm.attributes o _ ho
    obtain ⟨entries, hl, hdoes⟩ := does_setFlag env hs ho ha "selected"
      ((Value.text own).strictlyEqual (.text v))
    obtain ⟨w1, hrun1, hs1⟩ := hdoes
    have hm1 := hm.setAttributes (e := o) hl
    have hlinks1 := sameLinks_setAttributes V o entries
    obtain ⟨V', ⟨w', hrun', hs'⟩, hm', hlinks, hrest⟩ := ih hs1.shows hm1 hn fun o' ho' =>
      hos o' (List.mem_cons_of_mem o ho')
    refine ⟨V', ⟨w', ?_, hs1.trans hs'⟩, hm', ⟨hlinks.core, hlinks.parent, hlinks.children, ?_⟩, ?_⟩
    · exact (M.run'_bind_ok ((M.run'_bind_ok hown).trans hrun1)).trans hrun'
    · intro x hx
      rw [List.mem_cons, not_or] at hx
      rw [hlinks.attributes x hx.2, hlinks1.attributes x (by simpa using hx.1)]
    · intro o' ho'
      rcases List.mem_cons.1 ho' with rfl | ho'
      · refine ⟨a, _, ?_, ha, by rw [hlinks.attributes o' hno, setAttributes_attributes, hl]⟩
        rw [hstands]
        simp
      · obtain ⟨a', on, hon, ha', hl'⟩ := hrest o' ho'
        have hne : o' ≠ o := fun he => hno (he ▸ ho')
        have hold := hlinks1.attributes o' (by simpa using hne)
        refine ⟨a', on, hon.trans ?_, by rw [← ha', hold], hl'⟩
        exact standsFor_congr hm.toIsForest hm1.toIsForest (attribute?_congr hold _)
          fun _ _ => ⟨rfl, rfl⟩

/-- Choosing a value in a menu. -/
theorem does_choose (env : Env) (hs : Shows w V) (hm : V.IsMarkup) (hx : V.HasTag "select" x)
    (htexts : V.HoldsTexts x) (v : Text) :
    ∃ V', Does env w V (choose (.object x) (.text v)) () V' ∧ V'.IsMarkup ∧
      V.SetsControls v (· = x) V' ∧ V.Rewrites v (· = x) V' := by
  have hin : ¬ V.HasTag "input" x := fun h => absurd (hx.unique h) (by decide)
  have harea : ¬ V.HasTag "textarea" x := fun h => absurd (hx.unique h) (by decide)
  obtain ⟨os, hn, hos, hselect⟩ := run'_options env hs hm (e := x) ⟨_, hx, rfl⟩
  obtain ⟨V', hdoes, hm', hlinks, hset⟩ := does_chooseAmong env v hs hm hn fun o ho =>
    ⟨((hos o).1 ho).2, htexts.of_above ((hos o).1 ho).1⟩
  have hbut : ∀ o ∈ os, V.SameBut "selected" o V' := fun o ho => by
    obtain ⟨a, on, _, ha, hl⟩ := hset o ho
    exact ⟨a, _, ha, hl, Markup.erase_markAttribute on⟩
  refine ⟨V', .bind_of_run hselect hdoes, hm', .of_sameLinks hlinks harea ?_ ?_ ?_, ?_⟩
  · intro o ho
    obtain ⟨ha, htag⟩ := (hos o).1 ho
    exact ⟨_, .selected hx ha htag⟩
  · rintro o k (⟨h, _⟩ | ⟨h, _⟩ | ⟨_, ha, htag⟩)
    · exact absurd h hin
    · exact absurd h hin
    · exact hbut o ((hos o).2 ⟨ha, htag⟩)
  · have hcore : ∀ z, V'.core z = V.core z := congrFun hlinks.core
    have hchildren : ∀ z, V'.children z = V.children z := congrFun hlinks.children
    refine ⟨fun h => ?_, fun h => ?_, fun h => ?_, fun _ o ha htag => ?_⟩
    · exact absurd ((hasTag_congr (hcore x)).1 h) harea
    · exact absurd ((hasTag_congr (hcore x)).1 h) hin
    · exact absurd ((hasTag_congr (hcore x)).1 h) hin
    · rw [above_of_children hm.toIsForest hm'.toIsForest fun z _ => hchildren z] at ha
      rw [hasTag_congr (hcore o)] at htag
      have ho := (hos o).2 ⟨ha, htag⟩
      obtain ⟨a, on, hon, _, hl⟩ := hset o ho
      rw [attribute?_eq hl, Markup.isSome_markAttribute, hon]
      exact (standsFor_congr hm.toIsForest hm'.toIsForest
        ((hbut o ho).attribute? (by decide)) fun z _ => ⟨hcore z, hchildren z⟩).symm
  · rintro _ o a a' rfl (hin' | ⟨_, ha, htag, hon⟩) hlive
    · exact absurd hin' hin
    · obtain ⟨b, on, hon', hb, hl⟩ := hset o ((hos o).2 ⟨ha, htag⟩)
      rw [Markup.values_injective (hlive.symm.trans hb), Bool.eq_iff_iff.2 (hon.trans hon'.symm)]
      exact hl

/-- Giving a textarea a text. -/
theorem does_setTextContent (env : Env) (hs : Shows w V) (hm : V.IsMarkup)
    (hx : V.HasTag "textarea" x) (v : Text) :
    ∃ V', Does env w V (Tree.setTextContent (.object x) (.text v)) () V' ∧ V'.IsMarkup ∧
      V.SetsControls v (· = x) V' ∧ V.Rewrites v (· = x) V' := by
  obtain ⟨w1, hrun1, hs1⟩ : Does env w V (Tree.removeChildren (.object x)) () (V.takeChildren x) :=
    Tree.does_removeChildren hs hm.toIsForest.isLinked hx rfl
  have hm1 : (V.takeChildren x).IsMarkup :=
    ⟨hm.of_core (hm.toIsForest.takeChildren x) rfl, hm.attributes⟩
  have hinner : (NodeCore.text (.text v) (.bool false)).isInner := rfl
  obtain ⟨n, hnew, hg, w2, hrun2, hs2⟩ :=
    Tree.does_appendNew env hs1.shows hm1.toIsRegular hx rfl hinner nofun []
  obtain ⟨happ, hcore, hch, _⟩ := appended_append hnew ⟨_, hx⟩ hinner []
  refine ⟨_, ⟨w2, (M.run'_bind_ok hrun1).trans hrun2, hs1.trans hs2⟩,
    hm1.appended hg happ fun tag htag => ?_, .of_refilled hm.toIsForest hx happ hcore hch,
    .of_textarea hx⟩
  exact nomatch htag.symm.trans hcore

/-- **Setting one control.** It reads the value, and nothing else changes. -/
theorem does_setControl (env : Env) (hs : Shows w V) (hm : V.IsMarkup) (hx : V.IsControl x)
    (htexts : V.HoldsTexts x) (v : Text) :
    ∃ V', Does env w V (setControl (.text v) (.object x)) () V' ∧ V'.IsMarkup ∧
      V.SetsControls v (· = x) V' ∧ V.Rewrites v (· = x) V' := by
  rcases hx with hx | hx | hx
  · obtain ⟨V', hdoes, hset⟩ := does_enter env hs hm hx v
    exact ⟨V', .bind_of_run (Tree.run'_tag (hs.record x _ hx)) hdoes, hset⟩
  · obtain ⟨V', hdoes, hset⟩ := does_setTextContent env hs hm hx v
    exact ⟨V', .bind_of_run (Tree.run'_tag (hs.record x _ hx)) hdoes, hset⟩
  · obtain ⟨V', hdoes, hset⟩ := does_choose env hs hm hx htexts v
    exact ⟨V', .bind_of_run (Tree.run'_tag (hs.record x _ hx)) hdoes, hset⟩

/-! All controls with a name. -/

theorem does_setControls (env : Env) (v : Text) {xs : List ObjectId} :
    ∀ {w : World} {V : View}, Shows w V → V.IsMarkup → xs.Nodup → V.Settable xs →
      ∃ V', Does env w V ((xs.map Value.object).forM (setControl (.text v))) () V' ∧
        V'.IsMarkup ∧ V.SetsControls v (· ∈ xs) V' ∧ V.Rewrites v (· ∈ xs) V' := by
  induction xs with
  | nil => exact fun {_ V} hs hm _ _ => ⟨V, .pure hs (), hm, .nil V v, .nil V V v⟩
  | cons x xs ih =>
    intro w V hs hm hn hset
    obtain ⟨hx, hn⟩ := List.nodup_cons.1 hn
    obtain ⟨V1, ⟨w1, hrun1, hs1⟩, hm1, h1, r1⟩ := does_setControl env hs hm
      (hset.control x List.mem_cons_self) (hset.texts x List.mem_cons_self) v
    have hset1 := (hset.mono (List.subset_cons_self x xs)).after hm.toIsForest h1
    obtain ⟨V', ⟨w', hrun', hs'⟩, hm', h', r'⟩ := ih hs1.shows hm1 hn hset1
    exact ⟨V', ⟨w', (M.run'_bind_ok hrun1).trans hrun', hs1.trans hs'⟩, hm',
      .cons hm.toIsForest hset hx h1 h' hm1.toIsForest hm'.toIsForest,
      .cons hm.toIsForest hm1.toIsForest hset hx h1 h' r1 r'⟩

/-- The controls with a name in a form can be set one after another. -/
theorem settable_fields (htexts : V.HoldsTexts form) (hflat : V.HasFlatControls form)
    {xs : List ObjectId} (hxs : ∀ x ∈ xs, V.IsField form name x) : V.Settable xs where
  control x hx := (hxs x hx).control
  texts x hx := htexts.of_above (hxs x hx).below
  apart x hx hc y hy ha := hflat x (hxs x hx).below hc y ha (hxs y hy).control

/-- Setting the controls with a name where there are some. -/
theorem does_setField_some (env : Env) (hs : Shows w V) (hm : V.IsMarkup)
    (hform : V.Container form) (htexts : V.HoldsTexts form) (hflat : V.HasFlatControls form)
    (v : Text) {x : ObjectId} (hx : V.IsField form name x) :
    ∃ V', Does env w V (setField (.object form) (.text name) (.text v)) () V' ∧ V'.IsMarkup ∧
      V.SetsControls v (V.IsField form name) V' ∧ V.Rewrites v (V.IsField form name) V' := by
  obtain ⟨xs, hn, hxs, hcontrols⟩ := run'_fields env hs hm hform name
  obtain ⟨V', hdoes, hm', hset⟩ := does_setControls env v hs hm hn
    (settable_fields htexts hflat fun x hx => (hxs x).1 hx)
  have hne : (xs.map Value.object).isEmpty = false := by
    rw [List.isEmpty_map, List.isEmpty_eq_false_iff_exists_mem]
    exact ⟨x, (hxs x).2 hx⟩
  have hfields : (· ∈ xs) = V.IsField form name := funext fun x => propext (hxs x)
  rw [hfields] at hset
  refine ⟨V', .bind_of_run hcontrols ?_, hm', hset⟩
  rw [hne]
  exact hdoes

/-- Setting a field that a form does not have. -/
theorem does_setField_none (env : Env) (hs : Shows w V) (hm : V.IsMarkup)
    (hform : V.Container form) (v : Text) (hnone : ¬ ∃ x, V.IsField form name x) :
    ∃ V', Does env w V (setField (.object form) (.text name) (.text v)) () V' ∧ V'.IsMarkup ∧
      V.GainsField form name v V' := by
  obtain ⟨xs, hn, hxs, hcontrols⟩ := run'_fields env hs hm hform name
  have hempty : (xs.map Value.object).isEmpty = true := by
    rw [List.isEmpty_map, List.isEmpty_iff, List.eq_nil_iff_forall_not_mem]
    exact fun x hx => hnone ⟨x, (hxs x).1 hx⟩
  obtain ⟨core, hcore, hh⟩ := hform
  let attributes : Markup.Attributes := [("type", "hidden"), ("name", name), ("value", v)]
  have hinner : (NodeCore.element (.text "input")).isInner := rfl
  obtain ⟨l, hnew, hg, hdoes⟩ := Tree.does_appendNew env hs hm.toIsRegular hcore hh hinner
    (fun _ ht => ⟨_, (NodeCore.element.inj ht).symm⟩) (.ofList (Markup.values attributes))
  obtain ⟨happ, hlcore, hlch, hla⟩ := appended_append hnew ⟨core, hcore⟩ hinner
    (.ofList (Markup.values attributes))
  have hlive : (Entries.ofList (Markup.values attributes)).live = Markup.values attributes := rfl
  refine ⟨_, .bind_of_run hcontrols ?_, hm.appended hg happ fun _ _ => ?_, l, happ, hlcore, ?_, ?_⟩
  · rw [hempty]
    exact hdoes
  · exact ⟨attributes, by rw [hla, hlive]⟩
  · rw [hla, hlive]
  · exact representsAll_nil.2 hlch

/-- **A field reads back.** In a form whose textareas and menus have no controls inside, setting a
name to a value leads to a form in which each control with the name reads the value. Its other nodes
and attributes are what they were, except that a textarea among these controls has the value for its
only content. In a form without such controls nothing changes but that a hidden input with the name
and the value is its new last child. -/
theorem setField_reads_back (env : Env) (hs : Shows w V) (hm : V.IsMarkup)
    (hform : V.isElement form = true) (htexts : V.HoldsTexts form)
    (hflat : V.HasFlatControls form) (name v : Text) :
    ∃ V', Does env w V (setField (.object form) (.text name) (.text v)) () V' ∧ V'.IsMarkup ∧
      ((∃ x, V.IsField form name x) → V.SetsControls v (V.IsField form name) V') ∧
      ((¬ ∃ x, V.IsField form name x) → V.GainsField form name v V') := by
  obtain ⟨tag, hcore⟩ := Tree.isElement_iff.1 hform
  have hcontainer : V.Container form := ⟨_, hcore, rfl⟩
  by_cases hfield : ∃ x, V.IsField form name x
  · obtain ⟨x, hx⟩ := hfield
    obtain ⟨V', hdoes, hm', hset, _⟩ := does_setField_some env hs hm hcontainer htexts hflat v hx
    exact ⟨V', hdoes, hm', fun _ => hset, fun hnone => absurd ⟨x, hx⟩ hnone⟩
  · obtain ⟨V', hdoes, hm', hgain⟩ := does_setField_none env hs hm hcontainer v hfield
    exact ⟨V', hdoes, hm', fun hsome => absurd hsome hfield, fun _ => hgain⟩

/-- Some store holds any piece of markup. -/
theorem exists_planted (n : Node) :
    ∃ w V id, Shows w V ∧ V.IsMarkup ∧ V.Represents id n.tree := by
  obtain ⟨ids, V, ⟨w, _, ht⟩, hg, hp⟩ :
      ∃ ids V, Does Env.silent World.blank View.empty (Tree.plantAll [n]) ids V ∧
        V.IsRegular ∧ View.empty.IsPlanted ids [n] V :=
    Tree.does_plantAll [n] (View.shows_empty World.blank) View.isRegular_empty
  obtain ⟨id, _, _, hrep, _⟩ := hp.represents
  exact ⟨w, V, id, ht.shows, View.isMarkup_empty.planted hg hp.extend hp.attributes, hrep⟩

/-- The first control of a form that it is written in. -/
theorem isField_first (hm : V.IsMarkup) {tag own : Text} {attributes more : Markup.Attributes}
    {inner children : List Node}
    (h : V.Represents form (Node.element own more (.element tag attributes inner :: children)).tree)
    (hcontrol : tag = "input" ∨ tag = "textarea" ∨ tag = "select") (name : Text)
    (hname : Assoc.find? (Text.ofString "name") attributes = some name) :
    ∃ x, V.parent x = some form ∧ V.IsField form name x ∧
      V.Represents x (Node.element tag attributes inner).tree := by
  obtain ⟨x, rest, hch, hx, _⟩ := h.2.2
  have hp : V.parent x = some form :=
    (hm.mem_children form x).1 (by rw [hch]; exact List.mem_cons_self)
  refine ⟨x, hp, ⟨.single hp, ?_, ?_⟩, hx⟩
  · rcases hcontrol with rfl | rfl | rfl
    · exact .inl hx.1
    · exact .inr (.inl hx.1)
    · exact .inr (.inr hx.1)
  · rw [attribute?_eq hx.2.1, hname]

/-- A form that asks for a size in several ways, and for something else. -/
def sampleForm : Node :=
  .element "form" [] [
    .element "input" [("name", "size"), ("value", "s")] [],
    .element "input" [("type", "Checkbox"), ("name", "size")] [],
    .element "p" [] [.element "textarea" [("name", "size")] [.text "s" false]],
    .element "select" [("name", "size")] [
      .element "option" [("selected", "selected")] [.text "s" false],
      .element "option" [("value", "m")] [.text "medium" false]],
    .element "input" [("name", "color"), ("value", "m")] []]

/-- The size of the sample is set to one that it does not have. -/
theorem setField_reads_back_sample :
    ∃ w V form V', Shows w V ∧ V.Represents form sampleForm.tree ∧
      Does Env.silent w V (setField (.object form) (.text "size") (.text "m")) () V' ∧
      (∃ x, V.IsField form "size" x) ∧ V.SetsControls "m" (V.IsField form "size") V' := by
  obtain ⟨w, V, form, hs, hm, hrep⟩ := exists_planted sampleForm
  have helement : V.HasTag "form" form := hrep.1
  have hflat : V.HasFlatControls form := hrep.hasFlatControls hm.toIsForest (by decide)
  obtain ⟨x, _, hx, _⟩ := isField_first hm hrep (.inl rfl) "size" (by decide)
  obtain ⟨V', hdoes, _, hset, _⟩ := setField_reads_back Env.silent hs hm helement.isElement
    (hrep.holdsTexts hm.toIsForest) hflat "size" "m"
  exact ⟨w, V, form, V', hs, hrep, hdoes, ⟨x, hx⟩, hset ⟨x, hx⟩⟩

/-- A form with a textarea that has an element without text for its content. -/
def sampleDraft : Node :=
  .element "form" [] [.element "textarea" [("name", "a")] [.element "b" [] []]]

/-- A textarea that reads a value already gets a new text when it is set to that value, and loses
what was in it. -/
theorem setField_replaces_content :
    ∃ w V form x b V', Shows w V ∧ V.IsMarkup ∧ V.Represents form sampleDraft.tree ∧
      V.HasFlatControls form ∧ V.IsField form "a" x ∧ V.Reads x [] ∧ V.parent b = some x ∧
      Does Env.silent w V (setField (.object form) (.text "a") (.text [])) () V' ∧
      V'.parent b = none ∧ ∃ n, V.core n = none ∧ V'.Known n ∧ V'.Above form n := by
  obtain ⟨w, V, form, hs, hm, hrep⟩ := exists_planted sampleDraft
  have hf := hm.toIsForest
  have hflat : V.HasFlatControls form := hrep.hasFlatControls hf (by decide)
  obtain ⟨x, hpx, hx, hxrep⟩ := isField_first hm hrep (.inr (.inl rfl)) "a" (by decide)
  have harea : V.HasTag "textarea" x := hxrep.1
  obtain ⟨b, rest, hch, hb, hrest⟩ := hxrep.2.2
  rw [representsAll_nil.1 hrest] at hch
  have hpb : V.parent b = some x := (hf.mem_children x b).1 (by rw [hch]; exact List.mem_cons_self)
  have hreads : V.Reads x [] := by
    refine ⟨fun _ => ⟨[x, b], ?_, ?_⟩, fun h => ?_, fun h => ?_, fun h => ?_⟩
    · rw [preorder_singleton, hch, preorder_singleton, representsAll_nil.1 hb.2.2]
      exact .nil
    · simp [ownText, hb.1, show V.core x = _ from harea]
    · exact absurd (harea.unique h) (by decide)
    · exact absurd (harea.unique h) (by decide)
    · exact absurd (harea.unique h) (by decide)
  obtain ⟨V', hdoes, hm', hset, _⟩ := does_setField_some Env.silent hs hm ⟨_, hrep.1, rfl⟩
    (hrep.holdsTexts hf) hflat [] hx
  obtain ⟨n, hnew, hnch, hn⟩ := hset.refilled x hx harea
  have hpn : V'.parent n = some x :=
    (hm'.mem_children x n).1 (by rw [hnch]; exact List.mem_singleton_self n)
  have hpx' : V'.parent x = some form := by
    rw [hset.parent x ⟨_, harea⟩ fun y hy _ hm => ?_, hpx]
    -- The only textarea is no child of itself.
    have hpy := (hf.mem_children y x).1 hm
    rw [hpx] at hpy
    cases hpy
    exact hf.acyclic form hy.below
  exact ⟨w, V, form, x, b, V', hs, hm, hrep, hflat, hx, hreads, hpb, hdoes,
    hset.removed x hx harea b (by rw [hch]; exact List.mem_cons_self), n, hnew, ⟨_, hn.1⟩,
    .head hpn (.single hpx')⟩

end Form

end PageTemplate
