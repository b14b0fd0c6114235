import PageTemplate.Proofs.Form.Controls
import PageTemplate.Proofs.Form.Marks
import PageTemplate.Proofs.Template.Fields

/-!
# PageTemplate.Proofs.Form.Setting

What setting controls makes of a tree. A control is set in the nodes that it consists of: in one
attribute, in one attribute of its options, or by a new text in the place of its content. So what
was set before still reads the value, what is set later is still what it was, and one control after
another amounts to all of them.
-/

namespace PageTemplate

namespace View

variable {V V1 V' : View} {x y z p n : ObjectId} {v k name : Text}

/-! Attributes. -/

/-- Whether an element has the attributes that it had, in their order, but for one of them. -/
def SameBut (V : View) (k : Text) (x : ObjectId) (V' : View) : Prop :=
  ∃ attributes attributes', (V.attributes x).live = Markup.values attributes ∧
    (V'.attributes x).live = Markup.values attributes' ∧
    Assoc.erase k attributes' = Assoc.erase k attributes

theorem SameBut.attribute? (h : V.SameBut k x V') (hne : name ≠ k) :
    V'.attribute? x name = V.attribute? x name := by
  obtain ⟨attributes, attributes', ha, ha', he⟩ := h
  rw [attribute?_eq ha', attribute?_eq ha, Assoc.find?_eq_of_erase_eq he hne]

theorem SameBut.congr (h : V.SameBut k x V') {W W' : View} (hW : W.attributes x = V.attributes x)
    (hW' : W'.attributes x = V'.attributes x) : W.SameBut k x W' := by
  rw [SameBut, hW, hW']
  exact h

theorem attribute?_setAttributes {entries : Entries} {attributes : Markup.Attributes}
    (hl : entries.live = Markup.values attributes) (name : Text) :
    (V.setAttributes x entries).attribute? x name = Assoc.find? name attributes :=
  attribute?_eq (by rw [setAttributes_attributes, hl]) name

theorem sameBut_setAttributes {entries : Entries} {attributes attributes' : Markup.Attributes}
    (ha : (V.attributes x).live = Markup.values attributes)
    (hl : entries.live = Markup.values attributes')
    (hother : Assoc.erase k attributes' = Assoc.erase k attributes) :
    V.SameBut k x (V.setAttributes x entries) :=
  ⟨attributes, attributes', ha, by rw [setAttributes_attributes, hl], hother⟩

theorem sameLinks_setAttributes (V : View) (x : ObjectId) (entries : Entries) :
    V.SameLinks [x] (V.setAttributes x entries) := by
  refine ⟨rfl, rfl, rfl, fun z hz => ?_⟩
  rw [List.mem_singleton] at hz
  simp [setAttributes, hz]

/-! A new last child. -/

/-- What a view is after a node got a new child behind the others. -/
structure Appended (V : View) (p n : ObjectId) (V' : View) : Prop where
  fresh : V.core n = none
  last : V'.children p = V.children p ++ [n]
  core : ∀ z, z ≠ n → V'.core z = V.core z
  attributes : ∀ z, z ≠ n → V'.attributes z = V.attributes z
  parent : ∀ z, z ≠ n → V'.parent z = V.parent z
  children : ∀ z, z ≠ n → z ≠ p → V'.children z = V.children z

theorem Appended.ne (h : V.Appended p n V') (hz : V.Known z) : z ≠ n := by
  rintro rfl
  obtain ⟨core, hcore⟩ := hz
  exact nomatch hcore.symm.trans h.fresh

theorem appended_append (hnew : V.core n = none) (hp : V.Known p) {core : NodeCore}
    (hi : core.isInner) (entries : Entries) :
    V.Appended p n ((V.add n core entries).append p n) ∧
      ((V.add n core entries).append p n).core n = some core ∧
      ((V.add n core entries).append p n).children n = [] ∧
      ((V.add n core entries).append p n).attributes n = entries := by
  have hpn : p ≠ n := by
    rintro rfl
    obtain ⟨pcore, hpc⟩ := hp
    rw [hnew] at hpc
    cases hpc
  rw [append_root (by simp [add]) ⟨core, by simp [add], hi⟩]
  refine ⟨⟨hnew, ?_, ?_, ?_, ?_, ?_⟩, ?_, ?_, ?_⟩
  · simp [insert_children, add, hpn]
  · intro z hz
    simp [add, hz]
  · intro z hz
    simp [insert, setChildren, setParents, add, hz]
  · intro z hz
    simp [insert_parent, add, hz]
  · intro z hz hzp
    simp [insert_children, add, hz, hzp]
  · simp [add]
  · simp [insert_children, add, hpn.symm]
  · simp [insert, setChildren, setParents, add]

/-- Markup stays markup when the new child is. -/
theorem IsMarkup.appended (h : V.IsMarkup) (hg : V'.IsRegular) (ha : V.Appended p n V')
    (hn : ∀ tag, V'.core n = some (.element tag) →
      ∃ attributes, (V'.attributes n).live = Markup.values attributes) : V'.IsMarkup := by
  refine ⟨hg, fun e tag he => ?_⟩
  by_cases hen : e = n
  · exact hen ▸ hn tag (hen ▸ he)
  · rw [ha.core e hen] at he
    rw [ha.attributes e hen]
    exact h.attributes e tag he

/-! Old nodes. -/

/-- Whether old nodes have no new parents. -/
def KeepsParents (V V' : View) : Prop :=
  ∀ z p, V.Known z → V'.parent z = some p → V.parent z = some p

theorem KeepsParents.above (h : V.KeepsParents V') (hf : V.IsForest) (hz : V.Known z)
    (ha : V'.Above p z) : V.Above p z := by
  induction ha using Relation.TransGen.head_induction_on with
  | single hp => exact .single (h _ _ hz hp)
  | head hp _ ih =>
    have hp1 := h _ _ hz hp
    obtain ⟨core, hcore, _⟩ := hf.container _ _ hp1
    exact .head hp1 (ih ⟨core, hcore⟩)

theorem Appended.keepsParents (h : V.Appended p n V') : V.KeepsParents V' := by
  intro z q hz hq
  rw [← h.parent z (h.ne hz), hq]

/-! Controls that were set. -/

/-- What setting some controls to a value makes of a view. -/
structure SetsControls (V : View) (v : Text) (F : ObjectId → Prop) (V' : View) : Prop where
  reads : ∀ x, F x → V'.Reads x v
  core : ∀ z, V.Known z → V'.core z = V.core z
  attributes : ∀ z, V.Known z → (∀ x k, F x → ¬ V.Concerns x z k) →
    V'.attributes z = V.attributes z
  sameBut : ∀ x z k, F x → V.Concerns x z k → V.SameBut k z V'
  children : ∀ z, V.Known z → ¬ (F z ∧ V.HasTag "textarea" z) → V'.children z = V.children z
  parent : ∀ z, V.Known z → (∀ x, F x → V.HasTag "textarea" x → z ∉ V.children x) →
    V'.parent z = V.parent z
  /-- What was right in a textarea is taken out of it. -/
  removed : ∀ x, F x → V.HasTag "textarea" x → ∀ c ∈ V.children x, V'.parent c = none
  refilled : ∀ x, F x → V.HasTag "textarea" x → ∃ n, V.core n = none ∧ V'.children x = [n] ∧
    V'.Represents n (Markup.Node.text v false).tree
  /-- There are no other new nodes than these texts. -/
  added : ∀ z, V.core z = none → V'.Known z → ∃ x, F x ∧ V.HasTag "textarea" x ∧
    z ∈ V'.children x

namespace SetsControls

variable {F : ObjectId → Prop}

theorem known (h : V.SetsControls v F V') (hz : V.Known z) : V'.Known z := by
  obtain ⟨core, hcore⟩ := hz
  exact ⟨core, (h.core z ⟨core, hcore⟩).trans hcore⟩

theorem keepsParents (h : V.SetsControls v F V') : V.KeepsParents V' := by
  intro z p hz hp
  rw [← h.parent z hz fun x hx htag hm => ?_, hp]
  rw [h.removed x hx htag z hm] at hp
  cases hp

theorem above_back (hf : V.IsForest) (h : V.SetsControls v F V') (hz : V.Known z)
    (ha : V'.Above p z) : V.Above p z :=
  h.keepsParents.above hf hz ha

theorem holdsTexts (hf : V.IsForest) (h : V.SetsControls v F V') (hx : V.HoldsTexts x) :
    V'.HoldsTexts x := by
  intro z hz value raw hcore
  cases hold : V.core z with
  | some core =>
    have hk : V.Known z := ⟨core, hold⟩
    rw [h.core z hk] at hcore
    exact hx z (hz.imp_right (h.above_back hf hk)) value raw hcore
  | none =>
    obtain ⟨y, hy, htag, hm⟩ := h.added z hold ⟨_, hcore⟩
    obtain ⟨n, _, hch, hn⟩ := h.refilled y hy htag
    rw [hch, List.mem_singleton] at hm
    rw [hm] at hcore
    cases hcore.symm.trans hn.1
    exact ⟨v, rfl⟩

theorem nil (V : View) (v : Text) : V.SetsControls v (· ∈ []) V where
  reads x hx := by cases hx
  core _ _ := rfl
  attributes _ _ _ := rfl
  sameBut _ _ _ hx := by cases hx
  children _ _ _ := rfl
  parent _ _ _ := rfl
  removed _ hx := by cases hx
  refilled _ hx := by cases hx
  added z hz hk := by
    obtain ⟨core, hcore⟩ := hk
    rw [hz] at hcore
    cases hcore

/-- A control that is set by its attributes, or by those of its options. -/
theorem of_sameLinks {ids : List ObjectId} (hsame : V.SameLinks ids V')
    (hx : ¬ V.HasTag "textarea" x) (hids : ∀ z ∈ ids, ∃ k, V.Concerns x z k)
    (hbut : ∀ z k, V.Concerns x z k → V.SameBut k z V') (hreads : V'.Reads x v) :
    V.SetsControls v (· = x) V' where
  reads y hy := hy ▸ hreads
  core z _ := congrFun hsame.core z
  attributes z _ hz := hsame.attributes z fun hm => by
    obtain ⟨k, hk⟩ := hids z hm
    exact hz x k rfl hk
  sameBut y z k hy hk := hbut z k (hy ▸ hk)
  children z _ _ := congrFun hsame.children z
  parent z _ _ := congrFun hsame.parent z
  removed y hy htag := absurd (hy ▸ htag) hx
  refilled y hy htag := absurd (hy ▸ htag) hx
  added z hz hk := by
    obtain ⟨core, hcore⟩ := hk
    rw [hsame.core, hz] at hcore
    cases hcore

/-- A textarea that is set by a new text in the place of its content. -/
theorem of_refilled (hf : V.IsForest) (hx : V.HasTag "textarea" x)
    (h : (V.takeChildren x).Appended x n V')
    (hn : V'.core n = some (.text (.text v) (.bool false))) (hnch : V'.children n = []) :
    V.SetsControls v (· = x) V' := by
  have hknown : ∀ {z}, V.Known z → z ≠ n := fun hz => h.ne hz
  have hxn : x ≠ n := hknown ⟨_, hx⟩
  have hch : V'.children x = [n] := by
    rw [h.last, takeChildren_children, if_pos rfl, List.nil_append]
  have hxcore : V'.core x = some (.element (.text "textarea")) := (h.core x hxn).trans hx
  have htext : V'.HasText x v := by
    refine ⟨[x, n], preorder_singleton.2 ?_, ?_⟩
    · rw [hch]
      refine preorder_singleton.2 ?_
      rw [hnch]
      exact .nil
    · simp [ownText, hxcore, hn]
  constructor
  · rintro y rfl
    refine ⟨fun _ => htext, fun hin => ?_, fun hin => ?_, fun hsel => ?_⟩
    · exact absurd (hin.unique hxcore) (by decide)
    · exact absurd (hin.unique hxcore) (by decide)
    · exact absurd (hsel.unique hxcore) (by decide)
  · exact fun z hz => h.core z (hknown hz)
  · exact fun z hz _ => h.attributes z (hknown hz)
  · rintro y z k rfl hk
    exact absurd hx hk.not_textarea
  · intro z hz hzx
    have hne : z ≠ x := fun he => hzx ⟨he, he ▸ hx⟩
    rw [h.children z (hknown hz) hne, takeChildren_children, if_neg hne]
  · intro z hz hzx
    rw [h.parent z (hknown hz), takeChildren_parent, if_neg (hzx x rfl hx)]
  · rintro y rfl _ c hc
    rw [h.parent c (hknown (Tree.child_core hf c hc)), takeChildren_parent, if_pos hc]
  · rintro y rfl _
    exact ⟨n, h.fresh, hch, hn, rfl⟩
  · rintro z hz ⟨core, hcore⟩
    by_cases hzn : z = n
    · exact ⟨x, rfl, hx, by rw [hch, hzn]; exact List.mem_singleton_self n⟩
    · rw [h.core z hzn] at hcore
      cases hcore.symm.trans hz

end SetsControls

/-- Controls of which none is a descendant of another one that has a content. -/
structure Settable (V : View) (xs : List ObjectId) : Prop where
  control : ∀ x ∈ xs, V.IsControl x
  texts : ∀ x ∈ xs, V.HoldsTexts x
  apart : ∀ x ∈ xs, V.HasContent x → ∀ y ∈ xs, ¬ V.Above x y

namespace Settable

variable {xs : List ObjectId}

theorem known (h : V.Settable xs) (hx : x ∈ xs) : V.Known x := by
  obtain ⟨tag, htag⟩ := (h.control x hx).exists_tag
  exact ⟨_, htag⟩

theorem mono {ys : List ObjectId} (h : V.Settable ys) (hsub : xs ⊆ ys) : V.Settable xs where
  control x hx := h.control x (hsub hx)
  texts x hx := h.texts x (hsub hx)
  apart x hx hc y hy := h.apart x (hsub hx) hc y (hsub hy)

theorem disjoint (h : V.Settable xs) (hx : x ∈ xs) (hy : y ∈ xs) (hne : x ≠ y)
    (hz : V.Owns x z) : ¬ V.Owns y z :=
  hz.disjoint hne (fun hc => h.apart x hx hc y hy) fun hc => h.apart y hy hc x hx

/-- Controls can still be set after others were. -/
theorem after {F : ObjectId → Prop} (hf : V.IsForest) (h : V.Settable xs)
    (hset : V.SetsControls v F V') : V'.Settable xs where
  control x hx := (isControl_congr (hset.core x (h.known hx))).2 (h.control x hx)
  texts x hx := hset.holdsTexts hf (h.texts x hx)
  apart x hx hc y hy ha := by
    rw [hasContent_congr (hset.core x (h.known hx))] at hc
    exact h.apart x hx hc y hy (hset.above_back hf (h.known hy) ha)

end Settable

namespace SetsControls

variable {xs : List ObjectId}

/-- What lies below other controls still does. -/
theorem above_iff (hf : V.IsForest) (h : V.SetsControls v (· = x) V') (hs : V.Settable (x :: xs))
    (hx : x ∉ xs) (hy : y ∈ xs) (hc : V.HasContent y) (hz : V.Known z) :
    V'.Above y z ↔ V.Above y z := by
  refine ⟨h.above_back hf hz, fun ha => ?_⟩
  have hm := List.mem_cons_of_mem x hy
  -- The way up from below `y` does not leave `x`, which is not below `y`.
  have hstep : ∀ {c q}, V.parent c = some q → V.Within y q → V'.parent c = some q := by
    intro c q hq hw
    obtain ⟨core, hcore, _⟩ := hf.inner c q hq
    rw [h.parent c ⟨core, hcore⟩ fun x' hx' _ hcx => ?_, hq]
    have hxq := (hf.mem_children x' c).1 hcx
    rw [hx', hq] at hxq
    cases hxq
    rcases hw with rfl | hw
    · exact hx hy
    · exact hs.apart y hm hc x List.mem_cons_self hw
  induction ha using Relation.TransGen.head_induction_on with
  | single hp => exact .single (hstep hp (.inl rfl))
  | head hp hup ih =>
    obtain ⟨core, hcore, _⟩ := hf.container _ _ hp
    exact .head (hstep hp (.inr hup)) (ih ⟨core, hcore⟩)

/-- Other controls are set in the places that they would have been set in before. -/
theorem concerns_iff (hf : V.IsForest) (h : V.SetsControls v (· = x) V')
    (hs : V.Settable (x :: xs)) (hx : x ∉ xs) (hy : y ∈ xs) (hz : V.Known z) :
    V'.Concerns y z k ↔ V.Concerns y z k := by
  have hm := List.mem_cons_of_mem x hy
  have hne : x ≠ y := fun he => hx (he ▸ hy)
  have hyk := hs.known hm
  have hbox : V'.IsBox y ↔ V.IsBox y := by
    refine isBox_congr (attribute?_congr (h.attributes y hyk fun x' k hx' hk => ?_) _)
    exact hs.disjoint List.mem_cons_self hm hne (hx' ▸ hk.owns) (.inl rfl)
  have htag : ∀ {t}, V'.HasTag t y ↔ V.HasTag t y := hasTag_congr (h.core y hyk)
  constructor
  · rintro (⟨hin, hb⟩ | ⟨hin, hb⟩ | ⟨hsel, ha, ho⟩)
    · exact .value (htag.1 hin) (mt hbox.2 hb)
    · exact .checked (htag.1 hin) (hbox.1 hb)
    · exact .selected (htag.1 hsel) (h.above_back hf hz ha)
        ((hasTag_congr (h.core z hz)).1 ho)
  · rintro (⟨hin, hb⟩ | ⟨hin, hb⟩ | ⟨hsel, ha, ho⟩)
    · exact .value (htag.2 hin) (mt hbox.1 hb)
    · exact .checked (htag.2 hin) (hbox.2 hb)
    · exact .selected (htag.2 hsel) ((h.above_iff hf hs hx hy (.inr hsel) hz).2 ha)
        ((hasTag_congr (h.core z hz)).2 ho)

/-! One control before others. -/

section

variable (hf : V.IsForest) (hs : V.Settable (x :: xs)) (hx : x ∉ xs)
  (h1 : V.SetsControls v (· = x) V1) (h2 : V1.SetsControls v (· ∈ xs) V')

include hf hs hx h1 h2

/-- The first control still reads the value when others were set. -/
theorem cons_reads (hf1 : V1.IsForest) (hf' : V'.IsForest) : V'.Reads x v := by
  have hs1 := hs.after hf h1
  refine (h1.reads x rfl).congr hf1 hf' fun z hz => ?_
  have hzk : V1.Known z := hz.known hf1 (hs1.known List.mem_cons_self)
  have hfree : ∀ y ∈ xs, ¬ V1.Owns y z := fun y hy =>
    hs1.disjoint List.mem_cons_self (List.mem_cons_of_mem x hy) (fun he => hx (he ▸ hy)) hz
  refine ⟨h2.core z hzk, h2.children z hzk fun hzx => ?_, h2.attributes z hzk fun y k hy hk => ?_⟩
  · exact hfree z hzx.1 (.inl rfl)
  · exact hfree y hy hk.owns

theorem cons_attributes (hz : V.Known z) (hfree : ∀ y k, y ∈ x :: xs → ¬ V.Concerns y z k) :
    V'.attributes z = V.attributes z := by
  rw [h2.attributes z (h1.known hz) fun y k hy hk => ?_, h1.attributes z hz fun y k hy => ?_]
  · exact hfree y k (hy ▸ List.mem_cons_self)
  · exact hfree y k (List.mem_cons_of_mem x hy) ((h1.concerns_iff hf hs hx hy hz).1 hk)

/-- An attribute that one control is about is an attribute that no other one is about. -/
theorem cons_sameBut (hy : y ∈ x :: xs) (hk : V.Concerns y z k) : V.SameBut k z V' := by
  have hz : V.Known z := hk.owns.known hf (hs.known hy)
  have hne : ∀ {y}, y ∈ xs → x ≠ y := fun hy he => hx (he ▸ hy)
  rcases List.mem_cons.1 hy with rfl | hy
  · refine (h1.sameBut y z k rfl hk).congr rfl (h2.attributes z (h1.known hz) ?_)
    intro y' k' hy' hk'
    rw [h1.concerns_iff hf hs hx hy' hz] at hk'
    exact hs.disjoint List.mem_cons_self (List.mem_cons_of_mem y hy') (hne hy') hk.owns hk'.owns
  · refine (h2.sameBut y z k hy ((h1.concerns_iff hf hs hx hy hz).2 hk)).congr ?_ rfl
    refine (h1.attributes z hz fun x' k' hx' hk' => ?_).symm
    exact hs.disjoint List.mem_cons_self (List.mem_cons_of_mem x hy) (hne hy)
      (hx' ▸ hk'.owns) hk.owns

omit hf h2 in
theorem cons_textarea (hy : y ∈ xs) :
    (V1.HasTag "textarea" y ↔ V.HasTag "textarea" y) ∧ V1.children y = V.children y := by
  have hyk := hs.known (List.mem_cons_of_mem x hy)
  exact ⟨hasTag_congr (h1.core y hyk), h1.children y hyk fun hyx => hx (hyx.1 ▸ hy)⟩

omit hf in
theorem cons_parent (hz : V.Known z)
    (hout : ∀ y ∈ x :: xs, V.HasTag "textarea" y → z ∉ V.children y) :
    V'.parent z = V.parent z := by
  rw [h2.parent z (h1.known hz) fun y hy hty => ?_, h1.parent z hz fun y hy hty => ?_]
  · exact hout y (hy ▸ List.mem_cons_self) hty
  · obtain ⟨htag, hch⟩ := cons_textarea hs hx h1 hy
    rw [hch]
    exact hout y (List.mem_cons_of_mem x hy) (htag.1 hty)

theorem cons_removed (hf1 : V1.IsForest) (hy : y ∈ x :: xs) (hty : V.HasTag "textarea" y)
    {c : ObjectId} (hc : c ∈ V.children y) : V'.parent c = none := by
  rcases List.mem_cons.1 hy with rfl | hy
  · have hnone := h1.removed y rfl hty c hc
    rw [h2.parent c (h1.known (Tree.child_core hf c hc)) fun y' hy' _ hm => ?_, hnone]
    rw [(hf1.mem_children y' c).1 hm] at hnone
    cases hnone
  · obtain ⟨htag, hch⟩ := cons_textarea hs hx h1 hy
    exact h2.removed y hy (htag.2 hty) c (by rwa [hch])

omit hf in
theorem cons_refilled (hy : y ∈ x :: xs) (hty : V.HasTag "textarea" y) :
    ∃ n, V.core n = none ∧ V'.children y = [n] ∧
      V'.Represents n (Markup.Node.text v false).tree := by
  rcases List.mem_cons.1 hy with rfl | hy
  · obtain ⟨n, hnew, hch, hn⟩ := h1.refilled y rfl hty
    refine ⟨n, hnew, ?_, (h2.core n ⟨_, hn.1⟩).trans hn.1, rfl⟩
    rw [h2.children y (h1.known (hs.known List.mem_cons_self)) fun hm => hx hm.1, hch]
  · obtain ⟨n, hnew, hch, hn⟩ := h2.refilled y hy ((cons_textarea hs hx h1 hy).1.2 hty)
    refine ⟨n, ?_, hch, hn⟩
    cases hold : V.core n with
    | none => rfl
    | some core => exact nomatch ((h1.core n ⟨core, hold⟩).trans hold).symm.trans hnew

omit hf in
theorem cons_added (hz : V.core z = none) (hk : V'.Known z) :
    ∃ y ∈ x :: xs, V.HasTag "textarea" y ∧ z ∈ V'.children y := by
  cases hmid : V1.core z with
  | none =>
    obtain ⟨y, hy, hty, hm⟩ := h2.added z hmid hk
    exact ⟨y, List.mem_cons_of_mem x hy, (cons_textarea hs hx h1 hy).1.1 hty, hm⟩
  | some core =>
    obtain ⟨y, rfl, hty, hm⟩ := h1.added z hz ⟨core, hmid⟩
    refine ⟨y, List.mem_cons_self, hty, ?_⟩
    rwa [h2.children y (h1.known (hs.known List.mem_cons_self)) fun hm => hx hm.1]

/-- Setting one control and then others sets all of them. -/
theorem cons (hf1 : V1.IsForest) (hf' : V'.IsForest) : V.SetsControls v (· ∈ x :: xs) V' where
  reads y hy := by
    rcases List.mem_cons.1 hy with rfl | hy
    · exact cons_reads hf hs hx h1 h2 hf1 hf'
    · exact h2.reads y hy
  core z hz := by rw [h2.core z (h1.known hz), h1.core z hz]
  attributes _ hz hfree := cons_attributes hf hs hx h1 h2 hz hfree
  sameBut _ _ _ hy hk := cons_sameBut hf hs hx h1 h2 hy hk
  children z hz hzx := by
    have htag : V1.HasTag "textarea" z ↔ V.HasTag "textarea" z := hasTag_congr (h1.core z hz)
    rw [h2.children z (h1.known hz) fun hm => hzx ⟨List.mem_cons_of_mem x hm.1, htag.1 hm.2⟩,
      h1.children z hz fun he => hzx ⟨List.mem_cons.2 (.inl he.1), he.2⟩]
  parent _ hz hout := cons_parent hs hx h1 h2 hz hout
  removed _ hy hty _ hc := cons_removed hf hs hx h1 h2 hf1 hy hty hc
  refilled _ hy hty := cons_refilled hs hx h1 h2 hy hty
  added _ hz hk := cons_added hs hx h1 h2 hz hk

end

end SetsControls

/-! What exactly becomes of attributes. -/

/-- What setting a control makes of the attributes of a node that it consists of, which is an input
or an option of a menu. -/
inductive Becomes (V : View) (v : Text) (x : ObjectId) :
    ObjectId → Markup.Attributes → Markup.Attributes → Prop where
  | input {a : Markup.Attributes} : V.HasTag "input" x → Becomes V v x x a (Markup.entered a v)
  | option {o : ObjectId} {a : Markup.Attributes} {on : Bool} : V.HasTag "select" x →
    V.Above x o → V.HasTag "option" o → (on = true ↔ V.StandsFor o v) →
    Becomes V v x o a (Markup.markAttribute "selected" on a)

/-- Whether the attributes are exactly what setting some controls makes of them. -/
def Rewrites (V : View) (v : Text) (F : ObjectId → Prop) (V' : View) : Prop :=
  ∀ x z a a', F x → V.Becomes v x z a a' → (V.attributes z).live = Markup.values a →
    (V'.attributes z).live = Markup.values a'

theorem isBox_iff {a : Markup.Attributes} (ha : (V.attributes x).live = Markup.values a) :
    V.IsBox x ↔ Markup.isBox a = true := by
  rw [IsBox, attribute?_eq ha, Markup.isBox, Bool.or_eq_true, beq_iff_eq, beq_iff_eq]

theorem Becomes.owns {a a' : Markup.Attributes} (h : V.Becomes v x z a a') : V.Owns x z := by
  cases h with
  | input => exact .inl rfl
  | option hx ha => exact .inr ⟨.inr hx, ha⟩

namespace Rewrites

theorem nil (V V' : View) (v : Text) : V.Rewrites v (· ∈ []) V' := fun _ _ _ _ hx => nomatch hx

/-- Textareas have no attributes that setting them changes. -/
theorem of_textarea (hx : V.HasTag "textarea" x) : V.Rewrites v (· = x) V' := by
  rintro _ z a a' rfl (hin | ⟨hsel, _⟩) _
  · exact absurd (hx.unique hin) (by decide)
  · exact absurd (hx.unique hsel) (by decide)

/-- Setting one control and then others. -/
theorem cons {xs : List ObjectId} (hf : V.IsForest) (hf1 : V1.IsForest)
    (hs : V.Settable (x :: xs)) (hx : x ∉ xs) (h1 : V.SetsControls v (· = x) V1)
    (h2 : V1.SetsControls v (· ∈ xs) V') (r1 : V.Rewrites v (· = x) V1)
    (r2 : V1.Rewrites v (· ∈ xs) V') : V.Rewrites v (· ∈ x :: xs) V' := by
  intro y z a a' hy hb ha
  have hz : V.Known z := hb.owns.known hf (hs.known hy)
  rcases List.mem_cons.1 hy with rfl | hxs
  · -- What was set first is not touched when others are set.
    rw [h2.attributes z (h1.known hz) fun y' k hy' hk => ?_]
    · exact r1 y z a a' rfl hb ha
    · rw [h1.concerns_iff hf hs hx hy' hz] at hk
      exact hs.disjoint hy (List.mem_cons_of_mem y hy') (fun he => hx (he ▸ hy')) hb.owns hk.owns
  · have hne : y ≠ x := fun he => hx (he ▸ hxs)
    have hapart : ∀ z, V.Owns y z → ¬ V.Owns x z := fun z =>
      hs.disjoint (List.mem_cons_of_mem x hxs) List.mem_cons_self hne
    have hold : V1.attributes z = V.attributes z := h1.attributes z hz fun x' k hx' hk =>
      hapart z hb.owns (hx' ▸ hk.owns)
    refine r2 y z a a' hxs ?_ (by rw [hold, ha])
    cases hb with
    | input hin => exact .input ((hasTag_congr (h1.core y hz)).2 hin)
    | option hsel ho htag hon =>
      have hyk := hs.known hy
      have hsame : V1.StandsFor z v ↔ V.StandsFor z v := by
        refine standsFor_congr hf hf1 (attribute?_congr hold _) fun u hu => ?_
        have hown : V.Owns y u := .inr ⟨.inr hsel, by
          rcases hu with rfl | hu
          · exact ho
          · exact Relation.TransGen.trans hu ho⟩
        have huk := hown.known hf hyk
        exact ⟨h1.core u huk, h1.children u huk fun hux => hapart u hown (.inl hux.1)⟩
      exact .option ((hasTag_congr (h1.core y hyk)).2 hsel)
        ((h1.above_iff hf hs hx hxs (.inr hsel) hz).2 ho) ((hasTag_congr (h1.core z hz)).2 htag)
        (hon.trans hsame.symm)

end Rewrites

end View

end PageTemplate
