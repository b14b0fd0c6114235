import PageTemplate.Proofs.Markup.Stretches
import PageTemplate.Proofs.Page.Unwrap
import PageTemplate.Proofs.Tree.Serialize

/-!
# PageTemplate.Proofs.Page.Unwrapped

What unwrapping leaves of a document. The elements that are to be unwrapped are listed before the
first one is, and unwrapping one moves others that are in it. But what it comes to does not depend
on where they are: the element drops out of the document order and from above its content, its tags
drop out of the text, and nothing else changes. Since this holds of every element with a parent,
and all others keep one, it can be said of the whole list at once.
-/

namespace PageTemplate

open Markup (Node Stretch stretchesOf withoutTags writeStretches)

namespace View

variable {V V1 V' : View} {t f : ObjectId} {tag : Text}

/-- What stands where a node stood, once an element has made way for its children. -/
def standIn (V : View) (t c : ObjectId) : List ObjectId := if c = t then V.children t else [c]

@[simp] theorem standIn_self : V.standIn t t = V.children t := if_pos rfl

theorem standIn_other {c : ObjectId} (h : c ≠ t) : V.standIn t c = [c] := if_neg h

theorem flatMap_standIn_children (hf : V.IsForest) :
    (V.children t).flatMap (V.standIn t) = V.children t :=
  flatMap_keep (self_not_mem hf)

theorem IsForest.known (hf : V.IsForest) {c p : ObjectId} (hc : c ∈ V.children p) : V.Known c :=
  Tree.child_core hf c hc

namespace Unwraps

theorem children_other (h : V.Unwraps t f V') {x : ObjectId} (hx : V.Known x) (hxt : x ≠ t) :
    V'.children x = (V.children x).flatMap (V.standIn t) :=
  (h.children x (h.ne_fresh hx)).trans (if_neg hxt)

/-- What lies above a node still does, and nothing else does. -/
theorem above_of_above (hf : V.IsForest) (h : V.Unwraps t f V') {x a : ObjectId} (hat : a ≠ t)
    (ha : V.Above a x) :
    if x = t then ∀ c ∈ V.children t, V'.Above a c else V'.Above a x := by
  induction ha using Relation.TransGen.head_induction_on with
  | @single x hp =>
    obtain ⟨xcore, hx, _⟩ := hf.inner x a hp
    split
    · rename_i hxt
      intro c hc
      have hct : c ≠ t := hf.ne_of_parent ((hf.mem_children t c).1 hc)
      refine .single ?_
      rw [h.parent_other (hf.known hc) hct, if_pos hc, ← hxt, hp]
    · rename_i hxt
      have hnot : x ∉ V.children t := fun hm => by
        cases hp.symm.trans ((hf.mem_children t x).1 hm)
        exact hat rfl
      refine .single ?_
      rw [h.parent_other ⟨xcore, hx⟩ hxt, if_neg hnot, hp]
  | @head x y hp _ ih =>
    obtain ⟨xcore, hx, _⟩ := hf.inner x y hp
    split
    · rename_i hxt
      have hyt : y ≠ t := fun hyt => hf.ne_of_parent hp (hxt.trans hyt.symm)
      rw [if_neg hyt] at ih
      intro c hc
      have hct : c ≠ t := hf.ne_of_parent ((hf.mem_children t c).1 hc)
      refine .head ?_ ih
      rw [h.parent_other (hf.known hc) hct, if_pos hc, ← hxt, hp]
    · rename_i hxt
      by_cases hyt : y = t
      · rw [if_pos hyt] at ih
        exact ih x ((hf.mem_children t x).2 (hyt ▸ hp))
      · rw [if_neg hyt] at ih
        have hnot : x ∉ V.children t := fun hm => hyt (by
          cases hp.symm.trans ((hf.mem_children t x).1 hm)
          rfl)
        refine .head ?_ ih
        rw [h.parent_other ⟨xcore, hx⟩ hxt, if_neg hnot, hp]

theorem above_iff (hf : V.IsForest) (h : V.Unwraps t f V') {x a : ObjectId} (hx : V.Known x)
    (hxt : x ≠ t) (hat : a ≠ t) : V'.Above a x ↔ V.Above a x := by
  constructor
  · intro ha
    -- A step up is one step up in the old tree, or two steps past the element.
    have hstep : ∀ {x y : ObjectId}, V.Known x → x ≠ t → V'.parent x = some y →
        V.Above y x ∧ V.Known y ∧ y ≠ t := by
      intro x y hx hxt hp
      rw [h.parent_other hx hxt] at hp
      split at hp
      · rename_i hc
        obtain ⟨core, hcore, _⟩ := hf.container t y hp
        exact ⟨.head ((hf.mem_children t x).1 hc) (.single hp), ⟨core, hcore⟩,
          (hf.ne_of_parent hp).symm⟩
      · rename_i hc
        obtain ⟨core, hcore, _⟩ := hf.container x y hp
        refine ⟨.single hp, ⟨core, hcore⟩, ?_⟩
        rintro rfl
        exact hc ((hf.mem_children y x).2 hp)
    induction ha using Relation.TransGen.head_induction_on with
    | single hp => exact (hstep hx hxt hp).1
    | head hp _ ih =>
      obtain ⟨hup, hy, hyt⟩ := hstep hx hxt hp
      exact Relation.TransGen.trans hup (ih hy hyt)
  · intro ha
    have := h.above_of_above hf hat ha
    rwa [if_neg hxt] at this

/-- The element is taken out of the document order. -/
theorem preorder (hf : V.IsForest) (h : V.Unwraps t f V') {ids ds : List ObjectId}
    (hp : V.Preorder ids ds) (hk : ∀ c ∈ ids, V.Known c) :
    V'.Preorder (ids.flatMap (V.standIn t)) (ds.filter (· ≠ t)) := by
  induction hp with
  | nil => exact .nil
  | @cons x xs below rest _ _ ihb ihr =>
    have hb := ihb fun c hc => hf.known hc
    have hr := ihr fun c hc => hk c (List.mem_cons_of_mem x hc)
    rw [List.flatMap_cons]
    by_cases hxt : x = t
    · rw [hxt, flatMap_standIn_children hf] at hb
      rw [hxt, standIn_self, List.filter_cons_of_neg (by simp), List.filter_append]
      exact hb.append hr
    · rw [standIn_other hxt, List.singleton_append, List.filter_cons_of_pos (by simp [hxt]),
        List.filter_append]
      rw [← h.children_other (hk x List.mem_cons_self) hxt] at hb
      exact .cons hb hr

mutual

/-- The tags of the element are taken out of what is written. -/
theorem represents (hf : V.IsForest) (h : V.Unwraps t f V') (ht : V.HasTag tag t)
    (hv : Markup.isVoid tag = false) (n : Node) {id : ObjectId} (hr : V.Represents id n.tree) :
    ∃ ns, V'.RepresentsAll (V.standIn t id) (treesOf ns) ∧
      withoutTags tag (stretchesOf ns) = withoutTags tag n.stretches := by
  match n with
  | .element tag' attributes children =>
    obtain ⟨hcore, hlive, hch⟩ := hr
    obtain ⟨ns, hns, hwritten⟩ := representsAll hf h ht hv children hch
    by_cases hid : id = t
    · rw [hid] at hcore hns
      cases ht.unique (show V.HasTag tag' t from hcore)
      rw [flatMap_standIn_children hf] at hns
      rw [hid, standIn_self]
      exact ⟨ns, hns, hwritten.trans (Markup.withoutTags_own hv).symm⟩
    · have hk : V.Known id := ⟨_, hcore⟩
      have hidf := h.ne_fresh hk
      refine ⟨[.element tag' attributes ns], ?_, ?_⟩
      · rw [standIn_other hid]
        refine representsAll_cons.2 ⟨⟨(h.core id hidf).trans hcore, ?_, ?_⟩, representsAll_nil.2 rfl⟩
        · rw [h.attributes id hidf, hlive]
        · rw [h.children_other hk hid]
          exact hns
      · rw [stretchesOf, stretchesOf, List.append_nil]
        exact Markup.withoutTags_element hwritten
  | .text .. | .code _ | .comment _ | .doctype _ =>
    obtain ⟨hcore, hleaf⟩ := hr
    have hidf := h.ne_fresh ⟨_, hcore⟩
    have hid : id ≠ t := by
      rintro rfl
      cases hcore.symm.trans ht
    refine ⟨[_], ?_, by rw [stretchesOf, stretchesOf, List.append_nil]⟩
    rw [standIn_other hid]
    exact representsAll_cons.2 ⟨⟨(h.core id hidf).trans hcore, hleaf⟩, representsAll_nil.2 rfl⟩

theorem representsAll (hf : V.IsForest) (h : V.Unwraps t f V') (ht : V.HasTag tag t)
    (hv : Markup.isVoid tag = false) (ns : List Node) {ids : List ObjectId}
    (hr : V.RepresentsAll ids (treesOf ns)) :
    ∃ ns', V'.RepresentsAll (ids.flatMap (V.standIn t)) (treesOf ns') ∧
      withoutTags tag (stretchesOf ns') = withoutTags tag (stretchesOf ns) := by
  match ns with
  | [] =>
    rw [representsAll_nil.1 hr]
    exact ⟨[], representsAll_nil.2 rfl, rfl⟩
  | n :: ns =>
    obtain ⟨id, rest, rfl, hn, hns⟩ := hr
    obtain ⟨ms, hms, hwritten⟩ := represents hf h ht hv n hn
    obtain ⟨ms', hms', hwritten'⟩ := representsAll hf h ht hv ns hns
    refine ⟨ms ++ ms', ?_, ?_⟩
    · rw [List.flatMap_cons, treesOf_append]
      exact representsAll_append hms hms'
    · rw [Markup.stretchesOf_append, stretchesOf, Markup.withoutTags_append, Markup.withoutTags_append,
        hwritten, hwritten']

end

end Unwraps

/-- What unwrapping elements of one kind, one after another, makes of the nodes that there were. -/
structure UnwrapsAll (V : View) (tag : Text) (ts : List ObjectId) (V' : View) : Prop where
  core : ∀ x, V.Known x → V'.core x = V.core x
  attributes : ∀ x, V.Known x → V'.attributes x = V.attributes x
  above : ∀ x a, V.Known x → V.Known a → x ∉ ts → a ∉ ts → (V'.Above a x ↔ V.Above a x)
  order : ∀ d ds, V.Known d → d ∉ ts → V.Preorder (V.children d) ds →
    V'.Preorder (V'.children d) (ds.filter (· ∉ ts))
  written : ∀ d ns, V.Known d → d ∉ ts → V.RepresentsAll (V.children d) (treesOf ns) →
    ∃ ns', V'.RepresentsAll (V'.children d) (treesOf ns') ∧
      withoutTags tag (stretchesOf ns') = withoutTags tag (stretchesOf ns)

namespace UnwrapsAll

theorem nil (V : View) (tag : Text) : V.UnwrapsAll tag [] V where
  core _ _ := rfl
  attributes _ _ := rfl
  above _ _ _ _ _ _ := .rfl
  order _ _ _ _ h := by simpa using h
  written _ ns _ _ h := ⟨ns, h, rfl⟩

/-- One element before others. -/
theorem cons (hf : V.IsForest) (h : V.Unwraps t f V1) (ht : V.HasTag tag t)
    (hv : Markup.isVoid tag = false) {ts : List ObjectId} (hts : V1.UnwrapsAll tag ts V') :
    V.UnwrapsAll tag (t :: ts) V' := by
  have hknown : ∀ x, V.Known x → V1.Known x := fun x hx => by
    obtain ⟨core, hcore⟩ := hx
    exact ⟨core, (h.core x (h.ne_fresh ⟨core, hcore⟩)).trans hcore⟩
  constructor
  · intro x hx
    rw [hts.core x (hknown x hx), h.core x (h.ne_fresh hx)]
  · intro x hx
    rw [hts.attributes x (hknown x hx), h.attributes x (h.ne_fresh hx)]
  · intro x a hx ha hxts hats
    rw [List.mem_cons, not_or] at hxts hats
    rw [hts.above x a (hknown x hx) (hknown a ha) hxts.2 hats.2, h.above_iff hf hx hxts.1 hats.1]
  · intro d ds hd hdts hds
    rw [List.mem_cons, not_or] at hdts
    have h1 := h.preorder hf hds fun c hc => hf.known hc
    rw [← h.children_other hd hdts.1] at h1
    have h2 := hts.order d _ (hknown d hd) hdts.2 h1
    rw [List.filter_filter] at h2
    refine (List.filter_congr fun x _ => ?_) ▸ h2
    simp [Bool.and_comm]
  · intro d ns hd hdts hns
    rw [List.mem_cons, not_or] at hdts
    obtain ⟨ns1, hns1, hwritten1⟩ := h.representsAll hf ht hv ns hns
    rw [← h.children_other hd hdts.1] at hns1
    obtain ⟨ns', hns', hwritten⟩ := hts.written d ns1 (hknown d hd) hdts.2 hns1
    exact ⟨ns', hns', hwritten.trans hwritten1⟩

end UnwrapsAll

/-- What lies above a node that is below a root is the root, or lies below it as well. -/
theorem within_of_root {d x a : ObjectId} (hd : V.parent d = none) (hx : V.Above d x)
    (ha : V.Above a x) : V.Within d a := by
  rcases Within.or (.inr hx) (.inr ha) with h | rfl | h
  · exact h
  · exact .inl rfl
  · obtain ⟨y, hy, _⟩ := Relation.TransGen.head'_iff.1 h
    rw [hd] at hy
    cases hy

mutual

/-- No tag of a kind is written where there are no elements of the kind. -/
theorem Represents.tagless (hf : V.IsForest) (n : Node) {id : ObjectId}
    (h : V.Represents id n.tree) (hnone : ∀ x, V.Within id x → ¬ V.HasTag tag x) :
    withoutTags tag n.stretches = n.stretches := by
  match n with
  | .element t attributes children =>
    obtain ⟨hcore, _, hch⟩ := h
    have ht : (t == tag) = false := beq_false_of_ne fun heq => hnone id (.inl rfl) (heq ▸ hcore)
    have hin := RepresentsAll.tagless hf children hch fun c hc x hx =>
      hnone x (hx.of_child ((hf.mem_children id c).1 hc))
    rw [Node.stretches]
    split
    · simp [withoutTags, Stretch.isTagOf, ht]
    · rw [← List.singleton_append, Markup.withoutTags_append, Markup.withoutTags_append, hin]
      simp [withoutTags, Stretch.isTagOf, ht]
  | .text .. | .code _ | .comment _ | .doctype _ => rfl

theorem RepresentsAll.tagless (hf : V.IsForest) (ns : List Node) {ids : List ObjectId}
    (h : V.RepresentsAll ids (treesOf ns))
    (hnone : ∀ c ∈ ids, ∀ x, V.Within c x → ¬ V.HasTag tag x) :
    withoutTags tag (stretchesOf ns) = stretchesOf ns := by
  match ns with
  | [] => rfl
  | n :: ns =>
    obtain ⟨id, rest, rfl, hn, hns⟩ := h
    rw [stretchesOf, Markup.withoutTags_append,
      Represents.tagless hf n hn (hnone id List.mem_cons_self),
      RepresentsAll.tagless hf ns hns fun c hc => hnone c (List.mem_cons_of_mem id hc)]

end

/-- What is left of a document when all elements of one kind in it have made way for their
children. -/
structure Unwrapped (V : View) (tag : Text) (d : ObjectId) (V' : View) : Prop where
  core : ∀ x, V.Known x → V'.core x = V.core x
  attributes : ∀ x, V.Known x → V'.attributes x = V.attributes x
  /-- What is below the document is what was there but for these elements, in the same order. -/
  order : ∀ ds, V.Preorder (V.children d) ds → ∃ ds', V'.Preorder (V'.children d) ds' ∧
    ds'.Sublist ds ∧ ∀ x, x ∈ ds' ↔ x ∈ ds ∧ ¬ V.HasTag tag x
  none_left : ∀ x, V'.Above d x → ¬ V'.HasTag tag x
  above : ∀ x, V'.Above d x → ∀ a, V'.Above a x ↔ V.Above a x ∧ ¬ V.HasTag tag a

/-- All elements of a kind below a document have been unwrapped. -/
theorem UnwrapsAll.unwrapped {d : ObjectId} {ts ds : List ObjectId} (hf : V.IsForest)
    (hf' : V'.IsForest) (hd : V.core d = some .document)
    (hds : V.Preorder (V.children d) ds)
    (hts : ∀ x, x ∈ ts ↔ x ∈ ds ∧ V.HasTag tag x) (h : V.UnwrapsAll tag ts V') :
    V.Unwrapped tag d V' := by
  have hdk : V.Known d := ⟨_, hd⟩
  have hdtag : ¬ V.HasTag tag d := fun hm => by cases hd.symm.trans hm
  have hdts : d ∉ ts := fun hm => hdtag ((hts d).1 hm).2
  have hroot : V'.parent d = none :=
    hf'.document_root ((h.core d hdk).trans hd)
  have hmem : ∀ x, x ∈ ds.filter (· ∉ ts) ↔ x ∈ ds ∧ ¬ V.HasTag tag x := fun x => by
    rw [List.mem_filter, decide_eq_true_iff, hts]
    exact and_congr_right fun hx => by simp [hx]
  have hknown : ∀ x ∈ ds, V.Known x := fun x hx => by
    obtain ⟨y, hy, _⟩ := Relation.TransGen.head'_iff.1 ((hds.mem_children_iff hf).1 hx)
    exact hf.known ((hf.mem_children y x).2 hy)
  have hds' := h.order d ds hdk hdts hds
  have hbelow : ∀ x, V'.Above d x → x ∈ ds ∧ ¬ V.HasTag tag x := fun x hx =>
    (hmem x).1 ((hds'.mem_children_iff hf').2 hx)
  refine ⟨h.core, h.attributes, fun es hes => ?_, fun x hx htag => ?_, fun x hx a => ?_⟩
  · rw [hes.unique hds]
    exact ⟨_, hds', List.filter_sublist, hmem⟩
  · obtain ⟨hxds, hno⟩ := hbelow x hx
    exact hno ((h.core x (hknown x hxds)).symm.trans htag)
  · obtain ⟨hxds, hno⟩ := hbelow x hx
    have hxts : x ∉ ts := fun hm => hno ((hts x).1 hm).2
    constructor
    · intro ha
      obtain ⟨hak, hatag⟩ : V.Known a ∧ ¬ V.HasTag tag a := by
        rcases within_of_root hroot hx ha with rfl | hda
        · exact ⟨hdk, hdtag⟩
        · exact ⟨hknown a (hbelow a hda).1, (hbelow a hda).2⟩
      have hats : a ∉ ts := fun hm => hatag ((hts a).1 hm).2
      exact ⟨(h.above x a (hknown x hxds) hak hxts hats).1 ha, hatag⟩
    · rintro ⟨ha, hatag⟩
      have hats : a ∉ ts := fun hm => hatag ((hts a).1 hm).2
      obtain ⟨y, _, hy⟩ := Relation.TransGen.tail'_iff.1 ha
      obtain ⟨core, hcore, _⟩ := hf.container y a hy
      exact (h.above x a (hknown x hxds) ⟨core, hcore⟩ hxts hats).2 ha

end View

namespace Tree

open View

variable {tag : Text}

variable (env : Env) in
/-- Elements of one kind are unwrapped one after another. -/
theorem does_stripEach (hv : Markup.isVoid tag = false) {ts : List ObjectId} (hn : ts.Nodup) :
    ∀ {w : World} {V : View}, Shows w V → V.IsMarkup →
      (∀ t ∈ ts, V.HasTag tag t ∧ V.parent t ≠ none) →
      ∃ V', Does env w V ((ts.map Value.object).forM stripOut) () V' ∧ V'.IsMarkup ∧
        V.UnwrapsAll tag ts V' := by
  induction ts with
  | nil =>
    intro w V hs hm _
    exact ⟨V, .pure hs (), hm, .nil V tag⟩
  | cons t ts ih =>
    intro w V hs hm hts
    obtain ⟨hnot, hn⟩ := List.nodup_cons.1 hn
    obtain ⟨htag, hparent⟩ := hts t List.mem_cons_self
    obtain ⟨p, hp⟩ := Option.ne_none_iff_exists'.1 hparent
    obtain ⟨f, V1, ⟨w1, hrun1, hs1⟩, hm1, hV1⟩ : ∃ f V', Does env w V _ () V' ∧ _ ∧ _ :=
      does_stripOut hs hm htag hp
    obtain ⟨V2, ⟨w2, hrun2, hs2⟩, hm2, h2⟩ := ih hn hs1.shows hm1 fun u hu => by
      obtain ⟨hutag, hup⟩ := hts u (List.mem_cons_of_mem t hu)
      have huk : V.Known u := ⟨_, hutag⟩
      exact ⟨(hV1.core u (hV1.ne_fresh huk)).trans hutag,
        hV1.parent_ne_none hparent huk (fun hut => hnot (hut ▸ hu)) hup⟩
    exact ⟨V2, ⟨w2, (M.run'_bind_ok hrun1).trans hrun2, hs1.trans hs2⟩, hm2,
      .cons hm.toIsForest hV1 htag hv h2⟩

end Tree

namespace Page

open View

variable {env : Env} {w : World} {V : View} {d : ObjectId}

/-- The first steps of a merge, which put the parts of the content into the skeleton. -/
def placeParts (skeleton content : Value) : M Unit := do
  let main ← require content ":root > main" .template
  moveBodyClass skeleton main
  Tree.replaceWith (← require skeleton "main" .skeleton) main
  moveTitle skeleton content
  (← Tree.selectAll content ":root > [id]").forM (moveById skeleton)

/-- The last step of a merge. -/
def unwrapAll (skeleton : Value) : M Unit := do
  (← Tree.selectAll skeleton "document-fragment").forM Tree.stripOut

theorem merge_eq (skeleton content : Value) :
    merge skeleton content = placeParts skeleton content >>= fun _ => unwrapAll skeleton := by
  simp only [merge, placeParts, unwrapAll, bind_assoc]

theorem isVoid_wrapper : Markup.isVoid "document-fragment" = false := by decide

variable (env) in
/-- The elements that are to be unwrapped are those below the document, once each. -/
theorem run'_selectAll_wrappers (hs : Shows w V) (hm : V.IsMarkup) (hd : V.core d = some .document)
    {ds : List ObjectId} (hds : V.Preorder (V.children d) ds) :
    ∃ ts : List ObjectId, M.run' env w (Tree.selectAll (.object d) "document-fragment") =
        (.ok (ts.map .object), w) ∧ ts.Nodup ∧
      ∀ x, x ∈ ts ↔ x ∈ ds ∧ V.HasTag "document-fragment" x := by
  obtain ⟨ts, hts, hrun⟩ := Tree.selectAll_lists env hs hm ⟨_, hd, rfl⟩
    Selector.read_documentFragment (by simp [Selector.IsApplicable])
  refine ⟨ts, hrun, hts.nodup, fun x => ?_⟩
  rw [hts.mem_iff, hds.mem_children_iff hm.toIsForest, Selector.matches_tag]
  exact and_congr_right fun _ => ⟨And.right, fun h => ⟨h.isElement, h⟩⟩

variable (env) in
/-- **Unwrapping a document.** The last step of a merge succeeds, however the elements that it
unwraps are nested. No such element is left below the document. All other nodes are as they were,
in the same document order, and above each of them is what was above it but for the unwrapped
elements. The text of the document is what it was without the tags of the unwrapped elements. -/
theorem unwraps_document (hs : Shows w V) (hm : V.IsMarkup) (hd : V.core d = some .document)
    {ns : List Node} (hr : V.RepresentsAll (V.children d) (treesOf ns)) :
    ∃ V' w', M.run' env w (unwrapAll (.object d)) = (.ok (), w') ∧ Shows w' V' ∧ V'.IsMarkup ∧
      V.Unwrapped "document-fragment" d V' ∧
      M.run' env w (Tree.serialize (.object d)) =
        (.ok (.text (writeStretches (stretchesOf ns))), w) ∧
      M.run' env w' (Tree.serialize (.object d)) =
        (.ok (.text (writeStretches (withoutTags "document-fragment" (stretchesOf ns)))), w') ∧
      ∀ content w₀, M.run' env w₀ (placeParts (.object d) content) = (.ok (), w) →
        M.run' env w₀ (merge (.object d) content) = (.ok (), w') := by
  have hf := hm.toIsForest
  obtain ⟨ds, hds⟩ := hm.exists_preorder hs (V.children d)
  obtain ⟨ts, hselect, hn, hts⟩ := run'_selectAll_wrappers env hs hm hd hds
  obtain ⟨V', ⟨w', hrun, hs'⟩, hm', hall⟩ :=
    Tree.does_stripEach env isVoid_wrapper hn hs hm fun t ht => by
      obtain ⟨htds, htag⟩ := (hts t).1 ht
      obtain ⟨p, hp, _⟩ := Relation.TransGen.head'_iff.1 ((hds.mem_children_iff hf).1 htds)
      exact ⟨htag, by simp [hp]⟩
  have hunwrapped := hall.unwrapped hf hm'.toIsForest hd hds hts
  have hdk : V.Known d := ⟨_, hd⟩
  have hdts : d ∉ ts := fun hm => by cases hd.symm.trans ((hts d).1 hm).2
  obtain ⟨ns', hr', hwritten⟩ := hall.written d ns hdk hdts hr
  have hnone : withoutTags "document-fragment" (stretchesOf ns') = stretchesOf ns' :=
    hr'.tagless hm'.toIsForest ns' fun c hc x hx => by
      have hcp := (hm'.mem_children d c).1 hc
      exact hunwrapped.none_left x (Relation.TransGen.tail' (within_iff.1 hx) hcp)
  have hd' : V'.core d = some .document := (hall.core d hdk).trans hd
  have hunwrap : M.run' env w (unwrapAll (.object d)) = (.ok (), w') := by
    rw [unwrapAll, M.run'_bind_ok hselect]
    exact hrun
  refine ⟨V', w', hunwrap, hs'.shows, hm', hunwrapped, ?_, ?_, fun content w₀ hplace => ?_⟩
  · rw [Tree.run'_serializeRoot hs hf hd (.inl rfl) hr, Markup.serializeAll_eq_stretches]
  · rw [Tree.run'_serializeRoot hs'.shows hm'.toIsForest hd' (.inl rfl) hr',
      Markup.serializeAll_eq_stretches, ← hnone, hwritten]
  · rw [merge_eq, M.run'_bind_ok hplace, hunwrap]

/-- Wrappers in a wrapper, beside one another, empty and with attributes. -/
def sampleWrappers : List Node :=
  [.element "document-fragment" [] [.element "document-fragment" [] [], .element "p" []
    [.element "document-fragment" [(Text.ofString "id", "x")] [.text "a" false]], .text "b" false],
    .element "document-fragment" [] [], .doctype "html"]

/-- The sample is unwrapped. -/
theorem unwraps_document_sample :
    ∃ w V d, Shows w V ∧ V.IsMarkup ∧ V.core d = some .document ∧
      V.RepresentsAll (V.children d) (treesOf sampleWrappers) ∧
      ∃ V' w', M.run' Env.silent w (unwrapAll (.object d)) = (.ok (), w') ∧
        V.Unwrapped "document-fragment" d V' ∧
        M.run' Env.silent w' (Tree.serialize (.object d)) =
          (.ok (.text "<p>a</p>b<!html>"), w') := by
  obtain ⟨d, V, ⟨w, _, hs⟩, hg, hext, hnew, _, hd, _, hr⟩ :
      ∃ id V', Does Env.silent World.blank View.empty (Tree.plantWithin .document sampleWrappers)
        id V' ∧ _ :=
    Tree.does_plantWithin (shows_empty World.blank) isRegular_empty (by simp) rfl sampleWrappers
  have hm : V.IsMarkup := isMarkup_empty.planted hg hext hnew
  obtain ⟨V', w', hrun, _, _, hunwrapped, _, hwritten, _⟩ :=
    unwraps_document Env.silent hs.shows hm hd hr
  have htext : writeStretches (withoutTags "document-fragment" (stretchesOf sampleWrappers)) =
      Text.ofString "<p>a</p>b<!html>" := by decide
  rw [htext] at hwritten
  exact ⟨w, V, d, hs.shows, hm, hd, hr, V', w', hrun, hunwrapped, hwritten⟩

end Page

end PageTemplate
