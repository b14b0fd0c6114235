import PageTemplate.Proofs.Page.Placing

/-!
# PageTemplate.Proofs.Page.Merge

The order in which a content lists its parts does not show in the page. Putting one part in its
place commutes with putting another in its own, and another order of the children of the content
stays out of the skeleton. So the same nodes end up in the same places.
-/

namespace PageTemplate

namespace View

variable {V : View} {r t u e : ObjectId} {ids : List ObjectId}

/-! Another order of the children of one node. -/

theorem setChildren_of_within {s x : ObjectId} (hr : ¬ V.Within s r) (hx : V.Within s x) :
    (V.setChildren r ids).children x = V.children x := by
  have hxr : x ≠ r := fun hxr => hr (hxr ▸ hx)
  exact if_neg hxr

theorem IsMarkup.setChildren (h : V.IsMarkup) (hp : ids.Perm (V.children r)) :
    (V.setChildren r ids).IsMarkup := by
  refine h.relinked ⟨fun p x => ?_, h.inner, h.container, fun p => ?_, h.ranked⟩ rfl rfl
  · by_cases hpr : p = r
    · simp [View.setChildren, hpr, hp.mem_iff, h.mem_children]
    · simp [View.setChildren, hpr, h.mem_children]
  · by_cases hpr : p = r
    · simpa [View.setChildren, hpr] using hp.nodup_iff.2 (h.nodup r)
    · simpa [View.setChildren, hpr] using h.nodup p

theorem moveBodyClass_setChildren (main body : ObjectId) :
    (V.setChildren r ids).moveBodyClass main body =
      (V.moveBodyClass main body).setChildren r ids := by
  have hclass : (V.setChildren r ids).attribute? main "body-class" =
    V.attribute? main "body-class" := rfl
  rw [moveBodyClass, moveBodyClass, hclass]
  cases V.attribute? main "body-class" <;> rfl

theorem exchange_setChildren :
    (V.setChildren r ids).exchange t e = (V.exchange t e).setChildren r
      ((ids.filter (· ≠ e)).map fun c => if c = t then e else c) := by
  simp only [exchange, View.setChildren, View.mk.injEq, true_and, and_true]
  funext x
  split <;> rfl

theorem refill_setChildren (hut : u ≠ t) (htr : t ≠ r) (hur : u ≠ r) :
    (V.setChildren r ids).refill t u = (V.refill t u).setChildren r ids := by
  have hparent : ((V.setChildren r ids).refill t u).parent =
      ((V.refill t u).setChildren r ids).parent := by
    funext x
    have hold : ((V.refill t u).setChildren r ids).parent x = (V.refill t u).parent x := rfl
    rw [hold, refill_parent _ hut, refill_parent _ hut]
    simp [View.setChildren, htr, hur]
  have hchildren : ((V.setChildren r ids).refill t u).children =
      ((V.refill t u).setChildren r ids).children := by
    funext x
    rw [refill_children _ hut]
    simp only [View.setChildren, if_neg hur, refill_children V hut]
    by_cases hxr : x = r
    · subst hxr
      simp [htr.symm, hur.symm]
    · simp [hxr]
  exact View.ext rfl hparent hchildren rfl

theorem moveAll_setChildren (target : ObjectId → ObjectId) (es : List ObjectId) :
    ∀ (V : View) (ids : List ObjectId), ∃ ids', Page.moveAll target (V.setChildren r ids) es =
      (Page.moveAll target V es).setChildren r ids' := by
  induction es with
  | nil => exact fun V ids => ⟨ids, rfl⟩
  | cons e es ih =>
    intro V ids
    obtain ⟨ids', h⟩ := ih (V.exchange (target e) e)
      ((ids.filter (· ≠ e)).map fun c => if c = target e then e else c)
    exact ⟨ids', by simpa [Page.moveAll, exchange_setChildren] using h⟩

/-- The parts can be moved in any order. -/
theorem moveAll_perm {target : ObjectId → ObjectId} {es es' : List ObjectId} (h : es.Perm es')
    (ht : ∀ e ∈ es, ∀ f ∈ es, e ≠ f → target e ≠ target f)
    (hte : ∀ e ∈ es, ∀ f ∈ es, target e ≠ f) :
    Page.moveAll target V es = Page.moveAll target V es' := by
  refine h.foldl_eq' (fun e he f hf W => ?_) V
  by_cases hef : e = f
  · rw [hef]
  · exact exchange_comm W (ht e he f hf hef) hef (hte e he f hf) (hte f hf e he).symm

/-- Another order of the children of a node from which nothing is moved, and to which nothing comes,
does not show elsewhere. -/
theorem place_setChildren {main body : ObjectId} {title : Option (ObjectId × ObjectId)}
    {target : ObjectId → ObjectId} {es : List ObjectId}
    (htitle : ∀ p ∈ title, p.2 ≠ p.1 ∧ p.1 ≠ r ∧ p.2 ≠ r) :
    ∃ ids', (V.setChildren r ids).place main body title target es =
      (V.place main body title target es).setChildren r ids' := by
  rw [place, moveBodyClass_setChildren, exchange_setChildren]
  cases title with
  | none => exact moveAll_setChildren target es _ _
  | some p =>
    obtain ⟨hut, htr, hur⟩ := htitle p rfl
    rw [moveTitle, refill_setChildren hut htr hur]
    exact moveAll_setChildren target es _ _

theorem sameOn_setChildren (hf : V.IsForest) {s : ObjectId} {core : NodeCore}
    (hs : V.core s = some core) (hr : ¬ V.Within s r) :
    SameOn (V.Within s) V (V.setChildren r ids) where
  nodes _ hx := hx.core hf hs
  agree _ hx := ⟨rfl, setChildren_of_within hr hx, rfl⟩
  parent _ _ := rfl
  closed _ _ hx hy := within_step_iff.2 (.inr ⟨_, (hf.mem_children _ _).1 hy, hx⟩)

end View

namespace Page

open View

variable {env : Env} {w w' : World} {V : View} {s c r main body : ObjectId}
  {target : ObjectId → ObjectId} {title : Option (ObjectId × ObjectId)} {ids : List ObjectId}

namespace Placing

/-- The order of the children of a node does not matter outside of it. -/
theorem setChildren (h : Placing V s c main target title) (hf : V.IsForest)
    (hr : ¬ V.Within s r) : Placing (V.setChildren r ids) s c main target title := by
  have hfirst : ∀ {P : ObjectId → Prop} {t : ObjectId}, V.IsFirst s P t →
      (V.setChildren r ids).IsFirst s P t := by
    intro P t hP
    exact hP.congr hf (fun y hy => setChildren_of_within hr hy) fun _ _ => .rfl
  have hpending : Pending (V.setChildren r ids) s c target (IsPart V c) := by
    obtain ⟨hroots, htop, hparts, hown, hseparate⟩ := h.pending
    refine ⟨⟨hroots.left, hroots.right, hroots.ne⟩, htop, fun e he => ?_, hown, hseparate⟩
    obtain ⟨id, hid, he⟩ := hparts e he
    exact ⟨id, hid, hfirst he⟩
  refine ⟨h.skeleton, h.content, h.single, h.top, h.tag, hfirst h.first, hpending, h.not_part,
    h.main_apart, ?_, h.title_not_part, h.title_apart⟩
  have hmoves := h.moves
  match title with
  | none => exact hmoves
  | some (t, u) => exact ⟨hfirst hmoves.1, hmoves.2⟩

/-- The same parts come to the same places in any order, and the order of the children of the root of
the content does not matter outside of it. -/
theorem place_perm (h : Placing V s c main target title) (hf : V.IsForest)
    (hr : V.parent r = some c) {es es' : List ObjectId} (hperm : es'.Perm es)
    (hes : ∀ e ∈ es', IsPart V c e) :
    ∃ ids', (V.setChildren r ids).place main body title target es' =
      (V.place main body title target es).setChildren r ids' := by
  have hroots := h.pending.apart
  have hne : ∀ {x y : ObjectId}, V.Above s x → V.Above c y → x ≠ y := fun hx hy =>
    hroots.ne_of_within (.inr hx) (.inr hy)
  have hmoved : V.place main body title target es' = V.place main body title target es := by
    refine moveAll_perm hperm (fun e he f hf hef heq => ?_) fun e he f hfp => ?_
    · exact h.pending.separate f e (hes f hf) (hes e he) (Ne.symm hef) (.inl heq)
    · exact hne (h.pending.above_target hf (hes e he)) (hes f hfp).1.above
  rw [← hmoved]
  refine place_setChildren fun p hp => ?_
  have hmoves := h.moves
  match title, hmoves, hp with
  | some (t, u), ⟨hfirst, hu, _⟩, rfl =>
    have ht := hfirst.above hf
    refine ⟨(hne ht hu.above).symm, hne ht (.single hr), ?_⟩
    rintro rfl
    exact hu.parent_ne hroots.right hr

end Placing

variable (env) in
/-- **The order of a content does not matter.** A content and a skeleton that has targets for its
parts make a page, in whatever order the content lists them, and it is the same page: below the
skeleton document there are the same nodes with the same attributes in the same places. -/
theorem merge_reordered (hs : Shows w V) (hm : V.IsMarkup) (hne : s ≠ c) (hc : Content V c main)
    (ht : Targets V s c main target) (hapart : TitleApart V s c main target)
    (hr : V.parent r = some c) (hp : ids.Perm (V.children r))
    (hs' : Shows w' (V.setChildren r ids)) :
    ∃ V1 V2, Does env w V (merge (.object s) (.object c)) () V1 ∧
      Does env w' (V.setChildren r ids) (merge (.object s) (.object c)) () V2 ∧
      ∀ x, V1.Within s x → Agree V1 V2 x ∧ V2.parent x = V1.parent x := by
  have hf := hm.toIsForest
  obtain ⟨title, h⟩ := exists_placing hf hc ht hne hapart
  have hroots := h.pending.apart
  have hsr : ¬ V.Within s r := fun hsr => hroots.not_within hsr (.inr (.single hr))
  have h' : Placing (V.setChildren r ids) s c main target title := h.setChildren hf hsr
  obtain ⟨body, hbody⟩ : ∃ body, V.attribute? main "body-class" ≠ none →
      V.IsFirst s (V.HasTag "body") body := by
    by_cases hclass : V.attribute? main "body-class" = none
    · exact ⟨s, fun hno => absurd hclass hno⟩
    · obtain ⟨b, hb⟩ := ht.body_first hclass
      exact ⟨b, fun _ => hb⟩
  have hbody' : (V.setChildren r ids).attribute? main "body-class" ≠ none →
      (V.setChildren r ids).IsFirst s ((V.setChildren r ids).HasTag "body") body := fun hclass =>
    (hbody hclass).congr hf (fun y hy => setChildren_of_within hsr hy) fun _ _ => .rfl
  have hc' : Content (V.setChildren r ids) c main :=
    ⟨hc.document, hc.only_main, hc.main_id, hc.one_title, hc.title_id, hc.own_ids⟩
  obtain ⟨es, w1, hn, hes, hs1, hrun1, hm1, hapart1, hroots1⟩ := h.run'_merge hs hm hc hbody
  obtain ⟨es', w1', hn', hes', hs1', hrun1', hm1', _⟩ :=
    h'.run'_merge hs' (hm.setChildren hp) hc' hbody'
  -- Both put the same nodes in the same places, apart from what is left of the content.
  have hperm : es'.Perm es := (List.perm_ext_iff_of_nodup hn' hn).2 fun e =>
    (hes' e).trans (hes e).symm
  obtain ⟨ids', hplace⟩ : ∃ ids', (V.setChildren r ids).place main body title target es' =
      (V.place main body title target es).setChildren r ids' :=
    h.place_perm hf hr hperm fun e => (hes' e).1
  rw [hplace] at hs1' hm1'
  have hcore : (V.place main body title target es).core s = some .document := by
    rw [place_core, h.skeleton]
  have hsr1 : ¬ (V.place main body title target es).Within s r := fun hsr =>
    hapart1.not_within hsr (.inr (.single (hroots1 r hr)))
  obtain ⟨V1, V2, ⟨w2, hrun2, hs2⟩, ⟨w2', hrun2', hs2'⟩, hsame⟩ :=
    does_unwrapAll hs1.shows hm1 hs1'.shows hm1' ⟨_, hcore, rfl⟩
      (sameOn_setChildren hm1.toIsForest hcore hsr1)
  exact ⟨V1, V2, ⟨w2, hrun1.trans hrun2, hs1.trans hs2⟩, ⟨w2', hrun1'.trans hrun2',
    hs1'.trans hs2'⟩, hsame⟩

/-! Samples. -/

/-- A skeleton with a title and a main element, and with more in the title or behind. -/
def sampleSkeleton (inTitle behind : List Markup.Node) : Markup.Node :=
  .element "html" [] (.element "head" [] [.element "title" [] inTitle] ::
    .element "main" [] [] :: behind)

/-- A content with a main element, a title and more. -/
def sampleContent (parts : List Markup.Node) : Markup.Node :=
  .element "div" [] (.element "main" [] [] :: .element "title" [] [.text "u" false] :: parts)

/-- An element that has an id. -/
def samplePart (tag : Text) : Markup.Node := .element tag [(Text.ofString "id", "x")] []

/-- The sample content is as a content should be, with an element that has an id or without. -/
theorem content_sample (hm : V.IsMarkup) (hcd : V.core c = some .document)
    {parts : List Markup.Node} (hparts : parts = [] ∨ parts = [samplePart "p"])
    (h : V.RepresentsAll (V.children c) (treesOf [sampleContent parts])) :
    ∃ main, Content V c main ∧ V.attribute? main "body-class" = none ∧
      (∀ e, IsPart V c e → e ≠ main ∧ V.attribute? e "id" = some (Text.ofString "x")) ∧
      (∀ e f, IsPart V c e → IsPart V c f → e = f) ∧ (parts = [] → ∀ e, ¬ IsPart V c e) := by
  have hf := hm.toIsForest
  simp only [sampleContent, treesOf, Markup.Node.tree, View.RepresentsAll, View.Represents] at h
  obtain ⟨r, _, hr, ⟨hrcore, hrlive, main, _, hch, ⟨hmcore, hmlive, hmch⟩, u, ps, rfl, ⟨hucore,
    hulive, l, _, huch, ⟨hlcore, hleaf⟩, rfl⟩, hps⟩, rfl⟩ := h
  have hpart : V.Preorder ps ps ∧ (∀ p ∈ ps, V.HasTag "p" p ∧ V.attribute? p "id" = some (Text.ofString "x")) ∧
      (∀ p ∈ ps, ∀ q ∈ ps, p = q) ∧ (parts = [] → ps = []) := by
    rcases hparts with rfl | rfl
    · cases View.representsAll_nil.1 hps
      exact ⟨.nil, by simp, by simp, fun _ => rfl⟩
    · simp only [samplePart, treesOf, Markup.Node.tree, View.RepresentsAll, View.Represents] at hps
      obtain ⟨p, _, rfl, ⟨hpcore, hplive, hpch⟩, rfl⟩ := hps
      have hpid : V.attribute? p "id" = some (Text.ofString "x") := View.attribute?_eq hplive "id"
      exact ⟨.cons_leaf hpch .nil, by simpa using ⟨hpcore, hpid⟩, by simp, by simp⟩
  obtain ⟨hpre, hps, hone, hnone⟩ := hpart
  have hmid : ∀ name, V.attribute? main name = none := View.attribute?_eq hmlive
  have huid : V.attribute? u "id" = none := View.attribute?_eq hulive "id"
  have hrid : V.attribute? r "id" = none := View.attribute?_eq hrlive "id"
  have hds : V.Preorder (V.children c) (r :: main :: u :: l :: ps) := by
    have hl : V.Preorder (V.children u) [l] := by
      rw [huch]
      exact .cons_leaf (hf.children_leaf hlcore hleaf) .nil
    have hu : V.Preorder (u :: ps) (u :: ([l] ++ ps)) := .cons hl hpre
    rw [hr, preorder_singleton, hch]
    exact .cons_leaf hmch hu
  have htop : ∀ e, V.IsTop c e ↔ e = main ∨ e = u ∨ e ∈ ps := by
    intro e
    constructor
    · rintro ⟨_, q, hq, _, hqc⟩
      have hqr : q = r := by simpa [hr] using (hf.mem_children c q).2 hqc
      have he := (hf.mem_children q e).2 hq
      simpa [hqr, hch] using he
    · intro he
      have hpar : V.parent e = some r := (hf.mem_children r e).1 (by simpa [hch] using he)
      have hrc : V.parent r = some c := (hf.mem_children c r).1 (by simp [hr])
      refine ⟨?_, r, hpar, Tree.isElement_iff.2 ⟨_, hrcore⟩, hrc⟩
      rcases he with rfl | rfl | he
      · exact Tree.isElement_iff.2 ⟨_, hmcore⟩
      · exact Tree.isElement_iff.2 ⟨_, hucore⟩
      · exact (hps e he).1.isElement
  have hpart : ∀ e, IsPart V c e → e ∈ ps := by
    rintro e ⟨he, id, hid⟩
    rcases (htop e).1 he with rfl | rfl | he
    · cases (hmid "id").symm.trans hid
    · cases huid.symm.trans hid
    · exact he
  have htitle : ∀ t, V.IsTop c t → V.HasTag "title" t → t = u := by
    intro t ht htag
    rcases (htop t).1 ht with rfl | rfl | ht
    · exact absurd (htag.unique hmcore) (by decide)
    · rfl
    · exact absurd (htag.unique (hps t ht).1) (by decide)
  refine ⟨main, ⟨hcd, fun e => ⟨?_, ?_⟩, hmid "id", ?_, ?_, ?_⟩, hmid "body-class",
    fun e he => ⟨?_, (hps e (hpart e he)).2⟩,
    fun e f he hf => hone e (hpart e he) f (hpart f hf), fun hno e he => ?_⟩
  · rintro ⟨he, htag⟩
    rcases (htop e).1 he with rfl | rfl | he
    · rfl
    · exact absurd (htag.unique hucore) (by decide)
    · exact absurd (htag.unique (hps e he).1) (by decide)
  · rintro rfl
    exact ⟨(htop e).2 (.inl rfl), hmcore⟩
  · intro t t' ht htag ht' htag'
    rw [htitle t ht htag, htitle t' ht' htag']
  · intro t ht htag
    rw [htitle t ht htag, huid]
  · intro e id he hid x hx hxid
    have hmem := (hds.mem_children_iff hf).2 hx
    simp only [List.mem_cons] at hmem
    rcases hmem with rfl | rfl | rfl | rfl | hmem
    · cases hrid.symm.trans hxid.2
    · cases (hmid "id").symm.trans hxid.2
    · cases huid.symm.trans hxid.2
    · obtain ⟨tag, htag⟩ := Tree.isElement_iff.1 hxid.1
      cases hlcore.symm.trans htag
    · exact hone x hmem e (hpart e ⟨he, id, hid⟩)
  · rintro rfl
    cases (hmid "id").symm.trans (hps e (hpart e he)).2
  · have hmem := hpart e he
    rw [hnone hno] at hmem
    cases hmem

/-- A skeleton with a place for each part of the sample, wherever the element with the id stands. -/
structure SampleNodes (V : View) (s html head title main b : ObjectId) : Prop where
  document : V.core s = some .document
  root : V.children s = [html]
  tags : V.HasTag "html" html ∧ V.HasTag "head" head ∧ V.HasTag "title" title ∧
    V.HasTag "main" main ∧ V.HasTag "b" b
  ids : V.attribute? html "id" = none ∧ V.attribute? head "id" = none ∧
    V.attribute? title "id" = none ∧ V.attribute? main "id" = none ∧
    V.attribute? b "id" = some (Text.ofString "x")
  parents : V.parent head = some html ∧ V.parent title = some head
  below : ∀ x, V.Above s x ↔ x = html ∨ x = head ∨ x = title ∨ x = main ∨ x = b
  leaves : V.children main = [] ∧ V.children b = []

theorem not_within_of_leaf (hf : V.IsForest) {a x : ObjectId} {tag other : Text}
    (hch : V.children a = []) (ha : V.HasTag tag a) (hx : V.HasTag other x) (hne : tag ≠ other) :
    ¬ V.Within a x := by
  rintro (rfl | hax)
  · exact hne (ha.unique hx)
  · rw [hf.above_iff_child, hch] at hax
    obtain ⟨y, hy, _⟩ := hax
    cases hy

theorem SampleNodes.targets {html head title b : ObjectId} {main' : ObjectId}
    (h : SampleNodes V s html head title main' b) (hs : Shows w V) (hm : V.IsMarkup)
    (hbody : V.attribute? main "body-class" = none)
    (hpart : ∀ e, IsPart V c e → e ≠ main ∧ V.attribute? e "id" = some (Text.ofString "x"))
    (hone : ∀ e f, IsPart V c e → IsPart V c f → e = f) :
    Targets V s c main (fun e => if e = main then main' else b) ∧
      ∀ t, V.IsFirst s (V.IsHeadTitle s) t → t = title := by
  have hf := hm.toIsForest
  obtain ⟨hhtml, hhead, htitle, hmain, hb⟩ := h.tags
  obtain ⟨hid1, hid2, hid3, hid4, hid5⟩ := h.ids
  have hmain_first : V.IsFirst s (V.HasTag "main") main' := by
    refine hf.isFirst_of_unique hs ((h.below main').2 (by simp)) hmain fun x hx hx' => ?_
    rcases (h.below x).1 hx with rfl | rfl | rfl | rfl | rfl
    · exact absurd (hx'.unique hhtml) (by decide)
    · exact absurd (hx'.unique hhead) (by decide)
    · exact absurd (hx'.unique htitle) (by decide)
    · rfl
    · exact absurd (hx'.unique hb) (by decide)
  have hb_first : V.IsFirst s (V.HasId "x") b := by
    refine hf.isFirst_of_unique hs ((h.below b).2 (by simp)) ⟨hb.isElement, hid5⟩ fun x hx hx' => ?_
    rcases (h.below x).1 hx with rfl | rfl | rfl | rfl | rfl
    · cases hid1.symm.trans hx'.2
    · cases hid2.symm.trans hx'.2
    · cases hid3.symm.trans hx'.2
    · cases hid4.symm.trans hx'.2
    · rfl
  have htitle_only : ∀ x, V.Above s x → V.HasTag "title" x → x = title := by
    intro x hx hx'
    rcases (h.below x).1 hx with rfl | rfl | rfl | rfl | rfl
    · exact absurd (hx'.unique hhtml) (by decide)
    · exact absurd (hx'.unique hhead) (by decide)
    · rfl
    · exact absurd (hx'.unique hmain) (by decide)
    · exact absurd (hx'.unique hb) (by decide)
  have hhtml_parent : V.parent html = some s := (hf.mem_children s html).1 (by simp [h.root])
  have htitle_first : V.IsFirst s (V.IsHeadTitle s) title :=
    hf.isFirst_of_unique hs ((h.below title).2 (by simp)) ⟨htitle, head, h.parents.2, hhead,
      hhead.isElement, html, h.parents.1, hhtml.isElement, hhtml_parent⟩
      fun x hx hx' => htitle_only x hx hx'.1
  refine ⟨⟨h.document, ?_, ?_, ?_, fun _ _ _ => ⟨title, htitle_first⟩,
    fun hclass => absurd hbody hclass, ?_⟩, fun t ht => htitle_only t (ht.above hf) ht.holds.1⟩
  · intro x y _ hx _ hy
    have hx : x = html := by simpa [h.root] using (hf.mem_children s x).2 hx
    have hy : y = html := by simpa [h.root] using (hf.mem_children s y).2 hy
    rw [hx, hy]
  · simpa using hmain_first
  · intro e id htop he
    obtain ⟨hne, hid⟩ := hpart e ⟨htop, id, he⟩
    cases hid.symm.trans he
    rw [if_neg hne]
    exact hb_first
  · intro e f he hf' hef
    rcases he with rfl | he
    · rcases hf' with rfl | hf'
      · exact absurd rfl hef
      · simpa [hef.symm] using not_within_of_leaf hf h.leaves.1 hmain hb (by decide)
    · rcases hf' with rfl | hf'
      · simpa [hef] using not_within_of_leaf hf h.leaves.2 hb hmain (by decide)
      · exact absurd (hone e f he hf') hef

theorem sampleNodes_behind (hm : V.IsMarkup) (hsd : V.core s = some .document)
    (h : V.RepresentsAll (V.children s) (treesOf [sampleSkeleton [] [samplePart "b"]])) :
    ∃ html head title main b, SampleNodes V s html head title main b ∧ V.children title = [] := by
  have hf := hm.toIsForest
  simp only [sampleSkeleton, samplePart, treesOf, Markup.Node.tree, View.RepresentsAll,
    View.Represents] at h
  obtain ⟨html, _, hroot, ⟨hhtml, hhtmll, head, _, hch, ⟨hhead, hheadl, title, _, hheadch,
    ⟨htitle, htitlel, htitlech⟩, rfl⟩, main, _, rfl, ⟨hmain, hmainl, hmainch⟩, b, _, rfl,
    ⟨hb, hbl, hbch⟩, rfl⟩, rfl⟩ := h
  have hds : V.Preorder (V.children s) [html, head, title, main, b] := by
    have hh : V.Preorder (V.children head) [title] := by
      rw [hheadch]
      exact .cons_leaf htitlech .nil
    have hall : V.Preorder [head, main, b] (head :: ([title] ++ [main, b])) :=
      .cons hh (.cons_leaf hmainch (.cons_leaf hbch .nil))
    rw [hroot, preorder_singleton, hch]
    exact hall
  refine ⟨html, head, title, main, b, ⟨hsd, hroot, ⟨hhtml, hhead, htitle, hmain, hb⟩,
    ⟨View.attribute?_eq hhtmll "id", View.attribute?_eq hheadl "id", View.attribute?_eq htitlel "id",
      View.attribute?_eq hmainl "id", View.attribute?_eq hbl "id"⟩,
    ⟨(hf.mem_children html head).1 (by simp [hch]), (hf.mem_children head title).1 (by simp [hheadch])⟩,
    fun x => ?_, hmainch, hbch⟩, htitlech⟩
  rw [← hds.mem_children_iff hf]
  simp

theorem sampleNodes_inTitle (hm : V.IsMarkup) (hsd : V.core s = some .document)
    (h : V.RepresentsAll (V.children s) (treesOf [sampleSkeleton [samplePart "b"] []])) :
    ∃ html head title main b, SampleNodes V s html head title main b := by
  have hf := hm.toIsForest
  simp only [sampleSkeleton, samplePart, treesOf, Markup.Node.tree, View.RepresentsAll,
    View.Represents] at h
  obtain ⟨html, _, hroot, ⟨hhtml, hhtmll, head, _, hch, ⟨hhead, hheadl, title, _, hheadch,
    ⟨htitle, htitlel, b, _, htitlech, ⟨hb, hbl, hbch⟩, rfl⟩, rfl⟩, main, _, rfl,
    ⟨hmain, hmainl, hmainch⟩, rfl⟩, rfl⟩ := h
  have hds : V.Preorder (V.children s) [html, head, title, b, main] := by
    have ht : V.Preorder (V.children title) [b] := by
      rw [htitlech]
      exact .cons_leaf hbch .nil
    have hh : V.Preorder (V.children head) (title :: ([b] ++ [])) := by
      rw [hheadch]
      exact .cons ht .nil
    have hall : V.Preorder [head, main] (head :: ((title :: ([b] ++ [])) ++ [main])) :=
      .cons hh (.cons_leaf hmainch .nil)
    rw [hroot, preorder_singleton, hch]
    exact hall
  refine ⟨html, head, title, main, b, hsd, hroot, ⟨hhtml, hhead, htitle, hmain, hb⟩,
    ⟨View.attribute?_eq hhtmll "id", View.attribute?_eq hheadl "id", View.attribute?_eq htitlel "id",
      View.attribute?_eq hmainl "id", View.attribute?_eq hbl "id"⟩,
    ⟨(hf.mem_children html head).1 (by simp [hch]), (hf.mem_children head title).1 (by simp [hheadch])⟩,
    fun x => ?_, hmainch, hbch⟩
  rw [← hds.mem_children_iff hf]
  simp only [List.mem_cons, List.not_mem_nil, or_false]
  tauto

/-- A skeleton that is all main element. -/
def wholeSkeleton : Markup.Node :=
  .element "main" [] [.element "head" [] [.element "title" [] []]]

theorem targets_wholeSkeleton (hs : Shows w V) (hm : V.IsMarkup) (hsd : V.core s = some .document)
    (h : V.RepresentsAll (V.children s) (treesOf [wholeSkeleton]))
    (hbody : V.attribute? main "body-class" = none) (hpart : ∀ e, ¬ IsPart V c e) :
    ∃ root, Targets V s c main fun _ => root := by
  have hf := hm.toIsForest
  simp only [wholeSkeleton, treesOf, Markup.Node.tree, View.RepresentsAll, View.Represents] at h
  obtain ⟨root, _, hroot, ⟨hmain, _, head, _, hch, ⟨hhead, _, title, _, hheadch, ⟨htitle, _,
    htitlech⟩, rfl⟩, rfl⟩, rfl⟩ := h
  have hds : V.Preorder (V.children s) [root, head, title] := by
    rw [hroot, preorder_singleton, hch, preorder_singleton, hheadch]
    exact .cons_leaf htitlech .nil
  have hbelow : ∀ x, V.Above s x ↔ x = root ∨ x = head ∨ x = title := by
    intro x
    rw [← hds.mem_children_iff hf]
    simp
  have hhead_parent : V.parent head = some root := (hf.mem_children root head).1 (by simp [hch])
  have htitle_parent : V.parent title = some head :=
    (hf.mem_children head title).1 (by simp [hheadch])
  have hroot_parent : V.parent root = some s := (hf.mem_children s root).1 (by simp [hroot])
  refine ⟨root, hsd, ?_, ?_, fun e id htop he => absurd ⟨htop, id, he⟩ (hpart e), ?_,
    fun hclass => absurd hbody hclass, ?_⟩
  · intro x y _ hx _ hy
    have hx : x = root := by simpa [hroot] using (hf.mem_children s x).2 hx
    have hy : y = root := by simpa [hroot] using (hf.mem_children s y).2 hy
    rw [hx, hy]
  · refine hf.isFirst_of_unique hs ((hbelow root).2 (by simp)) hmain fun x hx hx' => ?_
    rcases (hbelow x).1 hx with rfl | rfl | rfl
    · rfl
    · exact absurd (hx'.unique hhead) (by decide)
    · exact absurd (hx'.unique htitle) (by decide)
  · intro u _ _
    have hroot_element : V.isElement root = true := Tree.isElement_iff.2 ⟨_, hmain⟩
    have hhead_element : V.isElement head = true := Tree.isElement_iff.2 ⟨_, hhead⟩
    refine ⟨title, hf.isFirst_of_unique hs ((hbelow title).2 (by simp)) ⟨htitle, head,
      htitle_parent, hhead, hhead_element, root, hhead_parent, hroot_element, hroot_parent⟩
      fun x hx hx' => ?_⟩
    rcases (hbelow x).1 hx with rfl | rfl | rfl
    · exact absurd (hx'.1.unique hmain) (by decide)
    · exact absurd (hx'.1.unique hhead) (by decide)
    · rfl
  · intro e f he hf' hef
    exact absurd (he.resolve_right (hpart e)) fun he' =>
      hef (he'.trans (hf'.resolve_right (hpart f)).symm)

/-- A skeleton and a content, each in a new document. -/
def plantBoth (skeleton content : Markup.Node) : M (ObjectId × ObjectId) := do
  let s ← Tree.plantWithin .document [skeleton]
  let c ← Tree.plantWithin .document [content]
  return (s, c)

theorem run'_plantBoth (skeleton content : Markup.Node) :
    ∃ w V s c, M.run' Env.silent World.blank (plantBoth skeleton content) = (.ok (s, c), w) ∧
      Shows w V ∧ V.IsMarkup ∧ s ≠ c ∧ V.core s = some .document ∧ V.core c = some .document ∧
      V.RepresentsAll (V.children s) (treesOf [skeleton]) ∧
      V.RepresentsAll (V.children c) (treesOf [content]) := by
  obtain ⟨s, V1, ⟨w1, hrun1, hs1⟩, hg1, hext1, hnew1, _, hsd, _, hrep1⟩ :
      ∃ id V', Does Env.silent World.blank View.empty (Tree.plantWithin .document [skeleton]) id V' ∧ _ ∧ _ :=
    Tree.does_plantWithin (View.shows_empty World.blank) View.isRegular_empty (by simp) rfl
      [skeleton]
  have hm1 : V1.IsMarkup := View.isMarkup_empty.planted hg1 hext1 hnew1
  obtain ⟨c, V2, ⟨w2, hrun2, hs2⟩, hg2, hext2, hnew2, hfresh, hcd, _, hrep2⟩ :
      ∃ id V', Does Env.silent w1 V1 (Tree.plantWithin .document [content]) id V' ∧ _ ∧ _ :=
    Tree.does_plantWithin hs1.shows hg1 (by simp) rfl [content]
  have hag := hext2.agree s _ hsd
  refine ⟨w2, V2, s, c, ?_, hs2.shows, hm1.planted hg2 hext2 hnew2, ?_, hag.core.trans hsd, hcd, ?_,
    hrep2⟩
  · rw [plantBoth, M.run'_bind_ok hrun1, M.run'_bind_ok hrun2]
    rfl
  · rintro rfl
    cases hfresh.symm.trans hsd
  · rw [hag.children]
    exact hrep1.extend hm1.toIsForest hext2

/-- A content in reverse order makes the same page. -/
theorem merge_reordered_sample :
    ∃ w w' V s c r V1 V2, V.RepresentsAll (V.children s)
        (treesOf [sampleSkeleton [] [samplePart "b"]]) ∧
      V.RepresentsAll (V.children c) (treesOf [sampleContent [samplePart "p"]]) ∧
      V.parent r = some c ∧ Does Env.silent w V (merge (.object s) (.object c)) () V1 ∧
      Does Env.silent w' (V.setChildren r (V.children r).reverse) (merge (.object s) (.object c)) ()
        V2 ∧
      ∀ x, V1.Within s x → Agree V1 V2 x ∧ V2.parent x = V1.parent x := by
  obtain ⟨w, V, s, c, _, hs, hm, hne, hsd, hcd, hskeleton, hcontent⟩ :=
    run'_plantBoth (sampleSkeleton [] [samplePart "b"]) (sampleContent [samplePart "p"])
  have hf := hm.toIsForest
  obtain ⟨main, hc, hbody, hpart, hone, _⟩ := content_sample hm hcd (.inr rfl) hcontent
  obtain ⟨html, head, title, main', b, hnodes, htitlech⟩ := sampleNodes_behind hm hsd hskeleton
  obtain ⟨ht, hfirst⟩ := hnodes.targets hs hm hbody hpart hone
  have hapart : TitleApart V s c main (fun e => if e = main then main' else b) := by
    intro u t _ _ hut
    obtain ⟨_, _, htitle, hmain, _⟩ := hnodes.tags
    rw [hfirst t hut]
    refine ⟨?_, fun e he => ?_⟩
    · simpa using not_within_of_leaf hf hnodes.leaves.1 hmain htitle (by decide)
    · simp [(hpart e he).1, hf.above_iff_child, htitlech]
  obtain ⟨⟨_, r, _, helement, hr⟩, _⟩ := (hc.only_main main).2 rfl
  obtain ⟨tag, hcore⟩ := Tree.isElement_iff.1 helement
  obtain ⟨V1, V2, h⟩ := merge_reordered Env.silent hs hm hne hc ht hapart hr
    (List.reverse_perm (V.children r)) (hs.setChildren hcore rfl _)
  exact ⟨w, _, V, s, c, r, V1, V2, hskeleton, hcontent, hr, h⟩

/-- Whether a skeleton has targets for the parts of a content and merging them fails nevertheless. -/
def FailsWithTargets (skeleton content : Markup.Node) (fault : Fault) : Prop :=
  ∃ w w' V s c main target, Shows w V ∧ V.IsMarkup ∧ s ≠ c ∧
    V.RepresentsAll (V.children s) (treesOf [skeleton]) ∧
    V.RepresentsAll (V.children c) (treesOf [content]) ∧
    Content V c main ∧ Targets V s c main target ∧
    M.run' Env.silent w (merge (.object s) (.object c)) = (.error fault, w')

/-- The selector that a skeleton lacks when both are merged. -/
def lacking (skeleton content : Markup.Node) : Option Text :=
  match (M.run' Env.silent World.blank (do
    let (s, c) ← plantBoth skeleton content
    merge (.object s) (.object c))).1 with
  | .error (.unmatched selector .skeleton) => some selector
  | _ => none

theorem run'_merge_of_lacking {skeleton content : Markup.Node} {selector : Text}
    (h : lacking skeleton content = some selector)
    (hrun : M.run' Env.silent World.blank (plantBoth skeleton content) = (.ok (s, c), w)) :
    ∃ w', M.run' Env.silent w (merge (.object s) (.object c)) =
      (.error (.unmatched selector .skeleton), w') := by
  rw [lacking, M.run'_bind_ok hrun] at h
  generalize M.run' Env.silent w (merge (.object s) (.object c)) = result at h ⊢
  obtain ⟨outcome, w'⟩ := result
  match outcome, h with
  | .error (.unmatched _ .skeleton), rfl => exact ⟨w', rfl⟩

/-- Without the condition on the title of the skeleton, an element with an id can be lost with what
the title held, and the title can be lost with the main element. -/
theorem merge_fails_at_title :
    FailsWithTargets (sampleSkeleton [samplePart "b"] []) (sampleContent [samplePart "p"])
        (.unmatched "#x" .skeleton) ∧
      FailsWithTargets wholeSkeleton (sampleContent [])
        (.unmatched ":root > head > title" .skeleton) := by
  constructor
  · obtain ⟨w, V, s, c, hrun, hs, hm, hne, hsd, hcd, hskeleton, hcontent⟩ :=
      run'_plantBoth (sampleSkeleton [samplePart "b"] []) (sampleContent [samplePart "p"])
    obtain ⟨main, hc, hbody, hpart, hone, _⟩ := content_sample hm hcd (.inr rfl) hcontent
    obtain ⟨html, head, title, main', b, hnodes⟩ := sampleNodes_inTitle hm hsd hskeleton
    obtain ⟨ht, _⟩ := hnodes.targets hs hm hbody hpart hone
    have hlacking : lacking (sampleSkeleton [samplePart "b"] []) (sampleContent [samplePart "p"]) =
        some (Text.ofString "#x") := by decide +kernel
    obtain ⟨w', hfail⟩ := run'_merge_of_lacking hlacking hrun
    exact ⟨w, w', V, s, c, main, _, hs, hm, hne, hskeleton, hcontent, hc, ht, hfail⟩
  · obtain ⟨w, V, s, c, hrun, hs, hm, hne, hsd, hcd, hskeleton, hcontent⟩ :=
      run'_plantBoth wholeSkeleton (sampleContent [])
    obtain ⟨main, hc, hbody, _, _, hnone⟩ := content_sample hm hcd (.inl rfl) hcontent
    obtain ⟨root, ht⟩ := targets_wholeSkeleton hs hm hsd hskeleton hbody (hnone rfl)
    have hlacking : lacking wholeSkeleton (sampleContent []) =
        some (Text.ofString ":root > head > title") := by decide +kernel
    obtain ⟨w', hfail⟩ := run'_merge_of_lacking hlacking hrun
    exact ⟨w, w', V, s, c, main, _, hs, hm, hne, hskeleton, hcontent, hc, ht, hfail⟩

end Page

end PageTemplate
