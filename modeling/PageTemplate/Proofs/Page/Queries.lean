import PageTemplate.Page.Compose
import PageTemplate.Proofs.Selector.Agreement
import PageTemplate.Proofs.Tree.Exchange

/-!
# PageTemplate.Proofs.Page.Queries

The queries that making a page of two documents consists of, said of the trees: elements with a
tag or an id, and elements right below the root of a document.

The root itself is asked for in two ways. The root element of a document is its first child that is
an element, and the pseudo-class for roots is that of all children of documents that are elements.
So the two are the same in a document with one such child, and in one without any; where there are
more, the first element that the selector selects is the root element, and the others are selected
with it.
-/

namespace PageTemplate

namespace View

/-- Whether a node is an element with a certain tag. -/
def HasTag (V : View) (tag : Text) (e : ObjectId) : Prop := V.core e = some (.element (.text tag))

/-- Whether a node is an element with a certain id. -/
def HasId (V : View) (id : Text) (e : ObjectId) : Prop :=
  V.isElement e = true ∧ V.attribute? e "id" = some id

/-- Whether a node is an element right below a root element of a document. -/
def IsTop (V : View) (d e : ObjectId) : Prop :=
  V.isElement e = true ∧ ∃ r, V.parent e = some r ∧ V.isElement r = true ∧ V.parent r = some d

/-- Whether a node is a title in the head of a document. -/
def IsHeadTitle (V : View) (d e : ObjectId) : Prop :=
  V.HasTag "title" e ∧ ∃ h, V.parent e = some h ∧ V.HasTag "head" h ∧ V.IsTop d h

variable {V : View} {d e : ObjectId}

theorem HasTag.isElement {tag : Text} (h : V.HasTag tag e) : V.isElement e = true := by
  rw [View.isElement, show V.core e = _ from h]
  rfl

theorem HasTag.unique {tag other : Text} (h : V.HasTag tag e) (h' : V.HasTag other e) :
    tag = other := by
  cases h.symm.trans h'
  rfl

theorem not_isElement_document (hd : V.core d = some .document) : V.isElement d = false := by
  rw [isElement, hd]
  rfl

/-- A document is a root. -/
theorem IsForest.document_root (hf : V.IsForest) (hd : V.core d = some .document) :
    V.parent d = none := by
  cases hp : V.parent d with
  | none => rfl
  | some p =>
    obtain ⟨core, hcore, hi⟩ := hf.inner d p hp
    cases hd.symm.trans hcore
    cases hi

theorem IsTop.above (h : V.IsTop d e) : V.Above d e := by
  obtain ⟨_, r, hr, _, hd⟩ := h
  exact .head hr (.single hd)

/-- The parent of what is below a document is the document, or it is below it as well. -/
theorem above_parent {r : ObjectId} (hd : V.core d = some .document) (ha : V.Above d e)
    (hr : V.parent e = some r) (helement : V.isElement r = true) : V.Above d r := by
  obtain ⟨y, hy, hup⟩ := Relation.TransGen.head'_iff.1 ha
  cases hr.symm.trans hy
  refine (Relation.reflTransGen_iff_eq_or_transGen.1 hup).resolve_left ?_
  rintro rfl
  rw [not_isElement_document hd] at helement
  cases helement

/-- What has a document as its parent is the same as what is right below that document. -/
theorem IsForest.parent_document_iff (hf : V.IsForest) (hd : V.core d = some .document)
    (ha : V.Above d e) :
    (∃ d', V.parent e = some d' ∧ V.core d' = some .document) ↔ V.parent e = some d := by
  constructor
  · rintro ⟨d', hp, hd'⟩
    obtain ⟨y, hy, hup⟩ := Relation.TransGen.head'_iff.1 ha
    cases hp.symm.trans hy
    rcases Relation.reflTransGen_iff_eq_or_transGen.1 hup with rfl | hup
    · exact hp
    · obtain ⟨z, hz, _⟩ := Relation.TransGen.head'_iff.1 hup
      rw [hf.document_root hd'] at hz
      cases hz
  · exact fun hp => ⟨d, hp, hd⟩

/-- Below a document, being right below a root element is being so in this document. -/
theorem isTop_iff (hf : V.IsForest) (hd : V.core d = some .document) (ha : V.Above d e) :
    V.IsTop d e ↔ V.isElement e = true ∧ ∃ r, V.parent e = some r ∧ V.isElement r = true ∧
      ∃ d', V.parent r = some d' ∧ V.core d' = some .document := by
  refine and_congr_right fun _ => exists_congr fun r => and_congr_right fun hr =>
    and_congr_right fun helement => ?_
  rw [hf.parent_document_iff hd (above_parent hd ha hr helement)]

end View

namespace Selector

variable {V : View}

/-- A compound that asks for a tag only. -/
abbrev ofTag (tag : Text) : Compound Pseudo := ⟨some tag, none, [], [], []⟩

/-- The compound that asks for the root element. -/
abbrev ofRoot : Compound Pseudo := ⟨none, none, [], [], [.plain .root]⟩

/-- The compound that asks for an id of any kind. -/
abbrev withId : Compound Pseudo := ⟨none, none, [], [⟨"id", none⟩], []⟩

theorem read_main : read "main" = .ok [[⟨.descendant, ofTag "main"⟩]] :=
  read_of_parts "main" (by decide +kernel) rfl

theorem read_body : read "body" = .ok [[⟨.descendant, ofTag "body"⟩]] :=
  read_of_parts "body" (by decide +kernel) rfl

theorem read_documentFragment :
    read "document-fragment" = .ok [[⟨.descendant, ofTag "document-fragment"⟩]] :=
  read_of_parts "document-fragment" (by decide +kernel) rfl

theorem read_rootMain :
    read ":root > main" = .ok [[⟨.child, ofTag "main"⟩, ⟨.descendant, ofRoot⟩]] :=
  read_of_parts ":root > main" (by decide +kernel) rfl

theorem read_rootTitle :
    read ":root > title" = .ok [[⟨.child, ofTag "title"⟩, ⟨.descendant, ofRoot⟩]] :=
  read_of_parts ":root > title" (by decide +kernel) rfl

theorem read_rootId :
    read ":root > [id]" = .ok [[⟨.child, withId⟩, ⟨.descendant, ofRoot⟩]] :=
  read_of_parts ":root > [id]" (by decide +kernel) rfl

theorem read_headTitle : read ":root > head > title" =
    .ok [[⟨.child, ofTag "title"⟩, ⟨.child, ofTag "head"⟩, ⟨.descendant, ofRoot⟩]] :=
  read_of_parts ":root > head > title" (by decide +kernel) rfl

theorem fits_ofTag {tag : Text} {e : ObjectId} : (ofTag tag).Fits V e ↔ V.HasTag tag e := by
  constructor
  · intro h
    exact h.tag tag rfl
  · intro h
    refine ⟨?_, nofun, nofun, nofun, nofun⟩
    rintro _ ⟨⟩
    exact h

theorem fits_withId {e : ObjectId} :
    withId.Fits V e ↔ ∃ id, V.attribute? e "id" = some id := by
  rw [fits_attribute]
  exact ⟨fun ⟨id, hid, _⟩ => ⟨id, hid⟩, fun ⟨id, hid⟩ => ⟨id, hid, nofun⟩⟩

theorem fits_ofRoot {e : ObjectId} :
    ofRoot.Fits V e ↔ ∃ d, V.parent e = some d ∧ V.core d = some .document := by
  constructor
  · intro h
    exact h.pseudos (.plain .root) List.mem_cons_self
  · intro h
    refine ⟨nofun, nofun, nofun, nofun, ?_⟩
    intro p hp
    cases List.mem_singleton.1 hp
    exact h

theorem matches_tag {c : Combinator} {tag : Text} {e : ObjectId} :
    Matches V [[⟨c, ofTag tag⟩]] e ↔ V.HasTag tag e := by
  rw [matches_single, fits_ofTag]
  exact ⟨And.right, fun h => ⟨h.isElement, h⟩⟩

/-- A compound right below the root element of a document. -/
theorem matches_top (hf : V.IsForest) {d e : ObjectId} (hd : V.core d = some .document)
    (ha : V.Above d e) {compound : Compound Pseudo} :
    Matches V [[⟨.child, compound⟩, ⟨.descendant, ofRoot⟩]] e ↔
      V.IsTop d e ∧ compound.Fits V e := by
  rw [View.isTop_iff hf hd ha]
  simp only [Matches, List.mem_singleton, exists_eq_left, exists_chosen_cons, exists_chosen_single,
    Combinator.Links, fits_ofRoot]
  constructor
  · rintro ⟨he, hfit, r, hr, helement, d', hp, hd'⟩
    exact ⟨⟨he, r, hr, helement, d', hp, hd'⟩, hfit⟩
  · rintro ⟨⟨he, r, hr, helement, d', hp, hd'⟩, hfit⟩
    exact ⟨he, hfit, r, hr, helement, d', hp, hd'⟩

theorem matches_headTitle (hf : V.IsForest) {d e : ObjectId} (hd : V.core d = some .document)
    (ha : V.Above d e) :
    Matches V [[⟨.child, ofTag "title"⟩, ⟨.child, ofTag "head"⟩, ⟨.descendant, ofRoot⟩]] e ↔
      V.IsHeadTitle d e := by
  simp only [Matches, List.mem_singleton, exists_eq_left]
  rw [exists_chosen_cons, fits_ofTag]
  simp only [Combinator.Links, View.IsHeadTitle]
  constructor
  · rintro ⟨_, htag, h, hp, hchosen⟩
    have hmatch : Matches V [[⟨.child, ofTag "head"⟩, ⟨.descendant, ofRoot⟩]] h := by
      simpa [Matches] using hchosen
    have helement : V.isElement h = true := by
      obtain ⟨es, hes⟩ := hchosen
      exact hes.isElement
    obtain ⟨htop, hfit⟩ := (matches_top hf hd (View.above_parent hd ha hp helement)).1 hmatch
    exact ⟨htag, h, hp, fits_ofTag.1 hfit, htop⟩
  · rintro ⟨htag, h, hp, hh, htop⟩
    have hmatch := (matches_top hf hd htop.above).2 ⟨htop, fits_ofTag.2 hh⟩
    exact ⟨htag.isElement, htag, h, hp, by simpa [Matches] using hmatch⟩

end Selector

namespace Tree

open Selector

variable {env : Env} {w : World} {V : View} {root : ObjectId}

/-- A selector selects the first element that has the property for which it stands. -/
theorem run'_select_first (hs : Shows w V) (hm : V.IsMarkup) (hroot : V.Container root) {text : Text}
    {s : Alternatives} (hread : read text = .ok s) (happ : IsApplicable s) {P : ObjectId → Prop}
    {t : ObjectId} (h : V.IsFirst root P t) (hP : ∀ x, V.Above root x → (Matches V s x ↔ P x)) :
    M.run' env w (select? (.object root) text) = (.ok (some (.object t)), w) := by
  classical
  obtain ⟨ds, hds, hfind⟩ := View.isFirst_iff.1 h
  have hall := run'_selectAll env hs hm hroot hds hread happ
    (p := fun e => decide (Matches V s e)) (by simp)
  have hfilter : (ds.filter V.isElement).filter (fun e => decide (Matches V s e)) =
      ds.filter fun e => decide (P e) := by
    rw [List.filter_filter]
    refine List.filter_congr fun x hx => ?_
    have hx := hP x ((hds.mem_children_iff hm.toIsForest).1 hx)
    have helement : Matches V s x → V.isElement x = true := by
      rintro ⟨chain, hchain, es, hes⟩
      obtain ⟨hne, _⟩ := happ chain hchain
      cases chain with
      | nil => exact absurd rfl hne
      | cons step before => exact hes.isElement
    rw [Bool.eq_iff_iff, Bool.and_eq_true, decide_eq_true_iff, decide_eq_true_iff, ← hx]
    exact ⟨And.left, fun hmatch => ⟨hmatch, helement hmatch⟩⟩
  rw [hfilter] at hall
  rw [run'_select_of_selectAll hall, List.head?_filter, hfind]
  rfl

/-- A selector that no element matches selects nothing. -/
theorem run'_select_none (hs : Shows w V) (hm : V.IsMarkup) (hroot : V.Container root) {text : Text}
    {s : Alternatives} (hread : read text = .ok s) (happ : IsApplicable s)
    (h : ∀ x, V.Above root x → ¬ Matches V s x) :
    M.run' env w (select? (.object root) text) = (.ok none, w) := by
  obtain ⟨es, hes, hall⟩ := selectAll_lists env hs hm hroot hread happ
  have hnil : es = [] := by
    refine List.eq_nil_iff_forall_not_mem.2 fun x hx => ?_
    obtain ⟨ha, _, hmatch⟩ := (hes.mem_iff x).1 hx
    exact h x ha hmatch
  rw [run'_select_of_selectAll hall, hnil]
  rfl

theorem run'_findById_first (hs : Shows w V) (hf : V.IsForest) (hroot : V.Container root) {id : Text}
    {t : ObjectId} (h : V.IsFirst root (V.HasId id) t) :
    M.run' env w (findById? (.object root) (.text id)) = (.ok (some (.object t)), w) := by
  classical
  obtain ⟨ds, hds, hfind⟩ := View.isFirst_iff.1 h
  have hfilter : ds.filter (hasId V id) = ds.filter fun e => decide (V.HasId id e) := by
    refine List.filter_congr fun x _ => ?_
    rw [Bool.eq_iff_iff, decide_eq_true_iff]
    simp [hasId, View.HasId]
  rw [run'_findById hs hf hroot hds id, hfilter, List.head?_filter, hfind]
  rfl

end Tree

namespace Page

variable {env : Env} {w : World} {V : View}

theorem run'_require {d t : ObjectId} {text : Text} (side : Side)
    (h : M.run' env w (Tree.select? (.object d) text) = (.ok (some (.object t)), w)) :
    M.run' env w (require (.object d) text side) = (.ok (.object t), w) := by
  rw [require, M.run'_bind_ok h]
  rfl

end Page

namespace View

variable {V : View}

/-- Of what lies below a node, in document order, its children are in the order of its list. -/
theorem Preorder.filter_parent (hf : V.IsForest) {p : ObjectId} {ids ds : List ObjectId}
    (h : V.Preorder ids ds) (hids : ∀ x ∈ ids, V.parent x = some p) :
    ds.filter (fun x => V.parent x == some p) = ids := by
  induction h with
  | nil => rfl
  | @cons x xs below rest hb _ _ ihr =>
    have hx := hids x List.mem_cons_self
    have hbelow : below.filter (fun y => V.parent y == some p) = [] := by
      refine List.filter_eq_nil_iff.2 fun y hy hp => ?_
      have hup : V.Above x y := (hb.mem_children_iff hf).1 hy
      obtain ⟨z, hz, hup⟩ := Relation.TransGen.head'_iff.1 hup
      cases (beq_iff_eq.1 hp).symm.trans hz
      exact hf.acyclic x (Relation.TransGen.head' hx hup)
    rw [List.filter_cons_of_pos (by simp [hx]), List.filter_append, hbelow, List.nil_append,
      ihr fun y hy => hids y (List.mem_cons_of_mem x hy)]

end View

namespace Selector

variable {V : View}

theorem read_root : read ":root" = .ok [[⟨.descendant, ofRoot⟩]] :=
  read_of_parts ":root" (by decide +kernel) rfl

theorem matches_root (hf : V.IsForest) {d e : ObjectId} (hd : V.core d = some .document)
    (ha : V.Above d e) {c : Combinator} :
    Matches V [[⟨c, ofRoot⟩]] e ↔ V.isElement e = true ∧ V.parent e = some d := by
  rw [matches_single, fits_ofRoot, hf.parent_document_iff hd ha]

theorem isApplicable_root : IsApplicable [[⟨.descendant, ofRoot⟩]] := by
  simp [IsApplicable]

end Selector

namespace Tree

open Selector

variable {env : Env} {w : World} {V : View} {d : ObjectId}

/-- The root element is the first one among the children. -/
theorem run'_documentElement_head (hs : Shows w V) (hf : V.IsForest) {core : NodeCore}
    (hd : V.core d = some core) (hh : core.hasChildren) :
    M.run' env w (documentElement? (.object d)) =
      (.ok ((V.elements d).head?.map .object), w) := by
  have helements : M.run' env w (((V.children d).map Value.object).filterM isElement) = _ :=
    run'_elementsAmong hs (child_core hf)
  have hfirst : M.run' env w (ChildList.firstElement (.object (childrenOf d))) =
      (.ok (Value.ofOption (((V.elements d).map Value.object).head?)), w) := by
    rw [ChildList.firstElement, M.run'_bind_ok (run'_objectList (hs.list d core hd hh)),
      M.run'_bind_ok helements]
    rfl
  rw [documentElement?, M.run'_bind_ok (run'_childList (hs.record d core hd) hh),
    M.run'_bind_ok hfirst, List.head?_map]
  cases (V.elements d).head? <;> rfl

variable (env) in
/-- The roots of a document are the elements among its children, in their order. -/
theorem run'_selectAll_root (hs : Shows w V) (hm : V.IsMarkup) (hd : V.core d = some .document) :
    M.run' env w (selectAll (.object d) ":root") = (.ok ((V.elements d).map .object), w) := by
  obtain ⟨ds, hds⟩ := hm.exists_preorder hs (V.children d)
  have hroots := hds.filter_parent hm.toIsForest fun x hx => (hm.mem_children d x).1 hx
  classical
  have hall := run'_selectAll env hs hm ⟨_, hd, rfl⟩ hds read_root isApplicable_root
    (p := fun e => decide (Matches V [[⟨.descendant, ofRoot⟩]] e)) (by simp)
  have hfilter : (ds.filter V.isElement).filter
      (fun e => decide (Matches V [[⟨.descendant, ofRoot⟩]] e)) = V.elements d := by
    rw [View.elements, ← hroots, List.filter_filter, List.filter_filter]
    refine List.filter_congr fun x hx => ?_
    rw [Bool.eq_iff_iff, Bool.and_eq_true, decide_eq_true_iff, Bool.and_eq_true,
      matches_root hm.toIsForest hd ((hds.mem_children_iff hm.toIsForest).1 hx), beq_iff_eq]
    exact ⟨fun h => h.1, fun h => ⟨h, h.1⟩⟩
  rw [hfilter] at hall
  exact hall

variable (env) in
/-- **Roots.** The roots that a selector selects in a document are all elements among its children,
in their order, and the first of them is the root element of the document. So they are the root
element alone, or nothing when there is none, exactly when no two children are elements. What a
selector says of the children of a root it says of the children of all of them. -/
theorem roots_of_document (hs : Shows w V) (hm : V.IsMarkup) (hd : V.core d = some .document) :
    M.run' env w (selectAll (.object d) ":root") = (.ok ((V.elements d).map .object), w) ∧
    (∃ r, M.run' env w (documentElement? (.object d)) = (.ok r, w) ∧
      M.run' env w (select? (.object d) ":root") = (.ok r, w) ∧
      ((V.elements d).map .object = r.toList ↔ (V.elements d).length ≤ 1)) ∧
    (∀ e, V.isElement e = true → V.Above d e → ∃ b,
      M.run' env w (matchesSelector (.object e) ":root") = (.ok b, w) ∧
      (b = true ↔ e ∈ V.elements d)) ∧
    ∀ t c, read t = .ok [[⟨.child, c⟩, ⟨.descendant, ofRoot⟩]] →
      (∀ p ∈ c.pseudos, p.IsKnown) → ∃ es,
        V.Lists d (fun x => (∃ r ∈ V.elements d, V.parent x = some r) ∧ c.Fits V x) es ∧
        M.run' env w (selectAll (.object d) t) = (.ok (es.map .object), w) := by
  have hf := hm.toIsForest
  have hall := run'_selectAll_root env hs hm hd
  have hmem : ∀ e, e ∈ V.elements d ↔ V.isElement e = true ∧ V.parent e = some d := fun e => by
    rw [View.elements, List.mem_filter, hf.mem_children, and_comm]
  refine ⟨hall, ⟨_, run'_documentElement_head hs hf hd rfl, run'_select_of_selectAll hall, ?_⟩,
    fun e he ha => ?_, fun t c hread hk => ?_⟩
  · rcases V.elements d with _ | ⟨r, _ | ⟨r', rs⟩⟩ <;> simp
  · obtain ⟨b, hb, hmatches⟩ := run'_matchesSelector hs hm he read_root isApplicable_root
    exact ⟨b, hb, hmatches.trans ((matches_root hf hd ha).trans (hmem e).symm)⟩
  · have happ : IsApplicable [[⟨.child, c⟩, ⟨.descendant, ofRoot⟩]] := by
      simpa [IsApplicable] using hk
    obtain ⟨es, hes, hrun⟩ := selectAll_lists env hs hm ⟨_, hd, rfl⟩ hread happ
    refine ⟨es, ⟨hes.ordered, hes.nodup, fun x => ?_⟩, hrun⟩
    rw [hes.mem_iff]
    refine and_congr_right fun ha => and_congr_right fun he => ?_
    rw [matches_top hf hd ha, View.IsTop]
    refine and_congr_left fun _ => ?_
    simp only [he, true_and, hmem]
    exact exists_congr fun r => by rw [and_comm, and_assoc]

end Tree

end PageTemplate
