import PageTemplate.Proofs.Page.Places
import PageTemplate.Proofs.Tree.Takeover

/-!
# PageTemplate.Proofs.Page.Unwrap

Unwrapping elements: each makes way for its own children. What an unwrapping does to a part of the
store depends on this part only. So where two stores show the same nodes in a part, with everything
below them, they do so after the same elements were unwrapped.
-/

namespace PageTemplate

namespace View

variable {V W : View}

/-- What an unwrapping makes of the old nodes; `f` is the fragment that it makes use of. -/
structure Unwraps (V : View) (t f : ObjectId) (V' : View) : Prop where
  fresh : V.core f = none
  core : ∀ x, x ≠ f → V'.core x = V.core x
  attributes : ∀ x, x ≠ f → V'.attributes x = V.attributes x
  parent : ∀ x, x ≠ f → V'.parent x =
    if x ∈ V.children t then V.parent t else if x = t then none else V.parent x
  children : ∀ x, x ≠ f → V'.children x =
    if x = t then [] else (V.children x).flatMap fun c => if c = t then V.children t else [c]

namespace Unwraps

variable {V' : View} {t f : ObjectId}

theorem ne_fresh (h : V.Unwraps t f V') {x : ObjectId} (hx : V.Known x) : x ≠ f := by
  rintro rfl
  obtain ⟨core, hcore⟩ := hx
  rw [h.fresh] at hcore
  cases hcore

/-- Children of the element get its parent, and other nodes but the element itself keep theirs. -/
theorem parent_other (h : V.Unwraps t f V') {x : ObjectId} (hx : V.Known x) (hxt : x ≠ t) :
    V'.parent x = if x ∈ V.children t then V.parent t else V.parent x := by
  rw [h.parent x (h.ne_fresh hx), if_neg hxt]

/-- What had a parent has one. -/
theorem parent_ne_none (h : V.Unwraps t f V') (ht : V.parent t ≠ none) {x : ObjectId}
    (hx : V.Known x) (hxt : x ≠ t) (hp : V.parent x ≠ none) : V'.parent x ≠ none := by
  rw [h.parent_other hx hxt]
  split
  · exact ht
  · exact hp

end Unwraps

/-- Whether two views show the same nodes in some part of them, with all that is below. -/
structure SameOn (K : ObjectId → Prop) (V W : View) : Prop where
  nodes : ∀ x, K x → ∃ core, V.core x = some core
  agree : ∀ x, K x → Agree V W x
  parent : ∀ x, K x → W.parent x = V.parent x
  closed : ∀ x y, K x → y ∈ V.children x → K y

namespace SameOn

variable {K : ObjectId → Prop} {V' W' : View} {s t f g : ObjectId}

/-- Unwrapping the same element leaves the same nodes. -/
theorem unwraps (h : SameOn K V W) (hV : V.Unwraps t f V') (hW : W.Unwraps t g W') (ht : K t) :
    SameOn K V' W' := by
  have hxf : ∀ x, K x → x ≠ f := fun x hx => hV.ne_fresh (h.nodes x hx)
  have hxg : ∀ x, K x → x ≠ g := fun x hx => by
    obtain ⟨core, hcore⟩ := h.nodes x hx
    exact hW.ne_fresh ⟨core, (h.agree x hx).core.trans hcore⟩
  have hct := (h.agree t ht).children
  refine ⟨fun x hx => ?_, fun x hx => ⟨?_, ?_, ?_⟩, fun x hx => ?_, fun x y hx hy => ?_⟩
  · rw [hV.core x (hxf x hx)]
    exact h.nodes x hx
  · rw [hV.core x (hxf x hx), hW.core x (hxg x hx), (h.agree x hx).core]
  · rw [hV.children x (hxf x hx), hW.children x (hxg x hx), (h.agree x hx).children, hct]
  · rw [hV.attributes x (hxf x hx), hW.attributes x (hxg x hx), (h.agree x hx).attributes]
  · rw [hV.parent x (hxf x hx), hW.parent x (hxg x hx), hct, h.parent t ht, h.parent x hx]
  · rw [hV.children x (hxf x hx)] at hy
    split at hy
    · cases hy
    · obtain ⟨c, hc, hy⟩ := List.mem_flatMap.1 hy
      split at hy
      · exact h.closed t y ht hy
      · rw [List.mem_singleton.1 hy]
        exact h.closed x c hx hc

/-- What lies inside of a node of the part belongs to it. -/
theorem of_within (h : SameOn K V W) (hf : V.IsForest) (hs : K s) {x : ObjectId}
    (hx : V.Within s x) : K x := by
  rcases hx with rfl | hx
  · exact hs
  · induction hx using Relation.TransGen.head_induction_on with
    | single hx => exact h.closed s _ hs ((hf.mem_children s _).2 hx)
    | head hx _ ih => exact h.closed _ _ ih ((hf.mem_children _ _).2 hx)

end SameOn

/-- New nodes that are not elements keep a view a view of markup. -/
theorem IsMarkup.add (h : V.IsMarkup) {new : ObjectId} (hnew : V.core new = none) {core : NodeCore}
    (hc : ∀ tag, core ≠ .element tag) : (V.add new core []).IsMarkup := by
  refine ⟨h.toIsRegular.add hnew (fun tag ht => absurd ht (hc tag)) [], fun e tag he => ?_⟩
  by_cases hen : e = new
  · simp only [View.add, hen, if_true, Option.some.injEq] at he
    exact absurd he (hc tag)
  · simp only [View.add, hen, if_false] at he ⊢
    exact h.attributes e tag he

/-- Where the children of an element have taken its place, by way of a new fragment. -/
theorem TakesPlace.unwraps {V' : View} {t f p : ObjectId} (hf : V.IsForest)
    (hnew : V.core f = none) (hp : V.parent t = some p)
    (h : (V.add f .fragment []).TakesPlace p t (V.children t) V') : V.Unwraps t f V' := by
  refine ⟨hnew, fun x hx => ?_, fun x hx => ?_, fun x hx => ?_, fun x hx => ?_⟩
  · rw [h.core]
    simp [add, hx]
  · rw [h.attributes]
    simp [add, hx]
  · by_cases hxm : x ∈ V.children t
    · rw [if_pos hxm, h.arrived x hxm, hp]
    · by_cases hxt : x = t
      · rw [if_neg hxm, if_pos hxt, hxt, h.gone]
      · rw [if_neg hxm, if_neg hxt, h.kept x hxt hxm]
        simp [add, hx]
  · have hadd : (V.add f .fragment []).children x = V.children x := by simp [add, hx]
    by_cases hxp : x = p
    · have hpt : p ≠ t := (hf.ne_of_parent hp).symm
      have hx' := h.here
      rw [← hxp, hadd, filter_children hf (hxp ▸ hpt)] at hx'
      rw [hx', if_neg (hxp ▸ hpt)]
    · rw [h.elsewhere x hxp, hadd]
      by_cases hxt : x = t
      · rw [if_pos hxt, hxt, filter_self]
      · have hnot : t ∉ V.children x := fun hm => by
          cases hp.symm.trans ((hf.mem_children x t).1 hm)
          exact hxp rfl
        rw [if_neg hxt, filter_children hf hxt, flatMap_keep hnot]

end View

namespace Tree

open View

variable {env : Env} {w : World} {V : View}

theorem does_stripOut (hs : Shows w V) (hm : V.IsMarkup) {t p : ObjectId} {tag : Value}
    (ht : V.core t = some (.element tag)) (hp : V.parent t = some p) :
    ∃ f V', Does env w V (stripOut (.object t)) () V' ∧ V'.IsMarkup ∧ V.Unwraps t f V' := by
  obtain ⟨f, hnew, hdoes, hforest, htakes⟩ := does_strip env hs hm.toIsForest ht hp
  have hm1 : (V.add f .fragment []).IsMarkup := hm.add hnew fun tag h => by cases h
  exact ⟨f, _, hdoes, hm1.relinked hforest htakes.core htakes.attributes,
    htakes.unwraps hm.toIsForest hnew hp⟩

variable (env) in
/-- Elements with parents are unwrapped one after another, in two stores at once. -/
theorem does_stripAll {K : ObjectId → Prop} {ts : List ObjectId} (hn : ts.Nodup) :
    ∀ {w w' : World} {V W : View}, Shows w V → V.IsMarkup → Shows w' W → W.IsMarkup →
      SameOn K V W → (∀ t ∈ ts, K t ∧ V.isElement t = true ∧ V.parent t ≠ none) →
      ∃ V' W', Does env w V ((ts.map Value.object).forM stripOut) () V' ∧ V'.IsMarkup ∧
        Does env w' W ((ts.map Value.object).forM stripOut) () W' ∧ SameOn K V' W' := by
  induction ts with
  | nil =>
    intro w w' V W hs hm hs' _ h _
    exact ⟨V, W, .pure hs (), hm, .pure hs' (), h⟩
  | cons t ts ih =>
    intro w w' V W hs hm hs' hm' h hts
    obtain ⟨hnot, hn⟩ := List.nodup_cons.1 hn
    obtain ⟨ht, helement, hparent⟩ := hts t List.mem_cons_self
    obtain ⟨tag, hcore⟩ := isElement_iff.1 helement
    obtain ⟨p, hp⟩ := Option.ne_none_iff_exists'.1 hparent
    obtain ⟨f, V1, ⟨w1, hrun1, hs1⟩, hm1, hV1⟩ : ∃ f V', Does env w V _ () V' ∧ _ ∧ _ :=
      does_stripOut hs hm hcore hp
    obtain ⟨g, W1, ⟨w1', hrun1', hs1'⟩, hm1', hW1⟩ : ∃ f V', Does env w' W _ () V' ∧ _ ∧ _ :=
      does_stripOut hs' hm' ((h.agree t ht).core.trans hcore) ((h.parent t ht).trans hp)
    obtain ⟨V2, W2, ⟨w2, hrun2, hs2⟩, hm2, ⟨w2', hrun2', hs2'⟩, h2⟩ :=
      ih hn hs1.shows hm1 hs1'.shows hm1' (h.unwraps hV1 hW1 ht) fun u hu => by
        obtain ⟨hku, hue, hup⟩ := hts u (List.mem_cons_of_mem t hu)
        have hknown := h.nodes u hku
        have hut : u ≠ t := fun hut => hnot (hut ▸ hu)
        exact ⟨hku, by rwa [View.isElement, hV1.core u (hV1.ne_fresh hknown)],
          hV1.parent_ne_none hparent hknown hut hup⟩
    exact ⟨V2, W2, ⟨w2, (M.run'_bind_ok hrun1).trans hrun2, hs1.trans hs2⟩, hm2,
      ⟨w2', (M.run'_bind_ok hrun1').trans hrun2', hs1'.trans hs2'⟩, h2⟩

end Tree

namespace Page

open View

variable {env : Env} {w w' : World} {V W : View} {s : ObjectId}

/-- Unwrapping everything in a document that is to be unwrapped, in two stores that show the same
document, leaves the same document. -/
theorem does_unwrapAll (hs : Shows w V) (hm : V.IsMarkup) (hs' : Shows w' W) (hm' : W.IsMarkup)
    (hsc : V.Container s) (h : SameOn (V.Within s) V W) :
    ∃ V' W', Does env w V (do
          (← Tree.selectAll (.object s) "document-fragment").forM Tree.stripOut) () V' ∧
        Does env w' W (do
          (← Tree.selectAll (.object s) "document-fragment").forM Tree.stripOut) () W' ∧
        ∀ x, V'.Within s x → Agree V' W' x ∧ W'.parent x = V'.parent x := by
  classical
  obtain ⟨ds, hds⟩ := hm.exists_preorder hs (V.children s)
  have hbelow : ∀ x ∈ ds, V.Within s x := fun x hx =>
    .inr ((hds.mem_children_iff hm.toIsForest).1 hx)
  have hself := h.agree s (.inl rfl)
  have hds' : W.Preorder (W.children s) ds := by
    rw [hself.children]
    exact hds.congr fun x hx => (h.agree x (hbelow x hx)).children
  have hsc' : W.Container s := by
    obtain ⟨core, hcore, hh⟩ := hsc
    exact ⟨core, hself.core.trans hcore, hh⟩
  have happ : Selector.IsApplicable
      [[⟨.descendant, Selector.ofTag "document-fragment"⟩]] := by
    simp [Selector.IsApplicable]
  have hall := Tree.run'_selectAll env hs hm hsc hds Selector.read_documentFragment happ
    (p := fun e => decide (V.HasTag "document-fragment" e)) fun e => by
      rw [decide_eq_true_iff, Selector.matches_tag]
  have hall' := Tree.run'_selectAll env hs' hm' hsc' hds' Selector.read_documentFragment happ
    (p := fun e => decide (W.HasTag "document-fragment" e)) fun e => by
      rw [decide_eq_true_iff, Selector.matches_tag]
  have hsame : (ds.filter W.isElement).filter
        (fun e => decide (W.HasTag "document-fragment" e)) =
      (ds.filter V.isElement).filter fun e => decide (V.HasTag "document-fragment" e) := by
    rw [List.filter_filter, List.filter_filter]
    refine List.filter_congr fun x hx => ?_
    have hcore := (h.agree x (hbelow x hx)).core
    have helement : W.isElement x = V.isElement x := by rw [View.isElement, View.isElement, hcore]
    have htag : W.HasTag "document-fragment" x ↔ V.HasTag "document-fragment" x := by
      rw [View.HasTag, View.HasTag, hcore]
    rw [helement, decide_eq_decide.2 htag]
  rw [hsame] at hall'
  have hnodup : ds.Nodup := hds.nodup hm.toIsForest (hm.siblings_apart s)
  obtain ⟨V', W', hV', hmV, hW', h'⟩ := Tree.does_stripAll env
    ((hnodup.filter _).filter _) hs hm hs' hm' h fun t ht => by
      obtain ⟨ht, _⟩ := List.mem_filter.1 ht
      obtain ⟨ht, helement⟩ := List.mem_filter.1 ht
      refine ⟨hbelow t ht, helement, ?_⟩
      obtain ⟨p, hp, _⟩ := Relation.TransGen.head'_iff.1
        ((hds.mem_children_iff hm.toIsForest).1 ht)
      rw [hp]
      simp
  refine ⟨V', W', .bind_of_run hall hV', .bind_of_run hall' hW', fun x hx => ?_⟩
  have hk := h'.of_within hmV.toIsForest (.inl rfl) hx
  exact ⟨h'.agree x hk, h'.parent x hk⟩

end Page

end PageTemplate
