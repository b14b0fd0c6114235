import PageTemplate.Proofs.Page.Unwrap

/-!
# PageTemplate.Proofs.Page.Placing

The parts of a content that go into a skeleton: its main element, its title, and the elements at its
top that have an id. When every part has a target and no target is in the way of another, all parts
are put in their places. So it is said what a content and a skeleton must be like for a page to be
made of them, and what is made: all parts of the content in the places of their targets.
-/

namespace PageTemplate

namespace View

variable {V W : View}

section First

variable {root t : ObjectId} {P Q : ObjectId → Prop}

theorem IsForest.isFirst_of_unique {w : World} (hs : Shows w V) (hf : V.IsForest)
    (ha : V.Above root t) (ht : P t) (hu : ∀ x, V.Above root x → P x → x = t) :
    V.IsFirst root P t := by
  obtain ⟨ds, hds⟩ := hf.exists_preorder hs (V.children root)
  obtain ⟨before, behind, rfl⟩ := List.append_of_mem ((hds.mem_children_iff hf).2 ha)
  have hnodup := hds.nodup hf (hf.siblings_apart root)
  refine ⟨before, behind, hds, ht, fun x hx hP => ?_⟩
  have hxt := hu x ((hds.mem_children_iff hf).1 (by simp [hx])) hP
  exact not_mem_before hnodup (hxt ▸ hx)

theorem IsFirst.congr (hf : V.IsForest) (h : V.IsFirst root P t)
    (hc : ∀ y, V.Within root y → W.children y = V.children y)
    (hPQ : ∀ x, V.Above root x → (Q x ↔ P x)) : W.IsFirst root Q t := by
  obtain ⟨before, behind, hds, ht, hno⟩ := h
  have hmem : ∀ x ∈ before ++ t :: behind, V.Above root x := fun x hx =>
    (hds.mem_children_iff hf).1 hx
  refine ⟨before, behind, ?_, (hPQ t (hmem t (by simp))).2 ht, fun x hx hQ => ?_⟩
  · rw [hc root (.inl rfl)]
    exact hds.congr fun y hy => hc y (.inr (hmem y hy))
  · exact hno x hx ((hPQ x (hmem x (by simp [hx]))).1 hQ)

theorem KeepsIds.isFirst (hk : V.KeepsIds W) (hf : V.IsForest) (h : V.IsFirst root P t)
    (hPQ : ∀ x, Q x ↔ P x) : W.IsFirst root Q t :=
  h.congr hf (fun y _ => congrFun hk.children y) fun x _ => hPQ x

end First

/-! Titles. -/

/-- Whether a node is a title in a head says the links above it. -/
theorem isHeadTitle_congr {d x : ObjectId} (hc : W.core = V.core)
    (hp : ∀ y, V.Within y x → W.parent y = V.parent y) :
    W.IsHeadTitle d x ↔ V.IsHeadTitle d x := by
  have hx : W.parent x = V.parent x := hp x (.inl rfl)
  simp only [IsHeadTitle, HasTag, IsTop, isElement, hc, hx]
  refine and_congr_right fun _ => exists_congr fun h => and_congr_right fun hh => ?_
  have hxh : V.Above h x := .single hh
  rw [hp h (.inr hxh)]
  refine and_congr_right fun _ => and_congr_right fun _ => exists_congr fun r => ?_
  refine and_congr_right fun hr => ?_
  rw [hp r (.inr (hxh.tail hr))]

/-- Whether the title of a content goes to the title of a skeleton, or the content has none. -/
def MovesTitle (V : View) (s c : ObjectId) : Option (ObjectId × ObjectId) → Prop
  | none => ∀ u, V.IsTop c u → ¬ V.HasTag "title" u
  | some (t, u) => V.IsFirst s (V.IsHeadTitle s) t ∧ V.IsTop c u ∧ V.HasTag "title" u ∧
      ∀ x, V.IsTop c x → V.HasTag "title" x → x = u

/-- The view after a title was moved. -/
def moveTitle (V : View) : Option (ObjectId × ObjectId) → View
  | none => V
  | some (t, u) => V.refill t u

variable {s c t e : ObjectId} {title : Option (ObjectId × ObjectId)}

theorem MovesTitle.keepsIds (h : V.MovesTitle s c title) (hf : V.IsForest) (hk : V.KeepsIds W) :
    W.MovesTitle s c title := by
  obtain ⟨core, parent, children, attributes⟩ := W
  obtain ⟨rfl, rfl, rfl, _⟩ := hk
  match title with
  | none => exact h
  | some (t, u) =>
    obtain ⟨hfirst, hu⟩ := h
    exact ⟨hfirst.congr hf (fun _ _ => rfl) fun _ _ => .rfl, hu⟩

/-- A main element that takes another's place brings no title, unless the other was a root. -/
theorem not_isHeadTitle_exchange (h : V.Apart s c) (ht : V.Above s t) (he : V.Above c e)
    (hmain : V.HasTag "main" e) (hroot : V.parent t ≠ some s) {x : ObjectId} (hx : V.Within e x) :
    ¬ (V.exchange t e).IsHeadTitle s x := by
  have hstep : ∀ {x p : ObjectId} {tag : Text}, V.Within e x → V.HasTag tag x →
      tag ≠ "main" → (V.exchange t e).parent x = some p → V.parent x = some p ∧ V.Within e p := by
    intro x p tag hx htag hne hp
    have hxe : x ≠ e := by
      rintro rfl
      exact hne (htag.unique hmain)
    have hcx : V.Above c x := hx.elim (fun hxe => hxe ▸ he) fun hx => hx.trans he
    have hxt : x ≠ t := (h.ne_of_within (.inr ht) (.inr hcx)).symm
    rw [exchange_parent, if_neg hxe, if_neg hxt] at hp
    obtain ⟨q, hq, hw⟩ := (within_step_iff.1 hx).resolve_left hxe
    cases hp.symm.trans hq
    exact ⟨hp, hw⟩
  rintro ⟨htitle, p, hp, hhead, _, r, hr, _, hrs⟩
  obtain ⟨_, hw⟩ := hstep hx htitle (by decide) hp
  obtain ⟨_, hw⟩ := hstep hw hhead (by decide) hr
  have hcr : V.Above c r := hw.elim (fun hre => hre ▸ he) fun hw => hw.trans he
  rw [exchange_parent] at hrs
  split at hrs
  · exact hroot hrs
  · split at hrs
    · cases hrs
    · exact h.parent_ne hcr (.inl rfl) hrs

theorem MovesTitle.exchange {w : World} (hs : Shows w V) (hf : V.IsForest)
    (hmoves : V.MovesTitle s c title) (h : V.Apart s c) (ht : V.Above s t)
    (he : V.IsTop c e) (hmain : V.HasTag "main" e)
    (hroot : ∀ x, V.isElement x = true → V.parent x = some s → V.parent t = some s → x = t)
    (hout : ∀ p ∈ title, ¬ V.Within t p.1) : (V.exchange t e).MovesTitle s c title := by
  match title with
  | none =>
    intro u hu
    exact hmoves u ((isTop_exchange h ht he).1 hu).1
  | some (t', u) =>
    obtain ⟨hfirst, hu, htag, hunique⟩ := hmoves
    have hno := hout _ rfl
    have hts : V.parent t ≠ some s := by
      intro hts
      obtain ⟨_, p, hp, _, _, r, hr, helement, hrs⟩ := hfirst.holds
      cases hroot r helement hrs hts
      exact hno (.inr (.head hp (.single hr)))
    have hue : u ≠ e := by
      rintro rfl
      have htags : Text.ofString "title" = "main" := htag.unique hmain
      revert htags
      decide
    refine ⟨?_, (isTop_exchange h ht he).2 ⟨hu, hue⟩, htag, fun x hx =>
      hunique x ((isTop_exchange h ht he).1 hx).1⟩
    refine Apart.isFirst_exchange hf h ht he.above hs hfirst hno
      (fun x hx => not_isHeadTitle_exchange h ht he.above hmain hts hx) fun x hsx htx => ?_
    refine isHeadTitle_congr rfl fun y hy => ?_
    have hyt : y ≠ t := fun hyt => htx (hyt ▸ hy)
    have hye : y ≠ e := by
      rintro rfl
      have hcx : V.Within c x := within_iff.2 ((within_iff.1 hy).trans (within_iff.1 (.inr he.above)))
      exact h.not_within (.inr hsx) hcx
    rw [exchange_parent, if_neg hye, if_neg hyt]

end View

namespace Page

open View

variable {env : Env} {w : World} {V : View} {s c : ObjectId} {target : ObjectId → ObjectId}
  {title : Option (ObjectId × ObjectId)}

/-- Whether an element at the top of a content takes the place of an element with the same id. -/
def IsPart (V : View) (c e : ObjectId) : Prop :=
  V.IsTop c e ∧ ∃ id, V.attribute? e "id" = some id

/-- The title is moved, and all other parts still wait. -/
theorem does_moveTitle (hs : Shows w V) (hm : V.IsMarkup) (hsd : V.core s = some .document)
    (hcd : V.core c = some .document) (h : Pending V s c target (IsPart V c))
    (hmoves : V.MovesTitle s c title)
    (hout : ∀ p ∈ title, ¬ IsPart V c p.2 ∧ ∀ f, IsPart V c f → ¬ V.Above p.1 (target f)) :
    Does env w V (moveTitle (.object s) (.object c)) () (V.moveTitle title) ∧
      (V.moveTitle title).IsMarkup ∧
      Pending (V.moveTitle title) s c target (IsPart (V.moveTitle title) c) ∧
      (∀ e, IsPart (V.moveTitle title) c e ↔ IsPart V c e) ∧
      ∀ r, V.parent r = some c → (V.moveTitle title).parent r = some c := by
  have hf := hm.toIsForest
  match title with
  | none =>
    have hselect : M.run' env w (Tree.select? (.object c) ":root > title") = _ :=
      Tree.run'_select_none hs hm ⟨_, hcd, rfl⟩ Selector.read_rootTitle
        (by simp [Selector.IsApplicable]) fun x hx hmatch => by
          obtain ⟨htop, hfit⟩ := (Selector.matches_top hf hcd hx).1 hmatch
          exact hmoves x htop (Selector.fits_ofTag.1 hfit)
    exact ⟨.bind_of_run hselect (.pure hs ()), hm, h, fun _ => .rfl, fun _ hr => hr⟩
  | some (t, u) =>
    obtain ⟨hfirst, hu, htag, hunique⟩ := hmoves
    obtain ⟨hnot, hout⟩ := hout _ rfl
    have ht := hfirst.above hf
    have hfirstu : V.IsFirst c (fun x => V.IsTop c x ∧ V.HasTag "title" x) u :=
      hf.isFirst_of_unique hs hu.above ⟨hu, htag⟩ fun x _ hx => hunique x hx.1 hx.2
    have hselect : M.run' env w (Tree.select? (.object c) ":root > title") = _ :=
      Tree.run'_select_first hs hm ⟨_, hcd, rfl⟩ Selector.read_rootTitle
        (by simp [Selector.IsApplicable]) hfirstu fun x hx => by
          rw [Selector.matches_top hf hcd hx, Selector.fits_ofTag]
    have hselect' : M.run' env w (Tree.select? (.object s) ":root > head > title") = _ :=
      Tree.run'_select_first hs hm ⟨_, hsd, rfl⟩ Selector.read_headTitle
        (by simp [Selector.IsApplicable]) hfirst fun x hx => Selector.matches_headTitle hf hsd hx
    have htc : V.Container t := ⟨_, hfirst.holds.1, rfl⟩
    have hpart : ∀ e, IsPart (V.refill t u) c e ↔ IsPart V c e := by
      intro e
      rw [IsPart, isTop_refill hf h.apart ht hu]
      rfl
    refine ⟨.bind_of_run hselect (.bind_of_run (run'_require .skeleton hselect') ?_),
      hm.relinked (Apart.isForest_refill hf h.apart ht hu.above htc) rfl rfl, ?_, hpart,
      fun r hr => (parent_refill_root hf h.apart ht hu r).2 hr⟩
    · exact does_refill hs hf htc ⟨_, htag, rfl⟩
    · exact (h.refill hs hf ht hu hnot hout).mono fun f hpf => (hpart f).1 hpf

variable (env) in
/-- All elements with ids are moved. -/
theorem does_moveParts (hs : Shows w V) (hm : V.IsMarkup) (hsc : V.Container s)
    (hcd : V.core c = some .document) (h : Pending V s c target (IsPart V c)) :
    ∃ es, es.Nodup ∧ (∀ e, e ∈ es ↔ IsPart V c e) ∧
      M.run' env w (Tree.selectAll (.object c) ":root > [id]") = (.ok (es.map .object), w) ∧
      Does env w V ((es.map Value.object).forM (moveById (.object s))) () (moveAll target V es) ∧
      (moveAll target V es).IsMarkup ∧ (moveAll target V es).Apart s c ∧
      ∀ r, V.parent r = some c → (moveAll target V es).parent r = some c := by
  obtain ⟨es, hes, hall⟩ := Tree.selectAll_lists env hs hm ⟨_, hcd, rfl⟩ Selector.read_rootId
    (by simp [Selector.IsApplicable])
  have hmem : ∀ e, e ∈ es ↔ IsPart V c e := by
    intro e
    rw [hes.mem_iff, IsPart]
    constructor
    · rintro ⟨ha, _, hmatch⟩
      rw [Selector.matches_top hm.toIsForest hcd ha, Selector.fits_withId] at hmatch
      exact hmatch
    · rintro ⟨htop, hid⟩
      refine ⟨htop.above, htop.1, ?_⟩
      rw [Selector.matches_top hm.toIsForest hcd htop.above, Selector.fits_withId]
      exact ⟨htop, hid⟩
  exact ⟨es, hes.nodup, hmem, hall,
    does_moveAll hes.nodup hs hm hsc (h.mono fun e he => (hmem e).1 he)⟩

end Page

namespace View

/-- The view after all parts were put in their places. -/
def place (V : View) (main body : ObjectId) (title : Option (ObjectId × ObjectId))
    (target : ObjectId → ObjectId) (es : List ObjectId) : View :=
  Page.moveAll target (((V.moveBodyClass main body).exchange (target main) main).moveTitle title) es

theorem moveAll_core (target : ObjectId → ObjectId) (es : List ObjectId) :
    ∀ V : View, (Page.moveAll target V es).core = V.core := by
  induction es with
  | nil => exact fun _ => rfl
  | cons e es ih => exact fun V => ih (V.exchange (target e) e)

theorem place_core (V : View) (main body : ObjectId) (title : Option (ObjectId × ObjectId))
    (target : ObjectId → ObjectId) (es : List ObjectId) :
    (V.place main body title target es).core = V.core := by
  have hbody : (V.moveBodyClass main body).core = V.core := by
    rw [moveBodyClass]
    cases V.attribute? main "body-class" <;> rfl
  rw [place, moveAll_core, ← hbody]
  cases title <;> rfl

end View

namespace Page

open View

/-- A content that says clearly what goes where. At its top there is one main element and at most
one title, both without an id, and no other element has the id of an element there. -/
structure Content (V : View) (c main : ObjectId) : Prop where
  document : V.core c = some .document
  only_main : ∀ e, V.IsTop c e ∧ V.HasTag "main" e ↔ e = main
  main_id : V.attribute? main "id" = none
  one_title : ∀ t u, V.IsTop c t → V.HasTag "title" t → V.IsTop c u → V.HasTag "title" u → t = u
  title_id : ∀ t, V.IsTop c t → V.HasTag "title" t → V.attribute? t "id" = none
  own_ids : ∀ e id, V.IsTop c e → V.attribute? e "id" = some id →
    ∀ x, V.Above c x → V.HasId id x → x = e

/-- Whether an element of a content replaces an element of a skeleton. -/
def Replaces (V : View) (c main e : ObjectId) : Prop := e = main ∨ IsPart V c e

/-- A skeleton with one root element and with targets for the parts of a content. No element that
is replaced is another one or lies in it. -/
structure Targets (V : View) (s c main : ObjectId) (target : ObjectId → ObjectId) : Prop where
  document : V.core s = some .document
  single : ∀ x y, V.isElement x = true → V.parent x = some s →
    V.isElement y = true → V.parent y = some s → x = y
  main_first : V.IsFirst s (V.HasTag "main") (target main)
  part_first : ∀ e id, V.IsTop c e → V.attribute? e "id" = some id →
    V.IsFirst s (V.HasId id) (target e)
  title_first : ∀ u, V.IsTop c u → V.HasTag "title" u → ∃ t, V.IsFirst s (V.IsHeadTitle s) t
  body_first : V.attribute? main "body-class" ≠ none → ∃ b, V.IsFirst s (V.HasTag "body") b
  separate : ∀ e f, Replaces V c main e → Replaces V c main f → e ≠ f →
    ¬ V.Within (target e) (target f)

/-- Whether the title of a skeleton, when it is to be filled, does not go with the main element and
holds no element that is replaced by one with its id. -/
def TitleApart (V : View) (s c main : ObjectId) (target : ObjectId → ObjectId) : Prop :=
  ∀ u t, V.IsTop c u → V.HasTag "title" u → V.IsFirst s (V.IsHeadTitle s) t →
    ¬ V.Within (target main) t ∧ ∀ e, IsPart V c e → ¬ V.Above t (target e)

/-- Parts of a content that are all still there, with their targets. -/
structure Placing (V : View) (s c main : ObjectId) (target : ObjectId → ObjectId)
    (title : Option (ObjectId × ObjectId)) : Prop where
  skeleton : V.core s = some .document
  content : V.core c = some .document
  single : ∀ x y, V.isElement x = true → V.parent x = some s →
    V.isElement y = true → V.parent y = some s → x = y
  top : V.IsTop c main
  tag : V.HasTag "main" main
  first : V.IsFirst s (V.HasTag "main") (target main)
  pending : Pending V s c target (IsPart V c)
  not_part : ¬ IsPart V c main
  main_apart : ∀ f, IsPart V c f → ¬ V.Within (target main) (target f)
  moves : V.MovesTitle s c title
  title_not_part : ∀ p ∈ title, ¬ IsPart V c p.2
  title_apart : ∀ p ∈ title, ¬ V.Within (target main) p.1 ∧
    ∀ f, IsPart V c f → ¬ V.Above p.1 (target f)

variable {env : Env} {w w' : World} {V W : View} {s c r main body : ObjectId}
  {target : ObjectId → ObjectId} {title : Option (ObjectId × ObjectId)} {ids : List ObjectId}

theorem exists_placing (hf : V.IsForest) (hc : Content V c main) (ht : Targets V s c main target)
    (hne : s ≠ c) (hapart : TitleApart V s c main target) :
    ∃ title, Placing V s c main target title := by
  obtain ⟨htop, htag⟩ := (hc.only_main main).2 rfl
  have hroots : V.Apart s c := ⟨hf.document_root ht.document, hf.document_root hc.document, hne⟩
  have hno : ∀ x, V.attribute? x "id" = none → ¬ IsPart V c x := by
    rintro x hx ⟨_, id, hid⟩
    rw [hx] at hid
    cases hid
  have hpending : Pending V s c target (IsPart V c) := by
    refine ⟨hroots, fun e he => he.1, fun e he => ?_, fun e id he => hc.own_ids e id he.1,
      fun e f he hf => ht.separate e f (.inr he) (.inr hf)⟩
    obtain ⟨htop, id, hid⟩ := he
    exact ⟨id, hid, ht.part_first e id htop hid⟩
  have hmain : ∀ f, IsPart V c f → ¬ V.Within (target main) (target f) := by
    intro f hpart
    refine ht.separate main f (.inl rfl) (.inr hpart) ?_
    rintro rfl
    exact hno main hc.main_id hpart
  by_cases hu : ∃ u, V.IsTop c u ∧ V.HasTag "title" u
  · obtain ⟨u, hu, hutag⟩ := hu
    obtain ⟨t, hfirst⟩ := ht.title_first u hu hutag
    have hmoves : V.MovesTitle s c (some (t, u)) :=
      ⟨hfirst, hu, hutag, fun x hx hxtag => hc.one_title x u hx hxtag hu hutag⟩
    refine ⟨some (t, u), ht.document, hc.document, ht.single, htop, htag, ht.main_first, hpending,
      hno main hc.main_id, hmain, hmoves, ?_, ?_⟩
    · rintro _ ⟨⟩
      exact hno u (hc.title_id u hu hutag)
    · rintro _ ⟨⟩
      exact hapart u t hu hutag hfirst
  · exact ⟨none, ht.document, hc.document, ht.single, htop, htag, ht.main_first, hpending,
      hno main hc.main_id, hmain, fun x hx hxtag => hu ⟨x, hx, hxtag⟩, nofun, nofun⟩

namespace Placing

theorem keepsIds (h : Placing V s c main target title) (hf : V.IsForest) (hk : V.KeepsIds W) :
    Placing W s c main target title := by
  have hpart : ∀ e, IsPart W c e ↔ IsPart V c e := by
    intro e
    simp only [IsPart, hk.ids, View.IsTop, isElement, hk.core, hk.parent]
  have hpending := h.pending.keepsIds hk
  have hmoves := h.moves.keepsIds hf hk
  have hfirst : W.IsFirst s (W.HasTag "main") (target main) :=
    hk.isFirst hf h.first fun x => by rw [HasTag, HasTag, hk.core]
  obtain ⟨core, parent, children, attributes⟩ := W
  obtain ⟨rfl, rfl, rfl, _⟩ := hk
  exact ⟨h.skeleton, h.content, h.single, h.top, h.tag, hfirst,
    hpending.mono fun e he => (hpart e).1 he, fun he => h.not_part ((hpart main).1 he),
    fun f hf => h.main_apart f ((hpart f).1 hf), hmoves,
    fun p hp he => h.title_not_part p hp ((hpart p.2).1 he), fun p hp =>
      ⟨(h.title_apart p hp).1, fun f hf => (h.title_apart p hp).2 f ((hpart f).1 hf)⟩⟩

/-- With the main element at its place, the title and the parts with ids still wait. -/
theorem exchange (h : Placing V s c main target title) (hs : Shows w V) (hm : V.IsMarkup) :
    (V.exchange (target main) main).IsMarkup ∧
      (∀ e, IsPart (V.exchange (target main) main) c e ↔ IsPart V c e) ∧
      Pending (V.exchange (target main) main) s c target
        (IsPart (V.exchange (target main) main) c) ∧
      (V.exchange (target main) main).MovesTitle s c title := by
  have hf := hm.toIsForest
  have hroots := h.pending.apart
  have ht := h.first.above hf
  have hpart : ∀ e, IsPart (V.exchange (target main) main) c e ↔ IsPart V c e := by
    intro e
    rw [IsPart, isTop_exchange hroots ht h.top]
    constructor
    · rintro ⟨⟨htop, _⟩, hid⟩
      exact ⟨htop, hid⟩
    · rintro ⟨htop, hid⟩
      refine ⟨⟨htop, ?_⟩, hid⟩
      rintro rfl
      exact h.not_part ⟨htop, hid⟩
  refine ⟨hm.relinked (Apart.isForest_exchange hf hroots ht h.top.above) rfl rfl, hpart, ?_, ?_⟩
  · refine (h.pending.exchange hs hf ht h.top fun f hfp _ => h.main_apart f hfp).mono fun f hfp => ?_
    have hfp := (hpart f).1 hfp
    exact ⟨hfp, fun hfm => h.not_part (hfm ▸ hfp)⟩
  · have helement : V.isElement (target main) = true := h.first.holds.isElement
    exact h.moves.exchange hs hf hroots ht h.top h.tag
      (fun x hx hxs hts => h.single x _ hx hxs helement hts) fun p hp => (h.title_apart p hp).1

/-- The first steps of a merge put all parts in their places. What is left to do is to unwrap. -/
theorem run'_merge (h : Placing V s c main target title) (hs : Shows w V) (hm : V.IsMarkup)
    (hc : Content V c main)
    (hbody : V.attribute? main "body-class" ≠ none → V.IsFirst s (V.HasTag "body") body) :
    ∃ es w', es.Nodup ∧ (∀ e, e ∈ es ↔ IsPart V c e) ∧
      TreeStep w V w' (V.place main body title target es) ∧
      M.run' env w (merge (.object s) (.object c)) = M.run' env w' (do
        (← Tree.selectAll (.object s) "document-fragment").forM Tree.stripOut) ∧
      (V.place main body title target es).IsMarkup ∧
      (V.place main body title target es).Apart s c ∧
      ∀ r, V.parent r = some c → (V.place main body title target es).parent r = some c := by
  have hf := hm.toIsForest
  have hfirst : V.IsFirst c (fun x => V.IsTop c x ∧ V.HasTag "main" x) main :=
    hf.isFirst_of_unique hs h.top.above ⟨h.top, h.tag⟩ fun x _ hx => (hc.only_main x).1 hx
  have hselect : M.run' env w (Tree.select? (.object c) ":root > main") = _ :=
    Tree.run'_select_first hs hm ⟨_, h.content, rfl⟩ Selector.read_rootMain
      (by simp [Selector.IsApplicable]) hfirst fun x hx => by
        rw [Selector.matches_top hf h.content hx, Selector.fits_ofTag]
  have hrequire := run'_require .template hselect
  -- The classes for the body are moved.
  obtain ⟨⟨w1, hrun1, hs1⟩, hm1, hk⟩ : Does env w V _ () (V.moveBodyClass main body) ∧ _ ∧ _ :=
    does_moveBodyClass hs hm ⟨_, h.skeleton, rfl⟩ h.tag hbody
  simp only [View.place]
  generalize V.moveBodyClass main body = V1 at hs1 hm1 hk ⊢
  have h1 := h.keepsIds hf hk
  -- The main element is moved.
  have hselect1 : M.run' env w1 (Tree.select? (.object s) "main") = _ :=
    Tree.run'_select_first hs1.shows hm1 ⟨_, h1.skeleton, rfl⟩ Selector.read_main
      (by simp [Selector.IsApplicable]) h1.first fun x _ => Selector.matches_tag
  have hrequire1 := run'_require .skeleton hselect1
  have hf1 := hm1.toIsForest
  have ht1 := h1.first.above hf1
  obtain ⟨w2, hrun2, hs2⟩ : Does env w1 V1 _ () _ :=
    does_exchange hs1.shows hf1 h1.pending.apart ht1 h1.top.above
  obtain ⟨hm2, hpart2, hpending2, hmoves2⟩ := h1.exchange hs1.shows hm1
  have hclear : ∀ p ∈ title, ∀ f, IsPart V1 c f →
      ¬ (V1.exchange (target main) main).Above p.1 (target f) := by
    intro p hp f hpf
    obtain ⟨id, hid, hff⟩ := h1.pending.first f hpf
    have hout : ¬ V1.Within main (target f) := fun hw =>
      h1.pending.apart.not_within (.inr (hff.above hf1)) (.inr (hw.elim
        (fun heq => heq ▸ h1.top.above) fun hw => hw.trans h1.top.above))
    rw [Apart.above_exchange (h1.main_apart f hpf) hout]
    exact (h1.title_apart p hp).2 f hpf
  -- The title is moved.
  obtain ⟨⟨w3, hrun3, hs3⟩, hm3, hpending3, hpart3, hroots3⟩ :
      Does env w2 _ _ () _ ∧ _ ∧ _ ∧ _ ∧ _ :=
    does_moveTitle hs2.shows hm2 h1.skeleton h1.content hpending2 hmoves2 fun p hp =>
      ⟨fun hpart => h1.title_not_part p hp ((hpart2 p.2).1 hpart),
        fun f hpf => hclear p hp f ((hpart2 f).1 hpf)⟩
  -- The elements with ids are moved.
  have hcore3 : ((V1.exchange (target main) main).moveTitle title).core = V1.core := by
    cases title <;> rfl
  obtain ⟨es, hn, hes, hall, ⟨w4, hrun4, hs4⟩, hm4, hapart4, hroots4⟩ :=
    does_moveParts env hs3.shows hm3 ⟨_, (congrFun hcore3 s).trans h1.skeleton, rfl⟩
      ((congrFun hcore3 c).trans h1.content) hpending3
  refine ⟨es, w4, hn, fun e => ?_, hs1.trans (hs2.trans (hs3.trans hs4)), ?_, hm4, hapart4,
    fun r hr => hroots4 r (hroots3 r ?_)⟩
  · rw [hes, hpart3, hpart2]
    simp only [IsPart, View.IsTop, isElement, hk.core, hk.parent, hk.ids]
  · rw [merge, M.run'_bind_ok hrequire, M.run'_bind_ok hrun1, M.run'_bind_ok hrequire1,
      M.run'_bind_ok hrun2, M.run'_bind_ok hrun3, M.run'_bind_ok hall, M.run'_bind_ok hrun4]
  · refine parent_exchange_root h1.pending.apart ht1 h1.top ?_
    rw [hk.parent, hr]

end Placing

end Page

end PageTemplate
