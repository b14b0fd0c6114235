import PageTemplate.Proofs.Tree.Order
import PageTemplate.Proofs.Tree.Places

/-!
# PageTemplate.Proofs.Tree.Exchange

Putting nodes of one tree in the places of nodes of another, and the children of one node in the
place of those of another. What is put in one place does not depend on what is put in other places,
so exchanges commute.
-/

namespace PageTemplate

namespace View

variable {V W : View}

/-! One node in the place of another. -/

/-- The view with a node in the place of another one, which leaves it. -/
def exchange (V : View) (t e : ObjectId) : View :=
  { V with
    parent := fun x => if x = e then V.parent t else if x = t then none else V.parent x
    children := fun x => ((V.children x).filter (· ≠ e)).map fun c => if c = t then e else c }

theorem exchange_parent (V : View) (t e x : ObjectId) : (V.exchange t e).parent x =
    if x = e then V.parent t else if x = t then none else V.parent x := rfl

theorem exchange_children (V : View) (t e x : ObjectId) : (V.exchange t e).children x =
    ((V.children x).filter (· ≠ e)).map fun c => if c = t then e else c := rfl

@[simp] theorem exchange_core (V : View) (t e : ObjectId) : (V.exchange t e).core = V.core := rfl

@[simp] theorem exchange_attributes (V : View) (t e : ObjectId) :
    (V.exchange t e).attributes = V.attributes := rfl

/-- Exchanges of different nodes commute. -/
theorem exchange_comm (V : View) {t e t' e' : ObjectId} (ht : t ≠ t') (he : e ≠ e') (hte : t ≠ e')
    (het : e ≠ t') :
    (V.exchange t e).exchange t' e' = (V.exchange t' e').exchange t e := by
  have hparent : ((V.exchange t e).exchange t' e').parent =
      ((V.exchange t' e').exchange t e).parent := by
    funext x
    simp only [exchange_parent, if_neg ht, if_neg ht.symm, if_neg hte, if_neg het.symm]
    by_cases hx : x = e
    · subst hx
      simp [he, het]
    · by_cases hx' : x = e'
      · subst hx'
        simp [hx, hte.symm]
      · by_cases hxt : x = t
        · subst hxt
          simp [ht, hx, hx']
        · simp [hx, hx', hxt]
  have hchildren : ((V.exchange t e).exchange t' e').children =
      ((V.exchange t' e').exchange t e).children := by
    have hlist : ∀ {t e t' e' : ObjectId} (cs : List ObjectId), t ≠ e' → e ≠ e' → e ≠ t' →
        (((cs.filter (· ≠ e)).map fun c => if c = t then e else c).filter (· ≠ e')).map
          (fun c => if c = t' then e' else c) =
        ((cs.filter (· ≠ e)).filter (· ≠ e')).map
          fun c => if c = t then e else if c = t' then e' else c := by
      intro t e t' e' cs hte he het
      rw [List.filter_map, List.map_map]
      have hfilter : ((fun c => decide (c ≠ e')) ∘ fun c => if c = t then e else c) =
          fun c => decide (c ≠ e') := by
        funext c
        by_cases hc : c = t
        · subst hc
          simp [he, hte]
        · simp [hc]
      rw [hfilter]
      refine List.map_congr_left fun c _ => ?_
      by_cases hc : c = t
      · simp [hc, het]
      · simp [hc]
    funext x
    simp only [exchange_children]
    rw [hlist _ hte he het, hlist _ het.symm he.symm hte.symm, List.filter_filter,
      List.filter_filter]
    have hfilter : ∀ c, (decide (c ≠ e') && decide (c ≠ e)) =
        (decide (c ≠ e) && decide (c ≠ e')) := fun c => Bool.and_comm _ _
    simp only [hfilter]
    refine List.map_congr_left fun c _ => ?_
    by_cases hc : c = t
    · subst hc
      simp [ht]
    · simp [hc]
  simp only [exchange] at hparent hchildren ⊢
  rw [View.mk.injEq]
  exact ⟨rfl, hparent, hchildren, rfl⟩

theorem map_rename {t e : ObjectId} {cs : List ObjectId} (h : t ∉ cs) :
    (cs.map fun c => if c = t then e else c) = cs := by
  refine (List.map_congr_left fun c hc => ?_).trans (List.map_id' cs)
  have hct : c ≠ t := fun hct => h (hct ▸ hc)
  rw [if_neg hct]

/-- Replacing a node by a node from elsewhere exchanges them. -/
theorem replaceWith_eq_exchange (hf : V.IsForest) {t e p : ObjectId} (ht : V.parent t = some p)
    (he : V.Inner e) (hne : e ≠ t) (hp : V.parent e ≠ some p) :
    V.replaceWith t e = V.exchange t e := by
  have hfrag := he.not_isFragment
  obtain ⟨before, behind, hch⟩ := List.append_of_mem ((hf.mem_children p t).2 ht)
  have hnodup : (before ++ t :: behind).Nodup := hch ▸ hf.nodup p
  have hep : e ∉ V.children p := fun hm => hp ((hf.mem_children p e).1 hm)
  have hbefore := not_mem_before hnodup
  have hbehind : t ∉ behind := fun hm =>
    (List.nodup_cons.1 (List.nodup_append.1 hnodup).2.1).1 hm
  have hf1 := hf.detach e
  rw [replaceWith_of_child ht hne, inserted, if_neg hfrag, release, if_neg hfrag, substitute]
  have hdetached : (V.detach e).children p = before ++ t :: behind := by
    rw [detach_children hf, List.erase_of_not_mem hep, hch]
  have hparent : ∀ x, (((V.detach e).detach t).insert p
      (Tree.spliceAt (((V.detach e).children p).idxOf? t) [e] ((V.detach e).children p)) [e]).parent
        x = (V.exchange t e).parent x := by
    intro x
    rw [insert_parent, detach_parent, detach_parent, exchange_parent, ht]
    by_cases hx : x = e
    · simp [hx]
    · simp [hx]
  have hchildren : ∀ x, (((V.detach e).detach t).insert p
      (Tree.spliceAt (((V.detach e).children p).idxOf? t) [e] ((V.detach e).children p))
        [e]).children x = (V.exchange t e).children x := by
    intro x
    rw [insert_children, exchange_children]
    by_cases hx : x = p
    · have hfilter : (V.children p).filter (· ≠ e) = V.children p :=
        List.filter_eq_self.2 fun c hc => by simpa using fun hce : c = e => hep (hce ▸ hc)
      subst hx
      rw [if_pos rfl, hdetached, spliceAt_append hbefore, hfilter, hch, List.map_append,
        List.map_cons, if_pos rfl, map_rename hbefore, map_rename hbehind, List.append_assoc]
      rfl
    · have htx : t ∉ V.children x := fun hm => by
        cases ht.symm.trans ((hf.mem_children x t).1 hm)
        exact hx rfl
      rw [if_neg hx, detach_children hf1, detach_children hf,
        List.erase_of_not_mem fun hm => htx (List.mem_of_mem_erase hm),
        (hf.nodup x).erase_eq_filter, map_rename fun hm => htx (List.mem_of_mem_filter hm)]
      refine List.filter_congr fun c _ => ?_
      by_cases hc : c = e <;> simp [hc]
  rw [View.insert] at hparent hchildren ⊢
  rw [exchange, View.mk.injEq]
  exact ⟨(detach_core _ t).trans (detach_core V e), funext hparent, funext hchildren,
    (detach_attributes _ t).trans (detach_attributes V e)⟩

/-! The children of one node for those of another. -/

/-- The view with the children of a node in the place of those of another one. -/
def refill (V : View) (t s : ObjectId) : View := (V.takeChildren t).stealChildren t s

theorem refill_children (V : View) {t s : ObjectId} (hne : s ≠ t) (x : ObjectId) :
    (V.refill t s).children x =
      if x = t then V.children s else if x = s then [] else V.children x := by
  rw [refill, stealChildren_children, takeChildren_children, takeChildren_children,
    takeChildren_children, takeChildren_children, if_neg hne, if_neg hne.symm, if_pos rfl]
  by_cases hx : x = t
  · simp [hx]
  · simp [hx]

theorem refill_parent (V : View) {t s : ObjectId} (hne : s ≠ t) (x : ObjectId) :
    (V.refill t s).parent x = if x ∈ V.children s then some t
      else if x ∈ V.children t then none else V.parent x := by
  rw [refill, IsForest.stealChildren_parent, takeChildren_parent, takeChildren_children,
    if_neg hne]

@[simp] theorem refill_core (V : View) (t s : ObjectId) : (V.refill t s).core = V.core := rfl

@[simp] theorem refill_attributes (V : View) (t s : ObjectId) :
    (V.refill t s).attributes = V.attributes := rfl

/-! Two trees. -/

/-- Whether two nodes are roots of different trees. -/
structure Apart (V : View) (a b : ObjectId) : Prop where
  left : V.parent a = none
  right : V.parent b = none
  ne : a ≠ b

/-- Where the links above a node are the same, so is what lies above it. -/
theorem above_congr {x a : ObjectId} (h : ∀ y, V.Within y x → W.parent y = V.parent y) :
    W.Above a x ↔ V.Above a x := by
  constructor
  · intro ha
    induction ha with
    | single hx =>
      rw [h x (.inl rfl)] at hx
      exact .single hx
    | tail _ hy ih =>
      rw [h _ (.inr ih)] at hy
      exact .tail ih hy
  · intro ha
    induction ha with
    | single hx =>
      rw [← h x (.inl rfl)] at hx
      exact .single hx
    | @tail y z hxy hy ih =>
      have hw : V.Within y x := .inr hxy
      rw [← h y hw] at hy
      exact .tail ih hy

namespace Apart

variable {a b : ObjectId}

theorem not_within (h : V.Apart a b) {x : ObjectId} (ha : V.Within a x) : ¬ V.Within b x := by
  intro hb
  have hu : Relator.RightUnique fun x y => V.parent x = some y := fun _ _ _ h h' =>
    Option.some.inj (h.symm.trans h')
  have hstop : ∀ {r s : ObjectId}, V.parent r = none →
      Relation.ReflTransGen (fun x y => V.parent x = some y) r s → s = r := by
    intro r s hr hrs
    rcases Relation.reflTransGen_iff_eq_or_transGen.1 hrs with rfl | hrs
    · rfl
    · obtain ⟨y, hy, _⟩ := Relation.TransGen.head'_iff.1 hrs
      rw [hr] at hy
      cases hy
  rcases Relation.ReflTransGen.total_of_right_unique hu (within_iff.1 ha) (within_iff.1 hb) with
    hab | hba
  · exact h.ne (hstop h.left hab).symm
  · exact h.ne (hstop h.right hba)

theorem ne_of_within (h : V.Apart a b) {x y : ObjectId} (hx : V.Within a x) (hy : V.Within b y) :
    x ≠ y := by
  rintro rfl
  exact h.not_within hx hy

/-- What hangs on a node of one tree does not belong to the other. -/
theorem parent_ne (h : V.Apart a b) {x y : ObjectId} (hx : V.Above b x) (hy : V.Within a y) :
    V.parent x ≠ some y := by
  intro hp
  obtain ⟨z, hz, hup⟩ := Relation.TransGen.head'_iff.1 hx
  cases hp.symm.trans hz
  exact h.not_within hy (within_iff.2 hup)

theorem symm (h : V.Apart a b) : V.Apart b a := ⟨h.right, h.left, h.ne.symm⟩

end Apart

/-- What leads up to a node of a tree led up to it before, when the links to the nodes of the tree
did. -/
theorem above_of_links {b x : ObjectId}
    (h : ∀ x y, W.parent x = some y → V.Within b y → V.parent x = some y) (ha : W.Above b x) :
    V.Above b x := by
  induction ha using Relation.TransGen.head_induction_on with
  | single hx => exact .single (h _ _ hx (.inl rfl))
  | head hx _ ih => exact .head (h _ _ hx (.inr ih)) ih

namespace Apart

variable {a b t e : ObjectId}

section Exchange

variable (hf : V.IsForest) (h : V.Apart a b) (ht : V.Above a t) (he : V.Above b e)

include hf h ht he

theorem exists_parent : ∃ p, V.parent t = some p ∧ V.Within a p ∧ V.Inner e ∧ e ≠ t ∧
    V.parent e ≠ some p := by
  obtain ⟨p, hp, hup⟩ := Relation.TransGen.head'_iff.1 ht
  obtain ⟨q, hq, _⟩ := Relation.TransGen.head'_iff.1 he
  exact ⟨p, hp, within_iff.2 hup, hf.inner e q hq, (h.ne_of_within (.inr ht) (.inr he)).symm,
    h.parent_ne he (within_iff.2 hup)⟩

theorem replaceWith_eq : V.replaceWith t e = V.exchange t e := by
  obtain ⟨p, hp, _, hi, hne, hep⟩ := exists_parent hf h ht he
  exact replaceWith_eq_exchange hf hp hi hne hep

theorem isForest_exchange : (V.exchange t e).IsForest := by
  obtain ⟨p, hp, hap, hi, _, _⟩ := exists_parent hf h ht he
  rw [← replaceWith_eq hf h ht he]
  refine hf.replaceWith (.inr hi) fun p' hp' => ?_
  cases hp.symm.trans hp'
  refine ⟨(h.ne_of_within hap (.inr he)).symm, not_under_inserted hf fun hw => ?_⟩
  rcases hw with rfl | hw
  · exact h.not_within hap (.inr he)
  · exact h.not_within hap (.inr (hw.trans he))

omit hf in
theorem apart_exchange : (V.exchange t e).Apart a b := by
  have hroot : ∀ r, V.parent r = none → r ≠ t → r ≠ e → (V.exchange t e).parent r = none := by
    intro r hr hrt hre
    rw [exchange_parent, if_neg hre, if_neg hrt, hr]
  have hnr : ∀ {r x : ObjectId}, V.parent r = none → V.Above a x ∨ V.Above b x → r ≠ x := by
    rintro r x hr hx rfl
    rcases hx with hx | hx
    all_goals
      obtain ⟨y, hy, _⟩ := Relation.TransGen.head'_iff.1 hx
      rw [hr] at hy
      cases hy
  exact ⟨hroot a h.left (hnr h.left (.inl ht)) (hnr h.left (.inr he)),
    hroot b h.right (hnr h.right (.inl ht)) (hnr h.right (.inr he)), h.ne⟩

omit hf h ht he in
theorem above_exchange {x c : ObjectId} (hxt : ¬ V.Within t x) (hxe : ¬ V.Within e x) :
    (V.exchange t e).Above c x ↔ V.Above c x := by
  refine above_congr fun y hy => ?_
  have hyt : y ≠ t := fun hyt => hxt (hyt ▸ hy)
  have hye : y ≠ e := fun hye => hxe (hye ▸ hy)
  rw [exchange_parent, if_neg hye, if_neg hyt]

theorem above_of_exchange {x : ObjectId} (hx : (V.exchange t e).Above b x) : V.Above b x := by
  obtain ⟨p, hp, hap, _⟩ := exists_parent hf h ht he
  refine above_of_links (fun x y hxy hy => ?_) hx
  rw [exchange_parent] at hxy
  split at hxy
  · cases hp.symm.trans hxy
    exact absurd hy (h.not_within hap)
  · split at hxy
    · cases hxy
    · exact hxy

/-- An exchange keeps the first node with a property, if it is not inside of what goes and nothing
inside of what comes has the property. -/
theorem isFirst_exchange {w : World} (hs : Shows w V) {P Q : ObjectId → Prop} {r : ObjectId}
    (hr : V.IsFirst a P r) (hout : ¬ V.Within t r) (hin : ∀ x, V.Within e x → ¬ Q x)
    (hPQ : ∀ x, V.Above a x → ¬ V.Within t x → (Q x ↔ P x)) :
    (V.exchange t e).IsFirst a Q r := by
  obtain ⟨p, hp, hap, _, hne, hep⟩ := exists_parent hf h ht he
  obtain ⟨before, behind, hch⟩ := List.append_of_mem ((hf.mem_children p t).2 hp)
  have hnodup : (before ++ t :: behind).Nodup := hch ▸ hf.nodup p
  have hkeep : ∀ y, t ∉ V.children y → e ∉ V.children y →
      (V.exchange t e).children y = V.children y := by
    intro y hty hey
    have hfilter : (V.children y).filter (· ≠ e) = V.children y :=
      List.filter_eq_self.2 fun c hc => by simpa using fun hce : c = e => hey (hce ▸ hc)
    rw [exchange_children, hfilter, map_rename hty]
  have hpe : (V.exchange t e).children p = before ++ [e] ++ behind := by
    have hfilter : (V.children p).filter (· ≠ e) = V.children p :=
      List.filter_eq_self.2 fun c hc => by
        simpa using fun hce : c = e => hep ((hf.mem_children p e).1 (hce ▸ hc))
    have hbehind : t ∉ behind := fun hm =>
      (List.nodup_cons.1 (List.nodup_append.1 hnodup).2.1).1 hm
    rw [exchange_children, hfilter, hch, List.map_append, List.map_cons, if_pos rfl,
      map_rename (not_mem_before hnodup), map_rename hbehind, List.append_assoc]
    rfl
  obtain ⟨es, hes⟩ := hf.exists_preorder hs [e]
  have hmem : ∀ x, x ∈ es ↔ V.Within e x := fun x => by simpa using hes.mem_iff hf (x := x)
  have hes' : (V.exchange t e).Preorder [e] es := by
    refine hes.congr fun y hy => hkeep y (fun hm => ?_) fun hm => ?_
    · have hby : V.Within b y := by
        rcases (hmem y).1 hy with rfl | hy
        · exact .inr he
        · exact .inr (hy.trans he)
      exact h.symm.parent_ne ht hby ((hf.mem_children y t).1 hm)
    · exact hf.ne_parent_of_within ((hf.mem_children y e).1 hm) ((hmem y).1 hy) rfl
  refine hr.splice hf hap (fun y hy hyp => hkeep y (fun hm => ?_) fun hm => ?_)
    (hch.trans (List.append_cons before t behind)) hpe hes' (by simpa using hout)
    (fun x hx => hin x ((hmem x).1 hx)) (by simpa using hPQ)
  · cases hp.symm.trans ((hf.mem_children y t).1 hm)
    exact hyp rfl
  · exact h.parent_ne he hy ((hf.mem_children y e).1 hm)

end Exchange

section Refill

variable {s : ObjectId} (hf : V.IsForest) (h : V.Apart a b) (ht : V.Above a t) (hs : V.Above b s)

include h ht hs

theorem ne_refill : s ≠ t := (h.ne_of_within (.inr ht) (.inr hs)).symm

include hf

theorem isForest_refill (hc : V.Container t) : (V.refill t s).IsForest := by
  have hst := ne_refill h ht hs
  refine (hf.takeChildren t).stealChildren hc fun hu => ?_
  have hu' : V.Under ((V.takeChildren t).children s) t := hu.mono fun c p hp => by
    rw [takeChildren_parent] at hp
    split at hp
    · cases hp
    · exact hp
  obtain ⟨n, hn, hw⟩ := hu'
  rw [takeChildren_children, if_neg hst] at hn
  have hsn := (hf.mem_children s n).1 hn
  rcases Within.of_child hsn hw with hts | hst'
  · exact hst hts.symm
  · exact h.not_within (.inr ht) (.inr (hst'.trans hs))

theorem apart_refill : (V.refill t s).Apart a b := by
  have hst := ne_refill h ht hs
  have hroot : ∀ r, V.parent r = none → (V.refill t s).parent r = none := by
    intro r hr
    have hno : ∀ p, r ∉ V.children p := fun p hm => by
      rw [(hf.mem_children p r).1 hm] at hr
      cases hr
    rw [refill_parent V hst, if_neg (hno s), if_neg (hno t), hr]
  exact ⟨hroot a h.left, hroot b h.right, h.ne⟩

theorem above_refill {x c : ObjectId} (hxt : ¬ V.Above t x) (hxs : ¬ V.Above s x) :
    (V.refill t s).Above c x ↔ V.Above c x := by
  have hst := ne_refill h ht hs
  refine above_congr fun y hy => ?_
  have hno : ∀ p, ¬ V.Above p x → y ∉ V.children p := fun p hp hm =>
    hp ((hf.above_iff_child).2 ⟨y, hm, hy⟩)
  rw [refill_parent V hst, if_neg (hno s hxs), if_neg (hno t hxt)]

omit hf in
theorem above_of_refill {x : ObjectId} (hx : (V.refill t s).Above b x) : V.Above b x := by
  have hst := ne_refill h ht hs
  refine above_of_links (fun x y hxy hy => ?_) hx
  rw [refill_parent V hst] at hxy
  split at hxy
  · cases hxy
    exact absurd hy (h.not_within (.inr ht))
  · split at hxy
    · cases hxy
    · exact hxy

/-- Taking over children keeps the first node with a property, if it is not among what goes and
nothing among what comes has the property. -/
theorem isFirst_refill {w : World} (hw : Shows w V) {P Q : ObjectId → Prop} {r : ObjectId}
    (hr : V.IsFirst a P r) (hout : ¬ V.Above t r) (hin : ∀ x, V.Above s x → ¬ Q x)
    (hPQ : ∀ x, V.Above a x → ¬ V.Above t x → (Q x ↔ P x)) :
    (V.refill t s).IsFirst a Q r := by
  have hst := ne_refill h ht hs
  have hkeep : ∀ y, y ≠ t → y ≠ s → (V.refill t s).children y = V.children y := by
    intro y hyt hys
    rw [refill_children V hst, if_neg hyt, if_neg hys]
  obtain ⟨es, hes⟩ := hf.exists_preorder hw (V.children s)
  have hmem : ∀ x, x ∈ es ↔ V.Above s x := fun x => hes.mem_children_iff hf
  have hes' : (V.refill t s).Preorder (V.children s) es := by
    refine hes.congr fun y hy => ?_
    have hsy := (hmem y).1 hy
    refine hkeep y (h.ne_of_within (.inr ht) (.inr (hsy.trans hs))).symm ?_
    rintro rfl
    exact hf.acyclic y hsy
  have hbelow : ∀ {x : ObjectId}, (∃ c ∈ V.children t, V.Within c x) ↔ V.Above t x :=
    hf.above_iff_child.symm
  refine hr.splice hf (.inr ht) (fun y hy hyt => hkeep y hyt (h.ne_of_within hy (.inr hs)))
    (show V.children t = [] ++ V.children t ++ [] by simp)
    (show (V.refill t s).children t = [] ++ V.children s ++ [] from ?_) hes' ?_ (fun x hx => hin x ((hmem x).1 hx)) ?_
  · rw [refill_children V hst, if_pos rfl]
    simp
  · intro c hc hw
    exact hout (hbelow.1 ⟨c, hc, hw⟩)
  · intro x hx hno
    refine hPQ x hx fun htx => ?_
    obtain ⟨c, hc, hw⟩ := hbelow.2 htx
    exact hno c hc hw

end Refill

end Apart

end View

end PageTemplate
