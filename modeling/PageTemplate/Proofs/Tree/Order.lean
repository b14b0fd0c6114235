import Mathlib.Data.Finset.Card
import Mathlib.Data.Finset.Range
import PageTemplate.Proofs.Tree.Regions

/-!
# PageTemplate.Proofs.Tree.Order

Document order. A node comes before everything below it, and everything below it comes before the
next sibling. In a forest that a store shows, everything below a node can be listed in this order,
and each node is listed once.

When children of some node make way for other nodes, the order of the rest stays. So the first node
with a property stays the first one, as long as what goes is not around it and what comes does not
have the property.
-/

namespace PageTemplate

namespace View

/-- Nodes, each followed by what lies below it, in document order. -/
inductive Preorder (V : View) : List ObjectId → List ObjectId → Prop where
  | nil : Preorder V [] []
  | cons {x : ObjectId} {xs below rest : List ObjectId} :
      Preorder V (V.children x) below → Preorder V xs rest →
      Preorder V (x :: xs) (x :: (below ++ rest))

variable {V : View} {ids ds : List ObjectId}

theorem IsForest.above_iff_child (hf : V.IsForest) {r x : ObjectId} :
    V.Above r x ↔ ∃ c ∈ V.children r, V.Within c x := by
  constructor
  · intro ha
    obtain ⟨c, hc, hp⟩ := Relation.TransGen.tail'_iff.1 ha
    exact ⟨c, (hf.mem_children r c).2 hp, within_iff.2 hc⟩
  · rintro ⟨c, hc, hw⟩
    have hp := (hf.mem_children r c).1 hc
    rcases hw with rfl | ha
    · exact .single hp
    · exact ha.tail hp

/-- Siblings do not lie inside one another. -/
theorem IsForest.siblings_apart (hf : V.IsForest) (p : ObjectId) :
    (V.children p).Pairwise fun a b => ∀ x, V.Within a x → ¬ V.Within b x := by
  refine (hf.nodup p).imp_of_mem ?_
  intro a b ha hb hne x hwa hwb
  exact hne (hf.within_unique ((hf.mem_children p a).1 ha) ((hf.mem_children p b).1 hb) hwa hwb)

namespace Preorder

theorem append {xs ys ds es : List ObjectId} (h : V.Preorder xs ds) (h' : V.Preorder ys es) :
    V.Preorder (xs ++ ys) (ds ++ es) := by
  induction h with
  | nil => exact h'
  | @cons x xs below rest hb _ _ ih =>
    have := Preorder.cons hb ih
    simpa using this

theorem split {xs ys : List ObjectId} (h : V.Preorder (xs ++ ys) ds) :
    ∃ as bs, ds = as ++ bs ∧ V.Preorder xs as ∧ V.Preorder ys bs := by
  induction xs generalizing ds with
  | nil => exact ⟨[], ds, rfl, .nil, h⟩
  | cons x xs ih =>
    cases h with
    | @cons _ _ below rest hb hr =>
      obtain ⟨as, bs, rfl, ha, hbs⟩ := ih hr
      exact ⟨x :: (below ++ as), bs, by simp, .cons hb ha, hbs⟩

/-- There is one order only. -/
theorem unique {es : List ObjectId} (h : V.Preorder ids ds) (h' : V.Preorder ids es) : ds = es := by
  induction h generalizing es with
  | nil =>
    cases h'
    rfl
  | cons _ _ ihb ihr =>
    cases h' with
    | cons hb hr => rw [ihb hb, ihr hr]

theorem mem_iff (hf : V.IsForest) (h : V.Preorder ids ds) {x : ObjectId} :
    x ∈ ds ↔ ∃ y ∈ ids, V.Within y x := by
  induction h with
  | nil => simp
  | @cons y ys below rest _ _ ihb ihr =>
    have hbelow : x ∈ below ↔ V.Above y x := ihb.trans hf.above_iff_child.symm
    simp only [List.mem_cons, List.mem_append, hbelow, ihr, exists_eq_or_imp, Within, or_assoc]

theorem mem_children_iff (hf : V.IsForest) {r x : ObjectId} (h : V.Preorder (V.children r) ds) :
    x ∈ ds ↔ V.Above r x :=
  (h.mem_iff hf).trans hf.above_iff_child.symm

/-- Nodes that do not lie inside one another are listed with distinct nodes. -/
theorem nodup (hf : V.IsForest) (h : V.Preorder ids ds)
    (hp : ids.Pairwise fun a b => ∀ x, V.Within a x → ¬ V.Within b x) : ds.Nodup := by
  induction h with
  | nil => exact List.nodup_nil
  | @cons y ys below rest hb hr ihb ihr =>
    obtain ⟨hy, hys⟩ := List.pairwise_cons.1 hp
    have hin : ∀ x ∈ below, V.Above y x := fun x hx => (hb.mem_children_iff hf).1 hx
    refine List.nodup_cons.2 ⟨?_, List.nodup_append.2 ⟨ihb (hf.siblings_apart y), ihr hys, ?_⟩⟩
    · intro hm
      rcases List.mem_append.1 hm with hm | hm
      · exact hf.acyclic y (hin y hm)
      · obtain ⟨b, hbm, hw⟩ := (hr.mem_iff hf).1 hm
        exact hy b hbm y (.inl rfl) hw
    · rintro a ha b hbm rfl
      obtain ⟨c, hc, hw⟩ := (hr.mem_iff hf).1 hbm
      exact hy c hc a (.inr (hin a ha)) hw

end Preorder

/-! The depth of a node. -/

/-- Every node of a forest in a store has a depth: that of its parent is less, and none is beyond
the size of the store. -/
theorem IsForest.exists_depth {w : World} (hs : Shows w V) (hf : V.IsForest) :
    ∃ depth : ObjectId → Nat, (∀ c p, V.parent c = some p → depth p < depth c) ∧
      ∀ c, depth c ≤ w.cells.size := by
  classical
  let ancestors : ObjectId → Finset ObjectId := fun c =>
    (Finset.range w.cells.size).filter fun a => V.Above a c
  have hmem : ∀ a c, V.Above a c → a ∈ ancestors c := by
    intro a c ha
    obtain ⟨x, _, hx⟩ := Relation.TransGen.tail'_iff.1 ha
    obtain ⟨core, hcore, _⟩ := hf.container x a hx
    exact Finset.mem_filter.2 ⟨Finset.mem_range.2 (hs.lt hcore), ha⟩
  refine ⟨fun c => (ancestors c).card, ?_, ?_⟩
  · intro c p hp
    refine Finset.card_lt_card (Finset.ssubset_iff_of_subset ?_ |>.2 ⟨p, hmem p c (.single hp), ?_⟩)
    · intro a ha
      exact hmem a c (.head hp (Finset.mem_filter.1 ha).2)
    · intro ha
      exact hf.acyclic p (Finset.mem_filter.1 ha).2
  · intro c
    have := Finset.card_filter_le (Finset.range w.cells.size) fun a => V.Above a c
    simpa using this

/-- Everything below a node can be listed. -/
theorem IsForest.exists_preorder {w : World} (hs : Shows w V) (hf : V.IsForest)
    (ids : List ObjectId) : ∃ ds, V.Preorder ids ds := by
  obtain ⟨depth, hdepth, hle⟩ := hf.exists_depth hs
  have hall : ∀ n x, w.cells.size < depth x + n → ∃ ds, V.Preorder (V.children x) ds := by
    intro n
    induction n with
    | zero =>
      intro x hx
      have := hle x
      omega
    | succ n ih =>
      intro x hx
      have hbelow : ∀ ids : List ObjectId, (∀ c ∈ ids, V.parent c = some x) →
          ∃ ds, V.Preorder ids ds := by
        intro ids
        induction ids with
        | nil => exact fun _ => ⟨[], .nil⟩
        | cons c cs ihcs =>
          intro hcs
          have hlt := hdepth c x (hcs c List.mem_cons_self)
          obtain ⟨below, hb⟩ := ih c (by omega)
          obtain ⟨rest, hr⟩ := ihcs fun d hd => hcs d (List.mem_cons_of_mem c hd)
          exact ⟨_, .cons hb hr⟩
      exact hbelow _ fun c hc => (hf.mem_children x c).1 hc
  induction ids with
  | nil => exact ⟨[], .nil⟩
  | cons x xs ih =>
    obtain ⟨rest, hr⟩ := ih
    obtain ⟨below, hb⟩ := hall (w.cells.size + 1) x (by omega)
    exact ⟨_, .cons hb hr⟩

end View

namespace View

variable {V W : View}

/-! The order of a changed tree. -/

theorem Preorder.congr {ids ds : List ObjectId} (h : V.Preorder ids ds)
    (hc : ∀ y ∈ ds, W.children y = V.children y) : W.Preorder ids ds := by
  induction h with
  | nil => exact .nil
  | @cons x xs below rest _ _ ihb ihr =>
    have hb := ihb fun y hy => hc y (List.mem_cons_of_mem x (List.mem_append_left rest hy))
    have hr := ihr fun y hy => hc y (List.mem_cons_of_mem x (List.mem_append_right below hy))
    rw [← hc x List.mem_cons_self] at hb
    exact .cons hb hr

theorem preorder_singleton {x : ObjectId} {ds : List ObjectId} :
    V.Preorder [x] (x :: ds) ↔ V.Preorder (V.children x) ds := by
  constructor
  · intro h
    cases h with
    | @cons _ _ below rest hb hr =>
      cases hr
      simpa using hb
  · intro h
    simpa using Preorder.cons h .nil

theorem Preorder.cons_leaf {x : ObjectId} {xs rest : List ObjectId} (hx : V.children x = [])
    (h : V.Preorder xs rest) : V.Preorder (x :: xs) (x :: rest) := by
  have hnil : V.Preorder (V.children x) [] := by
    rw [hx]
    exact .nil
  exact .cons hnil h

/-- Where some children of one node are exchanged for other nodes, what lay below them is exchanged
for what lies below the others, and the rest keeps its order. -/
theorem Preorder.splice {ids ds : List ObjectId} (h : V.Preorder ids ds) (hn : ds.Nodup)
    {p : ObjectId} (hp : p ∈ ds) (hother : ∀ y ∈ ds, y ≠ p → W.children y = V.children y)
    {before behind olds news es : List ObjectId} (hV : V.children p = before ++ olds ++ behind)
    (hW : W.children p = before ++ news ++ behind) (hnews : W.Preorder news es) :
    ∃ as ts bs, p ∈ as ∧ ds = as ++ ts ++ bs ∧ V.Preorder olds ts ∧
      W.Preorder ids (as ++ es ++ bs) := by
  induction h with
  | nil => cases hp
  | @cons x xs below rest hb hr ihb ihr =>
    obtain ⟨hx, hrest⟩ := List.nodup_cons.1 hn
    obtain ⟨hnb, hnr, hapart⟩ := List.nodup_append.1 hrest
    have hob : ∀ y ∈ below, y ≠ p → W.children y = V.children y := fun y hy =>
      hother y (List.mem_cons_of_mem x (List.mem_append_left rest hy))
    have hor : ∀ y ∈ rest, y ≠ p → W.children y = V.children y := fun y hy =>
      hother y (List.mem_cons_of_mem x (List.mem_append_right below hy))
    by_cases hxp : x = p
    · subst hxp
      have hxb : ∀ y ∈ below, y ≠ x := fun y hy hyx => hx (hyx ▸ List.mem_append_left rest hy)
      have hxr : ∀ y ∈ rest, y ≠ x := fun y hy hyx => hx (hyx ▸ List.mem_append_right below hy)
      rw [hV] at hb
      obtain ⟨cs, fs, rfl, hcs, hfs⟩ := hb.split
      obtain ⟨cs, ts, rfl, hbefore, holds⟩ := hcs.split
      have hbefore' : W.Preorder before cs := hbefore.congr fun y hy =>
        hob y (by simp [hy]) (hxb y (by simp [hy]))
      have hbehind' : W.Preorder behind fs := hfs.congr fun y hy =>
        hob y (by simp [hy]) (hxb y (by simp [hy]))
      have hr' : W.Preorder xs rest := hr.congr fun y hy => hor y hy (hxr y hy)
      have hnew := Preorder.cons (hW ▸ (hbefore'.append hnews).append hbehind') hr'
      exact ⟨x :: cs, ts, fs ++ rest, List.mem_cons_self, by simp, holds, by simpa using hnew⟩
    · have hchx : W.children x = V.children x := hother x List.mem_cons_self hxp
      rcases List.mem_append.1 ((List.mem_cons.1 hp).resolve_left (Ne.symm hxp)) with hp | hp
      · obtain ⟨as, ts, bs, hpa, rfl, holds, hnew⟩ := ihb hnb hp hob
        have hr' : W.Preorder xs rest := hr.congr fun y hy =>
          hor y hy fun hyp => hapart p hp y hy hyp.symm
        have hall := Preorder.cons (hchx ▸ hnew) hr'
        exact ⟨x :: as, ts, bs ++ rest, List.mem_cons_of_mem x hpa, by simp, holds,
          by simpa using hall⟩
      · obtain ⟨as, ts, bs, hpa, rfl, holds, hnew⟩ := ihr hnr hp hor
        have hb' : W.Preorder (V.children x) below := hb.congr fun y hy =>
          hob y hy fun hyp => hapart y hy p hp hyp
        have hall := Preorder.cons (hchx ▸ hb') hnew
        exact ⟨x :: (below ++ as), ts, bs, by simp [hpa], by simp, holds, by simpa using hall⟩

/-! First nodes. -/

/-- Whether a node is the first one below another, in document order, that has a property. -/
def IsFirst (V : View) (root : ObjectId) (P : ObjectId → Prop) (t : ObjectId) : Prop :=
  ∃ before behind, V.Preorder (V.children root) (before ++ t :: behind) ∧ P t ∧
    ∀ x ∈ before, ¬ P x

theorem isFirst_iff {root t : ObjectId} {P : ObjectId → Prop} [DecidablePred P] :
    V.IsFirst root P t ↔
      ∃ ds, V.Preorder (V.children root) ds ∧ ds.find? (fun x => decide (P x)) = some t := by
  constructor
  · rintro ⟨before, behind, h, ht, hno⟩
    refine ⟨_, h, List.find?_eq_some_iff_append.2 ⟨by simpa using ht, before, behind, rfl, ?_⟩⟩
    simpa using hno
  · rintro ⟨ds, h, hfind⟩
    obtain ⟨ht, before, behind, rfl, hno⟩ := List.find?_eq_some_iff_append.1 hfind
    exact ⟨before, behind, h, by simpa using ht, by simpa using hno⟩

theorem IsFirst.holds {root t : ObjectId} {P : ObjectId → Prop} (h : V.IsFirst root P t) : P t := by
  obtain ⟨_, _, _, ht, _⟩ := h
  exact ht

theorem IsFirst.above (hf : V.IsForest) {root t : ObjectId} {P : ObjectId → Prop}
    (h : V.IsFirst root P t) : V.Above root t := by
  obtain ⟨before, behind, hds, _⟩ := h
  exact (hds.mem_children_iff hf).1 (by simp)

/-- The first member with a property stays the first one when a part of the list is exchanged. -/
theorem find?_exchange {p q : ObjectId → Bool} {as ts bs es : List ObjectId} {t : ObjectId}
    (h : (as ++ ts ++ bs).find? p = some t) (ht : t ∉ ts) (hq : ∀ x ∈ as ++ bs, q x = p x)
    (he : ∀ x ∈ es, q x = false) : (as ++ es ++ bs).find? q = some t := by
  have has : as.filter q = as.filter p :=
    List.filter_congr fun x hx => hq x (List.mem_append_left bs hx)
  have hbs : bs.filter q = bs.filter p :=
    List.filter_congr fun x hx => hq x (List.mem_append_right as hx)
  have hes : es.filter q = [] := List.filter_eq_nil_iff.2 fun x hx => by simp [he x hx]
  rw [← List.head?_filter] at h ⊢
  simp only [List.filter_append, has, hbs, hes, List.append_nil] at h ⊢
  cases hp : as.filter p with
  | cons a rest =>
    rw [hp] at h
    exact h
  | nil =>
    rw [hp, List.nil_append] at h
    cases hts : ts.filter p with
    | nil =>
      rw [hts] at h
      exact h
    | cons x rest =>
      rw [hts] at h
      cases h
      exact absurd (List.mem_of_mem_filter (hts ▸ List.mem_cons_self)) ht

/-- The first node with a property stays the first one when children of some node are exchanged for
other nodes, if it is not below the ones and nothing below the others has the property. -/
theorem IsFirst.splice (hf : V.IsForest) {root t p : ObjectId} {P Q : ObjectId → Prop}
    (h : V.IsFirst root P t) (hp : V.Within root p)
    (hother : ∀ y, V.Within root y → y ≠ p → W.children y = V.children y)
    {before behind olds news es : List ObjectId} (hV : V.children p = before ++ olds ++ behind)
    (hW : W.children p = before ++ news ++ behind) (hnews : W.Preorder news es)
    (hold : ∀ r ∈ olds, ¬ V.Within r t) (hnew : ∀ x ∈ es, ¬ Q x)
    (hPQ : ∀ x, V.Above root x → (∀ r ∈ olds, ¬ V.Within r x) → (Q x ↔ P x)) :
    W.IsFirst root Q t := by
  classical
  obtain ⟨ds, hds, hfind⟩ := isFirst_iff.1 h
  have hall : V.Preorder [root] (root :: ds) := preorder_singleton.2 hds
  have hmem : ∀ y, y ∈ root :: ds ↔ V.Within root y := fun y => by
    simpa using hall.mem_iff hf (x := y)
  have hnodup : (root :: ds).Nodup := hall.nodup hf (by simp)
  obtain ⟨as, ts, bs, hpa, heq, holds, hafter⟩ := hall.splice hnodup ((hmem p).2 hp)
    (fun y hy => hother y ((hmem y).1 hy)) hV hW hnews
  obtain ⟨as, rfl⟩ : ∃ as', as = root :: as' := by
    cases as with
    | nil => cases hpa
    | cons a as =>
      rw [List.cons_append, List.cons_append, List.cons_eq_cons] at heq
      exact ⟨as, by rw [heq.1]⟩
  have hds' : ds = as ++ ts ++ bs := by simpa using heq
  have hW' : W.Preorder (W.children root) (as ++ es ++ bs) := preorder_singleton.1 hafter
  have hts : ∀ x, x ∈ ts ↔ ∃ r ∈ olds, V.Within r x := fun x => holds.mem_iff hf
  have hapart : ∀ x ∈ as ++ bs, x ∉ ts := by
    rw [hds'] at hnodup
    have hperm : (as ++ ts ++ bs).Perm (ts ++ (as ++ bs)) := by
      rw [List.append_assoc]
      exact List.perm_append_comm_assoc as ts bs
    have hdis := (hperm.nodup_iff.1 (List.nodup_cons.1 hnodup).2)
    intro x hx hxt
    exact (List.nodup_append.1 hdis).2.2 x hxt x hx rfl
  have hQ : ∀ x ∈ as ++ bs, (Q x ↔ P x) := by
    intro x hx
    have hxd : x ∈ ds := by
      rw [hds']
      simp only [List.mem_append] at hx ⊢
      tauto
    refine hPQ x ((hds.mem_children_iff hf).1 hxd) fun r hr hw => ?_
    exact hapart x hx ((hts x).2 ⟨r, hr, hw⟩)
  have htt : t ∉ ts := fun ht => by
    obtain ⟨r, hr, hw⟩ := (hts t).1 ht
    exact hold r hr hw
  refine isFirst_iff.2 ⟨_, hW', ?_⟩
  rw [hds'] at hfind
  refine find?_exchange hfind htt (fun x hx => ?_) fun x hx => ?_
  · simpa using hQ x hx
  · simpa using hnew x hx

end View

end PageTemplate
