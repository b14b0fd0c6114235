import PageTemplate.Proofs.Tree.Edits

/-!
# PageTemplate.Proofs.Tree.Regions

Changes that stay inside a part of a tree. What is changed inside one child of a node leaves the
other children alone, and putting nodes in the place of a child changes the child list of its parent
and nothing else outside of the child.
-/

namespace PageTemplate

namespace View

variable {V V' V'' : View}

/-- Whether all nodes that do not lie inside a certain one are as they were. Nodes that do may have
moved, but they are still there. -/
structure KeptOutside (V : View) (e : ObjectId) (V' : View) : Prop where
  nodes : ∀ x core, V.core x = some core → V'.core x = some core
  outside : ∀ x core, V.core x = some core → ¬ V.Within e x →
    Agree V V' x ∧ V'.parent x = V.parent x

/-- Whether a node has the place that it had, and all changes are inside it. -/
structure Rebuilt (V : View) (e : ObjectId) (V' : View) : Prop where
  outside : V.KeptOutside e V'
  core : V'.core e = V.core e
  parent : V'.parent e = V.parent e

/-- Whether some nodes have come in the place of a child, and all other changes are inside of what
the child was. -/
structure Replaced (V : View) (p c : ObjectId) (rs : List ObjectId) (V' : View) : Prop where
  children : ∀ before behind, V.children p = before ++ c :: behind →
    V'.children p = before ++ rs ++ behind
  core : V'.core p = V.core p
  attributes : V'.attributes p = V.attributes p
  parent : V'.parent p = V.parent p
  nodes : ∀ x core, V.core x = some core → V'.core x = some core
  outside : ∀ x core, V.core x = some core → x ≠ p → ¬ V.Within c x →
    Agree V V' x ∧ V'.parent x = V.parent x

/-- What is new to a view was new to every view with fewer nodes. -/
theorem KeptOutside.fresh (h : V.KeptOutside e V') {x : ObjectId} (hx : V'.core x = none) :
    V.core x = none := by
  cases hc : V.core x with
  | none => rfl
  | some core =>
    rw [h.nodes x core hc] at hx
    cases hx

theorem KeptOutside.of_extends (h : V.Extends V') (e : ObjectId) : V.KeptOutside e V' where
  nodes x core hx := (h.agree x core hx).core.trans hx
  outside x core hx _ := ⟨h.agree x core hx, h.parent x core hx⟩

theorem Rebuilt.refl (V : View) (e : ObjectId) : V.Rebuilt e V :=
  ⟨⟨fun _ _ hx => hx, fun x _ _ _ => ⟨.refl V x, rfl⟩⟩, rfl, rfl⟩

/-- The way up from outside a node is the one that it was. -/
theorem KeptOutside.above (hf : V.IsForest) (h : V.KeptOutside e V') {x a : ObjectId}
    {core : NodeCore} (hx : V.core x = some core) (hw : ¬ V.Within e x) (ha : V'.Above a x) :
    V.Above a x := by
  revert core
  induction ha using Relation.TransGen.head_induction_on with
  | single hp =>
    intro core hx
    rw [(h.outside _ core hx hw).2] at hp
    exact .single hp
  | head hp _ ih =>
    intro core hx
    rw [(h.outside _ core hx hw).2] at hp
    obtain ⟨ycore, hy, _⟩ := hf.container _ _ hp
    refine .head hp (ih (fun hwy => hw ?_) hy)
    rcases hwy with rfl | ha
    · exact .inr (.single hp)
    · exact .inr (.head hp ha)

theorem KeptOutside.not_within (hf : V.IsForest) (h : V.KeptOutside e V') {x : ObjectId}
    {core : NodeCore} (hx : V.core x = some core) (hw : ¬ V.Within e x) : ¬ V'.Within e x := by
  rintro (rfl | ha)
  · exact hw (.inl rfl)
  · exact hw (.inr (h.above hf hx hw ha))

/-- What was outside a node does not lie inside a new one. -/
theorem KeptOutside.not_within_new (hf : V.IsForest) (h : V.KeptOutside e V') {r x : ObjectId}
    {core : NodeCore} (hr : V.core r = none) (hx : V.core x = some core) (hw : ¬ V.Within e x) :
    ¬ V'.Within r x := by
  rintro (rfl | ha)
  · rw [hr] at hx
    cases hx
  · obtain ⟨y, _, hy⟩ := Relation.TransGen.tail'_iff.1 (h.above hf hx hw ha)
    obtain ⟨rcore, hrc, _⟩ := hf.container y r hy
    rw [hr] at hrc
    cases hrc

theorem KeptOutside.trans (hf : V.IsForest) (h : V.KeptOutside e V') (h' : V'.KeptOutside e V'') :
    V.KeptOutside e V'' := by
  refine ⟨fun x core hx => h'.nodes x core (h.nodes x core hx), fun x core hx hw => ?_⟩
  obtain ⟨ha, hp⟩ := h.outside x core hx hw
  obtain ⟨ha', hp'⟩ := h'.outside x core (ha.core.trans hx) (h.not_within hf hx hw)
  exact ⟨ha.trans ha', hp'.trans hp⟩

theorem Rebuilt.trans (hf : V.IsForest) (h : V.Rebuilt e V') (h' : V'.Rebuilt e V'') :
    V.Rebuilt e V'' :=
  ⟨h.outside.trans hf h'.outside, h'.core.trans h.core, h'.parent.trans h.parent⟩

/-- Old nodes do not lie inside new ones. -/
theorem Extends.not_within (hf : V.IsForest) (h : V.Extends V') {r x : ObjectId} {core : NodeCore}
    (hr : V.core r = none) (hx : V.core x = some core) : ¬ V'.Within r x := by
  have hw : ¬ V.Within r x := by
    rintro (rfl | ha)
    · rw [hr] at hx
      cases hx
    · obtain ⟨y, _, hy⟩ := Relation.TransGen.tail'_iff.1 ha
      obtain ⟨rcore, hrc, _⟩ := hf.container y r hy
      rw [hr] at hrc
      cases hrc
  exact KeptOutside.not_within_new hf (.of_extends h r) hr hx hw

/-- Changes inside a new node leave the old ones alone. -/
theorem Extends.trans_new (hf : V.IsForest) (h : V.Extends V') {r : ObjectId}
    (hr : V.core r = none) (h' : V'.KeptOutside r V'') : V.Extends V'' := by
  have key : ∀ x core, V.core x = some core → Agree V' V'' x ∧ V''.parent x = V'.parent x :=
    fun x core hx => h'.outside x core ((h.agree x core hx).core.trans hx) (h.not_within hf hr hx)
  exact ⟨fun x core hx => (h.agree x core hx).trans (key x core hx).1,
    fun x core hx => (key x core hx).2.trans (h.parent x core hx)⟩

/-! Siblings. -/

/-- What lies inside a child does not hold its parent. -/
theorem IsForest.ne_parent_of_within (hf : V.IsForest) {p c x : ObjectId}
    (hc : V.parent c = some p) (hx : V.Within c x) : x ≠ p := by
  rintro rfl
  rcases hx with rfl | ha
  · exact hf.ne_of_parent hc rfl
  · exact hf.acyclic x (ha.tail hc)

theorem within_iff {id x : ObjectId} :
    V.Within id x ↔ Relation.ReflTransGen (fun a b => V.parent a = some b) x id := by
  rw [Relation.reflTransGen_iff_eq_or_transGen]
  constructor
  · rintro (rfl | ha)
    · exact .inl rfl
    · exact .inr ha
  · rintro (rfl | ha)
    · exact .inl rfl
    · exact .inr ha

/-- A node lies in another one when it is that node or its parent lies in it. -/
theorem within_step_iff {c e : ObjectId} :
    V.Within e c ↔ c = e ∨ ∃ p, V.parent c = some p ∧ V.Within e p := by
  simp only [within_iff]
  exact Relation.ReflTransGen.cases_head_iff

/-- Of two nodes in which a third one lies, one lies inside the other. -/
theorem Within.or {a b x : ObjectId} (ha : V.Within a x) (hb : V.Within b x) :
    V.Within a b ∨ V.Within b a := by
  have hu : Relator.RightUnique fun a b => V.parent a = some b := fun a b b' h h' =>
    Option.some.inj (h.symm.trans h')
  simp only [within_iff] at ha hb ⊢
  exact (Relation.ReflTransGen.total_of_right_unique hu ha hb).symm

/-- Nothing lies inside two children of a node. -/
theorem IsForest.within_unique (hf : V.IsForest) {p c d x : ObjectId} (hc : V.parent c = some p)
    (hd : V.parent d = some p) (hxc : V.Within c x) (hxd : V.Within d x) : c = d := by
  have key : ∀ {c d : ObjectId}, V.parent c = some p → V.parent d = some p → V.Within d c →
      c = d := by
    intro c d hc hd h
    rcases h with rfl | ha
    · rfl
    · obtain ⟨y, hy, h⟩ := Relation.TransGen.head'_iff.1 ha
      cases hc.symm.trans hy
      exact absurd rfl (hf.ne_parent_of_within hd (within_iff.2 h))
  rcases hxc.or hxd with h | h
  · exact (key hd hc h).symm
  · exact key hc hd h

namespace Replaced

variable {p c : ObjectId} {rs : List ObjectId}

/-- The other children are the trees that they were. -/
theorem represents (hf : V.IsForest) (hc : V.parent c = some p) (h : V.Replaced p c rs V')
    {d : ObjectId} (hd : V.parent d = some p) (hne : d ≠ c) {t : NodeTree}
    (ht : V.Represents d t) : V'.Represents d t := by
  obtain ⟨dcore, hdc, _⟩ := ht.core
  refine ht.frame hf t fun x hx => ?_
  obtain ⟨core, hx'⟩ := hx.core hf hdc
  refine (h.outside x core hx' (hf.ne_parent_of_within hd hx) fun hxc => hne ?_).1
  exact hf.within_unique hd hc hx hxc

theorem representsAll (hf : V.IsForest) (hc : V.parent c = some p) (h : V.Replaced p c rs V')
    {ids : List ObjectId} (hids : ∀ d ∈ ids, V.parent d = some p ∧ d ≠ c) {ts : List NodeTree}
    (ht : V.RepresentsAll ids ts) : V'.RepresentsAll ids ts := by
  induction ts generalizing ids with
  | nil => exact representsAll_nil.2 (representsAll_nil.1 ht)
  | cons t ts ih =>
    obtain ⟨d, rest, rfl, ht, hts⟩ := ht
    obtain ⟨hd, hne⟩ := hids d List.mem_cons_self
    exact representsAll_cons.2 ⟨h.represents hf hc hd hne ht,
      ih (fun y hy => hids y (List.mem_cons_of_mem d hy)) hts⟩

/-- Seen from the parent, all changes are inside it. -/
theorem rebuilt (hc : V.parent c = some p) (h : V.Replaced p c rs V') : V.Rebuilt p V' where
  outside := ⟨h.nodes, fun x core hx hw => h.outside x core hx (fun he => hw (.inl he))
    fun hxc => hw (hxc.of_child hc)⟩
  core := h.core
  parent := h.parent

/-- A child that keeps its place. -/
theorem of_rebuilt (hf : V.IsForest) {pcore : NodeCore} (hp : V.core p = some pcore)
    (hc : V.parent c = some p) (h : V.Rebuilt c V') : V.Replaced p c [c] V' := by
  have hpc : ¬ V.Within c p := fun hw => hf.ne_parent_of_within hc hw rfl
  obtain ⟨hag, hpar⟩ := h.outside.outside p pcore hp hpc
  refine ⟨fun before behind he => ?_, hag.core, hag.attributes, hpar, h.outside.nodes,
    fun x core hx _ hw => h.outside.outside x core hx hw⟩
  rw [hag.children, he, List.append_assoc]
  rfl

end Replaced

/-! Putting the children of a fragment in the place of a child. -/

theorem not_mem_before {α : Type} {before behind : List α} {c : α}
    (h : (before ++ c :: behind).Nodup) : c ∉ before :=
  fun hm => (List.nodup_append.1 h).2.2 c hm c List.mem_cons_self rfl

theorem spliceAt_append {before behind nodes : List ObjectId} {c : ObjectId} (h : c ∉ before) :
    Tree.spliceAt ((before ++ c :: behind).idxOf? c) nodes (before ++ c :: behind) =
      before ++ nodes ++ behind := by
  have hi : (before ++ c :: behind).idxOf? c = some before.length := by
    induction before with
    | nil => simp [List.idxOf?, List.findIdx?_cons]
    | cons b before ih =>
      simp only [List.mem_cons, not_or] at h
      rw [List.cons_append, List.idxOf?_cons, ih h.2]
      simp [Ne.symm h.1]
  rw [Tree.spliceAt, hi, Option.getD_some, List.take_left, List.drop_append]
  simp

theorem release_parent (V : View) (r x : ObjectId) :
    (V.release r).parent x = if x ∈ V.inserted r then none else V.parent x := by
  by_cases hr : V.IsFragment r
  · rw [release, inserted, if_pos hr, if_pos hr, takeChildren_parent]
  · simp only [release, inserted, if_neg hr, detach_parent, List.mem_singleton]

theorem release_children_of_ne {r x : ObjectId} (hr : V.parent r = none) (hx : x ≠ r) :
    (V.release r).children x = V.children x := by
  simp only [release]
  split
  · rw [takeChildren_children, if_neg hx]
  · rw [detach_of_root hr]

theorem replaceWith_of_child {c r p : ObjectId} (hc : V.parent c = some p) (hne : r ≠ c) :
    V.replaceWith c r = (V.release r).substitute p c (V.inserted r) := by
  simp [replaceWith, hc, hne]

/-- A root that is no part of the tree, put in the place of a child. -/
structure Replaces (V : View) (p c r : ObjectId) (V' : View) : Prop where
  here : ∀ before behind, V.children p = before ++ c :: behind →
    V'.children p = before ++ V.inserted r ++ behind
  elsewhere : ∀ x, x ≠ p → x ≠ r → V'.children x = V.children x
  parent : ∀ x, V'.parent x =
    if x ∈ V.inserted r then some p else if x = c then none else V.parent x

theorem replaces_of_root (hf : V.IsForest) {c r p : ObjectId} (hc : V.parent c = some p)
    (hr : V.parent r = none) (hp : r ≠ p) : V.Replaces p c r (V.replaceWith c r) := by
  have hne : r ≠ c := by
    rintro rfl
    rw [hr] at hc
    cases hc
  have hf1 := hf.release r
  have hc1 : (V.release r).parent c = some p := hf.parent_release hc hne hp
  rw [replaceWith_of_child hc hne]
  constructor
  · intro before behind he
    have hch : (V.release r).children p = before ++ c :: behind := by
      rw [release_children_of_ne hr hp.symm, he]
    have hnb : c ∉ before := not_mem_before (he ▸ hf.nodup p)
    rw [substitute, insert_children, if_pos rfl, hch, spliceAt_append hnb]
  · intro x hxp hxr
    rw [substitute, insert_children, if_neg hxp, detach_children hf1,
      release_children_of_ne hr hxr]
    refine List.erase_of_not_mem fun hm => hxp ?_
    cases hc.symm.trans ((hf.mem_children x c).1 hm)
    rfl
  · intro x
    rw [substitute, insert_parent, detach_parent]
    split
    · rfl
    · rename_i hx
      split
      · rfl
      · rw [release_parent, if_neg hx]

/-- What was built outside of the tree comes in the place of a child: what the child was is gone,
and everything else is as it was. -/
theorem replaced_of_root (hf : V.IsForest) {p c r : ObjectId} (hc : V.parent c = some p)
    {pcore : NodeCore} (hp : V.core p = some pcore) (hnew : V.core r = none) (hf' : V'.IsForest)
    (hout : V.KeptOutside c V') (hparent : V'.parent c = some p) (hr : V'.parent r = none) :
    V.Replaced p c (V'.inserted r) (V'.replaceWith c r) := by
  have hrp : r ≠ p := by
    rintro rfl
    rw [hnew] at hp
    cases hp
  have hpc : ¬ V.Within c p := fun hw => hf.ne_parent_of_within hc hw rfl
  obtain ⟨hag, hpar⟩ := hout.outside p pcore hp hpc
  have hrep := replaces_of_root hf' hparent hr hrp
  have hold : ∀ x core, V.core x = some core → ¬ V.Within c x → x ∉ V'.inserted r ∧ x ≠ c := by
    intro x core hx hw
    refine ⟨fun hm => ?_, fun he => hw (.inl he)⟩
    obtain ⟨_, hparx⟩ := hout.outside x core hx hw
    simp only [inserted] at hm
    split at hm
    · rw [(hf'.mem_children r x).1 hm] at hparx
      obtain ⟨rcore, hrc, _⟩ := hf.container x r hparx.symm
      rw [hnew] at hrc
      cases hrc
    · rw [List.mem_singleton.1 hm, hnew] at hx
      cases hx
  refine ⟨fun before behind he => hrep.here before behind (by rw [hag.children, he]), ?_, ?_, ?_,
    fun x core hx => by rw [replaceWith_core, hout.nodes x core hx], ?_⟩
  · rw [replaceWith_core, hag.core]
  · rw [replaceWith_attributes, hag.attributes]
  · obtain ⟨h1, h2⟩ := hold p pcore hp hpc
    rw [hrep.parent, if_neg h1, if_neg h2, hpar]
  · intro x core hx hxp hw
    obtain ⟨h1, h2⟩ := hold x core hx hw
    obtain ⟨hagx, hparx⟩ := hout.outside x core hx hw
    have hxr : x ≠ r := by
      rintro rfl
      rw [hnew] at hx
      cases hx
    refine ⟨⟨?_, ?_, ?_⟩, ?_⟩
    · rw [replaceWith_core, hagx.core]
    · rw [hrep.elsewhere x hxp hxr, hagx.children]
    · rw [replaceWith_attributes, hagx.attributes]
    · rw [hrep.parent, if_neg h1, if_neg h2, hparx]

/-- The children of a fragment are the same trees where they have come. -/
theorem replaceWith_representsAll (hf : V.IsForest) {p c r : ObjectId} (hc : V.parent c = some p)
    {pcore : NodeCore} (hp : V.core p = some pcore) (hnew : V.core r = none) (hf' : V'.IsForest)
    (hout : V.KeptOutside c V') (hparent : V'.parent c = some p) (hr : V'.parent r = none)
    {ts : List NodeTree} (ht : V'.RepresentsAll (V'.children r) ts) :
    (V'.replaceWith c r).RepresentsAll (V'.children r) ts := by
  have hrp : r ≠ p := by
    rintro rfl
    rw [hnew] at hp
    cases hp
  have hrep := replaces_of_root hf' hparent hr hrp
  have hpc : ¬ V.Within c p := fun hw => hf.ne_parent_of_within hc hw rfl
  refine ht.frame hf' ts fun d hd x hx => ?_
  have hdr : V'.parent d = some r := (hf'.mem_children r d).1 hd
  have hxr : x ≠ r := hf'.ne_parent_of_within hdr hx
  have hxp : x ≠ p := by
    rintro rfl
    exact hout.not_within_new hf hnew hp hpc (hx.of_child hdr)
  exact ⟨by simp, hrep.elsewhere x hxp hxr, by simp⟩

/-- A child taken out. -/
theorem replaced_of_detach (hf : V.IsForest) {p c : ObjectId} (hc : V.parent c = some p) :
    V.Replaced p c [] (V.detach c) := by
  have hpc : p ≠ c := (hf.ne_of_parent hc).symm
  refine ⟨fun before behind he => ?_, by simp, by simp, ?_, by simp, ?_⟩
  · have hnb : c ∉ before := not_mem_before (he ▸ hf.nodup p)
    rw [detach_children hf, he, List.erase_append_right _ hnb, List.erase_cons_head,
      List.append_nil]
  · rw [detach_parent, if_neg hpc]
  · intro x core _ hxp hw
    have hxc : x ≠ c := fun he => hw (.inl he)
    refine ⟨⟨by simp, ?_, by simp⟩, by rw [detach_parent, if_neg hxc]⟩
    rw [detach_children hf]
    refine List.erase_of_not_mem fun hm => hxp ?_
    cases hc.symm.trans ((hf.mem_children x c).1 hm)
    rfl

end View

end PageTemplate
