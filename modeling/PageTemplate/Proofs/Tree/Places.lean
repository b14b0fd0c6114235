import PageTemplate.Proofs.Tree.Regions

/-!
# PageTemplate.Proofs.Tree.Places

What comes in the place of a child. It is built outside of the tree, where it may take over the
children of the child, and then put into its place.
-/

namespace PageTemplate

namespace View

variable {V V' V1 : View} {p c f k : ObjectId}

/-- Whether certain trees have come in the place of a child, and all other changes are inside of what
the child was. -/
def Yields (V : View) (p c : ObjectId) (ts : List NodeTree) (V' : View) : Prop :=
  ∃ rs, V.Replaced p c rs V' ∧ V'.RepresentsAll rs ts

theorem Yields.of_rebuilt (hf : V.IsForest) {pcore : NodeCore} (hp : V.core p = some pcore)
    (hc : V.parent c = some p) (h : V.Rebuilt c V') {t : NodeTree} (ht : V'.Represents c t) :
    V.Yields p c [t] V' :=
  ⟨[c], .of_rebuilt hf hp hc h, representsAll_cons.2 ⟨ht, representsAll_nil.2 rfl⟩⟩

theorem yields_self (hf : V.IsForest) {pcore : NodeCore} (hp : V.core p = some pcore)
    (hc : V.parent c = some p) {t : NodeTree} (ht : V.Represents c t) : V.Yields p c [t] V :=
  .of_rebuilt hf hp hc (.refl V c) ht

theorem yields_detach (hf : V.IsForest) (hc : V.parent c = some p) :
    V.Yields p c [] (V.detach c) :=
  ⟨[], replaced_of_detach hf hc, representsAll_nil.2 rfl⟩

/-- The children of a fragment that was built outside of the tree. -/
theorem yields_fragment (hf : V.IsForest) (hc : V.parent c = some p) {pcore : NodeCore}
    (hp : V.core p = some pcore) (hnew : V.core f = none) (hf' : V'.IsForest)
    (hout : V.KeptOutside c V') (hparent : V'.parent c = some p) (hfrag : V'.IsFragment f)
    (hroot : V'.parent f = none) {ts : List NodeTree} (ht : V'.RepresentsAll (V'.children f) ts) :
    V.Yields p c ts (V'.replaceWith c f) := by
  refine ⟨V'.children f, ?_, ?_⟩
  · have hrep := replaced_of_root hf hc hp hnew hf' hout hparent hroot
    rwa [inserted, if_pos hfrag] at hrep
  · exact replaceWith_representsAll hf hc hp hnew hf' hout hparent hroot ht

/-- A leaf that was made outside of the tree. -/
theorem yields_leaf (hf : V.IsForest) (hc : V.parent c = some p) {pcore : NodeCore}
    (hp : V.core p = some pcore) (hnew : V.core f = none) (hf' : V'.IsForest)
    (hout : V.KeptOutside c V') (hparent : V'.parent c = some p) {core : NodeCore}
    (hcore : V'.core f = some core) (hl : core.hasChildren = false) (hroot : V'.parent f = none) :
    V.Yields p c [.leaf core] (V'.replaceWith c f) := by
  have hfrag : ¬ V'.IsFragment f := by
    intro h
    cases hcore.symm.trans h
    cases hl
  refine ⟨[f], ?_, representsAll_cons.2 ⟨⟨?_, hl⟩, representsAll_nil.2 rfl⟩⟩
  · have hrep := replaced_of_root hf hc hp hnew hf' hout hparent hroot
    rwa [inserted, if_neg hfrag] at hrep
  · rw [replaceWith_core, hcore]

/-! Taking over children. -/

theorem stealChildren_children (V : View) (t s x : ObjectId) :
    (V.stealChildren t s).children x =
      if x = t then (V.takeChildren s).children t ++ V.children s
      else if x = s then [] else V.children x := by
  rw [stealChildren, insert_children]
  split
  · rfl
  · rw [takeChildren_children]

/-- Where children go to a new node, what is outside of their old parent is as it was. -/
theorem KeptOutside.steal (h : V.KeptOutside k V1) (hf1 : V1.IsForest) (hnew : V.core f = none) :
    V.KeptOutside k (V1.stealChildren f k) := by
  refine ⟨fun x core hx => by rw [stealChildren_core, h.nodes x core hx], fun x core hx hw => ?_⟩
  obtain ⟨hag, hpar⟩ := h.outside x core hx hw
  have hxf : x ≠ f := by
    rintro rfl
    rw [hnew] at hx
    cases hx
  have hxk : x ≠ k := fun he => hw (.inl he)
  have hxm : x ∉ V1.children k := fun hm => by
    rw [(hf1.mem_children k x).1 hm] at hpar
    exact hw (.inr (.single hpar.symm))
  refine ⟨⟨hag.core, ?_, hag.attributes⟩, ?_⟩
  · rw [stealChildren_children, if_neg hxf, if_neg hxk, hag.children]
  · rw [IsForest.stealChildren_parent, if_neg hxm, hpar]

/-- Nothing that was there lies inside of a new node. -/
theorem KeptOutside.to_extends (h : V.KeptOutside k V') (hf : V.IsForest) (hk : V.core k = none) :
    V.Extends V' :=
  (Extends.refl V).trans_new hf hk h

/-- The children of a fragment and the children that it takes over. -/
theorem stealChildren_representsAll (hf : V.IsForest) (hroot : V.parent f = none) (hne : f ≠ k)
    (hk : ¬ V.Above f k) {ts us : List NodeTree}
    (ht : V.RepresentsAll (V.children f) ts) (hu : V.RepresentsAll (V.children k) us) :
    (V.stealChildren f k).RepresentsAll ((V.stealChildren f k).children f) (ts ++ us) := by
  rw [stealChildren_children, if_pos rfl, takeChildren_children, if_neg hne]
  have keep : ∀ x, x ≠ f → x ≠ k → Agree V (V.stealChildren f k) x := fun x hxf hxk =>
    ⟨rfl, by rw [stealChildren_children, if_neg hxf, if_neg hxk], rfl⟩
  refine representsAll_append (ht.frame hf ts fun d hd x hx => ?_) (hu.frame hf us fun d hd x hx => ?_)
  · have hdf := (hf.mem_children f d).1 hd
    refine keep x (hf.ne_parent_of_within hdf hx) ?_
    rintro rfl
    exact (hx.of_child hdf).elim hne.symm hk
  · have hdk := (hf.mem_children k d).1 hd
    refine keep x (hx.ne_root hroot ?_) (hf.ne_parent_of_within hdk hx)
    rintro rfl
    rw [hroot] at hdk
    cases hdk

/-- A child makes way for its own children. -/
theorem yields_stripOut (hf : V.IsForest) (hc : V.parent c = some p) {pcore : NodeCore}
    (hp : V.core p = some pcore) (h : V.Rebuilt c V1) (hf1 : V1.IsForest)
    (hnew : V1.core f = none) {ts : List NodeTree} (ht : V1.RepresentsAll (V1.children c) ts) :
    V.Yields p c ts (((V1.add f .fragment []).stealChildren f c).replaceWith c f) := by
  have hext : V1.Extends (V1.add f .fragment []) := extends_add hnew .fragment []
  have hf2 : (V1.add f .fragment []).IsForest := hf1.add hnew .fragment []
  have hnew0 : V.core f = none := h.outside.fresh hnew
  have hroot : (V1.add f .fragment []).parent f = none := by simp [add]
  have hpar1 : V1.parent c = some p := h.parent.trans hc
  obtain ⟨ccore, hccore, _⟩ := hf1.inner c p hpar1
  have hcf : c ≠ f := by
    rintro rfl
    rw [hnew] at hccore
    cases hccore
  have hch : (V1.add f .fragment []).children c = V1.children c :=
    (hext.agree c ccore hccore).children
  have hcc : c ∉ V1.children c := fun hm =>
    hf1.ne_of_parent ((hf1.mem_children c c).1 hm) rfl
  have hfc : f ∉ V1.children c := fun hm => by
    obtain ⟨_, hfcore, _⟩ := hf1.inner f c ((hf1.mem_children c f).1 hm)
    rw [hnew] at hfcore
    cases hfcore
  refine yields_fragment hf hc hp hnew0 ?_ ?_ ?_ ?_ ?_ ?_
  · refine hf2.stealChildren ⟨.fragment, by simp [add], rfl⟩ (not_under_root hroot ?_)
    rwa [hch]
  · exact (h.outside.trans hf (.of_extends hext c)).steal hf2 hnew0
  · rw [IsForest.stealChildren_parent, hch, if_neg hcc, hext.parent c ccore hccore, hpar1]
  · simp [IsFragment, add]
  · rw [IsForest.stealChildren_parent, hch, if_neg hfc, hroot]
  · have hnil : (V1.add f .fragment []).children f = [] := by simp [add]
    rw [← List.nil_append ts]
    have hab : ¬ (V1.add f .fragment []).Above f c := fun ha => by
      obtain ⟨y, _, hy⟩ := Relation.TransGen.tail'_iff.1 ha
      have hym := (hf2.mem_children f y).2 hy
      rw [hnil] at hym
      cases hym
    refine stealChildren_representsAll hf2 hroot hcf.symm hab (by simp [hnil]) ?_
    rw [hch]
    exact ht.extend hf1 hext

/-! Building outside of the tree. -/

/-- Whether certain trees have been built below a new node, while everything else is as it was. -/
structure Built (V : View) (f : ObjectId) (fcore : NodeCore) (ts : List NodeTree) (V' : View) :
    Prop where
  extend : V.Extends V'
  fresh : V.core f = none
  core : V'.core f = some fcore
  root : V'.parent f = none
  represents : V'.RepresentsAll (V'.children f) ts

namespace Built

variable {fcore : NodeCore} {ts us : List NodeTree}

theorem start (hnew : V.core f = none) (fcore : NodeCore) (attributes : Entries) :
    V.Built f fcore [] (V.add f fcore attributes) where
  extend := extends_add hnew fcore attributes
  fresh := hnew
  core := by simp [add]
  root := by simp [add]
  represents := by simp [add]

/-- What is built stays when more nodes come. -/
theorem later (h : V.Built f fcore ts V1) (hf1 : V1.IsForest) (he : V1.Extends V') :
    V.Built f fcore ts V' := by
  have hag := he.agree f _ h.core
  refine ⟨h.extend.trans he, h.fresh, hag.core.trans h.core, (he.parent f _ h.core).trans h.root, ?_⟩
  rw [hag.children]
  exact h.represents.extend hf1 he

/-- The children of a new node are added to what was built. -/
theorem steal (h : V.Built f fcore ts V1) (hf : V.IsForest) (hf1 : V1.IsForest)
    (hk : V.core k = none) (hne : f ≠ k) (hab : ¬ V1.Above f k)
    (hu : V1.RepresentsAll (V1.children k) us) :
    V.Built f fcore (ts ++ us) (V1.stealChildren f k) := by
  have hm : f ∉ V1.children k := fun hm => by
    have hroot := h.root
    rw [(hf1.mem_children k f).1 hm] at hroot
    cases hroot
  refine ⟨((KeptOutside.of_extends h.extend k).steal hf1 h.fresh).to_extends hf hk, h.fresh,
    h.core, ?_, stealChildren_representsAll hf1 h.root hne hab h.represents hu⟩
  rw [IsForest.stealChildren_parent, if_neg hm, h.root]

/-- A new node is added to what was built. -/
theorem append (h : V.Built f fcore ts V1) (hf1 : V1.IsForest) (hnew : V1.core k = none)
    {core : NodeCore} {attributes : Entries} (hi : core.isInner) {t : NodeTree}
    (ht : (V1.add k core attributes).Represents k t) :
    V.Built f fcore (ts ++ [t]) ((V1.add k core attributes).append f k) := by
  have hext : V1.Extends (V1.add k core attributes) := extends_add hnew core attributes
  have hf2 : (V1.add k core attributes).IsForest := hf1.add hnew core attributes
  have h2 := h.later hf1 hext
  have hcore : (V1.add k core attributes).core k = some core := by simp [add]
  have hne : k ≠ f := by
    rintro rfl
    cases hnew.symm.trans h.core
  have hmem : f ∉ (V1.add k core attributes).children f := fun hm => by
    have hroot := h2.root
    rw [(hf2.mem_children f f).1 hm] at hroot
    cases hroot
  rw [append_root (by simp [add]) ⟨core, hcore, hi⟩]
  refine ⟨h.extend.trans hext |>.insert h.fresh ?_ _, h.fresh, h2.core, ?_, ?_⟩
  · intro n hn
    rw [List.mem_singleton.1 hn]
    exact (KeptOutside.of_extends h.extend k).fresh hnew
  · rw [insert_parent, if_neg (by simpa using hne.symm), h2.root]
  · rw [insert_children, if_pos rfl]
    have hone : (V1.add k core attributes).RepresentsAll [k] [t] :=
      representsAll_cons.2 ⟨ht, representsAll_nil.2 rfl⟩
    exact (representsAll_append h2.represents hone).insert_root hf2 h2.root
      (by simpa [hne.symm] using hmem)

/-- What was there before may be less than what the new node was made in. -/
theorem of_extends (h : V.Extends V1) (hb : V1.Built f fcore ts V') : V.Built f fcore ts V' :=
  ⟨h.trans hb.extend, (KeptOutside.of_extends h f).fresh hb.fresh, hb.core, hb.root,
    hb.represents⟩

end Built

/-- Whether the children of a node outside of a fragment wait to be taken over by it. -/
structure Waits (V : View) (f k : ObjectId) (us : List NodeTree) : Prop where
  container : V.Container k
  outside : ¬ V.Within f k
  represents : V.RepresentsAll (V.children k) us

theorem Waits.start {us : List NodeTree} (hf : V.IsForest) (hnew : V.core f = none)
    (hk : V.Container k) (hu : V.RepresentsAll (V.children k) us) :
    (V.add f .fragment []).Waits f k us := by
  obtain ⟨kcore, hkc, hkh⟩ := hk
  have hext : V.Extends (V.add f .fragment []) := extends_add hnew .fragment []
  have hag := hext.agree k kcore hkc
  refine ⟨⟨kcore, hag.core.trans hkc, hkh⟩, hext.not_within hf hnew hkc, ?_⟩
  rw [hag.children]
  exact hu.extend hf hext

/-- Adding a new node to a node leaves what is outside of that one alone. -/
theorem keptOutside_append {l : ObjectId} (hnew : V.core l = none) (core : NodeCore)
    (attributes : Entries) (ids : List ObjectId) :
    V.KeptOutside f ((V.add l core attributes).insert f ids [l]) := by
  have hold : ∀ x xcore, V.core x = some xcore → x ≠ l := by
    rintro x xcore hx rfl
    rw [hnew] at hx
    cases hx
  refine ⟨fun x xcore hx => by simp [add, hold x xcore hx, hx], fun x xcore hx hw => ?_⟩
  have hxl := hold x xcore hx
  have hxf : x ≠ f := fun he => hw (.inl he)
  refine ⟨⟨by simp [add, hxl], ?_, ?_⟩, ?_⟩
  · rw [insert_children, if_neg hxf]
    simp [add, hxl]
  · simp [insert, setChildren, setParents, add, hxl]
  · rw [insert_parent, if_neg (by simpa using hxl)]
    simp [add, hxl]

/-- Adding a new node to a fragment does not disturb what waits. -/
theorem Waits.append {us : List NodeTree} {l : ObjectId} (h : V.Waits f k us) (hf : V.IsForest)
    (hfrag : V.IsFragment f) (hroot : V.parent f = none) (hnew : V.core l = none)
    {core : NodeCore} (attributes : Entries) (hi : core.isInner) :
    ((V.add l core attributes).append f l).Waits f k us := by
  obtain ⟨⟨kcore, hkc, hkh⟩, hw, hu⟩ := h
  have hext : V.Extends (V.add l core attributes) := extends_add hnew core attributes
  have hkf : k ≠ f := fun he => hw (.inl he)
  rw [append_root (by simp [add]) ⟨core, by simp [add], hi⟩]
  have hkept : V.KeptOutside f ((V.add l core attributes).insert f _ [l]) :=
    keptOutside_append hnew core attributes ((V.add l core attributes).children f ++ [l])
  refine ⟨⟨kcore, hkept.nodes k kcore hkc, hkh⟩, hkept.not_within hf hkc hw, ?_⟩
  rw [insert_children, if_neg hkf, (hext.agree k kcore hkc).children]
  refine (hu.extend hf hext).insert_root (hf.add hnew core attributes) ?_ fun hm => ?_
  · exact (hext.parent f _ hfrag).trans hroot
  · rw [(hf.mem_children k f).1 hm] at hroot
    cases hroot

/-! Changes of a node itself. -/

/-- What lies inside the children of a node does not see its attributes. -/
theorem setAttributes_representsAll (hf : V.IsForest) (e : ObjectId) (es : Entries)
    {ts : List NodeTree} (ht : V.RepresentsAll (V.children e) ts) :
    (V.setAttributes e es).RepresentsAll (V.children e) ts := by
  refine ht.frame hf ts fun d hd x hx => ⟨rfl, rfl, ?_⟩
  have hxe := hf.ne_parent_of_within ((hf.mem_children e d).1 hd) hx
  simp [setAttributes, hxe]

theorem rebuilt_setAttributes (V : View) (e : ObjectId) (es : Entries) :
    V.Rebuilt e (V.setAttributes e es) := by
  refine ⟨⟨fun _ _ hx => hx, fun x core _ hw => ⟨⟨rfl, rfl, ?_⟩, rfl⟩⟩, rfl, rfl⟩
  have hxe : x ≠ e := fun he => hw (.inl he)
  simp [setAttributes, hxe]

/-- A new leaf in the place of all children of a node. -/
theorem rebuilt_refill (hf : V.IsForest) {e : ObjectId} {ecore core : NodeCore}
    (he : V.core e = some ecore) (hnew : V.core f = none) (hl : core.hasChildren = false) :
    V.Rebuilt e (((V.takeChildren e).add f core []).insert e [f] [f]) ∧
      (((V.takeChildren e).add f core []).insert e [f] [f]).RepresentsAll [f] [.leaf core] := by
  have hold : ∀ x xcore, V.core x = some xcore → x ≠ f := by
    rintro x xcore hx rfl
    rw [hnew] at hx
    cases hx
  have hef := hold e ecore he
  have hem : e ∉ V.children e := fun hm => hf.ne_of_parent ((hf.mem_children e e).1 hm) rfl
  refine ⟨⟨⟨fun x xcore hx => ?_, fun x xcore hx hw => ⟨⟨?_, ?_, ?_⟩, ?_⟩⟩, ?_, ?_⟩, ?_⟩
  · simpa [add, hold x xcore hx] using hx
  · simp [add, hold x xcore hx]
  · have hxe : x ≠ e := fun h => hw (.inl h)
    rw [insert_children, if_neg hxe]
    simp [add, hold x xcore hx, takeChildren_children, hxe]
  · have hxf := hold x xcore hx
    simp only [insert, setChildren, setParents, add, if_neg hxf]
    rfl
  · have hxm : x ∉ V.children e := fun hm =>
      hw (.inr (.single ((hf.mem_children e x).1 hm)))
    rw [insert_parent, if_neg (by simpa using hold x xcore hx)]
    simp [add, hold x xcore hx, takeChildren_parent, hxm]
  · simp [add, hef]
  · rw [insert_parent, if_neg (by simpa using hef)]
    simp [add, hef, takeChildren_parent, hem]
  · exact representsAll_cons.2 ⟨⟨by simp [add], hl⟩, representsAll_nil.2 rfl⟩

/-- What is not inside a node is not under what is inserted for it. -/
theorem not_under_inserted (hf : V.IsForest) (h : ¬ V.Within f p) :
    ¬ V.Under (V.inserted f) p := by
  rintro ⟨n, hn, hw⟩
  simp only [inserted] at hn
  split at hn
  · exact h (Within.of_child ((hf.mem_children f n).1 hn) hw)
  · rw [List.mem_singleton.1 hn] at hw
    exact h hw

end View

namespace Tree

open View

variable {env : Env} {w : World} {V V' : View} {p c f : ObjectId} {pcore : NodeCore}

/-- A new node at the end of the children of a node. -/
theorem does_appendNew (env : Env) (h : Shows w V) (hg : V.IsRegular) (hp : V.core p = some pcore)
    (hh : pcore.hasChildren) {core : NodeCore} (hi : core.isInner)
    (ht : ∀ tag, core = .element tag → ∃ t, tag = .text t) (attributes : Entries) :
    ∃ l, V.core l = none ∧ ((V.add l core attributes).append p l).IsRegular ∧
      Does env w V (do append (.object p) (.object (← allocNode core attributes))) ()
        ((V.add l core attributes).append p l) := by
  have hnew := h.core_size
  have halloc : Does env w V (allocNode core attributes) w.cells.size _ :=
    does_allocNode h core attributes
  generalize w.cells.size = l at hnew halloc
  have hg1 : (V.add l core attributes).IsRegular := hg.add hnew ht attributes
  have hext : V.Extends (V.add l core attributes) := extends_add hnew core attributes
  have hu : ¬ (V.add l core attributes).Under ((V.add l core attributes).inserted l) p :=
    not_under_inserted hg1.toIsForest (hext.not_within hg.toIsForest hnew hp)
  have hp1 := (hext.agree p pcore hp).core.trans hp
  have hl : (V.add l core attributes).core l = some core := by simp [add]
  have hne : l ≠ p := by
    rintro rfl
    cases hnew.symm.trans hp
  refine ⟨l, hnew, hg1.of_core (hg1.append ⟨pcore, hp1, hh⟩ (.inr ⟨core, hl, hi⟩) hu)
    (append_core _ p l), ?_⟩
  exact halloc.bind fun w1 hs1 => does_append hs1.shows hg1.toIsForest.isLinked hp1 hh hl hne

theorem leads_appendNew (h : Shows w V) (hg : V.IsRegular) (hp : V.core p = some pcore)
    (hh : pcore.hasChildren) {core : NodeCore} (hi : core.isInner)
    (ht : ∀ tag, core = .element tag → ∃ t, tag = .text t) (attributes : Entries) :
    Leads env w V (do append (.object p) (.object (← allocNode core attributes))) fun _ V' =>
      ∃ l, V.core l = none ∧ V' = (V.add l core attributes).append p l := by
  obtain ⟨l, hnew, hg', hdoes⟩ := does_appendNew env h hg hp hh hi ht attributes
  exact .of_does hdoes hg' ⟨l, hnew, rfl⟩

/-- What was built outside of the tree can be put in the place of a child. -/
theorem leads_replaceWith_root (hf : V.IsForest) (hc : V.parent c = some p)
    (hp : V.core p = some pcore) (hnew : V.core f = none) (h : Shows w V') (hg : V'.IsRegular)
    (hout : V.KeptOutside c V') (hparent : V'.parent c = some p) (hi : V'.Insertable f) :
    Leads env w V' (replaceWith (.object c) (.object f)) fun _ V'' =>
      V'' = V'.replaceWith c f := by
  obtain ⟨ccore, hcc, _⟩ := hf.inner c p hc
  have hpc : ¬ V.Within c p := fun hw => hf.ne_parent_of_within hc hw rfl
  have hw : ¬ V'.Within f p := hout.not_within_new hf hnew hp hpc
  refine (leads_replaceWith h hg (hout.nodes c ccore hcc) hi fun q hq => ?_).imp fun _ _ h => h.1
  cases hparent.symm.trans hq
  exact ⟨fun he => hw (.inl he.symm), not_under_inserted hg.toIsForest hw⟩

/-- Putting a fragment in the place of a child. -/
theorem leads_putFragment (hf : V.IsForest) (hc : V.parent c = some p)
    (hp : V.core p = some pcore) (hnew : V.core f = none) (h : Shows w V') (hg : V'.IsRegular)
    (hout : V.KeptOutside c V') (hparent : V'.parent c = some p) (hfrag : V'.IsFragment f)
    (hroot : V'.parent f = none) {ts : List NodeTree} (ht : V'.RepresentsAll (V'.children f) ts) :
    Leads env w V' (replaceWith (.object c) (.object f)) fun _ V'' => V.Yields p c ts V'' := by
  refine (leads_replaceWith_root hf hc hp hnew h hg hout hparent (.inl hfrag)).imp ?_
  rintro _ V'' rfl
  exact yields_fragment hf hc hp hnew hg.toIsForest hout hparent hfrag hroot ht

/-- Putting what was built in the place of a child. -/
theorem leads_putBuilt (hf : V.IsForest) (hc : V.parent c = some p) (hp : V.core p = some pcore)
    {ts : List NodeTree} (hb : V.Built f .fragment ts V') (h : Shows w V') (hg : V'.IsRegular) :
    Leads env w V' (replaceWith (.object c) (.object f)) fun _ V'' => V.Yields p c ts V'' := by
  obtain ⟨ccore, hcc, _⟩ := hf.inner c p hc
  exact leads_putFragment hf hc hp hb.fresh h hg (.of_extends hb.extend c)
    ((hb.extend.parent c ccore hcc).trans hc) hb.core hb.root hb.represents

/-- Putting a leaf in the place of a child. -/
theorem leads_putLeaf (hf : V.IsForest) (hc : V.parent c = some p)
    (hp : V.core p = some pcore) (hnew : V.core f = none) (h : Shows w V') (hg : V'.IsRegular)
    (hout : V.KeptOutside c V') (hparent : V'.parent c = some p) {core : NodeCore}
    (hcore : V'.core f = some core) (hi : core.isInner) (hl : core.hasChildren = false)
    (hroot : V'.parent f = none) :
    Leads env w V' (replaceWith (.object c) (.object f)) fun _ V'' =>
      V.Yields p c [.leaf core] V'' := by
  refine (leads_replaceWith_root hf hc hp hnew h hg hout hparent (.inr ⟨core, hcore, hi⟩)).imp ?_
  rintro _ V'' rfl
  exact yields_leaf hf hc hp hnew hg.toIsForest hout hparent hcore hl hroot

end Tree

end PageTemplate
