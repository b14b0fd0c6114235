import PageTemplate.Proofs.Tree.NodeTree

/-!
# PageTemplate.Proofs.Tree.Clone

Copies. Copying a node adds new nodes and leaves the old ones alone. When it succeeds, the copy is a
root that represents the same tree; it may also fail, and then what was added so far is still a
forest.
-/

namespace PageTemplate

namespace View

/-- A forest in which every element has a text for a tag. -/
structure IsRegular (V : View) : Prop extends V.IsForest where
  tags : ∀ id tag, V.core id = some (.element tag) → ∃ t, tag = .text t

/-- Linked nodes, among them no element without a text for a tag. -/
structure IsOrderly (V : View) : Prop extends V.IsLinked where
  tags : ∀ id tag, V.core id = some (.element tag) → ∃ t, tag = .text t

theorem IsRegular.isOrderly {V : View} (h : V.IsRegular) : V.IsOrderly :=
  ⟨h.toIsForest.isLinked, h.tags⟩

theorem isRegular_empty : empty.IsRegular := ⟨isForest_empty, fun _ _ h => by cases h⟩

theorem IsRegular.of_core {V V' : View} (h : V.IsRegular) (hf : V'.IsForest)
    (hc : V'.core = V.core) : V'.IsRegular :=
  ⟨hf, fun id tag he => h.tags id tag (hc ▸ he)⟩

theorem IsOrderly.of_core {V V' : View} (h : V.IsOrderly) (hl : V'.IsLinked)
    (hc : V'.core = V.core) : V'.IsOrderly :=
  ⟨hl, fun id tag he => h.tags id tag (hc ▸ he)⟩

/-- One more node among elements with texts for tags. -/
theorem tags_add {V : View} (h : ∀ id tag, V.core id = some (.element tag) → ∃ t, tag = .text t)
    {core : NodeCore} (ht : ∀ tag, core = .element tag → ∃ t, tag = .text t) {new id : ObjectId}
    {attributes : Entries} {tag : Value}
    (he : (V.add new core attributes).core id = some (.element tag)) : ∃ t, tag = .text t := by
  by_cases hid : id = new
  · simp only [View.add, hid, if_true, Option.some.injEq] at he
    exact ht tag he
  · simp only [View.add, hid, if_false] at he
    exact h id tag he

theorem IsRegular.add {V : View} (h : V.IsRegular) {new : ObjectId} (hnew : V.core new = none)
    {core : NodeCore} (ht : ∀ tag, core = .element tag → ∃ t, tag = .text t)
    (attributes : Entries) : (V.add new core attributes).IsRegular :=
  ⟨h.toIsForest.add hnew core attributes, fun _ _ he => tags_add h.tags ht he⟩

theorem IsOrderly.add {V : View} (h : V.IsOrderly) {new : ObjectId} (hnew : V.core new = none)
    {core : NodeCore} (ht : ∀ tag, core = .element tag → ∃ t, tag = .text t)
    (attributes : Entries) : (V.add new core attributes).IsOrderly :=
  ⟨h.toIsLinked.add hnew core attributes, fun _ _ he => tags_add h.tags ht he⟩

/-- All nodes of a view are as they were. -/
structure Extends (V V' : View) : Prop where
  agree : ∀ x core, V.core x = some core → Agree V V' x
  parent : ∀ x core, V.core x = some core → V'.parent x = V.parent x

theorem Extends.refl (V : View) : V.Extends V := ⟨fun x _ _ => .refl V x, fun _ _ _ => rfl⟩

theorem Extends.trans {V V' V'' : View} (h : V.Extends V') (h' : V'.Extends V'') :
    V.Extends V'' where
  agree x core hx := (h.agree x core hx).trans
    (h'.agree x core ((h.agree x core hx).core.trans hx))
  parent x core hx := (h'.parent x core ((h.agree x core hx).core.trans hx)).trans
    (h.parent x core hx)

theorem extends_add {V : View} {new : ObjectId} (hnew : V.core new = none) (core : NodeCore)
    (attributes : Entries) :
    V.Extends (V.add new core attributes) := by
  have hne : ∀ x c, V.core x = some c → x ≠ new := by
    rintro x c hx rfl
    rw [hnew] at hx
    cases hx
  constructor
  · intro x c hx
    constructor <;> simp [View.add, hne x c hx]
  · intro x c hx
    simp [View.add, hne x c hx]

/-- Links among new nodes are none of what was there before. -/
theorem Extends.insert {V V' : View} (h : V.Extends V') {r : ObjectId} {nodes : List ObjectId}
    (hr : V.core r = none) (hn : ∀ n ∈ nodes, V.core n = none) (ids : List ObjectId) :
    V.Extends (V'.insert r ids nodes) := by
  have hne : ∀ x core, V.core x = some core → x ≠ r ∧ x ∉ nodes := by
    intro x core hx
    constructor
    · rintro rfl
      rw [hr] at hx
      cases hx
    · intro hm
      rw [hn x hm] at hx
      cases hx
  constructor
  · intro x core hx
    refine (h.agree x core hx).trans ⟨rfl, ?_, rfl⟩
    rw [insert_children, if_neg (hne x core hx).1]
  · intro x core hx
    rw [insert_parent, if_neg (hne x core hx).2]
    exact h.parent x core hx

/-- What is new to a view with more nodes is new. -/
theorem Extends.fresh {V V' : View} (h : V.Extends V') {x : ObjectId} (hx : V'.core x = none) :
    V.core x = none := by
  cases hc : V.core x with
  | none => rfl
  | some core =>
    rw [(h.agree x core hc).core, hc] at hx
    cases hx

/-- Whatever lies below a node is a node. -/
theorem Within.core {V : View} (hf : V.IsForest) {id x : ObjectId} (h : V.Within id x)
    {core : NodeCore} (hid : V.core id = some core) : ∃ c, V.core x = some c := by
  rcases h with rfl | ha
  · exact ⟨core, hid⟩
  · obtain ⟨y, hy, _⟩ := Relation.TransGen.head'_iff.1 ha
    obtain ⟨c, hc, _⟩ := hf.inner x y hy
    exact ⟨c, hc⟩

/-- A tree is still there in a view with more nodes. -/
theorem Represents.extend {V V' : View} (hf : V.IsForest) {id : ObjectId} {t : NodeTree}
    (h : V.Represents id t) (he : V.Extends V') : V'.Represents id t := by
  obtain ⟨core, hc, _⟩ := h.core
  refine h.frame hf t fun x hx => ?_
  obtain ⟨c, hx⟩ := hx.core hf hc
  exact he.agree x c hx

end View

/-- What an action leads to, whether it succeeds or fails: a tree step to a view of a certain sort. -/
def Reaches (I : View → Prop) (env : Env) (w : World) (V : View) {α : Type} (action : M α)
    (Q : α → View → Prop) : Prop :=
  ∃ V', TreeStep w V (M.run' env w action).2 V' ∧ I V' ∧
    ∀ a, (M.run' env w action).1 = .ok a → Q a V'

namespace Reaches

variable {I : View → Prop} {env : Env} {w : World} {V V' : View} {α β : Type}

theorem of_does {action : M α} {a : α} {Q : α → View → Prop} (h : Does env w V action a V')
    (hi : I V') (hq : Q a V') : Reaches I env w V action Q := by
  obtain ⟨w', hr, hs⟩ := h
  refine ⟨V', by rw [hr]; exact hs, hi, fun b hb => ?_⟩
  rw [hr] at hb
  cases hb
  exact hq

/-- An action that fails has got somewhere by then. -/
theorem of_fails {w' : World} {action : M α} {e : Fault} {Q : α → View → Prop}
    (hs : TreeStep w V w' V') (hi : I V') (hr : M.run' env w action = (.error e, w')) :
    Reaches I env w V action Q :=
  ⟨V', by rw [hr]; exact hs, hi, fun a ha => by rw [hr] at ha; cases ha⟩

theorem of_error {action : M α} {e : Fault} {Q : α → View → Prop} (h : Shows w V) (hi : I V)
    (hr : M.run' env w action = (.error e, w)) : Reaches I env w V action Q :=
  of_fails (.refl h) hi hr

/-- An action that only asks, and may fail to be answered. -/
theorem of_asks {action : M α} (h : Shows w V) (hi : I V) (hr : (M.run' env w action).2 = w) :
    Reaches I env w V action fun _ V' => V' = V :=
  ⟨V, by rw [hr]; exact .refl h, hi, fun _ _ => rfl⟩

theorem bind {x : M α} {f : α → M β} {P : α → View → Prop} {Q : β → View → Prop}
    (hx : Reaches I env w V x P)
    (hf : ∀ a w' V', TreeStep w V w' V' → I V' → P a V' → Reaches I env w' V' (f a) Q) :
    Reaches I env w V (x >>= f) Q := by
  obtain ⟨V', hs, hi, hp⟩ := hx
  cases hr : M.run' env w x with
  | mk r w' =>
    rw [hr] at hs hp
    cases r with
    | error e =>
      refine ⟨V', ?_, hi, fun b hb => ?_⟩
      · rw [M.run'_bind_error hr]
        exact hs
      · rw [M.run'_bind_error hr] at hb
        cases hb
    | ok a =>
      obtain ⟨V'', hs', hi', hq⟩ := hf a w' V' hs hi (hp a rfl)
      refine ⟨V'', ?_, hi', fun b hb => ?_⟩
      · rw [M.run'_bind_ok hr]
        exact hs.trans hs'
      · rw [M.run'_bind_ok hr] at hb
        exact hq b hb

theorem bind_of_run {x : M α} {f : α → M β} {a : α} {Q : β → View → Prop}
    (hr : M.run' env w x = (.ok a, w)) (hf : Reaches I env w V (f a) Q) :
    Reaches I env w V (x >>= f) Q := by
  rw [Reaches, M.run'_bind_ok hr]
  exact hf

theorem imp {action : M α} {P Q : α → View → Prop} (h : Reaches I env w V action P)
    (hpq : ∀ a V', P a V' → Q a V') : Reaches I env w V action Q := by
  obtain ⟨V', hs, hi, hp⟩ := h
  exact ⟨V', hs, hi, fun a ha => hpq a V' (hp a ha)⟩

/-- Something done with each of some nodes. -/
theorem forM {f : Value → M Unit} {nodes : List ObjectId} (h : Shows w V) (hi : I V)
    (hf : ∀ n ∈ nodes, ∀ w' V', TreeStep w V w' V' → I V' →
      Reaches I env w' V' (f (.object n)) fun _ _ => True) :
    Reaches I env w V ((nodes.map Value.object).forM f) fun _ _ => True := by
  induction nodes generalizing w V with
  | nil => exact of_does (.pure h ()) hi trivial
  | cons n nodes ih =>
    refine bind (hf n List.mem_cons_self w V (.refl h) hi) fun _ w1 V1 hs1 hi1 _ => ?_
    refine ih hs1.shows hi1 fun m hm w' V' hs' hi' => ?_
    exact hf m (List.mem_cons_of_mem n hm) w' V' (hs1.trans hs') hi'

end Reaches

/-- What an action leads to, whether it succeeds or fails: a tree step to a regular forest. -/
def Leads (env : Env) (w : World) (V : View) {α : Type} (action : M α)
    (Q : α → View → Prop) : Prop :=
  ∃ V', TreeStep w V (M.run' env w action).2 V' ∧ V'.IsRegular ∧
    ∀ a, (M.run' env w action).1 = .ok a → Q a V'

namespace Leads

variable {env : Env} {w : World} {V V' : View} {α β : Type}

theorem of_does {action : M α} {a : α} {Q : α → View → Prop} (h : Does env w V action a V')
    (hg : V'.IsRegular) (hq : Q a V') : Leads env w V action Q :=
  Reaches.of_does (I := View.IsRegular) h hg hq

/-- An action that fails has got somewhere by then. -/
theorem of_fails {w' : World} {action : M α} {e : Fault} {Q : α → View → Prop}
    (hs : TreeStep w V w' V') (hg : V'.IsRegular) (hr : M.run' env w action = (.error e, w')) :
    Leads env w V action Q :=
  Reaches.of_fails (I := View.IsRegular) hs hg hr

theorem of_error {action : M α} {e : Fault} {Q : α → View → Prop} (h : Shows w V)
    (hg : V.IsRegular) (hr : M.run' env w action = (.error e, w)) : Leads env w V action Q :=
  of_fails (.refl h) hg hr

theorem bind {x : M α} {f : α → M β} {P : α → View → Prop} {Q : β → View → Prop}
    (hx : Leads env w V x P)
    (hf : ∀ a w' V', TreeStep w V w' V' → V'.IsRegular → P a V' → Leads env w' V' (f a) Q) :
    Leads env w V (x >>= f) Q :=
  Reaches.bind (I := View.IsRegular) hx hf

theorem bind_of_run {x : M α} {f : α → M β} {a : α} {Q : β → View → Prop}
    (hr : M.run' env w x = (.ok a, w)) (hf : Leads env w V (f a) Q) :
    Leads env w V (x >>= f) Q :=
  Reaches.bind_of_run (I := View.IsRegular) hr hf

theorem imp {action : M α} {P Q : α → View → Prop} (h : Leads env w V action P)
    (hi : ∀ a V', P a V' → Q a V') : Leads env w V action Q :=
  Reaches.imp (I := View.IsRegular) h hi

end Leads

mutual

/-- Whether a copy of a tree is the same tree: tags are in lower case, attributes differ in their
names, and texts say whether they are written verbatim. -/
def NodeTree.Copyable : NodeTree → Prop
  | .element tag attributes children =>
    (∃ t, tag = .text t ∧ Text.toLower t = t) ∧ (Entries.ofList attributes).live = attributes ∧
      AllCopyable children
  | .leaf core => ∀ value raw, core = .text value raw → raw ≠ .undefined

def AllCopyable : List NodeTree → Prop
  | [] => True
  | t :: ts => t.Copyable ∧ AllCopyable ts

end

namespace View

/-- What a copy of a node is: a new root that represents what the node does. -/
structure IsCopy (V : View) (v c : ObjectId) (V' : View) : Prop where
  extend : V.Extends V'
  fresh : V.core c = none
  inner : V'.Inner c
  root : V'.parent c = none
  represents : ∀ t, V.Represents v t → t.Copyable → V'.Represents c t

/-- A root put at the end of the children of another root. -/
theorem append_root {V : View} {p c : ObjectId} (hc : V.parent c = none) (hi : V.Inner c) :
    V.append p c = V.insert p (V.children p ++ [c]) [c] := by
  have hfrag : ¬ V.IsFragment c := by
    intro hf
    obtain ⟨core, hcore, hin⟩ := hi
    rw [IsFragment, hcore] at hf
    cases hf
    cases hin
  simp only [append, release, inserted, hfrag, if_false, detach_of_root hc]

/-- What a copy of an element is while the children `done` of the element have been copied. -/
structure IsPartialCopy (V : View) (core : NodeCore) (attributes : Entries) (done : List ObjectId)
    (c : ObjectId) (V' : View) : Prop where
  extend : V.Extends V'
  fresh : V.core c = none
  core : V'.core c = some core
  attributes : V'.attributes c = attributes
  root : V'.parent c = none
  represents : ∀ ts, V.RepresentsAll done ts → AllCopyable ts → V'.RepresentsAll (V'.children c) ts

theorem allCopyable_append {ts us : List NodeTree} :
    AllCopyable (ts ++ us) ↔ AllCopyable ts ∧ AllCopyable us := by
  induction ts with
  | nil => simp [AllCopyable]
  | cons t ts ih => simp [AllCopyable, ih, and_assoc]

/-- Trees are still there in a view with more nodes. -/
theorem RepresentsAll.extend {V V' : View} (hf : V.IsForest) {ids : List ObjectId}
    {ts : List NodeTree} (h : V.RepresentsAll ids ts) (he : V.Extends V') :
    V'.RepresentsAll ids ts := by
  induction ts generalizing ids with
  | nil => exact representsAll_nil.2 (representsAll_nil.1 h)
  | cons t ts ih =>
    obtain ⟨id, rest, rfl, ht, hts⟩ := h
    exact representsAll_cons.2 ⟨ht.extend hf he, ih hts⟩

/-- Adding the copy of the next child to the copy of an element. -/
theorem IsPartialCopy.append {V V' V'' : View} (hf : V.IsForest) {core : NodeCore}
    {attributes : Entries} {done : List ObjectId} {c v d : ObjectId} (hf' : V'.IsForest)
    (hf'' : V''.IsForest) (hh : core.hasChildren)
    (h : V.IsPartialCopy core attributes done c V') (hd : V'.IsCopy v d V'') :
    (V''.append c d).IsForest ∧ V.IsPartialCopy core attributes (done ++ [v]) c (V''.append c d) := by
  have hroot : V''.parent c = none := (hd.extend.parent c core h.core).trans h.root
  have hag := hd.extend.agree c core h.core
  have hcore : V''.core c = some core := hag.core.trans h.core
  have hne : d ≠ c := by
    rintro rfl
    have := hd.fresh
    rw [h.core] at this
    cases this
  have hmem : ∀ p, c ∉ V''.children p := fun p hm => by
    have := (hf''.mem_children p c).1 hm
    rw [hroot] at this
    cases this
  rw [append_root hd.root hd.inner]
  refine ⟨?_, ?_⟩
  · refine hf''.insert ⟨core, hcore, hh⟩ ?_ ?_ (by simp) List.perm_append_comm
      (not_under_root hroot (by simpa using hne.symm))
    · intro n hn
      rw [List.mem_singleton.1 hn]
      exact hd.root
    · intro n hn
      rw [List.mem_singleton.1 hn]
      exact hd.inner
  · refine ⟨(h.extend.trans hd.extend).insert h.fresh ?_ _, h.fresh, hcore,
      hag.attributes.trans h.attributes, ?_, ?_⟩
    · intro n hn
      rw [List.mem_singleton.1 hn]
      exact h.extend.fresh hd.fresh
    · rw [insert_parent, if_neg (by simpa using hne.symm)]
      exact hroot
    · intro ts hts hcopy
      obtain ⟨us, us', rfl, hus, hus'⟩ := hts.split
      obtain ⟨hcu, hcu'⟩ := allCopyable_append.1 hcopy
      rw [insert_children, if_pos rfl]
      refine representsAll_append ?_ ?_
      · have hrep := (h.represents us hus hcu).extend hf' hd.extend
        rw [← hag.children] at hrep
        exact hrep.insert_root hf'' hroot (hmem c)
      · cases us' with
        | nil => cases representsAll_nil.1 hus'
        | cons t us' =>
          obtain ⟨ht, hnil⟩ := representsAll_cons.1 hus'
          have hnil : us' = [] := by
            cases us' with
            | nil => rfl
            | cons u us' =>
              obtain ⟨_, _, he, _⟩ := hnil
              cases he
          subst hnil
          have hrep := hd.represents t (ht.extend hf h.extend) hcu'.1
          refine RepresentsAll.insert_root hf'' (representsAll_cons.2 ⟨hrep, by simp⟩) hroot ?_
          simpa using hne.symm

end View

namespace Tree

open View

variable {env : Env} {w : World} {V : View}

/-- A new node that is a copy. -/
theorem leads_allocNode (h : Shows w V) (hg : V.IsRegular) {v : ObjectId} {core : NodeCore}
    {attributes : Entries} (ht : ∀ tag, core = .element tag → ∃ t, tag = .text t)
    (hin : core.isInner)
    (hr : ∀ new t, V.Represents v t → t.Copyable →
      (V.add new core attributes).Represents new t) :
    Leads env w V (allocNode core attributes) (V.IsCopy v) := by
  have hnew : V.core w.cells.size = none := h.core_size
  refine .of_does (does_allocNode h core attributes) (hg.add hnew ht attributes) ?_
  exact ⟨extends_add hnew core attributes, hnew, ⟨core, by simp [View.add], hin⟩,
    by simp [View.add], hr _⟩

/-- A leaf is copied by a node with the same content. -/
theorem leads_copyLeaf (h : Shows w V) (hg : V.IsRegular) {v : ObjectId} {core copy : NodeCore}
    (hv : V.core v = some core) (hl : core.hasChildren = false)
    (hc : (NodeTree.leaf core).Copyable → copy = core) (hl' : copy.hasChildren = false) :
    Leads env w V (allocNode copy []) (V.IsCopy v) := by
  have hin : copy.isInner := by
    cases copy <;> first | rfl | cases hl'
  refine leads_allocNode h hg ?_ hin fun new t ht htc => ?_
  · rintro tag rfl
    cases hl'
  · cases t with
    | element tag attributes children =>
      cases hv.symm.trans ht.1
      cases hl
    | leaf core' =>
      cases hv.symm.trans ht.1
      rw [hc htc]
      exact ⟨by simp [View.add], hl⟩

/-- An element without children is made from the tag and the attributes of another one. -/
theorem does_cloneElement (h : Shows w V) {v : ObjectId} {t : Text}
    (hv : V.core v = some (.element (.text t))) :
    Does env w V (cloneElement (.object v)) w.cells.size
      (V.add w.cells.size (.element (.text (Text.toLower t))) (.ofList (V.attributes v).live)) := by
  have hrec := h.record v _ hv
  have ha : NodeCore.hasAttributes (.element (.text t)) := rfl
  refine .bind_of_run (a := .text (Text.toLower t)) ?_ ?_
  · rw [lowerTag, M.run'_bind_ok (run'_tag hrec)]
    rfl
  refine .bind_of_run (a := (V.attributes v).live) ?_ ?_
  · rw [ownAttributes, M.run'_bind_ok (run'_get_node hrec (find_attributes ha))]
    simp only [Value.isNullish, Bool.false_eq_true, if_false, attributeEntries]
    rw [M.run'_bind_ok (run'_attributeMap hrec ha),
      M.run'_bind_ok (run'_mapEntries (h.map v _ hv ha))]
    rfl
  exact does_allocNode h _ _

/-- The copy of an element before its children are copied. -/
theorem leads_cloneElement (h : Shows w V) (hg : V.IsRegular) {v : ObjectId} {t : Text}
    (hv : V.core v = some (.element (.text t))) :
    Leads env w V (cloneElement (.object v))
      (V.IsPartialCopy (.element (.text (Text.toLower t))) (.ofList (V.attributes v).live) []) := by
  have hnew : V.core w.cells.size = none := h.core_size
  refine .of_does (does_cloneElement h hv) (hg.add hnew ?_ _) ?_
  · rintro tag htag
    exact ⟨_, (NodeCore.element.inj htag).symm⟩
  · refine ⟨extends_add hnew _ _, hnew, by simp [View.add], by simp [View.add],
      by simp [View.add], fun ts hts _ => ?_⟩
    cases ts with
    | nil => simp [View.add]
    | cons t ts =>
      obtain ⟨_, _, he, _⟩ := hts
      cases he

/-- Adding the copy of a node to the copy of an element. -/
theorem does_appendCopy {w' : World} {V' V'' : View} (hg : V.IsRegular) (hg' : V'.IsRegular)
    (h : Shows w' V'') (hg'' : V''.IsRegular) {tag : Text} {attributes : Entries} {c v d : ObjectId}
    {done : List ObjectId} (hp : V.IsPartialCopy (.element (.text tag)) attributes done c V')
    (hd : V'.IsCopy v d V'') :
    Does env w' V'' (append (.object c) (.object d)) () (V''.append c d) ∧
      (V''.append c d).IsRegular ∧
      V.IsPartialCopy (.element (.text tag)) attributes (done ++ [v]) c (V''.append c d) := by
  obtain ⟨dcore, hdc, _⟩ := hd.inner
  have hc : V''.core c = some (.element (.text tag)) :=
    (hd.extend.agree c _ hp.core).core.trans hp.core
  have hne : d ≠ c := by
    rintro rfl
    have := hd.fresh
    rw [hp.core] at this
    cases this
  obtain ⟨hf, hp'⟩ := hp.append hg.toIsForest hg'.toIsForest hg''.toIsForest rfl hd
  refine ⟨does_append h hg''.toIsForest.isLinked hc rfl hdc hne, hg''.of_core hf ?_, hp'⟩
  rw [append_root hd.root hd.inner]
  rfl

/-- Copying the children of an element, given how one node is copied. -/
theorem leads_cloneChildren {n : Nat} (hg : V.IsRegular)
    (hclone : ∀ {w V v}, Shows w V → V.IsRegular → V.Inner v →
      Leads env w V (cloneWithin n (.object v)) (V.IsCopy v))
    {tag : Text} {attributes : Entries} {c : ObjectId} {done : List ObjectId} :
    ∀ {vs : List ObjectId} {w' : World} {V' : View}, Shows w' V' → V'.IsRegular →
      (∀ v ∈ vs, V.Inner v) → V.IsPartialCopy (.element (.text tag)) attributes done c V' →
      Leads env w' V' ((vs.map Value.object).forM fun child => do
          append (.object c) (.object (← cloneWithin n child)))
        fun _ V'' => V.IsPartialCopy (.element (.text tag)) attributes (done ++ vs) c V'' := by
  intro vs
  induction vs generalizing done with
  | nil =>
    intro w' V' h' hg' _ hp
    rw [List.append_nil]
    exact .of_does (.pure h' ()) hg' hp
  | cons v vs ih =>
    intro w' V' h' hg' hvs hp
    obtain ⟨vcore, hv, hvi⟩ := hvs v List.mem_cons_self
    have hv' : V'.Inner v := ⟨vcore, (hp.extend.agree v vcore hv).core.trans hv, hvi⟩
    refine Leads.bind (P := fun _ V'' => V.IsPartialCopy (.element (.text tag)) attributes
      (done ++ [v]) c V'') ?_ fun _ w2 V2 hs2 hg2 hp2 => ?_
    · refine Leads.bind (hclone h' hg' hv') fun d w1 V1 hs1 hg1 hd => ?_
      obtain ⟨hdoes, hg2, hp2⟩ := does_appendCopy hg hg' hs1.shows hg1 hp hd
      exact .of_does hdoes hg2 hp2
    · have := ih hs2.shows hg2 (fun x hx => hvs x (List.mem_cons_of_mem v hx)) hp2
      rwa [List.append_assoc] at this

/-- Copying a node. -/
theorem leads_cloneWithin (n : Nat) : ∀ {w : World} {V : View} {v : ObjectId}, Shows w V →
    V.IsRegular → V.Inner v → Leads env w V (cloneWithin n (.object v)) (V.IsCopy v) := by
  induction n with
  | zero =>
    intro w V v h hg _
    exact .of_error h hg rfl
  | succ n ih =>
    intro w V v h hg hv
    obtain ⟨core, hcore, hin⟩ := hv
    have hrec := h.record v core hcore
    refine .bind_of_run (run'_kind hrec) ?_
    cases core with
    | element tag =>
      obtain ⟨t, rfl⟩ := hg.tags v tag hcore
      refine Leads.bind (leads_cloneElement h hg hcore) fun c w1 V1 hs1 hg1 hp1 => ?_
      have hv1 := hp1.extend.agree v _ hcore
      have hcore1 : V1.core v = some (.element (.text t)) := hv1.core.trans hcore
      refine .bind_of_run (run'_children hs1.shows hcore1 rfl) ?_
      rw [hv1.children]
      have hch : ∀ x ∈ V.children v, V.Inner x := fun x hx =>
        hg.inner x v ((hg.mem_children v x).1 hx)
      refine Leads.bind (leads_cloneChildren hg ih hs1.shows hg1 hch hp1)
        fun _ w2 V2 hs2 hg2 hp2 => ?_
      refine .of_does (.pure hs2.shows c) hg2 ⟨hp2.extend, hp2.fresh, ⟨_, hp2.core, rfl⟩, hp2.root,
        fun tree htree hcopy => ?_⟩
      cases tree with
      | leaf leaf =>
        cases hcore.symm.trans htree.1
        cases htree.2
      | element tag attributes trees =>
        obtain ⟨hc, ha, hts⟩ := htree
        obtain ⟨⟨t', rfl, hlow⟩, hattrs, htrees⟩ := hcopy
        cases hcore.symm.trans hc
        refine ⟨by rw [hp2.core, hlow], ?_, hp2.represents trees hts htrees⟩
        rw [hp2.attributes, ha, hattrs]
    | text value raw =>
      refine .bind_of_run (run'_nodeValue hrec (.inl ⟨raw, rfl⟩)) ?_
      refine .bind_of_run (run'_rawMark hrec) ?_
      cases raw with
      | undefined =>
        exact leads_copyLeaf h hg hcore rfl (fun hc => absurd rfl (hc value .undefined rfl)) rfl
      | _ => exact leads_copyLeaf h hg hcore rfl (fun _ => rfl) rfl
    | code source =>
      refine .bind_of_run (run'_source hrec) ?_
      exact leads_copyLeaf h hg hcore rfl (fun _ => rfl) rfl
    | comment value =>
      refine .bind_of_run (run'_nodeValue hrec (.inr (.inl rfl))) ?_
      exact leads_copyLeaf h hg hcore rfl (fun _ => rfl) rfl
    | doctype value =>
      refine .bind_of_run (run'_nodeValue hrec (.inr (.inr rfl))) ?_
      exact leads_copyLeaf h hg hcore rfl (fun _ => rfl) rfl
    | fragment => cases hin
    | document => cases hin

/-- Copying a node leaves the other nodes alone. When it succeeds, it yields a copy. -/
theorem leads_clone (h : Shows w V) (hg : V.IsRegular) {v : ObjectId} (hv : V.Inner v) :
    Leads env w V (clone (.object v)) (V.IsCopy v) :=
  .bind_of_run Store.run'_depth (leads_cloneWithin _ h hg hv)

end Tree

end PageTemplate
