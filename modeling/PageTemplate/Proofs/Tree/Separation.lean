import PageTemplate.Proofs.Tree.Attributes
import PageTemplate.Proofs.Tree.Reachable

/-!
# PageTemplate.Proofs.Tree.Separation

What operations on trees keep whatever nodes they are applied to. Also where a node ends up below
itself, or where a call fails halfway, nodes are linked to nodes only.

Changes stay where they are made. Nodes that are linked to each other only are a part of the store
of their own: as long as operations on trees and attributes are applied to nodes of one part, and to
what these operations add to it, no other part changes. This holds of every sequence of operations,
also when some of them fail and when nodes end up below themselves.
-/

namespace PageTemplate

namespace View

variable {V V' : View}

theorem Container.known {p : ObjectId} (h : V.Container p) : V.Known p := by
  obtain ⟨core, hc, _⟩ := h
  exact ⟨core, hc⟩

theorem Known.of_core (hc : V'.core = V.core) {x : ObjectId} (h : V.Known x) : V'.Known x := by
  rwa [Known, hc]

/-- What is in a list in which nodes took the place of one. -/
theorem mem_spliceAt {i : Option Nat} {nodes ids : List ObjectId} {c : ObjectId}
    (h : c ∈ Tree.spliceAt i nodes ids) : c ∈ ids ∨ c ∈ nodes := by
  simp only [Tree.spliceAt, List.mem_append] at h
  rcases h with (h | h) | h
  · exact .inl (List.mem_of_mem_take h)
  · exact .inr h
  · exact .inl (List.mem_of_mem_drop h)

namespace IsLinked

theorem detach (h : V.IsLinked) (c : ObjectId) : (V.detach c).IsLinked := by
  cases hp : V.parent c with
  | none => rwa [detach_of_root hp]
  | some p =>
    rw [detach_of_child hp]
    have hids : V.Known p → ∀ x ∈ (V.children p).erase c, V.Known x :=
      fun hk x hx => h.child p x hk (List.mem_of_mem_erase hx)
    exact (h.setChildren hids).setParent c (by simp)

theorem takeChildren (h : V.IsLinked) (p : ObjectId) : (V.takeChildren p).IsLinked :=
  (h.setChildren (by simp)).setParents _ (by simp)

theorem release (h : V.IsLinked) (v : ObjectId) : (V.release v).IsLinked := by
  simp only [View.release]
  split
  · exact h.takeChildren v
  · exact h.detach v

theorem known_inserted (h : V.IsLinked) {v : ObjectId} (hv : V.Known v) :
    ∀ n ∈ V.inserted v, V.Known n := by
  intro n hn
  simp only [inserted] at hn
  split at hn
  · exact h.child v n hv hn
  · rwa [List.mem_singleton.1 hn]

/-- Nodes of the view put among the children of one of them. -/
theorem insert (h : V.IsLinked) {p : ObjectId} (hp : V.Container p) {ids : List ObjectId}
    (hids : ∀ c ∈ ids, V.Known c) (nodes : List ObjectId) : (V.insert p ids nodes).IsLinked := by
  have hparent : ∀ q, some p = some q → V.Container q := by
    rintro q hq
    cases hq
    exact hp
  exact (h.setParents nodes hparent).setChildren fun _ => hids

/-- The nodes that are there after nodes to be inserted were taken out. -/
theorem known_released (h : V.IsLinked) {p v : ObjectId} (hp : V.Container p) (hv : V.Known v) :
    ∀ c, c ∈ (V.release v).children p ∨ c ∈ V.inserted v → V.Known c := by
  have hcore : (V.release v).core = V.core := Tree.release_core V v
  rintro c (hc | hc)
  · exact ((h.release v).child p c (hp.known.of_core hcore) hc).of_core hcore.symm
  · exact h.known_inserted hv c hc

theorem append (h : V.IsLinked) {p v : ObjectId} (hp : V.Container p) (hv : V.Known v) :
    (V.append p v).IsLinked := by
  have hcore : (V.release v).core = V.core := Tree.release_core V v
  refine (h.release v).insert (hp.of_core hcore) (fun c hc => ?_) _
  exact (h.known_released hp hv c (List.mem_append.1 hc)).of_core hcore

theorem prepend (h : V.IsLinked) {p v : ObjectId} (hp : V.Container p) (hv : V.Known v) :
    (V.prepend p v).IsLinked := by
  have hcore : (V.release v).core = V.core := Tree.release_core V v
  refine (h.release v).insert (hp.of_core hcore) (fun c hc => ?_) _
  exact (h.known_released hp hv c (List.mem_append.1 hc).symm).of_core hcore

theorem stealChildren (h : V.IsLinked) {t s : ObjectId} (ht : V.Container t) (hs : V.Known s) :
    (V.stealChildren t s).IsLinked := by
  refine (h.takeChildren s).insert ht (fun c hc => ?_) _
  rcases List.mem_append.1 hc with hc | hc
  · exact (h.takeChildren s).child t c ht.known hc
  · exact h.child s c hs hc

/-- Nodes put in the place of a node, which goes. -/
theorem substitute (h : V.IsLinked) {p v : ObjectId} (hp : V.Container p) (hv : V.Known v)
    (i : Option Nat) (old : ObjectId) :
    ((((V.release v).setParents (V.inserted v) (some p)).setChildren p
      (Tree.spliceAt i (V.inserted v) ((V.release v).children p))).setParent old
        none).IsLinked := by
  have hcore : (V.release v).core = V.core := Tree.release_core V v
  have hl : ((V.release v).insert p (Tree.spliceAt i (V.inserted v) ((V.release v).children p))
      (V.inserted v)).IsLinked := by
    refine (h.release v).insert (hp.of_core hcore) (fun c hc => ?_) _
    exact (h.known_released hp hv c (mem_spliceAt hc)).of_core hcore
  exact hl.setParent old (by simp)

end IsLinked

end View

/-- What an action leads to, whether it succeeds or fails: a tree step to an orderly view. -/
abbrev Arrives := Reaches View.IsOrderly

/-- A node stays a node of the same kind and content. -/
theorem TreeStep.core_keep {w w' : World} {V V' : View} (hs : TreeStep w V w' V') (h : Shows w V)
    {x : ObjectId} {core : NodeCore} (hx : V.core x = some core) : V'.core x = some core :=
  (hs.core x (h.lt hx)).trans hx

theorem TreeStep.known_keep {w w' : World} {V V' : View} (hs : TreeStep w V w' V')
    (h : Shows w V) {x : ObjectId} (hx : V.Known x) : V'.Known x := by
  obtain ⟨core, hc⟩ := hx
  exact ⟨core, hs.core_keep h hc⟩

namespace Tree

open View

variable {env : Env} {w : World} {V : View}

/-- An operation after which there are the same nodes. -/
theorem arrives_of_does {α : Type} {action : M α} {a : α} {V' : View} (ho : V.IsOrderly)
    (h : Does env w V action a V') (hl : V'.IsLinked) (hc : V'.core = V.core) :
    Arrives env w V action fun _ _ => True :=
  .of_does h (ho.of_core hl hc) trivial

theorem arrives_append (h : Shows w V) (ho : V.IsOrderly) {p v : ObjectId} (hp : V.Container p)
    (hv : V.Known v) :
    Arrives env w V (append (.object p) (.object v)) fun _ _ => True := by
  by_cases hne : v = p
  · rw [hne]
    exact .of_error h ho (run'_append_self p)
  · have hl := ho.toIsLinked.append hp hv
    obtain ⟨pcore, hpc, hh⟩ := hp
    obtain ⟨vcore, hvc⟩ := hv
    exact arrives_of_does ho (does_append h ho.toIsLinked hpc hh hvc hne) hl (append_core V p v)

theorem arrives_prepend (h : Shows w V) (ho : V.IsOrderly) {p v : ObjectId} (hp : V.Container p)
    (hv : V.Known v) :
    Arrives env w V (prepend (.object p) (.object v)) fun _ _ => True := by
  have hl := ho.toIsLinked.prepend hp hv
  obtain ⟨pcore, hpc, hh⟩ := hp
  obtain ⟨vcore, hvc⟩ := hv
  exact arrives_of_does ho (does_prepend h ho.toIsLinked hpc hh hvc) hl (prepend_core V p v)

theorem arrives_replaceWith (h : Shows w V) (ho : V.IsOrderly) {old r : ObjectId}
    (hold : V.Known old) (hr : V.Known r) :
    Arrives env w V (replaceWith (.object old) (.object r)) fun _ _ => True := by
  obtain ⟨ocore, hoc⟩ := hold
  cases hpar : V.parent old with
  | none =>
    obtain ⟨_, hfail⟩ : ∃ words, M.run' env w (replaceWith _ _) = (.error (.detached words), w) :=
      run'_replaceWith_detached h ho hoc hpar (.object r)
    exact .of_error h ho hfail
  | some p =>
    by_cases hne : r = old
    · have hrecord := h.record old ocore hoc
      rw [hpar] at hrecord
      rw [hne]
      exact .of_does ⟨w, run'_replaceWith_self hrecord, .refl h⟩ ho trivial
    · have hp := ho.container old p ⟨ocore, hoc⟩ hpar
      have hl := ho.toIsLinked.substitute hp hr (((V.release r).children p).idxOf? old) old
      obtain ⟨rcore, hrc⟩ := hr
      exact arrives_of_does ho (does_replaceWith_of_parent h ho.toIsLinked hoc hrc hne hpar) hl
        (release_core V r)

theorem arrives_remove (h : Shows w V) (ho : V.IsOrderly) {v : ObjectId} (hv : V.Known v) :
    Arrives env w V (remove (.object v)) fun _ _ => True := by
  obtain ⟨core, hc⟩ := hv
  exact arrives_of_does ho (does_remove h ho.toIsLinked hc) (ho.toIsLinked.detach v)
    (detach_core V v)

theorem arrives_stealChildren (h : Shows w V) (ho : V.IsOrderly) {t s : ObjectId}
    (ht : V.Container t) (hs : V.Container s) :
    Arrives env w V (stealChildren (.object t) (.object s)) fun _ _ => True := by
  have hl := ho.toIsLinked.stealChildren ht hs.known
  obtain ⟨tcore, htc, hth⟩ := ht
  obtain ⟨score, hsc, hsh⟩ := hs
  exact arrives_of_does ho (does_stealChildren h ho.toIsLinked htc hth hsc hsh) hl rfl

theorem arrives_removeChildren (h : Shows w V) (ho : V.IsOrderly) {p : ObjectId}
    (hp : V.Container p) : Arrives env w V (removeChildren (.object p)) fun _ _ => True := by
  obtain ⟨core, hpc, hh⟩ := hp
  exact arrives_of_does ho (does_removeChildren h ho.toIsLinked hpc hh)
    (ho.toIsLinked.takeChildren p) rfl

/-- Stripping an element, which leaves it empty also where there is nothing to replace. -/
theorem arrives_stripOut (h : Shows w V) (ho : V.IsOrderly) {e : ObjectId} {tag : Value}
    (he : V.core e = some (.element tag)) :
    Arrives env w V (stripOut (.object e)) fun _ _ => True := by
  obtain ⟨f, w1, hnew, hs1, hrun⟩ := run'_stripOut env h ho.toIsLinked he
  have ho1 : (V.add f .fragment []).IsOrderly := ho.add hnew (by simp) []
  have hf : (V.add f .fragment []).Container f := ⟨.fragment, by simp [add], rfl⟩
  have hne : e ≠ f := by
    rintro rfl
    rw [hnew] at he
    cases he
  have hknown : (V.add f .fragment []).Known e := ⟨_, by simpa [add, hne] using he⟩
  have ho2 : ((V.add f .fragment []).stealChildren f e).IsOrderly :=
    ho1.of_core (ho1.toIsLinked.stealChildren hf hknown) rfl
  obtain ⟨V', hs2, ho', hq⟩ : Arrives env w1 _ (replaceWith (.object e) (.object f)) _ :=
    arrives_replaceWith hs1.shows ho2 hknown hf.known
  exact ⟨V', by rw [hrun]; exact hs1.trans hs2, ho', by rw [hrun]; exact hq⟩

/-! New nodes. -/

theorem arrives_allocNode (h : Shows w V) (ho : V.IsOrderly) {core : NodeCore}
    (ht : ∀ tag, core = .element tag → ∃ t, tag = .text t) (attributes : Entries) :
    Arrives env w V (allocNode core attributes) fun id V' => V'.core id = some core :=
  .of_does (does_allocNode h core attributes) (ho.add h.core_size ht attributes) (by simp [add])

/-- A new fragment or document around nodes. -/
theorem arrives_createAround (h : Shows w V) (ho : V.IsOrderly) {core : NodeCore}
    (ht : ∀ tag, core = .element tag → ∃ t, tag = .text t) (hh : core.hasChildren)
    {nodes : List ObjectId} (hn : ∀ n ∈ nodes, V.Known n) :
    Arrives env w V (do
        let id ← plantWithin core []
        (nodes.map Value.object).forM (append (.object id))
        return id) fun _ _ => True := by
  have hplant : Arrives env w V (plantWithin core []) fun id V' => V'.core id = some core :=
    .of_does (does_plantWithin_nil h hh) (ho.add h.core_size ht []) (by simp [add])
  refine Reaches.bind hplant fun id w1 V1 hs1 ho1 hid => ?_
  refine Reaches.bind (P := fun _ _ => True) (.forM hs1.shows ho1 fun n hm w' V' hs' ho' => ?_)
    fun _ w2 V2 hs2 ho2 _ => .of_does (.pure hs2.shows id) ho2 trivial
  exact arrives_append hs'.shows ho' ⟨core, hs'.core_keep hs1.shows hid, hh⟩
    (hs'.known_keep hs1.shows (hs1.known_keep h (hn n hm)))

/-- Copying a node. Where nodes go round in a circle, this fails, after any number of copies. -/
theorem arrives_cloneWithin (n : Nat) : ∀ {w : World} {V : View} {v : ObjectId}, Shows w V →
    V.IsOrderly → V.Known v →
    Arrives env w V (cloneWithin n (.object v)) fun c V' => V'.Known c := by
  induction n with
  | zero =>
    intro w V v h ho _
    exact .of_error h ho rfl
  | succ n ih =>
    intro w V v h ho hv
    obtain ⟨core, hcore⟩ := hv
    have hrec := h.record v core hcore
    have hleaf : ∀ leaf : NodeCore, leaf.hasChildren = false →
        Arrives env w V (allocNode leaf []) fun c V' => V'.Known c := by
      intro leaf hleaf
      refine (arrives_allocNode h ho ?_ []).imp fun _ _ hc => ⟨_, hc⟩
      rintro tag rfl
      cases hleaf
    refine .bind_of_run (run'_kind hrec) ?_
    cases core with
    | element tag =>
      obtain ⟨t, rfl⟩ := ho.tags v tag hcore
      have hnew : V.core w.cells.size = none := h.core_size
      have helement : Arrives env w V (cloneElement (.object v)) fun c V' =>
          V'.core c = some (.element (.text (Text.toLower t))) :=
        .of_does (does_cloneElement h hcore) (ho.add hnew (by simp) _) (by simp [add])
      refine Reaches.bind helement fun c w1 V1 hs1 ho1 hc => ?_
      have hcore1 := hs1.core_keep h hcore
      refine .bind_of_run (run'_children hs1.shows hcore1 rfl) ?_
      have hloop : Arrives env w1 V1 (((V1.children v).map Value.object).forM fun child => do
          append (.object c) (.object (← cloneWithin n child))) fun _ _ => True := by
        refine .forM hs1.shows ho1 fun x hx w' V' hs' ho' => ?_
        have hx' : V'.Known x := hs'.known_keep hs1.shows (ho1.child v x ⟨_, hcore1⟩ hx)
        refine Reaches.bind (ih hs'.shows ho' hx') fun d w2 V2 hs2 ho2 hd => ?_
        have hc2 := hs2.core_keep hs'.shows (hs'.core_keep hs1.shows hc)
        exact arrives_append hs2.shows ho2 ⟨_, hc2, rfl⟩ hd
      exact Reaches.bind hloop fun _ w2 V2 hs2 ho2 _ =>
        .of_does (.pure hs2.shows c) ho2 (hs2.known_keep hs1.shows ⟨_, hc⟩)
    | text value raw =>
      refine .bind_of_run (run'_nodeValue hrec (.inl ⟨raw, rfl⟩)) ?_
      refine .bind_of_run (run'_rawMark hrec) ?_
      cases raw <;> exact hleaf _ rfl
    | code source => exact .bind_of_run (run'_source hrec) (hleaf _ rfl)
    | comment value =>
      exact .bind_of_run (run'_nodeValue hrec (.inr (.inl rfl))) (hleaf _ rfl)
    | doctype value =>
      exact .bind_of_run (run'_nodeValue hrec (.inr (.inr rfl))) (hleaf _ rfl)
    | fragment | document => exact .of_error h ho rfl

/-- Replacing all children by a text. -/
theorem arrives_setTextContent (h : Shows w V) (ho : V.IsOrderly) {e : ObjectId}
    (he : V.Container e) (value : Value) :
    Arrives env w V (setTextContent (.object e) value) fun _ _ => True := by
  refine Reaches.bind (arrives_removeChildren h ho he) fun _ w1 V1 hs1 ho1 _ => ?_
  refine Reaches.bind (arrives_allocNode hs1.shows ho1 (by simp) []) fun t w2 V2 hs2 ho2 ht => ?_
  obtain ⟨core, hc, hh⟩ := he
  have hc2 := hs2.core_keep hs1.shows (hs1.core_keep h hc)
  exact arrives_append hs2.shows ho2 ⟨core, hc2, hh⟩ ⟨_, ht⟩

/-! Attributes. -/

/-- Other attributes for an element. -/
theorem arrives_setEntries (h : Shows w V) (ho : V.IsOrderly) {e : ObjectId} {tag : Value}
    (he : V.core e = some (.element tag)) (entries : Entries) :
    Arrives env w V (Store.setCell (attributesOf e) (.map entries)) fun _ _ => True :=
  arrives_of_does ho ⟨_, Store.run'_setCell _ _, .setAttributes h he rfl entries⟩
    ⟨ho.child, ho.container⟩ rfl

theorem arrives_setAttribute (h : Shows w V) (ho : V.IsOrderly) {e : ObjectId} {tag : Value}
    (he : V.core e = some (.element tag)) (name value : Value) :
    Arrives env w V (setAttribute (.object e) name value) fun _ _ => True := by
  refine .bind_of_run (run'_attributeMap (h.record e _ he) rfl) ?_
  exact .bind_of_run (run'_mapEntries (h.map e _ he rfl)) (arrives_setEntries h ho he _)

theorem arrives_removeAttribute (h : Shows w V) (ho : V.IsOrderly) {e : ObjectId} {tag : Value}
    (he : V.core e = some (.element tag)) (name : Value) :
    Arrives env w V (removeAttribute (.object e) name) fun _ _ => True := by
  refine .bind_of_run (run'_attributeMap (h.record e _ he) rfl) ?_
  exact .bind_of_run (run'_mapEntries (h.map e _ he rfl)) (arrives_setEntries h ho he _)

/-- Adding classes, which fails where the classes so far are no text. -/
theorem arrives_addClass (h : Shows w V) (ho : V.IsOrderly) {e : ObjectId} {tag : Value}
    (he : V.core e = some (.element tag)) (classes : Text) :
    Arrives env w V (addClass (.object e) (.text classes)) fun _ _ => True := by
  have hlist : (M.run' env w (classList (.object e))).2 = w := by
    rw [classList, M.run'_bind_ok (run'_getAttribute h he _)]
    cases Value.ofOption ((V.attributes e).find? (.text "class")) <;> rfl
  refine Reaches.bind (.of_asks h ho hlist) fun current w1 V1 hs1 ho1 _ => ?_
  refine .bind_of_run rfl ?_
  exact arrives_setAttribute hs1.shows ho1 (hs1.core_keep h he) _ _

end Tree

/-! Parts of a store. -/

/-- Changes to trees and to the attributes of elements. -/
inductive TreeEdit where
  | tree (operation : Operation)
  | setAttribute (e : ObjectId) (name value : Text)
  | removeAttribute (e : ObjectId) (name : Text)
  | addClass (e : ObjectId) (classes : Text)

def TreeEdit.run : TreeEdit → M Unit
  | .tree operation => operation.run
  | .setAttribute e name value => Tree.setAttribute (.object e) (.text name) (.text value)
  | .removeAttribute e name => Tree.removeAttribute (.object e) (.text name)
  | .addClass e classes => Tree.addClass (.object e) (.text classes)

section

variable (env : Env) (ours : ObjectId → Prop) (w : World)

/-- Whether an operation is applied to some nodes only, all of them of the kinds that it is declared
for. -/
def Operation.Suits : Operation → Prop
  | .createElement .. | .createText .. | .createCode _ | .createComment _ | .createDoctype _ => True
  | .createFragment nodes | .createDocument nodes => ∀ n ∈ nodes, ours n ∧ IsInnerNode env 0 w n
  | .append p v | .prepend p v =>
    (ours p ∧ IsContainerNode env 0 w p) ∧ ours v ∧ ∃ k, IsNode env 0 w k v ∧ k ≠ .document
  | .replaceWith old v =>
    (ours old ∧ IsInnerNode env 0 w old) ∧ ours v ∧ ∃ k, IsNode env 0 w k v ∧ k ≠ .document
  | .stealChildren target source =>
    (ours target ∧ IsContainerNode env 0 w target) ∧ ours source ∧ IsContainerNode env 0 w source
  | .stripOut e | .setTextContent e _ => ours e ∧ IsNode env 0 w .element e
  | .removeChildren p => ours p ∧ IsContainerNode env 0 w p
  | .remove v | .clone v => ours v ∧ IsInnerNode env 0 w v

def TreeEdit.Suits : TreeEdit → Prop
  | .tree operation => operation.Suits env ours w
  | .setAttribute e .. | .removeAttribute e _ | .addClass e _ => ours e ∧ IsNode env 0 w .element e

end

/-- The stores that changes lead to, one after another, whether or not they fail. They are applied
to certain nodes that there are at the start, and to nodes that were added since. -/
inductive Edited (env : Env) (mine : ObjectId → Prop) (start : World) : World → Prop where
  | refl : Edited env mine start start
  | step {w : World} (edit : TreeEdit) (h : Edited env mine start w)
      (suits : edit.Suits env (fun x => mine x ∨ start.cells.size ≤ x) w) :
      Edited env mine start (M.run' env w edit.run).2

/-- What passes for a node is one, if it was one at the start or was added since. -/
theorem TreeStep.node {env : Env} {start w : World} {V V' : View} (hs : TreeStep start V w V')
    (h : Shows start V) {x : ObjectId} (hx : V.Known x ∨ start.cells.size ≤ x) {k : NodeKind}
    (hk : IsNode env 0 w k x) : ∃ core, V'.core x = some core ∧ core.kind = k := by
  refine hs.shows.node_of_place ?_ hk
  rcases hx with ⟨core, hc⟩ | hx
  · exact ⟨x, core, hs.core_keep h hc, .inl rfl⟩
  · refine hs.fresh x hx (Nat.lt_of_not_le fun hle => ?_)
    rw [IsNode, Tree.run'_kind_missing hle] at hk
    cases hk.2

section

variable {env : Env} {ours : ObjectId → Prop} {w : World} {V : View}

/-- An operation that is applied to nodes of a view only takes orderly nodes to orderly nodes. -/
theorem Operation.arrives_run (h : Shows w V) (ho : V.IsOrderly)
    (hours : ∀ {x k}, ours x → IsNode env 0 w k x → ∃ core, V.core x = some core ∧ core.kind = k)
    {operation : Operation} (suits : operation.Suits env ours w) :
    Arrives env w V operation.run fun _ _ => True := by
  have hknown : ∀ {x k}, ours x → IsNode env 0 w k x → V.Known x := by
    intro x k hx hk
    obtain ⟨core, hc, _⟩ := hours hx hk
    exact ⟨core, hc⟩
  have hinner : ∀ {x}, ours x ∧ IsInnerNode env 0 w x → V.Known x := by
    rintro x ⟨hx, k, hk, _⟩
    exact hknown hx hk
  have hcontainer : ∀ {x}, ours x → IsContainerNode env 0 w x → V.Container x := by
    rintro x hx ⟨k, hk, hh⟩
    obtain ⟨core, hc, rfl⟩ := hours hx hk
    exact ⟨core, hc, core.isContainer_kind.symm.trans hh⟩
  have hdone : ∀ {α : Type} {Q : α → View → Prop} {action : M α}, Arrives env w V action Q →
      Arrives env w V (discard action) fun _ _ => True := fun ha =>
    Reaches.bind ha fun _ _ _ hs' ho' _ => .of_does (.pure hs'.shows ()) ho' trivial
  cases operation with
  | createElement tag attributes => exact hdone (Tree.arrives_allocNode h ho (by simp) _)
  | createText value raw => exact hdone (Tree.arrives_allocNode h ho (by simp) _)
  | createCode source => exact hdone (Tree.arrives_allocNode h ho (by simp) _)
  | createComment value => exact hdone (Tree.arrives_allocNode h ho (by simp) _)
  | createDoctype value => exact hdone (Tree.arrives_allocNode h ho (by simp) _)
  | createFragment nodes =>
    exact hdone (Tree.arrives_createAround h ho (by simp) rfl fun n hn => hinner (suits n hn))
  | createDocument nodes =>
    exact hdone (Tree.arrives_createAround h ho (by simp) rfl fun n hn => hinner (suits n hn))
  | append p v =>
    obtain ⟨⟨hp, hpc⟩, hv, k, hk, _⟩ := suits
    exact Tree.arrives_append h ho (hcontainer hp hpc) (hknown hv hk)
  | prepend p v =>
    obtain ⟨⟨hp, hpc⟩, hv, k, hk, _⟩ := suits
    exact Tree.arrives_prepend h ho (hcontainer hp hpc) (hknown hv hk)
  | replaceWith old v =>
    obtain ⟨hold, hv, k, hk, _⟩ := suits
    exact Tree.arrives_replaceWith h ho (hinner hold) (hknown hv hk)
  | remove v => exact Tree.arrives_remove h ho (hinner suits)
  | stealChildren target source =>
    obtain ⟨⟨ht, htc⟩, hsource, hsc⟩ := suits
    exact Tree.arrives_stealChildren h ho (hcontainer ht htc) (hcontainer hsource hsc)
  | stripOut e =>
    obtain ⟨core, hc, hk⟩ := hours suits.1 suits.2
    cases core with
    | element tag => exact Tree.arrives_stripOut h ho hc
    | _ => cases hk
  | removeChildren p => exact Tree.arrives_removeChildren h ho (hcontainer suits.1 suits.2)
  | clone v =>
    exact hdone (.bind_of_run Store.run'_depth (Tree.arrives_cloneWithin _ h ho (hinner suits)))
  | setTextContent e value =>
    exact Tree.arrives_setTextContent h ho (hcontainer suits.1 ⟨_, suits.2, rfl⟩) _

theorem TreeEdit.arrives_run (h : Shows w V) (ho : V.IsOrderly)
    (hours : ∀ {x k}, ours x → IsNode env 0 w k x → ∃ core, V.core x = some core ∧ core.kind = k)
    {edit : TreeEdit} (suits : edit.Suits env ours w) :
    Arrives env w V edit.run fun _ _ => True := by
  have helement : ∀ {e}, ours e ∧ IsNode env 0 w .element e →
      ∃ tag, V.core e = some (.element tag) := by
    rintro e ⟨he, hk⟩
    obtain ⟨core, hc, hk⟩ := hours he hk
    cases core with
    | element tag => exact ⟨tag, hc⟩
    | _ => cases hk
  cases edit with
  | tree operation => exact operation.arrives_run h ho hours suits
  | setAttribute e name value =>
    obtain ⟨tag, he⟩ := helement suits
    exact Tree.arrives_setAttribute h ho he _ _
  | removeAttribute e name =>
    obtain ⟨tag, he⟩ := helement suits
    exact Tree.arrives_removeAttribute h ho he _
  | addClass e classes =>
    obtain ⟨tag, he⟩ := helement suits
    exact Tree.arrives_addClass h ho he classes

end

/-- What changes lead to is a tree step, however many they are. -/
theorem Edited.treeStep {env : Env} {mine : ObjectId → Prop} {start w : World} {V : View}
    (he : Edited env mine start w) (h : Shows start V) (ho : V.IsOrderly)
    (hmine : ∀ x, mine x → V.Known x) : ∃ V', TreeStep start V w V' ∧ V'.IsOrderly := by
  induction he with
  | refl => exact ⟨V, .refl h, ho⟩
  | step edit _ suits ih =>
    obtain ⟨V', hs, ho'⟩ := ih
    obtain ⟨V'', hs', ho'', _⟩ := TreeEdit.arrives_run hs.shows ho'
      (fun hx hk => hs.node h (hx.imp_left (hmine _)) hk) suits
    exact ⟨V'', hs.trans hs', ho''⟩

namespace View

/-- The part of a view that certain nodes are. -/
def only (V : View) (part : ObjectId → Prop) [DecidablePred part] : View where
  core id := if part id then V.core id else none
  parent id := if part id then V.parent id else none
  children id := if part id then V.children id else []
  attributes := V.attributes

variable {V : View} {part : ObjectId → Prop} [DecidablePred part]

theorem core_of_only {id : ObjectId} {core : NodeCore} (h : (V.only part).core id = some core) :
    part id ∧ V.core id = some core := by
  simp only [only] at h
  split at h
  · rename_i hp
    exact ⟨hp, h⟩
  · cases h

theorem parent_of_only {c p : ObjectId} (h : (V.only part).parent c = some p) :
    part c ∧ V.parent c = some p := by
  simp only [only] at h
  split at h
  · rename_i hc
    exact ⟨hc, h⟩
  · cases h

theorem agree_only {x : ObjectId} (hx : part x) : Agree V (V.only part) x :=
  ⟨by simp [only, hx], by simp [only, hx], rfl⟩

/-- The places of a part are places of nodes in it. -/
theorem place_of_only {id : ObjectId} (h : (V.only part).Place id) :
    V.Place id ∧ ∃ n, part n ∧ n ≤ id := by
  obtain ⟨n, core, hc, hid⟩ := h
  obtain ⟨hn, hc⟩ := core_of_only hc
  refine ⟨⟨n, core, hc, hid⟩, n, hn, ?_⟩
  rcases hid with rfl | ⟨_, rfl⟩ | ⟨_, rfl⟩
  · exact Nat.le_refl _
  · exact Nat.le_add_right _ _
  · exact Nat.le_add_right _ _

theorem within_of_only {c x : ObjectId} (h : (V.only part).Within c x) : V.Within c x :=
  h.imp_right (above_of_parent fun _ _ hc => (parent_of_only hc).2)

/-- Trees that lie in a part are there when it is looked at alone. -/
theorem Represents.only (hf : V.IsForest) {c : ObjectId} {t : NodeTree} (h : V.Represents c t)
    (hc : ∀ x, V.Within c x → part x) : (V.only part).Represents c t :=
  h.frame hf t fun x hx => agree_only (hc x hx)

/-- Nodes that are linked to each other only are a forest of their own. -/
theorem IsForest.only (h : V.IsForest) (hpart : ∀ c p, V.parent c = some p → (part c ↔ part p)) :
    (V.only part).IsForest where
  mem_children p c := by
    by_cases hp : part p
    · have hiff : c ∈ (V.only part).children p ↔ V.parent c = some p := by
        rw [(agree_only hp).children, h.mem_children]
      rw [hiff]
      constructor
      · intro hc
        simpa [View.only, (hpart c p hc).2 hp] using hc
      · exact fun hc => (parent_of_only hc).2
    · simp only [View.only, hp, if_false, List.not_mem_nil, false_iff]
      intro hc
      obtain ⟨hcp, hc⟩ := parent_of_only hc
      exact hp ((hpart c p hc).1 hcp)
  inner c p hc := by
    obtain ⟨hcp, hc⟩ := parent_of_only hc
    obtain ⟨core, hcore, hi⟩ := h.inner c p hc
    exact ⟨core, (agree_only hcp).core.trans hcore, hi⟩
  container c p hc := by
    obtain ⟨hcp, hc⟩ := parent_of_only hc
    obtain ⟨core, hcore, hh⟩ := h.container c p hc
    exact ⟨core, (agree_only ((hpart c p hc).1 hcp)).core.trans hcore, hh⟩
  nodup p := by
    simp only [View.only]
    split
    · exact h.nodup p
    · exact List.nodup_nil
  ranked := by
    obtain ⟨rank, hr⟩ := h.ranked
    exact ⟨rank, fun c p hc => hr c p (parent_of_only hc).2⟩

theorem IsRegular.only (h : V.IsRegular) (hpart : ∀ c p, V.parent c = some p → (part c ↔ part p)) :
    (V.only part).IsRegular :=
  ⟨h.toIsForest.only hpart, fun id tag he => h.tags id tag (core_of_only he).2⟩

end View

/-- The store holds every part of what it holds. -/
theorem Shows.only {w : World} {V : View} (h : Shows w V) (part : ObjectId → Prop)
    [DecidablePred part] : Shows w (V.only part) where
  record id core hc := by
    obtain ⟨hp, hc⟩ := View.core_of_only hc
    have hparent : (V.only part).parent id = V.parent id := by simp [View.only, hp]
    rw [hparent]
    exact h.record id core hc
  list id core hc hh := by
    obtain ⟨hp, hc⟩ := View.core_of_only hc
    rw [(View.agree_only hp).children]
    exact h.list id core hc hh
  map id core hc hh := h.map id core (View.core_of_only hc).2 hh

/-- **Changes to a part of the nodes stay in it**: whatever takes up no place of that part is what
it was. -/
theorem Edited.frame {env : Env} {mine : ObjectId → Prop} {start w : World} {V : View}
    (he : Edited env mine start w) (h : Shows start V) (hg : V.IsRegular)
    {part : ObjectId → Prop} [DecidablePred part]
    (hpart : ∀ c p, V.parent c = some p → (part c ↔ part p))
    (hmine : ∀ x, mine x → part x ∧ V.Known x) {id : ObjectId} (hlt : id < start.cells.size)
    (hid : ¬ (V.only part).Place id) : w.cells[id]? = start.cells[id]? := by
  have hknown : ∀ x, mine x → (V.only part).Known x := by
    intro x hx
    obtain ⟨hp, core, hc⟩ := hmine x hx
    exact ⟨core, (View.agree_only hp).core.trans hc⟩
  obtain ⟨V', hs, _⟩ := he.treeStep (h.only part) (hg.only hpart).isOrderly hknown
  exact hs.frame id hlt hid

end PageTemplate
