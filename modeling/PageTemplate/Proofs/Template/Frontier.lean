import PageTemplate.Proofs.Template.Source
import PageTemplate.Proofs.Tree.Growth

/-!
# PageTemplate.Proofs.Template.Frontier

Where an expansion stands: what is still to be visited, and that all of it belongs to some objects
which nothing but the expansion changes. Visiting an element means reading its parts, rewriting its
attributes and going on with its children. Some steps move nodes by way of a new fragment, which
becomes one more holder; what waits stands as it did.
-/

namespace PageTemplate

namespace Frontier

variable {F : Frontier} {kept : ObjectId → Prop} {env : Env} {w : World} {n : Nat}

/-- The frontier with fragments among the holders. -/
def holdAll (F : Frontier) (fragments : List ObjectId) : Frontier :=
  { F with holders := fragments.map (·, .fragment) ++ F.holders }

/-- Whether a store is as a frontier says, with some more fragments behind a place. -/
def StandsFrom (F : Frontier) (n : Nat) (w : World) : Prop :=
  ∃ fragments, (∀ f ∈ fragments, n ≤ f) ∧ (F.holdAll fragments).Stands w

theorem Stands.from (h : F.Stands w) : F.StandsFrom n w := ⟨[], by simp, h⟩

theorem Within.holdAll (h : F.Within kept) {fragments : List ObjectId}
    (hf : ∀ f ∈ fragments, kept f) : (F.holdAll fragments).Within kept where
  plots := h.plots
  records z hz := by
    rcases List.mem_append.1 hz with hz | hz
    · obtain ⟨f, hm, rfl⟩ := List.mem_map.1 hz
      exact hf f hm
    · exact h.records z hz
  maps := h.maps

theorem ensures_createFragment :
    Ensures env (fun w => F.Stands w ∧ n ≤ w.cells.size) (Tree.create (.fragment []))
      fun id w => (F.holdAll [id]).Stands w ∧ n ≤ id := by
  intro w hw id w' hr
  obtain ⟨w1, hrun, hs⟩ := Tree.run'_createFragment env w
  rw [hrun] at hr
  cases hr
  exact ⟨hw.1.addSprout hs rfl, hw.2⟩

section Steps

variable (henv : env.Spares kept) (hF : F.Within kept) (hn : ∀ id, n ≤ id → kept id)

include henv hF

theorem ensures_addRemark {id : ObjectId} (hz : (id, NodeCore.fragment) ∈ F.holders) (t : Text) :
    Ensures env F.Stands (Expander.addRemark (.object id) t) fun _ => F.Stands := by
  unfold Expander.addRemark
  refine Ensures.bind (Q := fun _ => F.Stands) ?_ fun comment => ensures_append henv hF hz _
  exact ensures_of_respects henv hF fun S _ => Tree.respects_allocNode _ _

include hn

theorem ensures_stripOut {id : ObjectId} {core : NodeCore} (hz : (id, core) ∈ F.holders) :
    Ensures env (fun w => F.Stands w ∧ n ≤ w.cells.size) (Tree.stripOut (.object id))
      fun _ => F.StandsFrom n := by
  unfold Tree.stripOut Tree.createFragment
  rw [bind_assoc]
  refine ensures_createFragment.bind fun fragment => .pre fun hle => ?_
  have hheld : (F.holdAll [fragment]).Within kept :=
    hF.holdAll (List.forall_mem_singleton.2 (hn fragment hle))
  have hnew : (fragment, NodeCore.fragment) ∈ (F.holdAll [fragment]).holders := List.mem_cons_self
  have hplaced : ∀ w, (F.holdAll [fragment]).Stands w → (F.holdAll [fragment]).Places id w :=
    fun w hw => hw.places_holder (List.mem_cons_of_mem _ hz)
  refine .bind_run (a := fragment) (fun _ _ => rfl) ?_
  refine (ensures_stealChildren henv hheld hnew _).bind fun _ => ?_
  exact (ensures_replaceWith henv hheld hplaced _).imp fun _ w hw =>
    ⟨[fragment], List.forall_mem_singleton.2 hle, hw⟩

theorem ensures_fragmentOf (before behind : List Text) (source : Value) :
    Ensures env (fun w => F.Stands w ∧ n ≤ w.cells.size)
      (Expander.fragmentOf before behind source) fun _ => F.StandsFrom n := by
  unfold Expander.fragmentOf
  refine ensures_createFragment.bind fun fragment => .pre fun hle => ?_
  have hheld : (F.holdAll [fragment]).Within kept :=
    hF.holdAll (List.forall_mem_singleton.2 (hn fragment hle))
  have hz : (fragment, NodeCore.fragment) ∈ (F.holdAll [fragment]).holders := List.mem_cons_self
  refine (Ensures.forM fun t _ => ensures_addRemark henv hheld hz t).bind fun _ => ?_
  refine (ensures_stealChildren henv hheld hz source).bind fun _ => ?_
  refine (Ensures.forM fun t _ => ensures_addRemark henv hheld hz t).bind fun _ => ?_
  exact .pure fun w hw => ⟨[fragment], List.forall_mem_singleton.2 hle, hw⟩

theorem ensures_partialFragment (x : Expander) (file : Text) (root : Value) :
    Ensures env (fun w => F.Stands w ∧ n ≤ w.cells.size) (x.partialFragment file root)
      fun _ => F.StandsFrom n :=
  .ite (fun _ => ensures_fragmentOf henv hF hn _ _ root)
    fun _ => ensures_fragmentOf henv hF hn _ _ root

end Steps

end Frontier

/-- An element of markup with the places that it takes up. -/
structure Element where
  tag : Text
  attributes : Markup.Attributes
  children : List Markup.Node
  id : Nat
  stop : Nat
  deriving Inhabited

namespace Element

def node (e : Element) : Markup.Node := .element e.tag e.attributes e.children

def plot (e : Element) : Plot := ⟨e.node, e.id, e.stop⟩

/-- The element with other attributes. -/
def rewrite (e : Element) (attributes : Markup.Attributes) : Element :=
  { e with attributes := attributes }

variable {e : Element} {l : Links} {w : World} {env : Env}

/-- The record and the attributes of an element. -/
theorem cells (h : e.plot.Stands w l) :
    (∃ q, w.cells[e.id]? = some (Tree.nodeCell e.id (.element (.text e.tag)) q)) ∧
      w.cells[Tree.attributesOf e.id]? = some (.map (Tree.entriesOfTexts e.attributes)) := by
  cases h with
  | element _ record _ map => exact ⟨⟨_, record⟩, map⟩
  | leaf tree => cases tree

end Element

namespace Frontier

variable {F : Frontier} {kept : ObjectId → Prop} {env : Env} {w w' : World} {n : Nat}

/-- The frontier with some plots before the others. -/
def plus (F : Frontier) (ps : List Plot) : Frontier := { F with waiting := ps ++ F.waiting }

/-- The frontier with one more holder. -/
def hold (F : Frontier) (z : ObjectId × NodeCore) : Frontier := { F with holders := z :: F.holders }

/-- The frontier during the visit of an element. -/
def visit (F : Frontier) (e : Element) : Frontier :=
  ⟨F.waiting, (e.id, .element (.text e.tag)) :: F.holders,
    (Tree.attributesOf e.id, Tree.entriesOfTexts e.attributes) :: F.pinned⟩

/-- Whether a store is as a frontier says, with some more holders, and all of it belongs to some
objects. -/
def Ready (kept : ObjectId → Prop) (F : Frontier) (w : World) : Prop :=
  ∃ zs, F.holders ⊆ zs ∧ Within ⟨F.waiting, zs, F.pinned⟩ kept ∧ Stands ⟨F.waiting, zs, F.pinned⟩ w

namespace Ready

variable {e : Element} {cs : List Plot}

theorem of_stands (h : F.Stands w) (hF : F.Within kept) : F.Ready kept w :=
  ⟨F.holders, List.Subset.refl _, hF, h⟩

theorem keep (h : F.Ready kept w) (hk : w.Keeps kept w') : F.Ready kept w' := by
  obtain ⟨zs, hzs, hin, hs⟩ := h
  exact ⟨zs, hzs, hin, hs.keep hin hk⟩

theorem mono (h : F.Ready kept w) {more : ObjectId → Prop} (hm : ∀ id, kept id → more id) :
    F.Ready more w := by
  obtain ⟨zs, hzs, hin, hs⟩ := h
  exact ⟨zs, hzs, hin.mono hm, hs⟩

/-- Less that waits, fewer holders that are needed, fewer attributes that are kept. -/
theorem drop {F' : Frontier} (h : F.Ready kept w) (hp : F'.waiting.Sublist F.waiting)
    (hz : F'.holders ⊆ F.holders) (hm : F'.pinned.Sublist F.pinned) : F'.Ready kept w := by
  obtain ⟨zs, hzs, hin, hs⟩ := h
  exact ⟨zs, List.Subset.trans hz hzs, hin.weaken hp hm, hs.weaken hp hm⟩

theorem last {p : Plot} (h : (F.plus [p]).Ready kept w) : F.Ready kept w :=
  h.drop (List.sublist_cons_self p _) (List.Subset.refl _) (.refl _)

theorem head {p : Plot} (h : (F.plus (p :: cs)).Ready kept w) : ∃ l, p.Stands w l := by
  obtain ⟨zs, -, -, hs⟩ := h
  exact ⟨_, hs.plots p List.mem_cons_self⟩

theorem addRow (h : F.Ready kept w) (hr : Row w cs w')
    (hk : ∀ id, w.cells.size ≤ id → id < w'.cells.size → kept id) :
    (F.plus cs).Ready kept w' := by
  obtain ⟨zs, hzs, hin, hs⟩ := h
  refine ⟨zs, hzs, ⟨?_, hin.records, hin.maps⟩, hs.addRow hr⟩
  refine List.forall_mem_append.2 ⟨fun c hc id hid => ?_, hin.plots⟩
  exact hk id (Nat.le_trans (hr.places c hc).1 hid.1)
    (Nat.lt_of_lt_of_le hid.2 (hr.places c hc).2)

theorem addSprout {core : NodeCore} {attributes : Entries} (h : F.Ready kept w)
    (hs : Sprout w core attributes cs w') (hc : core.hasChildren)
    (hk : ∀ id, w.cells.size ≤ id → id < w'.cells.size → kept id) :
    ((F.hold (w.cells.size, core)).plus cs).Ready kept w' := by
  obtain ⟨zs, hzs, hin, hst⟩ := h
  refine ⟨(w.cells.size, core) :: zs, List.cons_subset_cons _ hzs, ⟨?_, ?_, hin.maps⟩,
    hst.addSprout hs hc⟩
  · refine List.forall_mem_append.2 ⟨fun c hm id hid => ?_, hin.plots⟩
    exact hk id (Nat.le_trans (Nat.le_trans (Nat.le_add_right _ _) (hs.places c hm).1) hid.1)
      (Nat.lt_of_lt_of_le hid.2 (hs.places c hm).2)
  · exact List.forall_mem_cons.2
      ⟨hk _ (Nat.le_refl _) (World.lt_of_getElem? hs.record), hin.records⟩

/-- A step after which a frontier stands, with fragments that are new. -/
theorem of_standsFrom {zs : List (ObjectId × NodeCore)} (hzs : F.holders ⊆ zs)
    (hin : Within ⟨F.waiting, zs, F.pinned⟩ kept)
    (h : StandsFrom ⟨F.waiting, zs, F.pinned⟩ n w)
    (hk : ∀ id, n ≤ id → (∃ parent, w.cells[id]? = some (Tree.nodeCell id .fragment parent)) →
      kept id) : F.Ready kept w := by
  obtain ⟨fragments, hn, hs⟩ := h
  refine ⟨_, List.Subset.trans hzs (List.subset_append_right _ _), hin.holdAll fun f hf => ?_, hs⟩
  have hm : (f, NodeCore.fragment) ∈
      fragments.map (fun f => (f, NodeCore.fragment)) ++ zs :=
    List.mem_append_left zs (List.mem_map_of_mem hf)
  obtain ⟨q, hr, -⟩ := hs.records _ hm
  exact hk f (hn f hf) ⟨q, hr⟩

/-- Going on with the children of an element. -/
theorem enter (h : (F.plus [e.plot]).Ready kept w) :
    ∃ cs, (∀ env, M.run' env w (Tree.children (.object e.id)) =
        (.ok (cs.map fun p => .object p.id), w)) ∧
      (cs.map (·.node)).Sublist e.children ∧ ((F.visit e).plus cs).Ready kept w := by
  obtain ⟨zs, hzs, hin, hs⟩ := h
  obtain ⟨l, hl⟩ := (⟨_, hs.plots e.plot List.mem_cons_self⟩ : ∃ l, e.plot.Stands w l)
  obtain ⟨⟨q, hrecord⟩, -⟩ := Element.cells hl
  obtain ⟨cs, extra, hlist, hnodes, hplaces, hst⟩ := hs.enter
  refine ⟨cs, fun env => Tree.run'_childPlots hrecord rfl hlist, hnodes, _,
    List.cons_subset_cons _ hzs, hin.enter ?_ hplaces _, hst⟩
  cases hl with
  | element _ _ _ _ bound => exact bound
  | leaf tree => cases tree

/-- Rewriting the attributes of an element. -/
theorem rewrite (h : (F.plus [e.plot]).Ready kept w) (attributes : Markup.Attributes) :
    (F.plus [(e.rewrite attributes).plot]).Ready kept
      (w.setCell (Tree.attributesOf e.id) (.map (Tree.entriesOfTexts attributes))) := by
  obtain ⟨zs, hzs, hin, hs⟩ := h
  refine ⟨zs, hzs, ⟨?_, hin.records, hin.maps⟩, hs.rewrite attributes⟩
  exact List.forall_mem_cons.2 ⟨hin.plots e.plot List.mem_cons_self,
    fun p hp => hin.plots p (List.mem_cons_of_mem _ hp)⟩

/-- The record and the attributes of an element that is visited. -/
theorem visited (h : (F.visit e).Ready kept w) :
    (∃ q, w.cells[e.id]? = some (Tree.nodeCell e.id (.element (.text e.tag)) q)) ∧
      w.cells[Tree.attributesOf e.id]? = some (.map (Tree.entriesOfTexts e.attributes)) := by
  obtain ⟨zs, hzs, -, hs⟩ := h
  obtain ⟨q, hr, -⟩ := hs.records _ (hzs List.mem_cons_self)
  exact ⟨⟨q, hr⟩, hs.maps _ List.mem_cons_self⟩

/-- After the visit of an element anything may come in the place of its attributes. -/
theorem unpin (h : (F.visit e).Ready kept w) (c : Cell) :
    F.Ready kept (w.setCell (Tree.attributesOf e.id) c) := by
  obtain ⟨zs, hzs, hin, hs⟩ := h
  have hready : Ready kept ⟨F.waiting, zs, F.pinned⟩ (w.setCell (Tree.attributesOf e.id) c) :=
    of_stands (hs.unpin c) (hin.weaken (.refl _) (List.sublist_cons_self _ _))
  exact hready.drop (.refl _) (fun z hz => hzs (List.mem_cons_of_mem _ hz)) (.refl _)

end Ready

/-- Whether an action leaves standing what waits, apart from fragments that it makes, as long as the
functions that it calls spare the objects of the templates and what is new. -/
def Moves (F : Frontier) {α : Type} (action : M α) : Prop :=
  ∀ (env : Env) (spared : ObjectId → Prop) (n : Nat) (zs : List (ObjectId × NodeCore)),
    env.Spares spared → F.holders ⊆ zs → Within ⟨F.waiting, zs, F.pinned⟩ spared →
    (∀ id, n ≤ id → spared id) →
    Ensures env (fun w => Stands ⟨F.waiting, zs, F.pinned⟩ w ∧ n ≤ w.cells.size) action
      fun _ => StandsFrom ⟨F.waiting, zs, F.pinned⟩ n

namespace Moves

variable {α : Type} {action : M α}

theorem of_ensures (h : ∀ (env : Env) (spared : ObjectId → Prop) (zs : List (ObjectId × NodeCore)),
      env.Spares spared → F.holders ⊆ zs → Within ⟨F.waiting, zs, F.pinned⟩ spared →
      Ensures env (Stands ⟨F.waiting, zs, F.pinned⟩) action
        fun _ => Stands ⟨F.waiting, zs, F.pinned⟩) : F.Moves action :=
  fun env spared _ zs henv hzs hin _ =>
    ((h env spared zs henv hzs hin).of_imp fun _ hw => hw.1).imp fun _ _ hs => hs.from

theorem of_respects (h : ∀ env S [KeptByReads env S], Respects env S action) : F.Moves action :=
  .of_ensures fun env _ _ henv _ hin => ensures_of_respects henv hin (h env)

/-- An action that leaves the objects alone. -/
theorem of_cells (h : ∀ env w, (M.run' env w action).2.cells = w.cells) : F.Moves action := by
  refine .of_ensures fun env spared zs henv _ hin w hw a w' hr => hw.keep hin (.of_cells ?_)
  have := h env w
  rwa [hr] at this

theorem remove (v : Value) : F.Moves (Tree.remove v) :=
  .of_ensures fun _ _ _ henv _ hin => ensures_remove henv hin v

theorem removeChildren (v : Value) : F.Moves (Tree.removeChildren v) :=
  .of_ensures fun _ _ _ henv _ hin => ensures_removeChildren henv hin v

theorem replaceWith {p : Plot} {ps : List Plot} (v : Value) :
    (F.plus (p :: ps)).Moves (Tree.replaceWith (.object p.id) v) :=
  .of_ensures fun _ _ _ henv _ hin =>
    ensures_replaceWith henv hin (fun _ hw => hw.places_waiting List.mem_cons_self) v

variable {id : ObjectId} {core : NodeCore}

theorem append (hz : (id, core) ∈ F.holders) (v : Value) : F.Moves (Tree.append (.object id) v) :=
  .of_ensures fun _ _ _ henv hzs hin => ensures_append henv hin (hzs hz) v

theorem stealChildren (hz : (id, core) ∈ F.holders) (source : Value) :
    F.Moves (Tree.stealChildren (.object id) source) :=
  .of_ensures fun _ _ _ henv hzs hin => ensures_stealChildren henv hin (hzs hz) source

theorem stripOut (hz : (id, core) ∈ F.holders) : F.Moves (Tree.stripOut (.object id)) :=
  fun _ _ _ _ henv hzs hin hn => ensures_stripOut henv hin hn (hzs hz)

theorem fragmentOf (before behind : List Text) (source : Value) :
    F.Moves (Expander.fragmentOf before behind source) :=
  fun _ _ _ _ henv _ hin hn => ensures_fragmentOf henv hin hn before behind source

theorem partialFragment (x : Expander) (file : Text) (root : Value) :
    F.Moves (x.partialFragment file root) :=
  fun _ _ _ _ henv _ hin hn => ensures_partialFragment henv hin hn x file root

end Moves

end Frontier

end PageTemplate
