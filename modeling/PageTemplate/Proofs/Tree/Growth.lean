import PageTemplate.Proofs.Template.Source
import PageTemplate.Proofs.Tree.Fade
import PageTemplate.Proofs.Tree.Plant
import PageTemplate.Tree.Read

/-!
# PageTemplate.Proofs.Tree.Growth

Markup that comes into the store. Planting markup and copying a plot put new plots behind all
objects that there are and leave the old objects alone. Neither calls a function.

Copies of plots. When a plot can be copied, the copy is a plot of the same markup, however much was
taken out of the plot that is copied.
-/

namespace PageTemplate

/-- Whether a store has all objects of another one, as they were. -/
abbrev World.Grows (w w' : World) : Prop := w.Keeps (fun _ => True) w'

theorem Plot.Stands.keep {kept : ObjectId → Prop} {l : Links} {w w' : World} {p : Plot}
    (h : p.Stands w l) (hk : w.Keeps kept w') (hc : ∀ id, p.Covers id → kept id) :
    p.Stands w' l := by
  have hf : Fades kept (fun _ => False) l w w' := .of_kept hk.cells hk.size
  exact h.fades (fun _ hq => hq) hf fun id hid => ⟨hc id hid, fun hg => hg⟩

/-- The kind of a piece of markup. -/
def Markup.Node.kind : Markup.Node → NodeKind
  | .element .. => .element
  | .text .. => .text
  | .code _ => .code
  | .comment _ => .comment
  | .doctype _ => .doctype

/-- The node of a plot is none that only carries others. -/
theorem Plot.Stands.inner {l : Links} {w : World} {p : Plot} (h : p.Stands w l) :
    ∃ core q, w.cells[p.id]? = some (Tree.nodeCell p.id core q) ∧ l q ∧ core.isInner ∧
      core.kind = p.node.kind := by
  cases h with
  | element link record => exact ⟨_, _, record, link, rfl, rfl⟩
  | @leaf _ node core _ _ _ tree link record _ =>
    refine ⟨core, _, record, link, ?_⟩
    cases node with
    | element => cases tree
    | _ =>
      cases tree
      exact ⟨rfl, rfl⟩

/-- No parent. -/
def Links.none : Links := fun q => q = Option.none

/-- New plots side by side, without parents, behind the objects that there were. -/
structure Row (w : World) (ps : List Plot) (w' : World) : Prop where
  kept : w.Grows w'
  places : ∀ p ∈ ps, w.cells.size ≤ p.id ∧ p.stop ≤ w'.cells.size
  apart : ps.Pairwise Plot.Apart
  stands : ∀ p ∈ ps, p.Stands w' .none

/-- A new node without a parent, the plots that have been put under it so far, and nothing else. -/
structure Sprout (w : World) (core : NodeCore) (attributes : Entries) (ps : List Plot)
    (w' : World) : Prop where
  kept : w.Grows w'
  record : w'.cells[w.cells.size]? = some (Tree.nodeCell w.cells.size core .none)
  list : core.hasChildren →
    w'.cells[Tree.childrenOf w.cells.size]? = some (Tree.listCell (ps.map (·.id)))
  map : core.hasAttributes → w'.cells[Tree.attributesOf w.cells.size]? = some (.map attributes)
  places : ∀ p ∈ ps,
    w.cells.size + (Tree.nodeCells core attributes w.cells.size).length ≤ p.id ∧
      p.stop ≤ w'.cells.size
  size : w.cells.size + (Tree.nodeCells core attributes w.cells.size).length ≤ w'.cells.size
  apart : ps.Pairwise Plot.Apart
  below : ∀ p ∈ ps, p.Stands w' (Links.none.under w.cells.size)

namespace Row

variable {w w' w'' : World} {ps qs : List Plot} {p : Plot}

theorem nil (w : World) : Row w [] w where
  kept := .refl w
  places := by simp
  apart := .nil
  stands := by simp

theorem append (h : Row w ps w') (h' : Row w' qs w'') : Row w (ps ++ qs) w'' where
  kept := h.kept.trans h'.kept
  places p hp := by
    rcases List.mem_append.1 hp with hp | hp
    · exact ⟨(h.places p hp).1, Nat.le_trans (h.places p hp).2 h'.kept.size⟩
    · exact ⟨Nat.le_trans h.kept.size (h'.places p hp).1, (h'.places p hp).2⟩
  apart := List.pairwise_append.2 ⟨h.apart, h'.apart, fun p hp q hq =>
    .inl (Nat.le_trans (h.places p hp).2 (h'.places q hq).1)⟩
  stands p hp := by
    rcases List.mem_append.1 hp with hp | hp
    · exact (h.stands p hp).keep h'.kept fun _ _ => trivial
    · exact h'.stands p hp

end Row

namespace Sprout

open PageTemplate.Tree

variable {env : Env} {w w' w'' : World} {core : NodeCore} {attributes : Entries} {ps qs : List Plot}

theorem alloc (core : NodeCore) (attributes : Entries) (w : World) :
    Sprout w core attributes [] (w.allocAll (nodeCells core attributes w.cells.size)) where
  kept := .allocAll _
  record := by simpa [nodeCells] using w.allocAll_new (nodeCells core attributes w.cells.size) 0
  list hc := by
    simpa [nodeCells, hc, childrenOf] using w.allocAll_new (nodeCells core attributes w.cells.size) 1
  map ha := by
    have hc : core.hasChildren = true := by cases core <;> first | rfl | cases ha
    simpa [nodeCells, hc, ha, attributesOf] using
      w.allocAll_new (nodeCells core attributes w.cells.size) 2
  places := by simp
  size := by simp
  apart := .nil
  below := by simp

/-- A leaf is a plot of its own. -/
theorem leaf {n : Markup.Node} (h : Sprout w core [] [] w') (hn : n.tree = .leaf core) :
    Row w [⟨n, w.cells.size, w'.cells.size⟩] w' where
  kept := h.kept
  places := by simp
  apart := List.pairwise_singleton _ _
  stands := by
    simp only [List.mem_singleton, forall_eq]
    exact .leaf hn rfl h.record (World.lt_of_getElem? h.record)

/-- An element is a plot together with everything that was put under it. -/
theorem element {tag : Text} {attributes : Markup.Attributes} {children : List Markup.Node}
    (h : Sprout w (.element (.text tag)) (entriesOfTexts attributes) ps w')
    (hn : (ps.map (·.node)).Sublist children) :
    Row w [⟨.element tag attributes children, w.cells.size, w'.cells.size⟩] w' where
  kept := h.kept
  places := by simp
  apart := List.pairwise_singleton _ _
  stands := by
    simp only [List.mem_singleton, forall_eq]
    have hlist : w'.cells[childrenOf w.cells.size]? =
        some (.array (ps.map fun p => some (.object p.id)) []) := by
      have hl := h.list rfl
      rw [listCell, List.map_map] at hl
      exact hl
    exact .element rfl h.record hlist (h.map rfl) h.size hn h.places h.apart h.below

/-- Setting the parents of nodes changes nothing else. -/
theorem run'_setParents (env : Env) (id : ObjectId) (w : World) (qs : List Plot)
    (h : ∀ q ∈ qs, ∃ core p, w.cells[q.id]? = some (nodeCell q.id core p)) :
    ∃ w', M.run' env w (setParents (some id) (qs.map fun q => .object q.id)) = (.ok (), w') ∧
      Fades (fun _ => True) (fun _ => False) (fun p => p = some id) w w' ∧
      w'.cells.size = w.cells.size ∧ ∀ x, (∀ q ∈ qs, x ≠ q.id) → w'.cells[x]? = w.cells[x]? := by
  induction qs generalizing w with
  | nil => exact ⟨w, rfl, .of_kept (fun _ _ _ => rfl) (Nat.le_refl _), rfl, fun _ _ => rfl⟩
  | cons q qs ih =>
    obtain ⟨core, p, hrecord⟩ := h q List.mem_cons_self
    have hfades : Fades (fun _ => True) (fun _ => False) (fun p => p = some id) w
        (w.setCell q.id (nodeCell q.id core (some id))) := fades_setParent hrecord rfl
    obtain ⟨w', hrun, hmore, hsize, hsame⟩ := ih _ fun r hr => by
      obtain ⟨rcore, rp, hr⟩ := h r (List.mem_cons_of_mem q hr)
      obtain ⟨rp', hr', -⟩ := hfades.record r.id rcore rp trivial hr
      exact ⟨rcore, rp', hr'⟩
    refine ⟨w', ?_, hfades.trans hmore, by rw [hsize, World.size_setCell], fun x hx => ?_⟩
    · rw [List.map_cons, setParents, M.run'_bind_ok (run'_setParent hrecord (some id)), hrun]
    · rw [hsame x fun r hr => hx r (List.mem_cons_of_mem q hr),
        World.setCell_other _ (hx q List.mem_cons_self)]

/-- Plots without parents come under the new node. -/
theorem put (env : Env) (h : Sprout w core attributes ps w') (hc : core.hasChildren) (hq : Row w' qs w'') :
    ∃ w3, M.run' env w'' (setParents (some w.cells.size) (qs.map fun q => .object q.id)) =
        (.ok (), w3) ∧
      w3.cells[w.cells.size]? = some (nodeCell w.cells.size core none) ∧
      w3.cells[childrenOf w.cells.size]? = some (listCell (ps.map (·.id))) ∧
      Sprout w core attributes (ps ++ qs)
        (w3.setCell (childrenOf w.cells.size) (listCell ((ps ++ qs).map (·.id)))) := by
  obtain ⟨w3, hrun, hfades, hsize, hsame⟩ := run'_setParents env w.cells.size w'' qs fun q hm => by
    obtain ⟨core, p, hr, -⟩ := (hq.stands q hm).record
    exact ⟨core, p, hr⟩
  -- Everything before the new plots is as it was.
  have hold : ∀ x, x < w'.cells.size → w3.cells[x]? = w'.cells[x]? := fun x hx => by
    rw [hsame x fun q hm he => ?_, hq.kept.cells x trivial hx]
    exact absurd (Nat.lt_of_lt_of_le hx (hq.places q hm).1) (he ▸ Nat.lt_irrefl x)
  have hlength : 2 ≤ (nodeCells core attributes w.cells.size).length := by
    simp [nodeCells, hc]
  have hplace : childrenOf w.cells.size < w'.cells.size := by
    have := h.size
    show w.cells.size + 1 < w'.cells.size
    omega
  have hrecord := (hold _ (World.lt_of_getElem? h.record)).trans h.record
  have hlist := (hold _ hplace).trans (h.list hc)
  have hne : ∀ x : Nat, x ≤ w.cells.size ∨ x = w.cells.size + 2 →
      x ≠ childrenOf w.cells.size := by
    intro x hx he
    simp only [childrenOf] at he
    omega
  -- Plots that stood under the new node, or may be put there, do so in the end.
  have hlast : ∀ {p : Plot},
      w.cells.size + (nodeCells core attributes w.cells.size).length ≤ p.id →
      p.Stands w'' (Links.none.under w.cells.size) →
      p.Stands (w3.setCell (childrenOf w.cells.size) (listCell ((ps ++ qs).map (·.id))))
        (Links.none.under w.cells.size) := by
    intro p hp hs
    have hs3 := hs.fades (fun _ h => h) (hfades.mono fun _ h => .inl h)
      fun _ _ => ⟨trivial, fun hg => hg⟩
    have hset : Fades (· ≠ childrenOf w.cells.size) (fun _ => False)
        (Links.none.under w.cells.size) w3
        (w3.setCell (childrenOf w.cells.size) (listCell ((ps ++ qs).map (·.id)))) :=
      Frontier.fades_setMap _
    refine hs3.fades (fun _ h => h) hset fun x hx => ⟨?_, fun hg => hg⟩
    rintro rfl
    have := hx.1
    simp only [childrenOf] at this
    omega
  refine ⟨w3, hrun, hrecord, hlist, ?_, ?_, ?_, ?_, ?_, ?_, ?_, ?_⟩
  · refine ⟨?_, fun x _ hx => ?_⟩
    · rw [World.size_setCell, hsize]
      exact Nat.le_trans h.kept.size hq.kept.size
    · rw [World.setCell_other _ (hne x (.inl (Nat.le_of_lt hx))), hold x (Nat.lt_of_lt_of_le hx h.kept.size),
        h.kept.cells x trivial hx]
  · rw [World.setCell_other _ (hne _ (.inl (Nat.le_refl _)))]
    exact hrecord
  · exact fun _ => World.setCell_self _ (World.lt_of_getElem? hlist)
  · intro ha
    rw [World.setCell_other _ (hne (attributesOf w.cells.size) (.inr rfl)),
      hold _ (World.lt_of_getElem? (h.map ha)), h.map ha]
  · intro p hp
    rw [World.size_setCell, hsize]
    rcases List.mem_append.1 hp with hp | hp
    · exact ⟨(h.places p hp).1, Nat.le_trans (h.places p hp).2 hq.kept.size⟩
    · exact ⟨Nat.le_trans h.size (hq.places p hp).1, (hq.places p hp).2⟩
  · rw [World.size_setCell, hsize]
    exact Nat.le_trans h.size hq.kept.size
  · exact List.pairwise_append.2 ⟨h.apart, hq.apart, fun p hp q hm =>
      .inl (Nat.le_trans (h.places p hp).2 (hq.places q hm).1)⟩
  · intro p hp
    rcases List.mem_append.1 hp with hp | hp
    · exact hlast (h.places p hp).1 ((h.below p hp).keep hq.kept fun _ _ => trivial)
    · exact hlast (Nat.le_trans h.size (hq.places p hp).1)
        ((hq.stands p hp).mono fun _ h => .inr h)

end Sprout

namespace Tree

variable {env : Env} {w w' : World} {core : NodeCore}

theorem run'_allocNode (core : NodeCore) (attributes : Entries) :
    M.run' env w (allocNode core attributes) =
      (.ok w.cells.size, w.allocAll (nodeCells core attributes w.cells.size)) := rfl

/-- A new node with new plots under it. -/
theorem sprout_fill (core : NodeCore) (attributes : Entries) (hc : core.hasChildren) {nodes : M (List ObjectId)}
    {ns : List Markup.Node}
    (h : ∀ w, ∃ w' ps, M.run' env w nodes = (.ok (ps.map (·.id)), w') ∧ ps.map (·.node) = ns ∧
      Row w ps w') (w : World) :
    ∃ w' ps, M.run' env w (do
        let id ← allocNode core attributes
        fill id (← nodes)
        return id) = (.ok w.cells.size, w') ∧ ps.map (·.node) = ns ∧
      Sprout w core attributes ps w' := by
  obtain ⟨w', ps, hrun, hns, hrow⟩ := h (w.allocAll (nodeCells core attributes w.cells.size))
  obtain ⟨w3, hset, -, -, hs⟩ := (Sprout.alloc core attributes w).put env hc hrow
  refine ⟨_, ps, ?_, hns, hs⟩
  rw [M.run'_bind_ok (run'_allocNode core attributes), M.run'_bind_ok hrun, fill, List.map_map]
  rw [M.run'_bind_ok (M.run'_bind_ok hset)]
  rfl

mutual

theorem run'_plant (n : Markup.Node) (w : World) :
    ∃ w', M.run' env w (plant n) = (.ok w.cells.size, w') ∧
      Row w [⟨n, w.cells.size, w'.cells.size⟩] w' := by
  match n with
  | .element tag attributes children =>
    obtain ⟨w', ps, hrun, rfl, hs⟩ := sprout_fill (.element (.text tag))
      (entriesOfTexts attributes) rfl (run'_plantAll children) w
    exact ⟨w', by rw [plant, hrun], hs.element (.refl _)⟩
  | .text value raw => exact ⟨_, rfl, (Sprout.alloc _ [] w).leaf rfl⟩
  | .code source => exact ⟨_, rfl, (Sprout.alloc _ [] w).leaf rfl⟩
  | .comment value => exact ⟨_, rfl, (Sprout.alloc _ [] w).leaf rfl⟩
  | .doctype value => exact ⟨_, rfl, (Sprout.alloc _ [] w).leaf rfl⟩

theorem run'_plantAll (ns : List Markup.Node) (w : World) :
    ∃ w' ps, M.run' env w (plantAll ns) = (.ok (ps.map (·.id)), w') ∧ ps.map (·.node) = ns ∧
      Row w ps w' := by
  match ns with
  | [] => exact ⟨w, [], rfl, rfl, .nil w⟩
  | n :: ns =>
    obtain ⟨w1, hn, hrow⟩ := run'_plant n w
    obtain ⟨w2, ps, hns, rfl, hrows⟩ := run'_plantAll ns w1
    refine ⟨w2, ⟨n, w.cells.size, w1.cells.size⟩ :: ps, ?_, rfl, hrow.append hrows⟩
    rw [plantAll, M.run'_bind_ok hn, M.run'_bind_ok hns]
    rfl

end

/-- A new fragment or document around new plots. -/
theorem run'_plantWithin (env : Env) (core : NodeCore) (hc : core.hasChildren) (ns : List Markup.Node) (w : World) :
    ∃ w' ps, M.run' env w (plantWithin core ns) = (.ok w.cells.size, w') ∧ ps.map (·.node) = ns ∧
      Sprout w core [] ps w' :=
  sprout_fill core [] hc (run'_plantAll ns) w

theorem run'_createFragment (env : Env) (w : World) :
    ∃ w', M.run' env w (create (.fragment [])) = (.ok w.cells.size, w') ∧
      Sprout w .fragment [] [] w' := by
  obtain ⟨w', ps, hrun, hns, hs⟩ := run'_plantWithin env .fragment rfl [] w
  rw [List.map_eq_nil_iff.1 hns] at hs
  exact ⟨w', hrun, hs⟩

/-- The outermost element of a new document is the first of its plots that is an element. -/
theorem run'_firstPlot (env : Env) {ps : List Plot} (h : Sprout w .document [] ps w') :
    M.run' env w' (documentElement? (.object w.cells.size)) =
      (.ok ((ps.find? (·.node.kind == .element)).map fun p => .object p.id), w') := by
  have hfilter : M.run' env w' (((ps.map (·.id)).map Value.object).filterM isElement) =
      (.ok ((ps.filter (·.node.kind == .element)).map fun p => .object p.id), w') := by
    rw [List.map_map]
    refine M.run'_filterM fun p hp => ?_
    obtain ⟨core, q, hr, -, -, hkind⟩ := (h.below p hp).inner
    rw [← hkind]
    exact run'_isElement hr
  have hfirst : M.run' env w' (ChildList.firstElement (.object (childrenOf w.cells.size))) =
      (.ok (.ofOption ((ps.find? (·.node.kind == .element)).map fun p => .object p.id)), w') := by
    rw [ChildList.firstElement, M.run'_bind_ok (run'_objectList (h.list rfl))]
    simp only [M.run'_bind_ok hfilter, M.run'_pure, List.head?_map, List.head?_filter]
  rw [documentElement?, M.run'_bind_ok (run'_childList h.record rfl), M.run'_bind_ok hfirst]
  cases ps.find? (·.node.kind == .element) with
  | none => rfl
  | some p => rfl

end Tree

namespace Frontier

variable {ps cs : List Plot} {zs : List (ObjectId × NodeCore)} {ms : List (ObjectId × Entries)}
  {w w' : World}

theorem within_all (F : Frontier) : F.Within fun _ => True :=
  ⟨fun _ _ _ _ => trivial, fun _ _ => trivial, fun _ _ => trivial⟩

/-- Whatever matters to a frontier lies before the end of the store. -/
theorem Stands.before (h : Frontier.Stands ⟨ps, zs, ms⟩ w) {n : Nat} (hn : w.cells.size ≤ n)
    {c : Plot} (hc : n ≤ c.id) : (∀ p ∈ ps, c.Apart p) ∧
      (∀ z ∈ zs, ¬ c.Covers (Tree.childrenOf z.1)) ∧ ∀ m ∈ ms, ¬ c.Covers m.1 := by
  have hnew : ∀ x < w.cells.size, ¬ c.Covers x := fun x hx hx' =>
    absurd (Nat.lt_of_lt_of_le hx (Nat.le_trans hn hc)) (Nat.not_lt_of_le hx'.1)
  refine ⟨fun p hp => ?_, fun z hz => hnew _ (h.parents z hz).2, fun m hm => ?_⟩
  · exact .inr (Nat.le_trans (h.bounds p hp) (Nat.le_trans hn hc))
  · exact hnew _ (World.lt_of_getElem? (h.maps m hm))

/-- New plots that wait. -/
theorem Stands.addRow (h : Frontier.Stands ⟨ps, zs, ms⟩ w) (hr : Row w cs w') :
    Frontier.Stands ⟨cs ++ ps, zs, ms⟩ w' := by
  have hbefore := fun c hm => h.before (Nat.le_refl _) (hr.places c hm).1
  refine (h.keep (within_all _) hr.kept).add (fun c hc => (hr.stands c hc).mono ?_)
    (fun c hm => (hr.places c hm).2) hr.apart (fun c hm => (hbefore c hm).1)
    (fun z hz c hm => (hbefore c hm).2.1 z hz) fun m hm c hm' => (hbefore c hm').2.2 m hm
  rintro _ rfl
  exact links_none

/-- A new holder, with the new plots in it waiting. -/
theorem Stands.addSprout {core : NodeCore} {attributes : Entries}
    (h : Frontier.Stands ⟨ps, zs, ms⟩ w) (hs : Sprout w core attributes cs w')
    (hc : core.hasChildren) :
    Frontier.Stands ⟨cs ++ ps, (w.cells.size, core) :: zs, ms⟩ w' := by
  have htwo : 2 ≤ (Tree.nodeCells core attributes w.cells.size).length := by
    simp [Tree.nodeCells, hc]
  have hplaces : ∀ c ∈ cs, w.cells.size + 2 ≤ c.id := fun c hm =>
    Nat.le_trans (Nat.add_le_add_left htwo _) (hs.places c hm).1
  have hbefore := fun c hm => h.before (Nat.le_add_right _ 2) (hplaces c hm)
  have hheld : Frontier.Stands ⟨ps, (w.cells.size, core) :: zs, ms⟩ w' := by
    refine (h.keep (within_all _) hs.kept).hold hs.record links_none hc ?_ fun p hp hp' => ?_
    · exact Nat.lt_of_lt_of_le (Nat.lt_succ_self _) (Nat.le_trans (Nat.add_le_add_left htwo _) hs.size)
    · exact absurd (Nat.lt_of_lt_of_le hp'.2 (h.bounds p hp)) (Nat.not_lt_of_le (Nat.le_succ _))
  refine hheld.add (fun c hm => (hs.below c hm).mono ?_) (fun c hm => (hs.places c hm).2) hs.apart
    (fun c hm => (hbefore c hm).1) (List.forall_mem_cons.2 ⟨fun c hm hc => ?_, ?_⟩)
    fun m hm c hm' => (hbefore c hm').2.2 m hm
  · rintro _ (rfl | rfl)
    · rintro _ ⟨⟩
      exact ⟨core, List.mem_cons_self⟩
    · exact links_none
  · exact absurd (Nat.le_trans (hplaces c hm) hc.1) (Nat.not_succ_le_self _)
  · exact fun z hz c hm => (hbefore c hm).2.1 z hz

end Frontier

/-! Copies of plots. -/

namespace Tree

open Markup (Node)

variable {env : Env} {w w' : World} {l : Links}

namespace ChildList

/-- The children in a list that holds objects, whatever was written on the list. -/
theorem run'_toList_objects {l : ObjectId} {ids : List ObjectId} {extra : Properties}
    (h : w.cells[l]? = some (.array (ids.map fun id => some (.object id)) extra)) :
    M.run' env w (toList (.object l)) = (.ok (ids.map .object), w) := by
  cases extra with
  | nil => exact run'_toList h
  | cons e extra =>
    have hc := World.cell_of_getElem? h
    have hplain : M.run' env w (objectList? (.object l)) = (.ok none, w) := by
      simp [objectList?, M.run'_bind, hc]
    have hfamily : M.run' env w (Property.family? (.object l)) = (.ok (some .array), w) := by
      simp [Property.family?, Property.familyWithin?, Property.ancestry, Property.ancestryOf,
        M.run'_bind, hc]
    have hitems : M.run' env w (Sequence.items (.object l)) =
        (.ok (ids.map fun id => some (.object id)), w) := by
      simp [Sequence.items, Sequence.length, Sequence.range, Store.arrayLength?, Store.arrayItems?,
        M.run'_bind, hc, List.take_of_length_le]
    rw [toList, M.run'_bind_ok hplain]
    simp [Sequence.iterate, M.run'_bind, hc, hfamily, hitems, Value.ofOption]

end ChildList

/-- The children of an element as its plot says. -/
theorem run'_childPlots {id : ObjectId} {core : NodeCore} {parent : Option ObjectId} {ps : List Plot}
    {extra : Properties} (hr : w.cells[id]? = some (nodeCell id core parent))
    (hc : core.hasChildren)
    (hl : w.cells[childrenOf id]? = some (.array (ps.map fun p => some (.object p.id)) extra)) :
    M.run' env w (children (.object id)) = (.ok (ps.map fun p => .object p.id), w) := by
  have hl' : w.cells[childrenOf id]? =
      some (.array ((ps.map (·.id)).map fun id => some (.object id)) extra) := by
    rw [List.map_map]
    exact hl
  rw [children, M.run'_bind_ok (run'_childList hr hc), ChildList.run'_toList_objects hl',
    List.map_map]
  rfl

/-- The copy of an element, before its children are copied. -/
theorem run'_cloneElement {id : ObjectId} {tag : Text} {parent : Option ObjectId}
    {attributes : Markup.Attributes}
    (hr : w.cells[id]? = some (nodeCell id (.element (.text tag)) parent))
    (hm : w.cells[attributesOf id]? = some (.map (entriesOfTexts attributes)))
    (hl : Text.toLower tag = tag) (hn : (attributes.map (·.1)).Nodup) :
    M.run' env w (cloneElement (.object id)) =
      M.run' env w (allocNode (.element (.text tag)) (entriesOfTexts attributes)) := by
  have ha : NodeCore.hasAttributes (.element (.text tag)) := rfl
  have hlower : M.run' env w (lowerTag (.object id)) = (.ok (.text tag), w) := by
    rw [lowerTag, M.run'_bind_ok (run'_tag hr)]
    simp only [hl, M.run'_pure]
  have hown : M.run' env w (ownAttributes (.object id)) = (.ok (Markup.values attributes), w) := by
    rw [ownAttributes, M.run'_bind_ok (run'_get_node hr (find_attributes ha))]
    simp only [Value.isNullish, Bool.false_eq_true, if_false, attributeEntries]
    rw [M.run'_bind_ok (run'_attributeMap hr ha), M.run'_bind_ok (run'_mapEntries hm)]
    simp only [M.run'_pure, live_entriesOfTexts]
  rw [cloneElement, M.run'_bind_ok hlower, M.run'_bind_ok hown, create, Markup.ofList_values hn]

/-- Appending a plot without a parent to a node. -/
theorem run'_append_row (env : Env) {core : NodeCore} {attributes : Entries} {ps : List Plot} {q : Plot}
    {w1 w2 : World} (h : Sprout w core attributes ps w1) (hc : core.hasChildren)
    (hq : Row w1 [q] w2) :
    ∃ w3, M.run' env w2 (append (.object w.cells.size) (.object q.id)) = (.ok (), w3) ∧
      Sprout w core attributes (ps ++ [q]) w3 := by
  obtain ⟨w3, hset, hrecord, hlist, hs⟩ := h.put env hc hq
  obtain ⟨qcore, qp, hqr, hqp, hinner, -⟩ := (hq.stands q List.mem_cons_self).inner
  have hold := hq.kept.cells w.cells.size trivial (World.lt_of_getElem? h.record)
  have hne : q.id ≠ w.cells.size := by
    have h1 := (hq.places q List.mem_cons_self).1
    have h2 := World.lt_of_getElem? h.record
    exact (Nat.lt_of_lt_of_le h2 h1).ne'
  have hself : ((Value.object q.id).strictlyEqual (.object w.cells.size)) = false := by
    simpa [Value.strictlyEqual, Value.identicalBy] using hne
  have hremove : M.run' env w2 (remove (.object q.id)) = (.ok (), w2) := by
    subst hqp
    rw [remove, M.run'_bind_ok (run'_parent hqr)]
    rfl
  have hadopt : M.run' env w2 (adopt w.cells.size (.object q.id)) = (.ok [.object q.id], w3) := by
    have hkind : (some qcore.kind == some NodeKind.fragment) = false := by
      cases qcore <;> first | rfl | cases hinner
    obtain ⟨_, w4, hset, hdone⟩ := M.run'_bind_eq_ok.1 hset
    cases hdone
    rw [adopt, M.run'_bind_ok (run'_kind hqr), hkind]
    simp only [Bool.false_eq_true, if_false]
    rw [M.run'_bind_ok hremove, M.run'_bind_ok hset]
    rfl
  refine ⟨_, ?_, hs⟩
  have hpush : M.run' env w3 (ChildList.push (.object (childrenOf w.cells.size))
      ([q.id].map .object)) = _ := ChildList.run'_push hlist [q.id]
  rw [append, hself]
  simp only [Bool.false_eq_true, if_false]
  rw [M.run'_bind_ok (run'_childList (hold.trans h.record) hc),
    M.run'_bind_ok (a := w.cells.size) rfl, M.run'_bind_ok hadopt, List.map_append]
  exact hpush

/-- Copying some children of an element, given how one node is copied. -/
theorem sprout_cloneAll {n : Nat}
    (hclone : ∀ {w w' : World} {l : Links} {p : Plot} {c : ObjectId}, p.Stands w l → p.node.IsTidy →
      M.run' env w (cloneWithin n (.object p.id)) = (.ok c, w') →
        c = w.cells.size ∧ Row w [⟨p.node, w.cells.size, w'.cells.size⟩] w')
    {core : NodeCore} {attributes : Entries} (hc : core.hasChildren) {ps : List Plot}
    (hs : ∀ p ∈ ps, p.Stands w l) (ht : ∀ p ∈ ps, p.node.IsTidy) {ds : List Plot} {w1 : World}
    (h : Sprout w core attributes ds w1)
    (hr : M.run' env w1 ((ps.map fun p => Value.object p.id).forM fun child => do
        append (.object w.cells.size) (.object (← cloneWithin n child))) = (.ok (), w')) :
    ∃ es, es.map (·.node) = ps.map (·.node) ∧ Sprout w core attributes (ds ++ es) w' := by
  induction ps generalizing ds w1 with
  | nil =>
    cases hr
    exact ⟨[], rfl, by rwa [List.append_nil]⟩
  | cons p ps ih =>
    obtain ⟨_, w3, hone, hrest⟩ := M.run'_bind_eq_ok.1 hr
    obtain ⟨c, w2, hcopy, happend⟩ := M.run'_bind_eq_ok.1 hone
    obtain ⟨rfl, hrow⟩ := hclone ((hs p List.mem_cons_self).keep h.kept fun _ _ => trivial)
      (ht p List.mem_cons_self) hcopy
    obtain ⟨w3', happend', hnext⟩ := run'_append_row env h hc hrow
    rw [happend] at happend'
    cases happend'
    obtain ⟨es, hes, hlast⟩ := ih (fun q hq => hs q (List.mem_cons_of_mem p hq))
      (fun q hq => ht q (List.mem_cons_of_mem p hq)) hnext hrest
    rw [List.append_assoc] at hlast
    exact ⟨_ :: es, by rw [List.map_cons, hes]; rfl, hlast⟩

/-- Copying a plot. -/
theorem row_cloneWithin (n : Nat) : ∀ {w w' : World} {l : Links} {p : Plot} {c : ObjectId},
    p.Stands w l → p.node.IsTidy →
    M.run' env w (cloneWithin n (.object p.id)) = (.ok c, w') →
      c = w.cells.size ∧ Row w [⟨p.node, w.cells.size, w'.cells.size⟩] w' := by
  induction n with
  | zero =>
    intro w w' l p c _ _ hr
    cases hr
  | succ n ih =>
    intro w w' l p c hp ht hr
    cases hp with
    | @element _ tag attributes children id stop parent ps extra link record list map bound nodes
        within apart below =>
      cases ht with
      | element lower distinct inside =>
        rw [cloneWithin, M.run'_bind_ok (run'_kind record)] at hr
        simp only [NodeCore.kind] at hr
        rw [M.run'_bind, run'_cloneElement record map lower distinct,
          run'_allocNode] at hr
        simp only at hr
        have hnew := Sprout.alloc (.element (.text tag)) (entriesOfTexts attributes) w
        have hold : ∀ {x : ObjectId} {c : Cell}, w.cells[x]? = some c →
            (w.allocAll (nodeCells (.element (.text tag)) (entriesOfTexts attributes)
              w.cells.size)).cells[x]? = some c := fun hx =>
          (hnew.kept.cells _ trivial (World.lt_of_getElem? hx)).trans hx
        rw [M.run'_bind_ok (run'_childPlots (hold record) rfl (hold list))] at hr
        obtain ⟨_, w2, hall, hdone⟩ := M.run'_bind_eq_ok.1 hr
        cases hdone
        obtain ⟨es, hes, hs⟩ := sprout_cloneAll ih rfl below
          (fun p hp => inside _ (nodes.subset (List.mem_map_of_mem hp))) hnew hall
        exact ⟨rfl, hs.element (hes ▸ nodes)⟩
    | @leaf _ node core id stop parent tree link record bound =>
      rw [cloneWithin, M.run'_bind_ok (run'_kind record)] at hr
      cases node with
      | element => cases tree
      | text value raw =>
        cases tree
        simp only [NodeCore.kind] at hr
        rw [M.run'_bind_ok (run'_nodeValue record (.inl ⟨_, rfl⟩)),
          M.run'_bind_ok (run'_rawMark record)] at hr
        cases hr
        exact ⟨rfl, (Sprout.alloc _ [] w).leaf rfl⟩
      | code source =>
        cases tree
        simp only [NodeCore.kind] at hr
        rw [M.run'_bind_ok (run'_source record)] at hr
        cases hr
        exact ⟨rfl, (Sprout.alloc _ [] w).leaf rfl⟩
      | comment value =>
        cases tree
        simp only [NodeCore.kind] at hr
        rw [M.run'_bind_ok (run'_nodeValue record (.inr (.inl rfl)))] at hr
        cases hr
        exact ⟨rfl, (Sprout.alloc _ [] w).leaf rfl⟩
      | doctype value =>
        cases tree
        simp only [NodeCore.kind] at hr
        rw [M.run'_bind_ok (run'_nodeValue record (.inr (.inr rfl)))] at hr
        cases hr
        exact ⟨rfl, (Sprout.alloc _ [] w).leaf rfl⟩

/-- **Copying a plot** yields a plot of the same markup, or fails. -/
theorem row_clone {p : Plot} (hp : p.Stands w l) (ht : p.node.IsTidy) {c : ObjectId}
    (hr : M.run' env w (clone (.object p.id)) = (.ok c, w')) :
    c = w.cells.size ∧ Row w [⟨p.node, w.cells.size, w'.cells.size⟩] w' := by
  rw [clone, M.run'_bind_ok Store.run'_depth] at hr
  exact row_cloneWithin _ hp ht hr

end Tree

end PageTemplate
