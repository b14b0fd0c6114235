import PageTemplate.Proofs.Tree.NodeTree

/-!
# PageTemplate.Proofs.Tree.Plot

Markup that lies in the store as it was put there. A plot is a node of markup with the places that
it and everything in it take up. It stands as long as nothing was added to it and nothing in it was
rewritten; children may have been taken out and parents may have changed.

A frontier is what a walk over such markup has before it and around it: the plots that wait for
their turn, the nodes that they may be moved into, and the attributes that are still to be read.
It withstands every change by which stores fade.
-/

namespace PageTemplate

/-- A node of markup and the places from `id` up to `stop`, which are its own. -/
structure Plot where
  node : Markup.Node
  id : Nat
  stop : Nat

/-- The parents that a node may have. -/
abbrev Links := Option ObjectId → Prop

/-- The parents that a child may have: its own one, and those that are open to all. -/
def Links.under (l : Links) (id : ObjectId) : Links := fun q => q = some id ∨ l q

namespace Plot

def Apart (p q : Plot) : Prop := p.stop ≤ q.id ∨ q.stop ≤ p.id

def Covers (p : Plot) (id : Nat) : Prop := p.id ≤ id ∧ id < p.stop

/-- Whether a store holds a plot. -/
inductive Stands (w : World) : Links → Plot → Prop
  | element {l : Links} {tag : Text} {attributes : Markup.Attributes}
      {children : List Markup.Node} {id stop : Nat} {parent : Option ObjectId}
      {ps : List Plot} {extra : Properties} (link : l parent)
      (record : w.cells[id]? = some (Tree.nodeCell id (.element (.text tag)) parent))
      (list : w.cells[Tree.childrenOf id]? =
        some (.array (ps.map fun p => some (.object p.id)) extra))
      (map : w.cells[Tree.attributesOf id]? = some (.map (Tree.entriesOfTexts attributes)))
      (bound : id + 2 < stop)
      (nodes : (ps.map (·.node)).Sublist children)
      (inside : ∀ p ∈ ps, id + 2 < p.id ∧ p.stop ≤ stop)
      (apart : ps.Pairwise Apart)
      (below : ∀ p ∈ ps, Stands w (l.under id) p) :
      Stands w l ⟨.element tag attributes children, id, stop⟩
  | leaf {l : Links} {node : Markup.Node} {core : NodeCore} {id stop : Nat}
      {parent : Option ObjectId} (tree : node.tree = .leaf core) (link : l parent)
      (record : w.cells[id]? = some (Tree.nodeCell id core parent)) (bound : id < stop) :
      Stands w l ⟨node, id, stop⟩

/-- The record of the node of a plot. -/
theorem Stands.record {w : World} {l : Links} {p : Plot} (h : p.Stands w l) :
    ∃ core parent, w.cells[p.id]? = some (Tree.nodeCell p.id core parent) ∧ l parent := by
  cases h with
  | element link record => exact ⟨_, _, record, link⟩
  | leaf _ link record => exact ⟨_, _, record, link⟩

end Plot

/-- From one store to another one, within some places: parents change to some that are allowed,
children are taken out, except at places that grow, and maps stay. -/
structure Fades (inside grown : ObjectId → Prop) (l : Links) (w w' : World) : Prop where
  record : ∀ id core q, inside id → w.cells[id]? = some (Tree.nodeCell id core q) →
    ∃ q', w'.cells[id]? = some (Tree.nodeCell id core q') ∧ (q' = q ∨ l q')
  list : ∀ id items extra, inside id → ¬ grown id → w.cells[id]? = some (.array items extra) →
    ∃ items' extra', w'.cells[id]? = some (.array items' extra') ∧ items'.Sublist items
  map : ∀ id entries, inside id → w.cells[id]? = some (.map entries) →
    w'.cells[id]? = some (.map entries)
  size : w.cells.size ≤ w'.cells.size

namespace Fades

variable {inside grown : ObjectId → Prop} {l l' : Links} {w w' : World}

/-- Whatever happens outside of the places. -/
theorem of_kept (h : ∀ id, inside id → id < w.cells.size → w'.cells[id]? = w.cells[id]?)
    (hs : w.cells.size ≤ w'.cells.size) : Fades inside grown l w w' where
  record id _ q hi hr := ⟨q, (h id hi (World.lt_of_getElem? hr)).trans hr, .inl rfl⟩
  list id items extra hi _ hl :=
    ⟨items, extra, (h id hi (World.lt_of_getElem? hl)).trans hl, .refl items⟩
  map id _ hi hm := (h id hi (World.lt_of_getElem? hm)).trans hm
  size := hs

/-- A change to one object. -/
theorem of_setCell {target : ObjectId} {c : Cell}
    (hrecord : ∀ core q, w.cells[target]? = some (Tree.nodeCell target core q) →
      ∃ q', c = Tree.nodeCell target core q' ∧ (q' = q ∨ l q'))
    (hlist : ∀ items extra, ¬ grown target → w.cells[target]? = some (.array items extra) →
      ∃ items' extra', c = .array items' extra' ∧ items'.Sublist items)
    (hmap : ∀ entries, w.cells[target]? = some (.map entries) → c = .map entries) :
    Fades inside grown l w (w.setCell target c) where
  record id core q _ hr := by
    by_cases he : id = target
    · subst he
      obtain ⟨q', rfl, hq⟩ := hrecord core q hr
      exact ⟨q', World.setCell_self _ (World.lt_of_getElem? hr), hq⟩
    · exact ⟨q, (World.setCell_other c he).trans hr, .inl rfl⟩
  list id items extra _ hg hl := by
    by_cases he : id = target
    · subst he
      obtain ⟨items', extra', rfl, hsub⟩ := hlist items extra hg hl
      exact ⟨items', extra', World.setCell_self _ (World.lt_of_getElem? hl), hsub⟩
    · exact ⟨items, extra, (World.setCell_other c he).trans hl, .refl items⟩
  map id entries _ hm := by
    by_cases he : id = target
    · subst he
      rw [hmap entries hm]
      exact World.setCell_self _ (World.lt_of_getElem? hm)
    · exact (World.setCell_other c he).trans hm
  size := by simp

theorem mono (h : Fades inside grown l w w') (hl : ∀ q, l q → l' q) :
    Fades inside grown l' w w' :=
  { h with
    record := fun id core q hi hr => by
      obtain ⟨q', hr', hq⟩ := h.record id core q hi hr
      exact ⟨q', hr', hq.imp_right (hl q')⟩ }

theorem trans {w'' : World} (h : Fades inside grown l w w') (h' : Fades inside grown l w' w'') :
    Fades inside grown l w w'' where
  record id core q hi hr := by
    obtain ⟨q', hr', hq⟩ := h.record id core q hi hr
    obtain ⟨q'', hr'', hq'⟩ := h'.record id core q' hi hr'
    refine ⟨q'', hr'', ?_⟩
    rcases hq' with rfl | hq'
    · exact hq
    · exact .inr hq'
  list id items extra hi hg hl := by
    obtain ⟨items', extra', hl', hsub⟩ := h.list id items extra hi hg hl
    obtain ⟨items'', extra'', hl'', hsub'⟩ := h'.list id items' extra' hi hg hl'
    exact ⟨items'', extra'', hl'', hsub'.trans hsub⟩
  map id entries hi hm := h'.map id entries hi (h.map id entries hi hm)
  size := Nat.le_trans h.size h'.size

theorem under (h : Fades inside grown l w w') (id : ObjectId) :
    Fades inside grown (l.under id) w w' :=
  h.mono fun _ hq => .inr hq

end Fades

theorem Links.under_mono {l l' : Links} (h : ∀ q, l q → l' q) (id : ObjectId) :
    ∀ q, l.under id q → l'.under id q := fun q => Or.imp_right (h q)

/-- A plot stands as long as the store fades. The induction is on the nodes of the plot; every level
of it allows one more parent. -/
theorem Plot.Stands.fades {inside grown : ObjectId → Prop} {l : Links} {w w' : World} {p : Plot}
    (h : p.Stands w l) : ∀ {l' : Links}, (∀ q, l q → l' q) → Fades inside grown l' w w' →
      (∀ id, p.Covers id → inside id ∧ ¬ grown id) → p.Stands w' l' := by
  induction h with
  | @element l tag attributes children id stop parent ps extra link record list map bound nodes
      within apart below ih =>
    intro l' hl hf hin
    have hplace : ∀ k : Nat, k ≤ 2 → inside (id + k) ∧ ¬ grown (id + k) := by
      intro k hk
      refine hin (id + k) ⟨Nat.le_add_right id k, ?_⟩
      show id + k < stop
      omega
    have hid := hplace 0 (Nat.zero_le 2)
    have hlistAt := hplace 1 (Nat.le_succ 1)
    have hmapAt := hplace 2 (Nat.le_refl 2)
    obtain ⟨q, hrecord, hq⟩ := hf.record id _ parent hid.1 record
    obtain ⟨items, extra', hlist, hsub⟩ := hf.list _ _ _ hlistAt.1 hlistAt.2 list
    obtain ⟨ps', hps, rfl⟩ := List.sublist_map_iff.1 hsub
    refine .element ?_ hrecord hlist (hf.map _ _ hmapAt.1 map) bound ?_ ?_ ?_ ?_
    · rcases hq with rfl | hq
      · exact hl _ link
      · exact hq
    · exact (hps.map _).trans nodes
    · exact fun p hp => within p (hps.subset hp)
    · exact apart.sublist hps
    · intro p hp
      have hw := within p (hps.subset hp)
      refine ih p (hps.subset hp) (Links.under_mono hl id) (hf.under id) fun place hc => ?_
      obtain ⟨hge, hlt⟩ := hc
      refine hin place ⟨?_, Nat.lt_of_lt_of_le hlt hw.2⟩
      show id ≤ place
      omega
  | @leaf l node core id stop parent tree link record bound =>
    intro l' hl hf hin
    obtain ⟨q, hrecord, hq⟩ :=
      hf.record id _ parent (hin id ⟨Nat.le_refl id, bound⟩).1 record
    refine .leaf tree ?_ hrecord bound
    rcases hq with rfl | hq
    · exact hl _ link
    · exact hq

/-- A plot stands whatever more parents are allowed. -/
theorem Plot.Stands.mono {l l' : Links} {w : World} {p : Plot} (h : p.Stands w l)
    (hl : ∀ q, l q → l' q) : p.Stands w l' :=
  have hf : Fades (fun _ => True) (fun _ => False) l' w w :=
    .of_kept (fun _ _ _ => rfl) (Nat.le_refl _)
  h.fades hl hf fun _ _ => ⟨trivial, fun hg => hg⟩

/-- What a walk over markup has before it and around it. -/
structure Frontier where
  /-- The nodes that are still to be visited. -/
  waiting : List Plot
  /-- The nodes that visited nodes and their replacements are put into. -/
  holders : List (ObjectId × NodeCore)
  /-- The attributes of elements that are being visited. -/
  pinned : List (ObjectId × Entries)

namespace Frontier

variable {F : Frontier} {w w' : World} {inside grown kept : ObjectId → Prop}

/-- A node is in one of the holders, or nowhere. -/
def links (F : Frontier) : Links := fun q => ∀ id, q = some id → ∃ core, (id, core) ∈ F.holders

theorem links_none : F.links none := fun _ h => by cases h

/-- Whether a store is as a frontier says. -/
structure Stands (F : Frontier) (w : World) : Prop where
  plots : ∀ p ∈ F.waiting, p.Stands w F.links
  bounds : ∀ p ∈ F.waiting, p.stop ≤ w.cells.size
  apart : F.waiting.Pairwise Plot.Apart
  records : ∀ z ∈ F.holders, ∃ q, w.cells[z.1]? = some (Tree.nodeCell z.1 z.2 q) ∧ F.links q
  parents : ∀ z ∈ F.holders, z.2.hasChildren ∧ Tree.childrenOf z.1 < w.cells.size
  lists : ∀ z ∈ F.holders, ∀ p ∈ F.waiting, ¬ p.Covers (Tree.childrenOf z.1)
  maps : ∀ m ∈ F.pinned, w.cells[m.1]? = some (.map m.2)
  free : ∀ m ∈ F.pinned, ∀ p ∈ F.waiting, ¬ p.Covers m.1
  distinct : (F.pinned.map (·.1)).Nodup

/-- Whether the places that matter to a frontier are among some places. -/
structure Within (F : Frontier) (kept : ObjectId → Prop) : Prop where
  plots : ∀ p ∈ F.waiting, ∀ id, p.Covers id → kept id
  records : ∀ z ∈ F.holders, kept z.1
  maps : ∀ m ∈ F.pinned, kept m.1

theorem Within.mono (h : F.Within kept) {more : ObjectId → Prop} (hm : ∀ id, kept id → more id) :
    F.Within more where
  plots p hp id hc := hm id (h.plots p hp id hc)
  records z hz := hm _ (h.records z hz)
  maps m hm' := hm _ (h.maps m hm')

/-- A frontier withstands that the store fades. -/
theorem Stands.fades (h : F.Stands w) (hf : Fades inside grown F.links w w') (hi : F.Within inside)
    (hg : ∀ p ∈ F.waiting, ∀ id, p.Covers id → ¬ grown id) : F.Stands w' where
  plots p hp := (h.plots p hp).fades (fun _ hq => hq) hf
    fun id hc => ⟨hi.plots p hp id hc, hg p hp id hc⟩
  bounds p hp := Nat.le_trans (h.bounds p hp) hf.size
  apart := h.apart
  records z hz := by
    obtain ⟨q, hr, hq⟩ := h.records z hz
    obtain ⟨q', hr', hq'⟩ := hf.record z.1 z.2 q (hi.records z hz) hr
    refine ⟨q', hr', ?_⟩
    rcases hq' with rfl | hq'
    · exact hq
    · exact hq'
  parents z hz := ⟨(h.parents z hz).1, Nat.lt_of_lt_of_le (h.parents z hz).2 hf.size⟩
  lists := h.lists
  maps m hm := hf.map _ _ (hi.maps m hm) (h.maps m hm)
  free := h.free
  distinct := h.distinct

/-- A frontier withstands that the store fades in places where no list grows. -/
theorem Stands.thins (h : F.Stands w) (hf : Fades (fun _ => True) (fun _ => False) F.links w w') :
    F.Stands w' :=
  h.fades hf ⟨fun _ _ _ _ => trivial, fun _ _ => trivial, fun _ _ => trivial⟩
    fun _ _ _ _ hg => hg

/-- Some of the plots, and some of the attributes. -/
theorem Stands.weaken (h : F.Stands w) {ps : List Plot} {ms : List (ObjectId × Entries)}
    (hp : ps.Sublist F.waiting) (hm : ms.Sublist F.pinned) :
    Frontier.Stands ⟨ps, F.holders, ms⟩ w where
  plots p hp' := h.plots p (hp.subset hp')
  bounds p hp' := h.bounds p (hp.subset hp')
  apart := h.apart.sublist hp
  records := h.records
  parents := h.parents
  lists z hz p hp' := h.lists z hz p (hp.subset hp')
  maps m hm' := h.maps m (hm.subset hm')
  free m hm' p hp' := h.free m (hm.subset hm') p (hp.subset hp')
  distinct := h.distinct.sublist (hm.map _)

theorem Within.weaken (h : F.Within kept) {ps : List Plot} {ms : List (ObjectId × Entries)}
    (hp : ps.Sublist F.waiting) (hm : ms.Sublist F.pinned) :
    Frontier.Within ⟨ps, F.holders, ms⟩ kept where
  plots p hp' := h.plots p (hp.subset hp')
  records := h.records
  maps m hm' := h.maps m (hm.subset hm')

/-- With more holders, more parents are possible. -/
theorem links_mono {F' : Frontier} (h : F.holders ⊆ F'.holders) {q : Option ObjectId}
    (hq : F.links q) : F'.links q := by
  intro id he
  obtain ⟨core, hm⟩ := hq id he
  exact ⟨core, h hm⟩

section Parts

variable {ps cs : List Plot} {zs : List (ObjectId × NodeCore)} {ms : List (ObjectId × Entries)}

/-- One more holder. -/
theorem Stands.hold (h : Frontier.Stands ⟨ps, zs, ms⟩ w) {z : ObjectId × NodeCore}
    {q : Option ObjectId} (hr : w.cells[z.1]? = some (Tree.nodeCell z.1 z.2 q))
    (hq : links ⟨ps, zs, ms⟩ q) (hc : z.2.hasChildren) (hs : Tree.childrenOf z.1 < w.cells.size)
    (hl : ∀ p ∈ ps, ¬ p.Covers (Tree.childrenOf z.1)) : Frontier.Stands ⟨ps, z :: zs, ms⟩ w where
  plots p hp := (h.plots p hp).mono fun _ hq => links_mono (List.subset_cons_self z zs) hq
  bounds := h.bounds
  apart := h.apart
  records := by
    have hmono : ∀ q, links ⟨ps, zs, ms⟩ q → links ⟨ps, z :: zs, ms⟩ q := fun _ =>
      links_mono (List.subset_cons_self z zs)
    refine List.forall_mem_cons.2 ⟨⟨q, hr, hmono q hq⟩, fun y hy => ?_⟩
    obtain ⟨q', hr', hq'⟩ := h.records y hy
    exact ⟨q', hr', hmono q' hq'⟩
  parents := List.forall_mem_cons.2 ⟨⟨hc, hs⟩, h.parents⟩
  lists := List.forall_mem_cons.2 ⟨hl, h.lists⟩
  maps := h.maps
  free := h.free
  distinct := h.distinct

/-- Attributes that are kept for later. -/
theorem Stands.pin (h : Frontier.Stands ⟨ps, zs, ms⟩ w) {m : ObjectId × Entries}
    (hm : w.cells[m.1]? = some (.map m.2)) (hf : ∀ p ∈ ps, ¬ p.Covers m.1)
    (hd : ∀ m' ∈ ms, m'.1 ≠ m.1) : Frontier.Stands ⟨ps, zs, m :: ms⟩ w where
  plots := h.plots
  bounds := h.bounds
  apart := h.apart
  records := h.records
  parents := h.parents
  lists := h.lists
  maps := List.forall_mem_cons.2 ⟨hm, h.maps⟩
  free := List.forall_mem_cons.2 ⟨hf, h.free⟩
  distinct := List.nodup_cons.2 ⟨fun hm => by
    obtain ⟨m', hm', he⟩ := List.mem_map.1 hm
    exact hd m' hm' he, h.distinct⟩

/-- More plots that wait. -/
theorem Stands.add (h : Frontier.Stands ⟨ps, zs, ms⟩ w)
    (hc : ∀ c ∈ cs, c.Stands w (links ⟨ps, zs, ms⟩)) (hb : ∀ c ∈ cs, c.stop ≤ w.cells.size)
    (ha : cs.Pairwise Plot.Apart) (hp : ∀ c ∈ cs, ∀ p ∈ ps, c.Apart p)
    (hl : ∀ z ∈ zs, ∀ c ∈ cs, ¬ c.Covers (Tree.childrenOf z.1))
    (hf : ∀ m ∈ ms, ∀ c ∈ cs, ¬ c.Covers m.1) : Frontier.Stands ⟨cs ++ ps, zs, ms⟩ w where
  plots := List.forall_mem_append.2 ⟨hc, h.plots⟩
  bounds := List.forall_mem_append.2 ⟨hb, h.bounds⟩
  apart := List.pairwise_append.2 ⟨ha, h.apart, hp⟩
  records := h.records
  parents := h.parents
  lists z hz := List.forall_mem_append.2 ⟨hl z hz, h.lists z hz⟩
  maps := h.maps
  free m hm := List.forall_mem_append.2 ⟨hf m hm, h.free m hm⟩
  distinct := h.distinct

/-- One more plot that waits. -/
theorem Stands.cons (h : Frontier.Stands ⟨ps, zs, ms⟩ w) {p : Plot}
    (hp : p.Stands w (links ⟨ps, zs, ms⟩)) (hb : p.stop ≤ w.cells.size) (ha : ∀ q ∈ ps, p.Apart q)
    (hl : ∀ z ∈ zs, ¬ p.Covers (Tree.childrenOf z.1)) (hf : ∀ m ∈ ms, ¬ p.Covers m.1) :
    Frontier.Stands ⟨p :: ps, zs, ms⟩ w :=
  Stands.add h (List.forall_mem_singleton.2 hp) (List.forall_mem_singleton.2 hb)
    (List.pairwise_singleton _ p) (List.forall_mem_singleton.2 ha)
    (fun z hz => List.forall_mem_singleton.2 (hl z hz))
    fun m hm => List.forall_mem_singleton.2 (hf m hm)

end Parts

section Element

variable {tag : Text} {attributes : Markup.Attributes} {children : List Markup.Node} {id stop : Nat}
  {ps : List Plot} {zs : List (ObjectId × NodeCore)} {ms : List (ObjectId × Entries)}

/-- No other plot covers a place of an element. -/
theorem Stands.only (h : Frontier.Stands
      ⟨⟨.element tag attributes children, id, stop⟩ :: ps, zs, ms⟩ w) {k : Nat} (hk : id ≤ k)
    (hk' : k < stop) : ∀ p ∈ ps, ¬ p.Covers k := by
  rintro p hp ⟨hge, hlt⟩
  rcases (List.pairwise_cons.1 h.apart).1 p hp with ha | ha
  · exact absurd (Nat.lt_of_lt_of_le hk' (Nat.le_trans ha hge)) (Nat.lt_irrefl k)
  · exact absurd (Nat.lt_of_lt_of_le hlt (Nat.le_trans ha hk)) (Nat.lt_irrefl k)

/-- Visiting an element: its children take its place among those that wait, it holds what comes from
them, and its attributes are kept for later. -/
theorem Stands.enter
    (h : Frontier.Stands ⟨⟨.element tag attributes children, id, stop⟩ :: ps, zs, ms⟩ w) :
    ∃ cs extra,
      w.cells[Tree.childrenOf id]? =
        some (.array (cs.map fun p => some (.object p.id)) extra) ∧
      (cs.map (·.node)).Sublist children ∧ (∀ p ∈ cs, id < p.id ∧ p.stop ≤ stop) ∧
      Frontier.Stands ⟨cs ++ ps, (id, .element (.text tag)) :: zs,
        (Tree.attributesOf id, Tree.entriesOfTexts attributes) :: ms⟩ w := by
  have hrest := h.weaken (List.sublist_cons_self _ _) (.refl ms)
  have honly := fun {k : Nat} => h.only (k := k)
  have hapart := (List.pairwise_cons.1 h.apart).1
  have hbound : stop ≤ w.cells.size := h.bounds _ List.mem_cons_self
  have hlists := fun z hz => h.lists z hz _ List.mem_cons_self
  have hfree := fun m hm => h.free m hm _ List.mem_cons_self
  have hhead := h.plots _ List.mem_cons_self
  cases hhead with
  | leaf tree => cases tree
  | @element _ _ _ _ _ _ parent cs extra link record list map bound nodes within apart below =>
    have hcover : ∀ p ∈ cs, ∀ place, p.Covers place →
        Plot.Covers ⟨.element tag attributes children, id, stop⟩ place ∧ id + 2 < place :=
      fun p hp place hc => by
        have hlt := Nat.lt_of_lt_of_le (within p hp).1 hc.1
        exact ⟨⟨Nat.le_trans (Nat.le_add_right id 2) (Nat.le_of_lt hlt),
          Nat.lt_of_lt_of_le hc.2 (within p hp).2⟩, hlt⟩
    have hchildren : Tree.childrenOf id < stop := Nat.lt_trans (Nat.lt_succ_self (id + 1)) bound
    refine ⟨cs, extra, list, nodes, fun p hp => ⟨?_, (within p hp).2⟩, ?_⟩
    · exact Nat.lt_of_le_of_lt (Nat.le_add_right id 2) (within p hp).1
    refine Stands.add (Stands.pin (hrest.hold (z := (id, _)) record link rfl
      (Nat.lt_of_lt_of_le hchildren hbound) (honly (Nat.le_add_right id 1) hchildren)) map
      (honly (Nat.le_add_right id 2) bound) fun m hm he => ?_) ?_ ?_ apart ?_ ?_ ?_
    · refine hfree m hm ?_
      rw [he]
      exact ⟨Nat.le_add_right id 2, bound⟩
    · intro p hp
      refine (below p hp).mono ?_
      rintro q (rfl | hq)
      · rintro _ ⟨⟩
        exact ⟨_, List.mem_cons_self⟩
      · exact links_mono (List.subset_cons_self _ zs) hq
    · exact fun p hp => Nat.le_trans (within p hp).2 hbound
    · intro p hp q hq
      rcases hapart q hq with ha | ha
      · exact .inl (Nat.le_trans (within p hp).2 ha)
      · refine .inr (Nat.le_trans ha ?_)
        exact Nat.le_trans (Nat.le_add_right id 2) (Nat.le_of_lt (within p hp).1)
    · refine List.forall_mem_cons.2 ⟨fun p hp hc => ?_, fun z hz p hp hc => ?_⟩
      · exact absurd (hcover p hp _ hc).2 (Nat.not_lt_of_le (Nat.le_succ (id + 1)))
      · exact hlists z hz (hcover p hp _ hc).1
    · refine List.forall_mem_cons.2 ⟨fun p hp hc => ?_, fun m hm p hp hc => ?_⟩
      · exact absurd (hcover p hp _ hc).2 (Nat.lt_irrefl _)
      · exact hfree m hm (hcover p hp _ hc).1

theorem Within.enter {cs : List Plot}
    (h : Frontier.Within ⟨⟨.element tag attributes children, id, stop⟩ :: ps, zs, ms⟩ kept)
    (hb : id + 2 < stop) (hcs : ∀ p ∈ cs, id < p.id ∧ p.stop ≤ stop) (entries : Entries) :
    Frontier.Within ⟨cs ++ ps, (id, .element (.text tag)) :: zs,
      (Tree.attributesOf id, entries) :: ms⟩ kept where
  plots p hp place hc := by
    rcases List.mem_append.1 hp with hp | hp
    · refine h.plots _ List.mem_cons_self place ⟨?_, Nat.lt_of_lt_of_le hc.2 (hcs p hp).2⟩
      exact Nat.le_trans (Nat.le_of_lt (hcs p hp).1) hc.1
    · exact h.plots p (List.mem_cons_of_mem _ hp) place hc
  records := List.forall_mem_cons.2 ⟨h.plots _ List.mem_cons_self id
    ⟨Nat.le_refl id, Nat.lt_of_le_of_lt (Nat.le_add_right id 2) hb⟩, h.records⟩
  maps := List.forall_mem_cons.2 ⟨h.plots _ List.mem_cons_self (id + 2)
    ⟨Nat.le_add_right id 2, hb⟩, h.maps⟩

/-- Nothing but a map changes when the object at its place does. -/
theorem fades_setMap {place : ObjectId} {l : Links} (c : Cell) :
    Fades (· ≠ place) grown l w (w.setCell place c) :=
  .of_kept (fun _ hne _ => World.setCell_other c hne) (by simp)

/-- The places of holders are records. -/
theorem Stands.ne_map (h : F.Stands w) {place : ObjectId} {entries : Entries}
    (hm : w.cells[place]? = some (.map entries)) : ∀ z ∈ F.holders, z.1 ≠ place := by
  rintro z hz rfl
  obtain ⟨q, hr, -⟩ := h.records z hz
  rw [hr] at hm
  cases hm

/-- The attributes of an element that waits may be rewritten. -/
theorem Stands.rewrite
    (h : Frontier.Stands ⟨⟨.element tag attributes children, id, stop⟩ :: ps, zs, ms⟩ w)
    (attributes' : Markup.Attributes) :
    Frontier.Stands ⟨⟨.element tag attributes' children, id, stop⟩ :: ps, zs, ms⟩
      (w.setCell (Tree.attributesOf id) (.map (Tree.entriesOfTexts attributes'))) := by
  have honly := fun {k : Nat} => h.only (k := k)
  have hapart := (List.pairwise_cons.1 h.apart).1
  have hbound : stop ≤ w.cells.size := h.bounds _ List.mem_cons_self
  have hlists := fun z hz => h.lists z hz _ List.mem_cons_self
  have hfree := fun m hm => h.free m hm _ List.mem_cons_self
  have hhead := h.plots _ List.mem_cons_self
  cases hhead with
  | leaf tree => cases tree
  | @element _ _ _ _ _ _ parent cs extra link record list map bound nodes within apart below =>
    have hf : Fades (· ≠ Tree.attributesOf id) (fun _ => False) (links ⟨ps, zs, ms⟩) w
        (w.setCell (Tree.attributesOf id) (.map (Tree.entriesOfTexts attributes'))) :=
      fades_setMap _
    have hmine : id ≤ Tree.attributesOf id := Nat.le_add_right id 2
    have hrest : Frontier.Stands ⟨ps, zs, ms⟩
        (w.setCell (Tree.attributesOf id) (.map (Tree.entriesOfTexts attributes'))) := by
      refine (h.weaken (List.sublist_cons_self _ _) (List.Sublist.refl ms)).fades hf
        ⟨fun p hp place hc he => ?_, h.ne_map map, fun m hm he => ?_⟩ fun _ _ _ _ hg => hg
      · exact honly hmine bound p hp (he ▸ hc)
      · exact hfree m hm (he ▸ ⟨hmine, bound⟩)
    refine hrest.cons ?_ ?_ hapart hlists hfree
    · have hne : ∀ k : Nat, k < 2 → id + k ≠ Tree.attributesOf id := by
        intro k hk he
        simp only [Tree.attributesOf] at he
        omega
      refine .element link ((World.setCell_other _ (hne 0 (by omega))).trans record)
        ((World.setCell_other _ (hne 1 (by omega))).trans list)
        (World.setCell_self _ (World.lt_of_getElem? map)) bound nodes within apart
        fun p hp => (below p hp).fades (fun _ hq => hq) (hf.under id) fun place hc => ⟨?_, fun hg => hg⟩
      rintro rfl
      exact absurd (Nat.lt_of_lt_of_le (within p hp).1 hc.1) (Nat.lt_irrefl _)
    · rw [World.size_setCell]
      exact hbound

/-- When attributes are not needed any more, anything may come in their place. -/
theorem Stands.unpin {m : ObjectId × Entries} (h : Frontier.Stands ⟨ps, zs, m :: ms⟩ w) (c : Cell) :
    Frontier.Stands ⟨ps, zs, ms⟩ (w.setCell m.1 c) := by
  have hf : Fades (· ≠ m.1) (fun _ => False) (links ⟨ps, zs, ms⟩) w (w.setCell m.1 c) :=
    fades_setMap c
  refine (h.weaken (List.Sublist.refl ps) (List.sublist_cons_self m ms)).fades hf
    ⟨fun p hp place hc => ?_, h.ne_map (h.maps m List.mem_cons_self), fun m' hm' he => ?_⟩
    fun _ _ _ _ hg => hg
  · rintro rfl
    exact h.free m List.mem_cons_self p hp hc
  · exact (List.nodup_cons.1 h.distinct).1 (List.mem_map.2 ⟨m', hm', he⟩)

end Element

end Frontier

end PageTemplate
