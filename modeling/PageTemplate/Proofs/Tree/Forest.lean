import Mathlib.Data.List.Perm.Basic
import Mathlib.Logic.Relation
import PageTemplate.Proofs.Tree.Step

/-!
# PageTemplate.Proofs.Tree.Forest

Forests: views in which the parent links and the child lists say the same thing. Taking nodes out
of their places keeps a forest a forest, and so does putting roots among the children of a node
that is not below them.
-/

namespace PageTemplate

namespace NodeCore

/-- Whether a node can have a parent: fragments and documents cannot. -/
def isInner (core : NodeCore) : Bool := core.kind != .fragment && core.kind != .document

end NodeCore

namespace View

/-- Whether a node lies above another one. -/
def Above (V : View) (a c : ObjectId) : Prop :=
  Relation.TransGen (fun x y => V.parent x = some y) c a

/-- Whether a node is of a kind that can have children. -/
def Container (V : View) (p : ObjectId) : Prop := ∃ core, V.core p = some core ∧ core.hasChildren

/-- Whether there is a node at a place. -/
def Known (V : View) (x : ObjectId) : Prop := ∃ core, V.core x = some core

/-- Whether a node is of a kind that can have a parent. -/
def Inner (V : View) (c : ObjectId) : Prop := ∃ core, V.core c = some core ∧ core.isInner

/-- Parent links and child lists agree, every child is listed once, and going up comes to an end. -/
structure IsForest (V : View) : Prop where
  mem_children : ∀ p c, c ∈ V.children p ↔ V.parent c = some p
  inner : ∀ c p, V.parent c = some p → V.Inner c
  container : ∀ c p, V.parent c = some p → V.Container p
  nodup : ∀ p, (V.children p).Nodup
  ranked : ∃ rank : ObjectId → Nat, ∀ c p, V.parent c = some p → rank p < rank c

/-- Whether the parents and the children of nodes are nodes of the view, too. The two need not
agree. -/
structure IsLinked (V : View) : Prop where
  child : ∀ p c, V.Known p → c ∈ V.children p → V.Known c
  container : ∀ c p, V.Known c → V.parent c = some p → V.Container p

/-- The view without nodes. -/
def empty : View := ⟨fun _ => none, fun _ => none, fun _ => [], fun _ => []⟩

theorem shows_empty (w : World) : Shows w empty := by
  constructor
  all_goals
    intro _ _ h
    cases h

theorem isForest_empty : empty.IsForest where
  mem_children _ _ := by simp [empty]
  inner _ _ h := by cases h
  container _ _ h := by cases h
  nodup _ := by simp [empty]
  ranked := ⟨fun _ => 0, fun _ _ h => by cases h⟩

namespace IsForest

variable {V : View}

theorem rank_lt {rank : ObjectId → Nat} (h : ∀ c p, V.parent c = some p → rank p < rank c)
    {a c : ObjectId} (ha : V.Above a c) : rank a < rank c := by
  induction ha with
  | single hp => exact h _ _ hp
  | tail _ hp ih => exact Nat.lt_trans (h _ _ hp) ih

theorem isLinked (h : V.IsForest) : V.IsLinked where
  child p c _ hc := by
    obtain ⟨core, hcore, _⟩ := h.inner c p ((h.mem_children p c).1 hc)
    exact ⟨core, hcore⟩
  container c p _ hp := h.container c p hp

/-- No node lies above itself. -/
theorem acyclic (h : V.IsForest) (c : ObjectId) : ¬ V.Above c c := by
  obtain ⟨rank, hr⟩ := h.ranked
  exact fun ha => Nat.lt_irrefl _ (rank_lt hr ha)

theorem ne_of_parent (h : V.IsForest) {c p : ObjectId} (hp : V.parent c = some p) : c ≠ p := by
  rintro rfl
  exact h.acyclic c (.single hp)

end IsForest

/-! Taking nodes out. -/

/-- A node taken out of its place. -/
def detach (V : View) (c : ObjectId) : View :=
  match V.parent c with
  | some p => (V.setChildren p ((V.children p).erase c)).setParent c none
  | none => V

/-- All children taken out of a node. -/
def takeChildren (V : View) (p : ObjectId) : View :=
  (V.setChildren p []).setParents (V.children p) none

theorem detach_of_root {V : View} {c : ObjectId} (h : V.parent c = none) : V.detach c = V := by
  simp [detach, h]

theorem detach_of_child {V : View} {c p : ObjectId} (h : V.parent c = some p) :
    V.detach c = (V.setChildren p ((V.children p).erase c)).setParent c none := by
  simp [detach, h]

@[simp] theorem detach_core (V : View) (c : ObjectId) : (V.detach c).core = V.core := by
  simp only [detach]
  split <;> rfl

@[simp] theorem detach_attributes (V : View) (c : ObjectId) :
    (V.detach c).attributes = V.attributes := by
  simp only [detach]
  split <;> rfl

theorem detach_parent (V : View) (c x : ObjectId) :
    (V.detach c).parent x = if x = c then none else V.parent x := by
  cases h : V.parent c with
  | none =>
    rw [detach_of_root h]
    split
    · rename_i hx
      rw [hx, h]
    · rfl
  | some p =>
    rw [detach_of_child h]
    rfl

theorem detach_children {V : View} (h : V.IsForest) (c p : ObjectId) :
    (V.detach c).children p = (V.children p).erase c := by
  cases hc : V.parent c with
  | none =>
    have hm : c ∉ V.children p := fun hm => by
      rw [(h.mem_children p c).1 hm] at hc
      cases hc
    rw [detach_of_root hc, List.erase_of_not_mem hm]
  | some q =>
    rw [detach_of_child hc]
    by_cases hp : p = q
    · simp [setParent, setChildren, hp]
    · have hm : c ∉ V.children p := fun hm => by
        rw [(h.mem_children p c).1 hm] at hc
        exact hp (Option.some.inj hc)
      simp [setParent, setChildren, hp, List.erase_of_not_mem hm]

/-- Fewer links make no new paths. -/
theorem above_of_parent {V V' : View} (h : ∀ c p, V'.parent c = some p → V.parent c = some p)
    {a c : ObjectId} (ha : V'.Above a c) : V.Above a c :=
  Relation.TransGen.mono (fun x y hxy => h x y hxy) _ _ ha

theorem IsForest.detach {V : View} (h : V.IsForest) (c : ObjectId) : (V.detach c).IsForest where
  mem_children p x := by
    rw [detach_children h, detach_parent, (h.nodup p).mem_erase_iff, h.mem_children]
    by_cases hx : x = c
    · simp [hx]
    · simp [hx]
  inner x p hx := by
    rw [detach_parent] at hx
    split at hx
    · cases hx
    · simpa [Inner] using h.inner x p hx
  container x p hx := by
    rw [detach_parent] at hx
    split at hx
    · cases hx
    · simpa [Container] using h.container x p hx
  nodup p := by
    rw [detach_children h]
    exact (h.nodup p).erase c
  ranked := by
    obtain ⟨rank, hr⟩ := h.ranked
    refine ⟨rank, fun x p hx => ?_⟩
    rw [detach_parent] at hx
    split at hx
    · cases hx
    · exact hr x p hx

theorem takeChildren_parent (V : View) (p x : ObjectId) :
    (V.takeChildren p).parent x = if x ∈ V.children p then none else V.parent x := rfl

theorem takeChildren_children (V : View) (p x : ObjectId) :
    (V.takeChildren p).children x = if x = p then [] else V.children x := rfl

theorem IsForest.takeChildren {V : View} (h : V.IsForest) (p : ObjectId) :
    (V.takeChildren p).IsForest where
  mem_children q x := by
    rw [takeChildren_children, takeChildren_parent]
    by_cases hx : x ∈ V.children p
    · have hp := (h.mem_children p x).1 hx
      by_cases hq : q = p
      · simp [hx, hq]
      · have hn : x ∉ V.children q := fun hm => by
          rw [(h.mem_children q x).1 hm] at hp
          exact hq (Option.some.inj hp)
        simp [hx, hq, hn]
    · by_cases hq : q = p
      · have hn : V.parent x ≠ some p := fun hp => hx ((h.mem_children p x).2 hp)
        simp [hx, hq, hn]
      · simp [hx, hq, h.mem_children]
  inner x q hx := by
    rw [takeChildren_parent] at hx
    split at hx
    · cases hx
    · exact h.inner x q hx
  container x q hx := by
    rw [takeChildren_parent] at hx
    split at hx
    · cases hx
    · exact h.container x q hx
  nodup q := by
    rw [takeChildren_children]
    split
    · exact List.nodup_nil
    · exact h.nodup q
  ranked := by
    obtain ⟨rank, hr⟩ := h.ranked
    refine ⟨rank, fun x q hx => ?_⟩
    rw [takeChildren_parent] at hx
    split at hx
    · cases hx
    · exact hr x q hx

/-! Putting nodes in. -/

/-- Roots put among the children of a node, which are `ids` from then on. -/
def insert (V : View) (p : ObjectId) (ids nodes : List ObjectId) : View :=
  (V.setParents nodes (some p)).setChildren p ids

theorem insert_parent (V : View) (p : ObjectId) (ids nodes : List ObjectId) (x : ObjectId) :
    (V.insert p ids nodes).parent x = if x ∈ nodes then some p else V.parent x := rfl

theorem insert_children (V : View) (p : ObjectId) (ids nodes : List ObjectId) (x : ObjectId) :
    (V.insert p ids nodes).children x = if x = p then ids else V.children x := rfl

/-- Whether a node is one of some nodes or lies below one. -/
def Under (V : View) (nodes : List ObjectId) (x : ObjectId) : Prop :=
  ∃ n ∈ nodes, x = n ∨ V.Above n x

theorem Under.of_parent {V : View} {nodes : List ObjectId} {x p : ObjectId}
    (h : V.Under nodes p) (hp : V.parent x = some p) : V.Under nodes x := by
  obtain ⟨n, hn, rfl | ha⟩ := h
  · exact ⟨p, hn, .inr (.single hp)⟩
  · exact ⟨n, hn, .inr (.head hp ha)⟩

theorem IsForest.insert {V : View} (h : V.IsForest) {p : ObjectId} {ids nodes : List ObjectId}
    (hp : V.Container p) (hroot : ∀ n ∈ nodes, V.parent n = none) (hin : ∀ n ∈ nodes, V.Inner n)
    (hn : nodes.Nodup) (hids : ids.Perm (nodes ++ V.children p)) (hu : ¬ V.Under nodes p) :
    (V.insert p ids nodes).IsForest where
  mem_children q x := by
    rw [insert_children, insert_parent]
    by_cases hx : x ∈ nodes
    · by_cases hq : q = p
      · simp [hx, hq, hids.mem_iff]
      · have : x ∉ V.children q := fun hm => by
          have := (h.mem_children q x).1 hm
          rw [hroot x hx] at this
          cases this
        simp [hx, hq, this, Ne.symm hq]
    · by_cases hq : q = p
      · simp [hx, hq, hids.mem_iff, h.mem_children]
      · simp [hx, hq, h.mem_children]
  inner x q hx := by
    rw [insert_parent] at hx
    split at hx
    · rename_i hm
      exact hin x hm
    · exact h.inner x q hx
  container x q hx := by
    rw [insert_parent] at hx
    split at hx
    · cases hx
      exact hp
    · exact h.container x q hx
  nodup q := by
    rw [insert_children]
    split
    · refine (hids.nodup_iff).2 (List.nodup_append.2 ⟨hn, h.nodup p, ?_⟩)
      rintro a ha b hb rfl
      have := (h.mem_children p a).1 hb
      rw [hroot a ha] at this
      cases this
    · exact h.nodup q
  ranked := by
    -- What moves with the nodes gets ranks beyond that of their new parent.
    classical
    obtain ⟨rank, hr⟩ := h.ranked
    refine ⟨fun x => if V.Under nodes x then rank x + rank p + 1 else rank x, ?_⟩
    intro x q hx
    rw [insert_parent] at hx
    split at hx
    · rename_i hm
      cases hx
      have hux : V.Under nodes x := ⟨x, hm, .inl rfl⟩
      simp only [hux, hu, if_true, if_false]
      omega
    · have hlt := hr x q hx
      by_cases huq : V.Under nodes q
      · simp only [huq, huq.of_parent hx, if_true]
        omega
      · simp only [huq, if_false]
        split
        · omega
        · exact hlt

/-- A new node is a root without children. -/
theorem IsForest.add {V : View} (h : V.IsForest) {new : ObjectId} (hnew : V.core new = none)
    (core : NodeCore) (attributes : Entries) : (V.add new core attributes).IsForest := by
  have hpar : V.parent new = none := by
    cases hp : V.parent new with
    | none => rfl
    | some p =>
      obtain ⟨c, hc, _⟩ := h.inner new p hp
      rw [hnew] at hc
      cases hc
  have hup : ∀ x, V.parent x ≠ some new := by
    intro x hx
    obtain ⟨c, hc, _⟩ := h.container x new hx
    rw [hnew] at hc
    cases hc
  have hadd : ∀ x, (V.add new core attributes).parent x = V.parent x := by
    intro x
    by_cases hx : x = new
    · simp [View.add, hx, hpar]
    · simp [View.add, hx]
  have hkeep : ∀ x c, V.core x = some c → (V.add new core attributes).core x = some c := by
    intro x c hc
    have hx : x ≠ new := by
      rintro rfl
      rw [hnew] at hc
      cases hc
    simpa [View.add, hx] using hc
  constructor
  · intro p x
    rw [hadd]
    by_cases hp : p = new
    · simp [View.add, hp, hup]
    · simpa [View.add, hp] using h.mem_children p x
  · intro x p hx
    obtain ⟨c, hc, hi⟩ := h.inner x p ((hadd x) ▸ hx)
    exact ⟨c, hkeep x c hc, hi⟩
  · intro x p hx
    obtain ⟨c, hc, hi⟩ := h.container x p ((hadd x) ▸ hx)
    exact ⟨c, hkeep p c hc, hi⟩
  · intro p
    by_cases hp : p = new
    · simp [View.add, hp]
    · simpa [View.add, hp] using h.nodup p
  · obtain ⟨rank, hr⟩ := h.ranked
    exact ⟨rank, fun x p hx => hr x p ((hadd x) ▸ hx)⟩

/-! Linked nodes. -/

namespace IsLinked

variable {V : View}

theorem setParents (h : V.IsLinked) (cs : List ObjectId) {p : Option ObjectId}
    (hp : ∀ q, p = some q → V.Container q) : (V.setParents cs p).IsLinked where
  child := h.child
  container c q hc hq := by
    simp only [View.setParents] at hq
    split at hq
    · exact hp q hq
    · exact h.container c q hc hq

theorem setParent (h : V.IsLinked) (c : ObjectId) {p : Option ObjectId}
    (hp : ∀ q, p = some q → V.Container q) : (V.setParent c p).IsLinked where
  child := h.child
  container x q hx hq := by
    simp only [View.setParent] at hq
    split at hq
    · exact hp q hq
    · exact h.container x q hx hq

theorem setChildren (h : V.IsLinked) {p : ObjectId} {ids : List ObjectId}
    (hids : V.Known p → ∀ c ∈ ids, V.Known c) : (V.setChildren p ids).IsLinked where
  child q c hq hc := by
    simp only [View.setChildren] at hc
    split at hc
    · rename_i hqp
      exact hids (hqp ▸ hq) c hc
    · exact h.child q c hq hc
  container := h.container

/-- A new node is linked to none. -/
theorem add (h : V.IsLinked) {new : ObjectId} (hnew : V.core new = none) (core : NodeCore)
    (attributes : Entries) : (V.add new core attributes).IsLinked := by
  have hold : ∀ x c, V.core x = some c → (V.add new core attributes).core x = some c := by
    intro x c hc
    have hx : x ≠ new := by
      rintro rfl
      rw [hnew] at hc
      cases hc
    simpa [View.add, hx] using hc
  have hback : ∀ x, x ≠ new → (V.add new core attributes).Known x → V.Known x := by
    rintro x hx ⟨c, hc⟩
    exact ⟨c, by simpa [View.add, hx] using hc⟩
  constructor
  · intro p c hp hc
    by_cases hpn : p = new
    · simp [View.add, hpn] at hc
    · obtain ⟨ccore, hcc⟩ := h.child p c (hback p hpn hp) (by simpa [View.add, hpn] using hc)
      exact ⟨ccore, hold c ccore hcc⟩
  · intro c p hc hp
    by_cases hcn : c = new
    · simp [View.add, hcn] at hp
    · obtain ⟨pcore, hpc, hh⟩ :=
        h.container c p (hback c hcn hc) (by simpa [View.add, hcn] using hp)
      exact ⟨pcore, hold p pcore hpc, hh⟩

end IsLinked

/-- The attributes of an element are no links. -/
theorem IsForest.setAttributes {V : View} (h : V.IsForest) (e : ObjectId) (entries : Entries) :
    (V.setAttributes e entries).IsForest :=
  ⟨h.mem_children, h.inner, h.container, h.nodup, h.ranked⟩

end View

end PageTemplate
