import PageTemplate.Proofs.Tree.Forest

/-!
# PageTemplate.Proofs.Tree.Operations

What the operations on trees do to a view: taking a node out, putting nodes in, replacing,
stealing and stripping. As long as nodes are linked to nodes only, none of them calls a function, and
none fails but where it says so itself.
-/

namespace PageTemplate

/-- An action, run in a store that shows a view, succeeds as a tree step. -/
def Does (env : Env) (w : World) (V : View) {α : Type} (action : M α) (a : α) (V' : View) : Prop :=
  ∃ w', M.run' env w action = (.ok a, w') ∧ TreeStep w V w' V'

namespace Does

variable {env : Env} {w : World} {V V' V'' : View} {α β : Type}

theorem pure (h : Shows w V) (a : α) : Does env w V (pure a : M α) a V := ⟨w, rfl, .refl h⟩

theorem bind {x : M α} {f : α → M β} {a : α} {b : β} (hx : Does env w V x a V')
    (hf : ∀ w', TreeStep w V w' V' → Does env w' V' (f a) b V'') : Does env w V (x >>= f) b V'' := by
  obtain ⟨w', hr, hs⟩ := hx
  obtain ⟨w'', hr', hs'⟩ := hf w' hs
  exact ⟨w'', (M.run'_bind_ok hr).trans hr', hs.trans hs'⟩

/-- After a first action that only asks. -/
theorem bind_of_run {x : M α} {f : α → M β} {a : α} {b : β} (hr : M.run' env w x = (.ok a, w))
    (hf : Does env w V (f a) b V') : Does env w V (x >>= f) b V' := by
  obtain ⟨w', hr', hs⟩ := hf
  exact ⟨w', (M.run'_bind_ok hr).trans hr', hs⟩

theorem cast {x : M α} {a : α} (h : Does env w V x a V') (he : V' = V'') : Does env w V x a V'' :=
  he ▸ h

end Does

namespace View

/-- Whether a node is a fragment. -/
def IsFragment (V : View) (v : ObjectId) : Prop := V.core v = some .fragment

instance (V : View) (v : ObjectId) : Decidable (V.IsFragment v) :=
  match h : V.core v with
  | some .fragment => .isTrue h
  | none | some (.element _) | some (.text ..) | some (.code _) | some (.comment _)
  | some (.doctype _) | some .document => .isFalse (by simp [IsFragment, h])

/-- The nodes that are inserted when a node is: the children of a fragment, otherwise the node. -/
def inserted (V : View) (v : ObjectId) : List ObjectId :=
  if V.IsFragment v then V.children v else [v]

/-- A view after the nodes to be inserted were taken out of their places. -/
def release (V : View) (v : ObjectId) : View :=
  if V.IsFragment v then V.takeChildren v else V.detach v

def append (V : View) (p v : ObjectId) : View :=
  (V.release v).insert p ((V.release v).children p ++ V.inserted v) (V.inserted v)

def prepend (V : View) (p v : ObjectId) : View :=
  (V.release v).insert p (V.inserted v ++ (V.release v).children p) (V.inserted v)

/-- Nodes put in the place of a child. -/
def substitute (V : View) (p old : ObjectId) (nodes : List ObjectId) : View :=
  (V.detach old).insert p
    (Tree.spliceAt ((V.children p).idxOf? old) nodes (V.children p)) nodes

def replaceWith (V : View) (old r : ObjectId) : View :=
  match V.parent old with
  | none => V
  | some p => if r = old then V else (V.release r).substitute p old (V.inserted r)

def stealChildren (V : View) (target source : ObjectId) : View :=
  (V.takeChildren source).insert target
    ((V.takeChildren source).children target ++ V.children source) (V.children source)

end View

namespace Tree

variable {env : Env} {w : World} {V : View}

theorem does_setParent (h : Shows w V) {c : ObjectId} {core : NodeCore} (hc : V.core c = some core)
    (p : Option ObjectId) : Does env w V (setParent (.object c) p) () (V.setParent c p) :=
  ⟨_, run'_setParent (h.record c core hc) p, .setParent h hc p⟩

theorem does_setParents (h : Shows w V) {cs : List ObjectId}
    (hc : ∀ c ∈ cs, ∃ core, V.core c = some core) (p : Option ObjectId) :
    Does env w V (setParents p (cs.map .object)) () (V.setParents cs p) := by
  induction cs generalizing w V with
  | nil =>
    have : V.setParents [] p = V := by simp [View.setParents]
    rw [this]
    exact .pure h ()
  | cons c cs ih =>
    obtain ⟨core, hcore⟩ := hc c List.mem_cons_self
    refine (does_setParent h hcore p).bind fun w' hs => ?_
    have := ih hs.shows fun c' hm => hc c' (List.mem_cons_of_mem c hm)
    exact this.cast (View.setParents_cons V c cs p)

/-- The children of a node, as they are asked for. -/
theorem run'_children (hs : Shows w V) {e : ObjectId} {core : NodeCore} (he : V.core e = some core)
    (hh : core.hasChildren) :
    M.run' env w (children (.object e)) = (.ok ((V.children e).map .object), w) := by
  rw [children, M.run'_bind_ok (run'_childList (hs.record e core he) hh)]
  exact ChildList.run'_toList (hs.list e core he hh)

/-- Taking a child off a list, on which it need not be. -/
theorem does_removeChild (h : Shows w V) {p : ObjectId} {core : NodeCore} (hp : V.core p = some core)
    (hh : core.hasChildren) (c : ObjectId) :
    Does env w V (ChildList.remove (.object (childrenOf p)) (.object c)) ()
      (V.setChildren p ((V.children p).erase c)) := by
  have hr : M.run' env w (ChildList.remove (.object (childrenOf p)) _) = _ :=
    ChildList.run'_remove (h.list p core hp hh) c
  by_cases hm : c ∈ V.children p
  · rw [if_pos hm] at hr
    exact ⟨_, hr, .setChildren h hp hh _⟩
  · rw [if_neg hm] at hr
    rw [List.erase_of_not_mem hm, View.setChildren_self]
    exact ⟨w, hr, .refl h⟩

/-- Detaching a node. -/
theorem does_remove (h : Shows w V) (hl : V.IsLinked) {c : ObjectId} {core : NodeCore}
    (hc : V.core c = some core) : Does env w V (remove (.object c)) () (V.detach c) := by
  refine .bind_of_run (run'_parent (h.record c core hc)) ?_
  cases hp : V.parent c with
  | none =>
    rw [View.detach_of_root hp]
    exact .pure h ()
  | some p =>
    obtain ⟨pcore, hpc, hh⟩ := hl.container c p ⟨core, hc⟩ hp
    rw [View.detach_of_child hp]
    refine .bind_of_run (run'_childList (h.record p pcore hpc) hh) ?_
    refine (does_removeChild h hpc hh c).bind fun w' hs => ?_
    exact does_setParent hs.shows (V := (V.setChildren p ((V.children p).erase c))) hc none

/-- Taking the children out of a fragment, or a node out of its place, for a new parent. -/
theorem does_adopt (h : Shows w V) (hl : V.IsLinked) (p : ObjectId) {v : ObjectId}
    {core : NodeCore} (hv : V.core v = some core) :
    Does env w V (adopt p (.object v)) ((V.inserted v).map .object)
      ((V.release v).setParents (V.inserted v) (some p)) := by
  refine .bind_of_run (run'_kind (h.record v core hv)) ?_
  by_cases hfrag : core = .fragment
  · subst hfrag
    have hfrag' : V.IsFragment v := hv
    have hhas : NodeCore.fragment.hasChildren := rfl
    simp only [NodeCore.kind, beq_self_eq_true, if_true, View.inserted, View.release, hfrag']
    refine .bind_of_run (run'_childList (h.record v _ hv) hhas) ?_
    refine Does.bind ⟨_, ChildList.run'_takeAll (h.list v _ hv hhas), .setChildren h hv hhas []⟩
      fun w1 hs1 => ?_
    have hcs : ∀ c ∈ V.children v, V.Known c := fun c hm => hl.child v c ⟨_, hv⟩ hm
    refine (does_setParents hs1.shows hcs (some p)).bind fun w2 hs2 => ?_
    refine (Does.pure hs2.shows _).cast ?_
    simp only [View.setParents, View.takeChildren, View.mk.injEq, true_and, and_true]
    funext id
    split <;> rfl
  · have hk : (some core.kind == some NodeKind.fragment) = false := by
      cases core <;> simp_all [NodeCore.kind]
    have hfrag' : ¬ V.IsFragment v := by
      intro hf'
      rw [View.IsFragment, hv] at hf'
      exact hfrag (Option.some.inj hf')
    simp only [hk, Bool.false_eq_true, if_false, View.inserted, View.release, hfrag']
    refine (does_remove h hl hv).bind fun w1 hs1 => ?_
    have hv1 : (V.detach v).core v = some core := by simpa using hv
    refine (does_setParent hs1.shows hv1 (some p)).bind fun w2 hs2 => ?_
    refine (Does.pure hs2.shows _).cast ?_
    simp [View.setParents, View.setParent]

@[simp] theorem release_core (V : View) (v : ObjectId) : (V.release v).core = V.core := by
  simp only [View.release]
  split
  · rfl
  · exact View.detach_core V v

theorem does_append (h : Shows w V) (hl : V.IsLinked) {p v : ObjectId} {pcore vcore : NodeCore}
    (hp : V.core p = some pcore) (hh : pcore.hasChildren) (hv : V.core v = some vcore)
    (hne : v ≠ p) :
    Does env w V (append (.object p) (.object v)) () (V.append p v) := by
  have hne' : (Value.object v).strictlyEqual (.object p) = false := by
    simpa [Value.strictlyEqual, Value.identicalBy] using hne
  simp only [append, hne', Bool.false_eq_true, if_false]
  refine .bind_of_run (run'_childList (h.record p pcore hp) hh) ?_
  refine (does_adopt h hl p hv).bind fun w1 hs1 => ?_
  have hp1 : ((V.release v).setParents (V.inserted v) (some p)).core p = some pcore := by
    simpa [View.setParents] using hp
  exact ⟨_, ChildList.run'_push (hs1.shows.list p pcore hp1 hh) _, .setChildren hs1.shows hp1 hh _⟩

theorem run'_append_self (p : ObjectId) :
    M.run' env w (append (.object p) (.object p)) = (.error .selfAppend, w) := by
  have : (Value.object p).strictlyEqual (.object p) = true := by
    simp [Value.strictlyEqual, Value.identicalBy]
  simp [append, this, M.run'_bind]

theorem does_prepend (h : Shows w V) (hl : V.IsLinked) {p v : ObjectId} {pcore vcore : NodeCore}
    (hp : V.core p = some pcore) (hh : pcore.hasChildren) (hv : V.core v = some vcore) :
    Does env w V (prepend (.object p) (.object v)) () (V.prepend p v) := by
  refine .bind_of_run (run'_childList (h.record p pcore hp) hh) ?_
  refine (does_adopt h hl p hv).bind fun w1 hs1 => ?_
  have hp1 : ((V.release v).setParents (V.inserted v) (some p)).core p = some pcore := by
    simpa [View.setParents] using hp
  exact ⟨_, ChildList.run'_unshift (hs1.shows.list p pcore hp1 hh) _,
    .setChildren hs1.shows hp1 hh _⟩

theorem not_mem_inserted {old r p : ObjectId} (hne : r ≠ old)
    (hold : (V.release r).parent old = some p) : old ∉ V.inserted r := by
  simp only [View.inserted, View.release] at *
  split at hold
  · rename_i hfrag
    rw [View.takeChildren_parent] at hold
    split at hold
    · cases hold
    · rename_i hm
      simpa only [hfrag, if_true] using hm
  · rename_i hfrag
    simpa only [hfrag, if_false, List.mem_singleton] using Ne.symm hne

/-- Replacing a node that has a parent: what is to be inserted is taken out, and what is left of the
child list is searched for the old node. -/
theorem does_replaceWith_of_parent (h : Shows w V) (hl : V.IsLinked) {old r p : ObjectId}
    {ocore rcore : NodeCore} (ho : V.core old = some ocore) (hr : V.core r = some rcore)
    (hne : r ≠ old) (hpar : V.parent old = some p) :
    Does env w V (replaceWith (.object old) (.object r)) ()
      ((((V.release r).setParents (V.inserted r) (some p)).setChildren p
        (spliceAt (((V.release r).children p).idxOf? old) (V.inserted r)
          ((V.release r).children p))).setParent old none) := by
  obtain ⟨pcore, hpc, hh⟩ := hl.container old p ⟨ocore, ho⟩ hpar
  have hne' : (Value.object r).strictlyEqual (.object old) = false := by
    simpa [Value.strictlyEqual, Value.identicalBy] using hne
  refine .bind_of_run (run'_parent (h.record old ocore ho)) ?_
  simp only [hpar, parentValue, Value.isTruthy, Bool.not_true, Bool.false_eq_true, if_false, hne']
  refine (does_adopt h hl p hr).bind fun w1 hs1 => ?_
  have hp1 : ((V.release r).setParents (V.inserted r) (some p)).core p = some pcore := by
    simpa [View.setParents] using hpc
  refine .bind_of_run (run'_childList (hs1.shows.record p pcore hp1) hh) ?_
  refine Does.bind ⟨_, ChildList.run'_substitute (hs1.shows.list p pcore hp1 hh) old _,
    .setChildren hs1.shows hp1 hh _⟩ fun w2 hs2 => ?_
  have ho2 : (((V.release r).setParents (V.inserted r) (some p)).setChildren p
      (spliceAt (((V.release r).children p).idxOf? old) (V.inserted r)
        ((V.release r).children p))).core old = some ocore := by
    simpa [View.setParents, View.setChildren] using ho
  exact does_setParent hs2.shows ho2 none

/-- Replacing a node that has a parent, and keeps it while the replacement is taken out. -/
theorem does_replaceWith (h : Shows w V) (hl : V.IsLinked) {old r p : ObjectId}
    {ocore rcore : NodeCore} (ho : V.core old = some ocore) (hr : V.core r = some rcore)
    (hne : r ≠ old) (hpar : V.parent old = some p)
    (hold : (V.release r).parent old = some p) :
    Does env w V (replaceWith (.object old) (.object r)) () (V.replaceWith old r) := by
  refine (does_replaceWith_of_parent h hl ho hr hne hpar).cast ?_
  have hmem := not_mem_inserted hne hold
  simp only [View.replaceWith, hpar, hne, if_false, View.substitute, View.detach_of_child hold,
    View.insert, View.setParent, View.setParents, View.setChildren, View.mk.injEq, true_and,
    and_true]
  constructor
  · funext id
    by_cases hid : id = old
    · simp [hid, hmem]
    · simp [hid]
  · funext id
    by_cases hid : id = p
    · simp [hid]
    · simp [hid]

theorem run'_replaceWith_self {old p : ObjectId} {core : NodeCore}
    (h : w.cells[old]? = some (nodeCell old core (some p))) :
    M.run' env w (replaceWith (.object old) (.object old)) = (.ok (), w) := by
  have : (Value.object old).strictlyEqual (.object old) = true := by
    simp [Value.strictlyEqual, Value.identicalBy]
  rw [replaceWith, M.run'_bind_ok (run'_parent h)]
  simp [parentValue, Value.isTruthy, this]

theorem does_stealChildren (h : Shows w V) (hl : V.IsLinked) {t s : ObjectId}
    {tcore score : NodeCore} (ht : V.core t = some tcore) (hth : tcore.hasChildren)
    (hs : V.core s = some score) (hsh : score.hasChildren) :
    Does env w V (stealChildren (.object t) (.object s)) () (V.stealChildren t s) := by
  refine .bind_of_run (run'_childList (h.record s score hs) hsh) ?_
  refine Does.bind ⟨_, ChildList.run'_takeAll (h.list s score hs hsh), .setChildren h hs hsh []⟩
    fun w1 hs1 => ?_
  refine .bind_of_run rfl ?_
  have hcs : ∀ c ∈ V.children s, V.Known c := fun c hm => hl.child s c ⟨_, hs⟩ hm
  refine (does_setParents hs1.shows hcs (some t)).bind fun w2 hs2 => ?_
  refine .bind_of_run (run'_childList (hs2.shows.record t tcore ht) hth) ?_
  have hpush : Does env w2 _ (ChildList.push (.object (childrenOf t))
      ((V.children s).map .object)) () _ :=
    ⟨_, ChildList.run'_push (hs2.shows.list t tcore ht hth) _, .setChildren hs2.shows ht hth _⟩
  refine hpush.cast ?_
  simp only [View.stealChildren, View.takeChildren, View.insert, View.setParents,
    View.setChildren, View.mk.injEq, true_and, and_true]
  funext id
  split <;> rfl

theorem does_removeChildren (h : Shows w V) (hl : V.IsLinked) {p : ObjectId} {core : NodeCore}
    (hp : V.core p = some core) (hh : core.hasChildren) :
    Does env w V (removeChildren (.object p)) () (V.takeChildren p) := by
  refine .bind_of_run (run'_childList (h.record p core hp) hh) ?_
  refine Does.bind ⟨_, ChildList.run'_takeAll (h.list p core hp hh), .setChildren h hp hh []⟩
    fun w1 hs1 => ?_
  exact does_setParents hs1.shows (fun c hm => hl.child p c ⟨_, hp⟩ hm) none

/-! New nodes. -/

theorem does_allocNode (h : Shows w V) (core : NodeCore) (attributes : Entries) :
    Does env w V (allocNode core attributes) w.cells.size
      (V.add w.cells.size core attributes) :=
  ⟨_, Store.run'_allocAll _, .add h core attributes⟩

/-- A new fragment or document without children. -/
theorem does_plantWithin_nil (h : Shows w V) {core : NodeCore} (hh : core.hasChildren) :
    Does env w V (plantWithin core []) w.cells.size (V.add w.cells.size core []) := by
  refine (does_allocNode h core []).bind fun w1 hs1 => ?_
  refine .bind_of_run (a := []) rfl ?_
  have hc : (V.add w.cells.size core []).core w.cells.size = some core := by
    simp [View.add]
  have hset : Does env w1 (V.add w.cells.size core [])
      (Store.setCell (childrenOf w.cells.size) (listCell [])) ()
      ((V.add w.cells.size core []).setChildren w.cells.size []) :=
    ⟨_, Store.run'_setCell _ _, .setChildren hs1.shows hc hh []⟩
  refine hset.bind fun w2 hs2 => ?_
  refine (Does.pure hs2.shows _).cast ?_
  simp only [View.setChildren, View.add, View.mk.injEq, true_and, and_true]
  funext id
  split <;> rfl

end Tree

end PageTemplate
