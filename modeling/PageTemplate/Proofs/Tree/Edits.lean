import PageTemplate.Proofs.Tree.Clone

/-!
# PageTemplate.Proofs.Tree.Edits

The operations on trees keep forests, as long as no node is put below itself. What moves has been
taken out of its place before, so all that is left to ask is whether the new parent lies below it.
-/

namespace PageTemplate

namespace View

variable {V : View}

/-- Whether a node can be inserted: it can have a parent, or it is a fragment. -/
def Insertable (V : View) (v : ObjectId) : Prop := V.IsFragment v ∨ V.Inner v

theorem Insertable.core {v : ObjectId} (h : V.Insertable v) : ∃ core, V.core v = some core := by
  rcases h with hf | ⟨core, hc, _⟩
  · exact ⟨_, hf⟩
  · exact ⟨core, hc⟩

/-- Links that are still there after nodes were taken out were there before. -/
theorem parent_of_release {v c p : ObjectId} (h : (V.release v).parent c = some p) :
    V.parent c = some p := by
  simp only [release] at h
  split at h
  · rw [takeChildren_parent] at h
    split at h
    · cases h
    · exact h
  · rw [detach_parent] at h
    split at h
    · cases h
    · exact h

theorem Under.mono {V' : View} (h : ∀ c p, V'.parent c = some p → V.parent c = some p)
    {nodes : List ObjectId} {x : ObjectId} (hu : V'.Under nodes x) : V.Under nodes x := by
  obtain ⟨n, hn, rfl | ha⟩ := hu
  · exact ⟨x, hn, .inl rfl⟩
  · exact ⟨n, hn, .inr (above_of_parent h ha)⟩

@[simp] theorem takeChildren_core (V : View) (p : ObjectId) : (V.takeChildren p).core = V.core :=
  rfl

@[simp] theorem insert_core (V : View) (p : ObjectId) (ids nodes : List ObjectId) :
    (V.insert p ids nodes).core = V.core := rfl

@[simp] theorem append_core (V : View) (p v : ObjectId) : (V.append p v).core = V.core := by
  simp [append]

@[simp] theorem prepend_core (V : View) (p v : ObjectId) : (V.prepend p v).core = V.core := by
  simp [prepend]

@[simp] theorem substitute_core (V : View) (p old : ObjectId) (nodes : List ObjectId) :
    (V.substitute p old nodes).core = V.core := by
  simp [substitute]

@[simp] theorem replaceWith_core (V : View) (old r : ObjectId) :
    (V.replaceWith old r).core = V.core := by
  simp only [replaceWith]
  split
  · rfl
  · split
    · rfl
    · simp

@[simp] theorem release_attributes (V : View) (v : ObjectId) :
    (V.release v).attributes = V.attributes := by
  simp only [release]
  split
  · rfl
  · exact detach_attributes V v

@[simp] theorem substitute_attributes (V : View) (p old : ObjectId) (nodes : List ObjectId) :
    (V.substitute p old nodes).attributes = V.attributes := by
  rw [substitute]
  exact detach_attributes V old

@[simp] theorem replaceWith_attributes (V : View) (old r : ObjectId) :
    (V.replaceWith old r).attributes = V.attributes := by
  simp only [replaceWith]
  split
  · rfl
  · split
    · rfl
    · simp

@[simp] theorem setAttributes_attributes (V : View) (e : ObjectId) (entries : Entries) :
    (V.setAttributes e entries).attributes e = entries := if_pos rfl

@[simp] theorem setAttributes_setAttributes (V : View) (e : ObjectId) (entries more : Entries) :
    (V.setAttributes e entries).setAttributes e more = V.setAttributes e more := by
  simp only [setAttributes, View.mk.injEq, true_and]
  funext id
  split <;> rfl

theorem setAttributes_self (V : View) (e : ObjectId) :
    V.setAttributes e (V.attributes e) = V := by
  have : (fun id => if id = e then V.attributes e else V.attributes id) = V.attributes := by
    funext id
    split
    · rename_i h
      rw [h]
    · rfl
  rw [setAttributes, this]

@[simp] theorem stealChildren_core (V : View) (t s : ObjectId) :
    (V.stealChildren t s).core = V.core := rfl

theorem Inner.not_isFragment {c : ObjectId} (h : V.Inner c) : ¬ V.IsFragment c := by
  obtain ⟨core, hc, hi⟩ := h
  intro hf
  cases hc.symm.trans hf
  cases hi

theorem Inner.of_core {V' : View} (hc : V'.core = V.core) {c : ObjectId} (h : V.Inner c) :
    V'.Inner c := by
  rwa [Inner, hc]

theorem Container.of_core {V' : View} (hc : V'.core = V.core) {p : ObjectId} (h : V.Container p) :
    V'.Container p := by
  rwa [Container, hc]

namespace IsForest

theorem release (h : V.IsForest) (v : ObjectId) : (V.release v).IsForest := by
  simp only [View.release]
  split
  · exact h.takeChildren v
  · exact h.detach v

theorem inserted_inner (h : V.IsForest) {v : ObjectId} (hv : V.Insertable v) :
    ∀ n ∈ V.inserted v, V.Inner n := by
  intro n hn
  simp only [inserted] at hn
  split at hn
  · exact h.inner n v ((h.mem_children v n).1 hn)
  · rename_i hf
    rw [List.mem_singleton.1 hn]
    exact hv.resolve_left hf

theorem inserted_nodup (h : V.IsForest) (v : ObjectId) : (V.inserted v).Nodup := by
  simp only [inserted]
  split
  · exact h.nodup v
  · simp

/-- What is to be inserted has no parent any more. -/
theorem inserted_root (v : ObjectId) : ∀ n ∈ V.inserted v, (V.release v).parent n = none := by
  intro n hn
  simp only [inserted] at hn
  simp only [View.release]
  split at hn
  · rename_i hf
    rw [if_pos hf, takeChildren_parent, if_pos hn]
  · rename_i hf
    rw [if_neg hf, detach_parent, if_pos (List.mem_singleton.1 hn)]

/-- Putting released nodes among the children of a node. -/
theorem insert_released (h : V.IsForest) {p v : ObjectId} (hp : V.Container p)
    (hv : V.Insertable v) (hu : ¬ V.Under (V.inserted v) p) {ids : List ObjectId}
    (hids : ids.Perm (V.inserted v ++ (V.release v).children p)) :
    ((V.release v).insert p ids (V.inserted v)).IsForest := by
  have hcore : (V.release v).core = V.core := Tree.release_core V v
  refine (h.release v).insert (hp.of_core hcore) (inserted_root v) ?_ (h.inserted_nodup v) hids ?_
  · exact fun n hn => (h.inserted_inner hv n hn).of_core hcore
  · exact fun hu' => hu (hu'.mono fun _ _ => parent_of_release)

theorem append (h : V.IsForest) {p v : ObjectId} (hp : V.Container p) (hv : V.Insertable v)
    (hu : ¬ V.Under (V.inserted v) p) : (V.append p v).IsForest :=
  h.insert_released hp hv hu List.perm_append_comm

theorem prepend (h : V.IsForest) {p v : ObjectId} (hp : V.Container p) (hv : V.Insertable v)
    (hu : ¬ V.Under (V.inserted v) p) : (V.prepend p v).IsForest :=
  h.insert_released hp hv hu (List.Perm.refl _)

/-- Putting members in the place of a member of a list. -/
theorem perm_spliceAt {old : ObjectId} {ids nodes : List ObjectId} (hm : old ∈ ids) :
    (Tree.spliceAt (ids.idxOf? old) nodes ids).Perm (nodes ++ ids.erase old) := by
  have hi : ids.idxOf? old = some (ids.idxOf old) := by
    rw [List.idxOf_eq_getD_idxOf?]
    cases he : ids.idxOf? old with
    | none => exact absurd hm (by simpa using he)
    | some i => rfl
  have he : ids.erase old = ids.take (ids.idxOf old) ++ ids.drop (ids.idxOf old + 1) := by
    rw [List.erase_eq_eraseIdx, hi]
    exact List.eraseIdx_eq_take_drop_succ ids _
  rw [Tree.spliceAt, hi, he, Option.getD_some, List.append_assoc]
  exact (List.perm_append_comm_assoc _ _ _)

theorem substitute (h : V.IsForest) {p old : ObjectId} {nodes : List ObjectId}
    (hold : V.parent old = some p) (hroot : ∀ n ∈ nodes, V.parent n = none)
    (hin : ∀ n ∈ nodes, V.Inner n) (hn : nodes.Nodup) (hu : ¬ V.Under nodes p) :
    (V.substitute p old nodes).IsForest := by
  have hcore : (V.detach old).core = V.core := detach_core V old
  have hmono : ∀ c q, (V.detach old).parent c = some q → V.parent c = some q := by
    intro c q hq
    rw [detach_parent] at hq
    split at hq
    · cases hq
    · exact hq
  refine (h.detach old).insert ((h.container old p hold).of_core hcore) ?_ ?_ hn ?_ ?_
  · intro n hm
    rw [detach_parent]
    split
    · rfl
    · exact hroot n hm
  · exact fun n hm => (hin n hm).of_core hcore
  · rw [detach_children h]
    exact perm_spliceAt ((h.mem_children p old).2 hold)
  · exact fun hu' => hu (hu'.mono hmono)

/-- A node that is replaced keeps its parent while the replacement is taken out of its place. -/
theorem parent_release (h : V.IsForest) {old r p : ObjectId} (hold : V.parent old = some p)
    (hne : r ≠ old) (hr : r ≠ p) : (V.release r).parent old = some p := by
  simp only [View.release]
  split
  · have hm : old ∉ V.children r := fun hm => by
      rw [(h.mem_children r old).1 hm] at hold
      exact hr (Option.some.inj hold)
    rw [takeChildren_parent, if_neg hm, hold]
  · rw [detach_parent, if_neg (Ne.symm hne), hold]

theorem replaceWith (h : V.IsForest) {old r : ObjectId} (hr : V.Insertable r)
    (hu : ∀ p, V.parent old = some p → r ≠ p ∧ ¬ V.Under (V.inserted r) p) :
    (V.replaceWith old r).IsForest := by
  simp only [View.replaceWith]
  split
  · exact h
  · rename_i p hold
    obtain ⟨hrp, hup⟩ := hu p hold
    split
    · exact h
    · rename_i hne
      have hcore : (V.release r).core = V.core := Tree.release_core V r
      refine (h.release r).substitute (h.parent_release hold hne hrp) (inserted_root r) ?_
        (h.inserted_nodup r) ?_
      · exact fun n hn => (h.inserted_inner hr n hn).of_core hcore
      · exact fun hu' => hup (hu'.mono fun _ _ => parent_of_release)

/-- Nothing lies below a leaf. -/
theorem not_above_leaf (h : V.IsForest) {l x : ObjectId} {core : NodeCore}
    (hl : V.core l = some core) (hh : core.hasChildren = false) : ¬ V.Above l x := by
  intro ha
  obtain ⟨y, _, hy⟩ := Relation.TransGen.tail'_iff.1 ha
  obtain ⟨lcore, hlc, hlh⟩ := h.container y l hy
  cases hl.symm.trans hlc
  rw [hh] at hlh
  cases hlh

theorem children_leaf (h : V.IsForest) {l : ObjectId} {core : NodeCore}
    (hl : V.core l = some core) (hh : core.hasChildren = false) : V.children l = [] :=
  List.eq_nil_iff_forall_not_mem.2 fun x hx =>
    h.not_above_leaf hl hh (.single ((h.mem_children l x).1 hx))

theorem stealChildren (h : V.IsForest) {t s : ObjectId} (ht : V.Container t)
    (hu : ¬ V.Under (V.children s) t) : (V.stealChildren t s).IsForest := by
  refine (h.takeChildren s).insert ht ?_ ?_ (h.nodup s) List.perm_append_comm ?_
  · intro n hn
    rw [takeChildren_parent, if_pos hn]
  · exact fun n hn => h.inner n s ((h.mem_children s n).1 hn)
  · refine fun hu' => hu (hu'.mono fun c p hp => ?_)
    rw [takeChildren_parent] at hp
    split at hp
    · cases hp
    · exact hp

theorem stealChildren_parent (t s x : ObjectId) :
    (V.stealChildren t s).parent x = if x ∈ V.children s then some t else V.parent x := by
  rw [View.stealChildren, insert_parent, takeChildren_parent]
  split <;> rfl

/-- Where the children of a node have gone to a root, the place of the node is not below them. -/
theorem not_under_stolen (h : V.IsForest) {r e p : ObjectId} (hr : V.parent r = none)
    (hp : V.parent e = some p) : ¬ (V.stealChildren r e).Under (V.children e) p := by
  rintro ⟨n, hn, hu⟩
  have hne : V.parent n = some e := (h.mem_children e n).1 hn
  have hnr : n ≠ r := by
    rintro rfl
    rw [hr] at hne
    cases hne
  have hrm : r ∉ V.children e := fun hm => by
    rw [(h.mem_children e r).1 hm] at hr
    cases hr
  -- A way up that enters `r` ends there, and `n` is not `r`.
  have hup : ∀ x, (V.stealChildren r e).Above n x → V.Above n x := by
    intro x ha
    induction ha using Relation.TransGen.head_induction_on with
    | single hx =>
      rw [stealChildren_parent] at hx
      split at hx
      · exact absurd (Option.some.inj hx).symm hnr
      · exact .single hx
    | head hx ha ih =>
      rw [stealChildren_parent] at hx
      split at hx
      · cases hx
        obtain ⟨y, hy, _⟩ := Relation.TransGen.head'_iff.1 ha
        rw [stealChildren_parent, if_neg hrm, hr] at hy
        cases hy
      · exact .head hx ih
  have hne' : V.Above n e := by
    rcases hu with rfl | ha
    · exact .single hp
    · exact .head hp (hup p ha)
  exact h.acyclic e (hne'.tail hne)

end IsForest

end View

namespace Tree

open View

variable {env : Env} {w : World} {V : View}

/-- An operation on a regular forest that leads to a forest of the same nodes. -/
theorem leads_of_does {α : Type} {action : M α} {a : α} {V' : View} (hg : V.IsRegular)
    (h : Does env w V action a V') (hf : V'.IsForest) (hc : V'.core = V.core) :
    Leads env w V action fun b V'' => b = a ∧ V'' = V' :=
  .of_does h (hg.of_core hf hc) ⟨rfl, rfl⟩

theorem leads_append (h : Shows w V) (hg : V.IsRegular) {p v : ObjectId} (hp : V.Container p)
    (hv : V.Insertable v) (hu : ¬ V.Under (V.inserted v) p) :
    Leads env w V (append (.object p) (.object v)) fun _ V' => V' = V.append p v := by
  by_cases hne : v = p
  · rw [hne]
    exact .of_error h hg (run'_append_self p)
  · obtain ⟨pcore, hpc, hh⟩ := hp
    obtain ⟨vcore, hvc⟩ := hv.core
    have hf := hg.toIsForest.append ⟨pcore, hpc, hh⟩ hv hu
    exact (leads_of_does hg (does_append h hg.toIsForest.isLinked hpc hh hvc hne) hf (append_core V p v)).imp
      fun _ _ hq => hq.2

theorem leads_prepend (h : Shows w V) (hg : V.IsRegular) {p v : ObjectId} (hp : V.Container p)
    (hv : V.Insertable v) (hu : ¬ V.Under (V.inserted v) p) :
    Leads env w V (prepend (.object p) (.object v)) fun _ V' => V' = V.prepend p v := by
  obtain ⟨pcore, hpc, hh⟩ := hp
  obtain ⟨vcore, hvc⟩ := hv.core
  have hf := hg.toIsForest.prepend ⟨pcore, hpc, hh⟩ hv hu
  exact (leads_of_does hg (does_prepend h hg.toIsForest.isLinked hpc hh hvc) hf (prepend_core V p v)).imp
    fun _ _ hq => hq.2

/-- A node is described without calling anything. -/
theorem run'_describe (h : Shows w V) (ho : V.IsOrderly) {v : ObjectId} {core : NodeCore}
    (hv : V.core v = some core) :
    ∃ words, M.run' env w (describe (.object v)) = (.ok words, w) := by
  have hrec := h.record v core hv
  rw [describe, M.run'_bind_ok (run'_kind hrec)]
  cases core with
  | element tag =>
    obtain ⟨t, rfl⟩ := ho.tags v tag hv
    simp only [NodeCore.kind]
    rw [M.run'_bind_ok (run'_tag hrec)]
    exact ⟨_, rfl⟩
  | _ => exact ⟨_, rfl⟩

/-- A node without a parent cannot be replaced. -/
theorem run'_replaceWith_detached (h : Shows w V) (ho : V.IsOrderly) {old : ObjectId}
    {core : NodeCore} (hc : V.core old = some core) (hpar : V.parent old = none)
    (replacement : Value) :
    ∃ words, M.run' env w (replaceWith (.object old) replacement) =
      (.error (.detached words), w) := by
  obtain ⟨words, hw⟩ : ∃ words, M.run' env w (describe (.object old)) = (.ok words, w) :=
    run'_describe h ho hc
  have hp : M.run' env w (parent (.object old)) = _ := run'_parent (h.record old core hc)
  rw [hpar] at hp
  refine ⟨words, ?_⟩
  rw [replaceWith, M.run'_bind_ok hp]
  simp only [parentValue, Value.isTruthy, Bool.not_false, if_true]
  rw [M.run'_bind_ok hw]
  rfl

theorem leads_replaceWith (h : Shows w V) (hg : V.IsRegular) {old r : ObjectId} {ocore : NodeCore}
    (ho : V.core old = some ocore) (hr : V.Insertable r)
    (hu : ∀ p, V.parent old = some p → r ≠ p ∧ ¬ V.Under (V.inserted r) p) :
    Leads env w V (replaceWith (.object old) (.object r)) fun _ V' =>
      V' = V.replaceWith old r ∧ V.parent old ≠ none := by
  cases hpar : V.parent old with
  | none =>
    obtain ⟨words, hw⟩ : ∃ words, M.run' env w (replaceWith _ _) = (.error (.detached words), w) :=
      run'_replaceWith_detached h hg.isOrderly ho hpar (.object r)
    exact .of_error h hg hw
  | some p =>
    by_cases hne : r = old
    · have hrec := h.record old ocore ho
      rw [hpar] at hrec
      rw [hne]
      have hself : Does env w V (replaceWith (.object old) (.object old)) () V :=
        ⟨w, run'_replaceWith_self hrec, .refl h⟩
      exact .of_does hself hg (by simp [View.replaceWith, hpar])
    · obtain ⟨rcore, hrc⟩ := hr.core
      have hold := hg.parent_release hpar hne (hu p hpar).1
      have hd : Does env w V _ () _ := does_replaceWith h hg.toIsForest.isLinked ho hrc hne hpar hold
      exact (leads_of_does hg hd (hg.toIsForest.replaceWith hr hu) (replaceWith_core V old r)).imp
        fun _ _ hq => ⟨hq.2, by simp⟩

theorem leads_stealChildren (h : Shows w V) (hg : V.IsRegular) {t s : ObjectId}
    (ht : V.Container t) (hs : V.Container s) (hu : ¬ V.Under (V.children s) t) :
    Leads env w V (stealChildren (.object t) (.object s)) fun _ V' => V' = V.stealChildren t s := by
  obtain ⟨tcore, htc, hth⟩ := ht
  obtain ⟨score, hsc, hsh⟩ := hs
  have hf := hg.toIsForest.stealChildren (V := V) ⟨tcore, htc, hth⟩ hu
  have hd : Does env w V _ () _ := does_stealChildren h hg.toIsForest.isLinked htc hth hsc hsh
  exact (leads_of_does hg hd hf rfl).imp fun _ _ hq => hq.2

theorem leads_removeChildren (h : Shows w V) (hg : V.IsRegular) {p : ObjectId}
    (hp : V.Container p) :
    Leads env w V (removeChildren (.object p)) fun _ V' => V' = V.takeChildren p := by
  obtain ⟨pcore, hpc, hh⟩ := hp
  have hd : Does env w V _ () _ := does_removeChildren h hg.toIsForest.isLinked hpc hh
  exact (leads_of_does hg hd (hg.toIsForest.takeChildren p) rfl).imp fun _ _ hq => hq.2

theorem leads_remove (h : Shows w V) (hg : V.IsRegular) {v : ObjectId} {core : NodeCore}
    (hv : V.core v = some core) :
    Leads env w V (remove (.object v)) fun _ V' => V' = V.detach v :=
  (leads_of_does hg (does_remove h hg.toIsForest.isLinked hv) (hg.toIsForest.detach v)
    (detach_core V v)).imp fun _ _ hq => hq.2

/-- Setting an entry of the attributes of an element. -/
theorem does_putEntry (h : Shows w V) {e : ObjectId} {tag : Value}
    (he : V.core e = some (.element tag)) (name value : Value) :
    Does env w V (putEntry (.object (attributesOf e)) name value) ()
      (V.setAttributes e ((V.attributes e).put name value)) :=
  .bind_of_run (run'_mapEntries (h.map e _ he rfl))
    ⟨_, Store.run'_setCell _ _, .setAttributes h he rfl _⟩

theorem leads_putEntry (h : Shows w V) (hg : V.IsRegular) {e : ObjectId} {tag : Value}
    (he : V.core e = some (.element tag)) (name value : Value) :
    Leads env w V (putEntry (.object (attributesOf e)) name value) fun _ V' =>
      V' = V.setAttributes e ((V.attributes e).put name value) :=
  (leads_of_does hg (does_putEntry h he name value) (hg.toIsForest.setAttributes e _) rfl).imp
    fun _ _ hq => hq.2

/-- A new node without children. -/
theorem leads_add (h : Shows w V) (hg : V.IsRegular) {core : NodeCore} {attributes : Entries}
    (ht : ∀ tag, core = .element tag → ∃ t, tag = .text t) :
    Leads env w V (allocNode core attributes) fun id V' =>
      V.core id = none ∧ V' = V.add id core attributes :=
  .of_does (does_allocNode h core attributes) (hg.add h.core_size ht attributes)
    ⟨h.core_size, rfl⟩

/-- A new fragment or document without children. -/
theorem leads_plantWithin_nil (h : Shows w V) (hg : V.IsRegular) {core : NodeCore}
    (ht : ∀ tag, core = .element tag → ∃ t, tag = .text t) (hh : core.hasChildren) :
    Leads env w V (plantWithin core []) fun id V' =>
      V.core id = none ∧ V' = V.add id core [] :=
  .of_does (does_plantWithin_nil h hh) (hg.add h.core_size ht []) ⟨h.core_size, rfl⟩

/-- Nodes appended to a new root one after another. -/
theorem leads_appendAll {p : ObjectId} {core : NodeCore} (hh : core.hasChildren) :
    ∀ {nodes : List ObjectId} {w : World} {V : View}, Shows w V → V.IsRegular →
      V.core p = some core → V.parent p = none → (∀ n ∈ nodes, V.Inner n ∧ n ≠ p) →
      Leads env w V ((nodes.map Value.object).forM (append (.object p))) fun _ _ => True := by
  intro nodes
  induction nodes with
  | nil => exact fun h hg _ _ _ => .of_does (.pure h ()) hg trivial
  | cons n nodes ih =>
    intro w V h hg hp hroot hn
    obtain ⟨hi, hne⟩ := hn n List.mem_cons_self
    have hu : ¬ V.Under (V.inserted n) p := by
      rw [inserted, if_neg hi.not_isFragment]
      exact not_under_root hroot (by simpa using hne.symm)
    refine Leads.bind (leads_append h hg ⟨core, hp, hh⟩ (.inr hi) hu) ?_
    rintro _ w' V' hs hg' rfl
    refine ih hs.shows hg' (by rwa [append_core]) ?_ fun x hx => ?_
    · rw [View.append, insert_parent, inserted, if_neg hi.not_isFragment, if_neg (by simpa using hne.symm),
        release, if_neg hi.not_isFragment, detach_parent]
      split
      · rfl
      · exact hroot
    · obtain ⟨hix, hnx⟩ := hn x (List.mem_cons_of_mem n hx)
      exact ⟨hix.of_core (append_core V p n), hnx⟩

/-- A new fragment or document around nodes. -/
theorem leads_createAround (h : Shows w V) (hg : V.IsRegular) {core : NodeCore}
    (ht : ∀ tag, core = .element tag → ∃ t, tag = .text t) (hh : core.hasChildren)
    {nodes : List ObjectId} (hn : ∀ n ∈ nodes, V.Inner n) :
    Leads env w V (do
        let id ← plantWithin core []
        (nodes.map Value.object).forM (append (.object id))
        return id) fun _ _ => True := by
  refine Leads.bind (leads_plantWithin_nil h hg ht hh) ?_
  rintro id w' V' hs hg' ⟨hnew, rfl⟩
  have hold : ∀ n ∈ nodes, n ≠ id := by
    rintro n hm rfl
    obtain ⟨ncore, hnc, _⟩ := hn n hm
    rw [hnew] at hnc
    cases hnc
  refine Leads.bind (leads_appendAll hh hs.shows hg' (by simp [add]) (by simp [add]) ?_)
    fun _ w2 V2 hs2 hg2 _ => .of_does (.pure hs2.shows id) hg2 trivial
  intro n hm
  obtain ⟨ncore, hnc, hi⟩ := hn n hm
  exact ⟨⟨ncore, by simpa [add, hold n hm] using hnc, hi⟩, hold n hm⟩

/-- Replacing all children by a text. -/
theorem leads_setTextContent (h : Shows w V) (hg : V.IsRegular) {e : ObjectId} {tag : Value}
    (he : V.core e = some (.element tag)) (value : Value) :
    Leads env w V (setTextContent (.object e) value) fun _ _ => True := by
  refine Leads.bind (leads_removeChildren h hg ⟨_, he, rfl⟩) ?_
  rintro _ w1 V1 hs1 hg1 rfl
  refine Leads.bind (leads_add hs1.shows hg1 fun _ ht => by cases ht) ?_
  rintro t w2 V2 hs2 hg2 ⟨hnew, rfl⟩
  have hne : t ≠ e := by
    rintro rfl
    rw [takeChildren_core, he] at hnew
    cases hnew
  have ht : ((V.takeChildren e).add t (.text value (.bool false)) []).core t =
      some (.text value (.bool false)) := by simp [add]
  have hinner : ((V.takeChildren e).add t (.text value (.bool false)) []).Inner t :=
    ⟨_, ht, rfl⟩
  refine (leads_append (p := e) hs2.shows hg2 ⟨.element tag, ?_, rfl⟩ (.inr hinner) ?_).imp
    fun _ _ _ => trivial
  · simpa [add, hne.symm] using he
  · rw [inserted, if_neg hinner.not_isFragment]
    rintro ⟨n, hn, hu⟩
    rw [List.mem_singleton.1 hn] at hu
    rcases hu with he' | ha
    · exact hne he'.symm
    · exact hg2.toIsForest.not_above_leaf ht rfl ha

end Tree

end PageTemplate
