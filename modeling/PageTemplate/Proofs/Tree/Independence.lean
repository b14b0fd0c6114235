import PageTemplate.Proofs.Template.Source
import PageTemplate.Proofs.Tree.Separation
import PageTemplate.Proofs.Tree.Serialize

/-!
# PageTemplate.Proofs.Tree.Independence

Copies of markup in the store. Copying always succeeds. The copy is a tree of new nodes that is the
same markup; what was there before is left alone, and from then on neither of the two changes with
the other.
-/

namespace PageTemplate

open Markup (Node)

namespace Tree

open View

mutual

/-- A node that represents markup is copied, given as many levels as the markup has. -/
theorem run'_cloneWithin {env : Env} {w : World} {V : View} (hs : Shows w V) (hg : V.IsRegular)
    (n : Node) (fuel : Nat) {v : ObjectId} (hv : V.Represents v n.tree) (hd : n.depth ≤ fuel) :
    ∃ c w', M.run' env w (cloneWithin fuel (.object v)) = (.ok c, w') := by
  match n, fuel, hd with
  | .element tag attributes children, fuel + 1, hd =>
    have hd : Markup.depthAll children ≤ fuel := by
      rw [Markup.Node.depth] at hd
      omega
    obtain ⟨hc, _, hch⟩ := hv
    have hnew := hs.core_size
    obtain ⟨w1, hrun1, hs1⟩ : Does env w V (cloneElement (.object v)) w.cells.size _ :=
      does_cloneElement hs hc
    obtain ⟨V1, hs1, hg1, hp1⟩ : Leads env w V (cloneElement (.object v)) _ :=
      leads_cloneElement hs hg hc
    rw [hrun1] at hs1 hp1
    have hp1 := hp1 _ rfl
    have hv1 := hp1.extend.agree v _ hc
    have hchildren : M.run' env w1 (Tree.children (.object v)) = _ :=
      run'_children hs1.shows (hv1.core.trans hc) rfl
    rw [hv1.children] at hchildren
    obtain ⟨w2, hrun2⟩ : ∃ w2, M.run' env w1 _ = (.ok (), w2) :=
      run'_cloneChildren hg hs1.shows hg1 children fuel hch hd hp1
    refine ⟨w.cells.size, w2, ?_⟩
    rw [cloneWithin, M.run'_bind_ok (run'_kind (hs.record v _ hc))]
    simp only [NodeCore.kind]
    rw [M.run'_bind_ok hrun1, M.run'_bind_ok hchildren, M.run'_bind_ok hrun2]
    rfl
  | .text value raw, fuel + 1, _ =>
    have hrec := hs.record v _ hv.1
    rw [cloneWithin, M.run'_bind_ok (run'_kind hrec)]
    simp only [NodeCore.kind]
    rw [M.run'_bind_ok (run'_nodeValue hrec (.inl ⟨_, rfl⟩)), M.run'_bind_ok (run'_rawMark hrec)]
    exact ⟨_, _, rfl⟩
  | .code source, fuel + 1, _ =>
    have hrec := hs.record v _ hv.1
    rw [cloneWithin, M.run'_bind_ok (run'_kind hrec)]
    simp only [NodeCore.kind]
    rw [M.run'_bind_ok (run'_source hrec)]
    exact ⟨_, _, rfl⟩
  | .comment value, fuel + 1, _ =>
    have hrec := hs.record v _ hv.1
    rw [cloneWithin, M.run'_bind_ok (run'_kind hrec)]
    simp only [NodeCore.kind]
    rw [M.run'_bind_ok (run'_nodeValue hrec (.inr (.inl rfl)))]
    exact ⟨_, _, rfl⟩
  | .doctype value, fuel + 1, _ =>
    have hrec := hs.record v _ hv.1
    rw [cloneWithin, M.run'_bind_ok (run'_kind hrec)]
    simp only [NodeCore.kind]
    rw [M.run'_bind_ok (run'_nodeValue hrec (.inr (.inr rfl)))]
    exact ⟨_, _, rfl⟩

/-- The children of an element are copied into the copy of the element, where those before them are
already. -/
theorem run'_cloneChildren {env : Env} {w' : World} {V V' : View} (hg : V.IsRegular)
    (hs : Shows w' V') (hg' : V'.IsRegular) (ns : List Node) (fuel : Nat) {vs : List ObjectId}
    (hv : V.RepresentsAll vs (treesOf ns)) (hd : Markup.depthAll ns ≤ fuel) {tag : Text}
    {attributes : Entries} {done : List ObjectId} {c : ObjectId}
    (hp : V.IsPartialCopy (.element (.text tag)) attributes done c V') :
    ∃ w'', M.run' env w' ((vs.map Value.object).forM fun child => do
      append (.object c) (.object (← cloneWithin fuel child))) = (.ok (), w'') := by
  match ns with
  | [] =>
    rw [representsAll_nil.1 hv]
    exact ⟨w', rfl⟩
  | n :: ns =>
    obtain ⟨v, rest, rfl, hvn, hrest⟩ := hv
    simp only [Markup.depthAll] at hd
    have hv' : V'.Represents v n.tree := hvn.extend hg.toIsForest hp.extend
    obtain ⟨d, w1, hrun1⟩ : ∃ d w1, M.run' env w' (cloneWithin fuel (.object v)) = (.ok d, w1) :=
      run'_cloneWithin hs hg' n fuel hv' (by omega)
    obtain ⟨V1, hs1, hg1, hcopy⟩ : Leads env w' V' (cloneWithin fuel (.object v)) _ :=
      leads_cloneWithin fuel hs hg' hv'.core
    rw [hrun1] at hs1 hcopy
    obtain ⟨⟨w2, hrun2, hs2⟩, hg2, hp2⟩ : Does env w1 V1 _ () _ ∧ _ :=
      does_appendCopy hg hg' hs1.shows hg1 hp (hcopy d rfl)
    obtain ⟨w3, hrun3⟩ : ∃ w3, M.run' env w2 _ = (.ok (), w3) :=
      run'_cloneChildren hg hs2.shows hg2 ns fuel hrest (by omega) hp2
    exact ⟨w3, (M.run'_bind_ok ((M.run'_bind_ok hrun1).trans hrun2)).trans hrun3⟩

end

/-- A node that represents markup is copied. -/
theorem clone_succeeds (env : Env) {w : World} {V : View} (hs : Shows w V) (hg : V.IsRegular)
    {n : Node} {v : ObjectId} (hv : V.Represents v n.tree) :
    ∃ c w' V', M.run' env w (clone (.object v)) = (.ok c, w') ∧ TreeStep w V w' V' ∧
      V'.IsRegular ∧ V.IsCopy v c V' := by
  have hd := hv.depth_le hs hg.toIsForest n List.nodup_nil (by simp)
  rw [List.length_nil, Nat.zero_add] at hd
  obtain ⟨c, w', hrun⟩ : ∃ c w', M.run' env w (cloneWithin (w.cells.size + 1) (.object v)) =
      (.ok c, w') := run'_cloneWithin hs hg n _ hv (Nat.le_succ_of_le hd)
  have hclone : M.run' env w (clone (.object v)) = (.ok c, w') :=
    (M.run'_bind_ok Store.run'_depth).trans hrun
  obtain ⟨V', hstep, hg', hcopy⟩ : Leads env w V (clone (.object v)) _ :=
    leads_clone hs hg hv.core
  rw [hclone] at hstep hcopy
  exact ⟨c, w', V', hclone, hstep, hg', hcopy c rfl⟩

end Tree

namespace View

variable {w w' : World} {V V' : View}

/-- What is at the places of nodes that are as they were is what it was. -/
theorem Extends.place_eq (he : V.Extends V') (h : Shows w V) (h' : Shows w' V') {id : ObjectId}
    (hp : V.Place id) : w'.cells[id]? = w.cells[id]? := by
  obtain ⟨n, core, hc, hid⟩ := hp
  have hn := he.agree n core hc
  have hc' := hn.core.trans hc
  rcases hid with rfl | ⟨hh, rfl⟩ | ⟨hh, rfl⟩
  · rw [h.record id core hc, h'.record id core hc', he.parent id core hc]
  · rw [h.list n core hc hh, h'.list n core hc' hh, hn.children]
  · rw [h.map n core hc hh, h'.map n core hc' hh, hn.attributes]

/-- Where all nodes are as they were, everything is. -/
theorem Extends.kept (he : V.Extends V') (h : Shows w V) (hs : TreeStep w V w' V') {id : ObjectId}
    (hlt : id < w.cells.size) : w'.cells[id]? = w.cells[id]? := by
  by_cases hp : V.Place id
  · exact he.place_eq h hs.shows hp
  · exact hs.frame id hlt hp

/-- Old nodes have old parents only, and new nodes new ones. -/
theorem Extends.lt_iff_of_parent (he : V.Extends V') (hf : V.IsForest) (hf' : V'.IsForest)
    (h : Shows w V) (hs : TreeStep w V w' V') {c p : ObjectId} (hp : V'.parent c = some p) :
    c < w.cells.size ↔ p < w.cells.size := by
  constructor
  · intro hlt
    obtain ⟨ccore, hc, _⟩ := hf'.inner c p hp
    rw [hs.core c hlt] at hc
    rw [he.parent c ccore hc] at hp
    obtain ⟨pcore, hpc, _⟩ := hf.container c p hp
    exact h.lt hpc
  · intro hlt
    obtain ⟨pcore, hpc, _⟩ := hf'.container c p hp
    rw [hs.core p hlt] at hpc
    have hmem := (hf'.mem_children p c).2 hp
    rw [(he.agree p pcore hpc).children, hf.mem_children] at hmem
    obtain ⟨ccore, hc, _⟩ := hf.inner c p hmem
    exact h.lt hc

theorem Extends.le_iff_of_parent (he : V.Extends V') (hf : V.IsForest) (hf' : V'.IsForest)
    (h : Shows w V) (hs : TreeStep w V w' V') {c p : ObjectId} (hp : V'.parent c = some p) :
    w.cells.size ≤ c ↔ w.cells.size ≤ p := by
  rw [← Nat.not_lt, ← Nat.not_lt, he.lt_iff_of_parent hf hf' h hs hp]

/-- What lies inside a new node is new. -/
theorem Extends.le_of_within (he : V.Extends V') (hf : V.IsForest) (hf' : V'.IsForest)
    (h : Shows w V) (hs : TreeStep w V w' V') {c x : ObjectId} (hc : w.cells.size ≤ c)
    (hx : V'.Within c x) : w.cells.size ≤ x := by
  rcases hx with rfl | ha
  · exact hc
  · induction ha using Relation.TransGen.head_induction_on with
    | single hp => exact (he.le_iff_of_parent hf hf' h hs hp).2 hc
    | head hp _ ih => exact (he.le_iff_of_parent hf hf' h hs hp).2 ih

/-- A copy is at a new place. -/
theorem IsCopy.le {v c : ObjectId} (hcopy : V.IsCopy v c V') (hs : TreeStep w V w' V') :
    w.cells.size ≤ c := by
  obtain ⟨core, hc, _⟩ := hcopy.inner
  refine Nat.le_of_not_lt fun hlt => ?_
  rw [hs.core c hlt, hcopy.fresh] at hc
  cases hc

end View

namespace Tree

open View

variable {env : Env} {w w' w'' : World} {V V' : View} {n : Node} {v c : ObjectId}

/-- What a copy of markup is: a root of a forest with the same markup below it and the same text.
All nodes of it are at places from `base` on. -/
structure HoldsCopy (env : Env) (base : Nat) (n : Node) (c : ObjectId) (w : World) (V : View) :
    Prop where
  shows : Shows w V
  regular : V.IsRegular
  detached : V.parent c = none
  represents : V.Represents c n.tree
  fresh : ∀ x, V.Within c x → V.Known x ∧ base ≤ x
  text : M.run' env w (serialize (.object c)) = (.ok (.text n.serialize), w)

/-- A copy that was made of tidy markup holds the markup. -/
theorem holdsCopy_of_isCopy (env : Env) (h : Shows w V) (hg : V.IsRegular) (hn : n.IsTidy)
    (hv : V.Represents v n.tree) (hs : TreeStep w V w' V') (hg' : V'.IsRegular)
    (hcopy : V.IsCopy v c V') : HoldsCopy env w.cells.size n c w' V' := by
  have hrep : V'.Represents c n.tree := hcopy.represents _ hv hn.copyable
  obtain ⟨core, hc, _⟩ := hcopy.inner
  refine ⟨hs.shows, hg', hcopy.root, hrep, fun x hx => ⟨hx.core hg'.toIsForest hc, ?_⟩,
    run'_serialize hs.shows hg'.toIsForest hrep⟩
  exact hcopy.extend.le_of_within hg.toIsForest hg'.toIsForest h hs (hcopy.le hs) hx

/-- Changes to a copy leave everything alone that was there before the copy. -/
theorem kept_of_edited_copy (h : Shows w V) (hg : V.IsRegular) (hs : TreeStep w V w' V')
    (hext : V.Extends V') (hholds : HoldsCopy env w.cells.size n c w' V')
    (he : Edited env (V'.Within c) w' w'') {id : ObjectId} (hlt : id < w.cells.size) :
    w''.cells[id]? = w.cells[id]? := by
  have hpart : ∀ x p, V'.parent x = some p → (w.cells.size ≤ x ↔ w.cells.size ≤ p) :=
    fun _ _ hp => hext.le_iff_of_parent hg.toIsForest hholds.regular.toIsForest h hs hp
  have hframe : w''.cells[id]? = w'.cells[id]? := by
    refine he.frame hholds.shows hholds.regular hpart
      (fun x hx => (hholds.fresh x hx).symm) (Nat.lt_of_lt_of_le hlt hs.size) fun hplace => ?_
    obtain ⟨_, x, hx, hle⟩ := place_of_only hplace
    exact absurd hlt (Nat.not_lt.2 (Nat.le_trans hx hle))
  exact hframe.trans (hext.kept h hs hlt)

/-- Changes to what was there before a copy leave alone everything that came with it. -/
theorem kept_of_edited_rest (h : Shows w V) (hg : V.IsRegular) (hs : TreeStep w V w' V')
    (hg' : V'.IsRegular) (hext : V.Extends V') (he : Edited env V.Known w' w'') {id : ObjectId}
    (hle : w.cells.size ≤ id) (hlt : id < w'.cells.size) : w''.cells[id]? = w'.cells[id]? := by
  refine he.frame hs.shows hg' (fun x p hp =>
    hext.lt_iff_of_parent hg.toIsForest hg'.toIsForest h hs hp) (fun x hx => ?_) hlt
    fun hplace => ?_
  · obtain ⟨core, hc⟩ := hx
    exact ⟨h.lt hc, hs.known_keep h ⟨core, hc⟩⟩
  · obtain ⟨x, core, hc, hid⟩ := hplace
    obtain ⟨hx, hc⟩ := core_of_only hc
    have hold : V.Place id := ⟨x, core, (hs.core x hx).symm.trans hc, hid⟩
    exact absurd (h.place_lt hold) (Nat.not_lt.2 hle)

/-- A copy is there as long as everything that came with it is as it was. -/
theorem HoldsCopy.of_kept (h : Shows w V) (hg : V.IsRegular) (hs : TreeStep w V w' V')
    (hext : V.Extends V') (hholds : HoldsCopy env w.cells.size n c w' V')
    (hkept : ∀ id, w.cells.size ≤ id → id < w'.cells.size → w''.cells[id]? = w'.cells[id]?) :
    HoldsCopy env w.cells.size n c w'' (V'.only fun x => w.cells.size ≤ x) := by
  have hf' := hholds.regular.toIsForest
  have hpart : ∀ x p, V'.parent x = some p → (w.cells.size ≤ x ↔ w.cells.size ≤ p) :=
    fun _ _ hp => hext.le_iff_of_parent hg.toIsForest hf' h hs hp
  have hnew : ∀ x, V'.Within c x → w.cells.size ≤ x := fun x hx => (hholds.fresh x hx).2
  have hshows : Shows w'' (V'.only fun x => w.cells.size ≤ x) := by
    refine (hholds.shows.only _).of_places fun id hplace => ?_
    obtain ⟨hp, x, hx, hle⟩ := place_of_only hplace
    exact hkept id (Nat.le_trans hx hle) (hholds.shows.place_lt hp)
  have hrep := hholds.represents.only hf' hnew
  have hreg := hholds.regular.only hpart
  refine ⟨hshows, hreg, ?_, hrep, fun x hx => ?_, run'_serialize hshows hreg.toIsForest hrep⟩
  · simp [View.only, hholds.detached]
  · obtain ⟨⟨core, hc⟩, hle⟩ := hholds.fresh x (within_of_only hx)
    exact ⟨⟨core, (agree_only hle).core.trans hc⟩, hle⟩

/-- **A copy is faithful and independent.** Copying any node of well-formed markup succeeds. The
copy is the same markup with the same text, detached and made of new nodes only, and nothing that
was there before has changed. Whatever is done to nodes of the copy from then on, everything that
was there before stays as it was; and whatever is done to nodes that were there before, among them
those of the original, the copy stays as it was. -/
theorem clone_faithful_independent (env : Env) (h : Shows w V) (hg : V.IsRegular) (hn : n.IsTidy)
    (hv : V.Represents v n.tree) :
    ∃ c w' V', M.run' env w (clone (.object v)) = (.ok c, w') ∧
      HoldsCopy env w.cells.size n c w' V' ∧
      (∀ id, id < w.cells.size → w'.cells[id]? = w.cells[id]?) ∧
      (∀ w'', Edited env (V'.Within c) w' w'' →
        (∀ id, id < w.cells.size → w''.cells[id]? = w.cells[id]?) ∧ Shows w'' V ∧
          M.run' env w'' (serialize (.object v)) = (.ok (.text n.serialize), w'')) ∧
      ∀ w'', Edited env V.Known w' w'' →
        (∀ id, w.cells.size ≤ id → id < w'.cells.size → w''.cells[id]? = w'.cells[id]?) ∧
          ∃ V'', HoldsCopy env w.cells.size n c w'' V'' := by
  obtain ⟨c, w', V', hrun, hs, hg', hcopy⟩ := clone_succeeds env h hg hv
  have hholds := holdsCopy_of_isCopy env h hg hn hv hs hg' hcopy
  refine ⟨c, w', V', hrun, hholds, fun id hlt => hcopy.extend.kept h hs hlt, fun w'' he => ?_,
    fun w'' he => ?_⟩
  · have hkept : ∀ id, id < w.cells.size → w''.cells[id]? = w.cells[id]? :=
      fun id hlt => kept_of_edited_copy h hg hs hcopy.extend hholds he hlt
    have hshows := h.of_old hkept
    exact ⟨hkept, hshows, run'_serialize hshows hg.toIsForest hv⟩
  · have hkept : ∀ id, w.cells.size ≤ id → id < w'.cells.size → w''.cells[id]? = w'.cells[id]? :=
      fun id hle hlt => kept_of_edited_rest h hg hs hg' hcopy.extend he hle hlt
    exact ⟨hkept, _, hholds.of_kept h hg hs hcopy.extend hkept⟩

/-- An element with an attribute and a text. -/
def sampleElement : Node := .element "b" [(Text.ofString "title", "t")] [.text "x" false]

theorem sampleElement_isTidy : sampleElement.IsTidy := by
  refine .element (by decide) (by decide) fun n hn => ?_
  rw [List.mem_singleton.1 hn]
  exact .text _ _

/-- The sample, inside a paragraph, is copied, and keeps its text when the copy gets a class. -/
theorem clone_faithful_independent_sample :
    ∃ p v w V, Shows w V ∧ V.IsRegular ∧ V.parent v = some p ∧ sampleElement.IsTidy ∧
      V.Represents v sampleElement.tree ∧
      ∃ c w' V', M.run' Env.silent w (clone (.object v)) = (.ok c, w') ∧
        HoldsCopy Env.silent w.cells.size sampleElement c w' V' ∧
        (M.run' Env.silent (M.run' Env.silent w' (TreeEdit.setAttribute c "class" "d").run).2
          (serialize (.object v))).1 = .ok (.text sampleElement.serialize) := by
  obtain ⟨ids, V, ⟨w, _, ht⟩, hg, hp⟩ :
      ∃ ids V, Does Env.silent World.blank View.empty
        (plantAll [.element "p" [] [sampleElement]]) ids V ∧
        V.IsRegular ∧ View.empty.IsPlanted ids [.element "p" [] [sampleElement]] V :=
    does_plantAll _ (View.shows_empty World.blank) View.isRegular_empty
  obtain ⟨p, _, _, ⟨_, _, v, rest, hchildren, hv, _⟩, _⟩ := hp.represents
  have hparent : V.parent v = some p := by
    rw [← hg.mem_children, hchildren]
    exact List.mem_cons_self
  obtain ⟨c, w', V', hrun, hholds, _, hcopy, _⟩ :=
    clone_faithful_independent Env.silent ht.shows hg sampleElement_isTidy hv
  have hedited : Edited Env.silent (V'.Within c) w'
      (M.run' Env.silent w' (TreeEdit.setAttribute c "class" "d").run).2 := by
    refine .step (.setAttribute c "class" "d") .refl ⟨.inl (.inl rfl), Nat.zero_le c, ?_⟩
    exact run'_kind (hholds.shows.record c _ hholds.represents.1)
  refine ⟨p, v, w, V, ht.shows, hg, hparent, sampleElement_isTidy, hv, c, w', V', hrun, hholds, ?_⟩
  rw [(hcopy _ hedited).2.2]

end Tree

end PageTemplate
