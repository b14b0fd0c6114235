import PageTemplate.Proofs.Tree.Places
import PageTemplate.Proofs.Tree.Plant

/-!
# PageTemplate.Proofs.Tree.Takeover

What changes when nodes take the place of another one. They leave the lists that they were in and
stand where the other one stood, and it makes no difference whether they were siblings of it, nodes
below it, parts of another tree or the children of a fragment. That is what replacing a node and
stripping an element come to, with everything that stays as it was.
-/

namespace PageTemplate

namespace View

variable {V V' : View} {p old r : ObjectId} {moved : List ObjectId}

/-- Whether some nodes have taken the place of a child of `p`, and nothing else has changed. -/
structure TakesPlace (V : View) (p old : ObjectId) (moved : List ObjectId) (V' : View) : Prop where
  core : V'.core = V.core
  attributes : V'.attributes = V.attributes
  /-- The list as it was, without the nodes that move, and these instead of the old one. -/
  here : V'.children p =
    ((V.children p).filter (· ∉ moved)).flatMap fun c => if c = old then moved else [c]
  elsewhere : ∀ x, x ≠ p → V'.children x = (V.children x).filter (· ∉ moved)
  arrived : ∀ n ∈ moved, V'.parent n = some p
  gone : V'.parent old = none
  kept : ∀ x, x ≠ old → x ∉ moved → V'.parent x = V.parent x

/-! Lists with some members in the place of one. -/

theorem flatMap_keep {cs nodes : List ObjectId} {t : ObjectId} (h : t ∉ cs) :
    (cs.flatMap fun c => if c = t then nodes else [c]) = cs := by
  refine (List.flatMap_congr fun c hc => ?_).trans (List.flatMap_singleton' cs)
  have hct : c ≠ t := fun hct => h (hct ▸ hc)
  rw [if_neg hct]

theorem flatMap_exchange {before behind nodes : List ObjectId} {t : ObjectId}
    (h : (before ++ t :: behind).Nodup) :
    ((before ++ t :: behind).flatMap fun c => if c = t then nodes else [c]) =
      before ++ nodes ++ behind := by
  have hbehind : t ∉ behind := fun hm =>
    (List.nodup_cons.1 (List.nodup_append.1 h).2.1).1 hm
  rw [List.flatMap_append, List.flatMap_cons, if_pos rfl, flatMap_keep (not_mem_before h),
    flatMap_keep hbehind, List.append_assoc]

theorem spliceAt_eq_flatMap {ids nodes : List ObjectId} (hn : ids.Nodup) (hm : old ∈ ids) :
    Tree.spliceAt (ids.idxOf? old) nodes ids =
      ids.flatMap fun c => if c = old then nodes else [c] := by
  obtain ⟨before, behind, rfl⟩ := List.append_of_mem hm
  rw [spliceAt_append (not_mem_before hn), flatMap_exchange hn]

/-! Taking out what is to be inserted. -/

/-- Children of one node are not among those of another. -/
theorem filter_children (hf : V.IsForest) {x y : ObjectId} (hxy : x ≠ y) :
    (V.children x).filter (· ∉ V.children y) = V.children x := by
  refine List.filter_eq_self.2 fun c hx => decide_eq_true fun hy => hxy ?_
  exact Option.some.inj (((hf.mem_children x c).1 hx).symm.trans ((hf.mem_children y c).1 hy))

theorem filter_self (cs : List ObjectId) : cs.filter (· ∉ cs) = [] :=
  List.filter_eq_nil_iff.2 fun c hc => by simpa using hc

theorem release_children (hf : V.IsForest) (r x : ObjectId) :
    (V.release r).children x = (V.children x).filter (· ∉ V.inserted r) := by
  by_cases hr : V.IsFragment r
  · rw [release, inserted, if_pos hr, if_pos hr, takeChildren_children]
    by_cases hx : x = r
    · rw [if_pos hx, hx, filter_self]
    · rw [if_neg hx, filter_children hf hx]
  · rw [release, inserted, if_neg hr, if_neg hr, detach_children hf, (hf.nodup x).erase_eq_filter]
    refine List.filter_congr fun c _ => ?_
    by_cases hc : c = r <;> simp [hc]

/-- The child that is replaced is not among the nodes that move. -/
theorem not_mem_inserted_of_parent (hf : V.IsForest) (hp : V.parent old = some p) (hne : r ≠ old)
    (hr : r ≠ p) : old ∉ V.inserted r :=
  Tree.not_mem_inserted hne (hf.parent_release hp hne hr)

/-- What a replacement moves takes the place of the child that is replaced. -/
theorem takesPlace_replaceWith (hf : V.IsForest) (hp : V.parent old = some p) (hne : r ≠ old)
    (hr : r ≠ p) : V.TakesPlace p old (V.inserted r) (V.replaceWith old r) := by
  have hold := not_mem_inserted_of_parent hf hp hne hr
  have hf1 := hf.release r
  have hp1 := hf.parent_release hp hne hr
  rw [replaceWith_of_child hp hne]
  refine ⟨by simp, by simp, ?_, fun x hx => ?_, fun n hn => ?_, ?_, fun x hx hm => ?_⟩
  · rw [substitute, insert_children, if_pos rfl,
      spliceAt_eq_flatMap (hf1.nodup p) ((hf1.mem_children p old).2 hp1), release_children hf]
  · have hm : old ∉ (V.release r).children x := fun hm => by
      cases hp1.symm.trans ((hf1.mem_children x old).1 hm)
      exact hx rfl
    rw [substitute, insert_children, if_neg hx, detach_children hf1, List.erase_of_not_mem hm,
      release_children hf]
  · rw [substitute, insert_parent, if_pos hn]
  · rw [substitute, insert_parent, if_neg hold, detach_parent, if_pos rfl]
  · rw [substitute, insert_parent, if_neg hm, detach_parent, if_neg hx, release_parent, if_neg hm]

theorem isForest_replaceWith (hf : V.IsForest) (hp : V.parent old = some p) (hr : V.Insertable r)
    (hfree : ¬ V.Within r p) : (V.replaceWith old r).IsForest := by
  refine hf.replaceWith hr fun q hq => ?_
  cases hp.symm.trans hq
  exact ⟨fun hrp => hfree (.inl hrp.symm), not_under_inserted hf hfree⟩

/-! The lists that are left. -/

namespace TakesPlace

variable {V' : View} {x q : ObjectId} (h : V.TakesPlace p old (V.inserted r) V')

include h

theorem emptied (hr : V.IsFragment r) (hrp : r ≠ p) : V'.children r = [] := by
  rw [h.elsewhere r hrp, inserted, if_pos hr, filter_self]

/-- The list that a single node was in has lost this node. -/
theorem lost (hf : V.IsForest) (hq : V.parent r = some q) (hqp : q ≠ p) :
    V'.children q = (V.children q).erase r := by
  rw [h.elsewhere q hqp, inserted, if_neg (hf.inner r q hq).not_isFragment,
    (hf.nodup q).erase_eq_filter]
  refine List.filter_congr fun c _ => ?_
  by_cases hc : c = r <;> simp [hc]

theorem untouched (hf : V.IsForest) (hx : x ≠ p) (hr : V.parent r ≠ some x)
    (hfrag : V.IsFragment r → x ≠ r) : V'.children x = V.children x := by
  rw [h.elsewhere x hx, inserted]
  split
  · rename_i hr'
    exact filter_children hf (hfrag hr')
  · refine List.filter_eq_self.2 fun c hc => decide_eq_true fun hm => hr ?_
    rw [← List.mem_singleton.1 hm]
    exact (hf.mem_children x c).1 hc

end TakesPlace

/-! Stripping. -/

/-- The view with the children of an element in its place, where they come in a fragment. -/
def strip (V : View) (t f : ObjectId) : View := (V.stealChildren f t).replaceWith t f

section Strip

variable {t f : ObjectId} (hf : V.IsForest) (hfrag : V.IsFragment f) (hroot : V.parent f = none)
  (hempty : V.children f = []) (hp : V.parent t = some p)

include hf hroot in
theorem root_not_mem (x : ObjectId) : f ∉ V.children x := by
  intro hm
  rw [(hf.mem_children x f).1 hm] at hroot
  cases hroot

include hroot hp in
theorem ne_root : t ≠ f := by
  rintro rfl
  rw [hroot] at hp
  cases hp

include hf hempty hp in
theorem parent_ne_empty : p ≠ f := by
  rintro rfl
  have hm := (hf.mem_children p t).2 hp
  rw [hempty] at hm
  cases hm

include hf in
theorem self_not_mem : t ∉ V.children t := fun hm =>
  hf.ne_of_parent ((hf.mem_children t t).1 hm) rfl

include hf hfrag hroot in
theorem isForest_steal : (V.stealChildren f t).IsForest :=
  hf.stealChildren ⟨_, hfrag, rfl⟩ (not_under_root hroot (root_not_mem hf hroot t))

include hf hp in
theorem steal_parent_self : (V.stealChildren f t).parent t = some p := by
  rw [IsForest.stealChildren_parent, if_neg (self_not_mem hf), hp]

include hempty hroot hp in
theorem steal_children (x : ObjectId) : (V.stealChildren f t).children x =
    if x = f then V.children t else if x = t then [] else V.children x := by
  rw [stealChildren_children, takeChildren_children, if_neg (ne_root hroot hp).symm, hempty,
    List.nil_append]

include hfrag hempty hroot hp in
theorem steal_inserted : (V.stealChildren f t).inserted f = V.children t := by
  have hfrag' : (V.stealChildren f t).IsFragment f := hfrag
  rw [inserted, if_pos hfrag', steal_children hroot hempty hp, if_pos rfl]

include hf hfrag hroot hempty hp

theorem isForest_strip : (V.strip t f).IsForest := by
  have hfrag' : (V.stealChildren f t).IsFragment f := hfrag
  refine (isForest_steal hf hfrag hroot).replaceWith (.inl hfrag') fun q hq => ?_
  cases (steal_parent_self hf hp).symm.trans hq
  refine ⟨(parent_ne_empty hf hempty hp).symm, ?_⟩
  rw [steal_inserted hfrag hroot hempty hp]
  exact hf.not_under_stolen hroot hp

/-- The children of an element take its place, by way of the fragment that they come in. -/
theorem takesPlace_strip : V.TakesPlace p t (V.children t) (V.strip t f) := by
  have hpf := parent_ne_empty hf hempty hp
  have hpt : p ≠ t := (hf.ne_of_parent hp).symm
  have h := takesPlace_replaceWith (isForest_steal hf hfrag hroot) (steal_parent_self hf hp)
    (ne_root hroot hp).symm hpf.symm
  rw [steal_inserted hfrag hroot hempty hp] at h
  refine ⟨h.core, h.attributes, ?_, fun x hx => ?_, h.arrived, h.gone, fun x hx hm => ?_⟩
  · rw [strip, h.here, steal_children hroot hempty hp, if_neg hpf, if_neg hpt]
  · rw [strip, h.elsewhere x hx, steal_children hroot hempty hp]
    by_cases hxf : x = f
    · rw [if_pos hxf, filter_self, hxf, hempty, List.filter_nil]
    · by_cases hxt : x = t
      · rw [if_neg hxf, if_pos hxt, hxt, filter_self, List.filter_nil]
      · rw [if_neg hxf, if_neg hxt]
  · rw [strip, h.kept x hx hm, IsForest.stealChildren_parent, if_neg hm]

end Strip

end View

namespace Tree

open View

variable {w : World} {V : View} {p t old r : ObjectId}

/-- Replacing a child by nodes that may come from anywhere but from above. -/
theorem does_replaceChild (env : Env) (h : Shows w V) (hf : V.IsForest)
    (hp : V.parent old = some p) (hr : V.Insertable r) (hne : r ≠ old) (hrp : r ≠ p) :
    Does env w V (replaceWith (.object old) (.object r)) () (V.replaceWith old r) := by
  obtain ⟨ocore, ho, _⟩ := hf.inner old p hp
  obtain ⟨rcore, hrc⟩ := hr.core
  exact does_replaceWith h hf.isLinked ho hrc hne hp (hf.parent_release hp hne hrp)

/-- Stripping an element comes down to replacing it, by which time its children are in a new
fragment. -/
theorem run'_stripOut (env : Env) (h : Shows w V) (hl : V.IsLinked) {tag : Value}
    (ht : V.core t = some (.element tag)) :
    ∃ f w1, V.core f = none ∧ TreeStep w V w1 ((V.add f .fragment []).stealChildren f t) ∧
      M.run' env w (stripOut (.object t)) = M.run' env w1 (replaceWith (.object t) (.object f)) := by
  have hnew := h.core_size
  have hplant : Does env w V (plantWithin .fragment []) w.cells.size _ :=
    does_plantWithin_nil h rfl
  generalize w.cells.size = f at hnew hplant
  have hcreate : Does env w V (createFragment []) f (V.add f .fragment []) :=
    hplant.bind fun w' hs' => .pure hs'.shows f
  obtain ⟨w0, hrun0, hs0⟩ := hcreate
  have hext : V.Extends (V.add f .fragment []) := extends_add hnew .fragment []
  have hfrag : (V.add f .fragment []).core f = some .fragment := by simp [add]
  have ht1 := (hext.agree t _ ht).core.trans ht
  obtain ⟨w1, hrun1, hs1⟩ : Does env w0 _ (stealChildren (.object f) (.object t)) () _ :=
    does_stealChildren hs0.shows (hl.add hnew .fragment []) hfrag rfl ht1 rfl
  refine ⟨f, w1, hnew, hs0.trans hs1, ?_⟩
  rw [stripOut, M.run'_bind_ok hrun0]
  exact M.run'_bind_ok hrun1

/-- Stripping an element that has a parent. -/
theorem does_strip (env : Env) (h : Shows w V) (hf : V.IsForest) {tag : Value}
    (ht : V.core t = some (.element tag)) (hp : V.parent t = some p) :
    ∃ f, V.core f = none ∧
      Does env w V (stripOut (.object t)) () ((V.add f .fragment []).strip t f) ∧
      ((V.add f .fragment []).strip t f).IsForest ∧
      (V.add f .fragment []).TakesPlace p t (V.children t) ((V.add f .fragment []).strip t f) := by
  obtain ⟨f, w1, hnew, hs1, hrun⟩ := run'_stripOut env h hf.isLinked ht
  have hext : V.Extends (V.add f .fragment []) := extends_add hnew .fragment []
  have hf1 := hf.add hnew .fragment []
  have hfrag : (V.add f .fragment []).IsFragment f := by simp [add, IsFragment]
  have hroot : (V.add f .fragment []).parent f = none := by simp [add]
  have hempty : (V.add f .fragment []).children f = [] := by simp [add]
  have hp1 := (hext.parent t _ ht).trans hp
  have htakes := takesPlace_strip hf1 hfrag hroot hempty hp1
  rw [(hext.agree t _ ht).children] at htakes
  obtain ⟨w2, hrun2, hs2⟩ := does_replaceChild env hs1.shows (isForest_steal hf1 hfrag hroot)
    (steal_parent_self hf1 hp1) (.inl hfrag) (ne_root hroot hp1).symm
    (parent_ne_empty hf1 hempty hp1).symm
  exact ⟨f, hnew, ⟨w2, hrun.trans hrun2, hs1.trans hs2⟩, isForest_strip hf1 hfrag hroot hempty hp1,
    htakes⟩

/-- An element without a parent is not stripped, but it is emptied. -/
theorem run'_stripOut_detached (env : Env) (h : Shows w V) (hg : V.IsRegular) {tag : Value}
    (ht : V.core t = some (.element tag)) (hp : V.parent t = none) :
    ∃ f words w', V.core f = none ∧
      M.run' env w (stripOut (.object t)) = (.error (.detached words), w') ∧
      TreeStep w V w' ((V.add f .fragment []).stealChildren f t) ∧
      ((V.add f .fragment []).stealChildren f t).IsRegular := by
  obtain ⟨f, w1, hnew, hs1, hrun⟩ := run'_stripOut env h hg.toIsForest.isLinked ht
  have hext : V.Extends (V.add f .fragment []) := extends_add hnew .fragment []
  have hg1 : (V.add f .fragment []).IsRegular := hg.add hnew (by simp) []
  have hf1 := hg1.toIsForest
  have hfrag : (V.add f .fragment []).IsFragment f := by simp [add, IsFragment]
  have hroot : (V.add f .fragment []).parent f = none := by simp [add]
  have hg2 : ((V.add f .fragment []).stealChildren f t).IsRegular :=
    hg1.of_core (isForest_steal hf1 hfrag hroot) rfl
  have ht2 : ((V.add f .fragment []).stealChildren f t).core t = some (.element tag) :=
    (hext.agree t _ ht).core.trans ht
  have hp2 : ((V.add f .fragment []).stealChildren f t).parent t = none := by
    rw [IsForest.stealChildren_parent, if_neg (self_not_mem hf1), hext.parent t _ ht, hp]
  obtain ⟨words, hfail⟩ : ∃ words, M.run' env w1 (replaceWith (.object t) (.object f)) =
      (.error (.detached words), w1) :=
    run'_replaceWith_detached hs1.shows hg2.isOrderly ht2 hp2 (.object f)
  exact ⟨f, words, w1, hnew, hrun.trans hfail, hs1, hg2⟩

/-- Stripping an element, with or without a parent. -/
theorem leads_stripOut (h : Shows w V) (hg : V.IsRegular) {env : Env} {tag : Value}
    (ht : V.core t = some (.element tag)) :
    Leads env w V (stripOut (.object t)) fun _ V' => ∃ f, V.core f = none ∧
      V' = (V.add f .fragment []).strip t f ∧ V.parent t ≠ none := by
  cases hp : V.parent t with
  | none =>
    obtain ⟨f, words, w', _, hfail, hs, hg'⟩ := run'_stripOut_detached env h hg ht hp
    exact .of_fails hs hg' hfail
  | some p =>
    obtain ⟨f, hnew, hdoes, hforest, _⟩ := does_strip env h hg.toIsForest ht hp
    have hg1 : (V.add f .fragment []).IsRegular := hg.add hnew (by simp) []
    refine .of_does hdoes (hg1.of_core hforest ?_) ⟨f, hnew, rfl, nofun⟩
    rw [strip, replaceWith_core]
    rfl

/-- What replacing a child and stripping one change. A replacement may be any node that can be
inserted but the child itself, its parent and what is above: the child list of the parent is what it
was, without the nodes that move, and these in order where the child was; the child has no parent any
more, a fragment is empty, another parent of the replacement has lost just this, and all other lists
and parents are what they were. An element that is stripped makes way for its children in the same
way and has none left. -/
theorem replaceWith_stripOut_effect (env : Env) (h : Shows w V) (hf : V.IsForest)
    (hp : V.parent old = some p) :
    (∀ r, V.Insertable r → r ≠ old → ¬ V.Within r p →
      ∃ V', Does env w V (replaceWith (.object old) (.object r)) () V' ∧ V'.IsForest ∧
        V.TakesPlace p old (V.inserted r) V' ∧ (V.IsFragment r → V'.children r = []) ∧
        (∀ q, V.parent r = some q → q ≠ p → V'.children q = (V.children q).erase r) ∧
        ∀ x, x ≠ p → V.parent r ≠ some x → (V.IsFragment r → x ≠ r) →
          V'.children x = V.children x) ∧
    ∀ tag, V.core old = some (.element tag) →
      ∃ f V', V.core f = none ∧ Does env w V (stripOut (.object old)) () V' ∧ V'.IsForest ∧
        (V.add f .fragment []).TakesPlace p old (V.children old) V' ∧ V'.children old = [] := by
  constructor
  · intro r hr hne hfree
    have hrp : r ≠ p := fun hrp => hfree (.inl hrp.symm)
    have htakes := takesPlace_replaceWith hf hp hne hrp
    exact ⟨_, does_replaceChild env h hf hp hr hne hrp, isForest_replaceWith hf hp hr hfree, htakes,
      fun hfrag => htakes.emptied hfrag hrp, fun q hq hqp => htakes.lost hf hq hqp,
      fun x hx hxr hfrag => htakes.untouched hf hx hxr hfrag⟩
  · intro tag ht
    obtain ⟨f, hnew, hdoes, hforest, htakes⟩ := does_strip env h hf ht hp
    refine ⟨f, _, hnew, hdoes, hforest, htakes, ?_⟩
    have hext : V.Extends (V.add f .fragment []) := extends_add hnew .fragment []
    rw [htakes.elsewhere old (hf.ne_of_parent hp), (hext.agree old _ ht).children, filter_self]

/-- An item with a text of its own, and a text behind it. -/
def nestedList : Markup.Node :=
  .element "ul" [] [.element "li" [] [.text "x" false], .text "y" false]

theorem represents_nestedList {ul : ObjectId} (h : V.Represents ul nestedList.tree) :
    ∃ li x y, V.children ul = [li, y] ∧ V.children li = [x] ∧
      (∃ tag, V.core li = some (.element tag)) ∧ (∃ tag, V.core ul = some (.element tag)) ∧
      ∃ value raw, V.core y = some (.text value raw) := by
  simp only [nestedList, treesOf, Markup.Node.tree, Represents, RepresentsAll] at h
  obtain ⟨hul, _, li, _, hch, ⟨hli, _, x, _, hlich, _, rfl⟩, y, _, rfl, ⟨hy, _⟩, rfl⟩ := h
  exact ⟨li, x, y, hch, hlich, ⟨_, hli⟩, ⟨_, hul⟩, _, _, hy⟩

/-- The text behind the item takes its place, and so does the text in it. -/
theorem replaceWith_stripOut_effect_sample :
    ∃ w V ul li x y, Shows w V ∧ V.IsForest ∧ V.Represents ul nestedList.tree ∧
      V.children ul = [li, y] ∧ V.children li = [x] ∧
      (∃ V', Does Env.silent w V (replaceWith (.object li) (.object y)) () V' ∧
        V'.children ul = [y] ∧ V'.parent y = some ul ∧ V'.parent li = none ∧
        V'.children li = [x]) ∧
      ∃ V', Does Env.silent w V (stripOut (.object li)) () V' ∧
        V'.children ul = [x, y] ∧ V'.parent x = some ul ∧ V'.parent li = none ∧
        V'.children li = [] := by
  obtain ⟨d, V, ⟨w, _, hs⟩, hg, _, _, _, _, _, ul, _, _, hul, _⟩ :
      ∃ id V', Does Env.silent World.blank View.empty (plantWithin .document [nestedList]) id V' ∧
        _ :=
    does_plantWithin (shows_empty World.blank) isRegular_empty (by simp) rfl [nestedList]
  have hf := hg.toIsForest
  obtain ⟨li, x, y, hch, hlich, ⟨tag, hli⟩, ⟨_, hulc⟩, _, _, hy⟩ := represents_nestedList hul
  have hp : V.parent li = some ul := (hf.mem_children ul li).1 (by simp [hch])
  have hyp : V.parent y = some ul := (hf.mem_children ul y).1 (by simp [hch])
  have hxp : V.parent x = some li := (hf.mem_children li x).1 (by simp [hlich])
  have hul_li : ul ≠ li := (hf.ne_of_parent hp).symm
  have hyli : y ≠ li := by
    rintro rfl
    cases hy.symm.trans hli
  have hyx : y ≠ x := by
    rintro rfl
    exact hul_li (Option.some.inj (hyp.symm.trans hxp))
  have hyi : V.Inner y := ⟨_, hy, rfl⟩
  have hyul : ¬ V.Within y ul := fun hw => by
    rcases hw with rfl | hw
    · cases hy.symm.trans hulc
    · exact hf.not_above_leaf hy rfl hw
  obtain ⟨hreplace, hstrip⟩ := replaceWith_stripOut_effect Env.silent hs.shows hf hp
  obtain ⟨V1, hdoes1, _, htakes1, _, _, hkeep1⟩ := hreplace y (.inr hyi) hyli hyul
  obtain ⟨f, V2, hnew, hdoes2, _, htakes2, hempty⟩ := hstrip tag hli
  rw [inserted, if_neg hyi.not_isFragment] at htakes1
  rw [hlich] at htakes2
  have hext : V.Extends (V.add f .fragment []) := extends_add hnew .fragment []
  refine ⟨w, V, ul, li, x, y, hs.shows, hf, hul, hch, hlich,
    ⟨V1, hdoes1, ?_, htakes1.arrived y (by simp), htakes1.gone, ?_⟩,
    V2, hdoes2, ?_, htakes2.arrived x (by simp), htakes2.gone, hempty⟩
  · rw [htakes1.here, hch]
    simp [hyli.symm]
  · rw [hkeep1 li hul_li.symm (by simp [hyp, hul_li]) fun hfrag => absurd hfrag hyi.not_isFragment,
      hlich]
  · have hxli : x ≠ li := hf.ne_of_parent hxp
    rw [htakes2.here, (hext.agree ul _ hulc).children, hch]
    simp [hyli, hyx, hxli.symm]

end Tree

end PageTemplate
