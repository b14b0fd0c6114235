import PageTemplate.Proofs.Page.Queries

/-!
# PageTemplate.Proofs.Page.Places

Putting parts of a content into a skeleton. Every part has a target there, which is the first
element with its id. What goes into one place does not come between another part and its target, so
all parts find their targets, in whatever order they are moved. Moving the classes for the body of a
page changes only attributes, and no id among them.
-/

namespace PageTemplate

namespace View

variable {V : View}

/-- Whether two views differ in attributes only, and in no id among them. -/
structure KeepsIds (V W : View) : Prop where
  core : W.core = V.core
  parent : W.parent = V.parent
  children : W.children = V.children
  ids : ∀ x, W.attribute? x "id" = V.attribute? x "id"

theorem KeepsIds.refl (V : View) : V.KeepsIds V := ⟨rfl, rfl, rfl, fun _ => rfl⟩

theorem KeepsIds.trans {V' V'' : View} (h : V.KeepsIds V') (h' : V'.KeepsIds V'') :
    V.KeepsIds V'' where
  core := h'.core.trans h.core
  parent := h'.parent.trans h.parent
  children := h'.children.trans h.children
  ids x := (h'.ids x).trans (h.ids x)

/-- Other attributes for one element that have the same id. -/
theorem keepsIds_setAttributes {e : ObjectId} {entries : Entries}
    {attributes attributes' : Markup.Attributes}
    (he : (V.attributes e).live = Markup.values attributes)
    (hl : entries.live = Markup.values attributes')
    (hid : Assoc.find? (Text.ofString "id") attributes' =
      Assoc.find? (Text.ofString "id") attributes) :
    V.KeepsIds (V.setAttributes e entries) := by
  refine ⟨rfl, rfl, rfl, fun x => ?_⟩
  by_cases hxe : x = e
  · subst hxe
    have hnew : ((V.setAttributes x entries).attributes x).live = Markup.values attributes' := by
      rw [setAttributes_attributes, hl]
    rw [attribute?_eq hnew, attribute?_eq he, hid]
  · simp [View.attribute?, View.setAttributes, hxe]

/-- The view with more classes for an element. -/
def addClasses (V : View) (e : ObjectId) (classes : Text) : View :=
  V.setAttributes e ((V.attributes e).put (.text "class") (.text (Text.join [unit ' ']
    ((Text.words classes).foldl (fun all c => if all.contains c then all else all ++ [c])
      (V.classes e)))))

theorem IsMarkup.addClasses (h : V.IsMarkup) {e : ObjectId} {tag : Value}
    (he : V.core e = some (.element tag)) (classes : Text) :
    (V.addClasses e classes).IsMarkup ∧ V.KeepsIds (V.addClasses e classes) := by
  obtain ⟨attributes, ha⟩ := h.attributes e tag he
  have hl := Entries.live_put_values ha "class" (Text.join [unit ' ']
    ((Text.words classes).foldl (fun all c => if all.contains c then all else all ++ [c])
      (V.classes e)))
  exact ⟨h.setAttributes hl, keepsIds_setAttributes ha hl
    (Assoc.find?_eq_of_erase_eq (Markup.erase_bindAttribute _ _ _) (by decide))⟩

theorem IsMarkup.eraseAttribute (h : V.IsMarkup) {e : ObjectId} {tag : Value}
    (he : V.core e = some (.element tag)) (name : Text) (hname : name ≠ "id") :
    (V.setAttributes e ((V.attributes e).erase (.text name))).IsMarkup ∧
      V.KeepsIds (V.setAttributes e ((V.attributes e).erase (.text name))) := by
  obtain ⟨attributes, ha⟩ := h.attributes e tag he
  have hl : ((V.attributes e).erase (.text name)).live =
      Markup.values (Assoc.erase name attributes) := by
    rw [Entries.live_erase, ha, Markup.erase_values]
  exact ⟨h.setAttributes hl, keepsIds_setAttributes ha hl
    (Assoc.find?_erase_of_ne hname.symm attributes)⟩

/-- The view after the classes for the body were moved. -/
def moveBodyClass (V : View) (main body : ObjectId) : View :=
  match V.attribute? main "body-class" with
  | none => V
  | some classes => (V.addClasses body classes).setAttributes main
      (((V.addClasses body classes).attributes main).erase (.text "body-class"))

end View

namespace Tree

variable {env : Env} {w : World} {V : View}

theorem does_addClass (hs : Shows w V) (hm : V.IsMarkup) {e : ObjectId} {tag : Value}
    (he : V.core e = some (.element tag)) (classes : Text) :
    Does env w V (addClass (.object e) (.text classes)) () (V.addClasses e classes) := by
  obtain ⟨attributes, ha⟩ := hm.attributes e tag he
  have hclasses : M.run' env w (classList (.object e)) = (.ok (V.classes e), w) := by
    have hget : M.run' env w (getAttribute (.object e) (.text "class")) = _ :=
      run'_getText hs he ha "class"
    rw [classList, M.run'_bind_ok hget, View.classes, View.attribute?_eq ha]
    cases Assoc.find? (Text.ofString "class") attributes <;> rfl
  exact .bind_of_run hclasses (.bind_of_run rfl (does_setAttribute hs he _ _))

end Tree

namespace Page

variable {env : Env} {w : World} {V : View}

/-- The classes for the body are moved. -/
theorem does_moveBodyClass (hs : Shows w V) (hm : V.IsMarkup) {skeleton main body : ObjectId}
    (hskeleton : V.Container skeleton) {tag : Value} (hmain : V.core main = some (.element tag))
    (hbody : V.attribute? main "body-class" ≠ none →
      V.IsFirst skeleton (V.HasTag "body") body) :
    Does env w V (moveBodyClass (.object skeleton) (.object main)) ()
        (V.moveBodyClass main body) ∧
      (V.moveBodyClass main body).IsMarkup ∧ V.KeepsIds (V.moveBodyClass main body) := by
  obtain ⟨attributes, ha⟩ := hm.attributes main tag hmain
  have hget : M.run' env w (Tree.getAttribute (.object main) (.text "body-class")) = _ :=
    Tree.run'_getText hs hmain ha "body-class"
  rw [← View.attribute?_eq ha] at hget
  rw [View.moveBodyClass]
  cases hclass : V.attribute? main "body-class" with
  | none =>
    rw [hclass] at hget
    exact ⟨.bind_of_run hget (.pure hs ()), hm, .refl V⟩
  | some classes =>
    rw [hclass] at hget
    have hfirst := hbody (by simp [hclass])
    have hselect : M.run' env w (Tree.select? (.object skeleton) "body") = _ :=
      Tree.run'_select_first hs hm hskeleton Selector.read_body (by simp [Selector.IsApplicable])
        hfirst fun x _ => Selector.matches_tag
    have hmain1 : (V.addClasses body classes).core main = some (.element tag) := hmain
    obtain ⟨hm1, hk1⟩ := hm.addClasses hfirst.holds classes
    obtain ⟨hm2, hk2⟩ := hm1.eraseAttribute hmain1 "body-class" (by decide)
    refine ⟨.bind_of_run hget ?_, hm2, hk1.trans hk2⟩
    refine .bind_of_run (run'_require .skeleton hselect) ?_
    refine (Tree.does_addClass hs hm hfirst.holds classes).bind fun w' hs' => ?_
    exact Tree.does_removeAttribute hs'.shows hmain1 (.text "body-class")

end Page

namespace View

variable {V W : View}

theorem IsMarkup.relinked (h : V.IsMarkup) (hf : W.IsForest) (hc : W.core = V.core)
    (ha : W.attributes = V.attributes) : W.IsMarkup where
  toIsForest := hf
  tags e tag he := h.tags e tag (hc ▸ he)
  attributes e tag he := by
    rw [ha]
    exact h.attributes e tag (hc ▸ he)

/-! Elements right below a root element. -/

theorem IsTop.not_above {d e f : ObjectId} (hd : V.parent d = none) (he : V.IsTop d e)
    (hf : V.IsTop d f) : ¬ V.Above e f := by
  obtain ⟨_, r, hr, _, hp⟩ := he
  obtain ⟨_, q, hq, _, hqp⟩ := hf
  intro ha
  obtain ⟨y, hy, hup⟩ := Relation.TransGen.head'_iff.1 ha
  cases hq.symm.trans hy
  rcases Relation.reflTransGen_iff_eq_or_transGen.1 hup with rfl | hup
  · cases hqp.symm.trans hr
    rw [hd] at hp
    cases hp
  · obtain ⟨z, hz, hup⟩ := Relation.TransGen.head'_iff.1 hup
    cases hqp.symm.trans hz
    rcases Relation.reflTransGen_iff_eq_or_transGen.1 hup with rfl | hup
    · rw [hd] at hr
      cases hr
    · obtain ⟨_, hz, _⟩ := Relation.TransGen.head'_iff.1 hup
      rw [hd] at hz
      cases hz

/-- A root element is not right below a root element. -/
theorem IsTop.parent_ne {d e : ObjectId} (hd : V.parent d = none) (he : V.IsTop d e) :
    V.parent e ≠ some d := by
  obtain ⟨_, r, hr, _, hp⟩ := he
  intro hed
  cases hr.symm.trans hed
  rw [hd] at hp
  cases hp

variable {s c t e f : ObjectId}

theorem parent_exchange_root (h : V.Apart s c) (ht : V.Above s t) (he : V.IsTop c e)
    {r : ObjectId} (hr : V.parent r = some c) : (V.exchange t e).parent r = some c := by
  have hrt : r ≠ t := (h.ne_of_within (.inr ht) (.inr (.single hr))).symm
  have hre : r ≠ e := by
    rintro rfl
    exact he.parent_ne h.right hr
  rw [exchange_parent, if_neg hre, if_neg hrt, hr]

theorem parent_refill_root (hf : V.IsForest) (h : V.Apart s c) (ht : V.Above s t)
    (he : V.IsTop c e) (r : ObjectId) :
    (V.refill t e).parent r = some c ↔ V.parent r = some c := by
  have hct : c ≠ t := (h.ne_of_within (.inr ht) (.inl rfl)).symm
  have hce : c ≠ e := by
    rintro rfl
    obtain ⟨_, q, hq, _⟩ := he
    rw [h.right] at hq
    cases hq
  rw [refill_parent V (Apart.ne_refill h ht he.above)]
  simp only [hf.mem_children]
  split
  · rename_i hre
    simp [hre, hct.symm, hce.symm]
  · split
    · rename_i hrt
      simp [hrt, hct.symm]
    · rfl

theorem isTop_exchange (h : V.Apart s c) (ht : V.Above s t) (he : V.IsTop c e) :
    (V.exchange t e).IsTop c f ↔ V.IsTop c f ∧ f ≠ e := by
  constructor
  · rintro ⟨helement, r, hr, hroot, hp⟩
    have hparent : r ≠ e → V.parent r = some c := by
      intro hre
      rw [exchange_parent, if_neg hre] at hp
      split at hp
      · cases hp
      · exact hp
    rw [exchange_parent] at hr
    by_cases hfe : f = e
    · -- What has come to the place of `t` hangs in the other tree.
      rw [if_pos hfe] at hr
      have hsr : V.Within s r := by
        obtain ⟨y, hy, hup⟩ := Relation.TransGen.head'_iff.1 ht
        cases hr.symm.trans hy
        exact within_iff.2 hup
      have hre : r ≠ e := h.ne_of_within hsr (.inr he.above)
      exact absurd (.inr (.single (hparent hre))) (h.not_within hsr)
    · rw [if_neg hfe] at hr
      split at hr
      · cases hr
      · refine ⟨⟨helement, r, hr, hroot, hparent ?_⟩, hfe⟩
        rintro rfl
        rw [exchange_parent, if_pos rfl] at hp
        have hct : V.Above c t := .single hp
        exact h.not_within (.inr ht) (.inr hct)
  · rintro ⟨⟨helement, r, hr, hroot, hp⟩, hfe⟩
    have hft : f ≠ t := (h.ne_of_within (.inr ht) (.inr (.head hr (.single hp)))).symm
    refine ⟨helement, r, ?_, hroot, parent_exchange_root h ht he hp⟩
    rw [exchange_parent, if_neg hfe, if_neg hft, hr]

theorem isTop_refill (hf : V.IsForest) (h : V.Apart s c) (ht : V.Above s t) (he : V.IsTop c e) :
    (V.refill t e).IsTop c f ↔ V.IsTop c f := by
  have hne := Apart.ne_refill h ht he.above
  have hroot := parent_refill_root hf h ht he
  constructor
  · rintro ⟨helement, r, hr, hre, hp⟩
    have hp := (hroot r).1 hp
    rw [refill_parent V hne] at hr
    split at hr
    · cases hr
      exact absurd (.inr (.single hp)) (h.not_within (.inr ht))
    · split at hr
      · cases hr
      · exact ⟨helement, r, hr, hre, hp⟩
  · rintro ⟨helement, r, hr, hre, hp⟩
    refine ⟨helement, r, ?_, hre, (hroot r).2 hp⟩
    have hfe : f ∉ V.children e := fun hm => by
      cases hr.symm.trans ((hf.mem_children e f).1 hm)
      exact he.parent_ne h.right hp
    have hft : f ∉ V.children t := fun hm => by
      cases hr.symm.trans ((hf.mem_children t f).1 hm)
      exact h.not_within (.inr ht) (.inr (.single hp))
    rw [refill_parent V hne, if_neg hfe, if_neg hft, hr]

end View

namespace Page

open View

/-- Parts of a content that wait for being moved into a skeleton. Each has an id that no other
element of the content has, and its target is the first element of the skeleton with this id. -/
structure Pending (V : View) (s c : ObjectId) (target : ObjectId → ObjectId)
    (waits : ObjectId → Prop) : Prop where
  apart : V.Apart s c
  top : ∀ e, waits e → V.IsTop c e
  first : ∀ e, waits e → ∃ id, V.attribute? e "id" = some id ∧ V.IsFirst s (V.HasId id) (target e)
  own : ∀ e id, waits e → V.attribute? e "id" = some id →
    ∀ x, V.Above c x → V.HasId id x → x = e
  separate : ∀ e f, waits e → waits f → e ≠ f → ¬ V.Within (target e) (target f)

namespace Pending

variable {w : World} {V W : View} {s c t e : ObjectId} {target : ObjectId → ObjectId}
  {waits fewer : ObjectId → Prop}

theorem mono (h : Pending V s c target waits) (hw : ∀ e, fewer e → waits e) :
    Pending V s c target fewer where
  apart := h.apart
  top e he := h.top e (hw e he)
  first e he := h.first e (hw e he)
  own e id he := h.own e id (hw e he)
  separate e f he hf := h.separate e f (hw e he) (hw f hf)

theorem above_target (hf : V.IsForest) (h : Pending V s c target waits) (he : waits e) :
    V.Above s (target e) := by
  obtain ⟨id, _, hfirst⟩ := h.first e he
  exact hfirst.above hf

/-- Other attributes make no difference. -/
theorem keepsIds (h : Pending V s c target waits) (hk : V.KeepsIds W) :
    Pending W s c target waits := by
  obtain ⟨core, parent, children, attributes⟩ := W
  obtain ⟨rfl, rfl, rfl, hids⟩ := hk
  have hid : ∀ id x, HasId ⟨V.core, V.parent, V.children, attributes⟩ id x ↔ V.HasId id x := by
    intro id x
    simp only [HasId, hids]
    rfl
  refine ⟨⟨h.apart.left, h.apart.right, h.apart.ne⟩, h.top, fun e he => ?_,
    fun e id he hide x hx hxid => ?_, h.separate⟩
  · obtain ⟨id, hide, before, behind, hds, ht, hno⟩ := h.first e he
    refine ⟨id, (hids e).trans hide, before, behind, hds.congr fun _ _ => rfl, (hid id _).2 ht, ?_⟩
    exact fun x hx hxid => hno x hx ((hid id x).1 hxid)
  · exact h.own e id he ((hids e).symm.trans hide) x hx ((hid id x).1 hxid)

/-- Nothing inside of another part has the id of a part. -/
theorem not_hasId (h : Pending V s c target waits) (ht : V.IsTop c t) (he : waits e) (hne : e ≠ t)
    {id : Text} (hid : V.attribute? e "id" = some id) : ∀ x, V.Within t x → ¬ V.HasId id x := by
  intro x hx hxid
  have hcx : V.Above c x := hx.elim (fun hxt => hxt ▸ ht.above) fun hx => hx.trans ht.above
  cases h.own e id he hid x hcx hxid
  rcases hx with rfl | hx
  · exact hne rfl
  · exact ht.not_above h.apart.right (h.top e he) hx

/-- Moving a part does not get in the way of the others. -/
theorem exchange (hs : Shows w V) (hf : V.IsForest) (h : Pending V s c target waits)
    (ht : V.Above s t) (he : V.IsTop c e)
    (hout : ∀ f, waits f → f ≠ e → ¬ V.Within t (target f)) :
    Pending (V.exchange t e) s c target fun f => waits f ∧ f ≠ e where
  apart := Apart.apart_exchange h.apart ht he.above
  top f hw := (isTop_exchange h.apart ht he).2 ⟨h.top f hw.1, hw.2⟩
  first f hw := by
    obtain ⟨id, hid, hfirst⟩ := h.first f hw.1
    exact ⟨id, hid, Apart.isFirst_exchange hf h.apart ht he.above hs hfirst (hout f hw.1 hw.2)
      (h.not_hasId he hw.1 hw.2 hid) fun _ _ _ => .rfl⟩
  own f id hw hid x hx := h.own f id hw.1 hid x (Apart.above_of_exchange hf h.apart ht he.above hx)
  separate g f hg hw hne := by
    have hsf := h.above_target hf hw.1
    have hef : ¬ V.Within e (target f) := fun hef =>
      h.apart.not_within (.inr hsf) (.inr (hef.elim (fun hte => hte ▸ he.above)
        fun hef => hef.trans he.above))
    have hgf := h.separate g f hg.1 hw.1 hne
    rintro (heq | ha)
    · exact hgf (.inl heq)
    · exact hgf (.inr ((Apart.above_exchange (hout f hw.1 hw.2) hef).1 ha))

/-- Moving children does not get in the way of parts whose targets are not among what goes. -/
theorem refill (hs : Shows w V) (hf : V.IsForest) (h : Pending V s c target waits)
    (ht : V.Above s t) (he : V.IsTop c e) (hw : ¬ waits e)
    (hout : ∀ f, waits f → ¬ V.Above t (target f)) :
    Pending (V.refill t e) s c target waits where
  apart := Apart.apart_refill hf h.apart ht he.above
  top f hwf := (isTop_refill hf h.apart ht he).2 (h.top f hwf)
  first f hwf := by
    obtain ⟨id, hid, hfirst⟩ := h.first f hwf
    have hne : f ≠ e := fun hfe => hw (hfe ▸ hwf)
    exact ⟨id, hid, Apart.isFirst_refill hf h.apart ht he.above hs hfirst (hout f hwf)
      (fun x hx => h.not_hasId he hwf hne hid x (.inr hx)) fun _ _ _ => .rfl⟩
  own f id hwf hid x hx := h.own f id hwf hid x (Apart.above_of_refill h.apart ht he.above hx)
  separate g f hg hwf hne := by
    have hsf := h.above_target hf hwf
    have hef : ¬ V.Above e (target f) := fun hef =>
      h.apart.not_within (.inr hsf) (.inr (hef.trans he.above))
    have hgf := h.separate g f hg hwf hne
    rintro (heq | ha)
    · exact hgf (.inl heq)
    · exact hgf (.inr ((Apart.above_refill hf h.apart ht he.above (hout f hwf) hef).1 ha))

end Pending

variable {env : Env} {w : World} {V : View} {s c t e : ObjectId} {target : ObjectId → ObjectId}
  {waits : ObjectId → Prop}

/-- Replacing a node of one tree by a node of another. -/
theorem does_exchange (hs : Shows w V) (hf : V.IsForest) (h : V.Apart s c) (ht : V.Above s t)
    (he : V.Above c e) :
    Does env w V (Tree.replaceWith (.object t) (.object e)) () (V.exchange t e) := by
  obtain ⟨p, hp, hsp, ⟨ecore, hecore, _⟩, hne, _⟩ := Apart.exists_parent hf h ht he
  obtain ⟨tcore, htcore, _⟩ := hf.inner t p hp
  have hep : e ≠ p := (h.ne_of_within hsp (.inr he)).symm
  rw [← Apart.replaceWith_eq hf h ht he]
  exact Tree.does_replaceWith hs hf.isLinked htcore hecore hne hp (hf.parent_release hp hne hep)

/-- Moving the children of a node of one tree to a node of another, whose children make way. -/
theorem does_refill (hs : Shows w V) (hf : V.IsForest) (htc : V.Container t)
    (hec : V.Container e) :
    Does env w V (do
      Tree.removeChildren (.object t)
      Tree.stealChildren (.object t) (.object e)) () (V.refill t e) := by
  obtain ⟨tcore, htcore, hth⟩ := htc
  obtain ⟨ecore, hecore, heh⟩ := hec
  refine (Tree.does_removeChildren hs hf.isLinked htcore hth).bind fun w' hs' => ?_
  exact Tree.does_stealChildren hs'.shows (hf.takeChildren t).isLinked htcore hth hecore heh

/-- A part takes the place of its target. -/
theorem does_moveById (hs : Shows w V) (hm : V.IsMarkup) (hsc : V.Container s)
    (h : Pending V s c target waits) (he : waits e) :
    Does env w V (moveById (.object s) (.object e)) () (V.exchange (target e) e) := by
  obtain ⟨id, hid, hfirst⟩ := h.first e he
  have htop := h.top e he
  obtain ⟨tag, hcore⟩ := Tree.isElement_iff.1 htop.1
  obtain ⟨attributes, ha⟩ := hm.attributes e tag hcore
  have hget : M.run' env w (Tree.getAttribute (.object e) (.text "id")) = _ :=
    Tree.run'_getText hs hcore ha "id"
  rw [← View.attribute?_eq ha, hid] at hget
  have hid' : M.run' env w (attributeOrEmpty (.object e) "id") = (.ok (.text id), w) := by
    rw [attributeOrEmpty, M.run'_bind_ok hget]
    rfl
  refine .bind_of_run hid' (.bind_of_run (Tree.run'_findById_first hs hm.toIsForest hsc hfirst) ?_)
  exact does_exchange hs hm.toIsForest h.apart (hfirst.above hm.toIsForest) htop.above

/-- A view after parts were moved to their targets. -/
def moveAll (target : ObjectId → ObjectId) (V : View) (es : List ObjectId) : View :=
  es.foldl (fun V e => V.exchange (target e) e) V

/-- The parts are moved one after another. -/
theorem does_moveAll {es : List ObjectId} (hn : es.Nodup) :
    ∀ {w : World} {V : View}, Shows w V → V.IsMarkup → V.Container s →
      Pending V s c target (· ∈ es) →
      Does env w V ((es.map Value.object).forM (moveById (.object s))) ()
          (moveAll target V es) ∧
        (moveAll target V es).IsMarkup ∧ (moveAll target V es).Apart s c ∧
        ∀ r, V.parent r = some c → (moveAll target V es).parent r = some c := by
  induction es with
  | nil => exact fun hs hm _ h => ⟨.pure hs (), hm, h.apart, fun _ hr => hr⟩
  | cons e es ih =>
    intro w V hs hm hsc h
    obtain ⟨hnot, hn⟩ := List.nodup_cons.1 hn
    have he : e ∈ e :: es := List.mem_cons_self
    have ht := h.above_target hm.toIsForest he
    have htop := h.top e he
    have hpending : Pending (V.exchange (target e) e) s c target (· ∈ es) :=
      (h.exchange hs hm.toIsForest ht htop fun f hf hne =>
        h.separate e f he hf hne.symm).mono fun f hf =>
          ⟨List.mem_cons_of_mem e hf, fun hfe => hnot (hfe ▸ hf)⟩
    have hm' : (V.exchange (target e) e).IsMarkup :=
      hm.relinked (Apart.isForest_exchange hm.toIsForest h.apart ht htop.above) rfl rfl
    obtain ⟨w1, hrun1, hs1⟩ : Does env w V (moveById (.object s) (.object e)) () _ :=
      does_moveById hs hm hsc h he
    obtain ⟨⟨w2, hrun2, hs2⟩, hm2, hapart, hroots⟩ := ih hn hs1.shows hm' hsc hpending
    exact ⟨⟨w2, (M.run'_bind_ok hrun1).trans hrun2, hs1.trans hs2⟩, hm2, hapart,
      fun r hr => hroots r (parent_exchange_root h.apart ht htop hr)⟩

end Page

end PageTemplate
