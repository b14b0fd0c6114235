import PageTemplate.Proofs.Template.Frontier
import PageTemplate.Proofs.Template.Tracing

/-!
# PageTemplate.Proofs.Template.Attributes

The attributes of an element under expansion. Their markers are replaced one attribute after
another; what was an attribute of the template before is evaluated, and what comes in its place is
not.
-/

namespace PageTemplate

open Markup (HasMarker)
open Expander (onrenderName requireAttribute)

variable {x : Expander} {env : Env} {kept : ObjectId → Prop} {allowed : Text → Prop}
  {F : Frontier} {scope : ScopeId}

namespace Sound

variable {α : Type} {P : World → Prop} {Q : α → World → Prop}

/-- A step that leaves standing what waits. -/
theorem moves {action : M α}
    (h : ∀ w, P w → ∃ F : Frontier, F.Ready kept w ∧ F.Moves action ∧
      ∀ a w', F.Ready kept w' → Q a w') :
    Sound x env kept allowed P ((Observer.tracing x).step action) Q := by
  refine .step fun env' spared n henv _ hkept hnew w hw a w' hr hf => ?_
  obtain ⟨F, ⟨zs, hzs, hin, hs⟩, hmoves, hq⟩ := h w hw.1
  have hstands := hmoves env' spared n zs henv hzs (hin.mono hkept) hnew w
    ⟨hs, Nat.le_of_eq hw.2⟩ a w' hr
  exact hq a w' (.of_standsFrom hzs hin hstands hf)

/-- Whether a property says that some frontier stands, and nothing else about the store. -/
def Held (kept : ObjectId → Prop) (P : World → Prop) : Prop :=
  ∀ w, P w → ∃ F : Frontier, F.Ready kept w ∧ ∀ w', F.Ready kept w' → P w'

namespace Held

theorem ready (F : Frontier) : Held kept (F.Ready kept) := fun _ h => ⟨F, h, fun _ h' => h'⟩

theorem frame (p : Prop) (h : Held kept P) : Held kept fun w => p ∧ P w := by
  rintro w ⟨hp, hw⟩
  obtain ⟨F, hr, hq⟩ := h w hw
  exact ⟨F, hr, fun w' h' => ⟨hp, hq w' h'⟩⟩

theorem exists_ {ι : Type} {P : ι → World → Prop} (h : ∀ i, Held kept (P i)) :
    Held kept fun w => ∃ i, P i w := by
  rintro w ⟨i, hw⟩
  obtain ⟨F, hr, hq⟩ := h i w hw
  exact ⟨F, hr, fun w' h' => ⟨i, hq w' h'⟩⟩

theorem lasts (h : Held kept P) : Lasts kept P := fun w w' hw hk => by
  obtain ⟨F, hr, hq⟩ := h w hw
  exact hq w' (hr.keep hk)

end Held

/-- A step that leaves standing whatever waits. -/
theorem held (hP : Held kept P) {action : M α} (hm : ∀ F : Frontier, F.Moves action) :
    Sound x env kept allowed P ((Observer.tracing x).step action) fun _ => P :=
  .moves fun w hw => by
    obtain ⟨F, hr, hq⟩ := hP w hw
    exact ⟨F, hr, hm F, fun _ => hq⟩

theorem reads (hP : Held kept P) {action : M α}
    (hr : ∀ env S [KeptByReads env S], Respects env S action) :
    Sound x env kept allowed P ((Observer.tracing x).step action) fun _ => P :=
  .held hP fun _ => .of_respects hr

end Sound

namespace Observer

/-- Replacing the markers of a text whose markers hold code that is allowed. -/
theorem sound_substituteText {P : World → Prop} (hP : Sound.Lasts kept P) {t : Text}
    (ht : ∀ w, P w → ∀ code, HasMarker t code → allowed code) (encode : Value → M Value)
    (place : Text) :
    Sound x env kept allowed P ((tracing x).substituteText scope encode place t) fun _ => P := by
  unfold substituteText
  refine .bind (Q := fun _ => P) (.mapM fun marker hm => ?_) fun parts => ?_
  · refine (Sound.evaluate hP fun w hw => ht w hw _ ⟨marker.1, hm⟩).bind fun v => ?_
    refine (Sound.look hP _).bind fun encoded => (Sound.look hP _).bind fun part => ?_
    exact .pure fun _ hw => hw
  · refine .ite (.bind (Q := fun _ => P) (.step_of fun _ => .throw _) fun _ => ?_) ?_
    · exact .pure fun _ hw => hw
    · exact .pure fun _ hw => hw

/-- Replacing the markers of a value. A text becomes a text. -/
theorem sound_substitute {P : World → Prop} (hP : Sound.Lasts kept P) {v : Value}
    (hv : ∀ w, P w → ∀ t code, v = .text t → HasMarker t code → allowed code) (place : Text) :
    Sound x env kept allowed P ((tracing x).substitute scope place v) fun u w =>
      (∀ t, v = .text t → ∃ s, u = .text s) ∧ P w := by
  unfold substitute
  cases v with
  | text t =>
    refine .bind (sound_substituteText hP (fun w hw code => hv w hw t code rfl) _ _) fun s => ?_
    exact .pure fun _ hw => ⟨fun _ _ => ⟨s, rfl⟩, hw⟩
  | _ => exact (Sound.look hP _).imp fun _ _ hw => ⟨fun _ ht => (by cases ht), hw⟩

theorem sound_expandAttribute {P Q : World → Prop} (hP : Sound.Lasts kept P)
    {attributes name value : Value}
    (hv : ∀ w, P w → ∀ t code, value = .text t → HasMarker t code → allowed code)
    (hput : name.strictlyEqual (.text onrenderName) = false → ∀ u, Sound x env kept allowed
      (fun w => (∀ t, value = .text t → ∃ s, u = .text s) ∧ P w)
      ((tracing x).step (Tree.putEntry attributes name u)) fun _ => Q)
    (hskip : name.strictlyEqual (.text onrenderName) = true → ∀ w, P w → Q w) :
    Sound x env kept allowed P ((tracing x).expandAttribute attributes scope name value)
      fun _ => Q := by
  unfold expandAttribute
  cases hname : name.strictlyEqual (.text onrenderName) with
  | true => exact .pure (hskip hname)
  | false =>
    refine (Sound.look hP _).bind fun shown => ?_
    exact (sound_substitute hP hv _).bind fun u => hput hname u

/-- Iterating over a value without any effect on what is known. -/
theorem sound_visit {P : World → Prop} (hP : Sound.Lasts kept P) {α : Type} (v : Value)
    {action : Value → Nat → Recorded Event α}
    (ha : ∀ item i, Sound x env kept allowed P (action item i) fun _ => P) :
    Sound x env kept allowed P ((tracing x).visit v action) fun _ => P := by
  have hfrom : ∀ n place done, Sound x env kept allowed P
      ((tracing x).visitFrom v action n place done) fun _ => P := by
    intro n
    induction n with
    | zero => exact fun _ _ => .step_of fun _ => .throw _
    | succ n ih =>
      intro place done
      unfold visitFrom
      refine (Sound.look hP _).bind fun turn => ?_
      cases turn with
      | done => exact .pure fun _ hw => hw
      | vacant => exact ih _ _
      | item item => exact (ha item _).bind fun a => ih _ _
  unfold visit
  cases v with
  | text t => exact .mapM fun item _ => ha item.1 item.2
  | _ => exact hfrom _ _ _

/-! Visiting an element. -/

/-- A value is an element of a template, and it is the next one to be visited. -/
def Meets (kept : ObjectId → Prop) (allowed : Text → Prop) (F : Frontier) (v : Value) (w : World) :
    Prop :=
  ∃ e : Element, v = .object e.id ∧ e.node.Carries allowed ∧ (F.plus [e.plot]).Ready kept w

theorem held_meets (v : Value) : Sound.Held kept (Meets kept allowed F v) := by
  rintro w ⟨e, hv, hc, hr⟩
  exact ⟨_, hr, fun w' h' => ⟨e, hv, hc, h'⟩⟩

theorem Meets.ready {v : Value} {w : World} (h : Meets kept allowed F v w) : F.Ready kept w := by
  obtain ⟨e, -, -, hr⟩ := h
  exact hr.last

/-- The attribute of an element, as its attributes say. -/
theorem run'_getAttribute {e : Element} {w : World} {q : Option ObjectId}
    (hr : w.cells[e.id]? = some (Tree.nodeCell e.id (.element (.text e.tag)) q))
    (hm : w.cells[Tree.attributesOf e.id]? = some (.map (Tree.entriesOfTexts e.attributes)))
    (env : Env) (name : Text) :
    M.run' env w (Tree.getAttribute (.object e.id) (.text name)) =
      (.ok (.ofOption ((Assoc.find? name e.attributes).map .text)), w) := by
  rw [Tree.getAttribute, M.run'_bind_ok (Tree.run'_attributeMap hr rfl),
    M.run'_bind_ok (Tree.run'_mapEntries hm)]
  simp only [M.run'_pure, Entries.find?, Tree.live_entriesOfTexts, Markup.find_values]

/-- Whether attributes have come from others by the replacement of markers: names stay, and so does
what the element is finished with. -/
structure Rewrites (before after : Markup.Attributes) : Prop where
  names : after.map (·.1) = before.map (·.1)
  finish : ∀ code, (onrenderName, code) ∈ after → (onrenderName, code) ∈ before

theorem Rewrites.refl (attributes : Markup.Attributes) : Rewrites attributes attributes :=
  ⟨rfl, fun _ h => h⟩

theorem Rewrites.snoc {before after : Markup.Attributes} (h : Rewrites before after) {name : Text}
    {value value' : Text} (hv : name = onrenderName → value' = value) :
    Rewrites (before ++ [(name, value)]) (after ++ [(name, value')]) where
  names := by simp [h.names]
  finish code hm := by
    rcases List.mem_append.1 hm with hm | hm
    · exact List.mem_append_left _ (h.finish code hm)
    · obtain ⟨rfl, rfl⟩ := Prod.mk.inj (List.mem_singleton.1 hm)
      rw [hv rfl]
      exact List.mem_append_right _ (List.mem_singleton.2 rfl)

/-- An element whose attributes have been replaced up to a place. -/
def Replacing (kept : ObjectId → Prop) (allowed : Text → Prop) (F : Frontier) (v : Value)
    (map : ObjectId) (place : Nat) (w : World) : Prop :=
  ∃ (e : Element) (before done rest : Markup.Attributes),
    v = .object e.id ∧ map = Tree.attributesOf e.id ∧ e.node.Carries allowed ∧
      e.attributes = before ++ rest ∧ Rewrites before done ∧ done.length = place ∧
      (F.plus [(e.rewrite (done ++ rest)).plot]).Ready kept w

/-- An element of which the children are to be visited, and what it is finished with. -/
def Opens (kept : ObjectId → Prop) (allowed : Text → Prop) (F : Frontier) (v : Value)
    (w : World) : Prop :=
  ∃ e : Element, v = .object e.id ∧ (∀ n ∈ e.children, n.Carries allowed) ∧
    (∀ code, (onrenderName, code) ∈ e.attributes → allowed code) ∧
      (F.plus [e.plot]).Ready kept w

theorem mem_onrenderName : onrenderName ∈ Markup.codeAttributes := by decide

theorem Meets.opens {v : Value} {w : World} (h : Meets kept allowed F v w) :
    Opens kept allowed F v w := by
  obtain ⟨e, hv, hc, hr⟩ := h
  exact ⟨e, hv, fun _ hn => hc.child hn, fun _ hm => hc.value mem_onrenderName hm, hr⟩

/-- The attribute at a place. -/
theorem entriesOfTexts_place {done rest : Markup.Attributes} :
    (Tree.entriesOfTexts (done ++ rest))[done.length]? =
      rest.head?.map fun a => some (.text a.1, .text a.2) := by
  cases rest with
  | nil => simp [Tree.entriesOfTexts]
  | cons a rest => simp [Tree.entriesOfTexts]

/-- Replacing the value of one attribute. -/
theorem put_entriesOfTexts {done rest : Markup.Attributes} {name value : Text}
    (hn : ((done ++ (name, value) :: rest).map (·.1)).Nodup) (value' : Text) :
    (Tree.entriesOfTexts (done ++ (name, value) :: rest)).put (.text name) (.text value') =
      Tree.entriesOfTexts (done ++ (name, value') :: rest) := by
  rw [List.map_append, List.map_cons] at hn
  obtain ⟨-, hrest, hdone⟩ := List.nodup_append.1 hn
  have hleft : name ∉ done.map (·.1) := fun hm => hdone _ hm _ List.mem_cons_self rfl
  have hright : name ∉ rest.map (·.1) := (List.nodup_cons.1 hrest).1
  have hput := Entries.put_middle
    (Markup.lacks_values (Tree.live_entriesOfTexts done) hleft)
    (Markup.lacks_values (Tree.live_entriesOfTexts rest) hright) (.text value) (.text value')
  simpa [Tree.entriesOfTexts] using hput

/-- An element whose attributes have been replaced up to a place, and the object that holds them as
they are now. -/
def Reading (kept : ObjectId → Prop) (allowed : Text → Prop) (F : Frontier) (v : Value)
    (map : ObjectId) (place : Nat) (cell : Cell) (w : World) : Prop :=
  ∃ (e : Element) (before done rest : Markup.Attributes),
    (v = .object e.id ∧ map = Tree.attributesOf e.id ∧ e.node.Carries allowed ∧
      e.attributes = before ++ rest ∧ Rewrites before done ∧ done.length = place ∧
      (F.plus [(e.rewrite (done ++ rest)).plot]).Ready kept w) ∧
    cell = .map (Tree.entriesOfTexts (done ++ rest))

theorem lasts_reading (v : Value) (map : ObjectId) (place : Nat) (cell : Cell) :
    Sound.Lasts kept (Reading kept allowed F v map place cell) := by
  rintro w w' ⟨e, before, done, rest, ⟨hv, hm, hc, ha, hw, hp, hr⟩, hcell⟩ hk
  exact ⟨e, before, done, rest, ⟨hv, hm, hc, ha, hw, hp, hr.keep hk⟩, hcell⟩

/-- The attribute that comes next. -/
theorem Reading.next {v : Value} {map : ObjectId} {place : Nat} {entries : Entries} {w : World}
    {name value : Value} (h : Reading kept allowed F v map place (.map entries) w)
    (he : entries[place]? = some (some (name, value))) :
    ∃ (e : Element) (before done rest : Markup.Attributes) (n t : Text),
      name = .text n ∧ value = .text t ∧ entries = Tree.entriesOfTexts (done ++ (n, t) :: rest) ∧
      v = .object e.id ∧ map = Tree.attributesOf e.id ∧ e.node.Carries allowed ∧
      e.attributes = before ++ (n, t) :: rest ∧ Rewrites before done ∧ done.length = place ∧
      (F.plus [(e.rewrite (done ++ (n, t) :: rest)).plot]).Ready kept w := by
  obtain ⟨e, before, done, rest, ⟨hv, hm, hc, ha, hw, rfl, hr⟩, hcell⟩ := h
  cases hcell
  rw [entriesOfTexts_place] at he
  cases rest with
  | nil => cases he
  | cons a rest =>
    cases he
    exact ⟨e, before, done, rest, a.1, a.2, rfl, rfl, rfl, hv, hm, hc, ha, hw, rfl, hr⟩

theorem sound_expandEntries (v : Value) (map : ObjectId) (n place : Nat) :
    Sound x env kept allowed (Replacing kept allowed F v map place)
      ((tracing x).expandEntries scope map n place) fun _ => Opens kept allowed F v := by
  induction n generalizing place with
  | zero => exact .step_of fun _ => .throw _
  | succ n ih =>
    unfold expandEntries
    refine .bind (Q := fun cell => Reading kept allowed F v map place cell)
      (.step_of fun env => ?_) fun cell => ?_
    · rintro w ⟨e, before, done, rest, h⟩ a w' hr
      rw [Store.run'_cell] at hr
      cases hr
      refine ⟨e, before, done, rest, h, ?_⟩
      obtain ⟨-, rfl, -, -, -, -, hready⟩ := h
      obtain ⟨l, hl⟩ := hready.head
      exact World.cell_of_getElem? (Element.cells hl).2
    · cases cell with
      | map entries =>
        dsimp only
        cases he : entries[place]? with
        | none =>
          refine .pure fun w hw => ?_
          obtain ⟨e, before, done, rest, ⟨hv, hm, hc, ha, hw, rfl, hr⟩, hcell⟩ := hw
          cases hcell
          rw [entriesOfTexts_place] at he
          cases rest with
          | nil =>
            rw [List.append_nil] at ha hr
            refine ⟨e.rewrite done, hv, fun _ hn => hc.child hn, fun code hm => ?_, hr⟩
            exact hc.value mem_onrenderName (ha ▸ hw.finish code hm)
          | cons a rest => cases he
        | some entry =>
          cases entry with
          | none =>
            refine (ih (place + 1)).of_imp fun w hw => ?_
            obtain ⟨e, before, done, rest, ⟨-, -, -, -, -, rfl, -⟩, hcell⟩ := hw
            cases hcell
            rw [entriesOfTexts_place] at he
            cases rest with
            | nil => cases he
            | cons a rest => cases he
          | some entry =>
            obtain ⟨name, value⟩ := entry
            refine .bind (sound_expandAttribute (Q := Replacing kept allowed F v map (place + 1))
              (lasts_reading v map place (.map entries)) ?_ ?_ ?_) fun _ => ih (place + 1)
            · rintro w hw t code rfl ht
              obtain ⟨e, before, done, rest, n, _, -, ⟨⟩, -, -, -, hc, ha, -⟩ := hw.next he
              have hm : (n, t) ∈ e.attributes := by
                rw [ha]
                exact List.mem_append_right before List.mem_cons_self
              exact hc.marker hm ht
            · refine fun hname u => .step_of fun env => ?_
              rintro w ⟨hu, hw⟩ _ w' hr
              obtain ⟨e, before, done, rest, n, t, rfl, rfl, rfl, hv, rfl, hc, ha, hre, hp, hready⟩ :=
                hw.next he
              obtain ⟨s, rfl⟩ := hu t rfl
              obtain ⟨l, hl⟩ := hready.head
              have hmap : w.cells[Tree.attributesOf e.id]? =
                  some (.map (Tree.entriesOfTexts (done ++ (n, t) :: rest))) := (Element.cells hl).2
              rw [Tree.putEntry, M.run'_bind_ok (Tree.run'_mapEntries hmap)] at hr
              cases hr
              have hnodup : ((done ++ (n, t) :: rest).map (·.1)).Nodup := by
                have hd := hc.distinct
                rw [ha] at hd
                simpa [hre.names] using hd
              have hne : n = onrenderName → s = t := fun he => by
                rw [he] at hname
                simp at hname
              refine ⟨e, before ++ [(n, t)], done ++ [(n, s)], rest, hv, rfl, hc, ?_,
                hre.snoc hne, by simp [hp], ?_⟩
              · rw [ha, List.append_assoc]
                rfl
              · have hnew := hready.rewrite (done ++ (n, s) :: rest)
                rw [List.append_assoc]
                rw [put_entriesOfTexts hnodup]
                exact hnew
            · rintro - w hw
              obtain ⟨e, before, done, rest, n, t, -, -, -, hv, hm, hc, ha, hre, hp, hready⟩ :=
                hw.next he
              refine ⟨e, before ++ [(n, t)], done ++ [(n, t)], rest, hv, hm, hc, ?_,
                hre.snoc fun _ => rfl, by simp [hp], ?_⟩
              · rw [ha, List.append_assoc]
                rfl
              · rw [List.append_assoc]
                exact hready
      | _ => exact .step_of fun _ => .typeError

/-- Replacing the attributes of an element that is met. -/
theorem sound_expandAttributes (v : Value) :
    Sound x env kept allowed (Meets kept allowed F v) ((tracing x).expandAttributes v scope)
      fun _ => Opens kept allowed F v := by
  unfold expandAttributes
  refine .bind (Q := fun map w => ∃ e : Element, map = .object (Tree.attributesOf e.id) ∧
    v = .object e.id ∧ e.node.Carries allowed ∧ (F.plus [e.plot]).Ready kept w)
    (.step_of fun env => ?_) fun map => ?_
  · rintro w ⟨e, rfl, hc, hr⟩ a w' hrun
    obtain ⟨l, hl⟩ := hr.head
    obtain ⟨⟨q, hrecord⟩, -⟩ := Element.cells hl
    rw [Tree.run'_attributeMap hrecord rfl] at hrun
    cases hrun
    exact ⟨e, rfl, rfl, hc, hr⟩
  refine .bind (Q := fun found w => ∃ id entries, found = some (id, entries) ∧
    Replacing kept allowed F v id 0 w) (.look_of ?_) fun found => ?_
  · rintro w ⟨e, rfl, rfl, hc, hr⟩ a w' hrun hk
    obtain ⟨l, hl⟩ := hr.head
    rw [Tree.run'_mapEntries (Element.cells hl).2] at hrun
    cases hrun
    exact ⟨_, _, rfl, e, [], [], e.attributes, rfl, rfl, hc, rfl, .refl [], rfl, hr.keep hk⟩
  · cases found with
    | some found =>
      refine (sound_expandEntries v found.1 _ 0).of_imp fun w hw => ?_
      obtain ⟨id, entries, ⟨⟩, hw⟩ := hw
      exact hw
    | none =>
      -- This does not come up: the attributes of an element of a template are in a map.
      have hnever : Sound.Lasts kept fun _ => False := fun _ _ h => h.elim
      have hvisit : Sound x env kept allowed (fun _ => False)
          (discard ((tracing x).visit map fun entry _ => do
            let parts ← (tracing x).look (Sequence.iterate entry)
            (tracing x).expandAttribute map scope (parts.getD 0 .undefined)
              (parts.getD 1 .undefined))) fun _ _ => False :=
        .discard (sound_visit hnever map fun entry _ => (Sound.look hnever _).bind fun parts =>
          sound_expandAttribute hnever (fun _ h => h.elim)
            (fun _ _ => .step_of fun _ _ h => h.2.elim) fun _ _ h => h)
      refine (hvisit.of_imp fun w hw => ?_).imp fun _ _ h => h.elim
      obtain ⟨id, entries, ⟨⟩, -⟩ := hw

end Observer

end PageTemplate
