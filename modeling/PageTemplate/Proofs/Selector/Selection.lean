import PageTemplate.Proofs.Selector.Compound

/-!
# PageTemplate.Proofs.Selector.Selection

Queries in the store. A query goes down by child lists and looks up by parent links, and in a forest
it meets the elements below its start in document order, each once and with the elements around it.
So what it selects are the elements below its start that match, in this order; looking for an id
goes the same way and stops at the first one.
-/

namespace PageTemplate

namespace Tree

open Selector

variable {env : Env} {w : World} {V : View}

theorem isElement_iff {V : View} {e : ObjectId} :
    V.isElement e = true ↔ ∃ tag, V.core e = some (.element tag) := by
  rw [View.isElement]
  cases h : V.core e with
  | none => simp
  | some core => cases core <;> simp [NodeCore.kind]

theorem run'_isElement_view (hs : Shows w V) {e : ObjectId} {core : NodeCore}
    (he : V.core e = some core) :
    M.run' env w (isElement (.object e)) = (.ok (V.isElement e), w) := by
  rw [run'_isElement (hs.record e core he), View.isElement, he]
  rfl

theorem run'_elementsAmong (hs : Shows w V) {ids : List ObjectId}
    (hids : ∀ c ∈ ids, ∃ core, V.core c = some core) :
    M.run' env w ((ids.map Value.object).filterM isElement) =
      (.ok ((ids.filter V.isElement).map .object), w) := by
  refine M.run'_filterM fun c hc => ?_
  obtain ⟨core, hcore⟩ := hids c hc
  exact run'_isElement_view hs hcore

theorem child_core (hf : V.IsForest) {p : ObjectId} :
    ∀ c ∈ V.children p, ∃ core, V.core c = some core := by
  intro c hc
  obtain ⟨core, hcore, _⟩ := hf.inner c p ((hf.mem_children p c).1 hc)
  exact ⟨core, hcore⟩

theorem run'_elementChildren (hs : Shows w V) (hf : V.IsForest) {p : ObjectId} {core : NodeCore}
    (hp : V.core p = some core) (hh : core.hasChildren) :
    M.run' env w (elementChildren (.object p)) = (.ok ((V.elements p).map .object), w) := by
  rw [elementChildren, M.run'_bind_ok (run'_childList (hs.record p core hp) hh), ChildList.elements,
    M.run'_bind_ok (run'_objectList (hs.list p core hp hh))]
  exact run'_elementsAmong hs (child_core hf)

/-! First and last among others. -/

theorem head?_append_cons_iff {α : Type} {before after : List α} {x : α}
    (h : (before ++ x :: after).Nodup) : before = [] ↔ (before ++ x :: after).head? = some x := by
  cases before with
  | nil => simp
  | cons y ys =>
    have hne : y ≠ x := by
      rintro rfl
      simp at h
    simp [hne]

theorem getLast?_append_cons_iff {α : Type} {before after : List α} {x : α}
    (h : (before ++ x :: after).Nodup) :
    after = [] ↔ (before ++ x :: after).getLast? = some x := by
  have hrev : (after.reverse ++ x :: before.reverse).Nodup := by
    simpa using List.nodup_reverse.2 h
  rw [← List.head?_reverse]
  simpa using head?_append_cons_iff hrev

/-! Looking up. -/

theorem run'_answer {action : M Bool} {b : Bool} (h : M.run' env w action = (.ok b, w)) :
    M.run' env w (answer? action) = (.ok (some b), w) := by
  rw [answer?, M.run'_tryCatch, M.run'_bind_ok h]
  rfl

theorem any_object_iff (found : Option ObjectId) (e : ObjectId) :
    (found.map Value.object).any (·.strictlyEqual (.object e)) = true ↔ found = some e := by
  cases found <;> simp

/-- An element is seen with its place in the tree. -/
theorem run'_seat (hs : Shows w V) (hm : V.IsMarkup) {e : ObjectId} (he : V.isElement e) :
    ∃ s, M.run' env w (seat (.object e)) = (.ok s, w) ∧ s.Tells V e := by
  obtain ⟨tag, he⟩ := isElement_iff.1 he
  obtain ⟨t, rfl⟩ := hm.tags e tag he
  have hrec := hs.record e _ he
  rw [seat, M.run'_bind_ok (run'_facts hs he), M.run'_bind_ok (run'_parent hrec)]
  cases hp : V.parent e with
  | none =>
    refine ⟨_, rfl, ⟨t, he, rfl⟩, ?_, ?_, ?_⟩
    · exact ⟨false, rfl, by simp [PlainPseudo.Fits, hp]⟩
    · exact ⟨false, rfl, by simp [PlainPseudo.Fits, hp]⟩
    · exact ⟨false, rfl, by simp [PlainPseudo.Fits, hp]⟩
  | some p =>
    obtain ⟨core, hcore, hh⟩ := hm.container e p hp
    have hkind : M.run' env w (do return (← kind? (.object p)) == some .document) =
        (.ok (core.kind == .document), w) := by
      rw [M.run'_bind_ok (run'_kind (hs.record p core hcore))]
      rfl
    have hchildren : M.run' env w (elementChildren (.object p)) = _ :=
      run'_elementChildren hs hm.toIsForest hcore hh
    have hfirst : M.run' env w (do
        return (← elementChildren (.object p)).head?.any (·.strictlyEqual (.object e))) =
        (.ok (((V.elements p).head?.map Value.object).any (·.strictlyEqual (.object e))), w) := by
      rw [M.run'_bind_ok hchildren, List.head?_map]
      rfl
    have hlast : M.run' env w (do
        if !(Value.object p).isTruthy then return false
        return (← elementChildren (.object p)).getLast?.any (·.strictlyEqual (.object e))) =
        (.ok (((V.elements p).getLast?.map Value.object).any (·.strictlyEqual (.object e))), w) := by
      simp only [Value.isTruthy, Bool.not_true, Bool.false_eq_true, if_false]
      rw [M.run'_bind_ok hchildren, List.getLast?_map]
      rfl
    simp only [parentValue]
    rw [M.run'_bind_ok (run'_answer hkind), M.run'_bind_ok (run'_answer hfirst),
      M.run'_bind_ok (run'_answer hlast)]
    refine ⟨_, rfl, ⟨t, he, rfl⟩, ⟨_, rfl, ?_⟩, ⟨_, rfl, ?_⟩, ⟨_, rfl, ?_⟩⟩
    · simp only [PlainPseudo.Fits, hp, Option.some.injEq, exists_eq_left', hcore]
      cases core <;> simp [NodeCore.kind]
    · simp [PlainPseudo.Fits, hp, any_object_iff]
    · simp [PlainPseudo.Fits, hp, any_object_iff]

/-- A parent is an element, or it has no parent. -/
theorem tells_top (hf : V.IsForest) {q : Option ObjectId}
    (hq : ∀ p, q = some p → V.Container p ∧ V.isElement p = false) : Lineage.Tells V q [] := by
  refine .top fun p hp => ?_
  obtain ⟨⟨core, hcore, hh⟩, helement⟩ := hq p hp
  refine ⟨helement, ?_⟩
  cases hpar : V.parent p with
  | none => rfl
  | some r =>
    obtain ⟨core', hcore', hi⟩ := hf.inner p r hpar
    cases hcore.symm.trans hcore'
    rw [View.isElement, hcore] at helement
    cases core <;> simp_all [NodeCore.kind, NodeCore.isInner, NodeCore.hasChildren]

theorem run'_lineageWithin (hs : Shows w V) (hm : V.IsMarkup) {depth : ObjectId → Nat}
    (hdepth : ∀ c p, V.parent c = some p → depth p < depth c) (n : Nat) :
    ∀ q, (∀ p, q = some p → V.Container p ∧ depth p < n) →
      ∃ l, M.run' env w (lineageWithin n (parentValue q)) = (.ok l, w) ∧ Lineage.Tells V q l := by
  induction n with
  | zero =>
    intro q hq
    cases q with
    | none => exact ⟨[], rfl, .top nofun⟩
    | some p => exact absurd (hq p rfl).2 (Nat.not_lt_zero _)
  | succ n ih =>
    intro q hq
    cases q with
    | none => exact ⟨[], rfl, .top nofun⟩
    | some e =>
      obtain ⟨⟨core, hcore, hh⟩, hlt⟩ := hq e rfl
      have hrun : M.run' env w (isElement (.object e)) = _ := run'_isElement_view hs hcore
      cases he : V.isElement e with
      | false =>
        rw [he] at hrun
        refine ⟨[], ?_, tells_top hm.toIsForest ?_⟩
        · rw [parentValue, lineageWithin, M.run'_bind_ok hrun]
          rfl
        · rintro p hp
          cases hp
          exact ⟨⟨core, hcore, hh⟩, he⟩
      | true =>
        rw [he] at hrun
        obtain ⟨s, hseat, htells⟩ : ∃ s, M.run' env w (seat (.object e)) = (.ok s, w) ∧
          s.Tells V e := run'_seat hs hm he
        obtain ⟨l, hl, hrest⟩ := ih (V.parent e) fun p hp => by
          have := hdepth e p hp
          exact ⟨hm.container e p hp, by omega⟩
        refine ⟨s :: l, ?_, .element htells hrest⟩
        rw [parentValue, lineageWithin, M.run'_bind_ok hrun, if_pos rfl, M.run'_bind_ok hseat,
          M.run'_bind_ok (run'_parent (hs.record e core hcore)), M.run'_bind_ok hl]
        rfl

/-- Looking up from a node. -/
theorem run'_lineage (hs : Shows w V) (hm : V.IsMarkup) {e : ObjectId} (he : V.Container e) :
    ∃ l, M.run' env w (lineage (.object e)) = (.ok l, w) ∧ Lineage.Tells V (some e) l := by
  obtain ⟨depth, hdepth, hle⟩ := hm.exists_depth hs
  rw [lineage, M.run'_bind_ok Store.run'_depth]
  refine run'_lineageWithin hs hm hdepth (w.cells.size + 1) (some e) ?_
  rintro p hp
  cases hp
  exact ⟨he, Nat.lt_succ_of_le (hle e)⟩

/-! Going down. -/

/-- Elements as a query goes through them, each with the elements inside it. -/
inductive Outlines (V : View) : List ObjectId → List (Outline Value) → Prop where
  | nil : Outlines V [] []
  | cons {c : ObjectId} {cs : List ObjectId} {tag : Text} {inner os : List (Outline Value)} :
      V.core c = some (.element (.text tag)) → Outlines V (V.elements c) inner →
      Outlines V cs os →
      Outlines V (c :: cs) (.element (.object c) (elementFacts V tag c) inner :: os)

theorem Outlines.isEmpty_iff {cs : List ObjectId} {os : List (Outline Value)}
    (h : Outlines V cs os) : os.isEmpty = true ↔ cs = [] := by
  cases h <;> simp

theorem run'_isSettled_element (hs : Shows w V) (hf : V.IsForest) {p c : ObjectId}
    {core : NodeCore} (hc : V.core c = some core) (hm : c ∈ V.elements p) :
    M.run' env w (isSettled (.object p) ((V.elements p).map .object) (.object c)) =
      (.ok true, w) := by
  have hchild : c ∈ V.children p := List.mem_of_mem_filter hm
  have hnodup : (V.elements p).Nodup := (hf.nodup p).filter _
  have hcount : ((V.elements p).map Value.object).countP (·.strictlyEqual (.object c)) = 1 := by
    rw [List.countP_map]
    exact List.nodup_iff_count_eq_one.1 hnodup c hm
  rw [isSettled, M.run'_bind_ok (run'_parent (hs.record c core hc)), (hf.mem_children p c).1 hchild]
  simp only [parentValue, Value.object_strictlyEqual, beq_self_eq_true, Bool.not_true,
    Bool.false_eq_true, if_false, M.run'_pure, ← List.countP_eq_length_filter, hcount]

theorem run'_outlinesWithin (hs : Shows w V) (hm : V.IsMarkup) {depth : ObjectId → Nat}
    (hdepth : ∀ c p, V.parent c = some p → depth p < depth c) (hle : ∀ c, depth c ≤ w.cells.size)
    (n : Nat) :
    ∀ {p : ObjectId} {core : NodeCore}, V.core p = some core → core.hasChildren →
      w.cells.size < depth p + n →
      ∃ os, M.run' env w (outlinesWithin n (.object p)) = (.ok os, w) ∧
        Outlines V (V.elements p) os := by
  induction n with
  | zero =>
    intro p core _ _ hlt
    have := hle p
    omega
  | succ n ih =>
    intro p core hp hh hlt
    have hchildren : M.run' env w (children (.object p)) = _ := run'_children hs hp hh
    have helements : M.run' env w (((V.children p).map Value.object).filterM isElement) = _ :=
      run'_elementsAmong hs (child_core hm.toIsForest)
    rw [outlinesWithin, M.run'_bind_ok hchildren, M.run'_bind_ok helements,
      M.run'_bind_ok (run'_isOrdered hs hp hh)]
    -- Every one of the siblings is found where it is, so all of them are as they should be.
    have heach : ∀ cs : List ObjectId, (∀ c ∈ cs, c ∈ V.elements p) →
        ∃ os, M.run' env w ((cs.map Value.object).mapM fun v => do
          if true && (← isSettled (.object p) ((V.elements p).map .object) v) then
            return Outline.element v (← facts v) (← outlinesWithin n v)
          else return .stray v (← lineage v) (← outlinesWithin n v)) = (.ok os, w) ∧
          Outlines V cs os := by
      intro cs
      induction cs with
      | nil => exact fun _ => ⟨[], rfl, .nil⟩
      | cons c cs ihcs =>
        intro hcs
        have hc := hcs c List.mem_cons_self
        obtain ⟨hchild, helement⟩ := List.mem_filter.1 hc
        obtain ⟨tag, hcore⟩ := isElement_iff.1 helement
        obtain ⟨t, rfl⟩ := hm.tags c tag hcore
        have hlt' := hdepth c p ((hm.mem_children p c).1 hchild)
        obtain ⟨inner, hinner, hinside⟩ := ih hcore rfl (by omega)
        obtain ⟨os, hos, hrest⟩ := ihcs fun d hd => hcs d (List.mem_cons_of_mem c hd)
        refine ⟨_, ?_, .cons hcore hinside hrest⟩
        have hsettled : M.run' env w
            (isSettled (.object p) ((V.elements p).map .object) (.object c)) = (.ok true, w) :=
          run'_isSettled_element hs hm.toIsForest hcore hc
        rw [List.map_cons, List.mapM_cons]
        have hone : M.run' env w (do
            if true && (← isSettled (.object p) ((V.elements p).map .object) (.object c)) then
              return Outline.element (.object c) (← facts (.object c)) (← outlinesWithin n (.object c))
            else return .stray (.object c) (← lineage (.object c)) (← outlinesWithin n (.object c))) =
            (.ok (.element (.object c) (elementFacts V t c) inner), w) := by
          rw [M.run'_bind_ok hsettled, Bool.and_self, if_pos rfl,
            M.run'_bind_ok (run'_facts hs hcore), M.run'_bind_ok hinner]
          rfl
        rw [M.run'_bind_ok hone, M.run'_bind_ok hos]
        rfl
    exact heach _ fun c hc => hc

/-- What has no children has nothing below it. -/
theorem children_eq_nil (hf : V.IsForest) {c p : ObjectId} (hp : V.parent c = some p)
    (he : V.isElement c = false) : V.children c = [] := by
  by_contra hne
  obtain ⟨d, hd⟩ := List.exists_mem_of_ne_nil _ hne
  obtain ⟨core, hcore, hh⟩ := hf.container d c ((hf.mem_children c d).1 hd)
  obtain ⟨core', hcore', hi⟩ := hf.inner c p hp
  cases hcore.symm.trans hcore'
  rw [View.isElement, hcore] at he
  cases core <;> simp_all [NodeCore.kind, NodeCore.isInner, NodeCore.hasChildren]

/-- A query meets the elements below its start in document order, and tells of each of them and of
what is around it. -/
theorem tells_seatedAmong (hf : V.IsForest) {ids ds : List ObjectId} (h : V.Preorder ids ds) :
    ∀ (before : List ObjectId) (underDocument isFirst : Bool) {p : ObjectId}
      {os : List (Outline Value)} {above : Lineage}, V.children p = before ++ ids →
      Outlines V (ids.filter V.isElement) os → Lineage.Tells V (some p) above →
      (underDocument = true ↔ V.core p = some .document) →
      (isFirst = true ↔ before.filter V.isElement = []) →
      List.Forall₂ (fun found e => found.1 = .object e ∧ V.isElement e = true ∧
          Lineage.Tells V (some e) found.2)
        (seatedAmong above underDocument isFirst os) (ds.filter V.isElement) := by
  induction h with
  | nil =>
    intro before underDocument isFirst p os above _ hos _ _ _
    cases hos
    simp [seatedAmong]
  | @cons x xs below rest hb _ ihb ihr =>
    intro before underDocument isFirst p os above hch hos habove hdoc hfirst
    have hx : V.parent x = some p := (hf.mem_children p x).1 (by simp [hch])
    have hch' : V.children p = (before ++ [x]) ++ xs := by simp [hch]
    cases he : V.isElement x with
    | false =>
      have hbelow : below = [] := by
        rw [children_eq_nil hf hx he] at hb
        cases hb
        rfl
      rw [List.filter_cons_of_neg (by simp [he])] at hos
      rw [List.filter_cons_of_neg (by simp [he]), hbelow, List.nil_append]
      refine ihr (before ++ [x]) underDocument isFirst hch' hos habove hdoc ?_
      rw [List.filter_append, List.filter_cons_of_neg (by simp [he])]
      simpa using hfirst
    | true =>
      rw [List.filter_cons_of_pos he] at hos
      rw [List.filter_cons_of_pos he, List.filter_append]
      cases hos with
      | @cons _ _ tag inner os hcore hinner hos =>
        have helements : V.elements p =
            before.filter V.isElement ++ x :: xs.filter V.isElement := by
          rw [View.elements, hch, List.filter_append, List.filter_cons_of_pos he]
        have hnodup : (V.elements p).Nodup := (hf.nodup p).filter _
        have hseat : Seat.Tells V x
            ⟨elementFacts V tag x, some underDocument, some isFirst, some os.isEmpty⟩ := by
          refine ⟨⟨tag, hcore, rfl⟩, ⟨_, rfl, ?_⟩, ⟨_, rfl, ?_⟩, ⟨_, rfl, ?_⟩⟩
          · simp [PlainPseudo.Fits, hx, hdoc]
          · simp only [PlainPseudo.Fits, hx, Option.some.injEq, exists_eq_left', helements, hfirst]
            exact head?_append_cons_iff (helements ▸ hnodup)
          · simp only [PlainPseudo.Fits, hx, Option.some.injEq, exists_eq_left', helements]
            rw [hos.isEmpty_iff]
            exact getLast?_append_cons_iff (helements ▸ hnodup)
        have hlineage := Lineage.Tells.element hseat (hx.symm ▸ habove)
        have hnotDocument : V.core x ≠ some .document := by
          rw [hcore]
          intro h
          cases h
        have hin := ihb [] false true rfl hinner hlineage (by simpa using hnotDocument) (by simp)
        have hafter := ihr (before ++ [x]) underDocument false hch' hos habove hdoc (by simp [he])
        rw [seatedAmong, Outline.seated, List.cons_append]
        exact .cons ⟨rfl, he, hlineage⟩ (List.rel_append hin hafter)

/-! What queries answer. -/

theorem filterM_tells {s : Alternatives} {p : ObjectId → Bool} {founds : List (Value × Lineage)}
    {es : List ObjectId}
    (h : List.Forall₂ (fun found e => found.1 = .object e ∧ holds s found.2 = .ok (p e))
      founds es) :
    ∃ hits, founds.filterM (fun (_, lineage) => holds s lineage) = .ok hits ∧
      hits.map (·.1) = (es.filter p).map .object := by
  classical
  let test : Value → Bool := fun v => decide (∃ e, v = .object e ∧ p e = true)
  have htest : ∀ e, test (.object e) = p e := by simp [test]
  refine ⟨founds.filter fun found => test found.1, filterM_eq ?_, ?_⟩
  · induction h with
    | nil => simp
    | @cons found e founds es hfound _ ih =>
      obtain ⟨hkey, hholds⟩ := hfound
      intro other hm
      rcases List.mem_cons.1 hm with rfl | hm
      · rw [hkey, htest]
        exact hholds
      · exact ih other hm
  · have hkeys : founds.map (·.1) = es.map .object := by
      induction h with
      | nil => rfl
      | cons hfound _ ih => rw [List.map_cons, List.map_cons, hfound.1, ih]
    have hmap := List.filter_map (p := test) (f := fun found : Value × Lineage => found.1)
      (l := founds)
    rw [hkeys, List.filter_map, show test ∘ Value.object = p from funext htest] at hmap
    exact hmap.symm

theorem run'_read {t : Text} {s : Alternatives} (h : read t = .ok s) :
    M.run' env w (liftM (read t)) = (.ok s, w) := by
  rw [h]
  rfl

variable (env) in
/-- A query that starts at a node meets the elements below it in document order. -/
theorem run'_scope (hs : Shows w V) (hm : V.IsMarkup) {root : ObjectId} (hroot : V.Container root)
    {ds : List ObjectId} (hds : V.Preorder (V.children root) ds) :
    ∃ sc, M.run' env w (scope (.object root)) = (.ok sc, w) ∧
      List.Forall₂ (fun found e => found.1 = .object e ∧ V.isElement e = true ∧
        Lineage.Tells V (some e) found.2) sc.elements (ds.filter V.isElement) := by
  obtain ⟨depth, hdepth, hle⟩ := hm.exists_depth hs
  obtain ⟨core, hcore, hh⟩ := hroot
  obtain ⟨l, hlineage, hl⟩ : ∃ l, M.run' env w (lineage (.object root)) = (.ok l, w) ∧
    Lineage.Tells V (some root) l := run'_lineage hs hm ⟨core, hcore, hh⟩
  obtain ⟨os, houtlines, hos⟩ : ∃ os,
      M.run' env w (outlinesWithin (w.cells.size + 1) (.object root)) = (.ok os, w) ∧
      Outlines V (V.elements root) os :=
    run'_outlinesWithin hs hm hdepth hle (w.cells.size + 1) hcore hh (by omega)
  refine ⟨⟨l, core.kind == .document, os⟩, ?_, ?_⟩
  · rw [scope, M.run'_bind_ok Store.run'_depth, M.run'_bind_ok houtlines, M.run'_bind_ok hlineage,
      M.run'_bind_ok (run'_kind (hs.record root core hcore))]
    rfl
  · exact tells_seatedAmong hm.toIsForest hds [] (core.kind == .document) true
      (List.nil_append _).symm hos hl
      (by rw [hcore]; cases core <;> simp [NodeCore.kind]) (by simp)

variable (env) in
/-- A selector that can be applied selects the elements below a node that match. -/
theorem run'_selectAll (hs : Shows w V) (hm : V.IsMarkup) {root : ObjectId}
    (hroot : V.Container root) {ds : List ObjectId} (hds : V.Preorder (V.children root) ds)
    {t : Text} {s : Alternatives} (hread : read t = .ok s) (happ : IsApplicable s)
    {p : ObjectId → Bool} (hp : ∀ e, p e = true ↔ Matches V s e) :
    M.run' env w (selectAll (.object root) t) =
      (.ok (((ds.filter V.isElement).filter p).map .object), w) := by
  obtain ⟨sc, hscope, htells⟩ := run'_scope env hs hm hroot hds
  obtain ⟨hits, hfilter, hkeys⟩ := filterM_tells (p := p) (s := s) <| htells.imp fun found e hfound => by
    obtain ⟨hkey, he, hlin⟩ := hfound
    obtain ⟨b, hb, hmatches⟩ := decides_holds hm happ he hlin
    have hbe : b = p e := Bool.eq_iff_iff.2 (hmatches.trans (hp e).symm)
    exact ⟨hkey, hbe ▸ hb⟩
  rw [selectAll, M.run'_bind_ok (run'_read hread), M.run'_bind_ok hscope, Scope.select, hfilter,
    ← hkeys]
  rfl

/-- Whether an element matches a selector that can be applied. -/
theorem run'_matchesSelector (hs : Shows w V) (hm : V.IsMarkup) {e : ObjectId}
    (he : V.isElement e = true) {t : Text} {s : Alternatives} (hread : read t = .ok s)
    (happ : IsApplicable s) :
    ∃ b, M.run' env w (matchesSelector (.object e) t) = (.ok b, w) ∧
      (b = true ↔ Matches V s e) := by
  obtain ⟨tag, hcore⟩ := isElement_iff.1 he
  obtain ⟨l, hlineage, hl⟩ : ∃ l, M.run' env w (lineage (.object e)) = (.ok l, w) ∧
    Lineage.Tells V (some e) l := run'_lineage hs hm ⟨_, hcore, rfl⟩
  obtain ⟨b, hb, hmatches⟩ := decides_holds hm happ he hl
  refine ⟨b, ?_, hmatches⟩
  rw [matchesSelector, M.run'_bind_ok (run'_read hread), M.run'_bind_ok hlineage, hb]
  rfl

/-- Whether a node is an element with an id. -/
def hasId (V : View) (id : Text) (e : ObjectId) : Bool :=
  V.isElement e && V.attribute? e "id" == some id

theorem strictlyEqual_text_iff (found : Option Value) (id : Text) :
    (Value.ofOption found).strictlyEqual (.text id) = true ↔ found = some (.text id) := by
  cases found with
  | none => simp [Value.ofOption, Value.strictlyEqual, Value.identicalBy]
  | some v => cases v <;> simp [Value.ofOption, Value.strictlyEqual, Value.identicalBy]

theorem attribute?_eq_some_iff {e : ObjectId} {name value : Text} :
    V.attribute? e name = some value ↔ (V.attributes e).find? (.text name) = some (.text value) := by
  rw [View.attribute?]
  split <;> simp_all

/-- Looking for an id goes through the elements below a node in document order. -/
theorem run'_firstAnswer (hs : Shows w V) (hf : V.IsForest) {depth : ObjectId → Nat}
    (hdepth : ∀ c p, V.parent c = some p → depth p < depth c) (hle : ∀ c, depth c ≤ w.cells.size)
    (id : Text) {ids ds : List ObjectId} (h : V.Preorder ids ds) :
    ∀ (n : Nat) {p : ObjectId}, (∀ c ∈ ids, V.parent c = some p) → w.cells.size < depth p + n + 1 →
      M.run' env w (firstAnswer (fun v => do
          if !(← isElement v) then return none
          else if (← getAttribute v (.text "id")).strictlyEqual (.text id) then return some v
          else findByIdWithin? (.text id) n v) (ids.map .object)) =
        (.ok ((ds.filter (hasId V id)).head?.map .object), w) := by
  induction h with
  | nil => exact fun _ _ _ _ => rfl
  | @cons x xs below rest hb _ ihb ihr =>
    intro n p hids hn
    have hx := hids x List.mem_cons_self
    obtain ⟨core, hcore, _⟩ := hf.inner x p hx
    have hrest := ihr n (fun c hc => hids c (List.mem_cons_of_mem x hc)) hn
    have helement : M.run' env w (isElement (.object x)) = _ := run'_isElement_view hs hcore
    rw [List.map_cons, firstAnswer]
    cases he : V.isElement x with
    | false =>
      have hbelow : below = [] := by
        rw [children_eq_nil hf hx he] at hb
        cases hb
        rfl
      have hno : hasId V id x = false := by simp [hasId, he]
      rw [he] at helement
      rw [hbelow, List.nil_append, List.filter_cons_of_neg (by simp [hno]), ← hrest]
      refine M.run'_bind_ok (show M.run' env w _ = (.ok none, w) from ?_)
      rw [M.run'_bind_ok helement]
      rfl
    | true =>
      rw [he] at helement
      obtain ⟨tag, hcore⟩ := isElement_iff.1 he
      have hget : M.run' env w (getAttribute (.object x) (.text "id")) = _ :=
        run'_getAttribute hs hcore _
      have hequal : (Value.ofOption ((V.attributes x).find? (.text "id"))).strictlyEqual
          (.text id) = hasId V id x := by
        rw [Bool.eq_iff_iff, strictlyEqual_text_iff, hasId, he, Bool.true_and, beq_iff_eq,
          attribute?_eq_some_iff]
      cases hid : hasId V id x with
      | true =>
        rw [List.filter_cons_of_pos hid]
        refine M.run'_bind_ok (show M.run' env w _ = (.ok (some (Value.object x)), w) from ?_)
        rw [M.run'_bind_ok helement, Bool.not_true, if_neg Bool.false_ne_true,
          M.run'_bind_ok hget, hequal, hid]
        rfl
      | false =>
        rw [List.filter_cons_of_neg (by simp [hid]), List.filter_append, List.head?_append]
        have hlt := hdepth x p hx
        have hlx := hle x
        obtain ⟨n, rfl⟩ : ∃ m, n = m + 1 := ⟨n - 1, by omega⟩
        have hinside : M.run' env w (findByIdWithin? (.text id) (n + 1) (.object x)) =
            (.ok ((below.filter (hasId V id)).head?.map .object), w) := by
          have hchildren : M.run' env w (children (.object x)) = _ := run'_children hs hcore rfl
          rw [findByIdWithin?, M.run'_bind_ok hchildren]
          exact ihb n (fun c hc => (hf.mem_children x c).1 hc) (by omega)
        have hvisit : M.run' env w (do
            if !(← isElement (.object x)) then return none
            else if (← getAttribute (.object x) (.text "id")).strictlyEqual (.text id) then
              return some (.object x)
            else findByIdWithin? (.text id) (n + 1) (.object x)) =
            (.ok ((below.filter (hasId V id)).head?.map .object), w) := by
          rw [M.run'_bind_ok helement, Bool.not_true, if_neg Bool.false_ne_true,
            M.run'_bind_ok hget, hequal, hid, if_neg Bool.false_ne_true, hinside]
        rw [M.run'_bind_ok hvisit]
        cases (below.filter (hasId V id)).head? with
        | none => exact hrest
        | some y => rfl

/-- The first element below a node that has an id. -/
theorem run'_findById (hs : Shows w V) (hf : V.IsForest) {root : ObjectId}
    (hroot : V.Container root) {ds : List ObjectId} (hds : V.Preorder (V.children root) ds)
    (id : Text) :
    M.run' env w (findById? (.object root) (.text id)) =
      (.ok ((ds.filter (hasId V id)).head?.map .object), w) := by
  obtain ⟨depth, hdepth, hle⟩ := hf.exists_depth hs
  obtain ⟨core, hcore, hh⟩ := hroot
  have hchildren : M.run' env w (children (.object root)) = _ := run'_children hs hcore hh
  rw [findById?, M.run'_bind_ok Store.run'_depth, findByIdWithin?, M.run'_bind_ok hchildren]
  exact run'_firstAnswer hs hf hdepth hle id hds w.cells.size
    (fun c hc => (hf.mem_children root c).1 hc) (by omega)

end Tree

end PageTemplate
