import Mathlib.Data.List.Nodup
import PageTemplate.Proofs.Tree.NodeTree
import PageTemplate.Tree.Query

/-!
# PageTemplate.Proofs.Tree.Query

Queries below a root whose children are elements without children of their own, which is all that a
form of hidden fields consists of.
-/

namespace PageTemplate

@[simp] theorem Value.object_strictlyEqual (a b : ObjectId) :
    (Value.object a).strictlyEqual (.object b) = (a == b) := rfl

namespace Selector

/-- The selector of controls asks for one of three tags. -/
theorem read_controls : read (Text.ofString "input, textarea, select") =
    .ok [[⟨.descendant, ⟨some (Text.ofString "input"), none, [], [], []⟩⟩],
      [⟨.descendant, ⟨some (Text.ofString "textarea"), none, [], [], []⟩⟩],
      [⟨.descendant, ⟨some (Text.ofString "select"), none, [], [], []⟩⟩]] := by
  have hparts : ((Text.splitOn [unit ','] (Text.ofString "input, textarea, select")).map
      Text.trim).filter (!·.isEmpty) =
      [Text.ofString "input", Text.ofString "textarea", Text.ofString "select"] := by
    decide +kernel
  rw [read, hparts]
  rfl

/-- An input is a control. -/
theorem holds_input {seat : Seat} (h : seat.facts.tag = some (Text.ofString "input"))
    (above : Lineage) (more : Alternatives) :
    holds ([⟨.descendant, ⟨some (Text.ofString "input"), none, [], [], []⟩⟩] :: more)
      (seat :: above) = .ok true := by
  have htag : (seat.facts.tag == some (Text.ofString "input")) = true := by
    rw [h]
    decide
  have hcompound : Compound.holds ⟨some (Text.ofString "input"), none, [], [], []⟩ seat =
      .ok true := by
    simp only [Compound.holds, Compound.holdsWith, allHold, Compound.holdsWith.tagHolds, htag]
    rfl
  simp only [holds, someHolds, chainHolds, hcompound]
  rfl

variable {κ ι : Type}

/-- Siblings without children, one after another. -/
theorem seatedAmong_map (key : ι → κ) (facts : ι → Facts) (above : Lineage) (underDocument : Bool) :
    ∀ (cs : List ι) (isFirst : Bool),
      (seatedAmong above underDocument isFirst
        (cs.map fun c => .element (key c) (facts c) [])).map (·.1) = cs.map key ∧
      ∀ found ∈ seatedAmong above underDocument isFirst
        (cs.map fun c => .element (key c) (facts c) []),
        ∃ c ∈ cs, ∃ seat : Seat, seat.facts = facts c ∧ found.2 = seat :: above := by
  intro cs
  induction cs with
  | nil => simp [seatedAmong]
  | cons c cs ih =>
    intro isFirst
    obtain ⟨hkeys, hseats⟩ := ih false
    simp only [List.map_cons, seatedAmong, Outline.seated, List.cons_append, List.nil_append, hkeys,
      true_and, List.mem_cons]
    rintro found (rfl | hm)
    · exact ⟨c, .inl rfl, _, rfl, rfl⟩
    · obtain ⟨d, hd, seat, hseat⟩ := hseats found hm
      exact ⟨d, .inr hd, seat, hseat⟩

/-- A test that does not fail for any member of a list. -/
theorem filterM_eq {α : Type} {test : α → Except Fault Bool} {p : α → Bool} {as : List α}
    (h : ∀ a ∈ as, test a = .ok (p a)) : as.filterM test = .ok (as.filter p) := by
  have key : ∀ (as done : List α), (∀ a ∈ as, test a = .ok (p a)) →
      as.filterAuxM test done = .ok ((as.filter p).reverse ++ done) := by
    intro as
    induction as with
    | nil => exact fun _ _ => rfl
    | cons a as ih =>
      intro done h
      have hrest := fun done => ih done fun b hb => h b (List.mem_cons_of_mem a hb)
      rw [List.filterAuxM, h a List.mem_cons_self, List.filter_cons]
      cases hp : p a with
      | false => exact hrest done
      | true =>
        rw [if_pos rfl, List.reverse_cons, List.append_assoc]
        exact hrest (a :: done)
  rw [List.filterM, key as [] h]
  simp [pure, Except.pure, bind, Except.bind]

end Selector

namespace Tree

variable {env : Env} {w : World} {V : View}

/-- What selectors can ask of an element. -/
def elementFacts (V : View) (tag : Text) (e : ObjectId) : Selector.Facts :=
  ⟨some tag, some ((V.attributes e).live.filterMap fun (name, value) =>
    match name with
    | .text name => (attributeValue? value).map (name, ·)
    | _ => none)⟩

theorem run'_facts (hs : Shows w V) {e : ObjectId} {tag : Text}
    (he : V.core e = some (.element (.text tag))) :
    M.run' env w (facts (.object e)) = (.ok (elementFacts V tag e), w) := by
  have hrec := hs.record e _ he
  have hnamed : M.run' env w (namedAttributes? (.object e)) =
      (.ok (some (V.attributes e).live), w) := by
    rw [namedAttributes?, M.run'_bind_ok (Property.run'_find_record
      (World.cell_of_getElem? hrec) (find_attributes rfl))]
    simp only [M.run'_bind_ok (run'_mapEntries (hs.map e _ he rfl))]
    rfl
  rw [facts, M.run'_bind_ok hnamed, M.run'_bind_ok (run'_tag hrec)]
  rfl

/-- A root is seen as a single element. -/
theorem run'_lineage_root (hs : Shows w V) {e : ObjectId} {tag : Text}
    (he : V.core e = some (.element (.text tag))) (hroot : V.parent e = none) :
    ∃ seats, M.run' env w (lineage (.object e)) = (.ok seats, w) := by
  have hrec := hs.record e _ he
  have hseat : ∃ facts, M.run' env w (seat (.object e)) = (.ok facts, w) := by
    rw [seat, M.run'_bind_ok (run'_facts hs he), M.run'_bind_ok (run'_parent hrec), hroot]
    exact ⟨_, rfl⟩
  obtain ⟨here, hseat⟩ := hseat
  have habove : ∀ n, M.run' env w (lineageWithin n .null) = (.ok [], w) := by
    intro n
    cases n with
    | zero => rfl
    | succ n => simp [lineageWithin, isElement, Value.isNullish]
  refine ⟨[here], ?_⟩
  rw [lineage, M.run'_bind_ok Store.run'_depth, lineageWithin,
    M.run'_bind_ok (run'_isElement hrec)]
  simp only [NodeCore.kind, beq_self_eq_true, if_true]
  rw [M.run'_bind_ok hseat, M.run'_bind_ok (run'_parent hrec), hroot]
  simp only [parentValue]
  rw [M.run'_bind_ok (habove _)]
  rfl

/-- The children of a node that are elements, when all of them are. -/
theorem run'_elements (hs : Shows w V) {ids : List ObjectId}
    (hall : ∀ c ∈ ids, ∃ tag, V.core c = some (.element tag)) :
    M.run' env w ((ids.map Value.object).filterM isElement) =
      (.ok (ids.map .object), w) := by
  rw [M.run'_filterM (g := fun _ => true)]
  · simp
  · intro c hc
    obtain ⟨tag, hcore⟩ := hall c hc
    rw [run'_isElement (hs.record c _ hcore)]
    rfl

theorem run'_isOrdered (hs : Shows w V) {e : ObjectId} {core : NodeCore} (he : V.core e = some core)
    (hh : core.hasChildren) :
    M.run' env w (isOrdered (.object e)) = (.ok true, w) := by
  have hlist := World.cell_of_getElem? (hs.list e core he hh)
  rw [isOrdered, M.run'_bind_ok (run'_get_node (hs.record e core he)
    (find_childNodes hh))]
  simp [Store.isArray, Store.arrayLength?, M.run'_bind, hlist, listCell]

/-- A child is found once, in the place that it says. -/
theorem run'_isSettled (hs : Shows w V) (hf : V.IsForest) {e c : ObjectId} {core : NodeCore}
    (hc : V.core c = some core) (hm : c ∈ V.children e) :
    M.run' env w (isSettled (.object e) ((V.children e).map .object) (.object c)) =
      (.ok true, w) := by
  have hcount : ((V.children e).map Value.object).countP (·.strictlyEqual (.object c)) = 1 := by
    rw [List.countP_map]
    have heq : ((fun v : Value => v.strictlyEqual (.object c)) ∘ Value.object) = (· == c) := rfl
    rw [heq]
    exact List.nodup_iff_count_eq_one.1 (hf.nodup e) c hm
  rw [isSettled, M.run'_bind_ok (run'_parent (hs.record c core hc)),
    (hf.mem_children e c).1 hm]
  simp only [parentValue, Value.object_strictlyEqual, beq_self_eq_true, Bool.not_true,
    Bool.false_eq_true, if_false, M.run'_pure, ← List.countP_eq_length_filter, hcount]

/-- Elements without children, as a query goes through them. -/
theorem run'_outlines (hs : Shows w V) (hf : V.IsForest) {e : ObjectId} {core : NodeCore}
    (he : V.core e = some core) (hh : core.hasChildren) {tag : Text}
    (hall : ∀ c ∈ V.children e, V.core c = some (.element (.text tag)) ∧ V.children c = [])
    (n : Nat) :
    M.run' env w (outlinesWithin (n + 2) (.object e)) =
      (.ok ((V.children e).map fun c => .element (.object c) (elementFacts V tag c) []), w) := by
  have hinner : ∀ c ∈ V.children e,
      M.run' env w (outlinesWithin (n + 1) (.object c)) = (.ok [], w) := by
    intro c hc
    obtain ⟨hcore, hch⟩ := hall c hc
    rw [outlinesWithin, M.run'_bind_ok (run'_children hs hcore rfl), hch]
    exact M.run'_bind_ok (run'_isOrdered hs hcore rfl)
  have hel : M.run' env w (((V.children e).map Value.object).filterM isElement) =
      (.ok ((V.children e).map .object), w) :=
    run'_elements hs fun c hc => ⟨_, (hall c hc).1⟩
  rw [outlinesWithin, M.run'_bind_ok (run'_children hs he hh), M.run'_bind_ok hel,
    M.run'_bind_ok (run'_isOrdered hs he hh), List.mapM_map]
  refine M.run'_mapM fun c hc => ?_
  obtain ⟨hcore, _⟩ := hall c hc
  rw [Function.comp_apply, M.run'_bind_ok (run'_isSettled hs hf hcore hc), Bool.and_self, if_pos rfl,
    M.run'_bind_ok (run'_facts hs hcore), M.run'_bind_ok (hinner c hc)]
  rfl

/-- Asking a root without other children than inputs for its controls finds all of them. -/
theorem run'_selectControls (hs : Shows w V) (hf : V.IsForest) {e : ObjectId} {tag : Text}
    (he : V.core e = some (.element (.text tag))) (hroot : V.parent e = none)
    (hall : ∀ c ∈ V.children e, V.core c = some (.element (.text "input")) ∧ V.children c = []) :
    M.run' env w (selectAll (.object e) "input, textarea, select") =
      (.ok ((V.children e).map .object), w) := by
  obtain ⟨more, hread⟩ : ∃ more, Selector.read (Text.ofString "input, textarea, select") =
      .ok ([⟨.descendant, ⟨some (Text.ofString "input"), none, [], [], []⟩⟩] :: more) :=
    ⟨_, Selector.read_controls⟩
  obtain ⟨seats, hlineage⟩ : ∃ seats, M.run' env w (lineage (.object e)) = (.ok seats, w) :=
    run'_lineage_root hs he hroot
  obtain ⟨n, hn⟩ : ∃ n, w.cells.size + 1 = n + 2 :=
    ⟨w.cells.size - 1, by
      have : 0 < w.cells.size := Nat.lt_of_le_of_lt (Nat.zero_le e) (hs.lt he)
      omega⟩
  have hscope : M.run' env w (scope (.object e)) = (.ok ⟨seats, false,
      (V.children e).map fun c => .element (.object c) (elementFacts V "input" c) []⟩, w) := by
    rw [scope, M.run'_bind_ok Store.run'_depth, hn,
      M.run'_bind_ok (run'_outlines hs hf he rfl hall n), M.run'_bind_ok hlineage,
      M.run'_bind_ok (run'_kind (hs.record e _ he))]
    rfl
  obtain ⟨hkeys, hseats⟩ := Selector.seatedAmong_map Value.object (elementFacts V "input") seats false
    (V.children e) true
  have hselect : Selector.Scope.select ⟨seats, false,
      (V.children e).map fun c => .element (Value.object c) (elementFacts V "input" c) []⟩
      ([⟨.descendant, ⟨some (Text.ofString "input"), none, [], [], []⟩⟩] :: more) =
      .ok ((V.children e).map Value.object) := by
    rw [Selector.Scope.select, Selector.Scope.elements, Selector.filterM_eq (p := fun _ => true),
      List.filter_true, ← hkeys]
    · rfl
    · rintro ⟨key, _⟩ hm
      obtain ⟨c, _, seat, hseat, rfl⟩ := hseats _ hm
      exact Selector.holds_input (by rw [hseat]; rfl) _ _
  have hlift : M.run' env w (liftM (Selector.read (Text.ofString "input, textarea, select"))) =
      (.ok ([⟨.descendant, ⟨some (Text.ofString "input"), none, [], [], []⟩⟩] :: more), w) := by
    rw [hread]
    rfl
  rw [selectAll, M.run'_bind_ok hlift, M.run'_bind_ok hscope, hselect]
  rfl

end Tree

end PageTemplate
