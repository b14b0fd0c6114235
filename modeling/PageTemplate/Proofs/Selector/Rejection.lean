import PageTemplate.Proofs.Selector.Agreement

/-!
# PageTemplate.Proofs.Selector.Rejection

When a selector is rejected. A word that is no compound is found out when the selector is read,
before there is a tree to look at. A pseudo-class that nobody knows, an argument of `:not` that is
no compound and an alternative without a compound are found out by the first element that is tested
for them, and the tests before them may keep every element of a tree from that. So what a query of
a tree can fail with is written in the selector, but whether it fails depends on the tree.
-/

namespace PageTemplate

namespace Selector

/-! The faults that a selector carries. -/

def PlainPseudo.faults : PlainPseudo → List Fault
  | .unknown name => [.unsupportedPseudo name]
  | _ => []

def Pseudo.faults : Pseudo → List Fault
  | .plain p => p.faults
  | .negation (.ok c) => c.pseudos.flatMap PlainPseudo.faults
  | .negation (.error t) => [.unsupportedSelector t]

def Step.faults (s : Step) : List Fault := s.compound.pseudos.flatMap Pseudo.faults

/-- The faults of an alternative; one without a compound is a fault itself. -/
def chainFaults : Chain → List Fault
  | [] => [.library .typeError]
  | s :: before => (s :: before).flatMap Step.faults

def faults (s : Alternatives) : List Fault := s.flatMap chainFaults

theorem PlainPseudo.faults_eq_nil_iff {p : PlainPseudo} : p.faults = [] ↔ p.IsKnown := by
  cases p <;> simp [faults, IsKnown]

theorem Pseudo.faults_eq_nil_iff {p : Pseudo} : p.faults = [] ↔ p.IsKnown := by
  match p with
  | .plain p => exact p.faults_eq_nil_iff
  | .negation (.ok c) => simp [faults, IsKnown, PlainPseudo.faults_eq_nil_iff]
  | .negation (.error t) => simp [faults, IsKnown]

theorem chainFaults_eq_nil_iff {chain : Chain} : chainFaults chain = [] ↔
    chain ≠ [] ∧ ∀ step ∈ chain, ∀ p ∈ step.compound.pseudos, p.IsKnown := by
  cases chain with
  | nil => simp [chainFaults]
  | cons s before => simp [chainFaults, Step.faults, Pseudo.faults_eq_nil_iff]

/-- The selectors that can be applied are those without a fault. -/
theorem faults_eq_nil_iff {s : Alternatives} : faults s = [] ↔ IsApplicable s := by
  simp only [faults, List.flatMap_eq_nil_iff, chainFaults_eq_nil_iff, IsApplicable]

theorem PlainPseudo.kind_of_mem_faults {p : PlainPseudo} {f : Fault} (h : f ∈ p.faults) :
    f.kind = "SyntaxError" := by
  cases p <;> simp only [faults, List.not_mem_nil, List.mem_singleton] at h
  rw [h]
  rfl

theorem Pseudo.kind_of_mem_faults {p : Pseudo} {f : Fault} (h : f ∈ p.faults) :
    f.kind = "SyntaxError" := by
  match p with
  | .plain p => exact p.kind_of_mem_faults h
  | .negation (.ok c) =>
    obtain ⟨q, _, hq⟩ := List.mem_flatMap.1 h
    exact q.kind_of_mem_faults hq
  | .negation (.error t) =>
    rw [List.mem_singleton.1 h]
    rfl

/-- All faults are errors of syntax but for the alternatives without a compound. -/
theorem kind_of_mem_faults {s : Alternatives} {f : Fault} (h : f ∈ faults s) :
    f.kind = "SyntaxError" ∨ [] ∈ s ∧ f = .library .typeError := by
  obtain ⟨chain, hchain, h⟩ := List.mem_flatMap.1 h
  cases chain with
  | nil => exact .inr ⟨hchain, List.mem_singleton.1 h⟩
  | cons step before =>
    obtain ⟨_, _, h⟩ := List.mem_flatMap.1 h
    obtain ⟨_, _, h⟩ := List.mem_flatMap.1 h
    exact .inl (Pseudo.kind_of_mem_faults h)

/-! Reading. -/

theorem stepsOf_error {c : Combinator} {ws : List Text} {f : Fault}
    (h : stepsOf c ws = .error f) : ∃ w ∈ ws, compound? Pseudo.of w = none ∧
      f = .unsupportedSelector w := by
  induction ws generalizing c with
  | nil => cases h
  | cons w ws ih =>
    have hrest : ∀ c', stepsOf c' ws = .error f → ∃ w' ∈ w :: ws,
        compound? Pseudo.of w' = none ∧ f = .unsupportedSelector w' := fun c' h' => by
      obtain ⟨w', hw, hw'⟩ := ih h'
      exact ⟨w', List.mem_cons_of_mem w hw, hw'⟩
    rw [stepsOf] at h
    split at h
    · exact hrest _ h
    · split at h
      · rename_i hnone
        cases h
        exact ⟨w, List.mem_cons_self, hnone, rfl⟩
      · cases hsteps : stepsOf .descendant ws with
        | error f' =>
          rw [hsteps] at h
          cases h
          exact hrest _ hsteps
        | ok steps =>
          rw [hsteps] at h
          cases h

/-- An alternative has no compound when signs between compounds are all that it consists of. -/
theorem stepsOf_eq_nil_iff {c : Combinator} {ws : List Text} :
    stepsOf c ws = .ok [] ↔ ∀ w ∈ ws, w = [unit '>'] := by
  induction ws generalizing c with
  | nil => simp [stepsOf, pure, Except.pure]
  | cons w ws ih =>
    rw [stepsOf, List.forall_mem_cons]
    split
    · rename_i hw
      rw [ih]
      simp [eq_of_beq hw]
    · rename_i hw
      have hw : w ≠ [unit '>'] := by simpa using hw
      simp only [hw, false_and, iff_false]
      intro h
      split at h
      · cases h
      · cases hsteps : stepsOf .descendant ws <;> rw [hsteps] at h <;> cases h

theorem chainOf_eq_nil_iff {t : Text} :
    chainOf t = .ok [] ↔ ∀ w ∈ chainWords t, w = [unit '>'] := by
  rw [← stepsOf_eq_nil_iff (c := .descendant), chainOf]
  cases stepsOf .descendant (chainWords t) with
  | error f =>
    show Except.error f = Except.ok [] ↔ _
    simp
  | ok steps =>
    show Except.ok steps.reverse = Except.ok [] ↔ _
    simp

theorem mapM_chainOf_error {ts : List Text} {f : Fault} (h : ts.mapM chainOf = .error f) :
    ∃ t ∈ ts, chainOf t = .error f := by
  induction ts with
  | nil => cases h
  | cons t ts ih =>
    rw [List.mapM_cons] at h
    cases ht : chainOf t with
    | error f' =>
      rw [ht] at h
      cases h
      exact ⟨t, List.mem_cons_self, ht⟩
    | ok chain =>
      cases hts : ts.mapM chainOf with
      | error f' =>
        rw [ht, hts] at h
        cases h
        obtain ⟨u, hu, hf⟩ := ih hts
        exact ⟨u, List.mem_cons_of_mem t hu, hf⟩
      | ok chains =>
        rw [ht, hts] at h
        cases h

/-- Reading rejects the words that are no compounds and nothing else. -/
theorem read_error {t : Text} {f : Fault} (h : read t = .error f) :
    ∃ w, compound? Pseudo.of w = none ∧ f = .unsupportedSelector w := by
  obtain ⟨part, _, hpart⟩ := mapM_chainOf_error h
  obtain ⟨w, _, hw⟩ : ∃ w ∈ chainWords part, compound? Pseudo.of w = none ∧
      f = .unsupportedSelector w := by
    rw [chainOf] at hpart
    cases hsteps : stepsOf .descendant (chainWords part) with
    | error f' =>
      rw [hsteps] at hpart
      cases hpart
      exact stepsOf_error hsteps
    | ok steps =>
      rw [hsteps] at hpart
      cases hpart
  exact ⟨w, hw⟩

/-! Testing. -/

/-- Whether a test can fail only with some faults. -/
def FailsWithin (F : List Fault) {α : Type} (test : Except Fault α) : Prop :=
  ∀ f, test = .error f → f ∈ F

namespace FailsWithin

variable {F : List Fault} {α β : Type} {test : Except Fault α}

theorem pure (a : α) : FailsWithin F (pure a : Except Fault α) := nofun

theorem throw {f : Fault} (h : f ∈ F) : FailsWithin F (throw f : Except Fault α) := by
  rintro _ ⟨⟩
  exact h

theorem bind {next : α → Except Fault β} (h : FailsWithin F test)
    (hn : ∀ a, FailsWithin F (next a)) : FailsWithin F (test >>= next) := by
  intro f hf
  cases test with
  | error f' =>
    cases hf
    exact h f rfl
  | ok a => exact hn a f hf

theorem of_decides {P : Prop} {test : Except Fault Bool} (h : Decides test P) :
    FailsWithin F test := by
  obtain ⟨b, rfl, _⟩ := h
  exact .pure b

theorem allHold {test : α → Except Fault Bool} {as : List α}
    (h : ∀ a ∈ as, FailsWithin F (test a)) : FailsWithin F (allHold test as) := by
  induction as with
  | nil => exact .pure true
  | cons a as ih =>
    refine .bind (h a List.mem_cons_self) fun b => ?_
    cases b with
    | false => exact .pure false
    | true => exact ih fun x hx => h x (List.mem_cons_of_mem a hx)

theorem someHolds {test : α → Except Fault Bool} {as : List α}
    (h : ∀ a ∈ as, FailsWithin F (test a)) : FailsWithin F (someHolds test as) := by
  induction as with
  | nil => exact .pure false
  | cons a as ih =>
    refine .bind (h a List.mem_cons_self) fun b => ?_
    cases b with
    | true => exact .pure true
    | false => exact ih fun x hx => h x (List.mem_cons_of_mem a hx)

theorem filterAuxM {test : α → Except Fault Bool} {as : List α}
    (h : ∀ a ∈ as, FailsWithin F (test a)) (done : List α) :
    FailsWithin F (as.filterAuxM test done) := by
  induction as generalizing done with
  | nil => exact .pure done
  | cons a as ih =>
    rw [List.filterAuxM]
    exact .bind (h a List.mem_cons_self) fun b =>
      ih (fun x hx => h x (List.mem_cons_of_mem a hx)) _

theorem filterM {test : α → Except Fault Bool} {as : List α}
    (h : ∀ a ∈ as, FailsWithin F (test a)) : FailsWithin F (as.filterM test) :=
  .bind (filterAuxM h []) fun found => .pure found.reverse

end FailsWithin

section Testing

variable {V : View} {F : List Fault} {seat : Seat} {e : ObjectId}

/-- Of the five tests of a compound only those of pseudo-classes fail. -/
theorem Seat.Tells.failsWithin_holdsWith (h : seat.Tells V e) (hm : V.IsMarkup) {π : Type}
    {pseudoHolds : π → Seat → Except Fault Bool} {c : Compound π}
    (hp : ∀ p ∈ c.pseudos, FailsWithin F (pseudoHolds p seat)) :
    FailsWithin F (c.holdsWith pseudoHolds seat) := by
  refine .allHold fun held hheld => ?_
  simp only [List.mem_cons, List.not_mem_nil, or_false] at hheld
  rcases hheld with rfl | rfl | rfl | rfl | rfl
  · exact .of_decides (h.decides_tag c)
  · exact .of_decides (h.decides_id hm c)
  · exact .of_decides (h.decides_classes hm c)
  · exact .of_decides (h.decides_attributes hm c)
  · exact .allHold hp

theorem Seat.Tells.failsWithin_plain (h : seat.Tells V e) {p : PlainPseudo}
    (hF : ∀ f ∈ p.faults, f ∈ F) : FailsWithin F (p.holds seat) := by
  cases p with
  | root => exact .of_decides h.underDocument
  | firstChild => exact .of_decides h.isFirst
  | lastChild => exact .of_decides h.isLast
  | anything => exact .pure true
  | unknown name => exact .throw (hF _ List.mem_cons_self)

theorem Seat.Tells.failsWithin_pseudo (h : seat.Tells V e) (hm : V.IsMarkup) {p : Pseudo}
    (hF : ∀ f ∈ p.faults, f ∈ F) : FailsWithin F (p.holds seat) := by
  match p with
  | .plain p => exact h.failsWithin_plain hF
  | .negation (.ok c) =>
    have hc : FailsWithin F (c.holdsWith PlainPseudo.holds seat) :=
      h.failsWithin_holdsWith hm fun p hp => h.failsWithin_plain fun f hf =>
        hF f (List.mem_flatMap.2 ⟨p, hp, hf⟩)
    exact .bind hc fun b => .pure _
  | .negation (.error t) => exact .throw (hF _ List.mem_cons_self)

theorem Seat.Tells.failsWithin_step (h : seat.Tells V e) (hm : V.IsMarkup) {s : Step}
    (hF : ∀ f ∈ s.faults, f ∈ F) : FailsWithin F (s.compound.holds seat) :=
  h.failsWithin_holdsWith hm fun p hp => h.failsWithin_pseudo hm fun f hf =>
    hF f (List.mem_flatMap.2 ⟨p, hp, hf⟩)

/-- Every seat of a lineage tells of an element. -/
theorem Lineage.Tells.seats {q : Option ObjectId} {lineage : Lineage}
    (h : Lineage.Tells V q lineage) : ∀ seat ∈ lineage, ∃ e, seat.Tells V e := by
  induction h with
  | top _ => nofun
  | @element e _ _ hseat _ ih =>
    intro s hs
    rcases List.mem_cons.1 hs with rfl | hs
    · exact ⟨e, hseat⟩
    · exact ih s hs

theorem mem_of_mem_lineages {l lineage : Lineage} (h : l ∈ lineages lineage) :
    ∀ seat ∈ l, seat ∈ lineage := by
  induction lineage with
  | nil => cases h
  | cons s above ih =>
    rcases List.mem_cons.1 h with rfl | h
    · exact fun _ h => h
    · exact fun seat hs => List.mem_cons_of_mem s (ih h seat hs)

theorem failsWithin_compound (hm : V.IsMarkup) {s : Step} {before : Chain} {above : Lineage}
    (hl : ∀ st ∈ seat :: above, ∃ e, st.Tells V e) (hF : ∀ f ∈ chainFaults (s :: before), f ∈ F) :
    FailsWithin F (s.compound.holds seat) := by
  obtain ⟨e, he⟩ := hl seat List.mem_cons_self
  exact he.failsWithin_step hm fun f hf => hF f (List.mem_flatMap.2 ⟨s, List.mem_cons_self, hf⟩)

/-- Matching a chain fails with the faults of its steps, however far up it goes. -/
theorem failsWithin_chainHolds (hm : V.IsMarkup) {chain : Chain} :
    ∀ {lineage : Lineage}, (∀ seat ∈ lineage, ∃ e, seat.Tells V e) →
      (∀ f ∈ chainFaults chain, f ∈ F) → FailsWithin F (chainHolds chain lineage) := by
  match chain with
  | [] => exact @fun _ _ hF => FailsWithin.throw (hF _ List.mem_cons_self)
  | [s] =>
    intro lineage hl hF
    cases lineage with
    | nil => exact .pure false
    | cons seat above => exact failsWithin_compound hm hl hF
  | s :: t :: before =>
    intro lineage hl hF
    cases lineage with
    | nil => exact .pure false
    | cons seat above =>
      have ih : ∀ {l : Lineage}, (∀ st ∈ l, st ∈ above) →
          FailsWithin F (chainHolds (t :: before) l) := fun hsub => by
        refine failsWithin_chainHolds hm (fun st hst => hl st ?_) fun f hf => ?_
        · exact List.mem_cons_of_mem seat (hsub st hst)
        · obtain ⟨u, hu, hf⟩ := List.mem_flatMap.1 hf
          exact hF f (List.mem_flatMap.2 ⟨u, List.mem_cons_of_mem s hu, hf⟩)
      refine .bind (failsWithin_compound hm hl hF) fun b => ?_
      cases b with
      | false => exact .pure false
      | true =>
        cases s.combinator with
        | child => exact ih fun _ h => h
        | descendant => exact .someHolds fun l hl => ih (mem_of_mem_lineages hl)

theorem failsWithin_holds (hm : V.IsMarkup) (s : Alternatives) {q : Option ObjectId}
    {lineage : Lineage} (hl : Lineage.Tells V q lineage) :
    FailsWithin (faults s) (holds s lineage) :=
  .someHolds fun chain hc => failsWithin_chainHolds hm hl.seats fun _ hf =>
    List.mem_flatMap.2 ⟨chain, hc, hf⟩

end Testing

end Selector

namespace Tree

open Selector

variable {env : Env} {w : World} {V : View}

/-- A text that is no selector is rejected whatever is asked. -/
theorem run'_of_read_error {t : Text} {f : Fault} (h : read t = .error f) (v : Value) :
    M.run' env w (selectAll v t) = (.error f, w) ∧
      M.run' env w (select? v t) = (.error f, w) ∧
      M.run' env w (matchesSelector v t) = (.error f, w) := by
  have hread : M.run' env w (liftM (read t)) = (.error f, w) := by
    rw [h]
    rfl
  have hall : M.run' env w (selectAll v t) = (.error f, w) := by
    rw [selectAll, M.run'_bind_error hread]
  refine ⟨hall, ?_, ?_⟩
  · rw [select?, M.run'_bind_error hall]
  · rw [matchesSelector, M.run'_bind_error hread]

/-- Testing an element fails with the faults of the selector only. -/
theorem run'_matchesSelector_failsWithin (hs : Shows w V) (hm : V.IsMarkup) {e : ObjectId}
    (he : V.isElement e = true) {t : Text} {s : Alternatives} (hread : read t = .ok s) :
    ∃ r, M.run' env w (matchesSelector (.object e) t) = (r, w) ∧ FailsWithin (faults s) r := by
  obtain ⟨tag, hcore⟩ := isElement_iff.1 he
  obtain ⟨l, hlineage, hl⟩ : ∃ l, M.run' env w (lineage (.object e)) = (.ok l, w) ∧
    Lineage.Tells V (some e) l := run'_lineage hs hm ⟨_, hcore, rfl⟩
  refine ⟨holds s l, ?_, failsWithin_holds hm s hl⟩
  rw [matchesSelector, M.run'_bind_ok (run'_read hread), M.run'_bind_ok hlineage,
    M.run'_liftExcept]

/-- A query below a node fails with the faults of the selector only, and not at all when there is no
element to test. -/
theorem run'_selectAll_failsWithin (hs : Shows w V) (hm : V.IsMarkup) {root : ObjectId}
    (hroot : V.Container root) {t : Text} {s : Alternatives} (hread : read t = .ok s) :
    ∃ r, M.run' env w (selectAll (.object root) t) = (r, w) ∧ FailsWithin (faults s) r ∧
      ((∀ x, V.Above root x → V.isElement x = false) → r = .ok []) := by
  obtain ⟨ds, hds⟩ := hm.exists_preorder hs (V.children root)
  obtain ⟨sc, hscope, htells⟩ := run'_scope env hs hm hroot hds
  refine ⟨sc.select s, ?_, ?_, fun hnone => ?_⟩
  · rw [selectAll, M.run'_bind_ok (run'_read hread), M.run'_bind_ok hscope, M.run'_liftExcept]
  · have htold : ∀ found ∈ sc.elements, ∃ e, Lineage.Tells V (some e) found.2 :=
      ((List.forall₂_and_left _ _).1 (htells.imp fun _ e h => ⟨⟨e, h.2.2⟩, h⟩)).1
    refine .bind (.filterM fun found hfound => ?_) fun founds => .pure _
    obtain ⟨e, hl⟩ := htold found hfound
    exact failsWithin_holds hm s hl
  · have hempty : ds.filter V.isElement = [] := List.filter_eq_nil_iff.2 fun x hx => by
      simp [hnone x ((hds.mem_children_iff hm.toIsForest).1 hx)]
    rw [hempty] at htells
    rw [Scope.select, List.forall₂_nil_right_iff.1 htells]
    rfl

/-- An alternative without a compound fails on every element that is tested for it. -/
theorem run'_matchesSelector_noCompound (hs : Shows w V) (hm : V.IsMarkup) {e : ObjectId}
    (he : V.isElement e = true) {t : Text} {more : Alternatives}
    (hread : read t = .ok ([] :: more)) :
    M.run' env w (matchesSelector (.object e) t) = (.error (.library .typeError), w) := by
  obtain ⟨tag, hcore⟩ := isElement_iff.1 he
  obtain ⟨l, hlineage, _⟩ : ∃ l, M.run' env w (lineage (.object e)) = (.ok l, w) ∧
    Lineage.Tells V (some e) l := run'_lineage hs hm ⟨_, hcore, rfl⟩
  rw [matchesSelector, M.run'_bind_ok (run'_read hread), M.run'_bind_ok hlineage,
    M.run'_liftExcept]
  rfl

variable (env) in
/-- **When selectors are rejected.** A text with a word that is no compound is rejected with this
word by every query, of whatever it is asked. Any other text is read, and what a query of a tree of
markup can fail with is among the faults of the selector: the pseudo-classes that nobody knows and
the arguments of `:not` that are no compounds, which are errors of syntax, and an alternative that
has no compound, which is none. A selector without such faults is never rejected, none is rejected
where there is no element to test, and no query changes the store. -/
theorem rejection (t : Text) :
    (∀ f, read t = .error f → (∃ word, f = .unsupportedSelector word) ∧ ∀ w v,
      M.run' env w (selectAll v t) = (.error f, w) ∧
      M.run' env w (select? v t) = (.error f, w) ∧
      M.run' env w (matchesSelector v t) = (.error f, w)) ∧
    ∀ s, read t = .ok s →
      (∀ f ∈ faults s, f.kind = "SyntaxError" ∨ [] ∈ s ∧ f = .library .typeError) ∧
      ∀ w V, Shows w V → V.IsMarkup →
        (∀ e, V.isElement e = true → ∃ r,
          M.run' env w (matchesSelector (.object e) t) = (r, w) ∧ FailsWithin (faults s) r) ∧
        ∀ root, V.Container root → ∃ r,
          M.run' env w (selectAll (.object root) t) = (r, w) ∧ FailsWithin (faults s) r ∧
          ((∀ x, V.Above root x → V.isElement x = false) → r = .ok []) := by
  constructor
  · intro f hf
    obtain ⟨word, _, hword⟩ := read_error hf
    exact ⟨⟨word, hword⟩, fun w v => run'_of_read_error hf v⟩
  · intro s hread
    refine ⟨fun f hf => kind_of_mem_faults hf, fun w V hs hm => ⟨fun e he => ?_, fun root hr => ?_⟩⟩
    · exact run'_matchesSelector_failsWithin hs hm he hread
    · exact run'_selectAll_failsWithin hs hm hr hread

/-- A sign between compounds that are not there is read, and every element fails to be tested. -/
theorem run'_matchesSelector_lone_sign (hs : Shows w V) (hm : V.IsMarkup) {e : ObjectId}
    (he : V.isElement e = true) :
    M.run' env w (matchesSelector (.object e) ">") = (.error (.library .typeError), w) :=
  run'_matchesSelector_noCompound hs hm he (read_of_parts ">" (by decide +kernel)
    (chainOf_eq_nil_iff.2 (by decide)))

end Tree

end PageTemplate
