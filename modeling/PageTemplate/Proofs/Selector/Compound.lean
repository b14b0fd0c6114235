import PageTemplate.Proofs.Text
import PageTemplate.Proofs.Tree.Attributes
import PageTemplate.Proofs.Tree.Order
import PageTemplate.Proofs.Tree.Query

/-!
# PageTemplate.Proofs.Selector.Compound

What a compound asks of an element, said of the tree that the element stands in: its tag, its
attributes, its classes and its place among its siblings. The tests of a compound on what is known
of an element come out as the tree says, and none of them fails when all pseudo-classes are known.

An element matches a chain of compounds when elements around it can be chosen for the compounds
before the last one, each in the relation that its combinator says. Going up from an element and
trying every element around it finds such a choice whenever there is one.
-/

namespace PageTemplate

namespace View

/-- A forest as markup makes it: all tags, names and values of attributes are texts. -/
structure IsMarkup (V : View) : Prop extends V.IsRegular where
  attributes : ∀ e tag, V.core e = some (.element tag) →
    ∃ attributes, (V.attributes e).live = Markup.values attributes

/-- Other attributes for one element, which are texts. -/
theorem IsMarkup.setAttributes {V : View} (h : V.IsMarkup) {e : ObjectId} {entries : Entries}
    {attributes : Markup.Attributes} (hl : entries.live = Markup.values attributes) :
    (V.setAttributes e entries).IsMarkup := by
  refine ⟨⟨h.toIsForest.setAttributes e entries, h.tags⟩, fun x tag hx => ?_⟩
  by_cases hxe : x = e
  · rw [hxe, setAttributes_attributes]
    exact ⟨attributes, hl⟩
  · obtain ⟨as, has⟩ := h.attributes x tag hx
    exact ⟨as, by simpa [View.setAttributes, hxe] using has⟩

def isElement (V : View) (e : ObjectId) : Bool := (V.core e).any (·.kind == .element)

/-- The elements among the children of a node. -/
def elements (V : View) (p : ObjectId) : List ObjectId := (V.children p).filter V.isElement

/-- The value of an attribute, when it is a text. -/
def attribute? (V : View) (e : ObjectId) (name : Text) : Option Text :=
  match (V.attributes e).find? (.text name) with
  | some (.text value) => some value
  | _ => none

theorem attribute?_eq {V : View} {e : ObjectId} {attributes : Markup.Attributes}
    (h : (V.attributes e).live = Markup.values attributes) (name : Text) :
    V.attribute? e name = Assoc.find? name attributes := by
  rw [attribute?, Entries.find?, h, Markup.find_values]
  cases Assoc.find? name attributes <;> rfl

/-- The words of the attribute for classes. -/
def classes (V : View) (e : ObjectId) : List Text :=
  (V.attribute? e "class").elim [] Text.words

end View

namespace Selector

/-- How a value relates to what a test expects. -/
def Comparison.Relates (value expected : Text) : Comparison → Prop
  | .equals => value = expected
  | .hasWord => expected ∈ Text.splitBlanks value
  | .hyphenated => value = expected ∨ expected ++ [unit '-'] <+: value
  | .beginsWith => expected <+: value
  | .endsWith => expected <:+ value
  | .contains => expected <:+: value

/-- What a test of an attribute asks of an element. -/
def AttributeTest.Fits (V : View) (e : ObjectId) (test : AttributeTest) : Prop :=
  ∃ value, V.attribute? e test.name = some value ∧
    ∀ c expected, test.comparison = some (c, expected) → c.Relates value expected

/-- What a pseudo-class says of an element; nothing has one that nobody knows. -/
def PlainPseudo.Fits (V : View) (e : ObjectId) : PlainPseudo → Prop
  | .root => ∃ d, V.parent e = some d ∧ V.core d = some .document
  | .firstChild => ∃ p, V.parent e = some p ∧ (V.elements p).head? = some e
  | .lastChild => ∃ p, V.parent e = some p ∧ (V.elements p).getLast? = some e
  | .anything => True
  | .unknown _ => False

/-- What a compound asks of an element, given what each pseudo-class does. -/
structure Compound.FitsWith {π : Type} (pseudoFits : π → Prop) (V : View) (e : ObjectId)
    (c : Compound π) : Prop where
  tag : ∀ tag, c.tag = some tag → V.core e = some (.element (.text tag))
  id : ∀ id, c.id = some id → V.attribute? e "id" = some id
  classes : ∀ k ∈ c.classes, k ∈ V.classes e
  attributes : ∀ test ∈ c.attributes, test.Fits V e
  pseudos : ∀ p ∈ c.pseudos, pseudoFits p

def Pseudo.Fits (V : View) (e : ObjectId) : Pseudo → Prop
  | .plain p => p.Fits V e
  | .negation (.ok c) => ¬ c.FitsWith (PlainPseudo.Fits V e) V e
  | .negation (.error _) => False

def Compound.Fits (V : View) (e : ObjectId) (c : Compound Pseudo) : Prop :=
  c.FitsWith (Pseudo.Fits V e) V e

/-- A compound of a test asks for what the test does. -/
theorem fits_attribute {V : View} {test : AttributeTest} {e : ObjectId} :
    Compound.Fits V e ⟨none, none, [], [test], []⟩ ↔ test.Fits V e := by
  constructor
  · intro h
    exact h.attributes test List.mem_cons_self
  · intro h
    refine ⟨nofun, nofun, nofun, fun other hother => ?_, nofun⟩
    cases List.mem_singleton.1 hother
    exact h

/-! Which pseudo-classes can be applied. -/

def PlainPseudo.IsKnown (p : PlainPseudo) : Prop := ∀ name, p ≠ .unknown name

def Pseudo.IsKnown : Pseudo → Prop
  | .plain p => p.IsKnown
  | .negation (.ok c) => ∀ p ∈ c.pseudos, p.IsKnown
  | .negation (.error _) => False

@[simp] theorem Pseudo.isKnown_root : (Pseudo.plain .root).IsKnown := fun _ h => by cases h

/-! Tests that decide a property. -/

/-- Whether a test comes out, and as a property has it. -/
def Decides (test : Except Fault Bool) (P : Prop) : Prop := ∃ b, test = .ok b ∧ (b = true ↔ P)

namespace Decides

variable {α : Type} {P : Prop} {test : Except Fault Bool}

theorem pure {b : Bool} (h : b = true ↔ P) : Decides (pure b) P := ⟨b, rfl, h⟩

theorem congr {Q : Prop} (h : Decides test P) (hq : P ↔ Q) : Decides test Q := by
  obtain ⟨b, hb, hp⟩ := h
  exact ⟨b, hb, hp.trans hq⟩

theorem negate (h : Decides test P) : Decides (do return !(← test)) (¬ P) := by
  obtain ⟨b, rfl, hp⟩ := h
  refine ⟨!b, rfl, ?_⟩
  cases b <;> simp_all

/-- One test before others. -/
theorem and {rest : List (Except Fault Bool)} {Q : Prop} (h : Decides test P)
    (hq : Decides (Selector.allHold (fun held => held) rest) Q) :
    Decides (Selector.allHold (fun held => held) (test :: rest)) (P ∧ Q) := by
  obtain ⟨b, rfl, hp⟩ := h
  obtain ⟨c, hc, hq⟩ := hq
  cases b with
  | false => exact ⟨false, rfl, by simp_all⟩
  | true => exact ⟨c, hc, by simp_all⟩

theorem or {test : α → Except Fault Bool} {a : α} {as : List α} {Q : Prop}
    (h : Decides (test a) P) (hq : Decides (Selector.someHolds test as) Q) :
    Decides (Selector.someHolds test (a :: as)) (P ∨ Q) := by
  obtain ⟨b, hb, hp⟩ := h
  obtain ⟨c, hc, hq⟩ := hq
  cases b with
  | false => exact ⟨c, by rw [Selector.someHolds, hb]; exact hc, by simp_all⟩
  | true => exact ⟨true, by rw [Selector.someHolds, hb]; rfl, by simp_all⟩

theorem allHold {test : α → Except Fault Bool} {Q : α → Prop} {as : List α}
    (h : ∀ a ∈ as, Decides (test a) (Q a)) : Decides (allHold test as) (∀ a ∈ as, Q a) := by
  induction as with
  | nil => exact ⟨true, rfl, by simp⟩
  | cons a as ih =>
    obtain ⟨b, hb, hq⟩ := h a List.mem_cons_self
    obtain ⟨c, hc, hqs⟩ := ih fun x hx => h x (List.mem_cons_of_mem a hx)
    cases b with
    | false =>
      have ha : ¬ Q a := by simpa using hq
      exact ⟨false, by rw [Selector.allHold, hb]; rfl, by simp [ha]⟩
    | true =>
      have ha : Q a := by simpa using hq
      exact ⟨c, by rw [Selector.allHold, hb]; exact hc, by simp [ha, hqs]⟩

theorem someHolds {test : α → Except Fault Bool} {Q : α → Prop} {as : List α}
    (h : ∀ a ∈ as, Decides (test a) (Q a)) : Decides (someHolds test as) (∃ a ∈ as, Q a) := by
  induction as with
  | nil => exact ⟨false, rfl, by simp⟩
  | cons a as ih =>
    have hrest := ih fun x hx => h x (List.mem_cons_of_mem a hx)
    exact ((h a List.mem_cons_self).or hrest).congr (by simp)

end Decides

theorem Comparison.holds_iff (c : Comparison) (value expected : Text) :
    c.holds value expected = true ↔ c.Relates value expected := by
  have hstart : ∀ t p : Text, Text.startsWith t p = true ↔ p <+: t := by
    intro t p
    rw [Text.startsWith, Option.isSome_iff_ne_none, ne_eq, Text.afterPrefix_eq_none_iff, not_not]
  cases c with
  | equals => simp [holds, Relates]
  | hasWord => simp [holds, Relates]
  | hyphenated => simp [holds, Relates, hstart]
  | beginsWith => simp [holds, Relates, hstart]
  | endsWith => simp [holds, Relates, Text.endsWith, hstart]
  | contains =>
    rw [holds, Text.includes, Option.isSome_iff_ne_none, ne_eq, Text.breakOn_eq_none_iff, not_not]
    rfl

/-! What is known of an element. -/

/-- The facts of an element answer with the attributes of the element. -/
theorem attribute?_elementFacts {V : View} (hm : V.IsMarkup) {e : ObjectId} {t : Value} {tag : Text}
    (he : V.core e = some (.element t)) (name : Text) :
    (Tree.elementFacts V tag e).attribute? name = .ok ((V.attribute? e name).map .text) := by
  obtain ⟨attributes, ha⟩ := hm.attributes e t he
  rw [View.attribute?_eq ha]
  refine congrArg Except.ok ?_
  rw [ha]
  clear ha
  induction attributes with
  | nil => rfl
  | cons a attributes ih =>
    have hvalue : Tree.attributeValue? (.text a.2) = some (.text a.2) := rfl
    simp only [Markup.values_cons, List.filterMap_cons, hvalue, Option.map_some, Assoc.find?]
    split
    · rfl
    · exact ih

/-- Whether what is known of an element is what the tree says of it. -/
structure Seat.Tells (V : View) (e : ObjectId) (seat : Seat) : Prop where
  facts : ∃ tag, V.core e = some (.element (.text tag)) ∧ seat.facts = Tree.elementFacts V tag e
  underDocument : Decides (known seat.underDocument) (PlainPseudo.root.Fits V e)
  isFirst : Decides (known seat.isFirst) (PlainPseudo.firstChild.Fits V e)
  isLast : Decides (known seat.isLast) (PlainPseudo.lastChild.Fits V e)

namespace Seat.Tells

variable {V : View} {e : ObjectId} {seat : Seat}

theorem attribute? (h : seat.Tells V e) (hm : V.IsMarkup) (name : Text) :
    seat.facts.attribute? name = .ok ((V.attribute? e name).map .text) := by
  obtain ⟨tag, he, hf⟩ := h.facts
  rw [hf]
  exact attribute?_elementFacts hm he name

theorem decides_attributeTest (h : seat.Tells V e) (hm : V.IsMarkup) (test : AttributeTest) :
    Decides (test.holds seat.facts) (test.Fits V e) := by
  rw [AttributeTest.holds, h.attribute? hm]
  rw [AttributeTest.Fits]
  cases V.attribute? e test.name with
  | none => exact .pure (by simp)
  | some value =>
    cases test.comparison with
    | none => exact .pure (by simp)
    | some compared =>
      obtain ⟨c, expected⟩ := compared
      refine .pure ?_
      simp [c.holds_iff]

theorem decides_plain (h : seat.Tells V e) {p : PlainPseudo} (hk : p.IsKnown) :
    Decides (p.holds seat) (p.Fits V e) := by
  cases p with
  | root => exact h.underDocument
  | firstChild => exact h.isFirst
  | lastChild => exact h.isLast
  | anything => exact .pure (by simp [PlainPseudo.Fits])
  | unknown name => exact absurd rfl (hk name)

theorem decides_classes (h : seat.Tells V e) (hm : V.IsMarkup) {π : Type} (c : Compound π) :
    Decides (Compound.holdsWith.classesHold c seat) (∀ k ∈ c.classes, k ∈ V.classes e) := by
  have hclasses : seat.facts.classes = .ok (V.classes e) := by
    rw [Facts.classes, h.attribute? hm, View.classes]
    cases V.attribute? e _ <;> rfl
  rw [Compound.holdsWith.classesHold, hclasses]
  by_cases hempty : c.classes = []
  · simp only [hempty, List.isEmpty_nil, if_true]
    exact .pure (by simp)
  · have hne : c.classes.isEmpty = false := by simpa using hempty
    simp only [hne, Bool.false_eq_true, if_false]
    exact .pure (by simp)

theorem decides_tag (h : seat.Tells V e) {π : Type} (c : Compound π) :
    Decides (Compound.holdsWith.tagHolds c seat)
      (∀ t, c.tag = some t → V.core e = some (.element (.text t))) := by
  obtain ⟨tag, he, hfacts⟩ := h.facts
  rw [Compound.holdsWith.tagHolds, hfacts]
  cases c.tag with
  | none => exact .pure (by simp)
  | some t => exact .pure (by simp [Tree.elementFacts, he])

theorem decides_id (h : seat.Tells V e) (hm : V.IsMarkup) {π : Type} (c : Compound π) :
    Decides (Compound.holdsWith.idHolds c seat)
      (∀ id, c.id = some id → V.attribute? e "id" = some id) := by
  rw [Compound.holdsWith.idHolds]
  cases c.id with
  | none => exact .pure (by simp)
  | some id =>
    simp only [h.attribute? hm]
    refine .pure ?_
    cases V.attribute? e _ <;> simp

theorem decides_attributes (h : seat.Tells V e) (hm : V.IsMarkup) {π : Type} (c : Compound π) :
    Decides (Compound.holdsWith.attributesHold c seat) (∀ test ∈ c.attributes, test.Fits V e) :=
  .allHold fun test _ => h.decides_attributeTest hm test

/-- The five tests of a compound, given how its pseudo-classes are tested. -/
theorem decides_holdsWith (h : seat.Tells V e) (hm : V.IsMarkup) {π : Type}
    {pseudoHolds : π → Seat → Except Fault Bool} {pseudoFits : π → Prop} {c : Compound π}
    (hp : ∀ p ∈ c.pseudos, Decides (pseudoHolds p seat) (pseudoFits p)) :
    Decides (c.holdsWith pseudoHolds seat) (c.FitsWith pseudoFits V e) := by
  have htag := h.decides_tag c
  have hid := h.decides_id hm c
  have hclasses := h.decides_classes hm c
  have hattributes := h.decides_attributes hm c
  have hpseudos : Decides (Compound.holdsWith.pseudosHold pseudoHolds c seat)
      (∀ p ∈ c.pseudos, pseudoFits p) := .allHold hp
  have hnone : Decides (allHold (fun held => held) []) True := ⟨true, rfl, by simp⟩
  have hall := htag.and (hid.and (hclasses.and (hattributes.and (hpseudos.and hnone))))
  refine Decides.congr hall ?_
  constructor
  · rintro ⟨h1, h2, h3, h4, h5, -⟩
    exact ⟨h1, h2, h3, h4, h5⟩
  · rintro ⟨h1, h2, h3, h4, h5⟩
    exact ⟨h1, h2, h3, h4, h5, trivial⟩

theorem decides_holds (h : seat.Tells V e) (hm : V.IsMarkup) {c : Compound Pseudo}
    (hk : ∀ p ∈ c.pseudos, p.IsKnown) : Decides (c.holds seat) (c.Fits V e) := by
  refine h.decides_holdsWith hm fun p hp => ?_
  have hknown := hk p hp
  match p, hknown with
  | .plain p, hknown => exact h.decides_plain hknown
  | .negation (.ok c), hknown =>
    exact (h.decides_holdsWith hm fun q hq => h.decides_plain (hknown q hq)).negate

end Seat.Tells

end Selector

/-! Chains of compounds. -/

namespace Selector

variable {V : View}

/-- How the element for one compound lies to the element for the compound before. -/
def Combinator.Links (V : View) (before e : ObjectId) : Combinator → Prop
  | .child => V.parent e = some before
  | .descendant => V.Above before e

/-- Elements chosen for the steps of a chain. The last step, and its element, come first. -/
structure Chosen (V : View) (chain : Chain) (es : List ObjectId) : Prop where
  fits : List.Forall₂ (fun s x => V.isElement x ∧ s.compound.Fits V x) chain es
  linked : (chain.zip es).IsChain fun a b => a.1.combinator.Links V b.2 a.2

/-- Whether an element matches one of the alternatives of a selector. -/
def Matches (V : View) (s : Alternatives) (e : ObjectId) : Prop :=
  ∃ chain ∈ s, ∃ es, Chosen V chain (e :: es)

/-- Alternatives that can be applied: none is empty, and all pseudo-classes are known. -/
def IsApplicable (s : Alternatives) : Prop :=
  ∀ chain ∈ s, chain ≠ [] ∧ ∀ step ∈ chain, ∀ p ∈ step.compound.pseudos, p.IsKnown

theorem Chosen.isElement {s : Step} {before : Chain} {e : ObjectId} {es : List ObjectId}
    (h : Chosen V (s :: before) (e :: es)) : V.isElement e = true := by
  cases h.fits with
  | cons hfits _ => exact hfits.1

theorem exists_chosen_single {s : Step} {e : ObjectId} :
    (∃ es, Chosen V [s] (e :: es)) ↔ V.isElement e ∧ s.compound.Fits V e := by
  constructor
  · rintro ⟨es, h⟩
    cases h.fits with
    | cons hfits _ => exact hfits
  · intro h
    exact ⟨[], .cons h .nil, .singleton _⟩

theorem matches_single {c : Combinator} {compound : Compound Pseudo} {e : ObjectId} :
    Matches V [[⟨c, compound⟩]] e ↔ V.isElement e = true ∧ compound.Fits V e := by
  simp [Matches, exists_chosen_single]

theorem exists_chosen_cons {s t : Step} {before : Chain} {e : ObjectId} :
    (∃ es, Chosen V (s :: t :: before) (e :: es)) ↔ V.isElement e ∧ s.compound.Fits V e ∧
      ∃ a, s.combinator.Links V a e ∧ ∃ es, Chosen V (t :: before) (a :: es) := by
  constructor
  · rintro ⟨es, hfits, hlinked⟩
    cases hfits with
    | cons he hrest =>
      cases hrest with
      | @cons _ a _ es ha hrest =>
        obtain ⟨hlink, hlinked⟩ := List.isChain_cons_cons.1 hlinked
        exact ⟨he.1, he.2, a, hlink, es, .cons ha hrest, hlinked⟩
  · rintro ⟨he, hfit, a, hlink, es, hfits, hlinked⟩
    exact ⟨a :: es, .cons ⟨he, hfit⟩ hfits, List.isChain_cons_cons.2 ⟨hlink, hlinked⟩⟩

/-- Whether a lineage tells of an element and all elements around it; of what is no element there is
nothing to tell. -/
inductive Lineage.Tells (V : View) : Option ObjectId → Lineage → Prop where
  | top {q : Option ObjectId} :
      (∀ p, q = some p → V.isElement p = false ∧ V.parent p = none) → Tells V q []
  | element {e : ObjectId} {seat : Seat} {above : Lineage} :
      seat.Tells V e → Tells V (V.parent e) above → Tells V (some e) (seat :: above)

theorem Seat.Tells.isElement {e : ObjectId} {seat : Seat} (h : seat.Tells V e) :
    V.isElement e = true := by
  obtain ⟨tag, he, _⟩ := h.facts
  rw [View.isElement, he]
  rfl

/-- Trying the elements around one, from the innermost on. -/
theorem decides_lineages {test : Lineage → Except Fault Bool} {Q : ObjectId → Prop}
    (htest : ∀ a l, V.isElement a → Lineage.Tells V (some a) l → Decides (test l) (Q a))
    {q : Option ObjectId} {above : Lineage} (h : Lineage.Tells V q above) :
    Decides (someHolds test (lineages above))
      (∃ p, q = some p ∧ ∃ a, V.isElement a ∧ V.Within a p ∧ Q a) := by
  induction h with
  | @top q hq =>
    refine ⟨false, rfl, ?_⟩
    simp only [Bool.false_eq_true, false_iff]
    rintro ⟨p, rfl, a, ha, hw, -⟩
    obtain ⟨helement, hparent⟩ := hq p rfl
    rcases hw with rfl | hup
    · rw [helement] at ha
      cases ha
    · obtain ⟨y, hy, _⟩ := Relation.TransGen.head'_iff.1 hup
      rw [hparent] at hy
      cases hy
  | @element e seat above hseat habove ih =>
    have hfirst := htest e (seat :: above) hseat.isElement (.element hseat habove)
    refine (hfirst.or ih).congr ?_
    constructor
    · rintro (hq | ⟨p, hp, a, ha, hw, hq⟩)
      · exact ⟨e, rfl, e, hseat.isElement, .inl rfl, hq⟩
      · exact ⟨e, rfl, a, ha, .inr (.head' hp (View.within_iff.1 hw)), hq⟩
    · rintro ⟨p, hp, a, ha, hw, hq⟩
      cases hp
      rcases hw with rfl | hup
      · exact .inl hq
      · obtain ⟨p, hp, hw⟩ := Relation.TransGen.head'_iff.1 hup
        exact .inr ⟨p, hp, a, ha, View.within_iff.2 hw, hq⟩

theorem decides_chainHolds (hm : V.IsMarkup) (chain : Chain) (hne : chain ≠ [])
    (hk : ∀ step ∈ chain, ∀ p ∈ step.compound.pseudos, p.IsKnown) :
    ∀ {e : ObjectId} {lineage : Lineage}, V.isElement e → Lineage.Tells V (some e) lineage →
      Decides (chainHolds chain lineage) (∃ es, Chosen V chain (e :: es)) := by
  match chain, hne with
  | [s], _ =>
    intro e lineage he hl
    cases hl with
    | top hq => exact absurd he (by simp [(hq e rfl).1])
    | element hseat _ =>
      refine (hseat.decides_holds hm (hk s List.mem_cons_self)).congr ?_
      simp [exists_chosen_single, he]
  | s :: t :: before, _ =>
    intro e lineage he hl
    have ih : ∀ {a : ObjectId} {l : Lineage}, V.isElement a → Lineage.Tells V (some a) l →
        Decides (chainHolds (t :: before) l) (∃ es, Chosen V (t :: before) (a :: es)) :=
      decides_chainHolds hm (t :: before) (by simp) fun step hs =>
        hk step (List.mem_cons_of_mem s hs)
    cases hl with
    | top hq => exact absurd he (by simp [(hq e rfl).1])
    | @element _ seat above hseat habove =>
      obtain ⟨b, hb, hfit⟩ := hseat.decides_holds hm (hk s List.mem_cons_self)
      cases b with
      | false =>
        have hno : ¬ s.compound.Fits V e := by simpa using hfit
        refine ⟨false, ?_, by simp [exists_chosen_cons, hno]⟩
        rw [chainHolds, hb]
        rfl
      | true =>
        have hyes : s.compound.Fits V e := by simpa using hfit
        have hrun : chainHolds (s :: t :: before) (seat :: above) =
            match s.combinator with
            | .child => chainHolds (t :: before) above
            | .descendant => someHolds (chainHolds (t :: before)) (lineages above) := by
          rw [chainHolds, hb]
          rfl
        rw [hrun]
        simp only [exists_chosen_cons, he, hyes, true_and]
        generalize hq : V.parent e = q at habove
        cases s.combinator with
        | child =>
          simp only [Combinator.Links, hq]
          cases habove with
          | top hq' =>
            refine ⟨false, rfl, ?_⟩
            simp only [Bool.false_eq_true, false_iff]
            rintro ⟨a, rfl, es, hes⟩
            have ha := hes.isElement
            rw [(hq' a rfl).1] at ha
            cases ha
          | @element a _ _ ha hrest =>
            refine (ih ha.isElement (.element ha hrest)).congr ?_
            simp
        | descendant =>
          refine (decides_lineages (fun a l ha hl => ih ha hl) habove).congr ?_
          constructor
          · rintro ⟨p, rfl, a, _, hw, hes⟩
            exact ⟨a, .head' hq (View.within_iff.1 hw), hes⟩
          · rintro ⟨a, hup, es, hes⟩
            obtain ⟨p, hp, hw⟩ := Relation.TransGen.head'_iff.1 hup
            exact ⟨p, hq.symm.trans hp, a, hes.isElement, View.within_iff.2 hw, es, hes⟩

/-- Whether an element matches a selector. -/
theorem decides_holds (hm : V.IsMarkup) {s : Alternatives} (hs : IsApplicable s) {e : ObjectId}
    {lineage : Lineage} (he : V.isElement e) (hl : Lineage.Tells V (some e) lineage) :
    Decides (holds s lineage) (Matches V s e) :=
  .someHolds fun chain hc => decides_chainHolds hm chain (hs chain hc).1 (hs chain hc).2 he hl

end Selector

end PageTemplate
