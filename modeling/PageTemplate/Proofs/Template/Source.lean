import PageTemplate.Proofs.Markup.Reading
import PageTemplate.Proofs.Tree.Attributes
import PageTemplate.Template.Expand

/-!
# PageTemplate.Proofs.Template.Source

The markup that templates are made of: whatever was read from a text, as long as no inline code in
it puts markup in its place. It holds code in the attributes that say what is evaluated, behind the
mark of inline code, and in markers in attribute values and in scripts.
-/

namespace PageTemplate

namespace Markup

mutual

/-- Whether inline code in a node yields markup. -/
def Node.insertsMarkup : Node → Bool
  | .element _ _ children => anyInsertsMarkup children
  | .code source => (Expander.markupSource? source).isSome
  | .text .. | .comment _ | .doctype _ => false

/-- Whether inline code in nodes yields markup. -/
def anyInsertsMarkup : List Node → Bool
  | [] => false
  | n :: ns => n.insertsMarkup || anyInsertsMarkup ns

end

theorem anyInsertsMarkup_eq_false {ns : List Node} :
    anyInsertsMarkup ns = false ↔ ∀ n ∈ ns, n.insertsMarkup = false := by
  induction ns with
  | nil => simp [anyInsertsMarkup]
  | cons n ns ih => simp [anyInsertsMarkup, ih]

/-- The nodes that are made by reading: the outermost nodes of a text, the nodes inside them, and
the element that is put around a whole template. -/
inductive IsProduced (options : ReadOptions) : Node → Prop where
  | root {t : Text} {ns : List Node} (read : parse options t = .ok ns) :
    IsProduced options (.element Expander.rootTag [] ns)
  | outermost {t : Text} {ns : List Node} (read : parse options t = .ok ns) {n : Node}
    (member : n ∈ ns) : IsProduced options n
  | inside {tag : Text} {attributes : Attributes} {children : List Node}
    (outer : IsProduced options (.element tag attributes children)) {n : Node}
    (member : n ∈ children) : IsProduced options n

/-- Nodes whose tags are in lower case and whose attributes differ in their names. -/
inductive Node.IsTidy : Node → Prop where
  | element {tag : Text} {attributes : Attributes} {children : List Node}
    (lower : Text.toLower tag = tag) (distinct : (attributes.map (·.1)).Nodup)
    (inside : ∀ n ∈ children, n.IsTidy) : IsTidy (.element tag attributes children)
  | text (value : Text) (raw : Bool) : IsTidy (.text value raw)
  | code (source : Text) : IsTidy (.code source)
  | comment (value : Text) : IsTidy (.comment value)
  | doctype (value : Text) : IsTidy (.doctype value)

theorem IsRawBody.isTidy {tag : Text} {children : List Node} (h : IsRawBody tag children) :
    ∀ n ∈ children, n.IsTidy := by
  match children, h with
  | [], _ => simp
  | [.text value true], _ =>
    intro n hn
    rw [List.mem_singleton.1 hn]
    exact .text value true

mutual

theorem Node.IsRead.isTidy {options : ReadOptions} (n : Node) (h : n.IsRead options) :
    n.IsTidy := by
  match n with
  | .element tag attributes children =>
    obtain ⟨ht, ha, hc⟩ := h
    refine .element (toLower_of_isTagName ht) ha.nodup ?_
    split at hc
    · simp [hc]
    · split at hc
      · exact hc.isTidy
      · exact AllRead.isTidy children hc
  | .text value raw => exact .text value raw
  | .code source => exact .code source
  | .comment value => exact .comment value
  | .doctype value => exact .doctype value

theorem AllRead.isTidy {options : ReadOptions} (ns : List Node) (h : AllRead options ns) :
    ∀ n ∈ ns, n.IsTidy := by
  match ns with
  | [] => simp
  | n :: ns => exact List.forall_mem_cons.2 ⟨Node.IsRead.isTidy n h.1, AllRead.isTidy ns h.2⟩

end

theorem isTidy_parse {options : ReadOptions} {t : Text} {ns : List Node}
    (h : parse options t = .ok ns) : ∀ n ∈ ns, n.IsTidy :=
  AllRead.isTidy ns (allRead_parse h)

/-- Whatever is made by reading is tidy. -/
theorem IsProduced.isTidy {options : ReadOptions} {n : Node} (h : IsProduced options n) :
    n.IsTidy := by
  induction h with
  | root read => exact .element (by decide) List.nodup_nil (isTidy_parse read)
  | outermost read member => exact isTidy_parse read _ member
  | inside _ member ih =>
    cases ih with
    | element _ _ inside => exact inside _ member

/-- Templates: tidy nodes in which no inline code yields markup. -/
structure Node.IsTemplate (n : Node) : Prop where
  tidy : n.IsTidy
  plain : n.insertsMarkup = false

theorem Node.IsTemplate.inside {tag : Text} {attributes : Attributes} {children : List Node}
    (h : (Node.element tag attributes children).IsTemplate) : ∀ n ∈ children, n.IsTemplate := by
  obtain ⟨ht, hp⟩ := h
  cases ht with
  | element _ _ inside =>
    exact fun n hn => ⟨inside n hn, anyInsertsMarkup_eq_false.1 hp n hn⟩

theorem Node.IsTemplate.distinct {tag : Text} {attributes : Attributes} {children : List Node}
    (h : (Node.element tag attributes children).IsTemplate) : (attributes.map (·.1)).Nodup := by
  cases h.tidy with
  | element _ distinct _ => exact distinct

theorem Node.IsTemplate.source {source : Text} (h : (Node.code source).IsTemplate) :
    Expander.markupSource? source = none := by
  have hp := h.plain
  rw [Node.insertsMarkup, Option.isSome_eq_false_iff] at hp
  exact Option.isNone_iff_eq_none.1 hp

theorem allCopyable_iff {ns : List Node} :
    AllCopyable (treesOf ns) ↔ ∀ n ∈ ns, n.tree.Copyable := by
  induction ns with
  | nil => simp [treesOf, AllCopyable]
  | cons n ns ih => simp [treesOf, AllCopyable, ih]

/-- Copies of tidy nodes are the same nodes. -/
theorem Node.IsTidy.copyable {n : Node} (h : n.IsTidy) : n.tree.Copyable := by
  induction h with
  | element lower distinct _ ih =>
    exact ⟨⟨_, rfl, lower⟩, live_ofList_values distinct, allCopyable_iff.2 ih⟩
  | text value raw =>
    rintro _ _ hc
    cases hc
    exact fun hu => by cases hu
  | code source => exact fun _ _ hc => by cases hc
  | comment value => exact fun _ _ hc => by cases hc
  | doctype value => exact fun _ _ hc => by cases hc

/-! Where markup holds code. -/

/-- The attributes whose values are code. -/
def codeAttributes : List Text := ["cond", "over", "from", "onrender"].map Text.ofString

/-- What of the source of inline code is evaluated: what is behind its mark, if it has one. -/
def codeExpression : Text → Text
  | [] => []
  | u :: code =>
    if u == unit '=' then (Expander.markupSource? (u :: code)).getD code else u :: code

/-- Whether a text has a marker with some code in it. -/
def HasMarker (t code : Text) : Prop := ∃ before, (before, code) ∈ (Marker.cut t).markers

def scriptTag : Text := "script"

/-- The code that a node holds itself. -/
inductive Node.Holds : Node → Text → Prop
  | value {tag : Text} {attributes : Attributes} {children : List Node} {name code : Text}
    (named : name ∈ codeAttributes) (member : (name, code) ∈ attributes) :
    Holds (.element tag attributes children) code
  | marker {tag : Text} {attributes : Attributes} {children : List Node} {name value code : Text}
    (member : (name, value) ∈ attributes) (marked : HasMarker value code) :
    Holds (.element tag attributes children) code
  | script {attributes : Attributes} {children : List Node} {body code : Text} {raw : Bool}
    (member : .text body raw ∈ children) (marked : HasMarker body code) :
    Holds (.element scriptTag attributes children) code
  | inline (source : Text) : Holds (.code source) (codeExpression source)

/-- Whether a node is another one or lies inside it. -/
inductive Node.Within : Node → Node → Prop
  | self (n : Node) : Within n n
  | inside {m n : Node} {tag : Text} {attributes : Attributes} {children : List Node}
    (member : n ∈ children) (within : m.Within n) : Within m (.element tag attributes children)

/-- Templates that hold no other code than some, and that are as reading makes them: tidy, with one
raw text at most in a script. -/
structure Node.Carries (allowed : Text → Prop) (n : Node) : Prop where
  tidy : n.IsTidy
  scripts : ∀ attributes children, (Node.element scriptTag attributes children).Within n →
    IsRawBody scriptTag children
  code : ∀ (m : Node) (code : Text), m.Within n → m.Holds code → allowed code

namespace Node.Carries

variable {allowed : Text → Prop} {tag : Text} {attributes : Attributes} {children : List Node}

theorem child (h : (Node.element tag attributes children).Carries allowed) {n : Node}
    (hn : n ∈ children) : n.Carries allowed where
  tidy := by
    cases h.tidy with
    | element _ _ inside => exact inside n hn
  scripts as ns hw := h.scripts as ns (.inside hn hw)
  code m code hw := h.code m code (.inside hn hw)

theorem distinct (h : (Node.element tag attributes children).Carries allowed) :
    (attributes.map (·.1)).Nodup := by
  cases h.tidy with
  | element _ distinct _ => exact distinct

theorem value (h : (Node.element tag attributes children).Carries allowed) {name code : Text}
    (hn : name ∈ codeAttributes) (hm : (name, code) ∈ attributes) : allowed code :=
  h.code _ code (.self _) (.value hn hm)

theorem marker (h : (Node.element tag attributes children).Carries allowed) {name value code : Text}
    (hm : (name, value) ∈ attributes) (hv : HasMarker value code) : allowed code :=
  h.code _ code (.self _) (.marker hm hv)

end Node.Carries

/-- A script that was read holds one raw text at most. -/
theorem Node.Within.isRawBody {options : ReadOptions} (hr : options.rawTags.contains scriptTag)
    {attributes : Attributes} {children : List Node} {m n : Node} (h : m.Within n)
    (hm : m = .element scriptTag attributes children) (hn : n.IsRead options) :
    IsRawBody scriptTag children := by
  have hvoid : isVoid scriptTag = false := by decide
  induction h with
  | self =>
    subst hm
    obtain ⟨-, -, hc⟩ := hn
    rw [if_neg (by rw [hvoid]; exact Bool.false_ne_true), if_pos hr] at hc
    exact hc
  | @inside n tag as ns member within ih =>
    obtain ⟨-, -, hc⟩ := hn
    split at hc
    · rw [hc] at member
      cases member
    · split at hc
      · match ns, hc with
        | [], _ => cases member
        | [.text value true], _ =>
          rw [List.mem_singleton.1 member] at within
          cases within with
          | self => cases hm
      · exact ih (allRead_iff.1 hc n member)

/-- Whether every script in a node has one raw text at most. -/
def Node.HasRawScripts (n : Node) : Prop :=
  ∀ attributes children, (Node.element scriptTag attributes children).Within n →
    IsRawBody scriptTag children

theorem Node.HasRawScripts.child {tag : Text} {attributes : Attributes} {children : List Node}
    (h : (Node.element tag attributes children).HasRawScripts) {n : Node} (hn : n ∈ children) :
    n.HasRawScripts :=
  fun as ns hw => h as ns (.inside hn hw)

theorem hasRawScripts_parse {options : ReadOptions} (hr : options.rawTags.contains scriptTag)
    {t : Text} {ns : List Node} (h : parse options t = .ok ns) : ∀ n ∈ ns, n.HasRawScripts :=
  fun n hn _ _ hw => hw.isRawBody hr rfl (allRead_iff.1 (allRead_parse h) n hn)

/-- The scripts of whatever is made by reading are raw. -/
theorem IsProduced.hasRawScripts {options : ReadOptions} (hr : options.rawTags.contains scriptTag)
    {n : Node} (h : IsProduced options n) : n.HasRawScripts := by
  have hne : Expander.rootTag ≠ scriptTag := by decide
  induction h with
  | root read =>
    intro attributes children hw
    cases hw with
    | inside member within => exact hasRawScripts_parse hr read _ member attributes children within
  | outermost read member => exact hasRawScripts_parse hr read _ member
  | inside _ member ih => exact ih.child member

theorem contains_scriptTag_of (rawTags : List Text) (inlineCode : Bool) :
    (ReadOptions.of rawTags inlineCode).rawTags.contains scriptTag := by
  simp only [ReadOptions.of, alwaysRawTags, List.contains_eq_mem, List.mem_append,
    decide_eq_true_eq]
  exact .inl (by decide)

end Markup

namespace Expander

open Markup (Node)

/-- Whether a template holds some code. -/
def HasCode (x : Expander) (markup code : Text) : Prop :=
  ∃ nodes, Markup.parse (x.readOptions true) markup = .ok nodes ∧
    ∃ n ∈ nodes, ∃ m : Node, m.Within n ∧ m.Holds code

variable {x : Expander} {markup : Text} {nodes : List Node} {allowed : Text → Prop}

/-- The only control tag with scripts is their own. -/
theorem tag_of_script {tag : Text} (h : Assoc.find? tag controlTags = some .script) :
    tag = Markup.scriptTag := by
  have hm := Assoc.mem_of_find? h
  simp only [controlTags, List.map_cons, List.map_nil, List.mem_cons, List.not_mem_nil, or_false,
    Prod.mk.injEq, reduceCtorEq, and_false, and_true, false_or] at hm
  exact hm

theorem contains_scriptTag : (x.readOptions true).rawTags.contains Markup.scriptTag :=
  Markup.contains_scriptTag_of _ true

/-- The nodes of a template hold the code of the template. -/
theorem carries_parse (h : Markup.parse (x.readOptions true) markup = .ok nodes)
    (ha : ∀ code, x.HasCode markup code → allowed code) : ∀ n ∈ nodes, n.Carries allowed := by
  intro n hn
  refine ⟨Markup.isTidy_parse h n hn, Markup.hasRawScripts_parse contains_scriptTag h n hn,
    fun m code hw hc => ?_⟩
  exact ha code ⟨nodes, h, n, hn, m, hw, hc⟩

/-- The element around a template holds no code besides. -/
theorem carries_root (h : ∀ n ∈ nodes, n.Carries allowed) :
    (Node.element rootTag [] nodes).Carries allowed := by
  have hne : rootTag ≠ Markup.scriptTag := by decide
  refine ⟨.element (by decide) List.nodup_nil fun n hn => (h n hn).tidy, fun as ns hw => ?_,
    fun m code hw hc => ?_⟩
  · cases hw with
    | inside member within => exact (h _ member).scripts as ns within
  · cases hw with
    | self =>
      cases hc with
      | value _ member => cases member
      | marker member => cases member
    | inside member within => exact (h _ member).code m code within hc

end Expander

end PageTemplate
