import PageTemplate.Proofs.Json.Written
import PageTemplate.Proofs.Markup.Tag
import PageTemplate.Template.Marker

/-!
# PageTemplate.Proofs.Template.ScriptBody

Values in the bodies of scripts. The JSON of a value holds no unit that means something in markup,
and it is parsed as the document that the value is written as. Since no closing tag reaches into
such a text or out of it, a body without a closing tag has none after its markers are replaced.
-/

namespace PageTemplate

open CodeUnit Json

variable {env : Env}

namespace Present

theorem recoding_scriptEscape : Recoding scriptEscape where
  plain u hu := by
    change (if isMarkup u then escapeNumber u else [u]) = [u]
    rw [hu]
    rfl
  markup u hu := by
    change (if isMarkup u then escapeNumber u else [u]) = [u] ∨
      (if isMarkup u then escapeNumber u else [u]) = escapeNumber u
    rw [hu]
    exact .inr rfl

theorem isMarkup_of_mem_scriptEscape {u v : CodeUnit} (h : v ∈ scriptEscape u) :
    isMarkup v = false := by
  change v ∈ (if isMarkup u then escapeNumber u else [u]) at h
  split at h
  · exact isMarkup_of_mem_escapeNumber h
  · rename_i hu
    rw [List.mem_singleton.1 h]
    simpa using hu

/-- A text that can stand for a JSON text inside a script: it is not empty, no unit in it has a
meaning there, and both are parsed as the same document. -/
structure IsScriptForm (t written : Text) : Prop where
  ne_nil : t ≠ []
  inert : ∀ u ∈ t, isMarkup u = false
  faithful : ∃ document, Json.parse? t = some document ∧ Json.parse? written = some document

theorem isScriptForm_escape {t : Text} (h : IsSpelled t) :
    IsScriptForm (t.flatMap scriptEscape) t := by
  obtain ⟨document, hd⟩ := h
  refine ⟨?_, ?_, document, hd.parse? recoding_scriptEscape, ?_⟩
  · obtain ⟨u, more, hu, _⟩ := hd.flatMap_eq_cons recoding_scriptEscape
    rw [hu]
    exact List.cons_ne_nil u more
  · intro u hu
    obtain ⟨v, _, hv⟩ := List.mem_flatMap.1 hu
    exact isMarkup_of_mem_scriptEscape hv
  · simpa using hd.parse? recoding_self

theorem isSpelled_getD {written : Option Text} (h : ∀ t ∈ written, IsSpelled t) :
    IsSpelled (written.getD "null") := by
  cases written with
  | none => exact ⟨.null, spells_null⟩
  | some t => exact h t rfl

/-- The JSON of a value for a script is the escaped form of a text that spells a document. -/
theorem toJson_eq_escape {w w' : World} {v : Value} {t : Text}
    (h : M.run' env w (toJson v) = (.ok t, w')) :
    ∃ written, M.run' env w (Stringify.write jsonStyle v) = (.ok written, w') ∧
      IsSpelled (written.getD "null") ∧ t = (written.getD "null").flatMap scriptEscape := by
  rw [toJson] at h
  obtain ⟨written, w'', hwrite, hpure⟩ := M.run'_bind_eq_ok.1 h
  rw [M.run'_pure] at hpure
  cases hpure
  exact ⟨written, hwrite, isSpelled_getD (Stringify.ensures_write rfl v w trivial _ _ hwrite), rfl⟩

end Present

namespace Markup

theorem HasClosingTag.mono {tag s t : Text} (h : HasClosingTag tag s) (hs : s <:+: t) :
    HasClosingTag tag t := by
  obtain ⟨before, name, blanks, after, rfl, hname, hblanks⟩ := h
  obtain ⟨front, back, rfl⟩ := hs
  exact ⟨front ++ before, name, blanks, after ++ back, by simp, hname, hblanks⟩

/-- A text that no closing tag of a script begins in or reaches into: there is no `<` in it, and it
begins with a unit that no such tag holds, or as a whole is `true`. -/
structure IsBarrier (t : Text) : Prop where
  less : unit '<' ∉ t
  first : t = Text.ofString "true" ∨ ∃ u more, t = u :: more ∧ isStart u

theorem isBarrier_escape {t : Text} (h : IsSpelled t) :
    IsBarrier (t.flatMap Present.scriptEscape) := by
  refine ⟨fun hl => absurd ((Present.isScriptForm_escape h).inert _ hl) (by decide), ?_⟩
  obtain ⟨document, hd⟩ := h
  rcases hd.start with rfl | ⟨u, more, rfl, hu⟩
  · exact .inl (Present.recoding_scriptEscape.flatMap_word (by decide))
  · refine .inr ⟨u, more.flatMap Present.scriptEscape, ?_, hu⟩
    rw [List.flatMap_cons, Present.recoding_scriptEscape.plain u (isMarkup_of_isStart hu)]
    rfl

theorem IsBarrier.exists_cons {t : Text} (h : IsBarrier t) :
    ∃ u more, t = u :: more ∧ (isStart u ∨ u = unit 't' ∧ ∃ rest, more = unit 'r' :: rest) := by
  rcases h.first with rfl | ⟨u, more, rfl, hu⟩
  · exact ⟨unit 't', "rue", rfl, .inr ⟨rfl, "ue", rfl⟩⟩
  · exact ⟨u, more, rfl, .inl hu⟩

/-- The only `t` in the name of a script is its last letter. -/
theorem eq_nil_of_script {name front back : Text}
    (h : Text.sameIgnoringAsciiCase name "script") (hn : name = front ++ unit 't' :: back) :
    back = [] := by
  have hlower : Text.ofString "scrip" ++ [unit 't'] =
      front.asciiLower ++ unit 't' :: back.asciiLower := by
    have hletter : asciiLower (unit 't') = unit 't' := by decide
    have hsame := (beq_iff_eq.1 h).symm
    rw [hn, Text.asciiLower, Text.asciiLower, List.map_append, List.map_cons, hletter] at hsame
    exact hsame
  have hback : back.asciiLower = [] := by
    rcases List.append_eq_append_iff.1 hlower with ⟨as, -, ht⟩ | ⟨bs, hfront, ht⟩
    · cases as with
      | nil => exact (List.cons.inj ht).2.symm
      | cons => simp at ht
    · cases bs with
      | nil => exact (List.cons.inj ht).2
      | cons v bs =>
        have hmem : unit 't' ∈ Text.ofString "scrip" := by
          rw [hfront, (List.cons.inj ht).1]
          simp
        exact absurd hmem (by decide)
  exact List.map_eq_nil_iff.1 hback

/-- No letter of the name of a script begins a value, `true` aside. -/
theorem not_isStart_of_script {name : Text} (h : Text.sameIgnoringAsciiCase name "script")
    {u : CodeUnit} (hu : u ∈ name) : ¬ isStart u := by
  intro hs
  have hlower : asciiLower u ∈ Text.ofString "script" := by
    have : asciiLower u ∈ name.asciiLower := List.mem_map.2 ⟨u, hu, rfl⟩
    rwa [beq_iff_eq.1 h] at this
  simp only [isStart, Bool.or_eq_true, beq_iff_eq] at hs
  rcases hs with (((((hdigit | rfl) | rfl) | rfl) | rfl) | rfl) | rfl
  · -- A digit has no other case.
    have hsame : asciiLower u = u := by
      have := isDigit_iff.1 hdigit
      have hupper : isUpperLetter u = false := by
        simp only [isUpperLetter, Bool.and_eq_false_iff, decide_eq_false_iff_not]
        exact .inl fun hle => by
          have := UInt16.le_iff_toNat_le.1 hle
          have hA : (unit 'A').toNat = 65 := rfl
          omega
      rw [asciiLower, hupper]
      rfl
    rw [hsame] at hlower
    have hnone : ∀ v ∈ Text.ofString "script", isDigit v = false := by
      simpa using List.all_eq_true.1 (show (Text.ofString "script").all (!isDigit ·) = true by decide)
    rw [hnone u hlower] at hdigit
    cases hdigit
  all_goals exact absurd hlower (by decide)

/-- Behind its name a closing tag holds white space and a `>`. -/
theorem of_mem_blanks {blanks : Text} (hb : ∀ u ∈ blanks, isBlank u) {u : CodeUnit}
    (hu : u ∈ blanks ++ [unit '>']) : ¬ isStart u ∧ u ≠ unit 't' ∧ u ≠ unit 'r' := by
  rcases List.mem_append.1 hu with hu | hu
  · have hblank := hb u hu
    refine ⟨fun hs => ?_, ?_, ?_⟩
    · simp only [isStart, Bool.or_eq_true, beq_iff_eq] at hs
      rcases hs with (((((hdigit | rfl) | rfl) | rfl) | rfl) | rfl) | rfl
      · have := isDigit_iff.1 hdigit
        simp [isBlank, UInt16.le_iff_toNat_le, ← UInt16.toNat_inj] at hblank
        omega
      all_goals exact absurd hblank (by decide)
    · rintro rfl
      exact absurd hblank (by decide)
    · rintro rfl
      exact absurd hblank (by decide)
  · rw [List.mem_singleton.1 hu]
    decide

/-- No unit of a closing tag behind its `<` begins a value, and behind a `t` no `r` stands. -/
theorem not_isStart_of_tag {name blanks front reach : Text} {u : CodeUnit}
    (hname : Text.sameIgnoringAsciiCase name "script") (hblanks : ∀ u ∈ blanks, isBlank u)
    (h : unit '/' :: (name ++ (blanks ++ [unit '>'])) = front ++ u :: reach) :
    ¬ isStart u ∧ (u = unit 't' → ∃ v ∈ reach.head?, v ≠ unit 'r') := by
  cases front with
  | nil =>
    obtain ⟨rfl, _⟩ := List.cons.inj h
    exact ⟨by decide, fun ht => absurd ht (by decide)⟩
  | cons c front =>
    have behind : ∀ {rest : Text}, u ∈ blanks ++ [unit '>'] →
        ¬ isStart u ∧ (u = unit 't' → ∃ v ∈ rest.head?, v ≠ unit 'r') := by
      intro rest hu
      obtain ⟨hs, ht, _⟩ := of_mem_blanks hblanks hu
      exact ⟨hs, fun he => absurd he ht⟩
    rcases List.append_eq_append_iff.1 (List.cons.inj h).2 with ⟨as, -, hrest⟩ | ⟨bs, hn, hrest⟩
    · exact behind (by rw [hrest]; simp)
    cases bs with
    | nil => exact behind (by rw [List.nil_append] at hrest; rw [← hrest]; simp)
    | cons v bs =>
      obtain ⟨rfl, hreach⟩ := List.cons.inj hrest
      refine ⟨not_isStart_of_script hname (by rw [hn]; simp), ?_⟩
      rintro rfl
      -- Behind its last letter the name is followed by white space or the `>`.
      rw [eq_nil_of_script hname hn] at hreach
      change reach = blanks ++ [unit '>'] at hreach
      obtain ⟨v, more, hv⟩ := List.exists_cons_of_ne_nil
        (show blanks ++ [unit '>'] ≠ [] by simp)
      refine ⟨v, by rw [hreach, hv]; rfl, ?_⟩
      exact (of_mem_blanks hblanks (by rw [hv]; exact List.mem_cons_self)).2.2

/-- A closing tag does not reach over a barrier. -/
theorem HasClosingTag.of_barrier {a t b : Text} (ht : IsBarrier t)
    (h : HasClosingTag "script" (a ++ (t ++ b))) :
    HasClosingTag "script" a ∨ HasClosingTag "script" b := by
  obtain ⟨before, name, blanks, after, he, hname, hblanks⟩ := h
  obtain ⟨u, more, rfl, hu⟩ := ht.exists_cons
  rcases List.append_eq_append_iff.1 he with ⟨front, rfl, hrest⟩ | ⟨back, rfl, hrest⟩
  · -- The tag begins behind `a`; in the barrier there is no `<`.
    rcases List.append_eq_append_iff.1 hrest with ⟨front', rfl, rfl⟩ | ⟨back', hbarrier, htag⟩
    · exact .inr ⟨front', name, blanks, after, rfl, hname, hblanks⟩
    · cases back' with
      | nil => exact .inr ⟨[], name, blanks, after, htag.symm, hname, hblanks⟩
      | cons v back' =>
        obtain ⟨rfl, _⟩ := List.cons.inj htag
        exact absurd (by rw [hbarrier]; simp) ht.less
  · -- The tag begins in `a`, and ends there or would reach into the barrier.
    have hmark : (unit '<' :: unit '/' :: (name ++ (blanks ++ [unit '>']))) ++ after =
        back ++ (u :: more ++ b) := by
      rw [← hrest]
      simp
    rcases List.append_eq_append_iff.1 hmark with ⟨inside, rfl, _⟩ | ⟨reach, htag, hreach⟩
    · exact .inl ⟨before, name, blanks, inside, by simp, hname, hblanks⟩
    cases reach with
    | nil =>
      rw [List.append_nil] at htag
      exact .inl ⟨before, name, blanks, [], by rw [← htag], hname, hblanks⟩
    | cons v reach =>
      obtain ⟨rfl, hmore⟩ := List.cons.inj hreach
      exfalso
      cases back with
      | nil =>
        obtain ⟨rfl, _⟩ := List.cons.inj htag
        exact ht.less List.mem_cons_self
      | cons c back =>
        obtain ⟨hstart, hletter⟩ := not_isStart_of_tag hname hblanks (List.cons.inj htag).2
        rcases hu with hu | ⟨rfl, rest, rfl⟩
        · exact hstart hu
        · obtain ⟨v, hv, hne⟩ := hletter rfl
          cases reach with
          | nil => cases hv
          | cons w reach =>
            cases hv
            exact hne (List.cons.inj hmore).1.symm

/-- Pieces with a barrier at the end of each, and a last piece without one: a closing tag in what
they make up is one in a piece. -/
theorem not_hasClosingTag_flatten {s tail : Text} {parts : List Text}
    (hs : ¬ HasClosingTag "script" s) (htail : tail <:+: s)
    (h : ∀ part ∈ parts, ∃ before barrier, part = before ++ barrier ∧ before <:+: s ∧
      IsBarrier barrier) : ¬ HasClosingTag "script" (parts.flatten ++ tail) := by
  induction parts with
  | nil => exact fun hc => hs (hc.mono htail)
  | cons part parts ih =>
    obtain ⟨before, barrier, rfl, hbefore, hbarrier⟩ := h part List.mem_cons_self
    intro hc
    rw [List.flatten_cons, List.append_assoc, List.append_assoc] at hc
    rcases hc.of_barrier hbarrier with hc | hc
    · exact hs (hc.mono hbefore)
    · exact ih (fun p hp => h p (List.mem_cons_of_mem _ hp)) hc

end Markup

namespace Marker

/-- Nothing is lost at a marker. -/
theorem eq_of_next {t before code after : Text} (h : next t = .marker before code after) :
    t = before ++ opening ++ (code ++ closing ++ after) := by
  rw [next] at h
  split at h
  · cases h
  · rename_i b rest hb
    split at h
    · cases h
    · rename_i c a hc
      cases h
      rw [Text.eq_of_breakOn hb, Text.eq_of_breakOn hc]

theorem cut_of_none {t : Text} (h : next t = .none) : cut t = ⟨[], t, true⟩ := by
  rw [cut]
  split
  · rfl
  all_goals
    rename_i hn
    cases h.symm.trans hn

theorem cut_of_unterminated {t : Text} (h : next t = .unterminated) : cut t = ⟨[], t, false⟩ := by
  rw [cut]
  split
  case h_2 => rfl
  all_goals
    rename_i hn
    cases h.symm.trans hn

theorem cut_of_marker {t before code after : Text} (h : next t = .marker before code after) :
    cut t = { cut after with markers := (before, code) :: (cut after).markers } := by
  rw [cut]
  split
  all_goals
    rename_i hn
    cases h.symm.trans hn
  rfl

/-- The text between the markers is text of the whole. -/
theorem cut_infix (t : Text) : (∀ m ∈ (cut t).markers, m.1 <:+: t) ∧ (cut t).tail <:+: t := by
  induction t using cut.induct with
  | case1 t h =>
    rw [cut_of_none h]
    exact ⟨by simp, List.infix_refl t⟩
  | case2 t h =>
    rw [cut_of_unterminated h]
    exact ⟨by simp, List.infix_refl t⟩
  | case3 t before code after h ih =>
    have hafter : after <:+: t := by
      rw [eq_of_next h]
      exact ⟨before ++ opening ++ code ++ closing, [], by simp⟩
    have hbefore : before <:+: t := by
      rw [eq_of_next h]
      exact ⟨[], opening ++ (code ++ closing ++ after), by simp⟩
    rw [cut_of_marker h]
    exact ⟨List.forall_mem_cons.2 ⟨hbefore, fun m hm => (ih.1 m hm).trans hafter⟩,
      ih.2.trans hafter⟩

/-- A script body without a closing tag has none after its markers are replaced by JSON, whatever
their values are. -/
theorem ensures_substitute_toJson (evaluate : Text → M Value) (place : Text) {s : Text}
    (hs : ¬ Markup.HasClosingTag "script" s) :
    Ensures env (fun _ => True)
      (substitute evaluate (fun v => do return .text (← Present.toJson v)) place s)
      fun out _ => ¬ Markup.HasClosingTag "script" out := by
  obtain ⟨hmarkers, htail⟩ := cut_infix s
  rw [substitute]
  refine (Ensures.mapM (R := fun part => ∃ before barrier, part = before ++ barrier ∧
    before <:+: s ∧ Markup.IsBarrier barrier) fun m hm => ?_).bind fun parts => .pre fun hparts => ?_
  · refine (Ensures.always _).bind fun v => ?_
    simp only [bind_assoc, pure_bind]
    refine Ensures.bind (Q := fun t _ => Markup.IsBarrier t) ?_ fun barrier => ?_
    · intro w _ t w' ht
      obtain ⟨written, _, hspelled, rfl⟩ := Present.toJson_eq_escape ht
      exact Markup.isBarrier_escape hspelled
    · exact .pure fun _ hbarrier =>
        ⟨trivial, m.1, barrier, rfl, hmarkers m hm, hbarrier⟩
  have hout := Markup.not_hasClosingTag_flatten hs htail hparts
  dsimp only
  split
  · exact .throw_bind _ _
  · exact .pure fun _ _ => hout

end Marker

namespace Present

/-- JSON in scripts is inert and faithful. Whenever there is JSON for a value, it is not empty,
none of its units has a meaning in a script, and it is parsed as the same document as the JSON text
of the value, which is parsed as well (`null` if the value has none). So no script body
gets a closing tag from the values that are put in the place of its markers. -/
theorem toJson_inert_and_faithful (env : Env) :
    (∀ (w w' : World) (v : Value) (t : Text), M.run' env w (toJson v) = (.ok t, w') →
      ∃ written, M.run' env w (Stringify.write jsonStyle v) = (.ok written, w') ∧
        t ≠ [] ∧ unit '<' ∉ t ∧ unit '>' ∉ t ∧ unit '&' ∉ t ∧ 0x2028 ∉ t ∧ 0x2029 ∉ t ∧
        ∃ document, Json.parse? t = some document ∧
          Json.parse? (written.getD "null") = some document) ∧
    ∀ (evaluate : Text → M Value) (place s out : Text) (w w' : World),
      ¬ Markup.HasClosingTag "script" s →
      M.run' env w (Marker.substitute evaluate (fun v => do return .text (← toJson v)) place s) =
        (.ok out, w') →
      ¬ Markup.HasClosingTag "script" out := by
  refine ⟨fun w w' v t h => ?_, fun evaluate place s out w w' hs h => ?_⟩
  · obtain ⟨written, hwrite, hspelled, rfl⟩ := toJson_eq_escape h
    obtain ⟨hne, hinert, hdocument⟩ := isScriptForm_escape hspelled
    have outside : ∀ u, isMarkup u → u ∉ (written.getD "null").flatMap scriptEscape := by
      intro u hu hm
      rw [hinert u hm] at hu
      cases hu
    exact ⟨written, hwrite, hne, outside _ (by decide), outside _ (by decide),
      outside _ (by decide), outside _ (by decide), outside _ (by decide), hdocument⟩
  · exact Marker.ensures_substitute_toJson evaluate place hs w trivial out w' h

/-- A store with an array of one text that ends in a backslash, and a hole. -/
def scriptSample : World := World.blank.allocAll [.array [some (.text "</script>\\"), none] []]

/-- The array of the sample, and a script body whose only marker has it as its value. -/
theorem toJson_inert_and_faithful_sample :
    (∃ written, M.run' Env.silent scriptSample (Stringify.write jsonStyle (.object 0)) =
        (.ok written, scriptSample.allocAll [.record .object [([], .object 0)]]) ∧
      ∃ document, Json.parse? "[\"\\u003c/script\\u003e\\\\\",null]" = some document ∧
        Json.parse? (written.getD "null") = some document) ∧
    ∃ (out : Text) (w' : World), M.run' Env.silent scriptSample (Marker.substitute
        (fun _ => pure (.object 0)) (fun v => do return .text (← toJson v)) "<script>"
        "a = <%= v %>;") = (.ok out, w') ∧ ¬ Markup.HasClosingTag "script" out := by
  have hplain : ¬ Markup.HasClosingTag "script" "a = <%= v %>;" := by
    rintro ⟨before, name, blanks, after, h, -⟩
    have hmark : [unit '<', unit '/'] <:+: Text.ofString "a = <%= v %>;" :=
      ⟨before, name ++ (blanks ++ unit '>' :: after), by simp [h]⟩
    exact absurd hmark (by decide)
  have hcut : Marker.cut "a = <%= v %>;" = ⟨[("a = ", " v ")], ";", true⟩ := by
    have hnext : Marker.next "a = <%= v %>;" = .marker "a = " " v " ";" := rfl
    rw [Marker.cut_of_marker hnext, Marker.cut_of_none rfl]
  have hrun : M.run' Env.silent scriptSample (Marker.substitute (fun _ => pure (.object 0))
      (fun v => do return .text (← toJson v)) "<script>" "a = <%= v %>;") =
      (.ok (Text.ofString "a = [\"\\u003c/script\\u003e\\\\\",null];"),
        scriptSample.allocAll [.record .object [([], .object 0)]]) := by
    rw [Marker.substitute, hcut]
    rfl
  obtain ⟨written, hwrite, -, -, -, -, -, -, hdocument⟩ :=
    (toJson_inert_and_faithful Env.silent).1 scriptSample
      (scriptSample.allocAll [.record .object [([], .object 0)]]) (.object 0)
      "[\"\\u003c/script\\u003e\\\\\",null]" rfl
  exact ⟨⟨written, hwrite, hdocument⟩, _, _, hrun,
    (toJson_inert_and_faithful Env.silent).2 _ _ _ _ _ _ hplain hrun⟩

end Present

end PageTemplate
