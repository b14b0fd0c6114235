import PageTemplate.Proofs.Markup.Reading
import PageTemplate.Proofs.Template.ScriptBody

/-!
# PageTemplate.Proofs.Template.Substitution

Markers are replaced in one pass. There is one way to cut a text at its markers, from left to
right; the expressions are evaluated in this order, each once, and their encoded values stand
between the pieces of the text as they are, whatever is in them. A marker that does not end is
noticed when everything before it is done.
-/

namespace PageTemplate

namespace Marker

/-- A text put together again from its markers, each with the text before it, and its tail. -/
def whole (markers : List (Text × Text)) (tail : Text) : Text :=
  markers.flatMap (fun m => m.1 ++ opening ++ (m.2 ++ closing)) ++ tail

/-- A text cut at its markers: each of them begins at the first `<%=` behind the one before it and
ends at the first `%>` behind that, and none is left in the tail, where a `<%=` may stand that is
never closed. -/
structure IsCut (t : Text) (markers : List (Text × Text)) (tail : Text) : Prop where
  whole : t = whole markers tail
  before : ∀ m ∈ markers, ¬ opening <:+: m.1
  code : ∀ m ∈ markers, ¬ closing <:+: m.2
  rest : ∀ before after, tail = before ++ opening ++ after → ¬ closing <:+: after

/-- The codes are evaluated one after the other, each from the store that the one before it left.
`written` are the texts that their values are encoded as. -/
inductive Answers (env : Env) (evaluate : Text → M Value) (encode : Value → M Value) :
    World → List Text → List Text → World → Prop where
  | none (w : World) : Answers env evaluate encode w [] [] w
  | next {w w₁ w₂ w₃ : World} {code s : Text} {v : Value} {codes written : List Text}
    (value : M.run' env w (evaluate code) = (.ok v, w₁))
    (text : M.run' env w₁ (encode v >>= Convert.toSuffix) = (.ok s, w₂))
    (later : Answers env evaluate encode w₂ codes written w₃) :
    Answers env evaluate encode w (code :: codes) (s :: written) w₃

/-- One of the codes fails, or its value has no text. The ones before it are evaluated, the ones
behind it are not. -/
inductive Stops (env : Env) (evaluate : Text → M Value) (encode : Value → M Value) :
    World → List Text → Fault → World → Prop where
  | value {w w₁ : World} {code : Text} {codes : List Text} {f : Fault}
    (failed : M.run' env w (evaluate code) = (.error f, w₁)) :
    Stops env evaluate encode w (code :: codes) f w₁
  | text {w w₁ w₂ : World} {code : Text} {v : Value} {codes : List Text} {f : Fault}
    (value : M.run' env w (evaluate code) = (.ok v, w₁))
    (failed : M.run' env w₁ (encode v >>= Convert.toSuffix) = (.error f, w₂)) :
    Stops env evaluate encode w (code :: codes) f w₂
  | later {w w₁ w₂ w₃ : World} {code s : Text} {v : Value} {codes : List Text} {f : Fault}
    (value : M.run' env w (evaluate code) = (.ok v, w₁))
    (text : M.run' env w₁ (encode v >>= Convert.toSuffix) = (.ok s, w₂))
    (later : Stops env evaluate encode w₂ codes f w₃) :
    Stops env evaluate encode w (code :: codes) f w₃

/-- The texts between the markers, each with what is written behind it. -/
def fill (markers : List (Text × Text)) (written : List Text) (tail : Text) : Text :=
  (List.zipWith (fun m s => m.1 ++ s) markers written).flatten ++ tail

section Cutting

variable {t tail tail' before code after : Text} {markers markers' : List (Text × Text)}

theorem whole_cons (m : Text × Text) (markers : List (Text × Text)) (tail : Text) :
    Marker.whole (m :: markers) tail =
      m.1 ++ opening ++ (m.2 ++ closing ++ Marker.whole markers tail) := by
  simp [Marker.whole]

theorem not_opening_of_next (h : next t = .none) : ¬ opening <:+: t := by
  rw [← Text.breakOn_eq_none_iff]
  rw [next] at h
  split at h
  · assumption
  · split at h <;> cases h

/-- A `<%=` that is found and not closed is the first one. -/
theorem of_next_unterminated (h : next t = .unterminated) :
    ∃ before after, t = before ++ opening ++ after ∧ ¬ opening <:+: before ∧
      ¬ closing <:+: after := by
  rw [next] at h
  split at h
  · cases h
  rename_i before after hopen
  split at h
  · rename_i hclose
    exact ⟨before, after, Text.eq_of_breakOn hopen, Text.not_infix_of_breakOn (by decide) hopen,
      Text.breakOn_eq_none_iff.1 hclose⟩
  · cases h

/-- A marker that is found begins at the first `<%=` and ends at the first `%>`. -/
theorem first_of_next (h : next t = .marker before code after) :
    ¬ opening <:+: before ∧ ¬ closing <:+: code := by
  rw [next] at h
  split at h
  · cases h
  rename_i b rest hopen
  split at h
  · cases h
  rename_i c a hclose
  cases h
  exact ⟨Text.not_infix_of_breakOn (by decide) hopen, Text.not_infix_of_breakOn (by decide) hclose⟩

/-- The first `<%=` and the first `%>` behind it are found. -/
theorem next_whole (hb : ¬ opening <:+: before) (hc : ¬ closing <:+: code) (after : Text) :
    next (before ++ opening ++ (code ++ closing ++ after)) = .marker before code after := by
  have hopen : Text.breakOn opening (before ++ opening ++ (code ++ closing ++ after)) =
      some (before, code ++ closing ++ after) :=
    Text.breakOn_append (q := "<%") (z := unit '=') (by decide) hb
  have hclose : Text.breakOn closing (code ++ closing ++ after) = some (code, after) :=
    Text.breakOn_append (q := "%") (z := unit '>') (by decide) hc
  rw [next, hopen]
  dsimp only
  rw [hclose]

/-- The first `<%=` is found. -/
theorem breakOn_opening (hb : ¬ opening <:+: before) (after : Text) :
    Text.breakOn opening (before ++ opening ++ after) = some (before, after) :=
  Text.breakOn_append (q := "<%") (z := unit '=') (by decide) hb

/-- When the first `<%=` of a text is not closed, none is. -/
theorem not_closing_of_first {before' after' : Text} (hb : ¬ opening <:+: before)
    (hc : ¬ closing <:+: after) (h : before ++ opening ++ after = before' ++ opening ++ after') :
    ¬ closing <:+: after' := by
  have hsplit : before ++ (opening ++ after) = before' ++ (opening ++ after') := by
    simpa only [List.append_assoc] using h
  rcases List.append_eq_append_iff.1 hsplit with ⟨more, -, hafter⟩ | ⟨more, hbefore, -⟩
  · -- The other `<%=` is not before the first one, so less is behind it.
    have hlength : after'.length ≤ after.length := by
      have := congrArg List.length hafter
      simp only [List.length_append] at this
      omega
    have hsuffix : after' <:+ after := by
      have hlater : after' <:+ opening ++ after :=
        ⟨more ++ opening, by rw [hafter, List.append_assoc]⟩
      exact List.suffix_of_suffix_length_le hlater (List.suffix_append opening after) hlength
    exact fun hi => hc (hi.trans hsuffix.isInfix)
  · -- It stands in front of the first one, so it is the first one itself.
    have hb' : ¬ opening <:+: before' := fun hi =>
      hb (hi.trans (hbefore ▸ (List.prefix_append before' more).isInfix))
    have hsame := breakOn_opening hb after
    rw [h, breakOn_opening hb' after'] at hsame
    cases hsame
    exact hc

/-- Every text is cut at its markers by `cut`. -/
theorem isCut_cut (t : Text) : IsCut t (cut t).markers (cut t).tail := by
  induction t using cut.induct with
  | case1 t h =>
    rw [cut_of_none h]
    refine ⟨rfl, by simp, by simp, fun before after ht => ?_⟩
    exact absurd ⟨before, after, ht.symm⟩ (not_opening_of_next h)
  | case2 t h =>
    obtain ⟨first, behind, ht, hb, hc⟩ := of_next_unterminated h
    rw [cut_of_unterminated h]
    refine ⟨rfl, by simp, by simp, fun before after ht' => ?_⟩
    exact not_closing_of_first hb hc (ht.symm.trans ht')
  | case3 t before code after h ih =>
    obtain ⟨hb, hc⟩ := first_of_next h
    rw [cut_of_marker h]
    refine ⟨?_, List.forall_mem_cons.2 ⟨hb, ih.before⟩, List.forall_mem_cons.2 ⟨hc, ih.code⟩,
      ih.rest⟩
    dsimp only
    rw [whole_cons, ← ih.whole]
    exact eq_of_next h

/-- The tail of a cut text holds a `<%=` exactly when a marker of it does not end. -/
theorem terminated_iff (t : Text) : (cut t).terminated = true ↔ ¬ opening <:+: (cut t).tail := by
  induction t using cut.induct with
  | case1 t h =>
    rw [cut_of_none h]
    exact iff_of_true rfl (not_opening_of_next h)
  | case2 t h =>
    obtain ⟨before, after, ht, -, -⟩ := of_next_unterminated h
    rw [cut_of_unterminated h]
    exact iff_of_false Bool.false_ne_true fun hn => hn ⟨before, after, ht.symm⟩
  | case3 t before code after h ih =>
    rw [cut_of_marker h]
    exact ih

/-- A text is cut at its markers in one way. -/
theorem IsCut.eq_cut (h : IsCut t markers tail) :
    markers = (cut t).markers ∧ tail = (cut t).tail := by
  induction markers generalizing t with
  | nil =>
    obtain rfl : t = tail := h.whole
    cases hn : next t with
    | none =>
      rw [cut_of_none hn]
      exact ⟨rfl, rfl⟩
    | unterminated =>
      rw [cut_of_unterminated hn]
      exact ⟨rfl, rfl⟩
    | marker before code after =>
      -- A marker of the text would be one of its tail.
      exact absurd ⟨code, after, rfl⟩ (h.rest _ _ (eq_of_next hn))
  | cons m markers ih =>
    obtain ⟨hb, hbs⟩ := List.forall_mem_cons.1 h.before
    obtain ⟨hc, hcs⟩ := List.forall_mem_cons.1 h.code
    obtain ⟨hmarkers, htail⟩ := ih ⟨rfl, hbs, hcs, h.rest⟩
    have ht : t = m.1 ++ opening ++ (m.2 ++ closing ++ Marker.whole markers tail) := by
      rw [h.whole, whole_cons]
    rw [cut_of_marker (ht ▸ next_whole hb hc _)]
    exact ⟨congrArg (m :: ·) hmarkers, htail⟩

end Cutting

section Filling

variable {env : Env} {evaluate : Text → M Value} {encode : Value → M Value} {w w' : World}
  {place t tail : Text} {codes written : List Text} {markers : List (Text × Text)} {f : Fault}

/-- Either all codes are evaluated and their values encoded, or one of them is the first that
fails. -/
theorem answers_or_stops (env : Env) (evaluate : Text → M Value) (encode : Value → M Value)
    (w : World) (codes : List Text) :
    (∃ written w', Answers env evaluate encode w codes written w') ∨
      ∃ f w', Stops env evaluate encode w codes f w' := by
  induction codes generalizing w with
  | nil => exact .inl ⟨[], w, .none w⟩
  | cons code codes ih =>
    rcases hv : M.run' env w (evaluate code) with ⟨f | v, w₁⟩
    · exact .inr ⟨f, w₁, .value hv⟩
    rcases hs : M.run' env w₁ (encode v >>= Convert.toSuffix) with ⟨f | s, w₂⟩
    · exact .inr ⟨f, w₂, .text hv hs⟩
    rcases ih w₂ with ⟨written, w₃, h⟩ | ⟨f, w₃, h⟩
    · exact .inl ⟨s :: written, w₃, .next hv hs h⟩
    · exact .inr ⟨f, w₃, .later hv hs h⟩

/-- A marker, with the text before it. -/
def piece (evaluate : Text → M Value) (encode : Value → M Value) (m : Text × Text) : M Text := do
  return m.1 ++ (← Convert.toSuffix (← encode (← evaluate m.2)))

theorem piece_eq (m : Text × Text) :
    piece evaluate encode m =
      evaluate m.2 >>= fun v => (encode v >>= Convert.toSuffix) >>= fun s => pure (m.1 ++ s) := by
  simp only [piece, bind_assoc]

/-- A marker that succeeds. -/
theorem run'_piece {m : Text × Text} {v : Value} {s : Text} {w₁ : World}
    (hv : M.run' env w (evaluate m.2) = (.ok v, w₁))
    (hs : M.run' env w₁ (encode v >>= Convert.toSuffix) = (.ok s, w')) :
    M.run' env w (piece evaluate encode m) = (.ok (m.1 ++ s), w') := by
  rw [piece_eq, M.run'_bind_ok hv, M.run'_bind_ok hs]
  rfl

theorem substitute_eq (t : Text) :
    substitute evaluate encode place t = do
      let parts ← (cut t).markers.mapM (piece evaluate encode)
      if !(cut t).terminated then throw (unterminated place)
      return parts.flatten ++ (cut t).tail := rfl

theorem Answers.run'_pieces (h : Answers env evaluate encode w (markers.map (·.2)) written w') :
    M.run' env w (markers.mapM (piece evaluate encode)) =
      (.ok (List.zipWith (fun m s => m.1 ++ s) markers written), w') := by
  induction markers generalizing w written with
  | nil =>
    cases h
    rfl
  | cons m markers ih =>
    cases h with
    | next hv hs hlater =>
      rw [List.mapM_cons, M.run'_bind_ok (run'_piece hv hs), M.run'_bind_ok (ih hlater)]
      rfl

theorem Stops.run'_pieces (h : Stops env evaluate encode w (markers.map (·.2)) f w') :
    M.run' env w (markers.mapM (piece evaluate encode)) = (.error f, w') := by
  induction markers generalizing w with
  | nil => cases h
  | cons m markers ih =>
    rw [List.mapM_cons]
    cases h with
    | value hf =>
      exact M.run'_bind_error (by rw [piece_eq, M.run'_bind_error hf])
    | text hv hf =>
      exact M.run'_bind_error (by rw [piece_eq, M.run'_bind_ok hv, M.run'_bind_error hf])
    | later hv hs hlater =>
      rw [M.run'_bind_ok (run'_piece hv hs), M.run'_bind_error (ih hlater)]

variable (place)

theorem Answers.run'_substitute
    (h : Answers env evaluate encode w ((cut t).markers.map (·.2)) written w')
    (hclosed : ¬ opening <:+: (cut t).tail) :
    M.run' env w (substitute evaluate encode place t) =
      (.ok (fill (cut t).markers written (cut t).tail), w') := by
  rw [substitute_eq, M.run'_bind_ok h.run'_pieces, (terminated_iff t).2 hclosed]
  rfl

theorem Answers.run'_substitute_open
    (h : Answers env evaluate encode w ((cut t).markers.map (·.2)) written w')
    (hopen : opening <:+: (cut t).tail) :
    M.run' env w (substitute evaluate encode place t) = (.error (unterminated place), w') := by
  have hend : (cut t).terminated = false := by
    rw [← Bool.not_eq_true, terminated_iff]
    exact not_not_intro hopen
  rw [substitute_eq, M.run'_bind_ok h.run'_pieces, hend]
  rfl

theorem Stops.run'_substitute (h : Stops env evaluate encode w ((cut t).markers.map (·.2)) f w') :
    M.run' env w (substitute evaluate encode place t) = (.error f, w') := by
  rw [substitute_eq, M.run'_bind_error h.run'_pieces]

variable {place}

theorem run'_substitute_eq_ok {out : Text} :
    M.run' env w (substitute evaluate encode place t) = (.ok out, w') ↔
      ∃ written, Answers env evaluate encode w ((cut t).markers.map (·.2)) written w' ∧
        ¬ opening <:+: (cut t).tail ∧ out = fill (cut t).markers written (cut t).tail := by
  constructor
  · intro h
    rcases answers_or_stops env evaluate encode w ((cut t).markers.map (·.2)) with
      ⟨written, w'', ha⟩ | ⟨f, w'', hs⟩
    · by_cases hopen : opening <:+: (cut t).tail
      · cases h.symm.trans (ha.run'_substitute_open place hopen)
      · cases h.symm.trans (ha.run'_substitute place hopen)
        exact ⟨written, ha, hopen, rfl⟩
    · cases h.symm.trans (hs.run'_substitute place)
  · rintro ⟨written, ha, hclosed, rfl⟩
    exact ha.run'_substitute place hclosed

theorem run'_substitute_eq_error :
    M.run' env w (substitute evaluate encode place t) = (.error f, w') ↔
      Stops env evaluate encode w ((cut t).markers.map (·.2)) f w' ∨
        ∃ written, Answers env evaluate encode w ((cut t).markers.map (·.2)) written w' ∧
          opening <:+: (cut t).tail ∧ f = unterminated place := by
  constructor
  · intro h
    rcases answers_or_stops env evaluate encode w ((cut t).markers.map (·.2)) with
      ⟨written, w'', ha⟩ | ⟨f', w'', hs⟩
    · by_cases hopen : opening <:+: (cut t).tail
      · cases h.symm.trans (ha.run'_substitute_open place hopen)
        exact .inr ⟨written, ha, hopen, rfl⟩
      · cases h.symm.trans (ha.run'_substitute place hopen)
    · cases h.symm.trans (hs.run'_substitute place)
      exact .inl hs
  · rintro (hs | ⟨written, ha, hopen, rfl⟩)
    · exact hs.run'_substitute place
    · exact ha.run'_substitute_open place hopen

end Filling

/-- Markers are replaced in a single pass from left to right. A text is cut at its markers in just
one way. It is filled exactly when all of its codes are evaluated, in their order, and their values
encoded, and no `<%=` is left behind the last marker; what it is filled with is not looked at.
Otherwise the first failure is that of the text, or the `<%=` that is never closed is, after all
that stands before it. A text without `<%=` stays as it is, and nothing is evaluated. -/
theorem substitute_in_one_pass (env : Env) (t : Text) :
    ∃ markers tail,
      (IsCut t markers tail ∧
        ∀ markers' tail', IsCut t markers' tail' → markers' = markers ∧ tail' = tail) ∧
      (∀ (evaluate : Text → M Value) (encode : Value → M Value) (place : Text) (w w' : World),
        (∀ out, M.run' env w (substitute evaluate encode place t) = (.ok out, w') ↔
          ∃ written, Answers env evaluate encode w (markers.map (·.2)) written w' ∧
            ¬ opening <:+: tail ∧ out = fill markers written tail) ∧
        ∀ f, M.run' env w (substitute evaluate encode place t) = (.error f, w') ↔
          Stops env evaluate encode w (markers.map (·.2)) f w' ∨
            ∃ written, Answers env evaluate encode w (markers.map (·.2)) written w' ∧
              opening <:+: tail ∧ f = unterminated place) ∧
      (¬ opening <:+: t → ∀ (evaluate : Text → M Value) (encode : Value → M Value) (place : Text),
        substitute evaluate encode place t = pure t) := by
  refine ⟨(cut t).markers, (cut t).tail, ⟨isCut_cut t, fun _ _ h => h.eq_cut⟩,
    fun evaluate encode place w w' => ⟨fun out => run'_substitute_eq_ok,
      fun f => run'_substitute_eq_error⟩, fun hplain evaluate encode place => ?_⟩
  have hcut : ([], t) = ((cut t).markers, (cut t).tail) := by
    have hself : IsCut t [] t :=
      ⟨rfl, by simp, by simp, fun before after ht => absurd ⟨before, after, ht.symm⟩ hplain⟩
    rw [← hself.eq_cut.1, ← hself.eq_cut.2]
  obtain ⟨hmarkers, htail⟩ := Prod.mk.inj hcut
  have hend : (cut t).terminated = true := by
    rw [terminated_iff, ← htail]
    exact hplain
  rw [substitute_eq, ← hmarkers, ← htail, hend]
  rfl

/-- A value that looks like a marker is written as it is. -/
theorem substitute_in_one_pass_sample :
    M.run' Env.silent World.blank (substitute (fun _ => pure (.text "<%= y %>")) pure "text"
      "a<%=x%>b") = (.ok (Text.ofString "a<%= y %>b"), World.blank) := by
  obtain ⟨markers, tail, ⟨-, hunique⟩, hrun, -⟩ :=
    substitute_in_one_pass Env.silent "a<%=x%>b"
  have hcut : IsCut "a<%=x%>b" [("a", "x")] "b" :=
    ⟨rfl, by decide, by decide, fun before after ht =>
      absurd ⟨before, after, ht.symm⟩ (show ¬ opening <:+: Text.ofString "b" by decide)⟩
  obtain ⟨rfl, rfl⟩ := hunique _ _ hcut
  exact ((hrun _ _ _ _ _).1 _).2
    ⟨["<%= y %>"], .next rfl rfl (.none _), by decide, rfl⟩

end Marker

end PageTemplate
