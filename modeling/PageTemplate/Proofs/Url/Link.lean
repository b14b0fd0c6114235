import PageTemplate.Proofs.Url.RoundTrip
import PageTemplate.Url.Link

/-!
# PageTemplate.Proofs.Url.Link

A resolved link that is resolved again against the same base is kept
(`resolveLink?_idempotent`): always if the base can be read alone and has a path, and against a
relative base if the link leaves the invented site, or if its path does not start with two slashes
and the base lies in that site too. A path with two slashes at its start is read as the name of
another site.
-/

namespace PageTemplate

namespace Url

variable {t link base r : Text} {u v b : Url} {ss rest : List Text}

/-! Relative bases have a path of segments. -/

theorem withTail_path (u : Url) (t : Text) : (withTail u t).path = u.path := by
  cases t with
  | nil => rfl
  | cons c rest =>
    simp only [withTail]
    split
    · rfl
    · split <;> rfl

theorem exists_path_withPath (u : Url) (ss : List Text) (t : Text) :
    ∃ segments, (withPath u ss t).path = .segments segments := ⟨_, withTail_path _ _⟩

theorem exists_path_withHostPath (u : Url) (t : Text) :
    ∃ ss, (withHostPath u t).path = .segments ss := by
  rw [withHostPath.eq_def]
  split
  · split
    · exact exists_path_withPath u [] _
    split
    · exact exists_path_withPath u [] _
    · exact ⟨[], withTail_path _ _⟩
  · split
    · exact exists_path_withPath u [] _
    · exact ⟨[], rfl⟩

theorem exists_path_afterSlashes (h : afterSlashes u t = some v) : ∃ ss, v.path = .segments ss := by
  simp only [afterSlashes, Option.bind_eq_bind, Option.bind_eq_some_iff, Option.pure_def,
    Option.some_inj] at h
  obtain ⟨w, _, rfl⟩ := h
  exact exists_path_withHostPath w _

theorem exists_path_relative (hb : b.path = .segments ss) (h : relative b t = some v) :
    ∃ ss, v.path = .segments ss := by
  simp only [relative] at h
  split at h
  · cases h
    exact ⟨ss, hb⟩
  split at h
  · split at h
    · split at h
      · split at h
        · exact exists_path_afterSlashes h
        · exact exists_path_afterSlashes h
      · cases h
        exact exists_path_withPath _ _ _
    · cases h
      exact exists_path_withPath _ _ _
  split at h
  · cases h
    exact ⟨ss, (withTail_path _ _).trans hb⟩
  split at h
  · cases h
    exact ⟨ss, (withTail_path _ _).trans hb⟩
  · cases h
    exact exists_path_withPath _ _ _

/-- A base that cannot be read alone is relative to a place in the invented site. -/
theorem exists_path_of_relative (hnone : parse? none base = none)
    (hb : parse? (some placeholder) base = some b) : ∃ ss, b.path = .segments ss := by
  have hrelative : ∀ t, relative placeholder t = some b → ∃ ss, b.path = .segments ss := fun t =>
    exists_path_relative rfl
  simp only [parse?] at hnone hb
  split at hb
  · rename_i scheme rest hscheme
    rw [hscheme] at hnone
    dsimp only at hnone
    split at hb
    · rename_i hfile
      rw [if_pos hfile] at hnone
      cases hb.symm.trans hnone
    rename_i hfile
    rw [if_neg hfile] at hnone
    split at hb
    · rename_i hspecial
      rw [if_pos hspecial] at hnone
      split at hb
      · exact hrelative _ hb
      · cases hb.symm.trans hnone
    · rename_i hplain
      rw [if_neg hplain] at hnone
      cases hb.symm.trans hnone
  · exact hrelative _ hb

theorem wellFormed_placeholder : WellFormed placeholder := by
  have hread : parse? none "http://relative.invalid/" = some placeholder := by decide +kernel
  exact wellFormed_parse? (by simp) hread

theorem wellFormed_link (hb : WellFormed b) (hne : b.path ≠ .whole [])
    (hu : parse? (some b) link = some u) : WellFormed u := by
  refine wellFormed_parse? ?_ hu
  rintro _ ⟨⟩
  exact ⟨hb, hne⟩

/-- A relative base and what is resolved against it are well formed. -/
theorem wellFormed_relativeLink (hnone : parse? none base = none)
    (hb : parse? (some placeholder) base = some b) (hu : parse? (some b) link = some u) :
    WellFormed b ∧ WellFormed u := by
  obtain ⟨ss, hss⟩ := exists_path_of_relative hnone hb
  have hwell := wellFormed_link wellFormed_placeholder nofun hb
  exact ⟨hwell, wellFormed_link hwell (by simp [hss]) hu⟩

/-! Bases that can be read alone. -/

/-- A link against a base that can be read alone is resolved to the text of an address, which is
read as itself. A base with an empty path is left out: a link with a fragment can give it a path
with two slashes at its start, which is read as the name of a host. -/
theorem resolveLink?_absolute (hbase : parse? none base = some b) (hne : b.path ≠ .whole [])
    (h : resolveLink? link base = some r) : resolveLink? r base = some r := by
  rw [resolveLink?.eq_def] at h ⊢
  simp only [hbase] at h ⊢
  obtain ⟨u, hu, rfl⟩ := Option.map_eq_some_iff.1 h
  have hwell : WellFormed b := wellFormed_parse? (by simp) hbase
  rw [parse?_toText (wellFormed_link hwell hne hu), Option.map_some, toText_reread]

/-! Relative bases. -/

/-- What becomes of a link against a relative base. -/
theorem resolveLink?_relative (hnone : parse? none base = none)
    (hb : parse? (some placeholder) base = some b) (hu : parse? (some b) link = some u) :
    resolveLink? link base =
      some (if comesFromPlaceholder u then u.pathname ++ u.search ++ u.hash else u.toText) := by
  simp only [resolveLink?, hnone, hb, hu, Option.bind_eq_bind, Option.bind_some, Option.pure_def]
  split <;> rfl

theorem comesFromPlaceholder_reread (u : Url) :
    comesFromPlaceholder (reread u) = comesFromPlaceholder u := by
  rw [reread]
  split
  · rename_i h
    simp [comesFromPlaceholder, isInPlaceholder, pathname, h.2]
  · rfl

/-- A link that leaves the invented site is resolved to the text of an address. -/
theorem resolveLink?_leaving (hnone : parse? none base = none)
    (hb : parse? (some placeholder) base = some b) (hu : parse? (some b) link = some u)
    (hleaves : comesFromPlaceholder u = false) :
    resolveLink? u.toText base = some u.toText := by
  have hwell := (wellFormed_relativeLink hnone hb hu).2
  rw [resolveLink?_relative hnone hb (parse?_toText hwell (some b)), comesFromPlaceholder_reread,
    hleaves, if_neg (by decide), toText_reread]

/-- A query or fragment that shows: an empty one does not. -/
def shown : Option Text → Option Text
  | some [] => none
  | part => part

theorem marked_eq (mark : Char) (part : Option Text) :
    marked mark part = (shown part).elim [] fun t => unit mark :: t := by
  match part with
  | none => rfl
  | some [] => rfl
  | some (c :: t) => rfl

theorem marked_shown (mark : Char) (part : Option Text) :
    marked mark (shown part) = marked mark part := by
  match part with
  | none => rfl
  | some [] => rfl
  | some (c :: t) => rfl

theorem shown_subset {part : Option Text} : ∀ t ∈ shown part, t ∈ part := by
  match part with
  | none => exact fun _ h => h
  | some [] => exact nofun
  | some (c :: t) => exact fun _ h => h

/-- What is left of an address inside the invented site. -/
def localText (u : Url) : Text := u.pathname ++ u.search ++ u.hash

theorem pathname_eq (hpath : u.path = .segments ss) (hne : ss ≠ []) :
    pathname u = unit '/' :: joined ss := by
  rw [pathname, hpath]
  exact flatMap_slash hne

theorem localText_eq (hpath : u.path = .segments ss) (hne : ss ≠ []) :
    localText u = unit '/' :: (joined ss ++ tailText (shown u.query) (shown u.fragment)) := by
  rw [localText, search, hash, marked_eq, marked_eq, tailText, List.append_assoc,
    pathname_eq hpath hne, List.cons_append]

theorem tailed_shown {scheme : Text} {query fragment : Option Text}
    (h : Tailed scheme query fragment) : Tailed scheme (shown query) (shown fragment) :=
  ⟨fun q hq => h.queryPlain q (shown_subset q hq),
    fun f hf => h.fragmentPlain f (shown_subset f hf)⟩

theorem clean_localText (h : WellFormed u) (hpath : u.path = .segments ss) (hne : ss ≠ []) :
    clean (localText u) = localText u := by
  have hshown : WellFormed { u with query := shown u.query, fragment := shown u.fragment } := by
    refine ⟨⟨h.scheme, h.placed, tailed_shown h.tailed⟩, ?_⟩
    have hfits := h.path.segments hpath
    unfold PathFits
    rw [hpath]
    exact hfits
  have htext : localText u = [] ++ (pathname u ++ tailText (shown u.query) (shown u.fragment)) := by
    rw [localText_eq hpath hne, pathname_eq hpath hne]
    rfl
  rw [htext]
  refine clean_text hshown nofun fun c hc => ?_
  have hc : c ∈ (pathname u).head? := hc
  rw [pathname_eq hpath hne] at hc
  cases hc
  decide

/-- A path behind one slash replaces the path of the base. -/
theorem relative_slash (h : ∀ d ∈ t.head?, isSlash (isSpecialScheme b.scheme) d = false) :
    relative b (unit '/' :: t) =
      some (withPath { b with query := none, fragment := none } [] t) := by
  cases t with
  | nil => simp [relative, isSlash]
  | cons d more =>
    have hd := h d rfl
    have hslash : isSlash (isSpecialScheme b.scheme) (unit '/') = true := by simp [isSlash]
    simp only [relative, hslash, if_true, hd]
    rfl

/-- **A link inside the invented site is read as itself** unless its path starts with two
slashes. -/
theorem parse?_localText (hb : b.path = .segments rest) (hscheme : b.scheme = u.scheme)
    (hu : WellFormed u) (hspecial : isSpecialScheme u.scheme) (hfile : u.scheme ≠ fileScheme)
    (hpath : u.path = .segments ss) (hslashes : ¬ Text.ofString "//" <+: localText u) :
    parse? (some b) (localText u) = some { b with
      path := .segments ss, query := shown u.query, fragment := shown u.fragment } := by
  obtain ⟨hss, hne⟩ := hu.path.segments hpath
  have hne := hne hspecial
  have hclean := clean_localText hu hpath hne
  rw [localText_eq hpath hne] at hclean hslashes ⊢
  have hnone : scheme? (unit '/' :: (joined ss ++
      tailText (shown u.query) (shown u.fragment))) = none := by
    rw [Option.eq_none_iff_forall_ne_some]
    intro parts hparts
    obtain ⟨⟨first, hfirst, hletter⟩, _⟩ := scheme?_eq_some_iff.1 hparts
    cases hfirst
    exact absurd hletter (by decide)
  have hhead : ∀ d ∈ (joined ss ++ tailText (shown u.query) (shown u.fragment)).head?,
      isSlash (isSpecialScheme b.scheme) d = false := by
    intro d hd
    rw [hscheme]
    cases htext : joined ss with
    | nil =>
      rw [htext] at hd
      exact isSlash_of_endsPath _ (endsPath_head_tailText _ _ d hd)
    | cons c more =>
      rw [htext] at hd
      obtain rfl := Option.some.inj hd
      have hm : c ∈ joined ss := htext ▸ List.mem_cons_self
      rcases Text.mem_intercalate hm with rfl | ⟨s, hs, hc⟩
      · rw [htext] at hslashes
        exact absurd ⟨_, rfl⟩ hslashes
      · exact hss.uncut s hs c hc
  simp only [parse?, hclean, hnone, hb]
  rw [if_neg (by simpa [hscheme] using hfile), relative_slash hhead]
  refine congrArg some (withPath_joined (hscheme ▸ hss) hne ?_)
  exact hscheme ▸ tailed_shown hu.tailed

theorem isInPlaceholder_iff : isInPlaceholder u ↔
    u.scheme = placeholder.scheme ∧ u.host = placeholder.host ∧ u.portNumber = none := by
  simp [isInPlaceholder, and_assoc]

/-- A link that stays in the invented site, as the base does. -/
theorem resolveLink?_staying (hnone : parse? none base = none)
    (hb : parse? (some placeholder) base = some b) (hu : parse? (some b) link = some u)
    (hbase : isInPlaceholder b) (hstays : isInPlaceholder u)
    (hslashes : ¬ Text.ofString "//" <+: localText u) :
    resolveLink? (localText u) base = some (localText u) := by
  obtain ⟨_, hwell⟩ := wellFormed_relativeLink hnone hb hu
  obtain ⟨rest, hrest⟩ := exists_path_of_relative hnone hb
  have hplace := isInPlaceholder_iff.1 hbase
  have hscheme := (isInPlaceholder_iff.1 hstays).1
  have hspecial : isSpecialScheme u.scheme := hscheme ▸ (by decide)
  have hfile : u.scheme ≠ fileScheme := hscheme ▸ (by decide)
  obtain ⟨ss, hpath, _, hne⟩ := exists_segments hwell.path hspecial
  have hread := parse?_localText hrest (hplace.1.trans hscheme.symm) hwell hspecial hfile hpath
    hslashes
  have hcomes : comesFromPlaceholder { b with
      path := .segments ss, query := shown u.query, fragment := shown u.fragment } := by
    rw [comesFromPlaceholder, Bool.or_eq_true]
    exact .inl (isInPlaceholder_iff.2 hplace)
  rw [resolveLink?_relative hnone hb hread, if_pos hcomes]
  -- The site and what is around the path are the base's, and none of it is written.
  simp only [localText, pathname, search, hash, hpath, marked_shown]

/-- **A resolved link is kept when it is resolved again**, against every base with a path, unless a
link inside the invented site is read as the name of a site, or the base is in another site. -/
theorem resolveLink?_idempotent (h : resolveLink? link base = some r)
    (habsolute : ∀ b, parse? none base = some b → b.path ≠ .whole [])
    (hrelative : ∀ b u, parse? none base = none → parse? (some placeholder) base = some b →
      parse? (some b) link = some u → comesFromPlaceholder u →
      isInPlaceholder b ∧ isInPlaceholder u ∧ ¬ Text.ofString "//" <+: r) :
    resolveLink? r base = some r := by
  cases hbase : parse? none base with
  | some b => exact resolveLink?_absolute hbase (habsolute b hbase) h
  | none =>
    cases hb : parse? (some placeholder) base with
    | none => simp [resolveLink?, hbase, hb] at h
    | some b =>
      cases hu : parse? (some b) link with
      | none => simp [resolveLink?, hbase, hb, hu] at h
      | some u =>
        rw [resolveLink?_relative hbase hb hu] at h
        cases hcomes : comesFromPlaceholder u with
        | false =>
          rw [hcomes, if_neg (by decide)] at h
          obtain rfl := Option.some.inj h
          exact resolveLink?_leaving hbase hb hu hcomes
        | true =>
          rw [hcomes, if_pos rfl] at h
          obtain rfl := Option.some.inj h
          obtain ⟨hplace, hstays, hslashes⟩ := hrelative b u hbase hb hu hcomes
          exact resolveLink?_staying hbase hb hu hplace hstays hslashes

/-- A link whose path starts with two slashes is resolved to the name of another site. -/
example : resolveLink? "/.//evil.test/x" "/docs/" = some (Text.ofString "//evil.test/x") ∧
    resolveLink? "//evil.test/x" "/docs/" = some (Text.ofString "http://evil.test/x") := by
  decide +kernel

end Url

end PageTemplate
