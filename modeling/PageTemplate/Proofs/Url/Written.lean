import PageTemplate.Proofs.Url.WellFormed

/-!
# PageTemplate.Proofs.Url.Written

The text of a well-formed address. It falls into scheme, authority, path and what follows the path
(`toText_eq`); no part holds a control character, and none but a path in front of more ends in a
blank, so that cleaning keeps the text (`clean_toText`).
-/

namespace PageTemplate

namespace Url

variable {scheme host : Text} {query fragment : Option Text} {u : Url} {c : CodeUnit}
variable {ss : List Text}

/-! What stands before and behind the path. -/

/-- The query and the fragment as they are written. -/
def tailText (query fragment : Option Text) : Text :=
  query.elim [] (fun q => unit '?' :: q) ++ fragment.elim [] (fun f => unit '#' :: f)

theorem endsPath_head_tailText (query fragment : Option Text) :
    ∀ c ∈ (tailText query fragment).head?, endsPath c := by
  intro c hc
  cases query with
  | some q =>
    cases hc
    decide
  | none =>
    cases fragment with
    | some f =>
      cases hc
      decide
    | none => cases hc

theorem head?_tailText (query fragment : Option Text) :
    (tailText query fragment).head? ≠ some (unit '/') := fun hhead =>
  absurd (endsPath_head_tailText query fragment _ hhead) (by decide)

theorem tailText_eq_nil (h : tailText query fragment = []) : query = none ∧ fragment = none := by
  cases query with
  | some q => cases h
  | none =>
    cases fragment with
    | some f => cases h
    | none => exact ⟨rfl, rfl⟩

/-- The number behind a host as it is written. -/
def numberText (number : Option Nat) : Text := number.elim [] fun p => unit ':' :: Text.ofNat p

theorem mem_numberText {number : Option Nat} (h : c ∈ numberText number) :
    c = unit ':' ∨ CodeUnit.isDigit c := by
  cases number with
  | none => cases h
  | some p => exact (List.mem_cons.1 h).imp_right Text.isDigit_of_mem_ofNat

theorem IsHost.units (h : IsHost scheme host) (hc : c ∈ host) : isHostUnit c := by
  rcases h with ⟨hself, _⟩ | ⟨_, rfl⟩
  · exact isHostUnit_of_host? hself hc
  · cases hc

theorem IsHost.not_mem (h : IsHost scheme host) (hc : isHostUnit c = false) : c ∉ host := by
  intro hm
  rw [h.units hm] at hc
  cases hc

/-- What a unit before a path can be. -/
theorem mem_authority (h : Placed u.scheme u.user u.password (some host) u.portNumber)
    (hc : c ∈ credentials u ++ (host ++ numberText u.portNumber)) :
    escapedInUser c.toNat = false ∨ isHostUnit c ∨ CodeUnit.isDigit c ∨ c = unit ':' ∨
      c = unit '@' := by
  have hcredentials : c ∈ credentials u →
      c ∈ u.user ∨ c ∈ u.password ∨ c = unit ':' ∨ c = unit '@' := by
    intro h
    rw [credentials] at h
    split at h
    · cases h
    · split at h
      all_goals
        simp only [List.mem_append, List.mem_cons, List.not_mem_nil, or_false] at h
        tauto
  rcases List.mem_append.1 hc with hc | hc
  · rcases hcredentials hc with hc | hc | hc | hc
    · exact .inl (h.userPlain c hc)
    · exact .inl (h.passwordPlain c hc)
    · exact .inr (.inr (.inr (.inl hc)))
    · exact .inr (.inr (.inr (.inr hc)))
  · rcases List.mem_append.1 hc with hc | hc
    · exact .inr (.inl ((h.isHost host rfl).units hc))
    · rcases mem_numberText hc with hc | hc
      · exact .inr (.inr (.inr (.inl hc)))
      · exact .inr (.inr (.inl hc))

theorem authority_of_host (hhost : u.host = some host) : authority u =
    unit '/' :: unit '/' :: (credentials u ++ (host ++ numberText u.portNumber)) := by
  rw [authority, hhost]
  show Text.ofString "//" ++ credentials u ++ host ++ numberText u.portNumber = _
  rw [List.append_assoc, List.append_assoc]
  rfl

/-- The parts of an address whose path has segments. -/
theorem PathFits.segments (h : PathFits u) (hpath : u.path = .segments ss) :
    Segments u.scheme ss ∧ (isSpecialScheme u.scheme → ss ≠ []) := by
  unfold PathFits at h
  rwa [hpath] at h

theorem toText_eq (u : Url) : toText u =
    (u.scheme ++ unit ':' :: authority u) ++ (pathname u ++ tailText u.query u.fragment) := by
  simp [toText, tailText]

/-- What is written behind the scheme of an address with a host. -/
theorem rest_of_host (hhost : u.host = some host) (hpath : u.path = .segments ss) :
    authority u ++ (pathname u ++ tailText u.query u.fragment) =
      unit '/' :: unit '/' :: (credentials u ++ (host ++ numberText u.portNumber) ++
        ((ss.flatMap fun s => unit '/' :: s) ++ tailText u.query u.fragment)) := by
  rw [authority_of_host hhost, pathname, hpath]
  rfl

/-! Cleaning keeps what is written. -/

/-- A unit that is neither a control character nor a blank. -/
def isInk (c : CodeUnit) : Bool := !isControl c.toNat && c != 0x20

theorem isInk_of_plain {isEscaped : Nat → Bool} (he : Encodes isEscaped) (hblank : isEscaped 0x20)
    (h : isEscaped c.toNat = false) : isInk c := by
  have hne : c ≠ 0x20 := by
    rintro rfl
    exact absurd (hblank.symm.trans h) (by decide)
  simp [isInk, he.not_control h, hne]

theorem isInk_of_bounds (hlow : 0x20 < c.toNat) (hhigh : c.toNat < 0x7F) : isInk c := by
  have hne : c ≠ 0x20 := by
    rintro rfl
    exact absurd hlow (by decide)
  have hcontrol : isControl c.toNat = false := by
    rw [isControl, Bool.or_eq_false_iff, decide_eq_false_iff_not, decide_eq_false_iff_not]
    omega
  simp [isInk, hcontrol, hne]

theorem isInk_tailText (h : Tailed scheme query fragment) :
    ∀ c ∈ tailText query fragment, isInk c := by
  intro c hc
  rcases List.mem_append.1 hc with hc | hc
  · cases query with
    | none => cases hc
    | some q =>
      rcases List.mem_cons.1 hc with rfl | hc
      · decide
      · refine isInk_of_plain (encodes_queryOf scheme) ?_ (h.queryPlain q rfl c hc)
        rw [escapedInQueryOf]
        split <;> decide
  · cases fragment with
    | none => cases hc
    | some f =>
      rcases List.mem_cons.1 hc with rfl | hc
      · decide
      · exact isInk_of_plain encodes_fragment (by decide) (h.fragmentPlain f rfl c hc)

theorem isInk_segments (h : Segments scheme ss) :
    ∀ c ∈ ss.flatMap fun s => unit '/' :: s, isInk c := by
  intro c hc
  obtain ⟨s, hs, hc⟩ := List.mem_flatMap.1 hc
  rcases List.mem_cons.1 hc with rfl | hc
  · decide
  · exact isInk_of_plain encodes_path (by decide) (h.plain s hs c hc)

theorem isInk_authority (h : Placed u.scheme u.user u.password u.host u.portNumber) :
    ∀ c ∈ authority u, isInk c := by
  intro c hc
  cases hhost : u.host with
  | some host =>
    rw [hhost] at h
    rw [authority_of_host hhost] at hc
    rcases List.mem_cons.1 hc with rfl | hc
    · decide
    rcases List.mem_cons.1 hc with rfl | hc
    · decide
    rcases mem_authority h hc with hc | hc | hc | rfl | rfl
    · exact isInk_of_plain encodes_user (by decide) hc
    · have hblank : c ≠ 0x20 := by
        rintro rfl
        exact absurd hc (by decide)
      rw [isHostUnit, Bool.and_eq_true] at hc
      simp [isInk, hc.2, hblank]
    · have hb := CodeUnit.isDigit_iff.1 hc
      exact isInk_of_bounds (by omega) (by omega)
    · decide
    · decide
  | none =>
    rw [authority, hhost] at hc
    dsimp only at hc
    split at hc
    · exact List.all_eq_true.1 (show (Text.ofString "/.").all isInk by decide) c hc
    · cases hc

theorem isInk_scheme (h : IsScheme scheme) : ∀ c ∈ scheme, isInk c := by
  intro c hc
  have hunit := h.units c hc
  simp only [isSchemeUnit, CodeUnit.isLetter, CodeUnit.isLowerLetter, CodeUnit.isUpperLetter,
    CodeUnit.isDigit, Bool.or_eq_true, Bool.and_eq_true, decide_eq_true_eq, beq_iff_eq,
    UInt16.le_iff_toNat_le, ← UInt16.toNat_inj, unit] at hunit
  refine isInk_of_bounds ?_ ?_ <;>
  · simp at hunit
    omega

theorem le_of_not_control (h : isControl c.toNat = false) : 0x20 ≤ c :=
  UInt16.le_iff_toNat_le.2 (bounds_of_not_control h).1

theorem lt_of_isInk (h : isInk c) : 0x20 < c := by
  rw [isInk, Bool.and_eq_true, Bool.not_eq_true', bne_iff_ne] at h
  exact UInt16.lt_of_le_of_ne (le_of_not_control h.1) h.2.symm

/-- A path has no control characters, and no blank at its end unless more follows. -/
theorem PathFits.pathname (h : PathFits u) :
    (∀ c ∈ pathname u, isControl c.toNat = false) ∧
      (u.query = none → u.fragment = none → (pathname u).getLast? ≠ some 0x20) := by
  unfold PathFits at h
  rw [Url.pathname]
  split at h
  · rename_i ss hpath
    have hink := isInk_segments h.1
    simp only [hpath]
    refine ⟨fun c hc => ?_, fun _ _ hlast => ?_⟩
    · have hc := hink c hc
      rw [isInk, Bool.and_eq_true, Bool.not_eq_true'] at hc
      exact hc.1
    · exact absurd (hink _ (List.mem_of_getLast? hlast)) (by decide)
  · rename_i t hpath
    simp only [hpath]
    exact ⟨fun c hc => (h.units c hc).1, h.blank⟩

/-- A path and what follows it, behind a text that has neither control characters nor blanks. -/
theorem clean_text (h : WellFormed u) {first : Text} (hfirst : ∀ c ∈ first, isInk c)
    (hhead : ∀ c ∈ (first ++ pathname u).head?, isInk c) :
    clean (first ++ (pathname u ++ tailText u.query u.fragment)) =
      first ++ (pathname u ++ tailText u.query u.fragment) := by
  obtain ⟨hpath, hblank⟩ := h.path.pathname
  have htail := isInk_tailText h.tailed
  refine clean_of_visible (fun c hc => ?_) (fun c hc => lt_of_isInk ?_) fun c hc => ?_
  · rcases List.mem_append.1 hc with hc | hc
    · exact UInt16.le_of_lt (lt_of_isInk (hfirst c hc))
    rcases List.mem_append.1 hc with hc | hc
    · exact le_of_not_control (hpath c hc)
    · exact UInt16.le_of_lt (lt_of_isInk (htail c hc))
  · rw [← List.append_assoc, List.head?_append] at hc
    cases hf : (first ++ pathname u).head? with
    | some d =>
      rw [hf] at hc
      obtain rfl := Option.some.inj hc
      exact hhead d hf
    | none =>
      rw [hf] at hc
      exact htail c (List.mem_of_head? hc)
  · rw [← List.append_assoc, List.getLast?_append] at hc
    cases htext : (tailText u.query u.fragment).getLast? with
    | some d =>
      rw [htext] at hc
      obtain rfl := Option.some.inj hc
      exact lt_of_isInk (htail d (List.mem_of_getLast? htext))
    | none =>
      obtain ⟨hquery, hfragment⟩ := tailText_eq_nil (List.getLast?_eq_none_iff.1 htext)
      rw [htext, Option.none_or, List.getLast?_append] at hc
      cases hlast : (pathname u).getLast? with
      | some d =>
        rw [hlast] at hc
        obtain rfl := Option.some.inj hc
        refine UInt16.lt_of_le_of_ne (le_of_not_control (hpath d (List.mem_of_getLast? hlast))) ?_
        rintro rfl
        exact hblank hquery hfragment hlast
      | none =>
        rw [hlast, Option.none_or] at hc
        exact lt_of_isInk (hfirst c (List.mem_of_getLast? hc))

theorem clean_toText (h : WellFormed u) : clean (toText u) = toText u := by
  rw [toText_eq]
  refine clean_text h (fun c hc => ?_) fun c hc => isInk_scheme h.scheme c ?_
  · rcases List.mem_append.1 hc with hc | hc
    · exact isInk_scheme h.scheme c hc
    rcases List.mem_cons.1 hc with rfl | hc
    · decide
    · exact isInk_authority h.placed c hc
  · obtain ⟨first, more, he, _⟩ := h.scheme.letter
    rw [he] at hc ⊢
    cases hc
    exact List.mem_cons_self

end Url

end PageTemplate
