import PageTemplate.Proofs.Url.Written

/-!
# PageTemplate.Proofs.Url.RoundTrip

A well-formed address that is written is read as itself (`parse?_toText`), relative to any address
or to none. Only an address that has neither a host nor a segment is read as one whose empty path is
not looked into; it is written in the same way.
-/

namespace PageTemplate

namespace Url

variable {scheme user password host t rest : Text} {query fragment : Option Text} {u v : Url}
variable {c : CodeUnit} {ss : List Text}

/-! The path and what follows it. -/

theorem withTail_tailText (h : Tailed u.scheme query fragment) :
    withTail { u with query := none, fragment := none } (tailText query fragment) =
      { u with query := query, fragment := fragment } := by
  cases query with
  | none =>
    cases fragment with
    | none => rfl
    | some f =>
      have hf := escape_of_plain encodes_fragment (h.fragmentPlain f rfl)
      show withTail _ (unit '#' :: f) = _
      rw [withTail, if_pos (by decide), hf]
  | some q =>
    have hplain := h.queryPlain q rfl
    have hq := escape_of_plain (encodes_queryOf u.scheme) hplain
    have hhash : ∀ c ∈ q, (c != unit '#') = true := by
      intro c hc
      rw [bne_iff_ne]
      rintro rfl
      refine hplain.not_mem ?_ hc
      rw [escapedInQueryOf]
      split <;> decide
    have hrest : ∀ c ∈ (fragment.elim [] fun f => unit '#' :: f).head?,
        (c != unit '#') = false := by
      cases fragment with
      | none =>
        intro c hc
        cases hc
      | some f =>
        intro c hc
        cases hc
        decide
    show withTail _ (unit '?' :: (q ++ fragment.elim [] fun f => unit '#' :: f)) = _
    simp only [withTail]
    rw [if_neg (by decide), Text.takeWhile_append hhash hrest, Text.dropWhile_append hhash hrest,
      ← escapedInQueryOf, hq]
    cases fragment with
    | none => rfl
    | some f =>
      have hf := escape_of_plain encodes_fragment (h.fragmentPlain f rfl)
      show Url.mk _ _ _ _ _ _ (some q) (some (escape escapedInFragment f)) = _
      rw [hf]

theorem pathUnits_joined (h : ∀ s ∈ ss, Plain escapedInPath s) :
    ∀ c ∈ joined ss, (!endsPath c) = true := by
  intro c hc
  rcases Text.mem_intercalate hc with rfl | ⟨s, hs, hc⟩
  · decide
  · simp [endsPath_of_plain (h s hs c hc)]

/-- The text of a path is not changed by encoding it again. -/
theorem plain_joined (h : ∀ s ∈ ss, Plain escapedInPath s) : Plain escapedInPath (joined ss) := by
  intro c hc
  rcases Text.mem_intercalate hc with rfl | ⟨s, hs, hc⟩
  · decide
  · exact h s hs c hc

/-- Pieces that hold nothing to be encoded and no slash are added as they are. -/
theorem withPath_pieces {ps : List Text} (hne : ps ≠ []) (hplain : ∀ p ∈ ps, Plain escapedInPath p)
    (huncut : ∀ p ∈ ps, ∀ c ∈ p, isSlash (isSpecialScheme u.scheme) c = false)
    (ht : Tailed u.scheme query fragment) :
    withPath { u with query := none, fragment := none } [] (joined ps ++ tailText query fragment) =
      { u with
        path := .segments (addPieces u.scheme [] ps), query := query, fragment := fragment } := by
  have hpath := pathUnits_joined hplain
  have htail : ∀ c ∈ (tailText query fragment).head?, (!endsPath c) = false := fun c hc => by
    simp [endsPath_head_tailText query fragment c hc]
  simp only [withPath]
  rw [Text.takeWhile_append hpath htail, Text.dropWhile_append hpath htail,
    escape_of_plain encodes_path (plain_joined hplain), pieces_joined hne huncut]
  exact withTail_tailText (u := { u with path := .segments (addPieces u.scheme [] ps) }) ht

theorem withPath_joined (h : Segments u.scheme ss) (hne : ss ≠ [])
    (ht : Tailed u.scheme query fragment) :
    withPath { u with query := none, fragment := none } [] (joined ss ++ tailText query fragment) =
      { u with path := .segments ss, query := query, fragment := fragment } := by
  rw [withPath_pieces hne h.plain h.uncut ht,
    addPieces_of_segments (show Segments u.scheme ([] ++ ss) from h)]
  rfl

theorem isSlash_of_endsPath (special : Bool) (h : endsPath c) : isSlash special c = false := by
  rw [endsPath, Bool.or_eq_true, beq_iff_eq, beq_iff_eq] at h
  rcases h with rfl | rfl <;> cases special <;> decide

theorem withHostPath_pathname (h : Segments u.scheme ss) (hne : isSpecialScheme u.scheme → ss ≠ [])
    (ht : Tailed u.scheme query fragment) :
    withHostPath { u with query := none, fragment := none }
        ((ss.flatMap fun s => unit '/' :: s) ++ tailText query fragment) =
      { u with path := .segments ss, query := query, fragment := fragment } := by
  cases ss with
  | cons s ss =>
    rw [flatMap_slash (List.cons_ne_nil _ _), List.cons_append, withHostPath,
      if_pos (by simp [isSlash])]
    exact withPath_joined h (List.cons_ne_nil _ _) ht
  | nil =>
    have hplain : ¬ isSpecialScheme u.scheme := fun hs => hne hs rfl
    have htail := withTail_tailText (u := { u with path := .segments [] }) ht
    have hhead := endsPath_head_tailText query fragment
    rw [List.flatMap_nil, List.nil_append, withHostPath.eq_def]
    generalize tailText query fragment = tail at htail hhead
    cases tail with
    | nil =>
      rw [← htail]
      simp [hplain, withTail]
    | cons c rest =>
      rw [← htail]
      simp only [isSlash_of_endsPath _ (hhead c rfl), hplain]
      rfl

/-! What stands before the path. -/

/-- Who is meant by the text before a host. -/
theorem breakAtLast_credentials (huser : Plain escapedInUser u.user) (ht : unit '@' ∉ t) :
    ∃ login, breakAtLast (unit '@') (credentials u ++ t) = (login, t) ∧
      login.elim (([] : Text), ([] : Text)) halves = (u.user, u.password) ∧
      (login = none ↔ u.user = [] ∧ u.password = []) := by
  have hcolon : unit ':' ∉ u.user := huser.not_mem (by decide)
  rw [credentials]
  split
  · rename_i hnone
    rw [Bool.and_eq_true, List.isEmpty_iff, List.isEmpty_iff] at hnone
    refine ⟨none, breakAtLast_of_not_mem ht, ?_, fun _ => hnone, fun _ => rfl⟩
    rw [hnone.1, hnone.2]
    rfl
  · rename_i hsome
    rw [Bool.and_eq_true, List.isEmpty_iff, List.isEmpty_iff] at hsome
    refine ⟨some (u.user ++ if u.password.isEmpty then [] else unit ':' :: u.password), ?_, ?_,
      fun hlogin => absurd hlogin (Option.some_ne_none _), fun hnone => absurd hnone hsome⟩
    · rw [List.append_assoc, List.singleton_append, breakAtLast_append ht]
    · show halves _ = _
      split
      · rename_i hpassword
        rw [List.append_nil, halves_of_not_mem hcolon, List.isEmpty_iff.1 hpassword]
      · rw [halves_append hcolon]

theorem halves_host {number : Option Nat} (h : unit ':' ∉ host) :
    halves (host ++ numberText number) = (host, number.elim [] Text.ofNat) := by
  cases number with
  | none => exact (congrArg halves (List.append_nil host)).trans (halves_of_not_mem h)
  | some p => exact halves_append h _

/-- **What stands before a path is read as itself.** -/
theorem withAuthority_text (hfile : u.scheme ≠ fileScheme)
    (h : Placed u.scheme u.user u.password (some host) u.portNumber) :
    withAuthority (blank u.scheme) (credentials u ++ (host ++ numberText u.portNumber)) =
      some ⟨u.scheme, u.user, u.password, some host, u.portNumber, .segments [], none, none⟩ := by
  have hhost := h.isHost host rfl
  have hself : host? (isSpecialScheme u.scheme) host = some host := by
    rcases hhost with ⟨hself, _⟩ | ⟨hf, _⟩
    · exact hself
    · exact absurd hf hfile
  have hat : unit '@' ∉ host ++ numberText u.portNumber := by
    intro hm
    rcases List.mem_append.1 hm with hm | hm
    · exact hhost.not_mem (by decide) hm
    · exact absurd (mem_numberText hm) (by decide)
  obtain ⟨login, hparts, hlogin, hnone⟩ := breakAtLast_credentials h.userPlain hat
  rw [withAuthority_eq_some_iff hparts, hlogin, halves_host (hhost.not_mem (by decide))]
  refine ⟨fun hnil => ?_, host, u.portNumber, hself, ?_, ?_⟩
  · obtain rfl : host = [] := hnil
    obtain ⟨huser, hpassword, hnumber⟩ := h.alone (.inl rfl)
    rw [hnumber]
    exact ⟨(host?_eq_nil hself).1, List.not_mem_nil, hnone.2 ⟨huser, hpassword⟩⟩
  · cases hnumber : u.portNumber with
    | none => rfl
    | some p =>
      obtain ⟨hp, hdefault⟩ := h.numberFits p hnumber
      exact portNumber?_self hp hdefault
  · rw [escape_of_plain encodes_user h.userPlain, escape_of_plain encodes_user h.passwordPlain]
    rfl

/-- No unit before a path starts one, or what follows it. -/
theorem inside_of_mem (special : Bool)
    (h : Placed u.scheme u.user u.password (some host) u.portNumber)
    (hc : c ∈ credentials u ++ (host ++ numberText u.portNumber)) :
    (!isSlash special c && !endsPath c) = true := by
  have hne : c ≠ unit '/' ∧ c ≠ unit '\\' ∧ c ≠ unit '?' ∧ c ≠ unit '#' := by
    refine ⟨?_, ?_, ?_, ?_⟩ <;>
    · rintro rfl
      rcases mem_authority h hc with hc | hc | hc | hc | hc <;> exact absurd hc (by decide)
  simp [isSlash, endsPath, hne]

/-- What follows a host starts with a slash or ends the path. -/
theorem outside_head (special : Bool) (ss : List Text) (query fragment : Option Text) :
    ∀ c ∈ ((ss.flatMap fun s => unit '/' :: s) ++ tailText query fragment).head?,
      (!isSlash special c && !endsPath c) = false := by
  intro c hc
  cases ss with
  | nil => simp [endsPath_head_tailText query fragment c hc]
  | cons s ss =>
    cases hc
    simp [isSlash]

/-- **An address with a host is read as itself.** -/
theorem afterSlashes_text (h : WellFormed u) (hfile : u.scheme ≠ fileScheme)
    (hhost : u.host = some host) (hpath : u.path = .segments ss) :
    afterSlashes (blank u.scheme) (credentials u ++ (host ++ numberText u.portNumber) ++
      ((ss.flatMap fun s => unit '/' :: s) ++ tailText u.query u.fragment)) = some u := by
  have hp := h.placed
  rw [hhost] at hp
  obtain ⟨hss, hne⟩ := h.path.segments hpath
  have hinside := fun c => inside_of_mem (isSpecialScheme u.scheme) (c := c) hp
  have houtside := outside_head (isSpecialScheme u.scheme) ss u.query u.fragment
  simp only [afterSlashes, show (blank u.scheme).scheme = u.scheme from rfl]
  rw [Text.takeWhile_append hinside houtside, Text.dropWhile_append hinside houtside,
    withAuthority_text hfile hp]
  have hread := withHostPath_pathname (u := ⟨u.scheme, u.user, u.password, some host, u.portNumber,
    .segments [], none, none⟩) hss hne h.tailed
  refine (congrArg some hread).trans ?_
  rw [← hhost, ← hpath]

/-- An address of a special scheme is read as itself, however many slashes stand before it. -/
theorem afterAnySlashes_text (h : WellFormed u) (hfile : u.scheme ≠ fileScheme)
    (hspecial : isSpecialScheme u.scheme) (hhost : u.host = some host)
    (hpath : u.path = .segments ss) :
    afterAnySlashes (blank u.scheme) (unit '/' :: unit '/' ::
      (credentials u ++ (host ++ numberText u.portNumber) ++
        ((ss.flatMap fun s => unit '/' :: s) ++ tailText u.query u.fragment))) = some u := by
  have hp := h.placed
  rw [hhost] at hp
  have hne : credentials u ++ (host ++ numberText u.portNumber) ≠ [] := by
    intro hnil
    have hempty : host = [] := (List.append_eq_nil_iff.1 (List.append_eq_nil_iff.1 hnil).2).1
    rcases hp.isHost host rfl with ⟨hself, _⟩ | ⟨hf, _⟩
    · rw [hempty, hspecial] at hself
      cases (host?_eq_nil hself).1
    · exact hfile hf
  have hread := afterSlashes_text h hfile hhost hpath
  have hinside := fun c => inside_of_mem true (c := c) hp
  generalize credentials u ++ (host ++ numberText u.portNumber) = text at hread hne hinside ⊢
  cases text with
  | nil => exact absurd rfl hne
  | cons c more =>
    have hc := hinside c List.mem_cons_self
    rw [Bool.and_eq_true, Bool.not_eq_true'] at hc
    rw [afterAnySlashes, List.dropWhile_cons_of_pos (by decide),
      List.dropWhile_cons_of_pos (by decide), List.cons_append,
      List.dropWhile_cons_of_neg (by simp [hc.1])]
    exact hread

theorem not_isDrive_host (h : IsHost scheme host) : ¬ isDrive host := by
  intro hdrive
  obtain ⟨letter, mark, rfl, _, rfl | rfl⟩ := isDrive_iff.1 hdrive
  · exact h.not_mem (c := unit ':') (by decide) (by simp)
  · exact h.not_mem (c := unit '|') (by decide) (by simp)

/-- The address of a file is read as itself. -/
theorem file_text (h : WellFormed u) (hfile : u.scheme = fileScheme) (hhost : u.host = some host)
    (hpath : u.path = .segments ss) (base : Option Url) :
    file base (unit '/' :: unit '/' :: (credentials u ++ (host ++ numberText u.portNumber) ++
        ((ss.flatMap fun s => unit '/' :: s) ++ tailText u.query u.fragment))) = some u := by
  have hp := h.placed
  rw [hhost] at hp
  obtain ⟨huser, hpassword, hnumber⟩ := hp.alone (.inr hfile)
  have hauthority : credentials u ++ (host ++ numberText u.portNumber) = host := by
    simp [credentials, huser, hpassword, hnumber, numberText]
  have hinside := fun c => inside_of_mem true (c := c) hp
  have houtside := outside_head true ss u.query u.fragment
  have hu : u = ⟨fileScheme, [], [], some host, none, .segments ss, u.query, u.fragment⟩ := by
    cases u
    simp_all
  have hread : ∀ host, withHostPath { blank fileScheme with host := some host }
      ((ss.flatMap fun s => unit '/' :: s) ++ tailText u.query u.fragment) =
        ⟨fileScheme, [], [], some host, none, .segments ss, u.query, u.fragment⟩ := by
    obtain ⟨hss, hne⟩ := h.path.segments hpath
    have ht := h.tailed
    rw [hfile] at hss hne ht
    exact fun host => withHostPath_pathname
      (u := ⟨fileScheme, [], [], some host, none, .segments [], none, none⟩) hss hne ht
  rw [hauthority] at hinside ⊢
  show fileHost { blank fileScheme with host := some [] } _ = some u
  simp only [fileHost]
  rw [Text.takeWhile_append hinside houtside, Text.dropWhile_append hinside houtside,
    if_neg (not_isDrive_host (hp.isHost host rfl))]
  rcases hp.isHost host rfl with ⟨hself, hlocal⟩ | ⟨_, rfl⟩
  · rw [hfile] at hself hlocal
    have hnonempty : ¬ host.isEmpty := by
      intro hempty
      rw [List.isEmpty_iff.1 hempty] at hself
      cases (host?_eq_nil hself).1
    have hself : host? true host = some host := hself
    rw [if_neg hnonempty, hself]
    simp [hlocal rfl, hread, ← hu]
  · exact (congrArg some (hread [])).trans (congrArg some hu.symm)

/-! Addresses without a host. -/

theorem afterPlainScheme_slash (h : t.head? ≠ some (unit '/')) :
    afterPlainScheme scheme (unit '/' :: t) = some (withPath (blank scheme) [] t) := by
  cases t with
  | nil => rfl
  | cons c rest =>
    have hc : c ≠ unit '/' := fun he => h (congrArg some he)
    simp [afterPlainScheme, hc]

theorem afterPlainScheme_whole (h : t.head? ≠ some (unit '/')) :
    afterPlainScheme scheme t = some (afterPlainScheme.opaquePath (blank scheme) t) := by
  match t with
  | [] => rfl
  | [c] =>
    have hc : c ≠ unit '/' := fun he => h (congrArg some he)
    simp [afterPlainScheme, hc]
  | c :: d :: rest =>
    have hc : c ≠ unit '/' := fun he => h (congrArg some he)
    simp [afterPlainScheme, hc]

theorem opaquePath_text (h : PathUnits t) (ht : Tailed scheme query fragment) :
    afterPlainScheme.opaquePath (blank scheme) (t ++ tailText query fragment) =
      ⟨scheme, [], [], none, none, .whole t, query, fragment⟩ := by
  have hpath : ∀ c ∈ t, (!endsPath c) = true := fun c hc => by simp [(h c hc).2]
  have htail : ∀ c ∈ (tailText query fragment).head?, (!endsPath c) = false := fun c hc => by
    simp [endsPath_head_tailText query fragment c hc]
  simp only [afterPlainScheme.opaquePath]
  rw [Text.takeWhile_append hpath htail, Text.dropWhile_append hpath htail,
    escape_of_plain encodes_control fun c hc => (h c hc).1]
  exact withTail_tailText (u := ⟨scheme, [], [], none, none, .whole t, none, none⟩) ht

/-- What a written address is read as: without host and segments its path is not looked into. -/
def reread (u : Url) : Url :=
  if u.host = none ∧ u.path = .segments [] then { u with path := .whole [] } else u

theorem reread_of_host (h : u.host = some host) : reread u = u := if_neg (by simp [h])

/-- Segments behind a slash are read as themselves when no other slash follows it. -/
theorem afterPlainScheme_segments (hss : Segments scheme ss) (hne : ss ≠ [])
    (ht : Tailed scheme query fragment) (hhead : (joined ss).head? ≠ some (unit '/')) :
    afterPlainScheme scheme (unit '/' :: (joined ss ++ tailText query fragment)) =
      some ⟨scheme, [], [], none, none, .segments ss, query, fragment⟩ := by
  have hstart : (joined ss ++ tailText query fragment).head? ≠ some (unit '/') := by
    cases htext : joined ss with
    | nil => exact head?_tailText query fragment
    | cons c t =>
      rw [htext] at hhead
      exact hhead
  rw [afterPlainScheme_slash hstart]
  exact congrArg some (withPath_joined (u := blank scheme) hss hne ht)

/-- Segments of which the first is empty are read behind a point as themselves. -/
theorem afterPlainScheme_point (hss : Segments scheme ss) (hne : ss ≠ [])
    (ht : Tailed scheme query fragment) :
    afterPlainScheme scheme
        (unit '/' :: unit '.' :: unit '/' :: (joined ss ++ tailText query fragment)) =
      some ⟨scheme, [], [], none, none, .segments ss, query, fragment⟩ := by
  have hjoined : unit '.' :: unit '/' :: joined ss = joined ([unit '.'] :: ss) := by
    cases ss with
    | nil => exact absurd rfl hne
    | cons s ss => exact (joined_cons_cons [unit '.'] s ss).symm
  have hadd : addPieces scheme [] ([unit '.'] :: ss) = ss := by
    cases ss with
    | nil => exact absurd rfl hne
    | cons s ss =>
      have hpoint : addSegment scheme [] [unit '.'] false = [] := by
        have hdouble : ¬ isDoublePoint [unit '.'] := by
          rw [isDoublePoint, plainPoints_of_not_mem (by decide)]
          decide
        rw [addSegment, if_neg hdouble,
          if_pos (show isSinglePoint [unit '.'] from isSinglePoint_point), if_neg (by decide)]
      rw [addPieces, hpoint, addPieces_of_segments (show Segments scheme ([] ++ s :: ss) from hss)]
      · rfl
      · exact List.cons_ne_nil _ _
  have hread := withPath_pieces (u := blank scheme) (List.cons_ne_nil [unit '.'] ss)
    (fun p hp => ?_) (fun p hp => ?_) ht
  · rw [← hjoined] at hread
    have hhead : (unit '.' :: unit '/' :: (joined ss ++ tailText query fragment)).head? ≠
        some (unit '/') := show some (unit '.') ≠ some (unit '/') by decide
    rw [afterPlainScheme_slash hhead]
    refine congrArg some (hread.trans ?_)
    rw [show (blank scheme).scheme = scheme from rfl, hadd]
    rfl
  · rcases List.mem_cons.1 hp with rfl | hp
    · rintro c hc
      rw [List.mem_singleton.1 hc]
      decide
    · exact hss.plain p hp
  · rcases List.mem_cons.1 hp with rfl | hp
    · rintro c hc
      rw [List.mem_singleton.1 hc]
      cases isSpecialScheme (blank scheme).scheme <;> decide
    · exact hss.uncut p hp

/-- **An address without a host is read as itself.** -/
theorem afterPlainScheme_hostless (h : WellFormed u) (hplain : isSpecialScheme u.scheme = false)
    (hhost : u.host = none) : afterPlainScheme u.scheme
      (authority u ++ (pathname u ++ tailText u.query u.fragment)) = some (reread u) := by
  have hp := h.placed
  obtain ⟨huser, hpassword, hnumber⟩ := hp.alone (by simp [hhost])
  obtain ⟨scheme, user, password, host, number, path, query, fragment⟩ := u
  obtain rfl : user = [] := huser
  obtain rfl : password = [] := hpassword
  obtain rfl : host = none := hhost
  obtain rfl : number = none := hnumber
  have ht : Tailed scheme query fragment := h.tailed
  cases path with
  | whole t =>
    have hwhole : IsWhole scheme none query fragment t := h.path
    have hstart : (t ++ tailText query fragment).head? ≠ some (unit '/') := by
      cases t with
      | nil => exact head?_tailText query fragment
      | cons c t => exact hwhole.slash
    show afterPlainScheme scheme (t ++ tailText query fragment) = _
    rw [afterPlainScheme_whole hstart, opaquePath_text hwhole.units ht, reread, if_neg (by simp)]
  | segments ss =>
    obtain ⟨hss, _⟩ := h.path.segments rfl
    match ss with
    | [] =>
      rw [reread, if_pos ⟨rfl, rfl⟩]
      show afterPlainScheme scheme (tailText query fragment) = _
      rw [afterPlainScheme_whole (head?_tailText query fragment)]
      exact congrArg some (opaquePath_text (t := []) nofun ht)
    | [] :: s :: ss =>
      rw [reread, if_neg (by simp)]
      have hread := afterPlainScheme_point hss (List.cons_ne_nil _ _) ht
      rw [← List.cons_append, ← flatMap_slash (List.cons_ne_nil _ _)] at hread
      exact hread
    | [s] =>
      have hauthority :
          authority ⟨scheme, [], [], none, none, .segments [s], query, fragment⟩ = [] := by
        cases s <;> rfl
      have hhead : s.head? ≠ some (unit '/') := fun hhead =>
        absurd (hss.uncut s List.mem_cons_self _ (List.mem_of_head? hhead)) (by simp [isSlash])
      have hread := afterPlainScheme_segments hss (List.cons_ne_nil _ _) ht
        (by rwa [joined_singleton])
      rw [← List.cons_append, ← flatMap_slash (List.cons_ne_nil _ _)] at hread
      rw [reread, if_neg (by simp), hauthority]
      exact hread
    | (c :: s) :: s' :: ss =>
      have hc : c ≠ unit '/' := by
        rintro rfl
        exact absurd (hss.uncut _ List.mem_cons_self _ List.mem_cons_self) (by simp [isSlash])
      have hread := afterPlainScheme_segments hss (List.cons_ne_nil _ _) ht
        (by simpa [joined_cons_cons] using hc)
      rw [← List.cons_append, ← flatMap_slash (List.cons_ne_nil _ _)] at hread
      rw [reread, if_neg (by simp)]
      exact hread

/-! Whole addresses. -/

/-- Whoever writes what was read again writes the same. -/
theorem toText_reread (u : Url) : toText (reread u) = toText u := by
  rw [reread]
  split
  · rename_i h
    simp [toText, authority, pathname, h.1, h.2]
  · rfl

/-- **A written address is read as itself**, relative to whatever address or to none. -/
theorem parse?_toText (h : WellFormed u) (base : Option Url) :
    parse? base (toText u) = some (reread u) := by
  have hscheme : scheme? (toText u) =
      some (u.scheme, authority u ++ (pathname u ++ tailText u.query u.fragment)) := by
    rw [toText_eq, List.append_assoc, List.cons_append, scheme?_append h.scheme]
  simp only [parse?, clean_toText h, hscheme]
  cases hspecial : isSpecialScheme u.scheme with
  | true =>
    obtain ⟨host, hhost⟩ := Option.isSome_iff_exists.1 (h.placed.hasHost hspecial)
    obtain ⟨ss, hpath, _⟩ := exists_segments h.path hspecial
    rw [rest_of_host hhost hpath, reread_of_host hhost]
    by_cases hfile : u.scheme = fileScheme
    · rw [if_pos (by simp [hfile]), file_text h hfile hhost hpath]
    · have hread := afterAnySlashes_text h hfile hspecial hhost hpath
      have hslashes : ∀ t, startsWithSlashes (unit '/' :: unit '/' :: t) = true := fun t => rfl
      rw [if_neg (by simpa using hfile), if_pos rfl]
      cases base with
      | none => exact hread
      | some b =>
        dsimp only
        rw [hslashes, if_neg (by simp)]
        exact hread
  | false =>
    have hfile : u.scheme ≠ fileScheme := by
      intro he
      rw [he, isSpecialScheme_file] at hspecial
      cases hspecial
    rw [if_neg (by simpa using hfile), if_neg (by decide)]
    cases hhost : u.host with
    | none => exact afterPlainScheme_hostless h hspecial hhost
    | some host =>
      cases hpath : u.path with
      | whole t =>
        have hwhole := h.path
        unfold PathFits at hwhole
        rw [hpath] at hwhole
        cases hhost.symm.trans hwhole.hostless
      | segments ss =>
        rw [rest_of_host hhost hpath, reread_of_host hhost]
        exact afterSlashes_text h hfile hhost hpath

end Url

end PageTemplate
