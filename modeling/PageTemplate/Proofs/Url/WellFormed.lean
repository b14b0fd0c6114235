import PageTemplate.Proofs.Url.Authority
import PageTemplate.Proofs.Url.Segments

/-!
# PageTemplate.Proofs.Url.WellFormed

What is known of an address that was read, alone or relative to another such address
(`wellFormed_parse?`): its scheme is in lower case, its host is read as itself, and no part holds a
character that would have to be encoded there.
-/

namespace PageTemplate

namespace Url

variable {scheme user password host t rest : Text} {u v : Url} {c : CodeUnit} {ss : List Text}

/-! The parts of an address. -/

/-- What has to be encoded in a query. -/
def escapedInQueryOf (scheme : Text) : Nat → Bool :=
  if isSpecialScheme scheme then escapedInSpecialQuery else escapedInQuery

theorem encodes_queryOf (scheme : Text) : Encodes (escapedInQueryOf scheme) := by
  rw [escapedInQueryOf]
  split
  · exact encodes_specialQuery
  · exact encodes_query

/-- A host that is read as itself. Only a file can have an empty one where others need a name. -/
def IsHost (scheme host : Text) : Prop :=
  host? (isSpecialScheme scheme) host = some host ∧ (scheme = fileScheme → host ≠ "localhost") ∨
    scheme = fileScheme ∧ host = []

/-- What stands between scheme and path. Without the name of a host there is nothing beside it. -/
structure Placed (scheme user password : Text) (host : Option Text) (number : Option Nat) :
    Prop where
  userPlain : Plain escapedInUser user
  passwordPlain : Plain escapedInUser password
  isHost : ∀ h ∈ host, IsHost scheme h
  hasHost : isSpecialScheme scheme → host.isSome
  numberFits : ∀ p ∈ number, p ≤ 65535 ∧ defaultPortNumber scheme ≠ some p
  alone : host.getD [] = [] ∨ scheme = fileScheme → user = [] ∧ password = [] ∧ number = none

/-- What stands behind the path. -/
structure Tailed (scheme : Text) (query fragment : Option Text) : Prop where
  queryPlain : ∀ q ∈ query, Plain (escapedInQueryOf scheme) q
  fragmentPlain : ∀ f ∈ fragment, Plain escapedInFragment f

/-- Text that can stand in a path that is not looked into. -/
def PathUnits (t : Text) : Prop := ∀ c ∈ t, isControl c.toNat = false ∧ endsPath c = false

/-- A path that is not looked into belongs to an address without a host. It ends in a blank only if
more follows. -/
structure IsWhole (scheme : Text) (host query fragment : Option Text) (t : Text) : Prop where
  plain : isSpecialScheme scheme = false
  hostless : host = none
  units : PathUnits t
  slash : t.head? ≠ some (unit '/')
  blank : query = none → fragment = none → t.getLast? ≠ some 0x20

/-- The path of an address. A special scheme has a segment. -/
def PathFits (u : Url) : Prop :=
  match u.path with
  | .segments ss => Segments u.scheme ss ∧ (isSpecialScheme u.scheme → ss ≠ [])
  | .whole t => IsWhole u.scheme u.host u.query u.fragment t

/-- What is around the path of an address as reading leaves it. -/
structure Framed (u : Url) : Prop where
  scheme : IsScheme u.scheme
  placed : Placed u.scheme u.user u.password u.host u.portNumber
  tailed : Tailed u.scheme u.query u.fragment

/-- An address as reading leaves it. -/
structure WellFormed (u : Url) : Prop extends Framed u where
  path : PathFits u

/-- Nothing follows the path. -/
theorem tailed_none (scheme : Text) : Tailed scheme none none := ⟨nofun, nofun⟩

/-- What a text behind the path adds to an address. -/
theorem exists_withTail (h : Tailed u.scheme u.query u.fragment) (t : Text) :
    ∃ query fragment, withTail u t = { u with query := query, fragment := fragment } ∧
      Tailed u.scheme query fragment ∧ (t ≠ [] → query.isSome ∨ fragment.isSome) := by
  cases t with
  | nil => exact ⟨u.query, u.fragment, rfl, h, fun hne => absurd rfl hne⟩
  | cons c rest =>
    have hfragment : ∀ t, ∀ f ∈ some (escape escapedInFragment t), Plain escapedInFragment f := by
      rintro t f ⟨⟩
      exact plain_escape encodes_fragment t
    have hquery : ∀ q ∈ some (escape (escapedInQueryOf u.scheme)
        (rest.takeWhile (· != unit '#'))), Plain (escapedInQueryOf u.scheme) q := by
      rintro q ⟨⟩
      exact plain_escape (encodes_queryOf u.scheme) _
    simp only [withTail]
    split
    · exact ⟨u.query, _, rfl, ⟨h.queryPlain, hfragment rest⟩, fun _ => .inr rfl⟩
    · split
      · exact ⟨_, u.fragment, rfl, ⟨hquery, h.fragmentPlain⟩, fun _ => .inl rfl⟩
      · exact ⟨_, _, rfl, ⟨hquery, hfragment _⟩, fun _ => .inl rfl⟩

/-! What each step of reading keeps. -/

/-- A path still fits when more follows it. -/
theorem PathFits.followed {query fragment : Option Text} (h : PathFits u)
    (hsome : query.isSome ∨ fragment.isSome) :
    PathFits { u with query := query, fragment := fragment } := by
  unfold PathFits at h ⊢
  split at h
  · rename_i hp
    simpa [hp] using h
  · rename_i hp
    simp only [hp]
    refine ⟨h.plain, h.hostless, h.units, h.slash,
      fun (hq : query = none) (hf : fragment = none) => ?_⟩
    simp [hq, hf] at hsome

theorem wellFormed_withTail (h : Framed u) (hpath : ∀ query fragment,
      (t ≠ [] → query.isSome ∨ fragment.isSome) →
      PathFits { u with query := query, fragment := fragment }) : WellFormed (withTail u t) := by
  obtain ⟨query, fragment, he, ht, hsome⟩ := exists_withTail h.tailed t
  rw [he]
  exact ⟨⟨h.scheme, h.placed, ht⟩, hpath query fragment hsome⟩

/-- The segments that a text writes are added, and what follows the path. -/
theorem wellFormed_withPath (h : Framed u) (hss : Segments u.scheme ss) (t : Text) :
    WellFormed (withPath u ss t) := by
  refine wellFormed_withTail ⟨h.scheme, h.placed, h.tailed⟩ fun query fragment _ =>
    ⟨hss.addPieces (fun p hp u hu => ?_) (fun p hp u hu => ?_),
      fun hspecial => addPieces_ne_nil hspecial (pieces_ne_nil _ _)⟩
  · exact plain_escape encodes_path _ u (mem_pieces hp hu).1
  · exact (mem_pieces hp hu).2

theorem wellFormed_withHostPath (h : Framed u) (t : Text) : WellFormed (withHostPath u t) := by
  have hnil := segments_nil u.scheme
  have hframe : Framed { u with path := .segments [] } := ⟨h.scheme, h.placed, h.tailed⟩
  rw [withHostPath.eq_def]
  split
  · split
    · exact wellFormed_withPath h hnil _
    split
    · exact wellFormed_withPath h hnil _
    · rename_i hplain
      exact wellFormed_withTail hframe fun _ _ _ => ⟨hnil, fun hspecial => absurd hspecial hplain⟩
  · split
    · exact wellFormed_withPath h hnil _
    · rename_i hplain
      exact ⟨hframe, hnil, fun hspecial => absurd hspecial hplain⟩

theorem framed_withAuthority (hs : IsScheme scheme) (hfile : scheme ≠ fileScheme)
    (h : withAuthority (blank scheme) t = some v) : Framed v ∧ v.scheme = scheme := by
  cases hparts : breakAtLast (unit '@') t with
  | mk login place =>
    obtain ⟨hname, host, number, hhost, hnumber, rfl⟩ := (withAuthority_eq_some_iff hparts).1 h
    refine ⟨⟨hs, ⟨plain_escape encodes_user _, plain_escape encodes_user _, ?_, fun _ => rfl, ?_,
      ?_⟩, tailed_none scheme⟩, rfl⟩
    · rintro _ ⟨⟩
      exact .inl ⟨host?_self hhost, fun hf => absurd hf hfile⟩
    · rintro p ⟨⟩
      exact of_portNumber? hnumber
    · rintro (hnil | hf)
      · -- Without a name there are neither digits nor anybody who logs in.
        obtain rfl : host = [] := hnil
        obtain ⟨_, hcolon, rfl⟩ := hname (host?_eq_nil hhost).2
        rw [halves_of_not_mem hcolon] at hnumber
        exact ⟨rfl, rfl, (Option.some.inj hnumber).symm⟩
      · exact absurd hf hfile

theorem wellFormed_afterSlashes (hs : IsScheme scheme) (hfile : scheme ≠ fileScheme)
    (h : afterSlashes (blank scheme) t = some v) : WellFormed v := by
  simp only [afterSlashes, Option.bind_eq_bind, Option.bind_eq_some_iff, Option.pure_def,
    Option.some_inj] at h
  obtain ⟨w, hw, rfl⟩ := h
  exact wellFormed_withHostPath (framed_withAuthority hs hfile hw).1 _

/-- The segments of a path, none for a path that is not looked into. -/
theorem segments_segmentsOf (h : PathFits u) : Segments u.scheme (segmentsOf u) := by
  unfold PathFits at h
  unfold segmentsOf
  split
  · rename_i hp
    rw [hp] at h
    exact h.1
  · exact segments_nil u.scheme

/-- The path of a special scheme is a path of segments. -/
theorem exists_segments (h : PathFits u) (hspecial : isSpecialScheme u.scheme) :
    ∃ ss, u.path = .segments ss ∧ Segments u.scheme ss ∧ ss ≠ [] := by
  unfold PathFits at h
  split at h
  · rename_i ss hp
    exact ⟨ss, hp, h.1, h.2 hspecial⟩
  · rw [h.plain] at hspecial
    cases hspecial

/-! Files. -/

theorem isScheme_file : IsScheme fileScheme :=
  ⟨⟨unit 'f', _, rfl, by decide⟩, List.all_eq_true.1 (by decide), by decide⟩

theorem isSpecialScheme_file : isSpecialScheme fileScheme := by decide

theorem framed_file {host query : Option Text} {path : UrlPath}
    (hhost : ∀ h ∈ host, IsHost fileScheme h) (hsome : host.isSome)
    (hquery : ∀ q ∈ query, Plain (escapedInQueryOf fileScheme) q) :
    Framed ⟨fileScheme, [], [], host, none, path, query, none⟩ :=
  ⟨isScheme_file, ⟨nofun, nofun, hhost, fun _ => hsome, nofun, fun _ => ⟨rfl, rfl, rfl⟩⟩,
    ⟨hquery, nofun⟩⟩

theorem framed_file_host (h : IsHost fileScheme host) :
    Framed { blank fileScheme with host := some host } := by
  refine framed_file ?_ rfl nofun
  rintro _ ⟨⟩
  exact h

theorem wellFormed_fileHost
    (h : fileHost { blank fileScheme with host := some [] } t = some v) : WellFormed v := by
  have hblank := framed_file_host (.inr ⟨rfl, rfl⟩)
  simp only [fileHost] at h
  split at h
  · cases h
    exact wellFormed_withPath hblank (segments_nil _) _
  split at h
  · cases h
    exact wellFormed_withHostPath hblank _
  · simp only [Option.bind_eq_bind, Option.bind_eq_some_iff, Option.pure_def,
      Option.some_inj] at h
    obtain ⟨host, hhost, rfl⟩ := h
    refine wellFormed_withHostPath (u := { blank fileScheme with host := some _ })
      (framed_file_host ?_) _
    split
    · exact .inr ⟨rfl, rfl⟩
    · rename_i hlocal
      exact .inl ⟨host?_self hhost, fun _ => by simpa using hlocal⟩

/-- The path of a file, relative to another file if there is one. -/
theorem wellFormed_behind {base : Option Url}
    (hb : ∀ b ∈ base, WellFormed b ∧ b.scheme = fileScheme) (t : Text) :
    WellFormed (file.behind base { blank fileScheme with host := some [] } t) := by
  have hblank := framed_file_host (.inr ⟨rfl, rfl⟩)
  cases base with
  | none =>
    have hpath := wellFormed_withPath hblank (segments_nil _)
    cases t with
    | nil => exact hpath []
    | cons c rest =>
      simp only [file.behind]
      split
      · exact hpath rest
      · exact hpath (c :: rest)
  | some b =>
    obtain ⟨hb, hfile⟩ := hb b rfl
    have hplaced := hb.placed
    have htailed := hb.tailed
    obtain ⟨ss, hss, hsegments, hne⟩ := exists_segments hb.path (hfile ▸ isSpecialScheme_file)
    rw [hfile] at hplaced htailed hsegments
    have hsome := hplaced.hasHost isSpecialScheme_file
    have hhosted : Framed ⟨fileScheme, [], [], b.host, none, .segments [], none, none⟩ :=
      framed_file hplaced.isHost hsome nofun
    have hframe : Framed ⟨fileScheme, [], [], b.host, none, .segments ss, none, none⟩ :=
      framed_file hplaced.isHost hsome nofun
    have hqueried : Framed ⟨fileScheme, [], [], b.host, none, .segments ss, b.query, none⟩ :=
      framed_file hplaced.isHost hsome htailed.queryPlain
    cases t with
    | nil =>
      simp only [file.behind, hss]
      exact ⟨hqueried, hsegments, fun _ => hne⟩
    | cons c rest =>
      simp only [file.behind, segmentsOf, hss]
      split
      · refine wellFormed_withPath hhosted ?_ rest
        split
        · exact segments_nil _
        · exact hsegments.drive_take
      split
      · exact wellFormed_withTail hqueried fun _ _ _ => ⟨hsegments, fun _ => hne⟩
      split
      · exact wellFormed_withTail hframe fun _ _ _ => ⟨hsegments, fun _ => hne⟩
      split
      · exact wellFormed_withPath hframe (segments_nil _) _
      · exact wellFormed_withPath hframe hsegments.shorten _

theorem wellFormed_file {base : Option Url} (hb : ∀ b ∈ base, WellFormed b)
    (h : file base t = some v) : WellFormed v := by
  have hfile : ∀ b ∈ base.filter (fun b => b.scheme == fileScheme),
      WellFormed b ∧ b.scheme = fileScheme := by
    intro b hm
    obtain ⟨hm, hscheme⟩ := Option.filter_eq_some_iff.1 hm
    exact ⟨hb b hm, eq_of_beq hscheme⟩
  simp only [file] at h
  split at h
  · split at h
    · exact wellFormed_fileHost h
    · cases h
      exact wellFormed_behind hfile _
  · cases h
    exact wellFormed_behind hfile _

/-! Relative addresses. -/

theorem Framed.unqueried (h : Framed u) : Framed { u with query := none, fragment := none } :=
  ⟨h.scheme, h.placed, tailed_none u.scheme⟩

theorem wellFormed_relative {base : Url} (hb : WellFormed base) (hfile : base.scheme ≠ fileScheme)
    (ht : t = [] → ∃ ss, base.path = .segments ss) (h : relative base t = some v) :
    WellFormed v := by
  have hframe : Framed { base with fragment := none } :=
    ⟨hb.scheme, hb.placed, hb.tailed.queryPlain, nofun⟩
  have hclear := hb.toFramed.unqueried
  have hslash : ∀ rest, WellFormed
      (withPath { base with query := none, fragment := none } [] rest) := fun rest =>
    wellFormed_withPath hclear (segments_nil _) rest
  simp only [relative] at h
  split at h
  · cases h
    obtain ⟨ss, hss⟩ := ht rfl
    have hpath := hb.path
    unfold PathFits at hpath
    rw [hss] at hpath
    refine ⟨hframe, ?_⟩
    unfold PathFits
    rw [hss]
    exact hpath
  · split at h
    · split at h
      · split at h
        · split at h
          · exact wellFormed_afterSlashes hb.scheme hfile h
          · exact wellFormed_afterSlashes hb.scheme hfile h
        · cases h
          exact hslash _
      · cases h
        exact hslash _
    split at h
    · cases h
      exact wellFormed_withTail hclear fun q f hq => hb.path.followed (hq (List.cons_ne_nil _ _))
    split at h
    · cases h
      exact wellFormed_withTail hframe fun q f hq => hb.path.followed (hq (List.cons_ne_nil _ _))
    · cases h
      exact wellFormed_withPath hclear (segments_segmentsOf hb.path).shorten _

theorem endsPath_of_plain (h : escapedInPath c.toNat = false) : endsPath c = false := by
  rw [endsPath, Bool.or_eq_false_iff, beq_eq_false_iff_ne, beq_eq_false_iff_ne]
  constructor <;>
  · rintro rfl
    exact absurd h (by decide)

theorem pathUnits_of_plain (h : Plain escapedInPath t) : PathUnits t := fun c hc =>
  ⟨encodes_path.not_control (h c hc), endsPath_of_plain (h c hc)⟩

theorem pathUnits_append {s : Text} (hs : PathUnits s) (ht : PathUnits t) : PathUnits (s ++ t) :=
  fun c hc => (List.mem_append.1 hc).elim (hs c) (ht c)

theorem pathUnits_flatMap (h : ∀ s ∈ ss, PathUnits s) :
    PathUnits (ss.flatMap fun s => unit '/' :: s) := by
  intro c hc
  obtain ⟨s, hs, hc⟩ := List.mem_flatMap.1 hc
  rcases List.mem_cons.1 hc with rfl | hc
  · decide
  · exact h s hs c hc

/-- A path that is not looked into whose segments behind the first slash are replaced. -/
theorem IsWhole.replaced {host query fragment query' fragment' : Option Text} {path first : Text}
    (h : IsWhole scheme host query fragment path) (hfirst : PathUnits first)
    (hhead : first.head? = path.head?) (hne : first ≠ []) (hss : ∀ s ∈ ss, PathUnits s)
    (hsome : query'.isSome ∨ fragment'.isSome) :
    IsWhole scheme host query' fragment' (first ++ ss.flatMap fun s => unit '/' :: s) := by
  refine ⟨h.plain, h.hostless, pathUnits_append hfirst (pathUnits_flatMap hss), ?_,
    fun hq hf => ?_⟩
  · rw [List.head?_append_of_ne_nil _ hne, hhead]
    exact h.slash
  · simp [hq, hf] at hsome

/-- A link of any kind relative to an address whose path is not looked into. The path must not be
empty, or a link could give it two slashes at its start. -/
theorem wellFormed_relativeToWhole {base : Url} {path : Text} (hb : WellFormed base)
    (hpath : base.path = .whole path) (hne : path ≠ [])
    (h : relativeToWhole base path t = some v) : WellFormed v := by
  have hwhole : IsWhole base.scheme base.host base.query base.fragment path := by
    have hfits := hb.path
    unfold PathFits at hfits
    rwa [hpath] at hfits
  have hfile : base.scheme ≠ fileScheme := by
    intro he
    have hspecial := hwhole.plain
    rw [he, isSpecialScheme_file] at hspecial
    cases hspecial
  simp only [relativeToWhole] at h
  split at h
  · cases h
  split at h
  · cases h
    exact wellFormed_withTail ⟨hb.scheme, hb.placed, hb.tailed.queryPlain, nofun⟩ fun q f hq =>
      hb.path.followed (hq (List.cons_ne_nil _ _))
  split at h
  · cases h
  split at h
  · exact wellFormed_relative hb hfile (fun ht => absurd ht (List.cons_ne_nil _ _)) h
  · rename_i c rest _ hmark _
    obtain ⟨first, ps, hsplit, hhead, hfirst⟩ := Text.exists_splitOn hne hwhole.slash
    have hunits : ∀ s ∈ first :: ps, PathUnits s := fun s hs c hc =>
      hwhole.units c (Text.mem_of_mem_splitOn (hsplit ▸ hs) hc)
    have hfollowed : (c :: rest).dropWhile (!endsPath ·) ≠ [] := by
      intro hnil
      rw [List.dropWhile_eq_nil_iff] at hnil
      rw [Bool.not_eq_true', Bool.not_eq_false, List.contains_iff_mem] at hmark
      have hends := hnil (unit '#') hmark
      exact absurd hends (by decide)
    rw [hsplit, withPath] at h
    obtain ⟨query, fragment, he, ht, hsome⟩ := exists_withTail
      (u := { base with query := none, fragment := none, path := .segments _ })
      (tailed_none base.scheme) ((c :: rest).dropWhile (!endsPath ·))
    cases h
    rw [List.drop_one, List.tail_cons, he]
    refine ⟨⟨hb.scheme, hb.placed, ht⟩, hwhole.replaced (hunits first List.mem_cons_self) hhead
      hfirst (forall_addPieces hfile nofun (fun s hs => ?_) fun s hs => ?_) (hsome hfollowed)⟩
    · exact hunits s (List.mem_cons_of_mem first (shorten_subset _ ps hs))
    · exact pathUnits_of_plain fun c hc => plain_escape encodes_path _ c (mem_pieces hs hc).1

/-! Addresses of other schemes. -/

theorem framed_blank (hs : IsScheme scheme) (hplain : isSpecialScheme scheme = false) :
    Framed (blank scheme) :=
  ⟨hs, ⟨nofun, nofun, nofun, fun h => absurd h (by simp [blank, hplain]), nofun,
    fun _ => ⟨rfl, rfl, rfl⟩⟩, tailed_none scheme⟩

theorem wellFormed_opaquePath (hs : IsScheme scheme) (hplain : isSpecialScheme scheme = false)
    (hslash : t.head? ≠ some (unit '/')) (hblank : t.getLast? ≠ some 0x20) :
    WellFormed (afterPlainScheme.opaquePath (blank scheme) t) := by
  refine wellFormed_withTail ⟨hs, (framed_blank hs hplain).placed, tailed_none scheme⟩
    fun query fragment hsome => ⟨hplain, rfl, fun c hc => ⟨?_, ?_⟩, fun hhead => ?_,
      fun hq hf hlast => ?_⟩
  · exact plain_escape encodes_control _ c hc
  · have hwritten : encodingUnits.all (fun u => !endsPath u) := by decide
    rcases mem_escape encodes_control hc with hc | hc
    · simpa using List.all_eq_true.1 hwritten c hc
    · simpa using List.mem_takeWhile_imp hc.2
  · -- The encoding writes no slash, so the text would start with one.
    have htake := head?_escape encodes_control (by decide) hhead
    cases t with
    | nil => cases htake
    | cons d rest =>
      rw [List.takeWhile_cons] at htake
      split at htake
      · exact hslash htake
      · cases htake
  · -- When nothing follows, the path is all of the text, which does not end in a blank.
    have hdrop : t.dropWhile (!endsPath ·) = [] := by
      by_contra hne
      simp [show query = none from hq, show fragment = none from hf] at hsome
      exact hne (by simpa using hsome)
    have htake := List.takeWhile_append_dropWhile (p := (!endsPath ·)) (l := t)
    rw [hdrop, List.append_nil] at htake
    rw [htake] at hlast
    exact hblank (getLast?_escape encodes_control hlast)

theorem wellFormed_afterPlainScheme (hs : IsScheme scheme) (hplain : isSpecialScheme scheme = false)
    (hlast : t.getLast? ≠ some 0x20) (h : afterPlainScheme scheme t = some v) : WellFormed v := by
  have hblank := framed_blank hs hplain
  have hfile : scheme ≠ fileScheme := by
    rintro rfl
    cases hplain
  rw [afterPlainScheme.eq_def] at h
  simp only at h
  split at h
  · split at h
    · exact wellFormed_afterSlashes hs hfile h
    split at h
    · cases h
      exact wellFormed_withPath hblank (segments_nil _) _
    · rename_i hc
      cases h
      exact wellFormed_opaquePath hs hplain (by simpa using hc) hlast
  · split at h
    · cases h
      exact wellFormed_withPath hblank (segments_nil _) _
    · rename_i hc
      cases h
      exact wellFormed_opaquePath hs hplain (by simpa using hc) hlast
  · cases h
    exact wellFormed_opaquePath hs hplain nofun nofun

/-- **What was read is well formed**, alone or relative to a well-formed address. -/
theorem wellFormed_parse? {base : Option Url}
    (hb : ∀ b ∈ base, WellFormed b ∧ b.path ≠ .whole []) (h : parse? base t = some v) :
    WellFormed v := by
  simp only [parse?] at h
  split at h
  · rename_i scheme rest hscheme
    obtain ⟨hs, hrest⟩ := of_scheme? hscheme
    split at h
    · exact wellFormed_file (fun b hm => (hb b hm).1) h
    rename_i hfile
    have hfile : scheme ≠ fileScheme := by simpa using hfile
    split at h
    · rename_i hspecial
      split at h
      · rename_i b
        split at h
        · rename_i hsame
          rw [Bool.and_eq_true, beq_iff_eq] at hsame
          obtain ⟨hwell, _⟩ := hb b rfl
          exact wellFormed_relative hwell (hsame.1 ▸ hfile) (fun _ =>
            (exists_segments hwell.path (hsame.1 ▸ hspecial)).imp fun _ hss => hss.1) h
        · exact wellFormed_afterSlashes hs hfile h
      · exact wellFormed_afterSlashes hs hfile h
    · rename_i hplain
      refine wellFormed_afterPlainScheme hs (by simpa using hplain) (fun hlast => ?_) h
      obtain ⟨before, he⟩ := hrest
      refine getLast?_clean t ?_
      rw [← he, List.getLast?_append, hlast]
      rfl
  · split at h
    · cases h
    rename_i b
    obtain ⟨hwell, hne⟩ := hb b rfl
    split at h
    · rename_i path hpath
      exact wellFormed_relativeToWhole hwell hpath (fun hnil => hne (hnil ▸ hpath)) h
    · rename_i ss hpath
      split at h
      · exact wellFormed_file (fun b hm => (hb b hm).1) h
      · rename_i hfile
        exact wellFormed_relative hwell (by simpa using hfile) (fun _ => ⟨ss, hpath⟩) h

end Url

end PageTemplate
