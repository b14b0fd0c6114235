import PageTemplate.Builtin.TextLike
import PageTemplate.Proofs.Run
import PageTemplate.Proofs.Text

/-!
# PageTemplate.Proofs.Text.Replace

Replacing several patterns in one pass is scanning the text unit by unit. The pass looks for the
earliest occurrence of any pattern and cuts the text there; a scanner looks at one position after
the other, where the first pattern of the list that stands there gives way to its replacement, and
copies a unit where none does. `replaceMany_scans` says that the two agree on every text.
-/

namespace PageTemplate

namespace Text

/-- Whether a pattern stands at the front of a text. The empty pattern stands nowhere. -/
def Leads (pattern t : Text) : Prop := pattern ≠ [] ∧ pattern <+: t

/-- Scanning a text from left to right, and what comes out. What is put in is not scanned. -/
inductive Scans (pairs : List (Text × Text)) : Text → Text → Prop where
  | done : Scans pairs [] []
  | replace {earlier later : List (Text × Text)} {pattern replacement rest out : Text} :
    pairs = earlier ++ (pattern, replacement) :: later → pattern ≠ [] →
    (∀ pair ∈ earlier, ¬ Leads pair.1 (pattern ++ rest)) → Scans pairs rest out →
    Scans pairs (pattern ++ rest) (replacement ++ out)
  | copy {u : CodeUnit} {rest out : Text} :
    (∀ pair ∈ pairs, ¬ Leads pair.1 (u :: rest)) → Scans pairs rest out →
    Scans pairs (u :: rest) (u :: out)

variable {pairs earlier later : List (Text × Text)} {pattern replacement rest t out : Text}
  {u : CodeUnit}

/-! Where a pattern is found. -/

theorem breakOn_self (h : pattern ≠ []) : breakOn pattern (pattern ++ rest) = some ([], rest) := by
  cases pattern with
  | nil => exact absurd rfl h
  | cons c cs =>
    have hfound := afterPrefix_append (c :: cs) rest
    rw [List.cons_append] at hfound ⊢
    rw [breakOn, hfound]

/-- A pattern that does not stand at the front of a text is found where it is found behind the first
unit. -/
theorem breakOn_cons (hne : pattern ≠ []) (h : ¬ Leads pattern (u :: t)) :
    breakOn pattern (u :: t) =
      (breakOn pattern t).map fun (before, after) => (u :: before, after) := by
  have hnone : afterPrefix pattern (u :: t) = none :=
    afterPrefix_eq_none_iff.2 fun hp => h ⟨hne, hp⟩
  rw [breakOn, hnone]

/-- A pattern that is found at once stands at the front. -/
theorem leads_of_breakOn {after : Text} (hne : pattern ≠ [])
    (h : breakOn pattern t = some ([], after)) : Leads pattern t :=
  ⟨hne, after, (eq_of_breakOn h).symm⟩

/-! The earliest occurrence. -/

theorem earliest?_nil (pairs : List (Text × Text)) : earliest? pairs [] = none := by
  cases h : earliest? pairs [] with
  | none => rfl
  | some o => exact absurd (length_earliest? h) (Nat.not_lt_zero _)

/-- The first pattern that stands at the front is the one to be replaced. -/
theorem earliest?_leading (hne : pattern ≠ [])
    (h : ∀ pair ∈ earlier, ¬ Leads pair.1 (pattern ++ rest)) :
    earliest? (earlier ++ (pattern, replacement) :: later) (pattern ++ rest) =
      some ⟨[], replacement, rest⟩ := by
  induction earlier with
  | nil =>
    have hempty : pattern.isEmpty = false := by simpa using hne
    simp only [List.nil_append, earliest?, hempty, breakOn_self hne]
    cases earliest? later (pattern ++ rest) with
    | none => rfl
    | some o => simp
  | cons pair earlier ih =>
    obtain ⟨hpair, hearlier⟩ := List.forall_mem_cons.1 h
    rw [List.cons_append, earliest?, ih hearlier]
    by_cases hp : pair.1 = []
    · simp [hp]
    · have hempty : pair.1.isEmpty = false := by simpa using hp
      simp only [hempty, Bool.false_eq_true, if_false]
      cases hb : breakOn pair.1 (pattern ++ rest) with
      | none => rfl
      | some found =>
        obtain ⟨before, after⟩ := found
        -- It is found behind the front, so the pattern at the front comes first.
        have hbefore : before ≠ [] := by
          rintro rfl
          exact hpair (leads_of_breakOn hp hb)
        simp [hbefore]

/-- Where no pattern stands at the front, the earliest occurrence is that behind the first unit. -/
theorem earliest?_cons (h : ∀ pair ∈ pairs, ¬ Leads pair.1 (u :: t)) :
    earliest? pairs (u :: t) =
      (earliest? pairs t).map fun o => ⟨u :: o.before, o.replacement, o.after⟩ := by
  induction pairs with
  | nil => rfl
  | cons pair pairs ih =>
    obtain ⟨hpair, hpairs⟩ := List.forall_mem_cons.1 h
    rw [earliest?, earliest?, ih hpairs]
    by_cases hp : pair.1 = []
    · simp [hp]
    · have hempty : pair.1.isEmpty = false := by simpa using hp
      rw [breakOn_cons hp hpair]
      simp only [hempty, Bool.false_eq_true, if_false]
      cases breakOn pair.1 t with
      | none => rfl
      | some found =>
        cases earliest? pairs t with
        | none => rfl
        | some o =>
          simp only [Option.map_some, List.length_cons, Nat.add_le_add_iff_right]
          split <;> rfl

/-! One step of the pass. -/

theorem replaceMany_nil (pairs : List (Text × Text)) : replaceMany pairs [] = [] := by
  rw [replaceMany]
  split
  · rfl
  · rename_i h
    rw [earliest?_nil] at h
    cases h

theorem replaceMany_leading (hne : pattern ≠ [])
    (h : ∀ pair ∈ earlier, ¬ Leads pair.1 (pattern ++ rest)) :
    replaceMany (earlier ++ (pattern, replacement) :: later) (pattern ++ rest) =
      replacement ++ replaceMany (earlier ++ (pattern, replacement) :: later) rest := by
  rw [replaceMany]
  split
  · rename_i hnone
    rw [earliest?_leading hne h] at hnone
    cases hnone
  · rename_i o hsome
    rw [earliest?_leading hne h] at hsome
    cases hsome
    rfl

theorem replaceMany_cons (h : ∀ pair ∈ pairs, ¬ Leads pair.1 (u :: t)) :
    replaceMany pairs (u :: t) = u :: replaceMany pairs t := by
  rw [replaceMany, replaceMany]
  split <;> rename_i hfirst <;> rw [earliest?_cons h] at hfirst
  · rw [Option.map_eq_none_iff] at hfirst
    rw [hfirst]
  · obtain ⟨o, ho, rfl⟩ := Option.map_eq_some_iff.1 hfirst
    rw [ho]
    rfl

/-! The whole pass. -/

/-- Either no pattern stands at the front of a text, or there is a first one that does. -/
theorem leads_cases (pairs : List (Text × Text)) (t : Text) :
    (∀ pair ∈ pairs, ¬ Leads pair.1 t) ∨
      ∃ earlier pattern replacement later, pairs = earlier ++ (pattern, replacement) :: later ∧
        Leads pattern t ∧ ∀ pair ∈ earlier, ¬ Leads pair.1 t := by
  induction pairs with
  | nil => exact .inl nofun
  | cons pair pairs ih =>
    by_cases hpair : Leads pair.1 t
    · exact .inr ⟨[], pair.1, pair.2, pairs, rfl, hpair, nofun⟩
    · rcases ih with h | ⟨earlier, pattern, replacement, later, rfl, hlead, h⟩
      · exact .inl (List.forall_mem_cons.2 ⟨hpair, h⟩)
      · exact .inr ⟨pair :: earlier, pattern, replacement, later, rfl, hlead,
          List.forall_mem_cons.2 ⟨hpair, h⟩⟩

/-- What a scan comes to is what the pass yields. -/
theorem Scans.eq_replaceMany (h : Scans pairs t out) : out = replaceMany pairs t := by
  induction h with
  | done => rw [replaceMany_nil]
  | replace hsplit hne hfirst _ ih => rw [ih, hsplit, replaceMany_leading hne hfirst]
  | copy hnone _ ih => rw [ih, replaceMany_cons hnone]

/-- What the pass yields is the outcome of a scan: what is left to be scanned gets shorter. -/
theorem scans_replaceMany (pairs : List (Text × Text)) (t : Text) :
    Scans pairs t (replaceMany pairs t) := by
  induction hl : t.length using Nat.strong_induction_on generalizing t with
  | _ n ih =>
    subst hl
    cases t with
    | nil =>
      rw [replaceMany_nil]
      exact .done
    | cons u t =>
      rcases leads_cases pairs (u :: t) with
        h | ⟨earlier, pattern, replacement, later, hsplit, hlead, h⟩
      · rw [replaceMany_cons h]
        exact .copy h (ih t.length (Nat.lt_succ_self _) t rfl)
      · obtain ⟨hne, rest, ht⟩ := hlead
        rw [← ht] at h ih ⊢
        have hlength : rest.length < (pattern ++ rest).length := by
          have hpos := List.length_pos_iff.2 hne
          rw [List.length_append]
          omega
        have hscan := ih rest.length hlength rest rfl
        rw [hsplit, replaceMany_leading hne h, ← hsplit]
        exact .replace hsplit hne h hscan

theorem scans_iff : Scans pairs t out ↔ out = replaceMany pairs t :=
  ⟨Scans.eq_replaceMany, fun h => h ▸ scans_replaceMany pairs t⟩

example : replaceMany [("ab", "a"), ("", "x"), ("a", "-"), ("b", "+")] "aabbc" = "-a+c" := by
  cbv

end Text

namespace TextLike

/-- Patterns and replacements one after another. -/
def listed (pairs : List (Text × Text)) : List Value :=
  pairs.flatMap fun pair => [.text pair.1, .text pair.2]

theorem pairUp?_listed (pairs : List (Text × Text)) :
    pairUp? (listed pairs) = some (pairs.map fun pair => (.text pair.1, .text pair.2)) := by
  induction pairs with
  | nil => rfl
  | cons pair pairs ih =>
    rw [listed] at ih
    rw [listed, List.flatMap_cons, List.cons_append, List.cons_append, List.nil_append, pairUp?, ih]
    rfl

theorem textPairs?_texts (pairs : List (Text × Text)) :
    textPairs? (pairs.map fun pair => (.text pair.1, .text pair.2)) = some pairs := by
  induction pairs with
  | nil => rfl
  | cons pair pairs ih =>
    rw [textPairs?] at ih
    rw [textPairs?, List.map_cons, List.mapM_cons, ih]
    rfl

/-- **Replacing in one pass is scanning.** Whatever the text and the pairs of patterns and
replacements, the pass ends and yields a text, and that is the one that comes out of a scan: at each
position the first pattern of the list that stands there, unless it is empty, is replaced and passed
over, and where there is none a unit is copied. -/
theorem replaceMany_scans (env : Env) (w : World) (t : Text) (pairs : List (Text × Text)) :
    ∃ out, M.run' env w (replaceMany (.text t) (listed pairs)) = (.ok (.text out), w) ∧
      ∀ out', Text.Scans pairs t out' ↔ out' = out := by
  refine ⟨Text.replaceMany pairs t, ?_, fun out' => Text.scans_iff⟩
  rw [replaceMany, pairUp?_listed]
  cases pairs with
  | nil =>
    have hnone : Text.replaceMany [] t = t := by rw [Text.replaceMany, Text.earliest?]
    rw [hnone]
    rfl
  | cons pair pairs =>
    have htexts := textPairs?_texts (pair :: pairs)
    rw [List.map_cons] at htexts ⊢
    simp only [htexts, M.run'_pure]

end TextLike

end PageTemplate
