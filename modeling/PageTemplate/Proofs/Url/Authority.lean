import PageTemplate.Proofs.Json.Numeral
import PageTemplate.Proofs.Url.Encoding

/-!
# PageTemplate.Proofs.Url.Authority

What stands before the path of an address. A host that was read is read as itself (`host?_self`):
the name of a special scheme is decoded and put into lower case once, an address of numbers is
written with four numbers below 256, and the host of any other scheme is encoded once. The scheme is
read as itself in front of a colon (`scheme?_append`). The text that names a host falls into its
parts at the last `@` and at the first colons of what stands before and behind it
(`withAuthority_eq_some_iff`).
-/

namespace PageTemplate

namespace Utf8

variable {t : Text}

/-- The bytes of ASCII text are its units. -/
theorem encode_of_ascii (h : ∀ u ∈ t, u < 0x80) : encode t = t.map fun u => u.toNat.toUInt8 := by
  rw [encode, Text.codePoints_of_ascii h, List.flatMap_map]
  induction t with
  | nil => rfl
  | cons u t ih =>
    obtain ⟨hu, ht⟩ := List.forall_mem_cons.1 h
    have hlt : u.toNat < 0x80 := UInt16.lt_iff_toNat_lt.1 hu
    rw [List.flatMap_cons, ih ht, if_neg (by simp; omega), encodePoint, if_pos hlt]
    rfl

theorem decodePoints_of_ascii {bs : List UInt8} (h : ∀ b ∈ bs, b < 0x80) :
    decodePoints none bs = bs.map UInt8.toNat := by
  induction bs with
  | nil => rfl
  | cons b bs ih =>
    obtain ⟨hb, hbs⟩ := List.forall_mem_cons.1 h
    rw [decodePoints, start, if_pos hb]
    simp only [ih hbs]
    rfl

theorem decode_of_ascii (h : ∀ u ∈ t, u < 0x80) :
    decode (t.map fun u => u.toNat.toUInt8) = t := by
  have hpoints : ((t.map fun u => u.toNat.toUInt8).map UInt8.toNat) = t.map UInt16.toNat := by
    rw [List.map_map]
    refine List.map_congr_left fun u hu => ?_
    have hlt : u.toNat < 0x80 := UInt16.lt_iff_toNat_lt.1 (h u hu)
    simp only [Function.comp_apply, Nat.toUInt8, UInt8.toNat_ofNat']
    omega
  rw [decode, decodePoints_of_ascii, hpoints, ← Text.codePoints_of_ascii h,
    Text.ofCodePoints_codePoints]
  intro b hb
  obtain ⟨u, hu, rfl⟩ := List.mem_map.1 hb
  have hlt : u.toNat < 0x80 := UInt16.lt_iff_toNat_lt.1 (h u hu)
  rw [UInt8.lt_iff_toNat_lt]
  simp only [Nat.toUInt8, UInt8.toNat_ofNat']
  show u.toNat % 256 < 128
  omega

end Utf8

namespace Url

section Hosts

variable {t h scheme : Text} {u : CodeUnit}

/-- Without percent signs there is nothing to be decoded. -/
theorem unescapeBytes_of_ascii (ha : ∀ u ∈ t, u < 0x80) (hp : unit '%' ∉ t) :
    unescapeBytes t = t.map fun u => u.toNat.toUInt8 := by
  induction t using unescapeBytes.induct with
  | case1 => rfl
  | case2 u => rw [unescapeBytes, Utf8.encode_of_ascii ha]
  | case3 u v => rw [unescapeBytes, Utf8.encode_of_ascii ha]
  | case4 u a b rest hc ih =>
    simp only [Bool.and_eq_true, beq_iff_eq] at hc
    exact absurd (hc.1.1 ▸ List.mem_cons_self) hp
  | case5 u a b rest hc hpair ih =>
    rw [Bool.and_eq_true] at hpair
    have hlead := (Text.isLead_iff.1 hpair.1).1
    have hlt : u.toNat < 0x80 := UInt16.lt_iff_toNat_lt.1 (ha u List.mem_cons_self)
    omega
  | case6 u a b rest hc hpair ih =>
    obtain ⟨hu, hrest⟩ := List.forall_mem_cons.1 ha
    rw [unescapeBytes, if_neg hc, if_neg hpair, ih hrest fun hm => hp (List.mem_cons_of_mem u hm),
      Utf8.encode_of_ascii (by simpa using hu)]
    rfl

theorem decode_unescapeBytes (ha : ∀ u ∈ t, u < 0x80) (hp : unit '%' ∉ t) :
    Utf8.decode (unescapeBytes t) = t := by
  rw [unescapeBytes_of_ascii ha hp, Utf8.decode_of_ascii ha]

/-! Addresses of numbers. -/

theorem not_digit_of_mem_ofNat {n : Nat} (hu : CodeUnit.isDigit u = false) : u ∉ Text.ofNat n := by
  intro hm
  rw [Text.isDigit_of_mem_ofNat hm] at hu
  cases hu

/-- A written number is read as the number of a part of an address. -/
theorem hostNumber?_ofNat (n : Nat) : hostNumber? (Text.ofNat n) = some n := by
  have hdigits : (Text.ofNat n).all (fun u => (CodeUnit.digitValue? u).any (· < 10)) := by
    rw [List.all_eq_true]
    intro u hu
    have hd := Text.isDigit_of_mem_ofNat hu
    have hbounds := CodeUnit.isDigit_iff.1 hd
    rw [CodeUnit.digitValue?, if_pos hd, Option.any_some, decide_eq_true_eq]
    omega
  have hread := Text.readNat_ofNat n
  have hne := Text.ofNat_ne_nil n
  rcases Nat.eq_zero_or_pos n with rfl | hpos
  · rfl
  have hhead := Text.head?_ofNat hpos
  generalize Text.ofNat n = t at hdigits hread hne hhead
  cases t with
  | nil => exact absurd rfl hne
  | cons z digits =>
    cases digits with
    | nil => simp_all [hostNumber?]
    | cons x rest =>
      have hz : z ≠ unit '0' := fun he => hhead (by rw [he]; rfl)
      simp_all [hostNumber?]

/-- The address of four numbers. -/
def dotted (a b c d : Nat) : Text := Text.join [unit '.'] ([a, b, c, d].map Text.ofNat)

theorem hostParts_dotted (a b c d : Nat) :
    hostParts (dotted a b c d) = [a, b, c, d].map Text.ofNat := by
  have hpoint : ∀ n, unit '.' ∉ Text.ofNat n := fun n => not_digit_of_mem_ofNat (by decide)
  have hsplit : Text.splitOn [unit '.'] (dotted a b c d) = [a, b, c, d].map Text.ofNat := by
    simp only [dotted, Text.join, List.map_cons, List.map_nil, List.intercalate_cons_cons,
      List.intercalate_singleton, List.append_assoc, List.singleton_append]
    rw [Text.splitOn_append (hpoint a), Text.splitOn_append (hpoint b),
      Text.splitOn_append (hpoint c), Text.splitOn_of_not_mem (hpoint d)]
  have hlast : ([a, b, c, d].map Text.ofNat).getLast? = some (Text.ofNat d) := rfl
  simp only [hostParts, hsplit, hlast]
  rw [if_neg]
  simp [Text.ofNat_ne_nil]

theorem endsInNumber_dotted (a b c d : Nat) : endsInNumber (dotted a b c d) := by
  have hlast : ([a, b, c, d].map Text.ofNat).getLast? = some (Text.ofNat d) := rfl
  rw [endsInNumber, hostParts_dotted, hlast]
  simp [hostNumber?_ofNat]

/-- The sum of the numbers times the weights of their places; the last number has the weight 1. -/
def weighted (weight : Nat → Nat) (numbers : List Nat) : Nat :=
  (numbers.dropLast.zipIdx.map fun (n, i) => n * weight i).foldl (· + ·) (numbers.getLastD 0)

/-- The number that the parts of an address stand for; the last part fills what is left. -/
def addressValue (numbers : List Nat) : Nat := weighted (fun i => Nat.pow 256 (3 - i)) numbers

/-- The weights of the places, as a variable: nothing counts the large numbers out. -/
theorem exists_weight : ∃ weight, addressValue = weighted weight ∧
    weight 0 = 0x1000000 ∧ weight 1 = 0x10000 ∧ weight 2 = 0x100 :=
  ⟨fun i => Nat.pow 256 (3 - i), rfl, rfl, rfl, rfl⟩

/-- The address of four numbers that together stand for a number. -/
def addressOf (n : Nat) : Text :=
  dotted (n / 0x1000000) (n / 0x10000 % 256) (n / 256 % 256) (n % 256)

/-- When an address of numbers can be read, and as what. -/
theorem numberHost?_eq_some_iff : numberHost? t = some h ↔
    ∃ numbers, (hostParts t).mapM hostNumber? = some numbers ∧ (hostParts t).length ≤ 4 ∧
      (∀ n ∈ numbers.dropLast, n < 256) ∧
      numbers.getLastD 0 < Nat.pow 256 (4 - numbers.dropLast.length) ∧
      addressOf (addressValue numbers) = h := by
  simp only [numberHost?]
  cases hn : (hostParts t).mapM hostNumber? with
  | none => split <;> simp
  | some numbers =>
    by_cases hlong : 4 < (hostParts t).length
    · simp [hlong, Nat.not_le.2 hlong]
    have hrange : ((numbers.dropLast.any (255 < ·) ||
        decide (Nat.pow 256 (4 - numbers.dropLast.length) ≤ numbers.getLastD 0)) = true) ↔
        ¬((∀ n ∈ numbers.dropLast, n < 256) ∧
          numbers.getLastD 0 < Nat.pow 256 (4 - numbers.dropLast.length)) := by
      rw [← Bool.not_eq_false, Bool.or_eq_false_iff, List.any_eq_false, decide_eq_false_iff_not,
        Nat.not_le]
      simp only [decide_eq_true_eq, Nat.not_lt, Nat.lt_succ_iff]
    rw [if_neg hlong]
    simp only [Option.bind_eq_bind, Option.bind_some, Option.pure_def, hrange, Option.some_inj,
      exists_eq_left', Nat.not_lt.1 hlong, true_and]
    split
    · rename_i hout
      exact iff_of_false nofun fun hin => hout ⟨hin.1, hin.2.1⟩
    · rename_i hin
      have hin := Classical.not_not.1 hin
      exact ⟨fun he => ⟨hin.1, hin.2, Option.some.inj he⟩, fun he => congrArg some he.2.2⟩

theorem length_of_mapM {ts : List Text} {numbers : List Nat}
    (h : ts.mapM hostNumber? = some numbers) : numbers.length = ts.length := by
  induction ts generalizing numbers with
  | nil =>
    cases h
    rfl
  | cons t ts ih =>
    simp only [List.mapM_cons, Option.bind_eq_bind, Option.bind_eq_some_iff, Option.pure_def,
      Option.some_inj] at h
    obtain ⟨n, _, rest, hrest, rfl⟩ := h
    rw [List.length_cons, List.length_cons, ih hrest]

/-- An address stands for a number of 32 bits. -/
theorem addressValue_lt {numbers : List Nat} (hlength : numbers.length ≤ 4)
    (hfirst : ∀ n ∈ numbers.dropLast, n < 256)
    (hlast : numbers.getLastD 0 < Nat.pow 256 (4 - numbers.dropLast.length)) :
    addressValue numbers < 0x100000000 := by
  obtain ⟨weight, hvalue, h0, h1, h2⟩ := exists_weight
  rw [hvalue]
  match numbers with
  | [] => exact Nat.zero_lt_succ _
  | [a] => exact hlast
  | [a, b] =>
    have ha : a < 256 := hfirst a (by simp)
    have hb : b < 0x1000000 := hlast
    show b + a * weight 0 < 0x100000000
    rw [h0]
    omega
  | [a, b, c] =>
    have ha : a < 256 := hfirst a (by simp)
    have hb : b < 256 := hfirst b (by simp)
    have hc : c < 0x10000 := hlast
    show c + a * weight 0 + b * weight 1 < 0x100000000
    rw [h0, h1]
    omega
  | [a, b, c, d] =>
    have ha : a < 256 := hfirst a (by simp)
    have hb : b < 256 := hfirst b (by simp)
    have hc : c < 256 := hfirst c (by simp)
    have hd : d < 256 := hlast
    show d + a * weight 0 + b * weight 1 + c * weight 2 < 0x100000000
    rw [h0, h1, h2]
    omega

theorem addressValue_four (a b c d : Nat) :
    addressValue [a, b, c, d] = d + a * 0x1000000 + b * 0x10000 + c * 0x100 := by
  obtain ⟨weight, hvalue, h0, h1, h2⟩ := exists_weight
  rw [hvalue, ← h0, ← h1, ← h2]
  rfl

/-- An address of numbers is read as one of four numbers. -/
theorem exists_of_numberHost? (hh : numberHost? t = some h) :
    ∃ n < 0x100000000, h = addressOf n := by
  obtain ⟨numbers, hread, hlength, hfirst, hlast, rfl⟩ := numberHost?_eq_some_iff.1 hh
  rw [← length_of_mapM hread] at hlength
  exact ⟨_, addressValue_lt hlength hfirst hlast, rfl⟩

/-- An address of four numbers is read as itself. -/
theorem numberHost?_addressOf {n : Nat} (hn : n < 0x100000000) :
    numberHost? (addressOf n) = some (addressOf n) := by
  have hread : ([n / 0x1000000, n / 0x10000 % 256, n / 256 % 256, n % 256].map
      Text.ofNat).mapM hostNumber? =
      some [n / 0x1000000, n / 0x10000 % 256, n / 256 % 256, n % 256] := by
    simp [hostNumber?_ofNat]
  rw [numberHost?_eq_some_iff]
  refine ⟨_, (hostParts_dotted _ _ _ _).symm ▸ hread, by simp [addressOf, hostParts_dotted],
    ?_, ?_, ?_⟩
  · simp
    omega
  · simp
    omega
  · rw [addressValue_four]
    congr 1
    omega

/-! Hosts that are read as themselves. -/

/-- A unit that can stand in a host. -/
def isHostUnit (u : CodeUnit) : Bool := !isForbiddenInHost u && !isControl u.toNat

theorem isHostUnit_of_domain (h : isForbiddenInDomain u = false) : isHostUnit u := by
  simp only [isForbiddenInDomain, Bool.or_eq_false_iff, decide_eq_false_iff_not,
    UInt16.le_iff_toNat_le] at h
  have hlow : (0x1F : CodeUnit).toNat = 0x1F := rfl
  have hhigh : (0x7F : CodeUnit).toNat = 0x7F := rfl
  simp only [isHostUnit, h.1.1.1, isControl, Bool.not_false, Bool.true_and, Bool.not_eq_true',
    Bool.or_eq_false_iff, decide_eq_false_iff_not]
  omega

theorem mem_addressOf {n : Nat} (h : u ∈ addressOf n) : CodeUnit.isDigit u ∨ u = unit '.' := by
  rcases Text.mem_intercalate h with h | ⟨part, hpart, hu⟩
  · exact .inr h
  · obtain ⟨k, _, rfl⟩ := List.mem_map.1 hpart
    exact .inl (Text.isDigit_of_mem_ofNat hu)

theorem addressOf_ne_nil (n : Nat) : addressOf n ≠ [] := by
  simp only [addressOf, dotted, Text.join, List.map_cons, List.intercalate_cons_cons]
  simp

/-- An address of numbers has no unit that a domain cannot have, and no capital. -/
theorem domain_of_mem_addressOf {n : Nat} (h : u ∈ addressOf n) :
    isForbiddenInDomain u = false ∧ CodeUnit.asciiLower u = u := by
  have hdigit : ∀ k < 10, isForbiddenInDomain (48 + k).toUInt16 = false ∧
      CodeUnit.asciiLower (48 + k).toUInt16 = (48 + k).toUInt16 := by decide
  rcases mem_addressOf h with h | rfl
  · have hb := CodeUnit.isDigit_iff.1 h
    have hk := hdigit (u.toNat - 48) (by omega)
    rwa [Nat.add_sub_cancel' hb.1, show u.toNat.toUInt16 = u by simp] at hk
  · decide

theorem asciiLower_asciiLower (u : CodeUnit) :
    CodeUnit.asciiLower (CodeUnit.asciiLower u) = CodeUnit.asciiLower u := by
  have hlower : ∀ u : CodeUnit, CodeUnit.isUpperLetter u →
      CodeUnit.isUpperLetter (u + 32) = false := by
    intro u hu
    have hA : unit 'A' = 65 := rfl
    have hZ : unit 'Z' = 90 := rfl
    simp only [CodeUnit.isUpperLetter, hA, hZ, Bool.and_eq_true, decide_eq_true_eq,
      Bool.and_eq_false_iff, decide_eq_false_iff_not] at hu ⊢
    grind
  cases hu : CodeUnit.isUpperLetter u with
  | true => simp [CodeUnit.asciiLower, hu, hlower u hu]
  | false => simp [CodeUnit.asciiLower, hu]

/-- The name of a host of a special scheme, before numbers are looked for. -/
def domainName (t : Text) : Text := Text.asciiLower (Utf8.decode (unescapeBytes t))

/-- A name in lower case whose units a domain can have is its own name. -/
theorem domainName_self (h : ∀ u ∈ t, isForbiddenInDomain u = false ∧ CodeUnit.asciiLower u = u) :
    domainName t = t := by
  have hascii : ∀ u ∈ t, u < 0x80 := by
    intro u hu
    have hn := (h u hu).1
    simp only [isForbiddenInDomain, Bool.or_eq_false_iff, decide_eq_false_iff_not] at hn
    have hlt : u.toNat < 0x7F := UInt16.lt_iff_toNat_lt.1 (UInt16.not_le.1 hn.2)
    rw [UInt16.lt_iff_toNat_lt]
    exact hlt.trans (by decide)
  have hpercent : unit '%' ∉ t := fun hm => absurd (h _ hm).1 (by decide)
  rw [domainName, decode_unescapeBytes hascii hpercent, Text.asciiLower]
  exact (List.map_congr_left fun u hu => (h u hu).2).trans (List.map_id t)

theorem host?_special_iff : host? true t = some h ↔
    domainName t ≠ [] ∧ (∀ u ∈ domainName t, isForbiddenInDomain u = false) ∧
      (if endsInNumber (domainName t) then numberHost? (domainName t)
        else some (domainName t)) = some h := by
  rw [host?, if_pos rfl]
  show (if (domainName t).isEmpty || (domainName t).any isForbiddenInDomain then none
    else if endsInNumber (domainName t) then numberHost? (domainName t)
    else some (domainName t)) = some h ↔ _
  split
  · rename_i hbad
    simp only [Bool.or_eq_true, List.isEmpty_iff, List.any_eq_true] at hbad
    refine iff_of_false nofun fun hgood => ?_
    rcases hbad with hbad | ⟨u, hu, hbad⟩
    · exact hgood.1 hbad
    · rw [hgood.2.1 u hu] at hbad
      cases hbad
  · rename_i hgood
    simp only [Bool.or_eq_true, List.isEmpty_iff, List.any_eq_true, not_or, not_exists, not_and,
      Bool.not_eq_true] at hgood
    exact ⟨fun he => ⟨hgood.1, hgood.2, he⟩, fun he => he.2.2⟩

/-- **The host of a special scheme is read as itself.** -/
theorem host?_special_self (hh : host? true t = some h) : host? true h = some h := by
  obtain ⟨hne, hunits, hread⟩ := host?_special_iff.1 hh
  rw [host?_special_iff]
  split at hread
  · obtain ⟨n, hn, rfl⟩ := exists_of_numberHost? hread
    rw [domainName_self fun u => domain_of_mem_addressOf]
    refine ⟨addressOf_ne_nil n, fun u hu => (domain_of_mem_addressOf hu).1, ?_⟩
    rw [if_pos (show endsInNumber (addressOf n) from endsInNumber_dotted _ _ _ _),
      numberHost?_addressOf hn]
  · rename_i hname
    obtain rfl := Option.some.inj hread
    have hself : domainName (domainName t) = domainName t := by
      refine domainName_self fun u hu => ⟨hunits u hu, ?_⟩
      obtain ⟨v, _, rfl⟩ := List.mem_map.1 hu
      exact asciiLower_asciiLower v
    rw [hself]
    exact ⟨hne, hunits, by rw [if_neg hname]⟩

/-- What is known of a host of a special scheme. -/
theorem of_host?_special (hh : host? true t = some h) :
    h ≠ [] ∧ ∀ u ∈ h, isHostUnit u := by
  obtain ⟨hne, hunits, hread⟩ := host?_special_iff.1 hh
  split at hread
  · obtain ⟨n, hn, rfl⟩ := exists_of_numberHost? hread
    exact ⟨addressOf_ne_nil n, fun u hu => isHostUnit_of_domain (domain_of_mem_addressOf hu).1⟩
  · obtain rfl := Option.some.inj hread
    exact ⟨hne, fun u hu => isHostUnit_of_domain (hunits u hu)⟩

theorem host?_plain_iff : host? false t = some h ↔
    (∀ u ∈ t, isForbiddenInHost u = false) ∧ escape isControl t = h := by
  rw [host?, if_neg (by decide)]
  split
  · rename_i hbad
    obtain ⟨u, hu, hbad⟩ := List.any_eq_true.1 hbad
    refine iff_of_false nofun fun hgood => ?_
    rw [hgood.1 u hu] at hbad
    cases hbad
  · rename_i hgood
    simp only [List.any_eq_true, not_exists, not_and, Bool.not_eq_true] at hgood
    exact ⟨fun he => ⟨hgood, Option.some.inj he⟩, fun he => congrArg some he.2⟩

/-- What is known of a host of another scheme. -/
theorem of_host?_plain (hh : host? false t = some h) :
    (t ≠ [] → h ≠ []) ∧ ∀ u ∈ h, isHostUnit u := by
  obtain ⟨hunits, rfl⟩ := host?_plain_iff.1 hh
  have hwritten : encodingUnits.all (fun u => !isForbiddenInHost u) := by decide
  refine ⟨escape_ne_nil, fun u hu => ?_⟩
  have hforbidden : isForbiddenInHost u = false := by
    rcases mem_escape encodes_control hu with hu | hu
    · simpa using List.all_eq_true.1 hwritten u hu
    · exact hunits u hu.2
  simp [isHostUnit, hforbidden, plain_escape encodes_control t u hu]

/-- **The host of another scheme is read as itself.** -/
theorem host?_plain_self (hh : host? false t = some h) : host? false h = some h := by
  have hunits := (of_host?_plain hh).2
  simp only [isHostUnit, Bool.and_eq_true, Bool.not_eq_true'] at hunits
  exact host?_plain_iff.2 ⟨fun u hu => (hunits u hu).1,
    escape_of_plain encodes_control fun u hu => (hunits u hu).2⟩

/-- **A host that was read is read as itself.** -/
theorem host?_self {special : Bool} (hh : host? special t = some h) : host? special h = some h := by
  cases special with
  | false => exact host?_plain_self hh
  | true => exact host?_special_self hh

theorem isHostUnit_of_host? {special : Bool} (hh : host? special t = some h) (hu : u ∈ h) :
    isHostUnit u := by
  cases special with
  | false => exact (of_host?_plain hh).2 u hu
  | true => exact (of_host?_special hh).2 u hu

/-- A name is left of every name; only a host of another scheme can be without one. -/
theorem host?_eq_nil {special : Bool} (hh : host? special t = some []) :
    special = false ∧ t = [] := by
  cases special with
  | false => exact ⟨rfl, by_contra fun hne => (of_host?_plain hh).1 hne rfl⟩
  | true => exact absurd rfl (of_host?_special hh).1

/-! Numbers behind a host. -/

theorem portNumber?_self {p : Nat} (hp : p ≤ 65535) (hd : defaultPortNumber scheme ≠ some p) :
    portNumber? scheme (Text.ofNat p) = some (some p) := by
  have hdigits : (Text.ofNat p).all CodeUnit.isDigit :=
    List.all_eq_true.2 fun u hu => Text.isDigit_of_mem_ofNat hu
  simp [portNumber?, Text.ofNat_ne_nil, hdigits, Text.readNat_ofNat, Nat.not_lt.2 hp, hd]

/-- What is known of the number behind a host. -/
theorem of_portNumber? {p : Nat} (hp : portNumber? scheme t = some (some p)) :
    p ≤ 65535 ∧ defaultPortNumber scheme ≠ some p := by
  simp only [portNumber?] at hp
  split at hp
  · cases hp
  split at hp
  · cases hp
  split at hp
  · cases hp
  split at hp
  · cases hp
  rename_i hlow hdefault
  cases hp
  exact ⟨Nat.not_lt.1 hlow, by simpa using hdefault⟩

end Hosts

variable {scheme t rest : Text} {u v : Url} {c : CodeUnit}

/-! Schemes. -/

def isSchemeUnit (u : CodeUnit) : Bool :=
  CodeUnit.isLetter u || CodeUnit.isDigit u || u == unit '+' || u == unit '-' || u == unit '.'

/-- The name of a scheme: a letter and more units of schemes, all in lower case. -/
structure IsScheme (scheme : Text) : Prop where
  letter : ∃ first more, scheme = first :: more ∧ CodeUnit.isLetter first
  units : ∀ u ∈ scheme, isSchemeUnit u
  lower : scheme.asciiLower = scheme

theorem isLetter_asciiLower (h : CodeUnit.isLetter c) :
    CodeUnit.isLetter (CodeUnit.asciiLower c) := by
  simp only [CodeUnit.isLetter, CodeUnit.isLowerLetter, CodeUnit.isUpperLetter,
    CodeUnit.asciiLower, unit] at *
  simp at *
  grind

theorem isSchemeUnit_asciiLower (h : isSchemeUnit c) : isSchemeUnit (CodeUnit.asciiLower c) := by
  cases hl : CodeUnit.isLetter c with
  | true => simp [isSchemeUnit, isLetter_asciiLower hl]
  | false =>
    have hupper : CodeUnit.isUpperLetter c = false := (Bool.or_eq_false_iff.1 hl).2
    rwa [CodeUnit.asciiLower, if_neg (by simp [hupper])]

/-- How a scheme is found, by the units that it can have. -/
theorem scheme?_eq_some_iff : scheme? t = some (scheme, rest) ↔
    (∃ first ∈ t.head?, CodeUnit.isLetter first) ∧ t.dropWhile isSchemeUnit = unit ':' :: rest ∧
      Text.asciiLower (t.takeWhile isSchemeUnit) = scheme := by
  have hunit : (fun u => CodeUnit.isLetter u || CodeUnit.isDigit u || u == unit '+' ||
      u == unit '-' || u == unit '.') = isSchemeUnit := rfl
  simp only [scheme?, hunit]
  cases t.head? with
  | none => simp
  | some first =>
    cases t.dropWhile isSchemeUnit with
    | nil => simp
    | cons colon more =>
      simp only [Option.ite_none_right_eq_some, Bool.and_eq_true, beq_iff_eq, Option.some_inj,
        Prod.mk.injEq, Option.mem_def, exists_eq_left', List.cons.injEq]
      constructor
      · rintro ⟨⟨hletter, hcolon⟩, hscheme, hrest⟩
        exact ⟨hletter, ⟨hcolon, hrest⟩, hscheme⟩
      · rintro ⟨hletter, ⟨hcolon, hrest⟩, hscheme⟩
        exact ⟨⟨hletter, hcolon⟩, hscheme, hrest⟩

/-- A scheme that was read, and where it stood. -/
theorem of_scheme? (h : scheme? t = some (scheme, rest)) :
    IsScheme scheme ∧ rest <:+ t := by
  obtain ⟨⟨first, hfirst, hletter⟩, hrest, rfl⟩ := scheme?_eq_some_iff.1 h
  have hunits : ∀ u ∈ t.takeWhile isSchemeUnit, isSchemeUnit u := fun u hu =>
    List.mem_takeWhile_imp hu
  refine ⟨⟨?_, ?_, ?_⟩, ?_⟩
  · cases t with
    | nil => cases hfirst
    | cons c t =>
      obtain rfl : c = first := by simpa using hfirst
      rw [List.takeWhile_cons_of_pos (by simp [isSchemeUnit, hletter])]
      exact ⟨_, _, rfl, isLetter_asciiLower hletter⟩
  · intro u hu
    obtain ⟨v, hv, rfl⟩ := List.mem_map.1 hu
    exact isSchemeUnit_asciiLower (hunits v hv)
  · rw [Text.asciiLower, Text.asciiLower, List.map_map]
    exact List.map_congr_left fun u _ => asciiLower_asciiLower u
  · exact (List.suffix_cons _ rest).trans (hrest ▸ List.dropWhile_suffix _)

/-- **A scheme is read as itself.** -/
theorem scheme?_append (h : IsScheme scheme) (rest : Text) :
    scheme? (scheme ++ unit ':' :: rest) = some (scheme, rest) := by
  have hcolon : ∀ u ∈ (unit ':' :: rest).head?, isSchemeUnit u = false := by
    rintro u ⟨⟩
    decide
  rw [scheme?_eq_some_iff, Text.takeWhile_append h.units hcolon,
    Text.dropWhile_append h.units hcolon]
  obtain ⟨first, more, rfl, hletter⟩ := h.letter
  exact ⟨⟨first, rfl, hletter⟩, rfl, h.lower⟩

/-! The parts of the text that names a host. -/

theorem breakAtLast_append (h : c ∉ t) (s : Text) : breakAtLast c (s ++ c :: t) = (some s, t) := by
  have hreverse : (s ++ c :: t).reverse = t.reverse ++ c :: s.reverse := by simp
  rw [breakAtLast, hreverse, Text.breakAt_append (by simpa using h)]
  simp

theorem breakAtLast_of_not_mem (h : c ∉ t) : breakAtLast c t = (none, t) := by
  rw [breakAtLast, Text.breakAt_of_not_mem (by simpa using h)]

/-- What stands before the first colon of a text and after it. -/
def halves (t : Text) : Text × Text := (Text.breakAt (unit ':') t).getD (t, [])

theorem halves_of_not_mem (h : unit ':' ∉ t) : halves t = (t, []) := by
  rw [halves, Text.breakAt_of_not_mem h]
  rfl

theorem halves_append (h : unit ':' ∉ t) (rest : Text) :
    halves (t ++ unit ':' :: rest) = (t, rest) := by
  rw [halves, Text.breakAt_append h]
  rfl

/-- When a text names a host, and who is meant by what stands before the host. -/
theorem withAuthority_eq_some_iff {login : Option Text} {place : Text}
    (hparts : breakAtLast (unit '@') t = (login, place)) : withAuthority u t = some v ↔
    ((halves place).1 = [] →
      isSpecialScheme u.scheme = false ∧ unit ':' ∉ place ∧ login = none) ∧
    ∃ host number, host? (isSpecialScheme u.scheme) (halves place).1 = some host ∧
      portNumber? u.scheme (halves place).2 = some number ∧
      { u with
        user := escape escapedInUser (login.elim (([] : Text), ([] : Text)) halves).1
        password := escape escapedInUser (login.elim (([] : Text), ([] : Text)) halves).2
        host := some host
        portNumber := number } = v := by
  rw [withAuthority]
  simp only [hparts, ← halves.eq_1, Option.bind_eq_bind, Option.pure_def]
  split
  · rename_i hguard
    simp only [Bool.and_eq_true, Bool.or_eq_true, List.isEmpty_iff, List.contains_iff_mem] at hguard
    refine iff_of_false nofun fun hright => ?_
    obtain ⟨hspecial, hcolon, hlogin⟩ := hright.1 hguard.1
    rcases hguard.2 with (h | h) | h
    · rw [hspecial] at h
      cases h
    · exact hcolon h
    · rw [hlogin] at h
      cases h
  · rename_i hguard
    simp only [Bool.and_eq_true, Bool.or_eq_true, List.isEmpty_iff, List.contains_iff_mem, not_and,
      not_or, Bool.not_eq_true, Option.isSome_eq_false_iff, Option.isNone_iff_eq_none] at hguard
    simp only [Option.bind_eq_some_iff, Option.some_inj]
    constructor
    · rintro ⟨host, hhost, number, hnumber, he⟩
      exact ⟨fun hnil => ⟨(hguard hnil).1.1, (hguard hnil).1.2, (hguard hnil).2⟩,
        host, number, hhost, hnumber, he⟩
    · rintro ⟨_, host, number, hhost, hnumber, he⟩
      exact ⟨host, hhost, number, hnumber, he⟩

end Url

end PageTemplate
