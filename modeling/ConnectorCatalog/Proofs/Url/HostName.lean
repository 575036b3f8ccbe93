import ConnectorCatalog.Proofs.Basic
import ConnectorCatalog.Proofs.Cut
import ConnectorCatalog.Proofs.Url.Authority
import ConnectorCatalog.Proofs.Url.Percent

/-!
# Names of hosts

A domain name of letters, digits, hyphens and dots is read as itself, in small letters where URLs are
those of the web (`hostIn_domain`), and an address of four numbers as that address (`hostIn_address`).
-/

namespace ConnectorCatalog

variable {kind : SchemeKind} {name : List Char}

theorem forall_ascii {P : Char → Prop} (h : ∀ n < 128, P (Char.ofNat n)) {c : Char}
    (hc : c.toNat < 128) : P c := by
  have hp := h c.toNat hc
  rwa [Char.ofNat_toNat] at hp

/-! ## Characters of names -/

/-- Characters of domain names. -/
def isHostChar (c : Char) : Bool := c.isAlphanum || c == '-' || c == '_' || c == '.'

theorem isHostChar_ascii {c : Char} (h : isHostChar c = true) : c.toNat < 128 := by
  unfold isHostChar at h
  delta Char.isAlphanum Char.isAlpha Char.isUpper Char.isLower Char.isDigit at h
  simp only [Bool.or_eq_true, Bool.and_eq_true, decide_eq_true_eq, beq_iff_eq,
    UInt32.le_iff_toNat_le, ge_iff_le] at h
  rcases h with ((h | rfl) | rfl) | rfl
  · have : c.toNat = c.val.toNat := rfl
    have : 'Z'.val.toNat = 90 := rfl
    have : 'z'.val.toNat = 122 := rfl
    have : '9'.val.toNat = 57 := rfl
    omega
  all_goals decide

theorem isBareChar_of_isHostChar {c : Char} (h : isHostChar c = true) : isBareChar c = true :=
  forall_ascii (P := fun c => isHostChar c = true → isBareChar c = true) (by decide +kernel)
    (isHostChar_ascii h) h

theorem isHostChar_toLower {c : Char} (h : isHostChar c = true) : isHostChar c.toLower = true :=
  forall_ascii (P := fun c => isHostChar c = true → isHostChar c.toLower = true) (by decide +kernel)
    (isHostChar_ascii h) h

theorem isForbidden_of_isHostChar {c : Char} (h : isHostChar c = true) :
    Domain.isForbidden c = false :=
  forall_ascii (P := fun c => isHostChar c = true → Domain.isForbidden c = false) (by decide +kernel)
    (isHostChar_ascii h) h

/-! ## Domain names -/

theorem decodeText?_of_not_mem (h : '%' ∉ name) :
    Percent.decodeText? name = some (String.ofList name) := by
  have hdecode : Percent.decode name = bytesOf name := by
    induction name with
    | nil => rfl
    | cons c name ih =>
      rw [List.mem_cons, not_or] at h
      rw [Percent.decode_cons (Ne.symm h.1), ih h.2]
      rfl
  have hbytes : (⟨(bytesOf name).toArray⟩ : ByteArray) = (bytesOf name).toByteArray := by
    ext1
    rw [← Array.toList_inj, List.toList_data_toByteArray]
  rw [Percent.decodeText?, hdecode, hbytes, fromUTF8?_bytesOf]

namespace Domain

theorem accented?_of_ascii (letter : Char) {c : Char} (hc : c.toNat < 128) :
    accented? letter c = none := by
  have haccents : ∀ e ∈ accents, 128 ≤ e.1.toNat := by decide
  have hlookup : accents.lookup c = none := by
    refine List.lookup_eq_none_iff.2 fun e he => ?_
    have := haccents e he
    rw [bne_iff_ne]
    rintro rfl
    omega
  rw [accented?, hlookup]
  rfl

theorem joinAccents_of_ascii {s : List Char} (h : ∀ c ∈ s, c.toNat < 128) (last : Char) :
    joinAccents last s = last :: s := by
  induction s generalizing last with
  | nil => rfl
  | cons c s ih =>
    rw [joinAccents, accented?_of_ascii last (h c (List.mem_cons_self ..))]
    dsimp only
    rw [ih fun d hd => h d (List.mem_cons_of_mem _ hd)]

/-- In ASCII only capital letters are folded. -/
theorem folded_of_ascii (h : ∀ c ∈ name, c.toNat < 128) : folded name = name.map Char.toLower := by
  have hfold : name.flatMap fold = name.map Char.toLower := by
    rw [List.map_eq_flatMap]
    exact List.flatMap_congr fun c hc => by rw [fold, if_pos (h c hc)]
  rw [folded, hfold]
  cases name with
  | nil => rfl
  | cons c name =>
    refine joinAccents_of_ascii (fun d hd => ?_) _
    obtain ⟨e, he, rfl⟩ := List.mem_map.1 hd
    exact forall_ascii (P := fun c => c.toLower.toNat < 128) (by decide +kernel)
      (h e (List.mem_cons_of_mem _ he))

/-- A label of ASCII characters is its own form, unless it is marked as Punycode. -/
theorem labelToAscii?_of_ascii {label : List Char} (h : ∀ c ∈ label, c.toNat < 128)
    (hmarker : ¬ marker <+: label) : labelToAscii? label = some label := by
  have hprefix : marker.isPrefixOf? label = none := by
    rw [Option.eq_none_iff_forall_ne_some]
    exact fun t ht => hmarker ⟨t, List.isPrefixOf?_eq_some_iff_append_eq.1 ht⟩
  have hnameable : ∀ c ∈ label, isUnnameable c = false ∧ isMark c = false := fun c hc =>
    forall_ascii (P := fun c => isUnnameable c = false ∧ isMark c = false) (by decide +kernel) (h c hc)
  have hlabel : isLabel label = true := by
    cases label with
    | nil => rfl
    | cons c label => simpa [isLabel, hnameable c] using fun d hd => (hnameable d (by simp [hd])).1
  have hascii : label.all Punycode.isAscii = true := by
    simpa [Punycode.isAscii] using h
  rw [labelToAscii?, hprefix]
  simp [hlabel, hascii]

end Domain

/-- A name in ASCII without labels in Punycode. -/
structure IsPlainName (name : List Char) : Prop where
  nonempty : name ≠ []
  chars : ∀ c ∈ name, isHostChar c = true
  labels : ∀ label ∈ cutAll (· == '.') (name.map Char.toLower), ¬ Domain.marker <+: label

namespace IsPlainName

variable (h : IsPlainName name)

include h

theorem isBareHost : IsBareHost name :=
  ⟨h.nonempty, fun c hc => isBareChar_of_isHostChar (h.chars c hc)⟩

theorem head?_ne : name.head? ≠ some '[' := by
  intro hhead
  obtain ⟨t, rfl⟩ := List.head?_eq_some_iff.1 hhead
  exact absurd (h.chars _ (List.mem_cons_self ..)) (by decide)

theorem toAscii?_eq : Domain.toAscii? name = some (name.map Char.toLower) := by
  have hlower : ∀ c ∈ name.map Char.toLower, isHostChar c = true := by
    intro c hc
    obtain ⟨d, hd, rfl⟩ := List.mem_map.1 hc
    exact isHostChar_toLower (h.chars d hd)
  have hlabels : (cutAll (· == '.') (name.map Char.toLower)).mapM Domain.labelToAscii?
      = some (cutAll (· == '.') (name.map Char.toLower)) :=
    mapM_eq_some_iff.2 <| List.forall₂_same.2 fun label hlabel => Domain.labelToAscii?_of_ascii
      (fun c hc => isHostChar_ascii (hlower c (of_mem_cutAll hlabel hc).1)) (h.labels label hlabel)
  have hforbidden : (name.map Char.toLower).any Domain.isForbidden = false := by
    rw [List.any_eq_false]
    exact fun c hc => by simp [isForbidden_of_isHostChar (hlower c hc)]
  rw [Domain.toAscii?, Domain.folded_of_ascii fun c hc => isHostChar_ascii (h.chars c hc), hlabels]
  dsimp only [Option.bind_eq_bind, Option.bind_some]
  rw [joinWith_cutAll, hforbidden]
  rfl

/-- The name is read in small letters, as an address if it is meant to be one. -/
theorem readHost_eq : readHost name =
    if Ipv4.isMeant (name.map Char.toLower) then
      match Ipv4.parse? (name.map Char.toLower) with
      | some a => .ok (.ipv4 a)
      | none => .error .invalidIpv4
    else .ok (.domain (name.map Char.toLower)) := by
  have hpercent : '%' ∉ name := fun hc => absurd (h.chars _ hc) (by decide)
  have hempty : (name.map Char.toLower).isEmpty = false := by simpa using h.nonempty
  rw [readHost, if_neg h.head?_ne, decodeText?_of_not_mem hpercent, Option.bind_some,
    String.toList_ofList, h.toAscii?_eq]
  dsimp only
  rw [hempty]
  rfl

/-- Outside the web a name is what is written. -/
theorem readOtherHost_eq : readOtherHost name = .ok (.domain name) := by
  have hplain : ∀ c ∈ name, (['\x00', '\t', '\n', '\r', ' ', '#', '/', ':', '<', '>', '?', '@', '[',
      '\\', ']', '^', '|'].contains c = false) ∧ Percent.isPrintable c = true := fun c hc =>
    forall_ascii (P := fun c => isHostChar c = true → (['\x00', '\t', '\n', '\r', ' ', '#', '/', ':',
      '<', '>', '?', '@', '[', '\\', ']', '^', '|'].contains c = false) ∧
        Percent.isPrintable c = true) (by decide +kernel) (isHostChar_ascii (h.chars c hc))
      (h.chars c hc)
  have hencode : Percent.encode [] name = name := by
    conv_rhs => rw [← List.flatMap_singleton' name]
    exact List.flatMap_congr fun c hc => by simp [(hplain c hc).2]
  rw [readOtherHost, if_neg h.head?_ne, hencode, if_neg]
  rw [List.any_eq_true]
  rintro ⟨c, hc, hforbidden⟩
  rw [(hplain c hc).1] at hforbidden
  cases hforbidden

end IsPlainName

/-- A domain name is read as itself, in small letters if the URL is one of the web. -/
theorem hostIn_domain (h : IsPlainName name)
    (haddress : Ipv4.isMeant (name.map Char.toLower) = false) :
    hostIn kind name = .ok (.domain (if kind = .other then name else name.map Char.toLower)) := by
  rw [hostIn]
  split_ifs
  · exact h.readOtherHost_eq
  · rw [h.readHost_eq, haddress]
    rfl

/-! ## Addresses -/

namespace Ipv4

variable (a : Ipv4)

theorem lt_of_mem_bytes {n : Nat} (h : n ∈ a.bytes) : n < 256 := by
  simp only [bytes, List.mem_cons, List.not_mem_nil, or_false] at h
  rcases h with rfl | rfl | rfl | rfl <;> exact Nat.mod_lt _ (by decide)

theorem cutAll_text : cutAll (· == '.') a.text = a.bytes.map (Nat.toDigits 10) := by
  refine cutAll_joinWith (by simp [bytes]) fun t ht hdot => ?_
  obtain ⟨n, -, rfl⟩ := List.mem_map.1 ht
  exact absurd (Nat.isDigit_of_mem_toDigits (by decide) (by decide) hdot) (by decide)

theorem isDigit_of_mem_text {c : Char} (h : c ∈ a.text) : c.isDigit = true ∨ c = '.' := by
  by_cases hdot : c = '.'
  · exact .inr hdot
  · have hmem : c ∈ (cutAll (· == '.') a.text).flatten := by
      rw [flatten_cutAll]
      exact List.mem_filter.2 ⟨h, by simpa using hdot⟩
    rw [cutAll_text] at hmem
    obtain ⟨t, ht, hc⟩ := List.mem_flatten.1 hmem
    obtain ⟨n, -, rfl⟩ := List.mem_map.1 ht
    exact .inl (Nat.isDigit_of_mem_toDigits (by decide) (by decide) hc)

theorem isHostChar_of_mem_text {c : Char} (h : c ∈ a.text) : isHostChar c = true ∧ c.toLower = c := by
  rcases isDigit_of_mem_text a h with hdigit | rfl
  · have hhost : isHostChar c = true := by simp [isHostChar, Char.isAlphanum, hdigit]
    exact ⟨hhost, forall_ascii (P := fun c => c.isDigit = true → c.toLower = c) (by decide +kernel)
      (isHostChar_ascii hhost) hdigit⟩
  · decide

theorem map_toLower_text : a.text.map Char.toLower = a.text :=
  (List.map_congr_left fun _ hc => (isHostChar_of_mem_text a hc).2).trans (List.map_id _)

theorem isPlainName_text : IsPlainName a.text where
  nonempty hnil := by
    have hcut := cutAll_text a
    rw [hnil] at hcut
    simp [cutAll, bytes] at hcut
  chars c hc := (isHostChar_of_mem_text a hc).1
  labels label hlabel hmarker := by
    rw [map_toLower_text, cutAll_text] at hlabel
    obtain ⟨n, -, rfl⟩ := List.mem_map.1 hlabel
    have hx : 'x' ∈ Nat.toDigits 10 n := hmarker.subset (by decide)
    exact absurd (Nat.isDigit_of_mem_toDigits (by decide) (by decide) hx) (by decide)

theorem part?_digits {n : Nat} (h : n < 256) : part? (Nat.toDigits 10 n) = some n := by
  revert n
  decide +kernel

theorem parts_text : parts a.text = a.bytes.map (Nat.toDigits 10) := by
  rw [parts, cutAll_text, if_neg]
  simp [bytes]

theorem mapM_part?_digits {ns : List Nat} (h : ∀ n ∈ ns, n < 256) :
    (ns.map (Nat.toDigits 10)).mapM part? = some ns :=
  mapM_eq_some_iff.2 <| List.forall₂_map_left_iff.2 <| List.forall₂_same.2 fun n hn =>
    part?_digits (h n hn)

variable {a}

/-- An address is read as it is written. -/
theorem parse?_text (h : a.value < UInt32.size) : parse? a.text = some a := by
  obtain ⟨value⟩ := a
  rw [parse?, parts_text, mapM_part?_digits fun _ => lt_of_mem_bytes _]
  have hvalue : (256 * (256 * (value / 16777216 % 256) + value / 65536 % 256) + value / 256 % 256) * 256
      + value % 256 = value := by
    have : value < 4294967296 := h
    omega
  have hle : ∀ n, n % 256 ≤ 255 := fun n => Nat.le_of_lt_succ (Nat.mod_lt n (by decide))
  simp [bytes, hle, hvalue, Nat.mod_lt]

theorem isMeant_text (a : Ipv4) : isMeant a.text = true := by
  have hdigits : ∀ n, (Nat.toDigits 10 n).all Char.isDigit = true := fun n =>
    List.all_eq_true.2 fun c hc => Nat.isDigit_of_mem_toDigits (by decide) (by decide) hc
  rw [isMeant, parts_text]
  simp [bytes, hdigits]

end Ipv4

/-- An address is read as itself. Outside the web it is not told from a name. -/
theorem hostIn_address {a : Ipv4} (h : a.value < UInt32.size) :
    hostIn kind a.text = .ok (if kind = .other then .domain a.text else .ipv4 a) := by
  have hplain := a.isPlainName_text
  rw [hostIn]
  split_ifs
  · exact hplain.readOtherHost_eq
  · rw [hplain.readHost_eq, a.map_toLower_text, a.isMeant_text, Ipv4.parse?_text h]
    rfl

end ConnectorCatalog
