import ConnectorCatalog.Files.Path
import ConnectorCatalog.Proofs.Basic
import ConnectorCatalog.Proofs.Cut
import ConnectorCatalog.Version
import Mathlib.Data.List.Induction

/-!
# The text of a version

A version is written in one way only: texts that are read as the same version are the same
(`parse?_inj`). No character of such a text separates the names in a path.
-/

namespace ConnectorCatalog

namespace VersionIdentifier

theorem valueOf_concat (s : List Char) (c : Char) :
    valueOf (s ++ [c]) = 10 * valueOf s + (c.toNat - 48) := by
  simp [valueOf]

theorem valueOf_zeros (n : Nat) (s : List Char) : valueOf (List.replicate n '0' ++ s) = valueOf s := by
  induction n with
  | zero => rfl
  | succ n ih => rw [← ih, List.replicate_succ]; rfl

/-- As many digits with the same value are the same. -/
theorem valueOf_inj {s t : List Char} (hs : ∀ c ∈ s, c.isDigit = true)
    (ht : ∀ c ∈ t, c.isDigit = true) (hlength : s.length = t.length)
    (h : valueOf s = valueOf t) : s = t := by
  induction s using List.reverseRecOn generalizing t with
  | nil => exact (List.length_eq_zero_iff.1 hlength.symm).symm
  | append_singleton s c ih =>
    rcases t.eq_nil_or_concat' with rfl | ⟨t, d, rfl⟩
    · simp at hlength
    · have hc : 48 ≤ c.toNat ∧ c.toNat ≤ 57 := Char.isDigit_iff_toNat.1 (hs c (by simp))
      have hd : 48 ≤ d.toNat ∧ d.toNat ≤ 57 := Char.isDigit_iff_toNat.1 (ht d (by simp))
      rw [valueOf_concat, valueOf_concat] at h
      obtain rfl : c = d := Char.toNat_inj.1 (by omega)
      rw [ih (fun x hx => hs x (List.mem_append_left _ hx))
        (fun x hx => ht x (List.mem_append_left _ hx)) (by simpa using hlength) (by omega)]

theorem ofChars?_eq_some {leadingZeros : Bool} {s : List Char} {i : VersionIdentifier}
    (h : ofChars? leadingZeros s = some i) : (∀ c ∈ s, isIdentifierChar c = true) ∧
      (i = .name s ∨ (∀ c ∈ s, c.isDigit = true) ∧ i = .number (valueOf s) s.length) := by
  unfold ofChars? at h
  split at h
  · cases h
  · rename_i hs
    simp only [Bool.or_eq_true, Bool.not_eq_true', not_or, Bool.not_eq_false, List.all_eq_true] at hs
    split at h
    · rename_i hdigits
      split at h
      · cases h
      · cases h
        exact ⟨hs.2, .inr ⟨List.all_eq_true.1 hdigits, rfl⟩⟩
    · cases h
      exact ⟨hs.2, .inl rfl⟩

theorem ofChars?_inj {leadingZeros : Bool} {s t : List Char} {i : VersionIdentifier}
    (hs : ofChars? leadingZeros s = some i) (ht : ofChars? leadingZeros t = some i) : s = t := by
  obtain ⟨-, rfl | ⟨hdigits, rfl⟩⟩ := ofChars?_eq_some hs
  · obtain ⟨-, h | ⟨-, h⟩⟩ := ofChars?_eq_some ht <;> cases h
    rfl
  · obtain ⟨-, h | ⟨hdigits', h⟩⟩ := ofChars?_eq_some ht
    · cases h
    · obtain ⟨hvalue, hlength⟩ := VersionIdentifier.number.inj h
      exact valueOf_inj hdigits hdigits' hlength hvalue

theorem listOfChars?_inj {leadingZeros : Bool} {s t : List Char} {is : List VersionIdentifier}
    (hs : listOfChars? leadingZeros s = some is) (ht : listOfChars? leadingZeros t = some is) :
    s = t := by
  have hunique : Relator.LeftUnique fun (piece : List Char) i =>
      ofChars? leadingZeros piece = some i := fun _ _ _ => ofChars?_inj
  have hpieces := List.left_unique_forall₂' hunique (mapM_eq_some_iff.1 hs)
    (mapM_eq_some_iff.1 ht)
  rw [← joinWith_cutAll '.' s, hpieces, joinWith_cutAll]

theorem listOfChars?_ne_nil {leadingZeros : Bool} {s : List Char} :
    listOfChars? leadingZeros s ≠ some [] := by
  intro h
  have h := mapM_eq_some_iff.1 h
  rw [List.forall₂_nil_right_iff] at h
  exact cutAll_ne_nil _ _ h

end VersionIdentifier

namespace Version

open VersionIdentifier

theorem number?_eq_some {s : List Char} {n : Nat} (h : number? s = some n) :
    s ≠ [] ∧ (∀ c ∈ s, c.isDigit = true) ∧ (s.head? = some '0' → s.length ≤ 1) ∧ valueOf s = n := by
  unfold number? at h
  split at h
  · cases h
  · rename_i hs
    dsimp only at h
    split_ifs at h
    cases h
    simp only [Bool.or_eq_true, Bool.and_eq_true, Bool.not_eq_true', not_or, not_and,
      List.isEmpty_iff, Bool.not_eq_false, List.all_eq_true, beq_iff_eq, decide_eq_true_eq,
      Nat.not_lt] at hs
    exact ⟨hs.1.1, hs.1.2, hs.2, rfl⟩

theorem number?_inj {s t : List Char} {n : Nat} (hs : number? s = some n) (ht : number? t = some n) :
    s = t := by
  -- of two different counts of digits the smaller would be filled up with zeros
  have hle : ∀ {s t : List Char}, number? s = some n → number? t = some n → t.length ≤ s.length := by
    intro s t hs ht
    obtain ⟨hne, hsdigits, -, hsvalue⟩ := number?_eq_some hs
    obtain ⟨-, htdigits, hzero, htvalue⟩ := number?_eq_some ht
    by_contra hlt
    have hpositive : 0 < s.length := List.length_pos_of_ne_nil hne
    have hfilled : List.replicate (t.length - s.length) '0' ++ s = t := by
      refine valueOf_inj (fun c hc => ?_) htdigits (by simp; omega) ?_
      · rcases List.mem_append.1 hc with hc | hc
        · rw [List.eq_of_mem_replicate hc]
          rfl
        · exact hsdigits c hc
      · rw [valueOf_zeros, hsvalue, htvalue]
    obtain ⟨k, hk⟩ := Nat.exists_eq_succ_of_ne_zero (n := t.length - s.length) (by omega)
    have hhead : t.head? = some '0' := by rw [← hfilled, hk]; rfl
    have := hzero hhead
    omega
  obtain ⟨-, hsdigits, -, hsvalue⟩ := number?_eq_some hs
  obtain ⟨-, htdigits, -, htvalue⟩ := number?_eq_some ht
  exact valueOf_inj hsdigits htdigits (Nat.le_antisymm (hle ht hs) (hle hs ht))
    (hsvalue.trans htvalue.symm)

/-- The version with a core, a pre-release and a build. -/
def ofParts? (core : List Char) (preRelease build : Option (List Char)) : Option Version :=
  match cutAll (· == '.') core with
  | [major, minor, patch] => do
    let major ← number? major
    let minor ← number? minor
    let patch ← number? patch
    let preRelease ← preRelease.elim (some []) (listOfChars? false)
    let build ← build.elim (some []) (listOfChars? true)
    some { major, minor, patch, preRelease, build }
  | _ => none

/-- What stands before the first of some character, and after it if there is one. -/
def cutOff (c : Char) (s : List Char) : List Char × Option (List Char) :=
  match cutAtFirst (· == c) s with
  | some (front, back) => (front, some back)
  | none => (s, none)

theorem cutOff_text (c : Char) (s : List Char) :
    (cutOff c s).1 ++ (cutOff c s).2.elim [] (c :: ·) = s := by
  unfold cutOff
  split
  · rename_i h
    obtain ⟨d, hd, hs, -⟩ := cutAtFirst_eq_some h
    rw [hs, beq_iff_eq.1 hd]
    rfl
  · exact List.append_nil s

/-- The build is cut off first and then the pre-release. -/
theorem parse?_eq_ofParts? (text : String) : ∃ core preRelease build,
    text.toList = core ++ preRelease.elim [] ('-' :: ·) ++ build.elim [] ('+' :: ·) ∧
      parse? text = ofParts? core preRelease build := by
  refine ⟨(cutOff '-' (cutOff '+' text.toList).1).1, (cutOff '-' (cutOff '+' text.toList).1).2,
    (cutOff '+' text.toList).2, by rw [cutOff_text, cutOff_text], ?_⟩
  unfold parse? cutOff
  cases cutAtFirst (· == '+') text.toList with
  | none =>
    dsimp only
    cases cutAtFirst (· == '-') text.toList <;> rfl
  | some parts =>
    dsimp only
    cases cutAtFirst (· == '-') parts.1 <;> rfl

/-- A text that is read as a version has three numbers, the pre-release and the build. -/
theorem ofParts?_eq_some {core : List Char} {preRelease build : Option (List Char)} {v : Version}
    (h : ofParts? core preRelease build = some v) : ∃ major minor patch,
      core = joinWith ['.'] [major, minor, patch] ∧
      number? major = some v.major ∧ number? minor = some v.minor ∧ number? patch = some v.patch ∧
      preRelease.elim (some []) (listOfChars? false) = some v.preRelease ∧
      build.elim (some []) (listOfChars? true) = some v.build := by
  unfold ofParts? at h
  split at h
  · rename_i major minor patch hcore
    have hjoin := joinWith_cutAll '.' core
    rw [hcore] at hjoin
    simp only [Option.bind_eq_bind, Option.bind_eq_some_iff, Option.some.injEq] at h
    obtain ⟨a, hmajor, b, hminor, c, hpatch, p, hpre, q, hbuild, rfl⟩ := h
    exact ⟨major, minor, patch, hjoin.symm, hmajor, hminor, hpatch, hpre, hbuild⟩
  · cases h

/-- Identifiers are read from one text, and none from none. -/
theorem elim_listOfChars?_inj {leadingZeros : Bool} {s t : Option (List Char)}
    {is : List VersionIdentifier} (hs : s.elim (some []) (listOfChars? leadingZeros) = some is)
    (ht : t.elim (some []) (listOfChars? leadingZeros) = some is) : s = t := by
  cases s with
  | none =>
    cases hs
    cases t with
    | none => rfl
    | some t => exact absurd ht listOfChars?_ne_nil
  | some s =>
    cases t with
    | none => cases ht; exact absurd hs listOfChars?_ne_nil
    | some t => rw [listOfChars?_inj hs ht]

/-- Texts that are read as the same version are the same. -/
theorem parse?_inj {a b : String} {v : Version} (ha : parse? a = some v) (hb : parse? b = some v) :
    a = b := by
  obtain ⟨core, preRelease, build, htext, hparts⟩ := parse?_eq_ofParts? a
  obtain ⟨core', preRelease', build', htext', hparts'⟩ := parse?_eq_ofParts? b
  obtain ⟨major, minor, patch, rfl, hmajor, hminor, hpatch, hpre, hbuild⟩ :=
    ofParts?_eq_some (hparts ▸ ha)
  obtain ⟨major', minor', patch', rfl, hmajor', hminor', hpatch', hpre', hbuild'⟩ :=
    ofParts?_eq_some (hparts' ▸ hb)
  rw [← String.toList_inj, htext, htext', number?_inj hmajor hmajor', number?_inj hminor hminor',
    number?_inj hpatch hpatch', elim_listOfChars?_inj hpre hpre', elim_listOfChars?_inj hbuild hbuild']

/-- A character that may stand in the text of a version. -/
def isVersionChar (c : Char) : Bool := isIdentifierChar c || c == '.' || c == '+'

theorem isVersionChar_of_number? {s : List Char} {n : Nat} (h : number? s = some n) :
    ∀ c ∈ s, isVersionChar c = true := by
  intro c hc
  have hdigit := (number?_eq_some h).2.1 c hc
  simp [isVersionChar, isIdentifierChar, Char.isAlphanum, hdigit]

theorem isVersionChar_of_listOfChars? {leadingZeros : Bool} {s : List Char}
    {is : List VersionIdentifier} (h : listOfChars? leadingZeros s = some is) :
    ∀ c ∈ s, isVersionChar c = true := by
  have hpieces : ∀ piece ∈ cutAll (· == '.') s, ∀ c ∈ piece, isIdentifierChar c = true := by
    replace h := mapM_eq_some_iff.1 h
    generalize cutAll (· == '.') s = pieces at h
    induction h with
    | nil => exact nofun
    | cons hpiece _ ih =>
      exact List.forall_mem_cons.2 ⟨(ofChars?_eq_some hpiece).1, ih⟩
  intro c hc
  by_cases hdot : c = '.'
  · rw [hdot]
    rfl
  · have hmem : c ∈ (cutAll (· == '.') s).flatten := by
      rw [flatten_cutAll]
      exact List.mem_filter.2 ⟨hc, by simpa using hdot⟩
    obtain ⟨piece, hpiece, hc⟩ := List.mem_flatten.1 hmem
    rw [isVersionChar, hpieces piece hpiece c hc]
    rfl

theorem isVersionChar_of_elim {leadingZeros : Bool} (mark : Char) (hmark : isVersionChar mark = true)
    {s : Option (List Char)} {is : List VersionIdentifier}
    (h : s.elim (some []) (listOfChars? leadingZeros) = some is) :
    ∀ c ∈ s.elim [] (mark :: ·), isVersionChar c = true := by
  cases s with
  | none => exact nofun
  | some s => exact List.forall_mem_cons.2 ⟨hmark, isVersionChar_of_listOfChars? h⟩

/-- A text that is read as a version is a single ordinary name. -/
theorem isPlainName_of_parse? {text : String} {v : Version} (h : parse? text = some v) :
    Path.isPlainName text = true := by
  obtain ⟨core, preRelease, build, htext, hparts⟩ := parse?_eq_ofParts? text
  obtain ⟨major, minor, patch, rfl, hmajor, hminor, hpatch, hpre, hbuild⟩ :=
    ofParts?_eq_some (hparts ▸ h)
  have hchars : ∀ c ∈ text.toList, isVersionChar c = true := by
    rw [htext]
    have hmajor := isVersionChar_of_number? hmajor
    have hminor := isVersionChar_of_number? hminor
    have hpatch := isVersionChar_of_number? hpatch
    have hpre := isVersionChar_of_elim '-' rfl hpre
    have hbuild := isVersionChar_of_elim '+' rfl hbuild
    have hdot : isVersionChar '.' = true := rfl
    simp only [joinWith, List.forall_mem_append, List.forall_mem_singleton]
    exact ⟨⟨⟨⟨hmajor, hdot⟩, ⟨hminor, hdot⟩, hpatch⟩, hpre⟩, hbuild⟩
  obtain ⟨hne, hdigits, -, -⟩ := number?_eq_some hmajor
  cases major with
  | nil => exact absurd rfl hne
  | cons d major =>
    have hdigit : d ≠ '.' := by
      rintro rfl
      exact absurd (hdigits '.' (List.mem_cons_self ..)) (by decide)
    have hslash : '/' ∉ text.toList := fun hmem => absurd (hchars _ hmem) (by decide)
    have hbackslash : '\\' ∉ text.toList := fun hmem => absurd (hchars _ hmem) (by decide)
    have hhead : ∃ rest, text.toList = d :: rest := ⟨_, by rw [htext]; rfl⟩
    obtain ⟨rest, hrest⟩ := hhead
    rw [hrest] at hslash hbackslash
    simp only [Path.isPlainName, hrest, Bool.and_eq_true, Bool.not_eq_true', List.contains_eq_mem,
      decide_eq_false_iff_not]
    exact ⟨⟨⟨⟨rfl, by simp [hdigit]⟩, by simp [hdigit]⟩, hslash⟩, hbackslash⟩

end Version

end ConnectorCatalog
