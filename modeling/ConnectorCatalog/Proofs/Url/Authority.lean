import ConnectorCatalog.Proofs.Toml.Literal
import ConnectorCatalog.Proofs.Trim
import ConnectorCatalog.Proofs.Url.Parsed
import Mathlib.Data.Char
import Mathlib.Data.List.TakeWhile

/-!
# Hosts and ports of URLs

A URL with a bare host name behind its scheme has that host. A port that is written behind the name is
the port of the URL (`readAuthority_port`); behind a slash it is part of the path, and the URL has no
port but that of its scheme (`readAuthority_slash`). URLs of files have no port at all
(`port?_readFile`).
-/

namespace ConnectorCatalog

/-- The port that a URL names. -/
def Url.port? (u : Url) : Option Nat := u.authority.bind Authority.port

/-- The port that a URL leads to: the one it names, else that of its scheme. -/
def Url.effectivePort? (u : Url) : Option Nat := u.port?.orElse fun _ => defaultPort? u.scheme

/-- The host with a name, in URLs of some kind. -/
def hostIn (kind : SchemeKind) (name : List Char) : Except UrlError Host :=
  if kind = .other then readOtherHost name else readHost name

/-- A character that is neither blank nor separates the parts of a URL. -/
def isBareChar (c : Char) : Bool :=
  ' ' < c && !(['/', '\\', '?', '#', '@', ':', '[', ']'].contains c)

/-- A text that can be nothing but the name of a host. -/
def IsBareHost (name : List Char) : Prop := name ≠ [] ∧ ∀ c ∈ name, isBareChar c = true

instance : DecidablePred IsBareHost := fun name =>
  @instDecidableAnd _ _ _ (List.decidableBAll (fun c => isBareChar c = true) name)

variable {kind : SchemeKind} {scheme name r : List Char} {host : Host} {p : Nat}

theorem endsAuthority_of_isBareChar {c : Char} (h : isBareChar c = true) :
    endsAuthority kind c = false := by
  simp only [isBareChar, List.contains_cons, List.contains_nil, Bool.or_false, Bool.not_or,
    Bool.and_eq_true, Bool.not_eq_true', beq_eq_false_iff_ne] at h
  simp [endsAuthority, SchemeKind.isSlash, h]

theorem ne_of_isBareChar {c d : Char} (hc : isBareChar c = true) (hd : isBareChar d = false) :
    c ≠ d := by
  rintro rfl
  rw [hc] at hd
  cases hd

theorem lt_of_isBareChar {c : Char} (h : isBareChar c = true) : ' ' < c := by
  simp only [isBareChar, Bool.and_eq_true, decide_eq_true_eq] at h
  exact h.1

/-! ## Who asks, and where -/

/-- What stands before the end of an authority has no at sign, so that nobody is named. -/
theorem readUserInfo_eq (h : ∀ c ∈ r.takeWhile fun c => !endsAuthority kind c, c ≠ '@') :
    readUserInfo kind r = .ok ([], [], r) := by
  have hcut : cutAtLast (· == '@') (r.takeWhile fun c => !endsAuthority kind c) = none := by
    rw [cutAtLast, Option.map_eq_none_iff]
    cases hfirst : cutAtFirst (· == '@') (r.takeWhile fun c => !endsAuthority kind c).reverse with
    | none => rfl
    | some e =>
      obtain ⟨c, hc, heq, -⟩ := cutAtFirst_eq_some hfirst
      exact absurd (beq_iff_eq.1 hc) (h c (List.mem_reverse.1 (heq ▸ by simp)))
  simp only [readUserInfo, hcut]

theorem splitHost_append (hname : ∀ c ∈ name, isBareChar c = true)
    (hr : ∀ c ∈ r.head?, c = ':' ∨ endsAuthority kind c = true) :
    splitHost kind false (name ++ r) = (name, r) := by
  induction name with
  | nil =>
    cases r with
    | nil => rfl
    | cons c r =>
      rw [List.nil_append, splitHost, if_pos]
      simpa using hr c rfl
  | cons c name ih =>
    have hc := hname c (List.mem_cons_self ..)
    have hcolon : c ≠ ':' := ne_of_isBareChar hc rfl
    have hopen : c ≠ '[' := ne_of_isBareChar hc rfl
    have hclose : c ≠ ']' := ne_of_isBareChar hc rfl
    have hrest := ih fun d hd => hname d (List.mem_cons_of_mem _ hd)
    rw [List.cons_append, splitHost, if_neg (by simp [hcolon, endsAuthority_of_isBareChar hc])]
    simp only [hopen, hclose, if_false, hrest]

theorem foldl_toDigits (p : Nat) :
    (Nat.toDigits 10 p).foldl (fun n c => 10 * n + (c.toNat - '0'.toNat)) 0 = p :=
  Toml.foldl_decimalDigits p

theorem readPort_digits (hp : p < 65536) :
    readPort scheme (Nat.toDigits 10 p)
      = .ok (if defaultPort? scheme = some p then none else some p, []) := by
  have hdigits : ∀ c ∈ Nat.toDigits 10 p, c.isDigit = true :=
    fun _ hc => Nat.isDigit_of_mem_toDigits (by decide) (by decide) hc
  have htake : (Nat.toDigits 10 p).takeWhile Char.isDigit = Nat.toDigits 10 p :=
    List.takeWhile_eq_self_iff.2 hdigits
  have hdrop : (Nat.toDigits 10 p).dropWhile Char.isDigit = [] :=
    List.dropWhile_eq_nil_iff.2 hdigits
  have hempty : (Nat.toDigits 10 p).isEmpty = false := by simp
  simp only [readPort, htake, hdrop, foldl_toDigits, hempty, List.head?_nil, Bool.false_eq_true,
    Bool.not_true, or_false, false_or]
  rw [if_neg (by omega)]
  split_ifs <;> rfl

/-! ## Hosts -/

section Authority

variable (hname : IsBareHost name) (hhost : hostIn kind name = .ok host)

include hname hhost

theorem readHostAndPort_digits (hp : p < 65536) :
    readHostAndPort kind scheme (name ++ ':' :: Nat.toDigits 10 p)
      = .ok (some host, if defaultPort? scheme = some p then none else some p, []) := by
  have hsplit := @splitHost_append kind name (':' :: Nat.toDigits 10 p) hname.2 (by simp)
  have hempty : name.isEmpty = false := by simpa using hname.1
  rw [hostIn] at hhost
  simp only [readHostAndPort, hsplit, hempty, readPort_digits hp, Bool.false_eq_true, if_false]
  split_ifs at hhost ⊢ <;> rw [hhost] <;> rfl

theorem readHostAndPort_slash :
    readHostAndPort kind scheme (name ++ '/' :: r) = .ok (some host, none, '/' :: r) := by
  have hsplit := @splitHost_append kind name ('/' :: r) hname.2
    (by simp [endsAuthority, SchemeKind.isSlash])
  have hempty : name.isEmpty = false := by simpa using hname.1
  rw [hostIn] at hhost
  simp only [readHostAndPort, hsplit, hempty, Bool.false_eq_true, if_false]
  split_ifs at hhost ⊢ <;> rw [hhost] <;> rfl

end Authority

theorem exists_readAuthority {s rest : List Char} {port : Option Nat}
    (hinfo : readUserInfo kind s = .ok ([], [], s))
    (hread : readHostAndPort kind scheme s = .ok (some host, port, rest)) :
    ∃ u, readAuthority kind scheme s = .ok u ∧ u.scheme = scheme ∧ u.host? = some host ∧
      u.port? = port := by
  rw [readAuthority, hinfo]
  dsimp only [bind, Except.bind]
  rw [hread]
  exact ⟨_, rfl, rfl, rfl, rfl⟩

theorem readUserInfo_append (hname : IsBareHost name)
    (hr : ∀ c ∈ r.takeWhile fun c => !endsAuthority kind c, c ≠ '@') :
    readUserInfo kind (name ++ r) = .ok ([], [], name ++ r) := by
  have hbare : ∀ c ∈ name, (!endsAuthority kind c) = true := fun c hc => by
    rw [endsAuthority_of_isBareChar (hname.2 c hc)]
    rfl
  refine readUserInfo_eq fun c hc => ?_
  rw [List.takeWhile_append_of_pos hbare] at hc
  rcases List.mem_append.1 hc with hc | hc
  · exact ne_of_isBareChar (hname.2 c hc) rfl
  · exact hr c hc

/-- A port behind the name is the port of the URL. -/
theorem readAuthority_port (hname : IsBareHost name) (hhost : hostIn kind name = .ok host)
    (hp : p < 65536) : ∃ u, readAuthority kind scheme (name ++ ':' :: Nat.toDigits 10 p) = .ok u ∧
      u.scheme = scheme ∧ u.host? = some host ∧ u.effectivePort? = some p := by
  have hat : ∀ c ∈ ':' :: Nat.toDigits 10 p, c ≠ '@' := by
    rintro c hc rfl
    rcases List.mem_cons.1 hc with hc | hc
    · cases hc
    · exact absurd (Nat.isDigit_of_mem_toDigits (by decide) (by decide) hc) (by decide)
  obtain ⟨u, hu, hscheme, hhost?, hport⟩ := exists_readAuthority
    (readUserInfo_append hname fun c hc => hat c (List.takeWhile_subset _ hc))
    (@readHostAndPort_digits kind scheme name host p hname hhost hp)
  refine ⟨u, hu, hscheme, hhost?, ?_⟩
  rw [Url.effectivePort?, hport, hscheme]
  split_ifs with hdefault
  · exact hdefault
  · rfl

/-- What stands behind a slash is no port. -/
theorem readAuthority_slash (hname : IsBareHost name) (hhost : hostIn kind name = .ok host) :
    ∃ u, readAuthority kind scheme (name ++ '/' :: r) = .ok u ∧
      u.scheme = scheme ∧ u.host? = some host ∧ u.port? = none := by
  refine exists_readAuthority (readUserInfo_append hname fun c hc => ?_)
    (readHostAndPort_slash hname hhost)
  simp [endsAuthority, SchemeKind.isSlash] at hc

/-- URLs of files have no port. -/
theorem port?_readFile {s : List Char} {u : Url} (h : readFile scheme s = .ok u) : u.port? = none := by
  unfold readFile at h
  dsimp only at h
  split at h
  · split at h
    · split at h
      · cases h
        rfl
      · split at h
        · cases h
          rfl
        · obtain ⟨host, -, h⟩ := bind_eq_ok.1 h
          cases h
          rfl
    · cases h
      rfl
  · cases h
    rfl

/-! ## URLs -/

/-- A scheme as it may be written. -/
def IsScheme (scheme : List Char) : Prop :=
  scheme.head?.map isLetter = some true ∧ ∀ c ∈ scheme, isSchemeCharacter c = true

instance : DecidablePred IsScheme := fun scheme =>
  @instDecidableAnd _ _ _ (List.decidableBAll (fun c => isSchemeCharacter c = true) scheme)

theorem lt_of_isSchemeCharacter {c : Char} (h : isSchemeCharacter c = true) : ' ' < c := by
  simp only [isSchemeCharacter, isLetter, Bool.or_eq_true, Bool.and_eq_true, decide_eq_true_eq,
    beq_iff_eq] at h
  rcases h with ((((h | h) | h) | rfl) | rfl) | rfl
  · exact lt_of_lt_of_le (show ' ' < _ by decide) h.1
  · exact lt_of_lt_of_le (show ' ' < _ by decide) h.1
  · exact lt_of_lt_of_le (show ' ' < _ by decide) h.1
  all_goals decide

theorem lt_of_mem_toDigits {c : Char} (h : c ∈ Nat.toDigits 10 p) : ' ' < c := by
  have hdigit := Nat.isDigit_of_mem_toDigits (by decide) (by decide) h
  simp only [Char.isDigit, Bool.and_eq_true, decide_eq_true_eq] at hdigit
  exact lt_of_lt_of_le (show ' ' < '0' by decide) hdigit.1

theorem readScheme?_append (h : IsScheme scheme) (r : List Char) :
    readScheme? (scheme ++ ':' :: r) = some (scheme.map Char.toLower, r) := by
  have htake : (scheme ++ ':' :: r).takeWhile isSchemeCharacter = scheme := by
    rw [List.takeWhile_append_of_pos h.2]
    simp [isSchemeCharacter, isLetter]
  have hdrop : (scheme ++ ':' :: r).dropWhile isSchemeCharacter = ':' :: r := by
    rw [List.dropWhile_append_of_pos h.2]
    simp [isSchemeCharacter, isLetter]
  simp only [readScheme?, htake, hdrop, h.1, if_true]

/-- A URL is read from its authority on, by the rules of its scheme. -/
theorem UrlText.parse_authority (h : IsScheme scheme) (hr : ∀ c ∈ r, ' ' < c) :
    UrlText.parse (String.ofList (scheme ++ ':' :: '/' :: '/' :: r)) =
      match SchemeKind.ofScheme (scheme.map Char.toLower) with
      | .file => .hierarchical <$> readFile (scheme.map Char.toLower) ('/' :: '/' :: r)
      | .web => .hierarchical <$>
        readAuthority .web (scheme.map Char.toLower) (r.dropWhile (SchemeKind.isSlash .web))
      | .other => .hierarchical <$> readAuthority .other (scheme.map Char.toLower) r := by
  have hvisible : ∀ c ∈ scheme ++ ':' :: '/' :: '/' :: r, ' ' < c := by
    intro c hc
    simp only [List.mem_append, List.mem_cons] at hc
    rcases hc with hc | rfl | rfl | rfl | hc
    · exact lt_of_isSchemeCharacter (h.2 c hc)
    · decide
    · decide
    · decide
    · exact hr c hc
  have htrim : trimWhile (· ≤ ' ') (scheme ++ ':' :: '/' :: '/' :: r)
      = scheme ++ ':' :: '/' :: '/' :: r :=
    trimWhile_eq_self fun c hc => by simpa using hvisible c hc
  have hfilter : (scheme ++ ':' :: '/' :: '/' :: r).filter
      (fun c => !(c == '\t' || c == '\n' || c == '\r')) = scheme ++ ':' :: '/' :: '/' :: r := by
    refine List.filter_eq_self.2 fun c hc => ?_
    have hne : ∀ d, d ≤ ' ' → c ≠ d := fun d hd => (lt_of_le_of_lt hd (hvisible c hc)).ne'
    simp [hne '\t' (by decide), hne '\n' (by decide), hne '\r' (by decide)]
  simp only [UrlText.parse, String.toList_ofList, htrim, hfilter, readScheme?_append h]
  cases SchemeKind.ofScheme (scheme.map Char.toLower) <;> rfl

theorem UrlText.parse_name (h : IsScheme scheme)
    (hfile : SchemeKind.ofScheme (scheme.map Char.toLower) ≠ .file) (hname : IsBareHost name)
    (hr : ∀ c ∈ r, ' ' < c) :
    UrlText.parse (String.ofList (scheme ++ ':' :: '/' :: '/' :: (name ++ r))) = .hierarchical <$>
      readAuthority (.ofScheme (scheme.map Char.toLower)) (scheme.map Char.toLower) (name ++ r) := by
  have hvisible : ∀ c ∈ name ++ r, ' ' < c := fun c hc => by
    rcases List.mem_append.1 hc with hc | hc
    · exact lt_of_isBareChar (hname.2 c hc)
    · exact hr c hc
  have hslash : (name ++ r).dropWhile (SchemeKind.isSlash .web) = name ++ r := by
    obtain ⟨c, t, rfl⟩ := List.exists_cons_of_ne_nil hname.1
    have hc := @endsAuthority_of_isBareChar .web c (hname.2 c (List.mem_cons_self ..))
    simp only [endsAuthority, Bool.or_eq_false_iff] at hc
    rw [List.cons_append, List.dropWhile_cons, hc.1.1]
    rfl
  rw [parse_authority h hvisible, hslash]
  cases hkind : SchemeKind.ofScheme (scheme.map Char.toLower) with
  | file => exact absurd hkind hfile
  | web => rfl
  | other => rfl

theorem defaultPort?_of_file (h : SchemeKind.ofScheme scheme = .file) :
    defaultPort? scheme = none := by
  unfold SchemeKind.ofScheme at h
  split_ifs at h with hfile
  rw [hfile]
  rfl

/-- URLs of files lead to no port. -/
theorem UrlText.effectivePort?_of_file {u : Url} (h : IsScheme scheme)
    (hfile : SchemeKind.ofScheme (scheme.map Char.toLower) = .file) (hr : ∀ c ∈ r, ' ' < c)
    (hu : UrlText.parse (String.ofList (scheme ++ ':' :: '/' :: '/' :: r)) = .ok (.hierarchical u)) :
    u.effectivePort? = none := by
  rw [parse_authority h hr, hfile] at hu
  obtain ⟨v, hv, heq⟩ := map_eq_ok.1 hu
  cases heq
  rw [Url.effectivePort?, port?_readFile hv, (isSettled_readFile hv).1, defaultPort?_of_file hfile]
  rfl

end ConnectorCatalog
