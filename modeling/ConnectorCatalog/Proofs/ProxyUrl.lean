import ConnectorCatalog.Proofs.Offset.Extract
import ConnectorCatalog.Proofs.Toml.Written
import ConnectorCatalog.Proofs.Url.HostName

/-!
# The URL of the proxy

The port of the settings is written behind the host. So the URL leads to the host and the port that are
set, unless the host is a URL that ends in a slash, behind which there is no port, or one of files,
which have none (`leadsTo_iff`).
-/

namespace ConnectorCatalog

/-- How a host is set: by its name, or by a URL of a scheme and the name. -/
inductive HostSetting
  | bare (name : List Char)
  | url (scheme name : List Char) (closed : Bool)
deriving DecidableEq, Repr

namespace HostSetting

/-- The name of the host. -/
def name : HostSetting → List Char
  | bare name => name
  | url _ name _ => name

/-- The scheme as it is written. -/
def scheme : HostSetting → List Char
  | bare _ => "http".toList
  | url scheme _ _ => scheme

/-- The setting ends in a slash. -/
def isClosed : HostSetting → Bool
  | bare _ => false
  | url _ _ closed => closed

variable (h : HostSetting)

/-- What the setting ends in. -/
def closing : List Char := if h.isClosed then ['/'] else []

/-- The setting as text. -/
def text : List Char :=
  match h with
  | bare name => name
  | url scheme name _ => scheme ++ ':' :: '/' :: '/' :: (name ++ h.closing)

/-- The scheme in small letters. -/
def urlScheme : List Char := h.scheme.map Char.toLower

/-- The family of the scheme. -/
def kind : SchemeKind := .ofScheme h.urlScheme

/-- The setting is the name of a host, or a URL with it. -/
structure Names (host : Host) : Prop where
  scheme : IsScheme h.scheme
  bare : IsBareHost h.name
  host : hostIn h.kind h.name = .ok host

/-- A port that is written behind the setting is the one that the URL leads to. -/
def TakesPort (p : Nat) : Prop :=
  h.kind ≠ .file ∧ (h.isClosed = false ∨ defaultPort? h.urlScheme = some p)

instance : DecidablePred h.TakesPort := fun p => inferInstanceAs
  (Decidable (h.kind ≠ .file ∧ (h.isClosed = false ∨ defaultPort? h.urlScheme = some p)))

variable {h}

theorem takesPort_bare (name : List Char) (p : Nat) : (bare name).TakesPort p :=
  ⟨nofun, .inl rfl⟩

theorem names_domain (hscheme : IsScheme h.scheme) (hname : IsPlainName h.name)
    (haddress : Ipv4.isMeant (h.name.map Char.toLower) = false) :
    h.Names (.domain (if h.kind = .other then h.name else h.name.map Char.toLower)) :=
  ⟨hscheme, hname.isBareHost, hostIn_domain hname haddress⟩

theorem names_address {a : Ipv4} (hscheme : IsScheme h.scheme) (hname : h.name = a.text)
    (ha : a.value < UInt32.size) : h.Names (if h.kind = .other then .domain a.text else .ipv4 a) :=
  ⟨hscheme, hname ▸ a.isPlainName_text.isBareHost, by rw [hname, hostIn_address ha]⟩

end HostSetting

variable {h : HostSetting} {host : Host} {p : Nat}

section Phrase

variable {phrase t : List Char}

theorem isSome_cutAround (front back : List Char) :
    (cutAround phrase (front ++ (phrase ++ back))).isSome = true := by
  induction front with
  | nil =>
    cases phrase with
    | nil => cases back <;> rfl
    | cons c phrase =>
      rw [List.nil_append, List.cons_append, cutAround, ← List.cons_append,
        List.isPrefixOf?_eq_some_iff_append_eq.2 rfl]
      rfl
  | cons c front ih =>
    rw [List.cons_append, cutAround]
    split
    · rfl
    · rw [Option.isSome_map, ih]

theorem cutAround_of_not_mem {c : Char} (hc : c ∈ phrase) (ht : c ∉ t) :
    cutAround phrase t = none := by
  rcases hcut : cutAround phrase t with _ | ⟨a, b⟩
  · rfl
  · rw [cutAround_eq_some hcut] at ht
    exact absurd (List.mem_append_left b (List.mem_append_right a hc)) ht

end Phrase

namespace HostSetting

/-- The setting behind a scheme: its own, or that of the web. -/
def urlText (h : HostSetting) : List Char := h.scheme ++ ':' :: '/' :: '/' :: (h.name ++ h.closing)

theorem text_ne_nil (hname : IsBareHost h.name) : h.text ≠ [] := by
  cases h with
  | bare name => exact hname.1
  | url scheme name closed => simp [text]

/-- A setting without a scheme is told from one with a scheme. -/
theorem urlText_eq (hname : IsBareHost h.name) :
    (if (cutAround "://".toList h.text).isSome then String.ofList h.text
      else "http://" ++ String.ofList h.text) = String.ofList h.urlText := by
  cases h with
  | bare name =>
    have hcolon : ':' ∉ name := fun hc => absurd (hname.2 _ hc) (by decide)
    have hcut : cutAround "://".toList (bare name).text = none :=
      cutAround_of_not_mem (by decide : ':' ∈ "://".toList) hcolon
    rw [hcut, if_neg (by decide), ← String.toList_inj]
    simp [text, urlText, scheme, HostSetting.name, closing, isClosed]
  | url scheme name closed =>
    have hcut : (cutAround "://".toList (url scheme name closed).text).isSome = true :=
      isSome_cutAround scheme _
    rw [hcut, if_pos rfl]
    rfl

end HostSetting

/-- The URL of the proxy is the setting, behind a scheme, and the port. -/
theorem url?_eq {proxy : Proxy} (hname : IsBareHost h.name)
    (hhost : proxy.host = String.ofList h.text) (hport : proxy.port ≠ 0) :
    proxy.url? = some (String.ofList (h.urlText ++ ':' :: Nat.toDigits 10 proxy.port.toNat)) := by
  have hempty : proxy.host.isEmpty ≠ true := by
    rw [hhost]
    simpa using h.text_ne_nil hname
  have htext := HostSetting.urlText_eq hname
  rw [Proxy.url?, if_neg hempty]
  simp only [hport, if_false, hhost, String.toList_ofList, htext]
  rw [Option.some_inj, ← String.toList_inj]
  simp

/-! ## Where the URL leads -/

theorem lt_of_mem_closing {c : Char} (hc : c ∈ h.closing ++ ':' :: Nat.toDigits 10 p) : ' ' < c := by
  rcases List.mem_append.1 hc with hc | hc
  · rw [HostSetting.closing] at hc
    split at hc
    · rw [List.mem_singleton.1 hc]
      decide
    · cases hc
  · rcases List.mem_cons.1 hc with rfl | hc
    · decide
    · exact lt_of_mem_toDigits hc

theorem urlText_append (h : HostSetting) (r : List Char) :
    h.urlText ++ r = h.scheme ++ ':' :: '/' :: '/' :: (h.name ++ (h.closing ++ r)) := by
  simp [HostSetting.urlText]

/-- The URL has the host that is set. Behind a slash the port is not read, and that of the scheme
counts. -/
theorem exists_url (hh : h.Names host) (hp : p < 65536) (hfile : h.kind ≠ .file) :
    ∃ u, UrlText.parse (String.ofList (h.urlText ++ ':' :: Nat.toDigits 10 p)) = .ok (.hierarchical u) ∧
      u.host? = some host ∧
      u.effectivePort? = if h.isClosed then defaultPort? h.urlScheme else some p := by
  have hparse := UrlText.parse_name hh.scheme hfile hh.bare fun _ =>
    lt_of_mem_closing (h := h) (p := p)
  rw [urlText_append, hparse]
  cases hclosed : h.isClosed with
  | false =>
    have hclosing : h.closing = [] := by rw [HostSetting.closing, hclosed]; rfl
    obtain ⟨u, hu, -, hhost, hport⟩ :=
      @readAuthority_port h.kind h.urlScheme h.name host p hh.bare hh.host hp
    refine ⟨u, ?_, hhost, hport⟩
    rw [hclosing]
    exact congrArg (UrlText.hierarchical <$> ·) hu
  | true =>
    have hclosing : h.closing = ['/'] := by rw [HostSetting.closing, hclosed]; rfl
    obtain ⟨u, hu, hscheme, hhost, hport⟩ :=
      @readAuthority_slash h.kind h.urlScheme h.name (':' :: Nat.toDigits 10 p) host hh.bare hh.host
    refine ⟨u, ?_, hhost, ?_⟩
    · rw [hclosing]
      exact congrArg (UrlText.hierarchical <$> ·) hu
    · rw [Url.effectivePort?, hport, hscheme]
      rfl

/-- A text leads to a host and a port: it is a URL that has that host and that port, written or not. -/
def LeadsTo (text : String) (host : Host) (p : Nat) : Prop :=
  ∃ u, UrlText.parse text = .ok (.hierarchical u) ∧ u.host? = some host ∧ u.effectivePort? = some p

theorem leadsTo_iff (hh : h.Names host) (hp : p < 65536) :
    LeadsTo (String.ofList (h.urlText ++ ':' :: Nat.toDigits 10 p)) host p ↔ h.TakesPort p := by
  rw [HostSetting.TakesPort]
  by_cases hfile : h.kind = .file
  · refine iff_of_false ?_ fun htakes => htakes.1 hfile
    rintro ⟨u, hu, -, hport⟩
    have hall : ∀ c ∈ h.name ++ (h.closing ++ ':' :: Nat.toDigits 10 p), ' ' < c := fun c hc =>
      (List.mem_append.1 hc).elim (fun hc => lt_of_isBareChar (hh.bare.2 c hc)) lt_of_mem_closing
    rw [urlText_append] at hu
    rw [UrlText.effectivePort?_of_file hh.scheme hfile hall hu] at hport
    cases hport
  · obtain ⟨u, hu, hhost, hport⟩ := exists_url hh hp hfile
    have hiff : LeadsTo (String.ofList (h.urlText ++ ':' :: Nat.toDigits 10 p)) host p ↔
        u.effectivePort? = some p := by
      refine ⟨?_, fun hp => ⟨u, hu, hhost, hp⟩⟩
      rintro ⟨v, hv, -, hp⟩
      rw [hu] at hv
      cases hv
      exact hp
    rw [hiff, hport, and_iff_right hfile]
    cases h.isClosed <;> simp

/-- A host and a port that are set in a text are those of its settings, and the URL of the proxy leads
to them exactly if the host takes a port: it does not end in a slash, but for the port of its scheme,
and it is no URL of files. -/
theorem Settings.proxy_leadsTo_iff {content : String} {d : Toml.Document}
    (hd : Toml.Document.parse content = .ok d) (hh : h.Names host)
    (hhost : d.get? "proxy" "host" = some (.string (String.ofList h.text)))
    (hport : d.get? "proxy" "port" = some (.integer p)) (hp : 0 < p) (hp' : p < 65536) :
    ∃ s url, Settings.parse content = .ok s ∧ s.proxy.url? = some url ∧
      (LeadsTo url host p ↔ h.TakesPort p) := by
  have htext : String.ofList h.text ≠ "" := by
    simpa [← String.toList_inj] using h.text_ne_nil hh.bare
  have hn : (UInt16.ofNat p).toNat = p := by simpa using hp'
  have hport' : (Settings.ofDocument d).proxy.port = UInt16.ofNat p :=
    port_ofDocument (hn.symm ▸ hport)
  have hne : (Settings.ofDocument d).proxy.port ≠ 0 := by
    rw [hport']
    rintro hzero
    rw [hzero] at hn
    exact absurd hn (Nat.ne_of_lt hp)
  have hurl := url?_eq hh.bare (host_ofDocument htext hhost) hne
  rw [hport', hn] at hurl
  exact ⟨_, _, by rw [Settings.parse, hd]; rfl, hurl, leadsTo_iff hh hp'⟩

/-- An address without a scheme. -/
theorem Settings.proxy_leadsTo_address :
    ∃ s url, Settings.parse "[proxy]\nhost = \"10.0.0.1\"\nport = 8080\n" = .ok s ∧
      s.proxy.url? = some url ∧ LeadsTo url (.ipv4 ⟨167772161⟩) 8080 := by
  let h : HostSetting := .bare "10.0.0.1".toList
  have hd : Toml.Document.parse "[proxy]\nhost = \"10.0.0.1\"\nport = 8080\n"
      = .ok ⟨[.table "proxy", .pair "host" (.string "10.0.0.1"), .pair "port" (.integer 8080)]⟩ := by
    decide +kernel
  have hh : h.Names (.ipv4 ⟨167772161⟩) :=
    HostSetting.names_address (a := ⟨167772161⟩) (by decide) (by decide) (by decide)
  obtain ⟨s, url, hs, hurl, hleads⟩ :=
    Settings.proxy_leadsTo_iff hd hh (p := 8080) (by decide) (by decide) (by decide) (by decide)
  exact ⟨s, url, hs, hurl, hleads.2 (HostSetting.takesPort_bare _ _)⟩

/-- Behind a slash the port is not read. -/
theorem Settings.slash_hides_port :
    ∃ s, Settings.parse "[proxy]\nhost = \"http://proxy.local/\"\nport = 8080\n" = .ok s ∧
      s.proxy = ⟨"http://proxy.local/", 8080, none, none⟩ ∧
      s.proxy.url? = some "http://proxy.local/:8080" ∧
      LeadsTo "http://proxy.local/:8080" (.domain "proxy.local".toList) 80 ∧
      ¬ LeadsTo "http://proxy.local/:8080" (.domain "proxy.local".toList) 8080 := by
  let h : HostSetting := .url "http".toList "proxy.local".toList true
  have hh : h.Names (.domain "proxy.local".toList) := ⟨by decide, by decide, by decide +kernel⟩
  have hnot := (leadsTo_iff hh (p := 8080) (by decide)).not.2 (by decide)
  refine ⟨⟨⟨"http://proxy.local/", 8080, none, none⟩, none⟩, by decide +kernel, rfl, by decide +kernel,
    ?_, hnot⟩
  obtain ⟨u, hu, hhost, hport⟩ := exists_url hh (p := 8080) (by decide) (by decide)
  exact ⟨u, hu, hhost, hport⟩

end ConnectorCatalog
