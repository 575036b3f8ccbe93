import ConnectorCatalog.Proofs.Asking
import ConnectorCatalog.Proofs.Url.Form
import ConnectorCatalog.Proofs.Url.Parsed
import Mathlib.Tactic.ByContra

/-!
# What the registry is asked for

A client asks at URLs below the registry's, and what it asks for is read back from these. A qualified
name and the name of a package stand in the query, whatever characters they hold (`query_read_back`).
An identifier stands in the path, and is read back exactly if it stays whole there (`byId_asks`): a
dot is asked for where all connectors are listed, and tabs and line breaks are lost
(`dot_asks_for_listing`).
-/

namespace ConnectorCatalog

theorem withoutSlashes_append {text : String} (h : text.toList.getLast? ≠ some '/') (slashes : Nat) :
    withoutSlashes (text ++ String.ofList (List.replicate slashes '/')) = text := by
  have hkept : text.toList.reverse.dropWhile (· == '/') = text.toList.reverse := by
    rw [List.getLast?_eq_head?_reverse] at h
    cases hreverse : text.toList.reverse with
    | nil => rfl
    | cons c t =>
      rw [hreverse] at h
      exact List.dropWhile_cons_of_neg (by simpa using h)
  rw [withoutSlashes, dropEndWhile, String.toList_append, String.toList_ofList,
    List.reverse_append, List.reverse_replicate, List.dropWhile_append_of_pos (by simp), hkept,
    List.reverse_reverse, String.ofList_toList]

/-- A question asks at a URL: the request for that, without the login it may hold, is what it sends
if it can be sent, and it sends nothing else. -/
def AsksAt {α : Type} (question : Exchange (Except RegistryError α)) (url : Url) : Prop :=
  ∀ n : Network, ∃ requests, (question n).2.sent = n.sent ++ requests ∧
    requests.map WebRequest.url
      = if url.withoutLogin.1.isRequestable && n.isUp then [url.withoutLogin.1] else []

namespace Registry

variable {r : Registry} {u : Url}

theorem asksAt_get {α : Type} (r : Registry) (caller : Caller) (url : Url) (what : String)
    (read : List UInt8 → Option α) : AsksAt (r.get caller (.ok url) what read) url := by
  intro n
  unfold get
  dsimp only
  cases hurl : url.withoutLogin.1.isRequestable with
  | false => exact ⟨[], (List.append_nil _).symm, rfl⟩
  | true =>
    simp only [Bool.not_true, Bool.false_eq_true, if_false, Bool.true_and, Exchange.bind_apply]
    generalize hrequest : (⟨_, _, _⟩ : WebRequest) = request
    have hsent := Network.sent_send request n
    generalize Network.send request n = result at hsent ⊢
    obtain ⟨answer, after⟩ := result
    refine ⟨if n.isUp then [request] else [], ?_, ?_⟩
    · cases answer <;> exact hsent
    · subst hrequest
      cases n.isUp <;> rfl

theorem baseUrl_of_create {baseUrl : String} {proxy : Proxy} {token : Option String}
    (h : create baseUrl proxy token = .ok r) : r.baseUrl = withoutSlashes baseUrl := by
  rw [create] at h
  dsimp only at h
  split at h
  · cases h
    rfl
  · split at h
    · cases h
    · cases h
      rfl

/-- The client was set up with the text of a URL that has neither query nor fragment, with any
number of slashes behind it. -/
structure IsAt (r : Registry) (u : Url) : Prop where
  query : u.query = none
  fragment : u.fragment = none
  created : ∃ (text : String) (slashes : Nat) (proxy : Proxy) (token : Option String),
    UrlText.parse text = .ok (.hierarchical u) ∧ text.toList.getLast? ≠ some '/' ∧
      create (text ++ String.ofList (List.replicate slashes '/')) proxy token = .ok r

theorem IsAt.parse (h : r.IsAt u) : UrlText.parse r.baseUrl = .ok (.hierarchical u) := by
  obtain ⟨text, slashes, proxy, token, htext, hends, hcreate⟩ := h.created
  rw [baseUrl_of_create hcreate, withoutSlashes_append hends, htext]

theorem IsAt.url_eq (h : r.IsAt u) (segments : List String) (pairs : List (String × String)) :
    r.url segments pairs = .ok ((u.withSegments (segments.map String.toList)).withPairs pairs) := by
  rw [url, h.parse]

end Registry

namespace Url

variable {u : Url}

theorem path_withPairs (u : Url) (pairs : List (String × String)) :
    (u.withPairs pairs).path = u.path := by
  rw [withPairs]
  split <;> rfl

theorem query_withPairs (u : Url) {pairs : List (String × String)} (h : pairs ≠ []) :
    (u.withPairs pairs).query = some (Form.append (u.query.getD []) pairs) := by
  rw [withPairs, if_neg (by simpa using h)]

theorem LeadsBelow.withPairs {v : Url} {names : List (List Char)} (h : u.LeadsBelow v names)
    (pairs : List (String × String)) : u.LeadsBelow (v.withPairs pairs) names := by
  rw [Url.withPairs]
  split
  · exact h
  · exact ⟨h.scheme, h.authority, h.fragment, h.segments⟩

end Url

namespace Registry

open Url

variable {r : Registry} {u : Url}

theorem segmentText_connectors (kind : SchemeKind) :
    segmentText kind connectorsSegment.toList = connectorsSegment.toList := by
  cases kind <;> decide

theorem staysWhole_connectors : StaysWhole connectorsSegment.toList := by decide

/-- The path of a question about segments that stay whole. -/
theorem IsAt.path_eq (h : r.IsAt u) {segments : List String}
    (hwhole : ∀ s ∈ segments, StaysWhole s.toList) :
    (u.withSegments ((connectorsSegment :: segments).map String.toList)).path
      = below (trunk (popIfEmpty u.path)) (connectorsSegment.toList ::
          segments.map fun s => segmentText (.ofScheme u.scheme) s.toList) := by
  have hfirst := segmentText_connectors (.ofScheme u.scheme)
  rw [List.map_cons, path_withSegments u (isSettled_parse h.parse) (by
    simpa using ⟨staysWhole_connectors, hwhole⟩) (by rw [hfirst]; decide) (by rw [hfirst]; decide),
    List.map_cons, hfirst, List.map_map]
  rfl

/-- A question about segments that stay whole leads below the registry's URL. -/
theorem IsAt.leadsBelow (h : r.IsAt u) {segments : List String}
    (hwhole : ∀ s ∈ segments, StaysWhole s.toList) (pairs : List (String × String)) :
    u.LeadsBelow
      ((u.withSegments ((connectorsSegment :: segments).map String.toList)).withPairs pairs)
      (connectorsSegment.toList ::
        segments.map fun s => segmentText (.ofScheme u.scheme) s.toList) := by
  refine (leadsBelow_withSegments (isSettled_parse h.parse) ?_ (h.path_eq hwhole)).withPairs pairs
  intro name hname
  rcases List.mem_cons.1 hname with rfl | hname
  · rw [← segmentText_connectors .other]
    exact fun c hc => ne_slash_of_mem_segmentText hc
  · obtain ⟨s, -, rfl⟩ := List.mem_map.1 hname
    exact fun c hc => ne_slash_of_mem_segmentText hc

/-- The URL that an identifier is asked for at. -/
def idUrl (u : Url) (id : String) : Url := u.withSegments [connectorsSegment.toList, id.toList]

/-- An identifier is read back from below the registry's URL exactly if it stays whole. -/
theorem IsAt.leadsBelow_id_iff (h : r.IsAt u) (id : String) :
    (∃ segment, u.LeadsBelow (idUrl u id) [connectorsSegment.toList, segment] ∧
      Percent.decode segment = utf8 id) ↔ StaysWhole id.toList := by
  constructor
  · rintro ⟨segment, hbelow, hread⟩
    by_contra hwhole
    have hfirst := segmentText_connectors (.ofScheme u.scheme)
    have hpop := isSettled_popIfEmpty (isSettled_parse h.parse)
    have hpush : pushSegment (.ofScheme u.scheme) (popIfEmpty u.path) connectorsSegment.toList
        = trunk (popIfEmpty u.path)
          ++ '/' :: segmentText (.ofScheme u.scheme) connectorsSegment.toList :=
      pushSegment_of_staysWhole hpop staysWhole_connectors fun _ => by rw [hfirst]; decide
    obtain ⟨before, last, hlast, hother⟩ := exists_last_of_not_staysWhole (isSettled_trunk hpop)
      (trunk_ne _) staysWhole_connectors (by rw [hfirst]; decide) (by rw [hfirst]; decide) hwhole
    obtain ⟨front, slashes, -, hsegments⟩ := hbelow.segments
    rw [← hpush] at hlast
    change segmentsOf (idUrl u id).path = _ at hlast
    rw [← segments_eq, hsegments] at hlast
    have hlast : front ++ [connectorsSegment.toList] ++ [segment] = before ++ [last] := by
      rw [← hlast, List.append_assoc]
      rfl
    rw [← List.singleton_inj.1 (List.append_inj' hlast rfl).2, hread, utf8_eq_bytesOf] at hother
    exact hother rfl
  · intro hwhole
    refine ⟨_, h.leadsBelow (show ∀ s ∈ [id], StaysWhole s.toList by simpa using hwhole) [], ?_⟩
    rw [decode_segmentText, utf8_eq_bytesOf]

/-- Identifiers that stay whole are asked for at paths of their own. -/
theorem IsAt.id_inj (h : r.IsAt u) {id id' : String} (hid : StaysWhole id.toList)
    (hid' : StaysWhole id'.toList) (hpath : (idUrl u id).path = (idUrl u id').path) : id = id' := by
  have hbelow := h.path_eq (show ∀ s ∈ [id], StaysWhole s.toList by simpa using hid)
  have hbelow' := h.path_eq (show ∀ s ∈ [id'], StaysWhole s.toList by simpa using hid')
  have hpath := hbelow.symm.trans (hpath.trans hbelow')
  simp only [below, List.map_cons, List.map_nil, List.append_cancel_left_eq, List.flatMap_cons,
    List.flatMap_nil, List.append_nil, List.cons.injEq, true_and] at hpath
  have hread := congrArg Percent.decode hpath
  rw [decode_segmentText, decode_segmentText] at hread
  exact String.toList_inj.1 (bytesOf_injective hread)

/-- No identifier that stays whole is asked for at the path of the listing. -/
theorem IsAt.id_ne_listing (h : r.IsAt u) {id : String} (hid : StaysWhole id.toList) :
    (u.withSegments [connectorsSegment.toList]).path ≠ (idUrl u id).path := by
  intro hpath
  have hbelow := h.path_eq (show ∀ s ∈ [id], StaysWhole s.toList by simpa using hid)
  have hlisting := h.path_eq (show ∀ s ∈ ([] : List String), StaysWhole s.toList from nofun)
  have hpath := hlisting.symm.trans (hpath.trans hbelow)
  simp [below] at hpath

/-- A client asks for an identifier at one URL, which has neither query nor fragment. The identifier
is read back from there, from one segment below the registry's connectors, exactly if it stays whole.
Then no other identifier that stays whole is asked for there, and the connectors are not listed there.
-/
theorem byId_asks (h : r.IsAt u) (id : String) :
    ∃ url, r.url [connectorsSegment, id] [] = .ok url ∧ url.query = none ∧ url.fragment = none ∧
      (∀ caller, AsksAt (r.byId caller id) url) ∧
      ((∃ segment, u.LeadsBelow url [connectorsSegment.toList, segment] ∧
        Percent.decode segment = utf8 id) ↔ StaysWhole id.toList) ∧
      (StaysWhole id.toList →
        (∀ id' url', StaysWhole id'.toList → r.url [connectorsSegment, id'] [] = .ok url' →
          url'.path = url.path → id' = id) ∧
        ∀ pairs url', r.url [connectorsSegment] pairs = .ok url' → url'.path ≠ url.path) := by
  have hurl (id : String) : r.url [connectorsSegment, id] [] = .ok (idUrl u id) := h.url_eq _ _
  refine ⟨idUrl u id, hurl id, h.query, h.fragment, fun caller => ?_, h.leadsBelow_id_iff id,
    fun hid => ⟨fun id' url' hid' hurl' hpath => ?_, fun pairs url' hurl' => ?_⟩⟩
  · rw [byId, hurl]
    exact asksAt_get r caller _ id bodyValue?
  · rw [hurl, Except.ok.injEq] at hurl'
    subst hurl'
    exact h.id_inj hid' hid hpath
  · rw [h.url_eq, Except.ok.injEq] at hurl'
    subst hurl'
    rw [path_withPairs]
    exact h.id_ne_listing hid

/-- The URL of a registry below a path. -/
def someUrl : Url :=
  ⟨"http".toList, some ⟨[], [], some (.domain "registry.test".toList), none⟩, false, "/api".toList,
    none, none⟩

/-- A client of that registry, set up with two slashes behind the URL. -/
def someClient : Registry := ⟨"http://registry.test/api", none, none, none⟩

theorem isAt_someUrl : someClient.IsAt someUrl where
  query := rfl
  fragment := rfl
  created := ⟨"http://registry.test/api", 2, Proxy.none, none, by decide +kernel, by decide, rfl⟩

/-- An identifier with delimiters and a percent sign. -/
theorem byId_asks_delimiters :
    let id := "a/b?c%2e#"
    someClient.IsAt someUrl ∧ StaysWhole id.toList ∧
      (someClient.url [connectorsSegment, id] []).map Url.text
        = .ok "http://registry.test/api/connectors/a%2Fb%3Fc%252e%23".toList ∧
      ∃ url, someClient.url [connectorsSegment, id] [] = .ok url ∧
        ∃ segment, someUrl.LeadsBelow url [connectorsSegment.toList, segment] ∧
          Percent.decode segment = utf8 id := by
  intro id
  have hwhole : StaysWhole id.toList := by decide
  obtain ⟨url, hurl, -, -, -, hread, -⟩ := byId_asks isAt_someUrl id
  refine ⟨isAt_someUrl, hwhole, ?_, url, hurl, hread.2 hwhole⟩
  rw [isAt_someUrl.url_eq]
  decide +kernel

/-- A dot is asked for at the URL at which all connectors are listed, and a tab makes no difference.
Neither identifier is read back. -/
theorem dot_asks_for_listing :
    someClient.IsAt someUrl ∧
      someClient.url [connectorsSegment, "."] [] = someClient.url [connectorsSegment] [] ∧
      someClient.url [connectorsSegment, "a\tb"] [] = someClient.url [connectorsSegment, "ab"] [] ∧
      ∀ id ∈ [".", "a\tb"], ∀ url, someClient.url [connectorsSegment, id] [] = .ok url →
        ¬ ∃ segment, someUrl.LeadsBelow url [connectorsSegment.toList, segment] ∧
          Percent.decode segment = utf8 id := by
  refine ⟨isAt_someUrl, ?_, ?_, fun id hid url hurl hread => ?_⟩
  · rw [isAt_someUrl.url_eq, isAt_someUrl.url_eq]
    rfl
  · rw [isAt_someUrl.url_eq, isAt_someUrl.url_eq]
    rfl
  have hwhole : ∀ id ∈ [".", "a\tb"], ¬ StaysWhole id.toList := by decide
  rw [isAt_someUrl.url_eq, Except.ok.injEq] at hurl
  subst hurl
  exact hwhole id hid ((isAt_someUrl.leadsBelow_id_iff id).1 hread)

/-- A name is asked for at one URL below the registry's, the query of which holds the parts of the
name, whatever characters these have. The connectors of a package are listed at a URL with the package
alone in its query, and those of all packages at one without a query. -/
theorem query_read_back (h : r.IsAt u) (caller : Caller) :
    (∀ q : QualifiedName, ∃ url query, r.url [connectorsSegment, "info"] (namePairs q) = .ok url ∧
      AsksAt (r.byName caller q) url ∧
      u.LeadsBelow url [connectorsSegment.toList, "info".toList] ∧ url.query = some query ∧
      Form.decodePairs query = [(utf8 "org", utf8 q.organization), (utf8 "package", utf8 q.package),
        (utf8 "module", utf8 q.module), (utf8 "version", utf8 q.version),
        (utf8 "connector", utf8 q.name)]) ∧
    ∀ package : String, ∃ url,
      r.url [connectorsSegment] (if package.isEmpty then [] else [("package", package)]) = .ok url ∧
      AsksAt (r.search caller package) url ∧ u.LeadsBelow url [connectorsSegment.toList] ∧
      (package = "" → url.query = none) ∧
      (package ≠ "" → ∃ query, url.query = some query ∧
        Form.decodePairs query = [(utf8 "package", utf8 package)]) := by
  have hquery (segments : List (List Char)) {pairs : List (String × String)} (hne : pairs ≠ []) :
      ((u.withSegments segments).withPairs pairs).query = some (Form.append [] pairs) := by
    rw [query_withPairs _ hne]
    change some (Form.append (u.query.getD []) pairs) = _
    rw [h.query]
    rfl
  refine ⟨fun q => ?_, fun package => ?_⟩
  · have hinfo : ∀ s ∈ ["info"], StaysWhole s.toList := by decide
    have hbelow := h.leadsBelow hinfo (namePairs q)
    have htext : segmentText (.ofScheme u.scheme) "info".toList = "info".toList := by
      cases SchemeKind.ofScheme u.scheme <;> decide
    rw [List.map_singleton, htext] at hbelow
    refine ⟨_, _, h.url_eq _ _, ?_, hbelow, hquery _ (List.cons_ne_nil _ _),
      Form.decodePairs_append [] _⟩
    rw [byName, h.url_eq]
    exact asksAt_get r caller _ _ bodyValue?
  · have hbelow (pairs : List (String × String)) :=
      h.leadsBelow (show ∀ s ∈ ([] : List String), StaysWhole s.toList from nofun) pairs
    refine ⟨_, h.url_eq _ _, ?_, hbelow _, fun hopen => ?_, fun hnamed => ?_⟩
    · rw [search, h.url_eq]
      exact asksAt_get r caller _ _ _
    · rw [hopen]
      exact h.query
    · rw [if_neg (by simpa using hnamed)]
      exact ⟨_, hquery _ (List.cons_ne_nil _ _), Form.decodePairs_append [] _⟩

/-- A name with delimiters, a percent sign, a space and a letter outside ASCII, a package with
delimiters, and no package. -/
theorem query_read_back_delimiters :
    let q : QualifiedName := ⟨"a&org=b", "c#d", "e+f g", "100%26", "\u00e9"⟩
    someClient.IsAt someUrl ∧
      (someClient.url [connectorsSegment, "info"] (namePairs q)).map Url.text
        = .ok ("http://registry.test/api/connectors/info?org=a%26org%3Db&package=c%23d"
            ++ "&module=e%2Bf+g&version=100%2526&connector=%C3%A9").toList ∧
      (∃ url query, someClient.url [connectorsSegment, "info"] (namePairs q) = .ok url ∧
        url.query = some query ∧
        Form.decodePairs query = [(utf8 "org", utf8 "a&org=b"), (utf8 "package", utf8 "c#d"),
          (utf8 "module", utf8 "e+f g"), (utf8 "version", utf8 "100%26"),
          (utf8 "connector", utf8 "\u00e9")]) ∧
      (someClient.url [connectorsSegment] [("package", "c#d&e")]).map Url.text
        = .ok "http://registry.test/api/connectors?package=c%23d%26e".toList ∧
      (∃ url query, someClient.url [connectorsSegment] [("package", "c#d&e")] = .ok url ∧
        url.query = some query ∧ Form.decodePairs query = [(utf8 "package", utf8 "c#d&e")]) ∧
      ∃ url, someClient.url [connectorsSegment] [] = .ok url ∧ url.query = none := by
  intro q
  obtain ⟨hname, hlisting⟩ := query_read_back isAt_someUrl ⟨"", ""⟩
  obtain ⟨url, query, hurl, -, -, hquery, hread⟩ := hname q
  obtain ⟨url', hurl', -, -, -, hnamed⟩ := hlisting "c#d&e"
  obtain ⟨query', hquery', hread'⟩ := hnamed (by decide)
  obtain ⟨all, hall, -, -, hnone, -⟩ := hlisting ""
  refine ⟨isAt_someUrl, ?_, ⟨url, query, hurl, hquery, hread⟩, ?_,
    ⟨url', query', hurl', hquery', hread'⟩, all, hall, hnone rfl⟩
  · rw [isAt_someUrl.url_eq]
    decide +kernel
  · rw [isAt_someUrl.url_eq]
    decide +kernel

end Registry

end ConnectorCatalog
