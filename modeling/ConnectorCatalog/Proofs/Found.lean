import ConnectorCatalog.Proofs.Listing
import ConnectorCatalog.Proofs.Lookup
import ConnectorCatalog.Proofs.Session.Answers

/-!
# What a look-up finds

In a project or a compiled package a look-up finds the description of a connector, which is an object.
From the registry it takes whatever a successful reply holds, as long as that is not null
(`lookup_object_or_offered`): a registry that replies with a number has its number found
(`lookup_finds_number`).
-/

namespace ConnectorCatalog

/-- Some successful answer among the replies to come holds a value. -/
def Network.Offers (n : Network) (j : Json) : Prop :=
  ∃ response, Reply.answered response ∈ n.replies ∧ isSuccess response.status = true ∧
    Registry.bodyValue? response.body = some j

theorem Network.Offers.mono {n n' : Network} {j : Json} (h : n'.Offers j)
    (hsub : n'.replies ⊆ n.replies) : n.Offers j := by
  obtain ⟨response, hmem, hrest⟩ := h
  exact ⟨response, hsub hmem, hrest⟩

/-- A request is answered with one of the replies to come, or not found. -/
theorem Network.send_cases (request : WebRequest) (n : Network) :
    (send request n).2.replies ⊆ n.replies ∧
      ∀ response, (send request n).1 = some response →
        response = nothingThere ∨ Reply.answered response ∈ n.replies := by
  obtain ⟨isUp, replies, sent⟩ := n
  rcases isUp with _ | _
  · simp [send]
  · rcases replies with _ | ⟨response | _, rest⟩ <;> simp [send, eq_comm]

namespace Registry

theorem of_interpret_eq_ok {url : Url} {what : String} {response : WebResponse} {j : Json}
    (h : interpret url what bodyValue? response = .ok j) :
    isSuccess response.status = true ∧ bodyValue? response.body = some j := by
  unfold interpret at h
  split_ifs at h with h404 hsuccess
  rcases hbody : bodyValue? response.body with _ | value <;> simp [hbody] at h
  simp at hsuccess
  exact ⟨hsuccess, by rw [h]⟩

/-- What the registry is heard to say of a connector is what a successful reply holds. -/
theorem get_offers (r : Registry) (caller : Caller) (url : Except RegistryError Url) (what : String)
    (n : Network) :
    (r.get caller url what bodyValue? n).2.replies ⊆ n.replies ∧
      ∀ j, (r.get caller url what bodyValue? n).1 = .ok j → n.Offers j := by
  unfold get
  rcases url with e | url
  · exact ⟨List.Subset.refl _, nofun⟩
  rcases hrequest : url.withoutLogin.1.isRequestable with _ | _
  · simp only [hrequest]
    exact ⟨List.Subset.refl _, nofun⟩
  simp only [hrequest, Bool.not_true, Bool.false_eq_true, if_false, Exchange.bind_apply]
  generalize (⟨_, _, _⟩ : WebRequest) = request
  obtain ⟨hsub, hmem⟩ := Network.send_cases request n
  rcases hsend : Network.send request n with ⟨_ | response, after⟩
  · rw [hsend] at hsub
    exact ⟨hsub, nofun⟩
  · rw [hsend] at hsub hmem
    refine ⟨hsub, fun j hj => ?_⟩
    obtain ⟨hsuccess, hbody⟩ := of_interpret_eq_ok hj
    rcases hmem response rfl with rfl | hmem
    · cases hsuccess
    · exact ⟨response, hmem, hsuccess, hbody⟩

end Registry

theorem isObject_of_connectorNamed? {name : String} {connectors : List Connector} {j : Json}
    (h : connectorNamed? name connectors = some j) : j.isObject = true := by
  obtain ⟨c, -, rfl⟩ := Option.map_eq_some_iff.1 h
  rfl

namespace Service

/-- What a way of looking may find: a value that the registry offers, or an object. -/
def MayFind (n : Network) (j : Json) : Strategy → Prop
  | .byId => j.isNull = false ∧ n.Offers j
  | .byQualifiedName => j.isNull = false ∧ n.Offers j
  | .byLocalFile => j.isObject = true
  | .byPackage => j.isObject = true

theorem MayFind.mono {n n' : Network} {j : Json} {strategy : Strategy} (h : MayFind n' j strategy)
    (hsub : n'.replies ⊆ n.replies) : MayFind n j strategy := by
  rcases strategy with _ | _ | _ | _
  · exact ⟨h.1, h.2.mono hsub⟩
  · exact ⟨h.1, h.2.mono hsub⟩
  · exact h
  · exact h

variable (s : Service) (around : Surroundings) (request : LookupRequest)

/-- A question about one connector brings nothing but what a reply holds. -/
theorem askRegistry_offers (segments : List String) (pairs : List (String × String)) (what : String)
    (n : Network) :
    let result := s.askRegistry around
      (fun r => r.get s.caller (r.url segments pairs) what Registry.bodyValue?) n
    result.2.replies ⊆ n.replies ∧ ∀ j, result.1.map Json.nonNull? = .ok (some j) →
      j.isNull = false ∧ n.Offers j := by
  dsimp only
  unfold askRegistry
  rcases hr : s.registry around with e | r
  · exact ⟨List.Subset.refl _, nofun⟩
  · obtain ⟨hsub, hoffers⟩ := r.get_offers s.caller (r.url segments pairs) what n
    simp only [Exchange.bind_apply]
    refine ⟨hsub, fun j hj => ?_⟩
    rcases hget : (r.get s.caller (r.url segments pairs) what Registry.bodyValue? n).1 with e | value
    · rw [hget] at hj
      cases hj
    · rw [hget] at hj
      have hj : Json.nonNull? value = some j := Except.ok.inj hj
      rw [Json.nonNull?] at hj
      split_ifs at hj with hnull
      cases hj
      exact ⟨by simpa using hnull, hoffers _ hget⟩

/-- A way of looking uses up replies and finds what it may. -/
theorem tryStrategy_mayFind (strategy : Strategy) (n : Network) :
    let result := s.tryStrategy around request strategy n
    result.2.replies ⊆ n.replies ∧ ∀ j, result.1 = .ok (some j) → MayFind n j strategy := by
  have hnamed : ∀ {found : Except ServiceError (List Connector)} {j : Json},
      found.map (connectorNamed? request.name) = .ok (some j) → j.isObject = true := by
    intro found j hj
    rcases found with e | connectors
    · cases hj
    · exact isObject_of_connectorNamed? (Except.ok.inj hj)
  rcases strategy with _ | _ | _ | _
  · exact s.askRegistry_offers around [Registry.connectorsSegment, request.connectorId.getD ""] [] _ n
  · exact s.askRegistry_offers around [Registry.connectorsSegment, "info"]
      (Registry.namePairs request.qualifiedName) _ n
  · exact ⟨List.Subset.refl _, fun j hj => hnamed hj⟩
  · exact ⟨List.Subset.refl _, fun j hj => hnamed hj⟩

/-- Ways of looking, one after the other, find what the one that resolves the look-up may find. -/
theorem lookupBy_mayFind : ∀ (xs : List Strategy) (n : Network) {j : Json},
    (s.lookupBy around request xs n).1.connector = some j →
    ∃ strategy, (s.lookupBy around request xs n).1.resolvedBy = some strategy ∧ MayFind n j strategy
  | [], _, _, h => by cases h
  | strategy :: rest, n, j, h => by
    rcases happlies : strategy.applies request with _ | _
    · rw [lookupBy_of_not_applies happlies] at h ⊢
      exact lookupBy_mayFind rest n h
    · obtain ⟨hsub, hfind⟩ := s.tryStrategy_mayFind around request strategy n
      rcases hrun : s.tryStrategy around request strategy n with ⟨cause | _ | connector, after⟩
      · rw [lookupBy_of_error happlies hrun] at h ⊢
        rw [hrun] at hsub
        obtain ⟨found, hfound, hmay⟩ := lookupBy_mayFind rest after h
        exact ⟨found, hfound, hmay.mono hsub⟩
      · rw [lookupBy_of_nothing happlies hrun] at h ⊢
        rw [hrun] at hsub
        obtain ⟨found, hfound, hmay⟩ := lookupBy_mayFind rest after h
        exact ⟨found, hfound, hmay.mono hsub⟩
      · rw [lookupBy_of_found happlies hrun] at h ⊢
        cases h
        exact ⟨strategy, rfl, hfind _ (by rw [hrun])⟩

/-- A look-up that finds something in a project or a compiled package finds an object. One that finds
something in the registry finds what some successful reply to come holds, and not null. So a client that
asks a running session is answered with null, an object or what such a reply holds. -/
theorem lookup_object_or_offered (n : Network) :
    let found := (s.lookup around request n).1
    (∀ j, found.connector = some j →
      ((found.resolvedBy = some .byLocalFile ∨ found.resolvedBy = some .byPackage) ∧
          j.isObject = true) ∨
        ((found.resolvedBy = some .byId ∨ found.resolvedBy = some .byQualifiedName) ∧
          j.isNull = false ∧ n.Offers j)) ∧
    ∀ (session : Session) (call : Rpc.Call) (id : Rpc.Id), session.phase = .running →
      session.service = s → call.method = lookupMethod → call.id = some id →
      Rpc.readParams LookupRequest.ofJson call.params = .ok request →
      ∃ value, (session.receive around (.call call) n).1.1
          = some ⟨some (.result id value), found.failures.map Session.errorMessage⟩ ∧
        (value.isNull = true ∨ value.isObject = true ∨ n.Offers value) := by
  intro found
  have hfound : ∀ j, found.connector = some j → ∃ strategy, found.resolvedBy = some strategy ∧
      MayFind n j strategy := fun j hj => s.lookupBy_mayFind around request Strategy.all n hj
  refine ⟨fun j hj => ?_, fun session call id hphase hservice hmethod hid hparams => ?_⟩
  · obtain ⟨_ | _ | _ | _, hresolved, hmay⟩ := hfound j hj
    · exact .inr ⟨.inl hresolved, hmay⟩
    · exact .inr ⟨.inr hresolved, hmay⟩
    · exact .inl ⟨.inl hresolved, hmay⟩
    · exact .inl ⟨.inr hresolved, hmay⟩
  · refine ⟨.ofOption found.connector, ?_, ?_⟩
    · rw [Session.receive_lookup_running hphase hmethod hid hparams, hservice]
    · rcases hconnector : found.connector with _ | j
      · exact .inl rfl
      · obtain ⟨_ | _ | _ | _, -, hmay⟩ := hfound j hconnector
        · exact .inr (.inr hmay.2)
        · exact .inr (.inr hmay.2)
        · exact .inr (.inl hmay)
        · exact .inr (.inl hmay)

/-- What comes of a look-up by identifier where there are no files and the registry replies once, with
a body. -/
def repliedTo (body : List UInt8) : Lookup :=
  (atHome.lookup ⟨.empty, []⟩ ⟨some "42", false, "", "", "", "", "Client", none⟩
    (.ofReplies [.answered ⟨200, body⟩])).1

/-- The body is an empty object. -/
theorem lookup_object_or_offered_empty_object :
    let n := Network.ofReplies [.answered ⟨200, [0x7b, 0x7d]⟩]
    let call : Rpc.Call := ⟨lookupMethod, some (.object [("connectorId", .string "42"),
      ("name", .string "Client")]), some (.number 2)⟩
    (repliedTo [0x7b, 0x7d]).connector = some (.object []) ∧ n.Offers (.object []) ∧
      ∃ value, (Session.receive ⟨.running, atHome, false⟩ ⟨.empty, []⟩ (.call call) n).1.1
          = some ⟨some (.result (.number 2) value), []⟩ ∧
        (value.isNull = true ∨ value.isObject = true ∨ n.Offers value) := by
  intro n call
  have hfound : (repliedTo [0x7b, 0x7d]).connector = some (.object []) := rfl
  have hresolved : (repliedTo [0x7b, 0x7d]).resolvedBy = some .byId := rfl
  obtain ⟨hoffered, hanswered⟩ := lookup_object_or_offered atHome ⟨.empty, []⟩
    ⟨some "42", false, "", "", "", "", "Client", none⟩ n
  refine ⟨hfound, ?_, hanswered ⟨.running, atHome, false⟩ call (.number 2) rfl rfl rfl rfl rfl⟩
  rcases hoffered _ hfound with ⟨h | h, -⟩ | ⟨-, -, h⟩
  · cases hresolved.symm.trans h
  · cases hresolved.symm.trans h
  · exact h

/-- The body is the number five, which is found as the connector. -/
theorem lookup_finds_number :
    (repliedTo [0x35]).connector = some (.ofNat 5) ∧
      (repliedTo [0x35]).resolvedBy = some .byId ∧
      ¬ ((repliedTo [0x35]).connector = none ∨
        ∃ j, (repliedTo [0x35]).connector = some j ∧ j.isObject = true) := by
  have hfound : (repliedTo [0x35]).connector = some (.ofNat 5) := rfl
  refine ⟨hfound, rfl, ?_⟩
  rintro (h | ⟨j, hj, hobject⟩)
  · rw [hfound] at h
    cases h
  · rw [hfound] at hj
    cases hj
    cases hobject

end Service

end ConnectorCatalog
