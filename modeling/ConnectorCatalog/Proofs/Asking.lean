import ConnectorCatalog.Service.Basic

/-!
# What a question sends

A question to the registry sends one request or none, and one only where the settings can be read,
the proxy and the registry's URL are valid and the URL asked for can be requested (`sent_askRegistry`).
-/

namespace ConnectorCatalog

theorem Exchange.bind_apply {α β : Type} (x : Exchange α) (f : α → Exchange β) (n : Network) :
    (x >>= f) n = f (x n).1 (x n).2 := rfl

theorem Network.sent_send (request : WebRequest) (n : Network) :
    (Network.send request n).2.sent = n.sent ++ if n.isUp then [request] else [] := by
  obtain ⟨isUp, replies, sent⟩ := n
  cases isUp
  · simp [Network.send]
  · rcases replies with _ | ⟨_ | _, rest⟩ <;> simp [Network.send]

/-- Asking at a URL sends the request for it or nothing. -/
theorem Registry.sent_get {α : Type} (r : Registry) (caller : Caller)
    (url : Except RegistryError Url) (what : String) (read : List UInt8 → Option α)
    (n : Network) :
    ∃ w : Option WebRequest, (r.get caller url what read n).2.sent = n.sent ++ w.toList ∧
      ∀ v ∈ w, ∃ u, url = .ok u ∧ u.withoutLogin.1.isRequestable = true ∧
        v.url = u.withoutLogin.1 ∧ v.headers = r.headers caller u.withoutLogin.2 := by
  unfold Registry.get
  split
  · exact ⟨none, (List.append_nil _).symm, nofun⟩
  · rename_i u
    cases hu : u.withoutLogin.1.isRequestable with
    | false =>
      simp only [hu]
      exact ⟨none, (List.append_nil _).symm, nofun⟩
    | true =>
      simp only [hu, Bool.not_true, Bool.false_eq_true, if_false, Exchange.bind_apply]
      generalize hw : (⟨_, _, _⟩ : WebRequest) = request
      refine ⟨if n.isUp then some request else none, ?_, fun v hv => ?_⟩
      · have hsent := Network.sent_send request n
        generalize Network.send request n = result at hsent ⊢
        obtain ⟨answer, after⟩ := result
        have hw : after.sent = n.sent ++ (if n.isUp then some request else none).toList := by
          rw [hsent]
          cases n.isUp <;> rfl
        cases answer <;> exact hw
      · cases hup : n.isUp <;> simp [hup] at hv
        subst hv hw
        exact ⟨u, rfl, hu, rfl, rfl⟩

namespace Service

/-- A request that asks for some segments below the registry's URL, with a query: the settings could
be read, the proxy and the URL are valid, and the URL can be requested. -/
def Asks (s : Service) (around : Surroundings) (segments : List String)
    (pairs : List (String × String)) (w : WebRequest) : Prop :=
  ∃ settings r u, around.files.loadSettings s.settingsPath = .ok settings ∧
    Registry.create s.registryUrl settings.proxy (settings.accessToken around.environment) = .ok r ∧
    r.url segments pairs = .ok u ∧ u.withoutLogin.1.isRequestable = true ∧
    w.url = u.withoutLogin.1 ∧ w.headers = r.headers s.caller u.withoutLogin.2

theorem registry_eq_ok {s : Service} {around : Surroundings} {r : Registry}
    (h : s.registry around = .ok r) :
    ∃ settings, around.files.loadSettings s.settingsPath = .ok settings ∧
      Registry.create s.registryUrl settings.proxy (settings.accessToken around.environment)
        = .ok r := by
  unfold registry at h
  split at h
  · cases h
  · rename_i settings hsettings
    dsimp only at h
    split at h
    · cases h
    · rename_i hcreate
      cases h
      exact ⟨settings, hsettings, hcreate⟩

/-- A question to the registry sends one request or none. -/
theorem sent_askRegistry {α : Type} (s : Service) (around : Surroundings) (segments : List String)
    (pairs : List (String × String)) (what : String) (read : List UInt8 → Option α)
    (n : Network) :
    ∃ w : Option WebRequest,
      (s.askRegistry around (fun r => r.get s.caller (r.url segments pairs) what read) n).2.sent
        = n.sent ++ w.toList ∧ ∀ v ∈ w, s.Asks around segments pairs v := by
  unfold askRegistry
  cases hr : s.registry around with
  | error e => exact ⟨none, (List.append_nil _).symm, nofun⟩
  | ok r =>
    obtain ⟨settings, hsettings, hcreate⟩ := registry_eq_ok hr
    obtain ⟨w, hsent, hw⟩ := r.sent_get s.caller (r.url segments pairs) what read n
    refine ⟨w, hsent, fun v hv => ?_⟩
    obtain ⟨u, hu⟩ := hw v hv
    exact ⟨settings, r, u, hsettings, hcreate, hu⟩

end Service

end ConnectorCatalog
