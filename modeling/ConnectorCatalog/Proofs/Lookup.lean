import ConnectorCatalog.Proofs.Asking
import ConnectorCatalog.Service.Lookup

/-!
# The ways that a look-up tries

Each way that a request allows makes an attempt, which gives a connector, nothing or a failure. A
look-up makes the attempts in order up to the first that finds a connector (`lookupBy_eq`), so it is
the look-up that knows of no other ways (`lookupBy_untilFound`). Its failures are those of the attempts
it makes, and each attempt asks the registry once or not at all (`sent_attempts`).
-/

namespace ConnectorCatalog

/-- A way that was tried: what it gave, and the network behind it. -/
structure Attempt where
  strategy : Strategy
  outcome : Except ServiceError (Option Json)
  after : Network

namespace Attempt

/-- The connector that was found. -/
def found? (a : Attempt) : Option Json :=
  match a.outcome with
  | .ok found => found
  | .error _ => none

/-- The attempt found a connector. -/
def finds (a : Attempt) : Bool := a.found?.isSome

/-- The failure that the attempt ended in. -/
def failure? (request : LookupRequest) (a : Attempt) : Option Failure :=
  match a.outcome with
  | .ok _ => none
  | .error cause => some ⟨a.strategy.operation request, cause⟩

/-- Of attempts in a row those up to the first that finds a connector; all of them if none does. -/
def untilFound (as : List Attempt) : List Attempt := as.take (as.findIdx finds + 1)

theorem untilFound_cons_of_finds {a : Attempt} (h : a.finds = true) (as : List Attempt) :
    untilFound (a :: as) = [a] := by
  simp [untilFound, List.findIdx_cons, h]

theorem untilFound_cons_of_not_finds {a : Attempt} (h : a.finds = false) (as : List Attempt) :
    untilFound (a :: as) = a :: untilFound as := by
  simp [untilFound, List.findIdx_cons, h]

/-- The network that attempts in a row leave. -/
def lastAfter (n : Network) (as : List Attempt) : Network := (as.getLast?.map after).getD n

theorem lastAfter_cons (n : Network) (a : Attempt) (as : List Attempt) :
    lastAfter n (a :: as) = lastAfter a.after as := by
  rw [lastAfter, lastAfter, List.getLast?_cons]
  cases as.getLast? <;> rfl

end Attempt

namespace Service

section
variable (s : Service) (around : Surroundings) (request : LookupRequest)

/-- The attempts that some ways make in a row, each whether or not one before it finds a connector. -/
def attempts : List Strategy → Network → List Attempt
  | [], _ => []
  | strategy :: rest, n =>
    let result := s.tryStrategy around request strategy n
    ⟨strategy, result.1, result.2⟩ :: attempts rest result.2

/-- What the registry is asked in a way. -/
def AsksIn : Strategy → WebRequest → Prop
  | .byId, w => s.Asks around [Registry.connectorsSegment, request.connectorId.getD ""] [] w
  | .byQualifiedName, w =>
    s.Asks around [Registry.connectorsSegment, "info"] (Registry.namePairs request.qualifiedName) w
  | .byLocalFile, _ => False
  | .byPackage, _ => False

end

section
variable (s : Service) (around : Surroundings) (request : LookupRequest)

theorem map_strategy_attempts (xs : List Strategy) (n : Network) :
    (s.attempts around request xs n).map Attempt.strategy = xs := by
  induction xs generalizing n with
  | nil => rfl
  | cons strategy rest ih => simp [attempts, ih]

theorem strategy_untilFound_prefix (xs : List Strategy) (n : Network) :
    (Attempt.untilFound (s.attempts around request xs n)).map Attempt.strategy <+: xs := by
  have h := List.take_prefix
    ((s.attempts around request xs n).findIdx Attempt.finds + 1) (s.attempts around request xs n)
  simpa only [Attempt.untilFound, map_strategy_attempts] using h.map Attempt.strategy

end

variable {s : Service} {around : Surroundings} {request : LookupRequest}

section
variable {strategy : Strategy} {n after : Network}

theorem lookupBy_of_not_applies (h : strategy.applies request = false) (rest : List Strategy) :
    s.lookupBy around request (strategy :: rest) n = s.lookupBy around request rest n := by
  simp [lookupBy, h]

theorem lookupBy_of_found {connector : Json} (h : strategy.applies request = true)
    (hrun : s.tryStrategy around request strategy n = (.ok (some connector), after))
    (rest : List Strategy) : s.lookupBy around request (strategy :: rest) n
      = (⟨some connector, some strategy, []⟩, after) := by
  simp only [lookupBy, h, if_true, Exchange.bind_apply, hrun]
  rfl

theorem lookupBy_of_nothing (h : strategy.applies request = true)
    (hrun : s.tryStrategy around request strategy n = (.ok none, after)) (rest : List Strategy) :
    s.lookupBy around request (strategy :: rest) n = s.lookupBy around request rest after := by
  simp only [lookupBy, h, if_true, Exchange.bind_apply, hrun]

theorem lookupBy_of_error {cause : ServiceError} (h : strategy.applies request = true)
    (hrun : s.tryStrategy around request strategy n = (.error cause, after))
    (rest : List Strategy) : s.lookupBy around request (strategy :: rest) n
      = (let (found, last) := s.lookupBy around request rest after
        ({ found with failures := ⟨strategy.operation request, cause⟩ :: found.failures }, last)) := by
  simp only [lookupBy, h, if_true, Exchange.bind_apply, hrun]
  rfl

end

section
variable (s around request)

/-- A look-up makes the attempts of the ways that the request allows, up to the first that finds a
connector. -/
theorem lookupBy_eq (xs : List Strategy) (n : Network) :
    s.lookupBy around request xs n =
      (let all := s.attempts around request (xs.filter (·.applies request)) n
      let tried := Attempt.untilFound all
      (⟨(all.find? Attempt.finds).bind Attempt.found?, (all.find? Attempt.finds).map Attempt.strategy,
        tried.filterMap (Attempt.failure? request)⟩, Attempt.lastAfter n tried)) := by
  induction xs generalizing n with
  | nil => rfl
  | cons strategy rest ih =>
    cases happlies : strategy.applies request with
    | false =>
      rw [lookupBy_of_not_applies happlies, ih]
      simp [happlies]
    | true =>
      have hfilter : (strategy :: rest).filter (·.applies request)
          = strategy :: rest.filter (·.applies request) := by simp [happlies]
      rw [hfilter, attempts]
      -- the first way fails, finds nothing or finds a connector
      rcases hrun : s.tryStrategy around request strategy n with ⟨cause | _ | connector, after⟩
      · rw [lookupBy_of_error happlies hrun, ih]
        dsimp only
        rw [Attempt.untilFound_cons_of_not_finds rfl, Attempt.lastAfter_cons]
        rfl
      · rw [lookupBy_of_nothing happlies hrun, ih]
        dsimp only
        rw [Attempt.untilFound_cons_of_not_finds rfl, Attempt.lastAfter_cons]
        rfl
      · rw [lookupBy_of_found happlies hrun]
        dsimp only
        rw [Attempt.untilFound_cons_of_finds rfl]
        rfl

/-- A way asks the registry once or not at all. -/
theorem sent_tryStrategy (strategy : Strategy) (n : Network) :
    ∃ w : Option WebRequest,
      (s.tryStrategy around request strategy n).2.sent = n.sent ++ w.toList ∧
        ∀ v ∈ w, s.AsksIn around request strategy v := by
  cases strategy with
  | byId => exact s.sent_askRegistry around _ _ _ _ n
  | byQualifiedName => exact s.sent_askRegistry around _ _ _ _ n
  | byLocalFile => exact ⟨none, (List.append_nil _).symm, nofun⟩
  | byPackage => exact ⟨none, (List.append_nil _).symm, nofun⟩

/-- Attempts in a row send, in their order, what some of them ask. -/
theorem sent_attempts (xs : List Strategy) (n : Network) :
    ∃ ws : List (Strategy × WebRequest),
      (Attempt.lastAfter n (Attempt.untilFound (s.attempts around request xs n))).sent
        = n.sent ++ ws.map Prod.snd ∧
      (ws.map Prod.fst).Sublist
        ((Attempt.untilFound (s.attempts around request xs n)).map Attempt.strategy) ∧
      ∀ x ∈ ws, s.AsksIn around request x.1 x.2 := by
  induction xs generalizing n with
  | nil => exact ⟨[], (List.append_nil _).symm, List.nil_sublist _, nofun⟩
  | cons strategy rest ih =>
    obtain ⟨w, hsent, hw⟩ := sent_tryStrategy s around request strategy n
    -- what this attempt sends, in front of what the attempts behind it send
    let first := w.toList.map (Prod.mk strategy)
    have hfst : (first.map Prod.fst).Sublist [strategy] := by cases w <;> simp [first]
    have hasks : ∀ x ∈ first, s.AsksIn around request x.1 x.2 := by
      intro x hx
      obtain ⟨v, hv, rfl⟩ := List.mem_map.1 hx
      exact hw v (Option.mem_toList.1 hv)
    have hsnd : first.map Prod.snd = w.toList := by cases w <;> rfl
    rw [attempts]
    cases hfinds : (Attempt.finds ⟨strategy, (s.tryStrategy around request strategy n).1,
      (s.tryStrategy around request strategy n).2⟩) with
    | true =>
      rw [Attempt.untilFound_cons_of_finds hfinds, Attempt.lastAfter_cons]
      exact ⟨first, by rw [hsnd, ← hsent]; rfl, hfst, hasks⟩
    | false =>
      rw [Attempt.untilFound_cons_of_not_finds hfinds, Attempt.lastAfter_cons]
      obtain ⟨ws, hrest, hsub, hws⟩ := ih (s.tryStrategy around request strategy n).2
      refine ⟨first ++ ws, ?_, ?_, fun x hx => ?_⟩
      · rw [hrest, hsent, List.map_append, hsnd, List.append_assoc]
      · rw [List.map_append]
        exact hfst.append hsub
      · rcases List.mem_append.1 hx with hx | hx
        · exact hasks x hx
        · exact hws x hx

/-- A look-up is the same if it knows of no ways but those that it tries. -/
theorem lookupBy_untilFound (xs : List Strategy) (n : Network) :
    s.lookupBy around request
      ((Attempt.untilFound
        (s.attempts around request (xs.filter (·.applies request)) n)).map Attempt.strategy) n
      = s.lookupBy around request xs n := by
  induction xs generalizing n with
  | nil => rfl
  | cons strategy rest ih =>
    cases happlies : strategy.applies request with
    | false =>
      rw [lookupBy_of_not_applies happlies, ← ih]
      simp [happlies]
    | true =>
      have hfilter : (strategy :: rest).filter (·.applies request)
          = strategy :: rest.filter (·.applies request) := by simp [happlies]
      rw [hfilter, attempts]
      rcases hrun : s.tryStrategy around request strategy n with ⟨cause | _ | connector, after⟩
      · dsimp only
        rw [Attempt.untilFound_cons_of_not_finds rfl, List.map_cons,
          lookupBy_of_error happlies hrun, lookupBy_of_error happlies hrun, ih]
      · dsimp only
        rw [Attempt.untilFound_cons_of_not_finds rfl, List.map_cons,
          lookupBy_of_nothing happlies hrun, lookupBy_of_nothing happlies hrun, ih]
      · dsimp only
        rw [Attempt.untilFound_cons_of_finds rfl, List.map_cons, lookupBy_of_found happlies hrun,
          lookupBy_of_found happlies hrun]

end

/-- Of the ways to find a connector, in order, only those through the registry ask it. -/
theorem asked_of_sublist {ws : List (Strategy × WebRequest)}
    (hsub : (ws.map Prod.fst).Sublist Strategy.all)
    (hws : ∀ x ∈ ws, s.AsksIn around request x.1 x.2) :
    ∃ byId byName : Option WebRequest, ws.map Prod.snd = byId.toList ++ byName.toList ∧
      (∀ w ∈ byId, (Strategy.byId, w) ∈ ws) ∧ ∀ w ∈ byName, (Strategy.byQualifiedName, w) ∈ ws := by
  have hregistry : (ws.map Prod.fst).Sublist [.byId, .byQualifiedName] := by
    have hall : (ws.map Prod.fst).filter (fun x => x == .byId || x == .byQualifiedName)
        = ws.map Prod.fst := by
      refine List.filter_eq_self.2 fun strategy h => ?_
      obtain ⟨⟨strategy, w⟩, hx, rfl⟩ := List.mem_map.1 h
      have := hws _ hx
      cases strategy <;> first | rfl | exact this.elim
    have := hsub.filter fun x => x == Strategy.byId || x == Strategy.byQualifiedName
    rwa [hall] at this
  rcases ws with _ | ⟨⟨x, v⟩, _ | ⟨⟨y, w⟩, rest⟩⟩
  · exact ⟨none, none, rfl, nofun, nofun⟩
  · have hx : x = .byId ∨ x = .byQualifiedName := by
      simpa using hregistry.subset (List.mem_cons_self ..)
    rcases hx with rfl | rfl
    · exact ⟨some v, none, rfl, by simp, nofun⟩
    · exact ⟨none, some v, rfl, nofun, by simp⟩
  · obtain rfl : rest = [] := by
      have := hregistry.length_le
      simp only [List.map_cons, List.length_cons, List.length_map, List.length_nil] at this
      exact List.eq_nil_of_length_eq_zero (by omega)
    have heq := hregistry.eq_of_length rfl
    simp only [List.map_cons, List.map_nil, List.cons.injEq, and_true] at heq
    obtain ⟨rfl, rfl⟩ := heq
    exact ⟨some v, some w, rfl, by simp, by simp⟩

/-- A look-up is resolved by the first way, of those that the request allows, that finds a connector,
and gives that connector; there is none exactly if no way resolves it. Its failures are those of the
ways tried up to there, one for each that failed, and no other way is run. The registry is asked by
identifier at most once and then by qualified name at most once, in a way that is allowed and reached,
where the settings, the proxy and the URL are valid. -/
theorem lookup_first_found (s : Service) (around : Surroundings) (request : LookupRequest)
    (n : Network) :
    let all := s.attempts around request (Strategy.all.filter (·.applies request)) n
    let tried := Attempt.untilFound all
    let found := (s.lookup around request n).1
    let after := (s.lookup around request n).2
    found.resolvedBy = (all.find? Attempt.finds).map Attempt.strategy ∧
    found.connector = (all.find? Attempt.finds).bind Attempt.found? ∧
    (found.connector = none ↔ found.resolvedBy = none) ∧
    found.failures = tried.filterMap (Attempt.failure? request) ∧
    after = Attempt.lastAfter n tried ∧
    s.lookup around request n = s.lookupBy around request (tried.map Attempt.strategy) n ∧
    ∃ byId byName : Option WebRequest, after.sent = n.sent ++ byId.toList ++ byName.toList ∧
      (∀ w ∈ byId, Strategy.byId.applies request = true ∧
        Strategy.byId ∈ tried.map Attempt.strategy ∧
        s.Asks around [Registry.connectorsSegment, request.connectorId.getD ""] [] w) ∧
      ∀ w ∈ byName, Strategy.byQualifiedName.applies request = true ∧
        Strategy.byQualifiedName ∈ tried.map Attempt.strategy ∧
        s.Asks around [Registry.connectorsSegment, "info"]
          (Registry.namePairs request.qualifiedName) w := by
  dsimp only
  have heq := lookupBy_eq s around request Strategy.all n
  have huntil := lookupBy_untilFound s around request Strategy.all n
  have hbegin := strategy_untilFound_prefix s around request
    (Strategy.all.filter (·.applies request)) n
  obtain ⟨ws, hsent, hsub, hws⟩ := sent_attempts s around request
    (Strategy.all.filter (·.applies request)) n
  rw [← lookup] at heq huntil
  rw [heq]
  dsimp only at heq ⊢
  generalize s.attempts around request (Strategy.all.filter (·.applies request)) n = all at *
  refine ⟨rfl, rfl, ?_, rfl, rfl, by rw [huntil, heq], ?_⟩
  · cases hfind : all.find? Attempt.finds with
    | none => simp
    | some a =>
      have := List.find?_some hfind
      simpa [Attempt.finds, Option.isSome_iff_ne_none] using this
  · obtain ⟨byId, byName, hsplit, hid, hname⟩ := asked_of_sublist
      (hsub.trans (hbegin.sublist.trans List.filter_sublist)) hws
    have happlies : ∀ x ∈ ws, x.1.applies request = true ∧
        x.1 ∈ (Attempt.untilFound all).map Attempt.strategy := by
      intro x hx
      have htried := hsub.subset (List.mem_map_of_mem hx)
      exact ⟨(List.mem_filter.1 (hbegin.subset htried)).2, htried⟩
    refine ⟨byId, byName, by rw [hsent, hsplit, List.append_assoc], fun w hw => ?_, fun w hw => ?_⟩
    · exact ⟨(happlies _ (hid w hw)).1, (happlies _ (hid w hw)).2, hws _ (hid w hw)⟩
    · exact ⟨(happlies _ (hname w hw)).1, (happlies _ (hname w hw)).2, hws _ (hname w hw)⟩

end Service

end ConnectorCatalog
