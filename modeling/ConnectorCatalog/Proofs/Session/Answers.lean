import ConnectorCatalog.Proofs.Session.Run

/-!
# Answers to requests for connectors

A request for connectors that reaches a running session is answered with a result, whatever fails, and
the client is told of each failure. One that is put badly, or comes before the session was begun or
after it ended, is refused without asking the service (`run_answer`).
-/

namespace ConnectorCatalog.Session

/-- A new session: with a given service, or with one that the client may set up. -/
def opened (given : Option Service) (environment : Environment) : Session :=
  match given with
  | some service => .withService service
  | none => .configurable environment

/-- The service that an initialization fixes: the given one, else one with the client's options if they
can be read, else one with no options. -/
def fixedService (given : Option Service) (environment : Environment) (options : Option Json) :
    Service :=
  match given, options.map Config.ofJson with
  | some service, _ => service
  | none, some (.ok config) => .ofConfig config environment
  | none, _ => .ofConfig .default environment

theorem configured_opened (given : Option Service) (start environment : Environment)
    (options : Option Json) :
    (opened given start).configured environment options = fixedService given environment options := by
  cases given with
  | some service => rfl
  | none =>
    unfold fixedService configured
    rcases options.map Config.ofJson with _ | _ | _ <;> rfl

/-- The answer, if there is one, is no result and tells the client nothing. -/
def IsRefusal (answer : Option Answer) : Prop :=
  ∀ a ∈ answer, a.notifications = [] ∧ ∀ id value, a.reply ≠ some (.result id value)

section
variable {α : Type} {s : Session} {id : Option Rpc.Id} {params : Except Rpc.Error α}
  {respond : Rpc.Id → α → Exchange (Answer × Session)} {n : Network}

/-- A request that is put well reaches a running session. -/
theorem whileRunning_request (hphase : s.phase = .running) {i : Rpc.Id} (hid : id = some i) {x : α}
    (hparams : params = .ok x) : s.whileRunning id (s.request id params respond) n = respond i x n := by
  unfold whileRunning request
  rw [hphase, hid, hparams]
  rfl

/-- Any other request has no effect. -/
theorem whileRunning_request_refused
    (h : ¬ (s.phase = .running ∧ id.isSome = true ∧ ∃ x, params = .ok x)) :
    (s.whileRunning id (s.request id params respond) n).2 = n ∧
      IsRefusal (some (s.whileRunning id (s.request id params respond) n).1.1) := by
  have hrefuse : ∀ cause, IsRefusal (some (Answer.refuse id cause)) := by
    rintro cause _ ⟨⟩
    refine ⟨rfl, fun i value => ?_⟩
    cases id <;> exact nofun
  have hsilence : IsRefusal (some Answer.silence) := by
    rintro _ ⟨⟩
    exact ⟨rfl, fun _ _ => nofun⟩
  unfold whileRunning request
  cases hphase : s.phase with
  | running =>
    rcases id with _ | id
    · exact ⟨rfl, hsilence⟩
    · rcases params with cause | x
      · exact ⟨rfl, hrefuse cause⟩
      · exact absurd ⟨hphase, rfl, x, rfl⟩ h
  | _ => exact ⟨rfl, hrefuse _⟩

end

/-- A call that asks for connectors: one with an identifier and parameters that can be read. -/
def AsksForConnectors (call : Rpc.Call) : Prop :=
  call.id.isSome = true ∧
    (call.method = listMethod ∧
        (∃ request, Rpc.readParams ListRequest.ofJson call.params = .ok request) ∨
      call.method = lookupMethod ∧
        ∃ request, Rpc.readParams LookupRequest.ofJson call.params = .ok request)

/-- What the client is told of a failure: the operation that failed, and why. -/
def errorMessage (f : Failure) : Json :=
  Rpc.notificationJson "window/logMessage"
    (.ofMembers [("type", .ofNat 1), ("message", .string (f.operation ++ " " ++ f.cause.message))])

section
variable {s : Session} {around : Surroundings} {call : Rpc.Call} {n : Network}

theorem respond_list (hmethod : call.method = listMethod) :
    s.respond around call = s.list around call := by
  have hlist : Method.ofName call.method = .list := hmethod ▸ rfl
  rw [respond, hlist]

theorem respond_lookup (hmethod : call.method = lookupMethod) :
    s.respond around call = s.lookup around call := by
  have hlookup : Method.ofName call.method = .lookup := hmethod ▸ rfl
  rw [respond, hlookup]

theorem receive_list_running (hphase : s.phase = .running) (hmethod : call.method = listMethod)
    {id : Rpc.Id} (hid : call.id = some id) {request : ListRequest}
    (hparams : Rpc.readParams ListRequest.ofJson call.params = .ok request) :
    s.receive around (.call call) n =
      (let listing := s.service.list around request n
      ((some ⟨some (.result id listing.1.response.toJson), listing.1.failures.map errorMessage⟩, s),
        listing.2)) := by
  rw [receive_call _ _ _ (by rw [hphase]; decide), respond_list hmethod, list,
    whileRunning_request hphase hid hparams]
  rfl

theorem receive_lookup_running (hphase : s.phase = .running) (hmethod : call.method = lookupMethod)
    {id : Rpc.Id} (hid : call.id = some id) {request : LookupRequest}
    (hparams : Rpc.readParams LookupRequest.ofJson call.params = .ok request) :
    s.receive around (.call call) n =
      (let found := s.service.lookup around request n
      ((some ⟨some (.result id (.ofOption found.1.connector)), found.1.failures.map errorMessage⟩, s),
        found.2)) := by
  rw [receive_call _ _ _ (by rw [hphase]; decide), respond_lookup hmethod, lookup,
    whileRunning_request hphase hid hparams]
  rfl

/-- A request for connectors that the session does not serve has no effect. -/
theorem receive_refused (hmethod : call.method = listMethod ∨ call.method = lookupMethod)
    (h : ¬ (s.phase = .running ∧ AsksForConnectors call)) :
    (s.receive around (.call call) n).2 = n ∧
      IsRefusal (s.receive around (.call call) n).1.1 := by
  by_cases hphase : s.phase = .exited
  · unfold receive handle
    dsimp only
    rw [if_pos hphase]
    exact ⟨rfl, nofun⟩
  · rw [receive_call _ _ _ hphase]
    rcases hmethod with hmethod | hmethod
    · rw [respond_list hmethod]
      exact whileRunning_request_refused fun ⟨hrunning, hid, hparams⟩ =>
        h ⟨hrunning, hid, .inl ⟨hmethod, hparams⟩⟩
    · rw [respond_lookup hmethod]
      exact whileRunning_request_refused fun ⟨hrunning, hid, hparams⟩ =>
        h ⟨hrunning, hid, .inr ⟨hmethod, hparams⟩⟩

end

/-- Requests for connectors in a run. One that reaches a running session is answered by one result and
no error, that of the service fixed when the session was begun, and the client is told of each failure
of the service in order and of nothing else. One that does not has no effect. -/
theorem run_answer (given : Option Service) (start : Environment)
    (before after : List (Surroundings × Incoming)) (around : Surroundings) (call : Rpc.Call)
    (n : Network) :
    let s := opened given start
    let answer := (s.run (before ++ (around, .call call) :: after) n).1.1[before.length]?
    let reached := (s.run before n).2
    let left := (s.run (before ++ [(around, .call call)]) n).2
    (∀ environment options id, RunningSince before environment options → call.id = some id →
      let service := fixedService given environment options
      (∀ request, call.method = listMethod →
        Rpc.readParams ListRequest.ofJson call.params = .ok request →
        let listing := service.list around request reached
        answer = some (some ⟨some (.result id listing.1.response.toJson),
          listing.1.failures.map errorMessage⟩) ∧ left = listing.2) ∧
      (∀ request, call.method = lookupMethod →
        Rpc.readParams LookupRequest.ofJson call.params = .ok request →
        let found := service.lookup around request reached
        answer = some (some ⟨some (.result id (.ofOption found.1.connector)),
          found.1.failures.map errorMessage⟩) ∧ left = found.2)) ∧
    (call.method = listMethod ∨ call.method = lookupMethod →
      ¬ (AsksForConnectors call ∧ ∃ environment options, RunningSince before environment options) →
      (∃ refusal, answer = some refusal ∧ IsRefusal refusal) ∧ left = reached) := by
  intro s answer reached left
  have hwaiting : s.phase = .waiting := by cases given <;> rfl
  obtain ⟨hanswer, hleft⟩ := answer_run s around n before after (.call call)
  refine ⟨fun environment options id hsince hid => ?_, fun hmethod hnot => ?_⟩
  · have hstate : (s.run before n).1.2 =
        ⟨.running, fixedService given environment options, s.isConfigurable⟩ := by
      rw [run_eq_of_runningSince hwaiting hsince n, configured_opened]
    rw [hstate] at hanswer hleft
    refine ⟨fun request hmethod hparams => ?_, fun request hmethod hparams => ?_⟩
    · rw [receive_list_running rfl hmethod hid hparams] at hanswer hleft
      exact ⟨hanswer, hleft⟩
    · rw [receive_lookup_running rfl hmethod hid hparams] at hanswer hleft
      exact ⟨hanswer, hleft⟩
  · have hnot : ¬ ((s.run before n).1.2.phase = .running ∧ AsksForConnectors call) :=
      fun ⟨hrunning, hasks⟩ => hnot ⟨hasks, runningSince_of_running hwaiting hrunning⟩
    exact ⟨⟨_, hanswer, (receive_refused hmethod hnot).2⟩,
      hleft.trans (receive_refused hmethod hnot).1⟩

/-- A client asks for connectors where there is neither a project nor a registry. It gets its result
after it is told of both failures. -/
theorem run_answer_without_sources :
    let around : Surroundings := ⟨.empty, []⟩
    let opening : Rpc.Call :=
      ⟨"initialize", some (.object [("capabilities", .object [])]), some (.number 1)⟩
    let call : Rpc.Call :=
      ⟨listMethod, some (.object [("targetFile", .string "main.bal")]), some (.number 2)⟩
    let before := [(around, Incoming.call opening)]
    let listing := ((fixedService none [] none).list around ⟨"", "main.bal"⟩ .down).1
    ((opened none []).run (before ++ [(around, .call call)]) .down).1.1[before.length]? =
        some (some ⟨some (.result (.number 2) listing.response.toJson),
          listing.failures.map errorMessage⟩) ∧
      listing.failures.length = 2 := by
  intro around opening call before listing
  have hsince : RunningSince before [] none :=
    ⟨[], around, .call opening, [], rfl, rfl, ⟨opening, rfl, rfl, rfl, by rfl⟩, nofun, nofun⟩
  have hreached : ((opened none []).run before .down).2 = .down := rfl
  have hanswer := (run_answer none [] before [] around call .down).1 [] none (.number 2) hsince rfl
  have hlisted := (hanswer.1 ⟨"", "main.bal"⟩ rfl rfl).1
  rw [hreached] at hlisted
  exact ⟨hlisted, by decide +kernel⟩

end ConnectorCatalog.Session
