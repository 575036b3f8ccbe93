import ConnectorCatalog.Proofs.Asking
import ConnectorCatalog.Server.Framing
import Mathlib.Data.List.Induction

/-!
# Runs of a session

What a session is after some messages depends on them and not on the network (`session_run`). It runs
if and only if one of them began it and none ended it since, and then its service is the one that was
fixed when it began (`run_eq_of_runningSince`, `runningSince_of_running`).
-/

namespace ConnectorCatalog

theorem Method.mem_own {name : String} {m : Method} (h : own.lookup name = some m) :
    (name, m) ∈ own := by
  obtain ⟨front, rest, hown, -⟩ := List.lookup_eq_some_iff.1 h
  rw [hown]
  exact List.mem_append_right _ (List.mem_cons_self ..)

/-- A method that means something to the server goes by its name in the table. -/
theorem Method.mem_own_of_ofName {name : String} {m : Method} (h : Method.ofName name = m)
    (hrequest : ∀ params, m ≠ .request params) (hnotification : m ≠ .notification)
    (hunknown : m ≠ .unknown) : (name, m) ∈ own := by
  unfold Method.ofName at h
  split at h
  · rename_i hlookup
    rw [← h]
    exact mem_own hlookup
  · split at h
    · exact absurd h.symm (hrequest _)
    · split_ifs at h
      · exact absurd h.symm hnotification
      · exact absurd h.symm hunknown

theorem Method.ofName_eq_start {name : String} :
    Method.ofName name = .start ↔ name = "initialize" :=
  ⟨fun h => by simpa [own] using mem_own_of_ofName h nofun nofun nofun, fun h => h ▸ rfl⟩

theorem Method.ofName_eq_shutdown {name : String} :
    Method.ofName name = .shutdown ↔ name = "shutdown" :=
  ⟨fun h => by simpa [own] using mem_own_of_ofName h nofun nofun nofun, fun h => h ▸ rfl⟩

theorem Method.ofName_eq_exit {name : String} : Method.ofName name = .exit ↔ name = "exit" :=
  ⟨fun h => by simpa [own] using mem_own_of_ofName h nofun nofun nofun, fun h => h ▸ rfl⟩

/-- The message calls a method. -/
def Incoming.Calls (incoming : Incoming) (name : String) : Prop :=
  ∃ call, incoming = .call call ∧ call.method = name

/-- The message is an initialization that is put well, with options for the server. -/
def Incoming.Begins (incoming : Incoming) (options : Option Json) : Prop :=
  ∃ call, incoming = .call call ∧ call.method = "initialize" ∧ call.id.isSome = true ∧
    Rpc.readParams InitializeParams.options? call.params = .ok options

namespace Session

/-- Answers messages one after the other, each as things are when it comes in. -/
def run (s : Session) : List (Surroundings × Incoming) → Exchange (List (Option Answer) × Session)
  | [] => return ([], s)
  | (around, incoming) :: rest => do
    let (answer, s) ← s.receive around incoming
    let (answers, s) ← run s rest
    return (answer :: answers, s)

/-- What a message makes of a session. -/
def next (s : Session) (around : Surroundings) : Incoming → Session
  | .call call =>
    if s.phase = .exited then s
    else
      match Method.ofName call.method with
      | .start =>
        match s.phase, call.id, Rpc.readParams InitializeParams.options? call.params with
        | .waiting, some _, .ok options =>
          { s with phase := .running, service := s.configured around.environment options }
        | _, _, _ => s
      | .shutdown => if s.phase = .running then { s with phase := .shutDown } else s
      | .exit => { s with phase := .exited }
      | _ => s
  | _ => s

/-- What messages make of a session one after the other. -/
def after (s : Session) (events : List (Surroundings × Incoming)) : Session :=
  events.foldl (fun s e => s.next e.1 e.2) s

section
variable (s : Session) (around : Surroundings) (n : Network)

theorem whileRunning_session {id : Option Rpc.Id} {respond : Exchange (Answer × Session)}
    (h : s.phase = .running → (respond n).1.2 = s) : (s.whileRunning id respond n).1.2 = s := by
  unfold whileRunning
  cases hphase : s.phase with
  | running => exact h hphase
  | _ => rfl

theorem request_session {α : Type} {id : Option Rpc.Id} {params : Except Rpc.Error α}
    {respond : Rpc.Id → α → Exchange (Answer × Session)} (h : ∀ id x, (respond id x n).1.2 = s) :
    (s.request id params respond n).1.2 = s := by
  unfold request
  split
  · rfl
  · rfl
  · exact h _ _

theorem start_session (call : Rpc.Call) : (s.start around call n).1.2 =
    match s.phase, call.id, Rpc.readParams InitializeParams.options? call.params with
    | .waiting, some _, .ok options =>
      { s with phase := .running, service := s.configured around.environment options }
    | _, _, _ => s := by
  unfold start request
  cases s.phase with
  | waiting =>
    rw [if_pos rfl]
    cases call.id <;> cases Rpc.readParams InitializeParams.options? call.params <;> rfl
  | _ => rfl

theorem shutdown_session (call : Rpc.Call) : (s.shutdown call n).1.2 =
    if s.phase = .running then { s with phase := .shutDown } else s := by
  unfold shutdown whileRunning request
  cases s.phase with
  | running => cases call.id <;> cases Rpc.noParams call.params <;> rfl
  | _ => rfl

/-- A call is answered unless the session has been left. -/
theorem receive_call (hphase : s.phase ≠ .exited) (call : Rpc.Call) :
    s.receive around (.call call) n =
      (let result := s.respond around call n
      ((some result.1.1, result.1.2), result.2)) := by
  unfold receive handle
  dsimp only
  rw [if_neg hphase]
  rfl

/-- The session behind a message does not depend on the network. -/
theorem session_receive (incoming : Incoming) :
    (s.receive around incoming n).1.2 = s.next around incoming := by
  cases incoming with
  | reply => rfl
  | invalid cause => rfl
  | call call =>
    unfold next
    by_cases hexited : s.phase = .exited
    · unfold receive handle
      dsimp only
      rw [if_pos hexited, if_pos hexited]
      rfl
    rw [s.receive_call around n hexited]
    unfold respond
    dsimp only
    rw [if_neg hexited]
    generalize Method.ofName call.method = m
    cases m with
    | start => exact s.start_session around n call
    | shutdown => exact s.shutdown_session n call
    | exit => rfl
    | cancel => rfl
    | unknown => rfl
    | started =>
      refine s.whileRunning_session n fun _ => ?_
      cases call.id <;>
        cases Rpc.readParams (Shape.record "InitializedParams" []) call.params <;> rfl
    | list => exact s.whileRunning_session n fun _ => s.request_session n fun _ _ => rfl
    | lookup => exact s.whileRunning_session n fun _ => s.request_session n fun _ _ => rfl
    | request shape => exact s.whileRunning_session n fun _ => s.request_session n fun _ _ => rfl
    | notification => exact s.whileRunning_session n fun _ => rfl

/-! ### Runs -/

/-- The session behind a run does not depend on the network either. -/
theorem session_run (events : List (Surroundings × Incoming)) :
    (s.run events n).1.2 = s.after events := by
  induction events generalizing s n with
  | nil => rfl
  | cons e events ih =>
    unfold after
    rw [List.foldl_cons, ← session_receive s e.1 n]
    exact ih _ _

theorem run_append (front back : List (Surroundings × Incoming)) : s.run (front ++ back) n =
    (let first := s.run front n
    let second := first.1.2.run back first.2
    ((first.1.1 ++ second.1.1, second.1.2), second.2)) := by
  induction front generalizing s n with
  | nil => rfl
  | cons e front ih =>
    simp only [List.cons_append, run, Exchange.bind_apply, ih]
    rfl

theorem length_run (events : List (Surroundings × Incoming)) :
    (s.run events n).1.1.length = events.length := by
  induction events generalizing s n with
  | nil => rfl
  | cons e events ih =>
    simp only [run, Exchange.bind_apply]
    exact congrArg Nat.succ (ih _ _)

/-- A message in a run is answered by the session and on the network that those before it leave. -/
theorem answer_run (before after : List (Surroundings × Incoming)) (incoming : Incoming) :
    (s.run (before ++ (around, incoming) :: after) n).1.1[before.length]?
        = some ((s.run before n).1.2.receive around incoming (s.run before n).2).1.1 ∧
      (s.run (before ++ [(around, incoming)]) n).2
        = ((s.run before n).1.2.receive around incoming (s.run before n).2).2 := by
  rw [run_append, run_append]
  refine ⟨?_, rfl⟩
  dsimp only
  rw [List.getElem?_append_right (Nat.le_of_eq (length_run ..)), length_run, Nat.sub_self]
  rfl

end

/-! ### What the messages before have come to -/

/-- The messages have come to a running session: one of them began it, in an environment and with
options, none before that did so or left the session, and none since ended or left it. -/
def RunningSince (events : List (Surroundings × Incoming)) (environment : Environment)
    (options : Option Json) : Prop :=
  ∃ earlier around incoming later, events = earlier ++ (around, incoming) :: later ∧
    around.environment = environment ∧ incoming.Begins options ∧
    (∀ e ∈ earlier, ¬ e.2.Calls "exit" ∧ ∀ options, ¬ e.2.Begins options) ∧
    ∀ e ∈ later, ¬ e.2.Calls "shutdown" ∧ ¬ e.2.Calls "exit"

/-- What a message makes of a session: one that waits is begun by an initialization, one that runs may
be shut down, and any may be left. Otherwise it stays as it is. -/
theorem next_cases (s : Session) (around : Surroundings) (incoming : Incoming) :
    (s.phase = .waiting ∧ ∃ options, incoming.Begins options ∧ s.next around incoming =
      { s with phase := .running, service := s.configured around.environment options }) ∨
    (s.phase = .running ∧ incoming.Calls "shutdown" ∧
      s.next around incoming = { s with phase := .shutDown }) ∨
    (incoming.Calls "exit" ∧ s.next around incoming = { s with phase := .exited }) ∨
    (s.next around incoming = s ∧ (s.phase = .waiting → ∀ options, ¬ incoming.Begins options) ∧
      (s.phase = .running → ¬ incoming.Calls "shutdown") ∧ ¬ incoming.Calls "exit") := by
  cases incoming with
  | reply => exact .inr (.inr (.inr ⟨rfl, fun _ _ => nofun, fun _ => nofun, nofun⟩))
  | invalid cause => exact .inr (.inr (.inr ⟨rfl, fun _ _ => nofun, fun _ => nofun, nofun⟩))
  | call call =>
    have hcalls : ∀ name, (Incoming.call call).Calls name ↔ call.method = name := by
      intro name
      constructor
      · rintro ⟨_, ⟨⟩, h⟩
        exact h
      · exact fun h => ⟨call, rfl, h⟩
    have hbegins : ∀ {options}, (Incoming.call call).Begins options ↔
        call.method = "initialize" ∧ call.id.isSome = true ∧
          Rpc.readParams InitializeParams.options? call.params = .ok options := by
      intro options
      constructor
      · rintro ⟨_, ⟨⟩, h⟩
        exact h
      · exact fun h => ⟨call, rfl, h⟩
    simp only [hcalls, hbegins, ← Method.ofName_eq_start, ← Method.ofName_eq_shutdown,
      ← Method.ofName_eq_exit]
    unfold next
    dsimp only
    by_cases hexited : s.phase = .exited
    · rw [if_pos hexited]
      by_cases hexit : Method.ofName call.method = .exit
      · exact .inr (.inr (.inl ⟨hexit, by rw [← hexited]⟩))
      · exact .inr (.inr (.inr ⟨rfl, by simp [hexited], by simp [hexited], hexit⟩))
    rw [if_neg hexited]
    generalize Method.ofName call.method = m
    cases m with
    | start =>
      dsimp only
      split
      · rename_i hphase hid hparams
        exact .inl ⟨hphase, _, ⟨rfl, by rw [hid]; rfl, hparams⟩, rfl⟩
      · rename_i hnot
        refine .inr (.inr (.inr ⟨rfl, fun hphase options hbegins => ?_, fun _ => nofun, nofun⟩))
        obtain ⟨-, hid, hparams⟩ := hbegins
        obtain ⟨id, hid⟩ := Option.isSome_iff_exists.1 hid
        exact hnot id options hphase hid hparams
    | shutdown =>
      dsimp only
      split_ifs with hphase
      · exact .inr (.inl ⟨hphase, rfl, rfl⟩)
      · exact .inr (.inr (.inr ⟨rfl, fun _ _ => nofun, fun h => absurd h hphase, nofun⟩))
    | exit => exact .inr (.inr (.inl ⟨rfl, rfl⟩))
    | _ => exact .inr (.inr (.inr ⟨rfl, fun _ _ => nofun, fun _ => nofun, nofun⟩))

section
variable {s : Session} {events : List (Surroundings × Incoming)} {environment : Environment}
  {options : Option Json}

theorem after_eq_self (h : ∀ e ∈ events, s.next e.1 e.2 = s) : s.after events = s := by
  unfold after
  induction events with
  | nil => rfl
  | cons e events ih =>
    rw [List.foldl_cons, h e (List.mem_cons_self ..)]
    exact ih fun e he => h e (List.mem_cons_of_mem _ he)

theorem after_append (front back : List (Surroundings × Incoming)) :
    s.after (front ++ back) = (s.after front).after back := List.foldl_append ..

/-- A session that was begun and not ended since runs with the service fixed then. -/
theorem run_eq_of_runningSince (hs : s.phase = .waiting)
    (h : RunningSince events environment options) (n : Network) :
    (s.run events n).1.2 =
      { s with phase := .running, service := s.configured environment options } := by
  obtain ⟨earlier, around, incoming, later, rfl, rfl, hbegins, hearlier, hlater⟩ := h
  have hfirst : s.after earlier = s := by
    refine after_eq_self fun e he => ?_
    obtain ⟨hexit, hnone⟩ := hearlier e he
    rcases next_cases s e.1 e.2 with ⟨-, options, h, -⟩ | ⟨h, -⟩ | ⟨h, -⟩ | ⟨h, -⟩
    · exact absurd h (hnone options)
    · rw [hs] at h
      cases h
    · exact absurd h hexit
    · exact h
  have hbegun : s.next around incoming =
      { s with phase := .running, service := s.configured around.environment options } := by
    obtain ⟨call, rfl, hmethod, hid, hparams⟩ := hbegins
    rcases next_cases s around (.call call) with ⟨-, options', ⟨_, ⟨⟩, -, -, hparams'⟩, hnext⟩ |
      ⟨h, -⟩ | ⟨⟨_, ⟨⟩, h⟩, -⟩ | ⟨-, h, -⟩
    · rw [hparams] at hparams'
      cases hparams'
      exact hnext
    · rw [hs] at h
      cases h
    · rw [hmethod] at h
      exact absurd h (by decide)
    · exact absurd ⟨call, rfl, hmethod, hid, hparams⟩ (h hs options)
  rw [session_run, after_append, hfirst, after, List.foldl_cons, hbegun]
  refine after_eq_self fun e he => ?_
  obtain ⟨hshutdown, hexit⟩ := hlater e he
  rcases next_cases { s with phase := .running, service := s.configured around.environment options }
    e.1 e.2 with ⟨h, -⟩ | ⟨-, h, -⟩ | ⟨h, -⟩ | ⟨h, -⟩
  · cases h
  · exact absurd h hshutdown
  · exact absurd h hexit
  · exact h

/-- A session that runs was begun and not ended since. -/
theorem runningSince_of_running (hs : s.phase = .waiting) {n : Network}
    (h : (s.run events n).1.2.phase = .running) :
    ∃ environment options, RunningSince events environment options := by
  -- by induction on the last message, together with what a session that still waits has heard
  have hphases : ((s.after events).phase = .waiting →
        ∀ e ∈ events, ¬ e.2.Calls "exit" ∧ ∀ options, ¬ e.2.Begins options) ∧
      ((s.after events).phase = .running →
        ∃ environment options, RunningSince events environment options) := by
    clear h
    induction events using List.reverseRecOn with
    | nil => exact ⟨fun _ => nofun, fun h => by rw [after, List.foldl_nil, hs] at h; cases h⟩
    | append_singleton events e ih =>
      have hlast : s.after (events ++ [e]) = (s.after events).next e.1 e.2 := after_append ..
      rw [hlast]
      generalize s.after events = s' at ih
      rcases next_cases s' e.1 e.2 with ⟨hphase, options, hbegins, hnext⟩ | ⟨-, -, hnext⟩ |
        ⟨-, hnext⟩ | ⟨hnext, hnone, hshutdown, hexit⟩ <;> rw [hnext]
      · exact ⟨nofun, fun _ =>
          ⟨_, options, events, e.1, e.2, [], rfl, rfl, hbegins, ih.1 hphase, nofun⟩⟩
      · exact ⟨nofun, nofun⟩
      · exact ⟨nofun, nofun⟩
      · refine ⟨fun hwaiting => ?_, fun hrunning => ?_⟩
        · exact List.forall_mem_append.2
            ⟨ih.1 hwaiting, List.forall_mem_singleton.2 ⟨hexit, hnone hwaiting⟩⟩
        · obtain ⟨environment, options, earlier, around, incoming, later, rfl, henv, hbegins, hearlier,
            hlater⟩ := ih.2 hrunning
          exact ⟨environment, options, earlier, around, incoming, later ++ [e],
            by rw [List.append_assoc]; rfl, henv, hbegins, hearlier, List.forall_mem_append.2
              ⟨hlater, List.forall_mem_singleton.2 ⟨hshutdown hrunning, hexit⟩⟩⟩
  rw [session_run] at h
  exact hphases.2 h

end

end Session

end ConnectorCatalog
