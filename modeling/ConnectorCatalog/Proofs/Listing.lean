import ConnectorCatalog.Proofs.Asking
import ConnectorCatalog.Proofs.Files.Apart
import ConnectorCatalog.Service.List

/-!
# The two sources of a listing

A listing asks the registry and looks at the project around a file, and either may fail. What comes of
one has no part in what comes of the other (`list_isolated`): the project's connectors and its failure
do not depend on the network, the service or a settings file apart from the project, and the registry's
do not depend on the file.
-/

namespace ConnectorCatalog

/-- The failure is one of the project, not of the settings or the registry. -/
def Failure.isOfProject (f : Failure) : Bool :=
  match f.cause with
  | .project _ => true
  | .settings _ => false
  | .registry _ => false

namespace Listing

/-- The failure of the project, if it failed. -/
def projectFailures (l : Listing) : List Failure := l.failures.filter Failure.isOfProject

/-- The failure of the registry, if it failed or could not be asked. -/
def registryFailures (l : Listing) : List Failure := l.failures.filter fun f => !f.isOfProject

end Listing

/-- A source gave something. -/
def Succeeded {α : Type} (found : Except ServiceError α) : Prop := ∃ a, found = .ok a

/-- The failure of a source that fails in a listing. -/
def listFailure {α : Type} (found : Except ServiceError α) : List Failure :=
  match found with
  | .ok _ => []
  | .error cause => [⟨operationFailed listMethod, cause⟩]

theorem listFailure_eq_nil {α : Type} {found : Except ServiceError α} :
    listFailure found = [] ↔ Succeeded found := by
  cases found <;> simp [listFailure, Succeeded]

namespace Service

variable (s : Service) (around : Surroundings) (request : ListRequest) (n : Network)

/-- What comes of asking the registry for a listing, and the network behind that. -/
def searched : Except ServiceError (List Json) × Network :=
  let result := s.askRegistry around (fun r => r.search s.caller request.packageName) n
  (result.1.map Registry.Search.connectors, result.2)

theorem list_eq :
    s.list around request n =
      (let registry := s.searched around request n
      let project := around.connectors (Path.ofString request.targetFile) .summary
      (⟨⟨registry.1.toOption.getD [], project.toOption.getD []⟩,
        listFailure registry.1 ++ listFailure project⟩, registry.2)) := by
  have hsettle : ∀ {α : Type} (found : Except ServiceError (List α)),
      settle found = (found.toOption.getD [], listFailure found) := by
    intro α found
    cases found <;> rfl
  unfold list
  simp only [Exchange.bind_apply, hsettle]
  rfl

theorem response_list :
    (s.list around request n).1.response = ⟨(s.searched around request n).1.toOption.getD [],
      (around.connectors (Path.ofString request.targetFile) .summary).toOption.getD []⟩ := by
  rw [list_eq]

end Service

theorem filter_listFailure_project (around : Surroundings) (path : Path) (detail : Detail) :
    (listFailure (around.connectors path detail)).filter Failure.isOfProject
        = listFailure (around.connectors path detail) ∧
      (listFailure (around.connectors path detail)).filter (fun f => !f.isOfProject) = [] := by
  unfold Surroundings.connectors
  cases around.files.load path <;> exact ⟨rfl, rfl⟩

theorem filter_listFailure_registry (s : Service) (around : Surroundings) (request : ListRequest)
    (n : Network) :
    (listFailure (s.searched around request n).1).filter Failure.isOfProject = [] ∧
      (listFailure (s.searched around request n).1).filter (fun f => !f.isOfProject)
        = listFailure (s.searched around request n).1 := by
  have hregistry : ∀ e, s.registry around = .error e → ∀ cause, e ≠ .project cause := by
    intro e he cause
    unfold Service.registry at he
    dsimp only at he
    split at he
    · cases he; exact nofun
    · split at he <;> cases he
      exact nofun
  unfold Service.searched Service.askRegistry
  cases hr : s.registry around with
  | error e =>
    have := hregistry e hr
    cases e with
    | project cause => exact absurd rfl (this cause)
    | settings cause => exact ⟨rfl, rfl⟩
    | registry cause => exact ⟨rfl, rfl⟩
  | ok r =>
    simp only [Exchange.bind_apply]
    cases (r.search s.caller request.packageName n).1 <;> exact ⟨rfl, rfl⟩

/-- What the failures of a listing are, source by source. -/
theorem failures_list (s : Service) (around : Surroundings) (request : ListRequest) (n : Network) :
    (s.list around request n).1.registryFailures = listFailure (s.searched around request n).1 ∧
    (s.list around request n).1.projectFailures
      = listFailure (around.connectors (Path.ofString request.targetFile) .summary) := by
  obtain ⟨hproject, hproject'⟩ :=
    filter_listFailure_project around (Path.ofString request.targetFile) .summary
  obtain ⟨hregistry, hregistry'⟩ := filter_listFailure_registry s around request n
  rw [Service.list_eq, Listing.registryFailures, Listing.projectFailures]
  dsimp only
  rw [List.filter_append, List.filter_append, hproject, hproject', hregistry, hregistry',
    List.append_nil, List.nil_append]
  exact ⟨rfl, rfl⟩

/-- The two sources of a listing are isolated from one another. The project's connectors and failure
are the same with any network, any service and any settings file apart from the project; the registry's
connectors and failure and what is sent to it are the same for any file. A source that fails gives no
connectors, and the failures are that of the registry and then that of the project. -/
theorem list_isolated (s : Service) (around : Surroundings) (request : ListRequest) (n : Network) :
    let listing := (s.list around request n).1
    let registry := (s.searched around request n).1
    let project := around.connectors (Path.ofString request.targetFile) .summary
    (∀ (s' : Service) (environment : Environment) (files : FileTree) (packageName : String)
        (n' : Network) (home : List String),
      FileTree.SameButSettings (Path.ofString request.targetFile) home around.files files →
      let other := (s'.list ⟨files, environment⟩ { request with packageName } n').1
      other.response.fromProject = listing.response.fromProject ∧
        other.projectFailures = listing.projectFailures) ∧
    (∀ targetFile : String,
      let other := s.list around { request with targetFile } n
      other.1.response.fromRegistry = listing.response.fromRegistry ∧
        other.1.registryFailures = listing.registryFailures ∧
        other.2 = (s.list around request n).2) ∧
    ((∀ connectors, registry = .ok connectors → listing.response.fromRegistry = connectors) ∧
      (∀ cause, registry = .error cause → listing.response.fromRegistry = [])) ∧
    ((∀ connectors, project = .ok connectors → listing.response.fromProject = connectors) ∧
      (∀ cause, project = .error cause → listing.response.fromProject = [])) ∧
    listing.registryFailures = listFailure registry ∧
    listing.projectFailures = listFailure project ∧
    listing.failures = listing.registryFailures ++ listing.projectFailures ∧
    (listing.failures = [] ↔ Succeeded registry ∧ Succeeded project) := by
  dsimp only
  have hfailures : (s.list around request n).1.failures = listFailure (s.searched around request n).1
      ++ listFailure (around.connectors (Path.ofString request.targetFile) .summary) := by
    rw [Service.list_eq]
  obtain ⟨hregistry, hproject⟩ := failures_list s around request n
  refine ⟨fun s' environment files packageName n' home hsame => ?_, fun targetFile => ⟨?_, ?_, ?_⟩,
    ⟨fun connectors h => ?_, fun cause h => ?_⟩, ⟨fun connectors h => ?_, fun cause h => ?_⟩,
    hregistry, hproject, by rw [hfailures, hregistry, hproject], ?_⟩
  -- another service, network and settings file
  · have hconnectors : Surroundings.connectors ⟨files, environment⟩ (Path.ofString request.targetFile)
        .summary = around.connectors (Path.ofString request.targetFile) .summary := by
      unfold Surroundings.connectors
      rw [← hsame.load_eq]
    refine ⟨?_, ?_⟩
    · rw [Service.response_list, Service.response_list, hconnectors]
    · rw [hproject, (failures_list s' ⟨files, environment⟩ _ n').2, hconnectors]
  -- another file
  · rw [Service.response_list, Service.response_list]
    rfl
  · rw [hregistry, (failures_list s around _ n).1]
    rfl
  · rw [Service.list_eq, Service.list_eq]
    rfl
  -- each source, as it succeeds and as it fails
  · rw [Service.response_list, h]
    rfl
  · rw [Service.response_list, h]
    rfl
  · rw [Service.response_list, h]
    rfl
  · rw [Service.response_list, h]
    rfl
  · rw [hfailures, List.append_eq_nil_iff, listFailure_eq_nil, listFailure_eq_nil]

/-- A tree with one source file, which declares one client. -/
def FileTree.oneClient : FileTree :=
  empty.writeFile ["/", "work", "main.bal"] (.text "public client class Client \x7b\x7d")

/-- A service with its settings in `home` and compiled packages in `repo`. -/
def Service.atHome : Service :=
  ⟨Path.ofString "home/Settings.toml", [Path.ofString "repo"], "http://localhost", "1"⟩

/-- The client is listed next to a settings file that cannot be read as well as next to none. -/
theorem list_isolated_beside_settings :
    let broken := FileTree.oneClient.writeFile ["/", "home", "Settings.toml"] (.text "[proxy")
    let missing := FileTree.oneClient.makeDirectories ["/", "home"]
    let request : ListRequest := ⟨"", "work/main.bal"⟩
    let listing := (Service.atHome.list ⟨broken, []⟩ request Network.down).1
    let other := (Service.atHome.list ⟨missing, []⟩ request (Network.ofReplies [])).1
    FileTree.SameButSettings (Path.ofString request.targetFile) ["/", "home"] broken missing ∧
      listing.response.fromProject.map (·.name) = ["Client"] ∧
      other.response.fromProject = listing.response.fromProject ∧
      other.projectFailures = listing.projectFailures := by
  have hproject : FileTree.oneClient.WellFormed :=
    FileTree.wellFormed_empty.writeFile ["/"] ["work", "main.bal"] (by decide) (by decide)
      (by decide) _
  have hsame : FileTree.SameButSettings (Path.ofString "work/main.bal") ["/", "home"]
      (FileTree.oneClient.writeFile ["/", "home", "Settings.toml"] (.text "[proxy"))
      (FileTree.oneClient.makeDirectories ["/", "home"]) :=
    { rest := rfl
      wellFormed :=
        ⟨hproject.writeFile ["/"] ["home", "Settings.toml"] (by decide) (by decide) (by decide) _,
          hproject.makeDirectories ["/"] ["home"] (by decide) (by decide)⟩
      apart :=
        ⟨⟨by decide, by unfold FileTree.Avoids; decide, by decide⟩,
          ⟨by decide, by unfold FileTree.Avoids; decide, by decide⟩⟩ }
  refine ⟨hsame, by decide +kernel, ?_⟩
  exact (list_isolated _ _ ⟨"", "work/main.bal"⟩ _).1 _ _ _ "" _ _ hsame

end ConnectorCatalog
