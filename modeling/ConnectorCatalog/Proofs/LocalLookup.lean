import ConnectorCatalog.Proofs.Listing
import ConnectorCatalog.Proofs.Lookup

/-!
# Listing a project and looking into it

A listing and a look-up load the same project, so they agree on it: a look-up by nothing but a file
finds what a listing of that file has first under the name, and where the listing has nothing it goes
on as if no file had been given (`lookup_agrees_with_list`).
-/

namespace ConnectorCatalog

namespace Service

variable {s : Service} {around : Surroundings} {request : LookupRequest} {n : Network}

/-- A look-up by nothing that the registry knows begins with the file. -/
theorem lookup_eq_of_not_registry (hid : request.connectorId = none ∨ request.connectorId = some "")
    (hname : request.isFullConnector = false) :
    s.lookup around request n = s.lookupBy around request [.byLocalFile, .byPackage] n := by
  have hid : Strategy.byId.applies request = false := by
    rcases hid with hid | hid <;> simp [Strategy.applies, hid]
  have hname : Strategy.byQualifiedName.applies request = false := hname
  rw [lookup, Strategy.all, lookupBy_of_not_applies hid, lookupBy_of_not_applies hname]

/-- A project that can be loaded is looked into without the registry. -/
theorem tryStrategy_byLocalFile {targetFile : String} {connectors : List Connector}
    (hfile : request.targetFile = some targetFile)
    (hloaded : around.connectors (Path.ofString targetFile) .summary = .ok connectors) :
    s.tryStrategy around request .byLocalFile n
      = (.ok (connectorNamed? request.name connectors), n) := by
  have hpath : request.targetFile.getD "" = targetFile := by rw [hfile, Option.getD_some]
  simp only [tryStrategy, hpath, hloaded]
  rfl

/-- The compiled package is looked into whether or not a file is given. -/
theorem lookupBy_package (targetFile : Option String) :
    s.lookupBy around { request with targetFile } [.byPackage] n
      = s.lookupBy around request [.byPackage] n := by
  unfold lookupBy
  rfl

theorem listed_of_no_failures {listRequest : ListRequest}
    (h : (s.list around listRequest n).1.projectFailures = []) :
    around.connectors (Path.ofString listRequest.targetFile) .summary
      = .ok (s.list around listRequest n).1.response.fromProject := by
  rw [(failures_list s around listRequest n).2, listFailure_eq_nil] at h
  obtain ⟨connectors, h⟩ := h
  rw [h, list_eq]
  dsimp only
  rw [h]
  rfl

/-- If listing the project at or around a file does not fail, then looking up a name in that file, and
in nothing that the registry knows, agrees with the listing: it gives the first of the connectors
listed that has the name, without a failure and without the registry, and if none has it then what
the same look-up gives without the file. -/
theorem lookup_agrees_with_list (s : Service) (around : Surroundings) (listRequest : ListRequest)
    (request : LookupRequest) (n : Network)
    (hlisted : (s.list around listRequest n).1.projectFailures = [])
    (hfile : request.targetFile = some listRequest.targetFile)
    (hname : request.isFullConnector = false)
    (hid : request.connectorId = none ∨ request.connectorId = some "") :
    let connectors := (s.list around listRequest n).1.response.fromProject
    (∀ c, connectors.find? (·.name == request.name) = some c →
      s.lookup around request n = (⟨some c.toJson, some .byLocalFile, []⟩, n)) ∧
    (connectors.find? (·.name == request.name) = none →
      s.lookup around request n = s.lookup around { request with targetFile := none } n) := by
  intro connectors
  have hrun : s.tryStrategy around request .byLocalFile n = _ :=
    tryStrategy_byLocalFile hfile (listed_of_no_failures hlisted)
  have happlies : Strategy.byLocalFile.applies request = true := by
    simp [Strategy.applies, hfile]
  rw [lookup_eq_of_not_registry hid hname]
  refine ⟨fun c hc => lookupBy_of_found happlies ?_ _, fun hnone => ?_⟩
  · rw [hrun, connectorNamed?, hc]
    rfl
  · have hrun : s.tryStrategy around request .byLocalFile n = (.ok none, n) := by
      rw [hrun, connectorNamed?, hnone]
      rfl
    have hwithout : s.lookup around { request with targetFile := none } n = _ :=
      lookup_eq_of_not_registry hid hname
    have hnofile : Strategy.byLocalFile.applies { request with targetFile := none } = false := rfl
    rw [lookupBy_of_nothing happlies hrun, hwithout, lookupBy_of_not_applies hnofile]
    exact (lookupBy_package none).symm

/-- A look-up finds the client that is listed, and for another name does not need the file. -/
theorem lookup_agrees_with_list_one_client :
    let around : Surroundings := ⟨FileTree.oneClient, []⟩
    let n := Network.ofReplies []
    let listing := (atHome.list around ⟨"", "work/main.bal"⟩ n).1
    let client : LookupRequest := ⟨some "", false, "", "", "", "", "Client", some "work/main.bal"⟩
    let other : LookupRequest := ⟨none, false, "", "", "", "", "Other", some "work/main.bal"⟩
    listing.projectFailures = [] ∧
      (∃ c, listing.response.fromProject = [c] ∧
        atHome.lookup around client n = (⟨some c.toJson, some .byLocalFile, []⟩, n)) ∧
      atHome.lookup around other n = atHome.lookup around { other with targetFile := none } n := by
  intro around n listing client other
  have hlisted : listing.projectFailures = [] := by decide +kernel
  have hnames : listing.response.fromProject.map (·.name) = ["Client"] := by decide +kernel
  obtain ⟨c, hc, hname⟩ := List.map_eq_singleton_iff.1 hnames
  have hfind : listing.response.fromProject.find? (·.name == "Client") = some c := by
    simp [hc, hname]
  have hfind' : listing.response.fromProject.find? (·.name == "Other") = none := by
    simp [hc, hname]
  refine ⟨hlisted, ⟨c, hc, ?_⟩, ?_⟩
  · exact (lookup_agrees_with_list atHome around ⟨"", "work/main.bal"⟩ client n hlisted rfl rfl
      (.inr rfl)).1 c hfind
  · exact (lookup_agrees_with_list atHome around ⟨"", "work/main.bal"⟩ other n hlisted rfl rfl
      (.inl rfl)).2 hfind'

end Service

end ConnectorCatalog
