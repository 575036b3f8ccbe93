import ConnectorCatalog.Config
import ConnectorCatalog.Proofs.Files.Place

/-!
# Empty options

What changes when empty options of a client are left out. The registry stays the same whatever the
environment says; an empty version hides the one that a variable names, and an empty home directory is
taken for the current one (`resolved_of_omitsEmpty`).
-/

namespace ConnectorCatalog

namespace Config

/-- `o'` is `o`, or left out where `o` is empty. -/
def Omits (o o' : Option String) : Prop := o' = o ∨ o = some "" ∧ o' = none

/-- `c'` has the options of `c`, some of the empty ones apart, which it leaves out. -/
structure OmitsEmpty (c c' : Config) : Prop where
  centralUrl : Omits c.centralUrl c'.centralUrl
  ballerinaVersion : Omits c.ballerinaVersion c'.ballerinaVersion
  ballerinaHome : Omits c.ballerinaHome c'.ballerinaHome

variable {c c' : Config} (env : Environment)

theorem filter_of_omits {o o' : Option String} (h : Omits o o') :
    (o'.filter fun text => !text.isEmpty) = o.filter fun text => !text.isEmpty := by
  rcases h with rfl | ⟨rfl, rfl⟩ <;> rfl

/-- The registry is the same: an empty option counts for nothing. -/
theorem registryUrl_of_omits (h : Omits c.centralUrl c'.centralUrl) :
    c'.registryUrl env = c.registryUrl env := by
  rw [registryUrl, registryUrl, filter_of_omits h]

theorem reportedVersion_of_empty (h : c.ballerinaVersion = some "") :
    c.reportedVersion env = defaultBallerinaVersion := by
  rw [reportedVersion, h]
  rfl

theorem reportedVersion_of_none (h : c.ballerinaVersion = none) :
    c.reportedVersion env = (env.nonempty? "BALLERINA_VERSION").getD defaultBallerinaVersion := by
  rw [reportedVersion, h]
  rfl

/-- An empty version hides what the environment says. -/
theorem reportedVersion_of_omits_iff (h : Omits c.ballerinaVersion c'.ballerinaVersion) :
    c'.reportedVersion env = c.reportedVersion env ↔
      c'.ballerinaVersion = c.ballerinaVersion ∨
        (env.nonempty? "BALLERINA_VERSION").getD defaultBallerinaVersion
          = defaultBallerinaVersion := by
  rcases h with h | ⟨hempty, hnone⟩
  · simp [reportedVersion, h]
  · rw [reportedVersion_of_empty env hempty, reportedVersion_of_none env hnone, hempty, hnone]
    simp

theorem homeDirectory_of_empty (h : c.ballerinaHome = some "") : c.homeDirectory env = [] := by
  rw [homeDirectory, h]
  rfl

theorem ofString_ne_nil {text : String} (h : text ≠ "") : Path.ofString text ≠ [] := by
  simpa [Path.ofString] using h

/-- A home directory that the environment names is not the current one. -/
theorem homeDirectory_ne_nil (h : c.ballerinaHome = none) : c.homeDirectory env ≠ [] := by
  rw [homeDirectory, h]
  dsimp only
  split
  · rename_i home hhome
    exact ofString_ne_nil (by simpa using (Option.filter_eq_some_iff.1 hhome).2)
  · split
    · exact Path.child_ne_nil (by decide) _
    · decide

theorem homeDirectory_of_omits_iff (h : Omits c.ballerinaHome c'.ballerinaHome) :
    c'.homeDirectory env = c.homeDirectory env ↔ c'.ballerinaHome = c.ballerinaHome := by
  rcases h with h | ⟨hempty, hnone⟩
  · simp [homeDirectory, h]
  · rw [homeDirectory_of_empty env hempty, hempty, hnone]
    simp [homeDirectory_ne_nil env hnone]

/-- The settings stand below the home directory, so they are looked for elsewhere if that is another.
-/
theorem settingsPath_of_omits_iff (h : Omits c.ballerinaHome c'.ballerinaHome) :
    c'.settingsPath env = c.settingsPath env ↔ c'.ballerinaHome = c.ballerinaHome := by
  refine ⟨fun hsettings => ?_, fun hhome => ?_⟩
  · rcases h with h | ⟨hempty, hnone⟩
    · exact h
    · have hlength := congrArg List.length hsettings
      have hpos := List.length_pos_of_ne_nil (homeDirectory_ne_nil env hnone)
      have hname : Path.isAbsolute "Settings.toml".toList = false := by decide
      rw [settingsPath, settingsPath, homeDirectory_of_empty env hempty, Path.child, Path.child,
        Path.join, Path.join, hname] at hlength
      split_ifs at hlength <;> simp_all
  · rw [settingsPath, settingsPath, (homeDirectory_of_omits_iff env h).2 hhome]

/-- Leaving out empty options leaves the registry what it is in every environment. The version stays
if an empty one is not left out, or if the environment names none but the built-in one. The home
directory, and with it the settings file, stays only if an empty one is not left out. -/
theorem resolved_of_omitsEmpty (h : c.OmitsEmpty c') :
    c'.registryUrl env = c.registryUrl env ∧
    (c'.reportedVersion env = c.reportedVersion env ↔
      c'.ballerinaVersion = c.ballerinaVersion ∨
        (env.nonempty? "BALLERINA_VERSION").getD defaultBallerinaVersion
          = defaultBallerinaVersion) ∧
    (c'.homeDirectory env = c.homeDirectory env ↔ c'.ballerinaHome = c.ballerinaHome) ∧
    (c'.settingsPath env = c.settingsPath env ↔ c'.ballerinaHome = c.ballerinaHome) :=
  ⟨registryUrl_of_omits env h.centralUrl, reportedVersion_of_omits_iff env h.ballerinaVersion,
    homeDirectory_of_omits_iff env h.ballerinaHome, settingsPath_of_omits_iff env h.ballerinaHome⟩

/-- All three options are empty, and the environment names another registry and a home directory but
no version: the registry and the version stay, the home directory does not. -/
theorem resolved_of_omitsEmpty_all :
    let c : Config := ⟨some "", some "", some ""⟩
    let env : Environment := [("BALLERINA_DEV_CENTRAL", "TRUE"), ("BALLERINA_VERSION", ""),
      ("BALLERINA_HOME_DIR", "/srv")]
    c.OmitsEmpty default ∧
      c.registryUrl env = developmentRegistry ∧ default.registryUrl env = c.registryUrl env ∧
      default.reportedVersion env = c.reportedVersion env ∧
      default.homeDirectory env ≠ c.homeDirectory env ∧
      default.settingsPath env ≠ c.settingsPath env := by
  intro c env
  have hall : c.OmitsEmpty default := ⟨.inr ⟨rfl, rfl⟩, .inr ⟨rfl, rfl⟩, .inr ⟨rfl, rfl⟩⟩
  obtain ⟨hregistry, hversion, hhome, hsettings⟩ := resolved_of_omitsEmpty env hall
  exact ⟨hall, by decide, hregistry, hversion.2 (.inr (by decide)), mt hhome.1 (by decide),
    mt hsettings.1 (by decide)⟩

/-- An empty version hides the one that the environment names, and an empty home directory is the
current one although the environment names another. -/
theorem empty_options_hide_environment :
    let c : Config := ⟨none, some "", some ""⟩
    let env : Environment := [("BALLERINA_VERSION", "2201.9.0"), ("BALLERINA_HOME_DIR", "/srv")]
    c.OmitsEmpty default ∧
      c.reportedVersion env = "2201.8.0" ∧ default.reportedVersion env = "2201.9.0" ∧
      c.homeDirectory env = "".toList ∧ default.homeDirectory env = "/srv".toList ∧
      c.settingsPath env = "Settings.toml".toList ∧
      default.settingsPath env = "/srv/Settings.toml".toList :=
  ⟨⟨.inl rfl, .inr ⟨rfl, rfl⟩, .inr ⟨rfl, rfl⟩⟩, by decide⟩

end Config

end ConnectorCatalog
