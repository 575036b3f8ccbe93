import ConnectorCatalog.Proofs.Connector.Wire
import ConnectorCatalog.Request

/-!
# Messages written and read

Whatever is asked or answered comes back from its JSON form as it was, and rewriting a JSON value,
that is reading it and writing what was read, changes nothing the second time (`wire_roundTrips`).
-/

namespace ConnectorCatalog

open Shape

/-- Reading undoes writing, and what was rewritten once is rewritten as itself. This holds of the
values as they are written and of their canonical forms, where `sorted` is what is read from the
canonical form in place of a value. -/
structure RoundTrips {α : Type} (write : α → Json) (read : Json → Except Mismatch α)
    (sorted : α → α) : Prop where
  read_write : ∀ x, read (write x) = .ok x
  read_canonical : ∀ x, read (write x).canonical = .ok (sorted x)
  rewrite : ∀ j k, write <$> read j = .ok k → write <$> read k = .ok k
  rewrite_canonical : ∀ j k, (fun x => (write x).canonical) <$> read j = .ok k →
    (fun x => (write x).canonical) <$> read k = .ok k

theorem roundTrips_of {α : Type} {write : α → Json} {read : Json → Except Mismatch α}
    {sorted : α → α} (hwrite : ∀ x, read (write x) = .ok x)
    (hsorted : ∀ j x, read j = .ok x → read j.canonical = .ok (sorted x))
    (hcanonical : ∀ x, (write (sorted x)).canonical = (write x).canonical) :
    RoundTrips write read sorted where
  read_write := hwrite
  read_canonical := fun x => hsorted _ x (hwrite x)
  rewrite := fun j k h => by
    obtain ⟨x, -, rfl⟩ := map_eq_ok.1 h
    exact map_eq_ok.2 ⟨x, hwrite x, rfl⟩
  rewrite_canonical := fun j k h => by
    obtain ⟨x, -, rfl⟩ := map_eq_ok.1 h
    exact map_eq_ok.2 ⟨sorted x, hsorted _ x (hwrite x), hcanonical x⟩

theorem nullable_string_ofOption (text : Option String) :
    nullable Shape.string (.ofOption (text.map .string)) = .ok () := by
  cases text <;> rfl

@[simp]
theorem text?_ofOption (text : Option String) :
    (Json.ofOption (text.map .string)).text? = text := by
  cases text <;> rfl

namespace ListRequest

theorem ofJson_toJson (r : ListRequest) : ofJson r.toJson = .ok r := by
  have hfields : Apart fields := by simp [Apart, fields, Field.optional]
  have hfollows : Follows fields [("packageName", .string r.packageName),
      ("targetFile", .string r.targetFile)] := .given rfl (.given rfl .nil)
  rw [ofJson, toJson, members_of_follows hfields hfollows]
  rfl

theorem steady_ofJson : Steady ofJson :=
  steady_of_members (by simp [fields, Field.optional, stable_string]) fun hms h => by
    simpa only [textMember_canonical hms] using h

end ListRequest

namespace LookupRequest

theorem ofJson_toJson (r : LookupRequest) : ofJson r.toJson = .ok r := by
  have hfields : Apart fields := by
    simp [Apart, fields, Field.optional, Field.optionalOrNull]
  have hfollows : Follows fields [("connectorId", .ofOption (r.connectorId.map .string)),
      ("isFullConnector", .bool r.isFullConnector), ("orgName", .string r.organization),
      ("packageName", .string r.packageName), ("moduleName", .string r.moduleName),
      ("version", .string r.version), ("name", .string r.name),
      ("targetFile", .ofOption (r.targetFile.map .string))] :=
    .given (nullable_string_ofOption _) (.given rfl (.given rfl (.given rfl (.given rfl
      (.given rfl (.given rfl (.given (nullable_string_ofOption _) .nil)))))))
  rw [ofJson, toJson, members_of_follows hfields hfollows]
  simp [bind, Except.bind, textMember, textMember?, truthMember, List.lookup_cons]

theorem steady_ofJson : Steady ofJson :=
  steady_of_members
    (by simp [fields, Field.optional, Field.optionalOrNull, stable_string, stable_bool,
      stable_string.nullable])
    fun hms h => by
      simpa only [textMember_canonical hms, textMember?_canonical hms, truthMember_canonical hms]
        using h

end LookupRequest

namespace QualifiedName

theorem ofJson_toJson (q : QualifiedName) : ofJson q.toJson = .ok q := by
  have hfields : Apart fields := by simp [Apart, fields, Field.required]
  have hfollows : Follows fields [("org", .string q.organization), ("package", .string q.package),
      ("module", .string q.module), ("version", .string q.version), ("name", .string q.name)] :=
    .given rfl (.given rfl (.given rfl (.given rfl (.given rfl .nil))))
  rw [ofJson, toJson, members_of_follows hfields hfollows]
  rfl

theorem steady_ofJson : Steady ofJson :=
  steady_of_members (by simp [fields, Field.required, stable_string]) fun hms h => by
    simpa only [textMember_canonical hms] using h

end QualifiedName

namespace ListResponse

/-- The response with canonical entries, which are equal as JSON values. -/
def sorted (r : ListResponse) : ListResponse :=
  ⟨r.fromRegistry.map Json.canonical, r.fromProject⟩

theorem elements_any : ∀ xs : List Json, elements any xs = .ok ()
  | [] => rfl
  | _ :: xs => elements_any xs

theorem ofJson_toJson (r : ListResponse) : ofJson r.toJson = .ok r := by
  have hfields : Apart fields := by simp [Apart, fields, Field.optional]
  have hfollows : Follows fields [("central", .array r.fromRegistry),
      ("local", .array (r.fromProject.map Connector.toJson))] :=
    .given (elements_any _) (.given (elements_map Connector.shape_toJson _) .nil)
  rw [ofJson, toJson, members_of_follows hfields hfollows]
  simp [bind, Except.bind, readElements, elementsMember, List.lookup_cons,
    readAll_map Connector.ofJson_toJson]

theorem ofJson_canonical {j : Json} {r : ListResponse} (h : ofJson j = .ok r) :
    ofJson j.canonical = .ok r.sorted := by
  have hstable : ∀ f ∈ fields, Stable f.shape := by
    simp [fields, Field.optional, stable_any.list, Connector.shape,
      (stable_record Connector.stable_fields).list]
  simp only [ofJson, bind_eq_ok, Except.ok.injEq] at h
  obtain ⟨ms, hms, connectors, hconnectors, rfl⟩ := h
  obtain ⟨ms', hms', hlookup⟩ := members_canonical hstable hms
  rw [ofJson, hms']
  simp [bind, Except.bind, readElements_canonical hlookup Connector.steady_ofJson hconnectors,
    elementsMember_canonical hlookup, sorted]

theorem canonical_toJson_sorted (r : ListResponse) :
    r.sorted.toJson.canonical = r.toJson.canonical := by
  simp [toJson, sorted, Json.canonical, Function.comp_def, Json.canonical_canonical]

end ListResponse

/-- Connectors, requests, responses and qualified names come back from their JSON form, and every
JSON value that is read as one of them is rewritten the second time as it was the first time. -/
theorem wire_roundTrips :
    RoundTrips Connector.toJson Connector.ofJson id ∧
    RoundTrips ListResponse.toJson ListResponse.ofJson ListResponse.sorted ∧
    RoundTrips LookupRequest.toJson LookupRequest.ofJson id ∧
    RoundTrips ListRequest.toJson ListRequest.ofJson id ∧
    RoundTrips QualifiedName.toJson QualifiedName.ofJson id :=
  ⟨roundTrips_of Connector.ofJson_toJson Connector.steady_ofJson fun _ => rfl,
    roundTrips_of ListResponse.ofJson_toJson (fun _ _ => ListResponse.ofJson_canonical)
      ListResponse.canonical_toJson_sorted,
    roundTrips_of LookupRequest.ofJson_toJson LookupRequest.steady_ofJson fun _ => rfl,
    roundTrips_of ListRequest.ofJson_toJson ListRequest.steady_ofJson fun _ => rfl,
    roundTrips_of QualifiedName.ofJson_toJson QualifiedName.steady_ofJson fun _ => rfl⟩

-- a field under its other name and a member without a field are read, and rewritten as all fields
example : LookupRequest.toJson <$> LookupRequest.ofJson
      (.object [("fullConnector", .bool true), ("other", .null)])
    = .ok (LookupRequest.toJson ⟨none, true, "", "", "", "", "", none⟩) := rfl

end ConnectorCatalog
