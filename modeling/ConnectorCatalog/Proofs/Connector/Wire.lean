import ConnectorCatalog.Connector.Wire
import ConnectorCatalog.Proofs.Json.Members

/-!
# Connectors written and read

A connector that is written as JSON is read as itself, whichever of its fields are absent
(`Connector.ofJson_toJson`). What is read as a connector is read as the same connector when the
members of its objects are sorted (`Connector.steady_ofJson`).
-/

namespace ConnectorCatalog

open Shape

/-! ## Values of members -/

@[simp]
theorem text?_string (text : String) : (Json.string text).text? = some text := rfl

@[simp]
theorem truth?_bool (b : Bool) : (Json.bool b).truth? = some b := rfl

@[simp]
theorem elements?_array (xs : List Json) : (Json.array xs).elements? = some xs := rfl

theorem text?_comp_canonical : Json.text? ∘ Json.canonical = Json.text? := by
  funext j
  cases j <;> rfl

theorem truth?_comp_canonical : Json.truth? ∘ Json.canonical = Json.truth? := by
  funext j
  cases j <;> rfl

@[simp]
theorem elements?_canonical (j : Json) :
    j.canonical.elements? = j.elements?.map (List.map Json.canonical) := by
  cases j with
  | array xs => simp [Json.canonical]
  | _ => rfl

@[simp]
theorem map_string_bind_text? (text : Option String) :
    (text.map Json.string).bind Json.text? = text := by
  cases text <;> rfl

@[simp]
theorem filterMap_text?_string (texts : List String) :
    texts.filterMap (Json.text? ∘ Json.string) = texts :=
  List.filterMap_some

/-! ## Members written -/

section

variable {α : Type} {read : Json → Except Mismatch α} {write : α → Json}

/-- A member that is there if `x` is. -/
def memberOf (name : String) (write : α → Json) (x : Option α) : List (String × Json) :=
  (x.map fun a => (name, write a)).toList

theorem optionalText_eq (name : String) (text : Option String) :
    optionalText name text = memberOf name .string text := by
  cases text <;> rfl

theorem lookup_memberOf (name key : String) (x : Option α) :
    (memberOf name write x).lookup key = if key = name then x.map write else none := by
  cases x <;> simp [memberOf, lookup_cons_eq]

theorem Shape.Follows.memberOf {f : Field} {fs : List Field} {ms : List (String × Json)}
    (hf : f.presence ≠ .required) (hwrite : ∀ a, f.shape (write a) = .ok ()) (x : Option α)
    (h : Follows fs ms) : Follows (f :: fs) (memberOf f.name write x ++ ms) := by
  cases x with
  | none => exact h.omitted hf
  | some a => exact h.given (hwrite a)

theorem elements_map {s : Shape} (h : ∀ a, s (write a) = .ok ()) :
    ∀ xs : List α, elements s (xs.map write) = .ok ()
  | [] => rfl
  | x :: xs => by
    rw [List.map_cons, elements, h]
    exact elements_map h xs

theorem readAll_map (h : ∀ a, read (write a) = .ok a) :
    ∀ xs : List α, readAll read (xs.map write) = .ok xs
  | [] => rfl
  | x :: xs => by
    rw [List.map_cons, readAll, h, readAll_map h xs]
    rfl

theorem readElements_eq (h : ∀ a, read (write a) = .ok a) {ms : List (String × Json)}
    {name : String} {xs : List α} (hms : elementsMember ms name = xs.map write) :
    readElements read ms name = .ok xs := by
  rw [readElements, hms, readAll_map h]

theorem readMember?_some {ms : List (String × Json)} {name : String} {j : Json}
    (hms : ms.lookup name = some j) (hj : j ≠ .null) :
    readMember? read ms name = some <$> read j := by
  unfold readMember?
  rw [hms]
  cases j <;> first | rfl | contradiction

theorem readMember?_eq (h : ∀ a, read (write a) = .ok a) (hnull : ∀ a, write a ≠ .null)
    {ms : List (String × Json)} {name : String} {x : Option α}
    (hms : ms.lookup name = x.map write) : readMember? read ms name = .ok x := by
  cases x with
  | none => rw [readMember?, hms]; rfl
  | some a => rw [readMember?_some hms (hnull a), h]; rfl

end

namespace PackageName

theorem apart_fields : Apart fields := by
  simp [Apart, fields, Field.required]

theorem follows (p : PackageName) : Follows fields [("organization", .string p.organization),
    ("name", .string p.name), ("version", .string p.version)] :=
  .given rfl (.given rfl (.given rfl .nil))

theorem shape_toJson (p : PackageName) : shape p.toJson = .ok () :=
  record_of_follows apart_fields p.follows

theorem ofJson_toJson (p : PackageName) : ofJson p.toJson = .ok p := by
  rw [ofJson, toJson, members_of_follows apart_fields p.follows]
  rfl

end PackageName

namespace DisplayAnnotation

/-- The members of a display annotation. -/
def written (d : DisplayAnnotation) : List (String × Json) :=
  memberOf "label" .string d.label ++ (memberOf "iconPath" .string d.iconPath ++ [])

theorem toJson_eq (d : DisplayAnnotation) : d.toJson = .object d.written := by
  simp [toJson, written, optionalText_eq]

theorem apart_fields : Apart fields := by
  simp [Apart, fields, Field.optionalOrNull]

theorem follows (d : DisplayAnnotation) : Follows fields d.written :=
  .memberOf (by decide) (fun _ => rfl) d.label
    (.memberOf (by decide) (fun _ => rfl) d.iconPath .nil)

theorem shape_toJson (d : DisplayAnnotation) : shape d.toJson = .ok () := by
  rw [toJson_eq]
  exact record_of_follows apart_fields d.follows

theorem ofJson_toJson (d : DisplayAnnotation) : ofJson d.toJson = .ok d := by
  rw [ofJson, toJson_eq, members_of_follows apart_fields d.follows]
  simp [bind, Except.bind, written, textMember?, List.lookup_append, lookup_memberOf]

end DisplayAnnotation

namespace Parameter

/-- The members of a parameter. -/
def written (p : Parameter) : List (String × Json) :=
  ("name", .string p.name) :: ("typeName", .string p.typeName)
    :: ("defaultable", .bool p.defaultable)
    :: (memberOf "documentation" .string p.documentation ++ [])

theorem toJson_eq (p : Parameter) : p.toJson = .object p.written := by
  simp [toJson, written, optionalText_eq]

theorem apart_fields : Apart fields := by
  simp [Apart, fields, Field.required, Field.optionalOrNull]

theorem follows (p : Parameter) : Follows fields p.written :=
  .given rfl (.given rfl (.given rfl
    (.memberOf (by decide) (fun _ => rfl) p.documentation .nil)))

theorem shape_toJson (p : Parameter) : shape p.toJson = .ok () := by
  rw [toJson_eq]
  exact record_of_follows apart_fields p.follows

theorem ofJson_toJson (p : Parameter) : ofJson p.toJson = .ok p := by
  rw [ofJson, toJson_eq, members_of_follows apart_fields p.follows]
  simp [bind, Except.bind, written, textMember, textMember?, truthMember, List.lookup_cons,
    lookup_memberOf]

end Parameter

namespace ReturnType

/-- The members of a return type. -/
def written (t : ReturnType) : List (String × Json) :=
  ("typeName", .string t.typeName) :: (memberOf "documentation" .string t.documentation ++ [])

theorem toJson_eq (t : ReturnType) : t.toJson = .object t.written := by
  simp [toJson, written, optionalText_eq]

theorem apart_fields : Apart fields := by
  simp [Apart, fields, Field.required, Field.optionalOrNull]

theorem follows (t : ReturnType) : Follows fields t.written :=
  .given rfl (.memberOf (by decide) (fun _ => rfl) t.documentation .nil)

theorem shape_toJson (t : ReturnType) : shape t.toJson = .ok () := by
  rw [toJson_eq]
  exact record_of_follows apart_fields t.follows

theorem ofJson_toJson (t : ReturnType) : ofJson t.toJson = .ok t := by
  rw [ofJson, toJson_eq, members_of_follows apart_fields t.follows]
  simp [bind, Except.bind, written, textMember, textMember?, List.lookup_cons, lookup_memberOf]

end ReturnType

namespace ConnectorFunction

/-- The members of a function. -/
def written (f : ConnectorFunction) : List (String × Json) :=
  ("name", .string f.name) :: (memberOf "resourcePath" .string f.resourcePath
    ++ ("qualifiers", .array (f.qualifiers.map .string))
    :: (memberOf "documentation" .string f.documentation
    ++ ("parameters", .array (f.parameters.map Parameter.toJson))
    :: (memberOf "returnType" ReturnType.toJson f.returnType ++ [])))

theorem toJson_eq (f : ConnectorFunction) : f.toJson = .object f.written := by
  simp [toJson, written, optionalText_eq, Json.ofStrings, memberOf]

theorem apart_fields : Apart fields := by
  simp [Apart, fields, Field.required, Field.optionalOrNull]

theorem follows (f : ConnectorFunction) : Follows fields f.written :=
  .given rfl (.memberOf (by decide) (fun _ => rfl) f.resourcePath
    (.given (elements_map (fun _ => rfl) f.qualifiers)
      (.memberOf (by decide) (fun _ => rfl) f.documentation
        (.given (elements_map Parameter.shape_toJson f.parameters)
          (.memberOf (by decide) ReturnType.shape_toJson f.returnType .nil)))))

theorem shape_toJson (f : ConnectorFunction) : shape f.toJson = .ok () := by
  rw [toJson_eq]
  exact record_of_follows apart_fields f.follows

theorem ofJson_toJson (f : ConnectorFunction) : ofJson f.toJson = .ok f := by
  have hparameters : readElements Parameter.ofJson f.written "parameters" = .ok f.parameters :=
    readElements_eq Parameter.ofJson_toJson (by
      simp [written, elementsMember, List.lookup_cons, List.lookup_append, lookup_memberOf])
  have hreturn : readMember? ReturnType.ofJson f.written "returnType" = .ok f.returnType :=
    readMember?_eq ReturnType.ofJson_toJson nofun (by
      simp [written, List.lookup_cons, List.lookup_append, lookup_memberOf])
  rw [ofJson, toJson_eq, members_of_follows apart_fields f.follows]
  simp only [bind, Except.bind, hparameters, hreturn]
  simp [written, textMember, textMember?, elementsMember, List.lookup_cons, List.lookup_append,
    lookup_memberOf]

end ConnectorFunction

namespace Connector

/-- The members of a connector. -/
def written (c : Connector) : List (String × Json) :=
  ("name", .string c.name) :: ("displayName", .string c.displayName)
    :: (memberOf "documentation" .string c.documentation
    ++ ("moduleName", .string c.moduleName) :: ("package", c.package.toJson)
    :: (memberOf "displayAnnotation" DisplayAnnotation.toJson c.displayAnnotation
    ++ (memberOf "functions" (fun fs => .array (fs.map ConnectorFunction.toJson))
        (if c.functions = [] then none else some c.functions) ++ [])))

theorem toJson_eq (c : Connector) : c.toJson = .object c.written := by
  cases h : c.functions <;> simp [toJson, written, optionalText_eq, memberOf, h]

theorem apart_fields : Apart fields := by
  simp [Apart, fields, Field.required, Field.optional, Field.optionalOrNull]

theorem follows (c : Connector) : Follows fields c.written :=
  .given rfl (.given rfl (.memberOf (by decide) (fun _ => rfl) c.documentation
    (.given rfl (.given c.package.shape_toJson
      (.memberOf (by decide) DisplayAnnotation.shape_toJson c.displayAnnotation
        (.memberOf (by decide) (elements_map ConnectorFunction.shape_toJson) _ .nil))))))

theorem shape_toJson (c : Connector) : shape c.toJson = .ok () := by
  rw [toJson_eq]
  exact record_of_follows apart_fields c.follows

theorem ofJson_toJson (c : Connector) : ofJson c.toJson = .ok c := by
  have hpackage : readMember? PackageName.ofJson c.written "package" = .ok (some c.package) :=
    readMember?_eq PackageName.ofJson_toJson nofun (by
      simp [written, List.lookup_cons, List.lookup_append, lookup_memberOf])
  have hannotation : readMember? DisplayAnnotation.ofJson c.written "displayAnnotation"
      = .ok c.displayAnnotation :=
    readMember?_eq DisplayAnnotation.ofJson_toJson nofun (by
      simp [written, List.lookup_cons, List.lookup_append, lookup_memberOf])
  have hfunctions : readElements ConnectorFunction.ofJson c.written "functions"
      = .ok c.functions :=
    readElements_eq ConnectorFunction.ofJson_toJson (by
      by_cases h : c.functions = [] <;> simp [written, elementsMember, List.lookup_cons,
        List.lookup_append, lookup_memberOf, h])
  rw [ofJson, toJson_eq, members_of_follows apart_fields c.follows]
  simp only [bind, Except.bind, hpackage, hannotation, hfunctions]
  simp [written, textMember, textMember?, List.lookup_cons, List.lookup_append, lookup_memberOf]

end Connector

/-! ## Sorted objects -/

/-- What is read from a value is read from its canonical form too. -/
def Steady {α : Type} (read : Json → Except Mismatch α) : Prop :=
  ∀ j x, read j = .ok x → read j.canonical = .ok x

section

variable {α : Type} {read : Json → Except Mismatch α} {ms ms' : List (String × Json)}
  (hms : ∀ key, ms'.lookup key = (ms.lookup key).map Json.canonical)

include hms

theorem textMember?_canonical (name : String) : textMember? ms' name = textMember? ms name := by
  rw [textMember?, hms, Option.bind_map, text?_comp_canonical, textMember?]

theorem textMember_canonical (name : String) : textMember ms' name = textMember ms name := by
  rw [textMember, hms, Option.bind_map, text?_comp_canonical, textMember]

theorem truthMember_canonical (name : String) : truthMember ms' name = truthMember ms name := by
  rw [truthMember, hms, Option.bind_map, truth?_comp_canonical, truthMember]

theorem elementsMember_canonical (name : String) :
    elementsMember ms' name = (elementsMember ms name).map Json.canonical := by
  rw [elementsMember, elementsMember, hms]
  cases ms.lookup name with
  | none => rfl
  | some j => cases h : j.elements? <;> simp [h]

omit hms in
theorem readAll_canonical (hread : Steady read) : ∀ {js : List Json} {xs : List α},
    readAll read js = .ok xs → readAll read (js.map Json.canonical) = .ok xs
  | [], _, h => h
  | j :: js, xs, h => by
    simp only [readAll, bind_eq_ok, Except.ok.injEq] at h
    obtain ⟨x, hx, rest, hrest, rfl⟩ := h
    rw [List.map_cons, readAll, hread j x hx, readAll_canonical hread hrest]
    rfl

theorem readElements_canonical (hread : Steady read) {name : String} {xs : List α}
    (h : readElements read ms name = .ok xs) : readElements read ms' name = .ok xs := by
  rw [readElements, elementsMember_canonical hms]
  exact readAll_canonical hread h

theorem readMember?_canonical (hread : Steady read) {name : String} {x : Option α}
    (h : readMember? read ms name = .ok x) : readMember? read ms' name = .ok x := by
  have hname := hms name
  cases hj : ms.lookup name with
  | none => simpa [readMember?, hj, hname] using h
  | some j =>
    by_cases hnull : j = .null
    · simpa [readMember?, hj, hname, hnull, Json.canonical] using h
    · rw [readMember?_some hj hnull, map_eq_pure_bind, bind_eq_ok] at h
      obtain ⟨a, ha, hx⟩ := h
      have hnull' : j.canonical ≠ .null := by cases j <;> simp_all [Json.canonical]
      rw [hj, Option.map_some] at hname
      rw [readMember?_some hname hnull', hread j a ha]
      exact hx

end

theorem steady_of_members {α : Type} {name : String} {fields : List Field}
    {build : List (String × Json) → Except Mismatch α} (hfields : ∀ f ∈ fields, Stable f.shape)
    (hbuild : ∀ {ms ms' x}, (∀ key, ms'.lookup key = (ms.lookup key).map Json.canonical) →
      build ms = .ok x → build ms' = .ok x) :
    Steady fun j => members name fields j >>= build := by
  intro j x h
  obtain ⟨ms, hms, hx⟩ := bind_eq_ok.1 h
  obtain ⟨ms', hms', hlookup⟩ := members_canonical hfields hms
  exact bind_eq_ok.2 ⟨ms', hms', hbuild hlookup hx⟩

namespace PackageName

theorem stable_fields : ∀ f ∈ fields, Stable f.shape := by
  simp [fields, Field.required, stable_string]

theorem steady_ofJson : Steady ofJson := by
  have hbuild : ofJson = fun j => members "ConnectorPackage" fields j >>= fun ms =>
      .ok (ofMembers ms) := funext fun j => map_eq_pure_bind ..
  rw [hbuild]
  refine steady_of_members stable_fields fun hms h => ?_
  simpa only [ofMembers, textMember_canonical hms] using h

end PackageName

namespace DisplayAnnotation

theorem stable_fields : ∀ f ∈ fields, Stable f.shape := by
  simp [fields, Field.optionalOrNull, stable_string.nullable]

theorem steady_ofJson : Steady ofJson :=
  steady_of_members stable_fields fun hms h => by
    simpa only [textMember?_canonical hms] using h

end DisplayAnnotation

namespace Parameter

theorem stable_fields : ∀ f ∈ fields, Stable f.shape := by
  simp [fields, Field.required, Field.optionalOrNull, stable_string, stable_bool,
    stable_string.nullable]

theorem steady_ofJson : Steady ofJson :=
  steady_of_members stable_fields fun hms h => by
    simpa only [textMember_canonical hms, truthMember_canonical hms, textMember?_canonical hms]
      using h

end Parameter

namespace ReturnType

theorem stable_fields : ∀ f ∈ fields, Stable f.shape := by
  simp [fields, Field.required, Field.optionalOrNull, stable_string, stable_string.nullable]

theorem steady_ofJson : Steady ofJson :=
  steady_of_members stable_fields fun hms h => by
    simpa only [textMember_canonical hms, textMember?_canonical hms] using h

end ReturnType

namespace ConnectorFunction

theorem stable_fields : ∀ f ∈ fields, Stable f.shape := by
  simp [fields, Field.required, Field.optionalOrNull, stable_string, stable_string.nullable,
    stable_string.list, Parameter.shape, ReturnType.shape,
    (stable_record Parameter.stable_fields).list, (stable_record ReturnType.stable_fields).nullable]

theorem steady_ofJson : Steady ofJson :=
  steady_of_members stable_fields fun hms h => by
    simp only [bind_eq_ok] at h ⊢
    obtain ⟨parameters, hparameters, returnType, hreturn, hx⟩ := h
    refine ⟨parameters, readElements_canonical hms Parameter.steady_ofJson hparameters, returnType,
      readMember?_canonical hms ReturnType.steady_ofJson hreturn, ?_⟩
    simpa only [textMember_canonical hms, textMember?_canonical hms, elementsMember_canonical hms,
      List.filterMap_map, text?_comp_canonical] using hx

end ConnectorFunction

namespace Connector

theorem stable_fields : ∀ f ∈ fields, Stable f.shape := by
  simp [fields, Field.required, Field.optional, Field.optionalOrNull, stable_string,
    stable_string.nullable, PackageName.shape, DisplayAnnotation.shape, ConnectorFunction.shape,
    stable_record PackageName.stable_fields,
    (stable_record DisplayAnnotation.stable_fields).nullable,
    (stable_record ConnectorFunction.stable_fields).list]

theorem steady_ofJson : Steady ofJson :=
  steady_of_members stable_fields fun hms h => by
    simp only [bind_eq_ok] at h ⊢
    obtain ⟨package, hpackage, annotation, hannotation, functions, hfunctions, hx⟩ := h
    refine ⟨package, readMember?_canonical hms PackageName.steady_ofJson hpackage, annotation,
      readMember?_canonical hms DisplayAnnotation.steady_ofJson hannotation, functions,
      readElements_canonical hms ConnectorFunction.steady_ofJson hfunctions, ?_⟩
    simpa only [textMember_canonical hms, textMember?_canonical hms] using hx

end Connector

end ConnectorCatalog
