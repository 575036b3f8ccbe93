/-!
# Connectors

A connector is a public client class of a package: what it is called, what is written about it, and
in a detailed description the functions that a program can call on it.
-/

namespace ConnectorCatalog

/-- The package that a connector belongs to. -/
structure PackageName where
  organization : String
  name : String
  version : String
deriving DecidableEq, Repr

/-- What a `@display` annotation says. -/
structure DisplayAnnotation where
  label : Option String
  iconPath : Option String
deriving DecidableEq, Repr

/-- A parameter of a function. -/
structure Parameter where
  name : String
  typeName : String
  defaultable : Bool
  documentation : Option String
deriving DecidableEq, Repr

/-- The type that a function returns. -/
structure ReturnType where
  typeName : String
  documentation : Option String
deriving DecidableEq, Repr

/-- A function that a program can call on a connector. A resource function is named by its accessor
and has a path. -/
structure ConnectorFunction where
  name : String
  resourcePath : Option String
  qualifiers : List String
  documentation : Option String
  parameters : List Parameter
  returnType : Option ReturnType
deriving DecidableEq, Repr

/-- A connector. -/
structure Connector where
  name : String
  displayName : String
  documentation : Option String
  moduleName : String
  package : PackageName
  displayAnnotation : Option DisplayAnnotation
  functions : List ConnectorFunction
deriving DecidableEq, Repr

end ConnectorCatalog
