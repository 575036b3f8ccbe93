import ConnectorCatalog.Url.Basic

/-!
# Registry errors

Why the registry gives no answer that can be used.
-/

namespace ConnectorCatalog

/-- Why there is no usable answer. -/
inductive RegistryError
  | unreachable (url : Url)
  | unsupported (url : Url)
  | invalidProxy (url : String)
  | notFound (what : String)
  | status (code : Nat) (message : String)
  | invalidUrl (cause : UrlError)
  | opaqueUrl
  | unreadable (url : Url)
deriving DecidableEq, Repr

/-- The words that tell which URL it was. -/
def forUrl (url : Url) : String := " for url (" ++ String.ofList url.text ++ ")"

/-- The words for a registry error. -/
def RegistryError.message : RegistryError → String
  | .unreachable url => "Network error: error sending request" ++ forUrl url
  | .unsupported url => "Network error: builder error" ++ forUrl url
  | .invalidProxy url => "Invalid proxy configuration: " ++ url ++ ": builder error"
  | .notFound what => "Connector not found: " ++ what
  | .status code message =>
    "Ballerina Central returned " ++ toString code ++ ": " ++ message
  | .invalidUrl cause => "Invalid response: Invalid registry URL: " ++ cause.message
  | .opaqueUrl => "Invalid response: Registry URL cannot be a base"
  | .unreadable url => "Invalid response: error decoding response body" ++ forUrl url

end ConnectorCatalog
