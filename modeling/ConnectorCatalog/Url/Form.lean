import ConnectorCatalog.Url.Basic

/-!
# Form encoding

Pairs of names and values in a query: letters, digits and `*-._` stand for themselves, a space is a
plus sign, everything else is percent-encoded, and pairs are joined by ampersands.
-/

namespace ConnectorCatalog

namespace Form

/-- The character stands for itself. -/
def isPlain (c : Char) : Bool :=
  c.isAlphanum || c == '*' || c == '-' || c == '.' || c == '_'

/-- Encodes a name or value. -/
def encode (s : List Char) : List Char :=
  s.flatMap fun c => if isPlain c then [c] else if c = ' ' then ['+'] else Percent.encodeChar c

/-- Encodes a pair. -/
def encodePair (name value : List Char) : List Char := encode name ++ ['='] ++ encode value

/-- The bytes that an encoded name or value stands for. -/
def decode (s : List Char) : List UInt8 :=
  Percent.decode (s.map fun c => if c = '+' then ' ' else c)

/-- The pairs of a query, as bytes. -/
def decodePairs (query : List Char) : List (List UInt8 × List UInt8) :=
  ((cutAll (· == '&') query).filter (!·.isEmpty)).map fun piece =>
    let (name, value) := (cutAtFirst (· == '=') piece).getD (piece, [])
    (decode name, decode value)

/-- A query with pairs behind what it holds already. -/
def append (query : List Char) (pairs : List (String × String)) : List Char :=
  pairs.foldl (fun query (name, value) =>
    query ++ (if query.isEmpty then [] else ['&']) ++ encodePair name.toList value.toList) query

end Form

/-- The URL with pairs at the end of its query. -/
def Url.withPairs (u : Url) (pairs : List (String × String)) : Url :=
  if pairs.isEmpty then u else { u with query := some (Form.append (u.query.getD []) pairs) }

end ConnectorCatalog
