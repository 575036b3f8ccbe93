import ConnectorCatalog.Url.Folding
import ConnectorCatalog.Url.Percent
import ConnectorCatalog.Url.Punycode

/-!
# Domain names

A domain name is brought to its ASCII form: its letters are folded, and a label with characters
outside ASCII is written in Punycode behind `xn--`. A label that comes in Punycode has to be the one
way to write its text. Some characters stand in no name.
-/

namespace ConnectorCatalog.Domain

/-- What marks a label in Punycode. -/
def marker : List Char := ['x', 'n', '-', '-']

/-- The character stands in no name: a space or control character, or one with a meaning in URLs. -/
def isForbidden (c : Char) : Bool :=
  c.toNat ≤ 32 || c.toNat == 127
    || ['%', '#', '/', ':', '<', '>', '?', '@', '[', '\\', ']', '^', '|'].contains c

/-- The text may be a label: its characters can be named, and it does not begin with a mark. -/
def isLabel (text : List Char) : Bool :=
  !text.any isUnnameable && !text.head?.any isMark

/-- The ASCII form of a folded label. -/
def labelToAscii? (label : List Char) : Option (List Char) :=
  match marker.isPrefixOf? label with
  | some code =>
    match Punycode.decode? code with
    | some text =>
      if text.all Punycode.isAscii || folded text != text || !isLabel text then none else some label
    | none => none
  | none =>
    if !isLabel label then none
    else if label.all Punycode.isAscii then some label
    else some (marker ++ Punycode.encode label)

/-- The ASCII form of a name. -/
def toAscii? (name : List Char) : Option (List Char) := do
  let labels ← (cutAll (· == '.') (folded name)).mapM labelToAscii?
  let name := joinWith ['.'] labels
  if name.any isForbidden then none else some name

end ConnectorCatalog.Domain
