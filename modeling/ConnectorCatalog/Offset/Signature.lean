import ConnectorCatalog.Connector.Signature
import ConnectorCatalog.Offset.Bracket

/-!
# Parameters and return types by offset

Parameter lists and return types are measured out in the masked text and cut from the source at the
same offsets.
-/

namespace ConnectorCatalog.Offset

/-- Where the name of an annotation ends. -/
def annotationNameEnd (t : List Char) : Nat :=
  (findChar? (fun c => isBlank c || c == '\x7b') t).getD (byteLength t)

theorem annotationNameEnd_pos (r : List Char) : 0 < annotationNameEnd ('@' :: r) := by
  unfold annotationNameEnd findChar?
  cases h : cutAtFirst (fun c => isBlank c || c == '\x7b') ('@' :: r) with
  | none => exact byteLength_pos_of_ne_nil (by simp)
  | some p =>
    have hp : p.1 ≠ [] := by
      rintro h0
      have hat : (isBlank '@' || '@' == '\x7b') = false := by decide
      simp only [cutAtFirst, hat, Bool.false_eq_true, if_false, Option.map_eq_some_iff,
        Prod.exists] at h
      obtain ⟨u, v, -, rfl⟩ := h
      cases h0
    exact byteLength_pos_of_ne_nil hp

/-- What follows the first annotation of `t`. A mapping ends at the first closing brace. -/
def afterAnnotation (t : List Char) : Except Fault (List Char) := do
  let rest ← slice t (annotationNameEnd t) (byteLength t)
  if (trimStart rest).head? = some '\x7b' then
    match findChar? (· == '\x7d') (trimStart rest) with
    | none => return []
    | some close =>
      let mapping ← slice (trimStart rest) (close + 1) (byteLength (trimStart rest))
      return trimStart mapping
  else return trimStart rest

theorem length_of_afterAnnotation {r s : List Char} (h : afterAnnotation ('@' :: r) = .ok s) :
    s.length < ('@' :: r).length := by
  unfold afterAnnotation at h
  cases hr : slice ('@' :: r) (annotationNameEnd ('@' :: r)) (byteLength ('@' :: r)) with
  | error e => rw [hr] at h; cases h
  | ok rest =>
    rw [hr] at h
    simp only [bind, Except.bind, pure, Except.pure] at h
    have hlt := length_of_slice (annotationNameEnd_pos r) hr
    have hle := length_trimStart_le rest
    split at h
    · split at h
      · cases h
        simp
      · rename_i close hc
        split at h
        · cases h
        · rename_i mapping hm
          cases h
          have h1 := length_of_slice (Nat.succ_pos close) hm
          have h2 := length_trimStart_le mapping
          omega
    · cases h
      omega

/-- A declaration without the annotations before it; `t` has no blanks before it. -/
def stripFrom (t : List Char) : Except Fault (List Char) :=
  match t with
  | '@' :: r =>
    match h : afterAnnotation ('@' :: r) with
    | .error e => .error e
    | .ok rest =>
      have := length_of_afterAnnotation h
      stripFrom rest
  | t => .ok t
termination_by t.length
decreasing_by exact this

/-- A declaration without the annotations and blanks before it. -/
def stripAnnotations (declaration : List Char) : Except Fault (List Char) :=
  stripFrom (trimStart declaration)

/-- More than blanks show between two offsets. -/
def isShown (masked : List Char) (range : Nat × Nat) : Except Fault Bool := do
  let text ← slice masked range.1 range.2
  return !(trim text).isEmpty

/-- The text ends in `w` and blanks. -/
def endsInWord (w : String) (t : List Char) : Bool := w.toList.reverse.isPrefixOf (trimEnd t).reverse

section
variable (mode : Overflow)

/-- The parameter declared between two offsets, if there are a type and a name. -/
def parameterAt (docs : Documentation) (source masked : List Char) (range : Nat × Nat) :
    Except Fault (Option Parameter) := do
  let parts ← splitTopLevel mode (bytesOf masked) range.1 range.2 '='
  let declared ← elementAt parts 0
  let text ← slice source declared.1 declared.2
  let declaration ← stripAnnotations (trim text)
  match cutAtLast isBlank declaration with
  | none => return none
  | some (type, name) =>
    return some {
      name := String.ofList (trim name)
      typeName := String.ofList (trim type)
      defaultable := 1 < parts.length
      documentation := docs.parameter? (String.ofList (trim name)) }

/-- The parameters declared between two offsets. -/
def parametersAt (docs : Documentation) (source masked : List Char) (first last : Nat) :
    Except Fault (List Parameter) := do
  let ranges ← splitTopLevel mode (bytesOf masked) first last ','
  let shown ← ranges.filterM (isShown masked)
  let parameters ← shown.mapM (parameterAt mode docs source masked)
  return parameters.filterMap id

/-- The offset before `limit` at which a type ends that is read from offset `i` on, `depth` being its
nesting so far. The braces of record and object types are passed over; there is no end if they are
not closed before `limit`. -/
def typeEnd (masked : List Char) (limit : Nat) (depth : Int32) (i : Nat) :
    Except Fault (Option Nat) :=
  if _h : i < limit then
    match elementAt (bytesOf masked) i with
    | .error e => .error e
    | .ok b =>
      let c := byteView b
      if c = '(' ∨ c = '[' ∨ c = '<' then do
        let depth ← mode.count (depth.toInt + 1)
        typeEnd masked limit depth (i + 1)
      else if c = ')' ∨ c = ']' ∨ c = '>' then do
        let depth ← mode.count (depth.toInt - 1)
        typeEnd masked limit depth (i + 1)
      else if c = '\x7b' ∧ depth = 0 then
        match slice masked 0 i with
        | .error e => .error e
        | .ok preceding =>
          if endsInWord "record" preceding || endsInWord "object" preceding then
            match hm : matchingClose (bytesOf masked) i with
            | .error e => .error e
            | .ok none => .ok none
            | .ok (some close) =>
              have := le_of_matchingClose hm
              if close < limit then typeEnd masked limit depth (close + 1) else .ok none
          else .ok (some i)
      else if (c = ';' ∨ c = '=') ∧ depth = 0 then .ok (some i)
      else typeEnd masked limit depth (i + 1)
  else .ok (some i)
termination_by limit - i

/-- The type after `returns` between offset `first` and offset `limit`. -/
def returnTypeAt (source masked : List Char) (first limit : Nat) :
    Except Fault (Option String) :=
  if limit ≤ first then return none
  else do
    let after ← slice masked first limit
    if "returns".toList.isPrefixOf (trimStart after) then
      let start := first + (byteLength after - byteLength (trimStart after))
        + byteLength "returns".toList
      match ← typeEnd mode masked limit 0 start with
      | none => return none
      | some last =>
        let type ← slice source start last
        return if (trim type).isEmpty then none else some (String.ofList (trim type))
    else return none

end

end ConnectorCatalog.Offset
