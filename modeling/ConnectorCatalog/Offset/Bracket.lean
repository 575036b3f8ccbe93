import ConnectorCatalog.Offset.Counter
import ConnectorCatalog.Source.Bracket

/-!
# Brackets by offset

Partners, nesting and top-level ranges in the bytes of a masked text. The ranges that are looked at are
checked. The count of openings without a partner is checked not to fall below zero; nesting, which
may well do so, is counted with 32 bits.
-/

namespace ConnectorCatalog.Offset

/-- The bytes from offset `first` up to offset `last`. -/
def sliceBytes (bytes : List UInt8) (first last : Nat) : Except Fault (List UInt8) :=
  sliceList bytes first last

/-- The offset at which the closings have made up for `depth` openings. The bytes looked at begin at
offset `offset`. -/
def scanClose (opening closing : Char) (depth offset : Nat) : List UInt8 → Except Fault (Option Nat)
  | [] => .ok none
  | b :: r =>
    if byteView b = opening then scanClose opening closing (depth + 1) (offset + 1) r
    else if byteView b = closing then do
      let depth ← predecessor depth
      if depth = 0 then return some offset else scanClose opening closing depth (offset + 1) r
    else scanClose opening closing depth (offset + 1) r

/-- The offset of the partner of the bracket at an offset. -/
def matchingClose (bytes : List UInt8) (opening : Nat) : Except Fault (Option Nat) :=
  match bytes[opening]? with
  | none => .ok none
  | some b =>
    match closing? (byteView b) with
    | none => .ok none
    | some closing => do
      let tail ← sliceBytes bytes opening bytes.length
      scanClose (byteView b) closing 0 opening tail

/-- Counts on from `depth`: an opening adds one, a closing takes one off. -/
def countFrom (mode : Overflow) (depth : Int32) (bytes : List UInt8) : Except Fault Int32 :=
  bytes.foldlM (fun depth b => mode.count (depth.toInt + nestingStep (byteView b))) depth

/-- Openings less closings between two offsets. -/
def nestingDepth (mode : Overflow) (bytes : List UInt8) (first last : Nat) : Except Fault Int32 := do
  let between ← sliceBytes bytes first last
  countFrom mode 0 between

/-- The ranges between the separators at nesting zero, from the one that begins at offset `start` on.
The bytes looked at begin at offset `i`, and `depth` is the nesting there. -/
def rangesFrom (mode : Overflow) (separator : Char) (start i : Nat) (depth : Int32) :
    List UInt8 → Except Fault (List (Nat × Nat))
  | [] => .ok [(start, i)]
  | b :: r => do
    let c := byteView b
    if typeNestingStep c ≠ 0 then
      let depth ← mode.count (depth.toInt + typeNestingStep c)
      rangesFrom mode separator start (i + 1) depth r
    else if c = separator ∧ depth = 0 then
      let ranges ← rangesFrom mode separator (i + 1) (i + 1) depth r
      return (start, i) :: ranges
    else rangesFrom mode separator start (i + 1) depth r

/-- The ranges between the separators at nesting zero. -/
def splitTopLevel (mode : Overflow) (bytes : List UInt8) (first last : Nat) (separator : Char) :
    Except Fault (List (Nat × Nat)) := do
  let between ← sliceBytes bytes first last
  rangesFrom mode separator first first 0 between

theorem le_of_scanClose {opening closing : Char} {bytes : List UInt8} {depth offset close : Nat}
    (h : scanClose opening closing depth offset bytes = .ok (some close)) : offset ≤ close := by
  induction bytes generalizing depth offset with
  | nil => simp [scanClose] at h
  | cons b r ih =>
    rw [scanClose] at h
    split at h
    · exact Nat.le_of_succ_le (ih h)
    · split at h
      · cases depth with
        | zero => cases h
        | succ d =>
          simp only [predecessor, bind, Except.bind] at h
          split at h
          · cases h
            exact Nat.le_refl _
          · exact Nat.le_of_succ_le (ih h)
      · exact Nat.le_of_succ_le (ih h)

/-- The partner does not stand before its bracket. -/
theorem le_of_matchingClose {bytes : List UInt8} {opening close : Nat}
    (h : matchingClose bytes opening = .ok (some close)) : opening ≤ close := by
  unfold matchingClose at h
  split at h
  · cases h
  · split at h
    · cases h
    · simp only [bind, Except.bind] at h
      split at h
      · cases h
      · exact le_of_scanClose h

end ConnectorCatalog.Offset
