import ConnectorCatalog.Offset.Signature
import ConnectorCatalog.Proofs.Offset.Bracket

/-!
# Return types by offset

The scan for the end of a return type reads the masked text byte by byte, jumps over the braces of
record and object types, and looks back at everything before a brace. Whatever its counter shows, it
stays within the class and ends between two cells (`runs_typeEnd`), so the type can be cut from the
source. Where counts are small that is the type read from the cells (`runs_returnTypeAt`).
-/

namespace ConnectorCatalog

theorem dropWhile_isBlank_masked (s : List Cell) :
    (masked s).dropWhile isBlank = masked (afterBlanks s) := by
  induction s with
  | nil => rfl
  | cons x s ih =>
    rw [masked_cons]
    cases hx : x.isBlankCode with
    | true =>
      rw [List.dropWhile_append_of_pos fun c hc => Cell.isBlank_of_mem_masked hx hc, ih,
        afterBlanks_cons_of_blank hx]
    | false =>
      rw [afterBlanks_cons_of_not_blank hx, masked_cons, Cell.masked_of_not_blank hx,
        List.singleton_append, List.dropWhile_cons, if_neg (by rw [← Cell.isBlankCode, hx]; decide)]

theorem reverse_masked (s : List Cell) : (masked s).reverse = masked s.reverse := by
  have hcell : ∀ x : Cell, x.masked.reverse = x.masked := by
    intro x
    rw [Cell.masked]
    split
    · rfl
    · exact List.reverse_replicate
  induction s with
  | nil => rfl
  | cons x s ih =>
    rw [masked_cons, List.reverse_append, hcell, ih, List.reverse_cons, masked_append, masked_cons]
    exact congrArg _ (List.append_nil _).symm

/-- A word stands at the beginning of the masked text exactly if the cells show it. -/
theorem isPrefixOf_masked {w : List Char} (hw : IsKeyword w) (s : List Cell) :
    w.isPrefixOf (masked s) = (keyword? w s).isSome := by
  induction w generalizing s with
  | nil =>
    rw [keyword?]
    rfl
  | cons c w ih =>
    cases s with
    | nil => rfl
    | cons x s =>
      have hc := (hw c (List.mem_cons_self ..)).1
      rw [keyword?, masked_cons]
      cases hx : x.isBlankCode with
      | true =>
        obtain ⟨d, ds, hd⟩ := List.exists_cons_of_ne_nil (spread_masked.ne_nil x)
        have hblank := Cell.isBlank_of_mem_masked hx (hd ▸ List.mem_cons_self ..)
        have hne : c ≠ d := by
          rintro rfl
          rw [hc] at hblank
          cases hblank
        rw [if_neg (shown_ne_of_isBlankCode hx hc), hd, List.cons_append, List.isPrefixOf,
          beq_false_of_ne hne]
        rfl
      | false =>
        rw [Cell.masked_of_not_blank hx, List.singleton_append, List.isPrefixOf,
          ih fun d hd => hw d (List.mem_cons_of_mem _ hd)]
        by_cases hxc : x.shown = c
        · rw [if_pos hxc, hxc, beq_self_eq_true, Bool.true_and]
        · rw [if_neg hxc, beq_false_of_ne (Ne.symm hxc)]
          rfl

/-- The cells of a word. -/
theorem keyword?_eq_some {w : List Char} {s t : List Cell} (h : keyword? w s = some t) :
    ∃ k, s = k ++ t ∧ k.map Cell.shown = w := by
  induction w generalizing s with
  | nil =>
    rw [keyword?] at h
    cases h
    exact ⟨[], rfl, rfl⟩
  | cons c w ih =>
    cases s with
    | nil => cases h
    | cons x s =>
      rw [keyword?] at h
      split at h
      · rename_i hx
        obtain ⟨k, rfl, rfl⟩ := ih h
        exact ⟨x :: k, rfl, by rw [List.map_cons, hx]⟩
      · cases h

theorem keyword?_append_of_shown {w : List Char} {k : List Cell} (hk : k.map Cell.shown = w)
    (r : List Cell) : keyword? w (k ++ r) = some r := by
  subst hk
  induction k with
  | nil => rfl
  | cons x k ih => rw [List.map_cons, List.cons_append, keyword?, if_pos rfl, ih]

/-- A word stands before a character that it does not have, or not at all. -/
theorem isSome_keyword?_append {w : List Char} {z : Cell} (hz : z.shown ∉ w) (u v : List Cell) :
    (keyword? w (u ++ z :: v)).isSome = (keyword? w u).isSome := by
  induction w generalizing u with
  | nil =>
    rw [keyword?, keyword?]
    rfl
  | cons c w ih =>
    simp only [List.mem_cons, not_or] at hz
    cases u with
    | nil =>
      rw [List.nil_append, keyword?, keyword?, if_neg hz.1]
    | cons x u =>
      rw [List.cons_append, keyword?, keyword?]
      split
      · exact ih hz.2 u
      · rfl

theorem endsIn_eq (w : String) (seen : List Cell) :
    endsIn w seen = (keyword? w.toList.reverse (afterBlanks seen)).isSome := by
  have h : ∀ (w : List Char) (s : List Cell),
      ((s.map Cell.shown).take w.length == w) = (keyword? w s).isSome := by
    intro w
    induction w with
    | nil =>
      intro s
      rw [keyword?]
      rfl
    | cons c w ih =>
      intro s
      cases s with
      | nil => rfl
      | cons x s =>
        rw [keyword?, List.map_cons, List.length_cons, List.take_succ_cons, List.cons_beq_cons, ih]
        by_cases hx : x.shown = c
        · rw [if_pos hx, hx, beq_self_eq_true, Bool.true_and]
        · rw [if_neg hx, beq_false_of_ne hx]
          rfl
  rw [endsIn, ← h, List.length_reverse]
  rfl

/-- A type is what was passed and a beginning of what comes. -/
theorem typeCells_eq_some {seen s type : List Cell} {depth : Int} {skip : Nat}
    (h : typeCells seen depth skip s = some type) :
    ∃ u v, s = u ++ v ∧ type = seen.reverse ++ u := by
  induction s generalizing seen depth skip with
  | nil =>
    cases skip <;>
    · rw [typeCells] at h
      cases h
      exact ⟨[], [], rfl, (List.append_nil _).symm⟩
  | cons x s ih =>
    have hnext : ∀ {depth skip}, typeCells (x :: seen) depth skip s = some type →
        ∃ u v, x :: s = u ++ v ∧ type = seen.reverse ++ u := by
      intro depth skip hs
      obtain ⟨u, v, rfl, htype⟩ := ih hs
      rw [List.reverse_cons, List.append_assoc] at htype
      exact ⟨x :: u, v, rfl, htype⟩
    have hend : some seen.reverse = some type →
        ∃ u v, x :: s = u ++ v ∧ type = seen.reverse ++ u :=
      fun h => ⟨[], x :: s, rfl, by rw [List.append_nil, Option.some_inj.1 h]⟩
    cases skip with
    | succ skip =>
      rw [typeCells] at h
      exact hnext h
    | zero =>
      rw [typeCells] at h
      split_ifs at h
      · exact hnext h
      · exact hnext h
      · split at h
        · exact hnext h
        · cases h
      · exact hend h
      · exact hend h
      · exact hnext h

theorem typeCells_skip (b : List Cell) (seen s : List Cell) (depth : Int) :
    typeCells seen depth b.length (b ++ s) = typeCells (b.reverse ++ seen) depth 0 s := by
  induction b generalizing seen with
  | nil => rfl
  | cons x b ih =>
    rw [List.length_cons, List.cons_append, typeCells, ih, List.reverse_cons, List.append_assoc]
    rfl

/-- What a character adds to the nesting of a type, in which braces do not count. -/
def typeStep (c : Char) : Int :=
  if c = '(' ∨ c = '[' ∨ c = '<' then 1 else if c = ')' ∨ c = ']' ∨ c = '>' then -1 else 0

/-- A character at which a type may end. -/
def MayEndType (c : Char) : Prop := c = '\x7b' ∨ c = ';' ∨ c = '='

theorem typeStep_of_mayEndType {c : Char} (h : MayEndType c) :
    ¬ (c = '(' ∨ c = '[' ∨ c = '<') ∧ ¬ (c = ')' ∨ c = ']' ∨ c = '>') := by
  obtain rfl | rfl | rfl := h <;> decide

theorem IsIdle.typeStep {c : Char} (h : IsIdle c) : typeStep c = 0 := by
  simp [ConnectorCatalog.typeStep, h.ne (d := '(') rfl (by decide), h.ne (d := '[') rfl (by decide),
    h.ne (d := '<') rfl (by decide), h.ne (d := ')') rfl (by decide),
    h.ne (d := ']') rfl (by decide), h.ne (d := '>') rfl (by decide)]

theorem IsIdle.not_mayEndType {c : Char} (h : IsIdle c) : ¬ MayEndType c := by
  rintro (rfl | rfl | rfl)
  · exact h.ne (d := '\x7b') rfl (by decide) rfl
  · exact h.ne (d := ';') rfl (by decide) rfl
  · exact h.ne (d := '=') rfl (by decide) rfl

section Cells

variable {seen s : List Cell} {x : Cell} {depth : Int}

theorem typeCells_move (h : ¬ (depth = 0 ∧ MayEndType x.shown)) :
    typeCells seen depth 0 (x :: s) = typeCells (x :: seen) (depth + typeStep x.shown) 0 s := by
  rw [typeCells, typeStep]
  split_ifs with h1 h2 h3 h4 h5
  · rfl
  · rfl
  · exact absurd ⟨h3.2, .inl h3.1⟩ h
  · exact absurd ⟨h3.2, .inl h3.1⟩ h
  · exact absurd ⟨h5.2, .inr h5.1⟩ h
  · rw [Int.add_zero]

theorem typeCells_stop (hx : x.shown = ';' ∨ x.shown = '=') :
    typeCells seen 0 0 (x :: s) = some seen.reverse := by
  have hno := typeStep_of_mayEndType (.inr hx)
  have hbrace : ¬ (x.shown = '\x7b' ∧ (0 : Int) = 0) := by
    rintro ⟨h, -⟩
    rw [h] at hx
    exact absurd hx (by decide)
  rw [typeCells, if_neg hno.1, if_neg hno.2, if_neg hbrace, if_pos ⟨hx, rfl⟩]

theorem typeCells_brace (hx : x.shown = '\x7b') :
    typeCells seen 0 0 (x :: s)
      = if endsIn "record" seen || endsIn "object" seen then
          match closeIndex? Cell.shown (x :: s) with
          | some close => typeCells (x :: seen) 0 close s
          | none => none
        else some seen.reverse := by
  have hno := typeStep_of_mayEndType (.inl hx)
  rw [typeCells, if_neg hno.1, if_neg hno.2]
  exact if_pos ⟨hx, rfl⟩

end Cells

namespace Offset

section Bytes

variable {mode : Overflow} {m : List Char} {limit i : Nat} {depth : Int32} {b : UInt8}

theorem typeEnd_limit : typeEnd mode m limit depth limit = .ok (some limit) := by
  rw [typeEnd, dif_neg (Nat.lt_irrefl _)]

theorem typeEnd_count (hi : i < limit) (hb : elementAt (bytesOf m) i = .ok b)
    (h : typeStep (byteView b) ≠ 0) :
    typeEnd mode m limit depth i
      = mode.count (depth.toInt + typeStep (byteView b)) >>= fun depth =>
        typeEnd mode m limit depth (i + 1) := by
  rw [typeEnd, dif_pos hi, hb]
  dsimp only
  by_cases hopening : byteView b = '(' ∨ byteView b = '[' ∨ byteView b = '<'
  · rw [typeStep, if_pos hopening, if_pos hopening]
  · by_cases hclosing : byteView b = ')' ∨ byteView b = ']' ∨ byteView b = '>'
    · rw [typeStep, if_neg hopening, if_neg hopening, if_pos hclosing, if_pos hclosing]
      rfl
    · rw [typeStep, if_neg hopening, if_neg hclosing] at h
      exact absurd rfl h

theorem typeEnd_pass (hi : i < limit) (hb : elementAt (bytesOf m) i = .ok b)
    (hstep : typeStep (byteView b) = 0) (h : ¬ (depth = 0 ∧ MayEndType (byteView b))) :
    typeEnd mode m limit depth i = typeEnd mode m limit depth (i + 1) := by
  have hopening : ¬ (byteView b = '(' ∨ byteView b = '[' ∨ byteView b = '<') := by
    intro h
    rw [typeStep, if_pos h] at hstep
    exact absurd hstep (by decide)
  have hclosing : ¬ (byteView b = ')' ∨ byteView b = ']' ∨ byteView b = '>') := by
    intro h
    rw [typeStep, if_neg hopening, if_pos h] at hstep
    exact absurd hstep (by decide)
  rw [typeEnd, dif_pos hi, hb]
  dsimp only
  rw [if_neg hopening, if_neg hclosing, if_neg fun hbrace => h ⟨hbrace.2, .inl hbrace.1⟩,
    if_neg fun hstop => h ⟨hstop.2, .inr hstop.1⟩]

theorem typeEnd_stop (hi : i < limit) (hb : elementAt (bytesOf m) i = .ok b)
    (h : byteView b = ';' ∨ byteView b = '=') : typeEnd mode m limit 0 i = .ok (some i) := by
  have hno := typeStep_of_mayEndType (.inr h)
  have hbrace : ¬ (byteView b = '\x7b' ∧ (0 : Int32) = 0) := by
    rintro ⟨hb, -⟩
    rw [hb] at h
    exact absurd h (by decide)
  rw [typeEnd, dif_pos hi, hb]
  dsimp only
  rw [if_neg hno.1, if_neg hno.2, if_neg hbrace, if_pos ⟨h, rfl⟩]

variable {preceding : List Char}

theorem typeEnd_body (hi : i < limit) (hb : elementAt (bytesOf m) i = .ok b)
    (h : byteView b = '\x7b') (hslice : slice m 0 i = .ok preceding)
    (hword : (endsInWord "record" preceding || endsInWord "object" preceding) = false) :
    typeEnd mode m limit 0 i = .ok (some i) := by
  have hno := typeStep_of_mayEndType (.inl h)
  rw [typeEnd, dif_pos hi, hb]
  dsimp only
  rw [if_neg hno.1, if_neg hno.2, if_pos ⟨h, rfl⟩, hslice]
  dsimp only
  rw [hword, if_neg Bool.false_ne_true]

/-- The braces of a type are passed over, if they are closed before the limit. -/
theorem typeEnd_braces (hi : i < limit) (hb : elementAt (bytesOf m) i = .ok b)
    (h : byteView b = '\x7b') (hslice : slice m 0 i = .ok preceding)
    (hword : (endsInWord "record" preceding || endsInWord "object" preceding) = true)
    {found : Option Nat} (hfound : matchingClose (bytesOf m) i = .ok found) :
    typeEnd mode m limit 0 i = match found.filter (· < limit) with
      | some close => typeEnd mode m limit 0 (close + 1)
      | none => .ok none := by
  have hno := typeStep_of_mayEndType (.inl h)
  rw [typeEnd, dif_pos hi, hb]
  dsimp only
  rw [if_neg hno.1, if_neg hno.2, if_pos ⟨h, rfl⟩, hslice]
  dsimp only
  rw [hword, if_pos rfl]
  split
  · rename_i e he
    rw [hfound] at he
    cases he
  · rename_i he
    rw [hfound] at he
    cases he
    rfl
  · rename_i close he
    rw [hfound] at he
    cases he
    rw [Option.filter_some]
    by_cases hclose : close < limit
    · rw [if_pos hclose, if_pos (decide_eq_true hclose)]
    · rw [if_neg hclose, if_neg (by simpa using hclose)]

/-- Bytes that are no brackets, braces or ends are passed. -/
theorem typeEnd_idle : ∀ (bs : List UInt8) {p q : List UInt8}, bytesOf m = p ++ bs ++ q →
    (∀ b ∈ bs, IsIdle (byteView b)) → (p ++ bs).length ≤ limit →
    typeEnd mode m limit depth p.length = typeEnd mode m limit depth (p ++ bs).length
  | [], p, q, _, _, _ => by rw [List.append_nil]
  | b :: bs, p, q, hm, hidle, hlimit => by
    have hb := hidle b (List.mem_cons_self ..)
    have hm' : bytesOf m = p ++ [b] ++ bs ++ q := by rw [hm]; simp
    have hget : elementAt (bytesOf m) p.length = .ok b := by
      rw [hm, List.append_assoc]
      exact elementAt_append p b (bs ++ q)
    have hlen : (p ++ b :: bs).length = (p ++ [b] ++ bs).length := by simp
    have hi : p.length < limit := by
      rw [List.length_append, List.length_cons] at hlimit
      omega
    rw [typeEnd_pass hi hget hb.typeStep fun h => hb.not_mayEndType h.2, hlen]
    rw [hlen] at hlimit
    have := typeEnd_idle bs hm' (fun c hc => hidle c (List.mem_cons_of_mem _ hc)) hlimit
    rwa [List.length_append, List.length_singleton] at this

end Bytes

/-- Looking back past the cells of the type that were read, no word is found that the character before
them does not belong to. -/
theorem endsInWord_masked {w : String} (hw : IsKeyword w.toList.reverse) {z : Cell}
    (hz : z.shown ∉ w.toList.reverse) (hblank : z.isBlankCode = false) (q seen : List Cell) :
    endsInWord w (masked (q ++ [z] ++ seen.reverse)) = endsIn w seen := by
  have hreverse : (q ++ [z] ++ seen.reverse).reverse = seen ++ z :: q.reverse := by simp
  have hafter : afterBlanks (seen ++ z :: q.reverse) = afterBlanks seen ++ z :: q.reverse := by
    rw [afterBlanks, List.dropWhile_append, afterBlanks]
    split_ifs with h
    · rw [List.isEmpty_iff.1 h, ← afterBlanks, afterBlanks_cons_of_not_blank hblank]
      rfl
    · rfl
  rw [endsInWord, trimEnd, dropEndWhile, List.reverse_reverse, reverse_masked,
    dropWhile_isBlank_masked, isPrefixOf_masked hw, endsIn_eq, hreverse, hafter]
  exact isSome_keyword?_append hz _ _

section TypeEnd

variable {mode : Overflow} {document passed s post : List Cell} {x z : Cell} {limit : Nat}

theorem bytesOf_document (hdocument : document = passed ++ x :: s ++ post) :
    bytesOf (masked document)
      = shownBytes passed ++ bytesOf x.masked ++ shownBytes (s ++ post) := by
  rw [← shownBytes, hdocument, List.append_assoc, List.cons_append,
    shownBytes_append _ (x :: (s ++ post)), shownBytes_cons, ← List.append_assoc]

theorem width_passed_lt (hlimit : limit = width (passed ++ x :: s)) : width passed < limit := by
  have := x.char.utf8Size_pos
  rw [hlimit, width_append, width_cons]
  omega

/-- The byte of a cell that has one byte. -/
theorem elementAt_document (hdocument : document = passed ++ x :: s ++ post) {y : UInt8}
    (hy : bytesOf x.masked = [y]) :
    elementAt (bytesOf (masked document)) (width passed) = .ok y ∧
      width (passed ++ [x]) = width passed + 1 := by
  constructor
  · rw [bytesOf_document hdocument, hy, ← length_shownBytes_eq_width, List.append_assoc]
    exact elementAt_append _ y _
  · have hlen := length_shownBytes_eq_width [x]
    rw [shownBytes_cons, hy] at hlen
    rw [width_append, ← hlen]
    rfl

/-- A cell that is spread out is passed. -/
theorem typeEnd_of_idle {depth : Int32} (hdocument : document = passed ++ x :: s ++ post)
    (hlimit : limit = width (passed ++ x :: s)) (hidle : ∀ b ∈ bytesOf x.masked, IsIdle (byteView b)) :
    typeEnd mode (masked document) limit depth (width passed)
      = typeEnd mode (masked document) limit depth (width (passed ++ [x])) := by
  have hwidth : width (passed ++ [x]) = (shownBytes passed ++ bytesOf x.masked).length := by
    rw [← length_shownBytes_eq_width, shownBytes_append, shownBytes_cons]
    simp [shownBytes, masked]
  have hle : (shownBytes passed ++ bytesOf x.masked).length ≤ limit := by
    rw [← hwidth, hlimit, width_append, width_append, width_cons, width_cons]
    simp
  have hpass : typeEnd mode (masked document) limit depth _ = _ :=
    typeEnd_idle _ (bytesOf_document hdocument) hidle hle
  rwa [length_shownBytes_eq_width, ← hwidth] at hpass

/-- At a brace the type ends, or goes on behind the partner if that stands before the limit. -/
theorem typeEnd_of_brace {q seen : List Cell} (hz : z.shown = 's') (hx : x.shown = '\x7b')
    (hpassed : passed = q ++ [z] ++ seen.reverse) (hdocument : document = passed ++ x :: s ++ post)
    (hlimit : limit = width (passed ++ x :: s)) :
    typeEnd mode (masked document) limit 0 (width passed)
      = if endsIn "record" seen || endsIn "object" seen then
          match closeIndex? Cell.shown (x :: s) with
          | some close => typeEnd mode (masked document) limit 0 (width (passed ++ x :: s.take close))
          | none => .ok none
        else .ok (some (width passed)) := by
  obtain ⟨y, hy, hview⟩ := spread_bytes.exists_singleton (x := x) (by rw [hx]; decide)
  rw [hx] at hview
  have hi := width_passed_lt hlimit
  have hget := (elementAt_document hdocument hy).1
  have hslice : slice (masked document) 0 (width passed) = .ok (masked passed) := by
    have := slice_masked [] passed (x :: s ++ post)
    rwa [List.nil_append, ← List.append_assoc, ← hdocument] at this
  have hblank : z.isBlankCode = false := by rw [Cell.isBlankCode, hz]; decide
  have hlook : (endsInWord "record" (masked passed) || endsInWord "object" (masked passed))
      = (endsIn "record" seen || endsIn "object" seen) := by
    rw [hpassed, endsInWord_masked (by decide) (by rw [hz]; decide) hblank,
      endsInWord_masked (by decide) (by rw [hz]; decide) hblank]
  cases hword : endsIn "record" seen || endsIn "object" seen with
  | false =>
    rw [typeEnd_body hi hget hview hslice (by rw [hlook, hword])]
    rfl
  | true =>
    obtain ⟨found, hfound, hfilter⟩ := matchingClose_filter passed post (List.cons_ne_nil x s)
    rw [← hdocument, shownBytes] at hfound
    rw [← hlimit] at hfilter
    rw [typeEnd_braces hi hget hview hslice (by rw [hlook, hword]) hfound, hfilter, if_pos rfl]
    cases hclose : closeIndex? Cell.shown (x :: s) with
    | none => rfl
    | some close =>
      obtain ⟨o, body, e, after, hs, hpair, rfl⟩ := closeIndex?_eq_some hclose
      cases hs
      have htake : (body ++ e :: after).take (body.length + 1) = body ++ [e] := by
        rw [List.append_cons, ← List.length_singleton, ← List.length_append, List.take_left]
      have hend : width (passed ++ x :: body) + 1 = width (passed ++ x :: (body ++ [e])) := by
        rw [← List.cons_append, ← List.append_assoc, width_append _ [e], width_cons,
          (utf8Size_of_shown (closing?_eq_some hpair).2).2, width_nil]
      rw [Option.map_some, List.take_succ_cons, List.take_left]
      dsimp only
      rw [htake, hend]

theorem natAbs_typeStep_le (c : Char) : (typeStep c).natAbs ≤ 1 := by
  unfold typeStep
  split_ifs <;> decide

theorem not_mayEndType_of_typeStep {c : Char} (h : typeStep c ≠ 0) : ¬ MayEndType c := by
  intro hend
  have hno := typeStep_of_mayEndType hend
  rw [typeStep, if_neg hno.1, if_neg hno.2] at h
  exact h rfl

/-- A type that is read behind the cells `q` ends between two of the cells `s`, or is not found to end;
`seen` holds what was read of it before, right to left. It is `type` if counts are small. -/
def IsTypeEnd (small : Prop) (q seen s : List Cell) (type : Option (List Cell)) : Option Nat → Prop
  | none => small → type = none
  | some last => ∃ u v, s = u ++ v ∧ last = width (q ++ seen.reverse ++ u) ∧
      (small → type = some (seen.reverse ++ u))

theorem IsTypeEnd.append {small : Prop} {q seen b s : List Cell} {type type' : Option (List Cell)}
    {found : Option Nat} (h : IsTypeEnd small q (b.reverse ++ seen) s type found)
    (htype : small → type' = type) : IsTypeEnd small q seen (b ++ s) type' found := by
  have hseen : (b.reverse ++ seen).reverse = seen.reverse ++ b := by simp
  cases found with
  | none => exact fun hs => (htype hs).trans (h hs)
  | some last =>
    obtain ⟨u, v, rfl, hlast, hu⟩ := h
    rw [hseen] at hlast hu
    refine ⟨b ++ u, v, by rw [List.append_assoc], ?_, fun hs => ?_⟩
    · rw [hlast, List.append_assoc, List.append_assoc, List.append_assoc]
    · rw [htype hs, hu hs, List.append_assoc]

/-- Read by offset, a type ends between two cells, and where it does if counts are small. -/
theorem runs_typeEnd {small : Prop} (hsmall : small → width document < countLimit) {q : List Cell}
    (hz : z.shown = 's') : ∀ {s seen : List Cell} {depth : Int32} {exact : Int},
    document = q ++ [z] ++ seen.reverse ++ s ++ post →
    limit = width (q ++ [z] ++ seen.reverse ++ s) →
    (small → depth.toInt = exact) → exact.natAbs ≤ width (q ++ [z] ++ seen.reverse) →
    Runs mode small (IsTypeEnd small (q ++ [z]) seen s (typeCells seen exact 0 s))
      (typeEnd mode (masked document) limit depth (width (q ++ [z] ++ seen.reverse))) := by
  intro s
  -- the scan goes on behind a pair of braces, not at the next cell
  induction hn : s.length using Nat.strongRecOn generalizing s with
  | _ n ih =>
    intro seen depth exact hdocument hlimit hdepth hbound
    cases s with
    | nil =>
      rw [List.append_nil] at hlimit
      rw [← hlimit, typeEnd_limit]
      exact ⟨[], [], rfl, by rw [List.append_nil, hlimit], fun _ => by rw [typeCells, List.append_nil]⟩
    | cons x s =>
      have hpassed : q ++ [z] ++ (x :: seen).reverse = q ++ [z] ++ seen.reverse ++ [x] := by simp
      have hrest : q ++ [z] ++ (x :: seen).reverse ++ s = q ++ [z] ++ seen.reverse ++ x :: s := by
        simp
      have hread : width (q ++ [z] ++ seen.reverse ++ [x])
          = width (q ++ [z] ++ seen.reverse) + x.char.utf8Size := by
        rw [width_append _ [x], width_cons, width_nil, Nat.add_zero]
      have hhere : (small → typeCells seen exact 0 (x :: s) = some seen.reverse) →
          IsTypeEnd small (q ++ [z]) seen (x :: s) (typeCells seen exact 0 (x :: s))
            (some (width (q ++ [z] ++ seen.reverse))) := fun htype =>
        ⟨[], x :: s, rfl, by rw [List.append_nil], fun hs => by rw [htype hs, List.append_nil]⟩
      -- the cell becomes part of the type
      have hnext : ∀ {depth' : Int32},
          (small → depth'.toInt = exact + typeStep x.shown) →
          (exact + typeStep x.shown).natAbs ≤ width (q ++ [z] ++ seen.reverse ++ [x]) →
          (small → ¬ (exact = 0 ∧ MayEndType x.shown)) →
          Runs mode small (IsTypeEnd small (q ++ [z]) seen (x :: s) (typeCells seen exact 0 (x :: s)))
            (typeEnd mode (masked document) limit depth'
              (width (q ++ [z] ++ seen.reverse ++ [x]))) := by
        intro depth' hdepth' hbound' hgoes
        rw [← hpassed] at hbound' ⊢
        refine (ih s.length (hn ▸ Nat.lt_succ_self _) rfl (by rw [hdocument, hrest])
          (by rw [hlimit, hrest]) hdepth' hbound').imp id fun found hfound => ?_
        exact IsTypeEnd.append (b := [x]) hfound fun hs => typeCells_move (hgoes hs)
      rcases spread_bytes.alike x with ⟨y, hy, hview⟩ | ⟨hidle, hbs⟩
      · obtain ⟨hget, hstep⟩ := elementAt_document hdocument hy
        have hi := width_passed_lt hlimit
        by_cases hmove : typeStep x.shown = 0
        · by_cases h : depth = 0 ∧ MayEndType x.shown
          · obtain ⟨rfl, hend⟩ := h
            have hexact : small → exact = 0 := fun hs => by rw [← hdepth hs, Int32.toInt_zero]
            obtain hbrace | hstop := hend
            · have hcells := fun hs : small =>
                (congrArg (typeCells seen · 0 (x :: s)) (hexact hs)).trans (typeCells_brace hbrace)
              rw [typeEnd_of_brace hz hbrace rfl hdocument hlimit]
              split_ifs at hcells ⊢
              · cases hclose : closeIndex? Cell.shown (x :: s) with
                | none =>
                  rw [hclose] at hcells
                  exact hcells
                | some close =>
                  have hle : close ≤ s.length := Nat.le_of_lt_succ (lt_length_of_closeIndex? hclose)
                  have hskip := typeCells_skip (s.take close) (x :: seen) (s.drop close) 0
                  have hback : (x :: s.take close).reverse ++ seen
                      = (s.take close).reverse ++ x :: seen := by simp
                  have hseen : q ++ [z] ++ ((x :: s.take close).reverse ++ seen).reverse
                      = q ++ [z] ++ seen.reverse ++ x :: s.take close := by simp
                  have hsplit : q ++ [z] ++ ((x :: s.take close).reverse ++ seen).reverse
                      ++ s.drop close = q ++ [z] ++ seen.reverse ++ x :: s := by
                    rw [hseen, List.append_assoc, List.cons_append, List.take_append_drop]
                  rw [List.take_append_drop, List.length_take, Nat.min_eq_left hle, ← hback] at hskip
                  rw [hclose] at hcells
                  dsimp only at hcells ⊢
                  rw [← hseen]
                  refine (ih (s.drop close).length ?_ rfl (by rw [hdocument, hsplit])
                    (by rw [hlimit, hsplit]) (fun _ => Int32.toInt_zero) (Nat.zero_le _)).imp id
                    fun found hfound => ?_
                  · rw [← hn, List.length_drop, List.length_cons]
                    omega
                  · have hbraces := hfound.append fun hs => (hcells hs).trans hskip
                    rwa [List.cons_append, List.take_append_drop] at hbraces
              · exact hhere hcells
            · rw [typeEnd_stop hi hget (by rwa [hview])]
              exact hhere fun hs => by rw [hexact hs, typeCells_stop hstop]
          · rw [typeEnd_pass hi hget (by rwa [hview]) (by rwa [hview]), ← hstep]
            refine hnext (by rwa [hmove, Int.add_zero]) (by rw [hmove]; omega) fun hs hend => ?_
            exact h ⟨Int32.toInt_inj.1 (by rw [hdepth hs, hend.1, Int32.toInt_zero]), hend.2⟩
        · have hone := natAbs_typeStep_le x.shown
          have hfits : small → Fits (depth.toInt + typeStep x.shown) := by
            intro hs
            have hwidth := hsmall hs
            rw [hdocument, width_append, width_append, width_cons] at hwidth
            rw [hdepth hs]
            exact fits_of_natAbs_lt (by omega)
          rw [typeEnd_count hi hget (by rwa [hview]), hview, ← hstep]
          refine (runs_count hfits).bind fun depth' hdepth' => ?_
          exact hnext (fun hs => by rw [hdepth' hs, hdepth hs]) (by omega)
            fun _ hend => not_mayEndType_of_typeStep hmove hend.2
      · rw [typeEnd_of_idle hdocument hlimit hbs]
        exact hnext (by rwa [hidle.typeStep, Int.add_zero]) (by rw [hidle.typeStep]; omega)
          fun _ hend => hidle.not_mayEndType hend.2

end TypeEnd

/-- The type after `returns` between two cuts of a document. -/
theorem runs_returnTypeAt {mode : Overflow} {small : Prop} {document a s b : List Cell}
    (hsmall : small → width document < countLimit) (hdocument : document = a ++ s ++ b) :
    Runs mode small (fun found => small → found = returnTypeOf s)
      (returnTypeAt mode (chars document) (masked document) (width a) (width (a ++ s))) := by
  rw [returnTypeAt]
  by_cases hs : s = []
  · subst hs
    rw [List.append_nil, if_pos (Nat.le_refl _)]
    exact fun _ => rfl
  · have hlt : ¬ width (a ++ s) ≤ width a := by
      obtain ⟨x, r, rfl⟩ := List.exists_cons_of_ne_nil hs
      have := x.char.utf8Size_pos
      rw [width_append, width_cons]
      omega
    have hafter := slice_masked a s b
    rw [← hdocument] at hafter
    rw [if_neg hlt, hafter]
    have htrim : trimStart (masked s) = masked (afterBlanks s) := dropWhile_isBlank_masked s
    change Runs mode small _ (ite _ _ _)
    rw [htrim, isPrefixOf_masked (by decide), returnTypeOf, byteLength_masked, byteLength_masked]
    cases hk : keyword? "returns".toList (afterBlanks s) with
    | none => exact fun _ => rfl
    | some r =>
      obtain ⟨k, hkr, hword⟩ := keyword?_eq_some hk
      obtain ⟨blanks, hblanks⟩ := suffix_afterBlanks s
      have hascii : ∀ x ∈ k, isAscii x.shown = true ∧ x.shown ≠ ' ' := by
        intro x hx
        have hmem : x.shown ∈ "returns".toList := hword ▸ List.mem_map_of_mem hx
        have hall : ("returns".toList.all fun c => isAscii c && c != ' ') = true := by decide
        simpa using List.all_eq_true.1 hall x.shown hmem
      have hk7 : width k = byteLength "returns".toList := by
        rw [width_eq_length hascii, ← List.length_map, hword]
        rfl
      have hlast : k.map Cell.shown = "return".toList ++ ['s'] := hword
      obtain ⟨k', l, rfl, -, hl⟩ := List.map_eq_append_iff.1 hlast
      obtain ⟨z, rfl, hz⟩ := List.map_eq_singleton_iff.1 hl
      have hs' : s = blanks ++ (k' ++ [z] ++ r) := by rw [← hblanks, hkr]
      have hstart : width a + (width s - width (afterBlanks s)) + byteLength "returns".toList
          = width (a ++ blanks ++ k' ++ [z] ++ ([] : List Cell).reverse) := by
        rw [hkr, ← hk7, hs']
        simp only [List.reverse_nil, width_append, width_nil]
        omega
      have hlimit : a ++ s = a ++ blanks ++ k' ++ [z] ++ ([] : List Cell).reverse ++ r := by
        rw [hs']
        simp
      have hend : Runs mode small _ (typeEnd mode (masked document) (width (a ++ s)) 0 _) :=
        runs_typeEnd hsmall hz (hdocument.trans (congrArg (· ++ b) hlimit)) (congrArg width hlimit)
          (fun _ => Int32.toInt_zero) (Nat.zero_le _)
      rw [Option.isSome_some, if_pos rfl, hstart]
      refine hend.bind fun found hfound => ?_
      dsimp only
      cases found with
      | none => exact fun hs => by rw [hfound hs]
      | some last =>
        obtain ⟨type, v, hv, hlast, htype⟩ := hfound
        have hslice := slice_chars (a ++ blanks ++ k' ++ [z]) type (v ++ b)
        have hsplit : a ++ blanks ++ k' ++ [z] ++ type ++ (v ++ b) = document := by
          rw [hdocument, hs', hv]
          simp
        rw [hsplit] at hslice
        rw [List.reverse_nil, List.append_nil] at hlast ⊢
        rw [List.reverse_nil, List.nil_append] at htype
        dsimp only
        rw [hlast, hslice]
        exact fun hs => by rw [htype hs]

end Offset

end ConnectorCatalog
