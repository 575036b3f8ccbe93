import ConnectorCatalog.Proofs.Reading
import ConnectorCatalog.Proofs.Toml.Layout
import ConnectorCatalog.Proofs.Toml.StringLiteral

/-!
# Keys by their segments

A key is segments with dots between them and blanks around the dots. A segment is text that needs no
quotes, or a string on one line. A key is read up to what follows it (`keyEnd?_source`), and what is
read as a key is one (`exists_key`): these are the texts that are keys (`isKey_iff`).
-/

namespace ConnectorCatalog.Toml

/-- A segment of a key that needs no quotes. -/
def IsBare (s : List Char) : Prop := s ≠ [] ∧ ∀ c ∈ s, isBareKeyChar c = true

instance : DecidablePred IsBare := fun s =>
  haveI := List.decidableBAll (fun c => isBareKeyChar c = true) s
  inferInstanceAs (Decidable (s ≠ [] ∧ ∀ c ∈ s, isBareKeyChar c = true))

/-- A segment of a key as it is written. -/
inductive KeySegment
  | bare (text : List Char)
  | quoted (quote : Char) (parts : List StringPart)
deriving DecidableEq, Repr

namespace KeySegment

/-- A segment as text. -/
def source : KeySegment → List Char
  | bare text => text
  | quoted quote parts => quote :: (parts.flatMap StringPart.source ++ [quote])

/-- What the grammar asks of a segment. -/
def IsWritten : KeySegment → Prop
  | bare text => IsBare text
  | quoted quote parts => (quote = '"' ∨ quote = '\'') ∧ ∀ p ∈ parts, p.Fits quote false

instance : DecidablePred IsWritten
  | bare text => inferInstanceAs (Decidable (IsBare text))
  | quoted quote parts => inferInstanceAs
      (Decidable ((quote = '"' ∨ quote = '\'') ∧ ∀ p ∈ parts, p.Fits quote false))

/-- The text that a segment stands for, if every escape by number in it names a character. -/
def text? : KeySegment → Option (List Char)
  | bare text => some text
  | quoted _ parts => StringPart.meaning? false parts

end KeySegment

/-- A further segment of a key: the blanks before its dot, those behind it, and the segment. -/
structure DottedSegment where
  before : List Char
  behind : List Char
  segment : KeySegment
deriving DecidableEq, Repr

namespace DottedSegment

/-- A further segment as text. -/
def source (d : DottedSegment) : List Char := d.before ++ '.' :: (d.behind ++ d.segment.source)

/-- What the grammar asks of a further segment. -/
structure IsWritten (d : DottedSegment) : Prop where
  before : ∀ c ∈ d.before, isGap c = true
  behind : ∀ c ∈ d.behind, isGap c = true
  segment : d.segment.IsWritten

instance : DecidablePred IsWritten := fun d =>
  haveI := List.decidableBAll (fun c => isGap c = true)
  decidable_of_iff ((∀ c ∈ d.before, isGap c = true) ∧ (∀ c ∈ d.behind, isGap c = true) ∧
      d.segment.IsWritten)
    ⟨fun ⟨hbefore, hbehind, hsegment⟩ => ⟨hbefore, hbehind, hsegment⟩,
      fun h => ⟨h.before, h.behind, h.segment⟩⟩

end DottedSegment

/-- A key as it is written. -/
structure Key where
  first : KeySegment
  rest : List DottedSegment
deriving DecidableEq, Repr

namespace Key

/-- A key as text. -/
def source (k : Key) : List Char := k.first.source ++ k.rest.flatMap DottedSegment.source

/-- What the grammar asks of a key. -/
structure IsWritten (k : Key) : Prop where
  first : k.first.IsWritten
  rest : ∀ d ∈ k.rest, d.IsWritten

instance : DecidablePred IsWritten := fun k =>
  decidable_of_iff (k.first.IsWritten ∧ ∀ d ∈ k.rest, d.IsWritten)
    ⟨fun ⟨hfirst, hrest⟩ => ⟨hfirst, hrest⟩, fun h => ⟨h.first, h.rest⟩⟩

/-- The segments of a key. -/
def segments (k : Key) : List KeySegment := k.first :: k.rest.map DottedSegment.segment

/-- The texts that the segments of a key stand for, if all of them stand for one. -/
def texts? (k : Key) : Option (List (List Char)) := k.segments.mapM KeySegment.text?

end Key

variable {s r t : List Char}

/-! ## Characters and gaps -/

theorem ne_of_isBareKeyChar {c d : Char} (hc : isBareKeyChar c = true)
    (hd : isBareKeyChar d = false) : c ≠ d := by
  rintro rfl
  rw [hc] at hd
  cases hd

theorem isBlank_of_isBareKeyChar {c : Char} (hc : isBareKeyChar c = true) : isBlank c = false := by
  have hname : (isNameChar c || c == '-') = true := hc
  cases hblank : isBlank c with
  | false => rfl
  | true =>
    rw [isNameChar_of_isBlank hblank, Bool.false_or, beq_iff_eq] at hname
    rw [← hblank, hname]
    rfl

theorem isControl_of_isBareKeyChar {c : Char} (h : isBareKeyChar c = true) : isControl c = false := by
  rw [Bool.eq_false_iff]
  intro hcontrol
  simp only [isControl, Bool.or_eq_true, Bool.and_eq_true, decide_eq_true_eq, beq_iff_eq] at hcontrol
  unfold isBareKeyChar at h
  delta Char.isAlphanum Char.isAlpha Char.isUpper Char.isLower Char.isDigit at h
  simp only [Bool.or_eq_true, Bool.and_eq_true, decide_eq_true_eq, beq_iff_eq,
    UInt32.le_iff_toNat_le, ge_iff_le] at h
  have hc : c.toNat = c.val.toNat := rfl
  rcases h with (((h | h) | h) | rfl) | rfl
  · have : 'A'.val.toNat = 65 := rfl
    have : 'Z'.val.toNat = 90 := rfl
    omega
  · have : 'a'.val.toNat = 97 := rfl
    have : 'z'.val.toNat = 122 := rfl
    omega
  · have : '0'.val.toNat = 48 := rfl
    have : '9'.val.toNat = 57 := rfl
    omega
  · exact absurd hcontrol (by decide)
  · exact absurd hcontrol (by decide)

theorem skipGap_cons {c : Char} (hgap : isGap c = false) (hc : c ≠ '#') (s : List Char) :
    skipGap (c :: s) = c :: s := by
  unfold skipGap
  rw [List.dropWhile_cons, if_neg (by simp [hgap])]
  split
  · exact absurd (List.cons.inj ‹_›).1 hc
  · rfl

theorem skipGap_bare {c : Char} (hc : isBareKeyChar c = true) (s : List Char) :
    skipGap (c :: s) = c :: s := by
  refine skipGap_cons ?_ (ne_of_isBareKeyChar hc rfl) s
  simp [isGap, ne_of_isBareKeyChar hc (d := ' ') rfl, ne_of_isBareKeyChar hc (d := '\t') rfl]

theorem skipGap_append {b : List Char} (hb : ∀ c ∈ b, isGap c = true) (s : List Char) :
    skipGap (b ++ s) = skipGap s := by
  rw [skipGap, List.dropWhile_append_of_pos hb, skipGap]

/-- A gap up to a character that could stand in a comment has none: the comment would go on. -/
theorem exists_blanks {c : Char} (h : skipGap s = c :: r) (hc : isCommentChar c = true) :
    ∃ b, (∀ c ∈ b, isGap c = true) ∧ s = b ++ c :: r := by
  unfold skipGap at h
  split at h
  · rename_i t _
    have hstop := List.head?_dropWhile_not isCommentChar t
    rw [h] at hstop
    exact absurd hc (by rw [hstop]; exact Bool.false_ne_true)
  · refine ⟨s.takeWhile isGap, fun c hc => List.mem_takeWhile_imp hc, ?_⟩
    rw [← h, List.takeWhile_append_dropWhile]

/-! ## Segments -/

theorem segmentEnd?_bare {s r : List Char} (h : IsBare s)
    (hr : ∀ c ∈ r.head?, isBareKeyChar c = false) : segmentEnd? (s ++ r) = some r := by
  obtain ⟨c, t, rfl⟩ := List.exists_cons_of_ne_nil h.1
  have hc := h.2 c (List.mem_cons_self ..)
  have hdrop : (t ++ r).dropWhile isBareKeyChar = r := by
    rw [List.dropWhile_append_of_pos fun c hc => h.2 c (List.mem_cons_of_mem _ hc)]
    cases r with
    | nil => rfl
    | cons d r => rw [List.dropWhile_cons, if_neg (by simp [hr d rfl])]
  rw [List.cons_append, segmentEnd?, if_pos hc, hdrop]
  · exact ne_of_isBareKeyChar hc rfl
  · exact ne_of_isBareKeyChar hc rfl

/-- A segment begins with a character that ends a gap and could stand in a comment. -/
theorem KeySegment.exists_first {segment : KeySegment} (h : segment.IsWritten) :
    ∃ c t, segment.source = c :: t ∧ isGap c = false ∧ c ≠ '#' ∧ isCommentChar c = true := by
  cases segment with
  | bare text =>
    obtain ⟨c, t, rfl⟩ := List.exists_cons_of_ne_nil h.1
    have hc := h.2 c (List.mem_cons_self ..)
    refine ⟨c, t, rfl, ?_, ne_of_isBareKeyChar hc rfl, ?_⟩
    · simp [isGap, ne_of_isBareKeyChar hc (d := ' ') rfl, ne_of_isBareKeyChar hc (d := '\t') rfl]
    · rw [isCommentChar, isControl_of_isBareKeyChar hc]
      rfl
  | quoted quote parts =>
    rcases h.1 with rfl | rfl
    · exact ⟨'"', _, rfl, by decide⟩
    · exact ⟨'\'', _, rfl, by decide⟩

theorem skipGap_source {segment : KeySegment} (h : segment.IsWritten) (r : List Char) :
    skipGap (segment.source ++ r) = segment.source ++ r := by
  obtain ⟨c, t, hsource, hgap, hc, -⟩ := KeySegment.exists_first h
  rw [hsource]
  exact skipGap_cons hgap hc (t ++ r)

theorem segmentEnd?_source {segment : KeySegment} (h : segment.IsWritten)
    (hr : ∀ c ∈ r.head?, isBareKeyChar c = false) : segmentEnd? (segment.source ++ r) = some r := by
  cases segment with
  | bare text => exact segmentEnd?_bare h hr
  | quoted quote parts =>
    obtain ⟨rfl | rfl, hparts⟩ := h
    · simpa [KeySegment.source, segmentEnd?] using basicEnd?_parts hparts r
    · simpa [KeySegment.source, segmentEnd?] using literalEnd?_parts hparts r

theorem exists_segment (h : segmentEnd? s = some r) :
    ∃ segment : KeySegment, segment.IsWritten ∧ s = segment.source ++ r := by
  unfold segmentEnd? at h
  split at h
  · obtain ⟨parts, hparts, hs⟩ := exists_parts_of_basicEnd? h
    exact ⟨.quoted '"' parts, ⟨.inl rfl, hparts⟩, by simpa [KeySegment.source] using hs⟩
  · obtain ⟨parts, hparts, rfl⟩ := exists_parts_of_literalEnd? h
    exact ⟨.quoted '\'' parts, ⟨.inr rfl, hparts⟩, by simp [KeySegment.source]⟩
  · rename_i c t _ _
    split_ifs at h with hc
    cases h
    refine ⟨.bare (c :: t.takeWhile isBareKeyChar), ⟨List.cons_ne_nil _ _, ?_⟩, ?_⟩
    · exact List.forall_mem_cons.2 ⟨hc, fun d hd => List.mem_takeWhile_imp hd⟩
    · rw [KeySegment.source, List.cons_append, List.takeWhile_append_dropWhile]
  · cases h

/-! ## Keys -/

section Rest

variable {rest : List DottedSegment}

theorem head?_rest (h : ∀ d ∈ rest, d.IsWritten) (hr : ∀ c ∈ r.head?, isBareKeyChar c = false) :
    ∀ c ∈ (rest.flatMap DottedSegment.source ++ r).head?, isBareKeyChar c = false := by
  cases rest with
  | nil => exact hr
  | cons d rest =>
    have hd := h d (List.mem_cons_self ..)
    rw [List.flatMap_cons, DottedSegment.source]
    intro c hc
    cases hbefore : d.before with
    | nil =>
      rw [hbefore] at hc
      cases hc
      rfl
    | cons b t =>
      rw [hbefore] at hc
      cases hc
      have hgap := hd.before c (hbefore ▸ List.mem_cons_self ..)
      simp only [isGap, Bool.or_eq_true, beq_iff_eq] at hgap
      rcases hgap with rfl | rfl <;> rfl

theorem segmentsEnd?_source (hr : ∀ c ∈ r.head?, isBareKeyChar c = false)
    (hdot : ∀ t, skipGap r ≠ '.' :: t) : ∀ {fuel : Nat} {rest : List DottedSegment},
      rest.length ≤ fuel → (∀ d ∈ rest, d.IsWritten) →
      segmentsEnd? fuel (rest.flatMap DottedSegment.source ++ r) = some r
  | 0, rest, hfuel, _ => by
    rw [List.length_eq_zero_iff.1 (Nat.le_zero.1 hfuel)]
    rfl
  | fuel + 1, [], _, _ => by
    rw [List.flatMap_nil, List.nil_append, segmentsEnd?]
    split
    · exact absurd ‹_› (hdot _)
    · rfl
  | fuel + 1, d :: rest, hfuel, h => by
    have hd := h d (List.mem_cons_self ..)
    have hrest := fun e he => h e (List.mem_cons_of_mem d he)
    have hdots : skipGap ((d :: rest).flatMap DottedSegment.source ++ r)
        = '.' :: (d.behind ++ (d.segment.source ++ (rest.flatMap DottedSegment.source ++ r))) := by
      rw [List.flatMap_cons, DottedSegment.source]
      simp only [List.append_assoc, List.cons_append]
      rw [skipGap_append hd.before, skipGap_cons rfl (by decide)]
    rw [segmentsEnd?, hdots]
    simp only
    rw [skipGap_append hd.behind, skipGap_source hd.segment,
      segmentEnd?_source hd.segment (head?_rest hrest hr), Option.bind_some]
    exact segmentsEnd?_source hr hdot (Nat.le_of_succ_le_succ hfuel) hrest

theorem length_le_rest : ∀ rest : List DottedSegment,
    rest.length ≤ (rest.flatMap DottedSegment.source).length
  | [] => Nat.le_refl _
  | d :: rest => by
    have := length_le_rest rest
    simp only [List.flatMap_cons, DottedSegment.source, List.length_append, List.length_cons]
    omega

theorem exists_rest {fuel : Nat} (h : segmentsEnd? fuel s = some r) :
    ∃ rest : List DottedSegment, (∀ d ∈ rest, d.IsWritten) ∧
      s = rest.flatMap DottedSegment.source ++ r := by
  induction fuel generalizing s with
  | zero =>
    cases h
    exact ⟨[], List.forall_mem_nil _, rfl⟩
  | succ fuel ih =>
    unfold segmentsEnd? at h
    split at h
    · rename_i t hdot
      obtain ⟨u, hu, h⟩ := Option.bind_eq_some_iff.1 h
      obtain ⟨rest, hrest, rfl⟩ := ih h
      obtain ⟨segment, hsegment, hsource⟩ := exists_segment hu
      obtain ⟨c, v, hfirst, -, -, hc⟩ := KeySegment.exists_first hsegment
      have hskip : skipGap t = c :: (v ++ (rest.flatMap DottedSegment.source ++ r)) := by
        rw [hsource, hfirst, List.cons_append]
      obtain ⟨before, hbefore, rfl⟩ := exists_blanks hdot rfl
      obtain ⟨behind, hbehind, rfl⟩ := exists_blanks hskip hc
      refine ⟨⟨before, behind, segment⟩ :: rest,
        List.forall_mem_cons.2 ⟨⟨hbefore, hbehind, hsegment⟩, hrest⟩, ?_⟩
      rw [List.flatMap_cons, DottedSegment.source, hfirst]
      simp
    · cases h
      exact ⟨[], List.forall_mem_nil _, rfl⟩

end Rest

/-- A key is read up to what follows it. -/
theorem keyEnd?_source {k : Key} (h : k.IsWritten) (hr : ∀ c ∈ r.head?, isBareKeyChar c = false)
    (hdot : ∀ t, skipGap r ≠ '.' :: t) : keyEnd? (k.source ++ r) = some r := by
  have hfuel : k.rest.length ≤ (k.source ++ r).length := by
    have := length_le_rest k.rest
    rw [Key.source]
    simp only [List.length_append]
    omega
  rw [keyEnd?]
  generalize (k.source ++ r).length = fuel at hfuel
  rw [Key.source, List.append_assoc, segmentEnd?_source h.first (head?_rest h.rest hr),
    Option.bind_some]
  exact segmentsEnd?_source hr hdot hfuel h.rest

theorem exists_key (h : keyEnd? s = some r) : ∃ k : Key, k.IsWritten ∧ s = k.source ++ r := by
  obtain ⟨t, ht, h⟩ := Option.bind_eq_some_iff.1 h
  obtain ⟨first, hfirst, rfl⟩ := exists_segment ht
  obtain ⟨rest, hrest, rfl⟩ := exists_rest h
  exact ⟨⟨first, rest⟩, ⟨hfirst, hrest⟩, by rw [Key.source, List.append_assoc]⟩

/-- The texts that are keys. -/
theorem isKey_iff : IsKey s ↔ ∃ k : Key, k.IsWritten ∧ k.source = s := by
  constructor
  · rintro ⟨r, hr⟩
    obtain ⟨k, hk, heq⟩ := exists_key hr
    exact ⟨k, hk, (List.append_cancel_right heq).symm⟩
  · rintro ⟨k, hk, rfl⟩
    exact ⟨[], keyEnd?_source hk nofun fun _ => nofun⟩

end ConnectorCatalog.Toml
