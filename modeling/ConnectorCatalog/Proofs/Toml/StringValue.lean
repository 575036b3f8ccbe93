import ConnectorCatalog.Proofs.Toml.StringLiteral
import ConnectorCatalog.Proofs.Toml.Layout
import ConnectorCatalog.Proofs.Toml.Written

/-!
# The value of a string literal

What is stored for a pair whose value is a string literal (`stored_literal`): the text of the literal,
if each of its parts is one that is read. Escapes by number, those of the backspace and the form feed,
backslashes at the end of a line and a return in the first line break are not: they stay as written.
-/

namespace ConnectorCatalog.Toml

open StringPart

variable {quote : Char} {isLong : Bool} {parts : List StringPart} {s r t : List Char}

/-! ## Undoing escapes -/

theorem unescape_other {c : Char} (h : c ∉ ['n', 't', 'r', '"', '\\']) (t : List Char) :
    unescape ('\\' :: c :: t) = '\\' :: c :: unescape t := by
  simp only [List.mem_cons, List.not_mem_nil, or_false, not_or] at h
  rw [unescape] <;> exact fun heq => by simp [heq] at h

theorem unescape_append {a : List Char} (h : ∀ c ∈ a, c ≠ '\\') (t : List Char) :
    unescape (a ++ t) = a ++ unescape t := by
  induction a with
  | nil => rfl
  | cons c a ih =>
    rw [List.cons_append, unescape_cons (h c (List.mem_cons_self ..)),
      ih fun d hd => h d (List.mem_cons_of_mem _ hd), List.cons_append]

theorem unescape_part {p : StringPart} (h : p.Fits '"' isLong) (t : List Char) :
    unescape (p.source ++ t) = p.kept ++ unescape t := by
  cases p with
  | plain c => exact unescape_cons (h.2.1 rfl) t
  | escape letter =>
    have hletter := h.2
    simp only [List.mem_cons, List.not_mem_nil, or_false] at hletter
    rcases hletter with rfl | rfl | rfl | rfl | rfl | rfl | rfl <;>
      simp [StringPart.source, kept, escaped?, unescape]
  | codePoint digits =>
    have hplain : ∀ d ∈ digits, d ≠ '\\' := by
      rintro d hd rfl
      exact absurd (h.2.2 _ hd) (by decide)
    change unescape ('\\' :: _ :: (digits ++ t)) = '\\' :: _ :: (digits ++ unescape t)
    rw [unescape_other, unescape_append hplain]
    split_ifs <;> decide
  | lineBreak withReturn =>
    refine unescape_append (fun c hc => ?_) t
    cases withReturn <;> revert c <;> simp [StringPart.source, breakText]
  | joined withReturn =>
    cases withReturn with
    | false => exact unescape_other (by decide) t
    | true =>
      have hfeed : unescape ('\n' :: t) = '\n' :: unescape t := unescape_cons (by decide) t
      simp [StringPart.source, kept, breakText, unescape_other, hfeed]

theorem unescape_parts (h : ∀ p ∈ parts, p.Fits '"' isLong) :
    unescape (parts.flatMap StringPart.source) = keptAll parts := by
  induction parts with
  | nil => rfl
  | cons p parts ih =>
    rw [List.flatMap_cons, unescape_part (h p (List.mem_cons_self ..)),
      ih fun q hq => h q (List.mem_cons_of_mem _ hq), keptAll_cons]

/-- Nothing but escapes is ever kept otherwise than it is written. -/
theorem source_parts (h : ∀ p ∈ parts, p.Fits '\'' isLong) :
    parts.flatMap StringPart.source = keptAll parts := by
  refine List.flatMap_congr fun p hp => ?_
  cases p with
  | escape letter => exact absurd (h _ hp).1 (by decide)
  | _ => rfl

/-! ## The first line break -/

/-- Parts without a line break in front. -/
def withoutBreak : List StringPart → List StringPart
  | .lineBreak _ :: parts => parts
  | parts => parts

/-- Parts without a line break in front that has no return. -/
def withoutFeed : List StringPart → List StringPart
  | .lineBreak false :: parts => parts
  | parts => parts

theorem withoutFirstBreak_parts (h : ∀ p ∈ parts, p.Fits quote isLong) :
    withoutFirstBreak (parts.flatMap StringPart.source)
      = (withoutFeed parts).flatMap StringPart.source := by
  cases parts with
  | nil => rfl
  | cons p parts =>
    have hp := h p (List.mem_cons_self ..)
    cases p with
    | plain c =>
      have hc : c ≠ '\n' := by
        rintro rfl
        exact absurd hp.1 (by decide)
      simp [withoutFeed, StringPart.source, withoutFirstBreak, hc]
    | escape letter => rfl
    | codePoint digits => rfl
    | lineBreak withReturn => cases withReturn <;> rfl
    | joined withReturn => rfl

theorem withoutFeed_subset : withoutFeed parts ⊆ parts := by
  unfold withoutFeed
  split
  · exact List.subset_cons_self _ _
  · exact List.Subset.refl _

theorem withoutFeed_eq (h : parts.head? ≠ some (.lineBreak true)) :
    withoutFeed parts = withoutBreak parts := by
  unfold withoutFeed withoutBreak
  split
  · rfl
  · split
    · rename_i withReturn _ hbreak
      cases withReturn
      · exact absurd rfl (hbreak _)
      · exact absurd rfl h
    · rfl

theorem forall_isRead_withoutBreak :
    (∀ p ∈ withoutBreak parts, p.IsRead) ↔ ∀ p ∈ parts, p.IsRead := by
  unfold withoutBreak
  split
  · rw [List.forall_mem_cons]
    exact (and_iff_right trivial).symm
  · exact Iff.rfl

namespace StringLiteral

variable {l : StringLiteral}

/-- The parts of a literal that count: not the first line break of one over several lines. -/
def content (l : StringLiteral) : List StringPart := if l.isLong then withoutBreak l.parts else l.parts

/-- The literal is valid, and `text` is the text it stands for: there are no three quotes between those
around it, and every escape by number names a character. -/
def Denotes (l : StringLiteral) (text : List Char) : Prop :=
  (l.isLong = true → ¬ threeQuotes l.quote <:+: l.parts) ∧ meaning? false l.content = some text

instance (l : StringLiteral) : DecidablePred l.Denotes := fun text => inferInstanceAs (Decidable
  ((l.isLong = true → ¬ threeQuotes l.quote <:+: l.parts) ∧ meaning? false l.content = some text))

/-- What is kept of a literal when it is read. -/
def kept (l : StringLiteral) : List Char :=
  keptAll (if l.isLong then withoutFeed l.parts else l.parts)

/-- Everything in the literal is read for what it stands for. -/
def IsRead (l : StringLiteral) : Prop :=
  (∀ p ∈ l.parts, p.IsRead) ∧ (l.isLong = true → l.parts.head? ≠ some (.lineBreak true))

instance : DecidablePred IsRead := fun l => inferInstanceAs (Decidable
  ((∀ p ∈ l.parts, p.IsRead) ∧ (l.isLong = true → l.parts.head? ≠ some (.lineBreak true))))

/-- What is kept of a literal is its text exactly if everything in it is read. -/
theorem kept_eq_iff {text : List Char} (h : l.Denotes text) : l.kept = text ↔ l.IsRead := by
  obtain ⟨quote, isLong, parts⟩ := l
  have hmeaning := h.2
  cases isLong with
  | false => simpa [IsRead, kept, content] using keptAll_eq_iff hmeaning
  | true =>
    simp only [IsRead, kept, content, if_true, true_implies] at hmeaning ⊢
    by_cases hfirst : parts.head? = some (.lineBreak true)
    · obtain ⟨rest, rfl⟩ := List.head?_eq_some_iff.1 hfirst
      have hlt : text.length < (keptAll (withoutFeed (.lineBreak true :: rest))).length := by
        refine Nat.lt_of_le_of_lt (length_le_keptAll hmeaning) ?_
        change (keptAll rest).length < (breakText true ++ keptAll rest).length
        rw [List.length_append]
        exact Nat.lt_add_of_pos_left (by decide)
      exact ⟨fun heq => absurd (heq ▸ hlt) (Nat.lt_irrefl _), fun hread => absurd hfirst hread.2⟩
    · rw [withoutFeed_eq hfirst, keptAll_eq_iff hmeaning, forall_isRead_withoutBreak,
        and_iff_left hfirst]

/-! ## Reading a literal -/

/-- A string on one line is not taken for one over several lines. -/
theorem parts_append_ne (hfits : ∀ p ∈ parts, p.Fits quote false)
    (hr : parts = [] → r.head? ≠ some quote) (t : List Char) :
    parts.flatMap StringPart.source ++ quote :: r ≠ quote :: quote :: t := by
  cases parts with
  | nil =>
    intro heq
    exact hr rfl (by rw [(List.cons.inj heq).2]; rfl)
  | cons p parts =>
    obtain ⟨c, u, hc, hne⟩ := exists_first_of_fits (hfits p (List.mem_cons_self ..))
    rw [flatMap_source_cons, hc]
    exact fun heq => hne (List.cons.inj heq).1

theorem dropLast_before (a r : List Char) (c : Char) : (before (a ++ c :: r) r).dropLast = a := by
  rw [← List.singleton_append, ← List.append_assoc, before_append, List.dropLast_concat]

theorem dropLast_before_three (a r : List Char) (c : Char) :
    (before (a ++ (List.replicate 3 c ++ r)) r).dropLast.dropLast.dropLast = a := by
  rw [← List.append_assoc, before_append]
  simp [List.replicate, List.dropLast_append_of_ne_nil]

theorem readScalar?_basic (hfits : ∀ p ∈ parts, p.Fits '"' false)
    (hr : parts = [] → r.head? ≠ some '"') :
    readScalar? ('"' :: (parts.flatMap StringPart.source ++ '"' :: r))
      = some (.string (String.ofList (keptAll parts)), r) := by
  unfold readScalar?
  split
  · rename_i t heq
    exact absurd (List.cons.inj heq).2 (parts_append_ne hfits hr t)
  · rename_i heq
    cases (List.cons.inj heq).1
  · rename_i heq
    rw [← (List.cons.inj heq).2, basicEnd?_parts hfits, Option.map_some, dropLast_before,
      unescape_parts hfits]
  · rename_i heq
    cases (List.cons.inj heq).1
  · rename_i hquote _
    exact absurd rfl (hquote _)

theorem readScalar?_literal (hfits : ∀ p ∈ parts, p.Fits '\'' false)
    (hr : parts = [] → r.head? ≠ some '\'') :
    readScalar? ('\'' :: (parts.flatMap StringPart.source ++ '\'' :: r))
      = some (.string (String.ofList (keptAll parts)), r) := by
  unfold readScalar?
  split
  · rename_i heq
    cases (List.cons.inj heq).1
  · rename_i t heq
    exact absurd (List.cons.inj heq).2 (parts_append_ne hfits hr t)
  · rename_i heq
    cases (List.cons.inj heq).1
  · rename_i heq
    rw [← (List.cons.inj heq).2, literalEnd?_parts hfits, Option.map_some, dropLast_before,
      source_parts hfits]
  · rename_i hquote
    exact absurd rfl (hquote _)

theorem readScalar?_long (hquote : quote = '"' ∨ quote = '\'')
    (hfits : ∀ p ∈ parts, p.Fits quote true) (hends : EndsInQuotes quote parts)
    (hr : r.head? ≠ some quote) :
    readScalar? (List.replicate 3 quote ++
        (parts.flatMap StringPart.source ++ (List.replicate 3 quote ++ r)))
      = some (.string (String.ofList (keptAll (withoutFeed parts))), r) := by
  have hfits' := fun p hp => hfits p (withoutFeed_subset hp)
  have hends : EndsInQuotes quote (List.replicate 0 (.plain quote) ++ parts) := hends
  have hthree : ∀ t, List.replicate 3 quote ++ t = quote :: quote :: quote :: t := fun _ => rfl
  rw [hthree (parts.flatMap _ ++ _)]
  rcases hquote with rfl | rfl
  · rw [readScalar?, longEnd?_parts (.inl ⟨rfl, rfl⟩) hr hfits hends, Option.map_some]
    dsimp only
    rw [dropLast_before_three, withoutFirstBreak_parts hfits, unescape_parts hfits']
  · rw [readScalar?, longEnd?_parts (.inr ⟨rfl, rfl⟩) hr hfits hends, Option.map_some]
    dsimp only
    rw [dropLast_before_three, withoutFirstBreak_parts hfits, source_parts hfits']

theorem source_append (l : StringLiteral) (r : List Char) :
    l.source ++ r = l.quotes ++ (l.parts.flatMap StringPart.source ++ (l.quotes ++ r)) := by
  simp only [source, List.append_assoc]

/-- A literal is read up to its closing quotes. The next character may be another quote only behind a
string on one line that is not empty. -/
theorem readValue?_source (hl : l.IsWritten)
    (hr : l.isLong = true ∨ l.parts = [] → r.head? ≠ some l.quote) :
    readValue? (l.source ++ r) = some (.string (String.ofList l.kept), r) := by
  obtain ⟨quote, isLong, parts⟩ := l
  obtain ⟨hquote, hfits, hends⟩ := hl
  have hscalar : ∀ {t v}, readScalar? (quote :: t) = some (v, r) →
      readValue? (quote :: t) = some (v, r) := by
    intro t v h
    rw [readValue?, if_neg, h]
    rcases hquote with rfl | rfl <;> simp
  rw [source_append]
  cases isLong with
  | true => exact hscalar (readScalar?_long hquote hfits (hends rfl) (hr (.inl rfl)))
  | false =>
    rcases hquote with rfl | rfl
    · exact hscalar (readScalar?_basic hfits fun hparts => hr (.inr hparts))
    · exact hscalar (readScalar?_literal hfits fun hparts => hr (.inr hparts))

theorem exists_long (hquote : quote = '"' ∨ quote = '\'') (h : LeavesLong quote 0 t r) :
    ∃ l : StringLiteral, l.IsWritten ∧ quote :: quote :: quote :: t = l.source ++ r ∧
      (l.isLong = true ∨ l.parts = [] → r.head? ≠ some l.quote) := by
  obtain ⟨hr, parts, hfits, hends, heq⟩ := h
  refine ⟨⟨quote, true, parts⟩, ⟨hquote, hfits, fun _ => hends⟩, ?_, fun _ => hr⟩
  rw [source_append]
  exact congrArg (List.replicate 3 quote ++ ·) heq

theorem exists_short (hquote : quote = '"' ∨ quote = '\'') (hfits : ∀ p ∈ parts, p.Fits quote false)
    (heq : t = parts.flatMap StringPart.source ++ quote :: r) (hlong : ∀ u, t ≠ quote :: quote :: u) :
    ∃ l : StringLiteral, l.IsWritten ∧ quote :: t = l.source ++ r ∧
      (l.isLong = true ∨ l.parts = [] → r.head? ≠ some l.quote) := by
  refine ⟨⟨quote, false, parts⟩, ⟨hquote, hfits, nofun⟩, ?_, ?_⟩
  · rw [source_append, heq]
    rfl
  · rintro (hlong' | rfl) hr
    · cases hlong'
    · obtain ⟨u, rfl⟩ := List.head?_eq_some_iff.1 hr
      exact hlong u heq

/-- What is read as a value and begins with a quote begins with a literal. -/
theorem exists_literal {v : Value} (hquote : s.head? = some '"' ∨ s.head? = some '\'')
    (h : readValue? s = some (v, r)) : ∃ l : StringLiteral, l.IsWritten ∧ s = l.source ++ r ∧
      (l.isLong = true ∨ l.parts = [] → r.head? ≠ some l.quote) := by
  rw [readValue?, if_neg (by rcases hquote with hquote | hquote <;> simp [hquote])] at h
  unfold readScalar? at h
  split at h
  · obtain ⟨rest, hrest, heq⟩ := Option.map_eq_some_iff.1 h
    cases heq
    exact exists_long (.inl rfl) (leavesLong_of_longEnd? (.inl ⟨rfl, rfl⟩) hrest)
  · obtain ⟨rest, hrest, heq⟩ := Option.map_eq_some_iff.1 h
    cases heq
    exact exists_long (.inr rfl) (leavesLong_of_longEnd? (.inr ⟨rfl, rfl⟩) hrest)
  · rename_i hlong
    obtain ⟨rest, hrest, heq⟩ := Option.map_eq_some_iff.1 h
    cases heq
    obtain ⟨parts, hfits, heq⟩ := exists_parts_of_basicEnd? hrest
    exact exists_short (.inl rfl) hfits heq hlong
  · rename_i hlong
    obtain ⟨rest, hrest, heq⟩ := Option.map_eq_some_iff.1 h
    cases heq
    obtain ⟨parts, hfits, heq⟩ := exists_parts_of_literalEnd? hrest
    exact exists_short (.inr rfl) hfits heq hlong
  · rename_i hdouble hsingle
    rcases hquote with hquote | hquote
    · obtain ⟨t, rfl⟩ := List.head?_eq_some_iff.1 hquote
      exact absurd rfl (hdouble t)
    · obtain ⟨t, rfl⟩ := List.head?_eq_some_iff.1 hquote
      exact absurd rfl (hsingle t)

/-- The values that begin with a quote are the literals, and their value is what is kept of them. -/
theorem isValue_iff {source : List Char} (hquote : source.head? = some '"' ∨ source.head? = some '\'')
    (v : Value) : IsValue source v ↔ ∃ l : StringLiteral, l.IsWritten ∧ l.source = source ∧
      v = .string (String.ofList l.kept) := by
  constructor
  · rintro ⟨r, hr⟩
    have hquote' : (source ++ r).head? = some '"' ∨ (source ++ r).head? = some '\'' := by
      cases source with
      | nil => simp at hquote
      | cons c source => exact hquote
    obtain ⟨l, hl, heq, hnext⟩ := exists_literal hquote' hr
    have hread := readValue?_source hl hnext
    rw [← heq, hr] at hread
    cases hread
    exact ⟨l, hl, (List.append_cancel_right heq).symm, rfl⟩
  · rintro ⟨l, hl, rfl, rfl⟩
    exact ⟨[], readValue?_source hl fun _ => nofun⟩

end StringLiteral

open StringLiteral

/-- A pair whose value is a literal, on lines of its own. -/
theorem isLine_literal {key : String} (hkey : IsBareName key) {l : StringLiteral} (hl : l.IsWritten) :
    IsLine (key.toList ++ ' ' :: '=' :: ' ' :: l.source)
      (.pair key (.string (String.ofList l.kept))) where
  first := by
    obtain ⟨c, t, hc, hname⟩ := exists_first hkey
    exact ⟨c, _, .inr hc, by rw [hname]; rfl⟩
  read r := by
    have hquote : l.quote ≠ '\n' := by
      rcases hl.quote with h | h <;> rw [h] <;> decide
    have hvalue := readValue?_source (r := '\n' :: r) hl fun _ => by simpa using hquote.symm
    have hgap : skipGap (' ' :: (l.source ++ '\n' :: r)) = l.source ++ '\n' :: r := by
      obtain ⟨t, ht⟩ : ∃ t, l.source = l.quote :: t := by
        rw [StringLiteral.source, quotes]
        split <;> exact ⟨_, rfl⟩
      have hspace : ∀ t, skipGap (' ' :: t) = skipGap t := fun t => by simp [skipGap, isGap]
      rw [hspace, ht]
      rcases hl.quote with h | h <;> rw [h] <;> exact skipGap_cons rfl (by decide) _
    simpa using readStatement?_of_readValue? hkey hgap hvalue

/-- What is stored for a pair whose value begins with a quote, among other statements. Its value is a
literal, and what is stored is the text of the literal exactly if everything in it is read. -/
theorem Document.parse_literal {key : String} (hkey : IsBareName key) {source : List Char}
    (hquote : source.head? = some '"' ∨ source.head? = some '\'') {v : Value}
    (hvalue : IsValue source v) :
    (∀ front back : List Statement, (∀ s ∈ front, s.Writable) → (∀ s ∈ back, s.Writable) →
      Document.parse (String.ofList (writeLines front
          ++ (key.toList ++ ' ' :: '=' :: ' ' :: source ++ '\n' :: writeLines back)))
        = .ok ⟨front ++ .pair key v :: back⟩) ∧
    (∃ l : StringLiteral, l.IsWritten ∧ l.source = source) ∧
    ∀ l : StringLiteral, l.IsWritten → l.source = source → ∀ text, l.Denotes text →
      (v = .string (String.ofList text) ↔ l.IsRead) := by
  obtain ⟨l, hl, rfl, rfl⟩ := (isValue_iff hquote v).1 hvalue
  refine ⟨fun front back hfront hback => ?_, ⟨l, hl, rfl⟩, fun l' hl' hsource text htext => ?_⟩
  · have hparse := parse_joinLines (List.rel_append (forall₂_isLine hfront)
      (.cons (isLine_literal hkey hl) (forall₂_isLine hback)))
    dsimp only at hparse
    rwa [joinLines_append, joinLines_cons, ← writeLines_eq, ← writeLines_eq] at hparse
  · have hread := readValue?_source (r := []) hl fun _ => nofun
    rw [← hsource, readValue?_source (r := []) hl' fun _ => nofun] at hread
    have hkept : l'.kept = l.kept := by simpa [String.ofList_inj] using hread
    rw [← kept_eq_iff htext, hkept, Value.string.injEq, String.ofList_inj]

/-- Text over two lines, with a quote in front of the closing ones, between other statements. -/
theorem Document.parse_literal_two_lines :
    Document.parse "[a]\nk = \"\"\"\n\\t\r\n\\\\\"\"\"\"\ny = 1\n"
      = .ok ⟨[.table "a", .pair "k" (.string "\t\r\n\\\""), .pair "y" (.integer 1)]⟩ := by
  let l : StringLiteral := ⟨'"', true, [.lineBreak false, .escape 't', .lineBreak true, .escape '\\',
    .plain '"']⟩
  have hread := readValue?_source (l := l) (r := []) (by decide) fun _ => nofun
  obtain ⟨hparse, -, hvalue⟩ :=
    @Document.parse_literal "k" (by decide) l.source (.inl rfl) _ ⟨[], hread⟩
  rw [(hvalue l (by decide) rfl "\t\r\n\\\"".toList (by decide)).2 (by decide)] at hparse
  exact hparse [.table "a"] [.pair "y" (.integer 1)] (by decide) (by decide)

/-- Not everything is read: escapes by number and that of the backspace are stored as they stand, and
over several lines a first line break with a return and a backslash at the end of a line are too. -/
theorem Document.literal_misread :
    (∃ l : StringLiteral, l.IsWritten ∧ l.source = "\"\\b\\u0041\"".toList ∧
      l.Denotes "\x08A".toList ∧
      Document.parse "k = \"\\b\\u0041\"\n" = .ok ⟨[.pair "k" (.string "\\b\\u0041")]⟩) ∧
    ∃ l : StringLiteral, l.IsWritten ∧ l.source = "\"\"\"\r\na\\\n  b\"\"\"".toList ∧
      l.Denotes "ab".toList ∧
      Document.parse "k = \"\"\"\r\na\\\n  b\"\"\"\n"
        = .ok ⟨[.pair "k" (.string "\r\na\\\n  b")]⟩ :=
  ⟨⟨⟨'"', false, [.escape 'b', .codePoint ['0', '0', '4', '1']]⟩, by decide, by decide, by decide,
      by decide +kernel⟩,
    ⟨'"', true, [.lineBreak true, .plain 'a', .joined false, .plain ' ', .plain ' ', .plain 'b']⟩,
    by decide, by decide, by decide, by decide +kernel⟩

end ConnectorCatalog.Toml
