import ConnectorCatalog.Proofs.Basic
import ConnectorCatalog.Proofs.Cut
import ConnectorCatalog.Proofs.Toml.Key
import ConnectorCatalog.Proofs.Trim

/-!
# The name of a key

The name of a key is what is kept of its segments, with dots between (`keyName_source`): a segment is
cut at the dots in it, and quotes of both kinds are taken off its pieces, while escapes stay as they
stand. So what is kept of a segment is its text exactly if there is no dot in it, and no backslash and
no apostrophe at an end if it stands in double quotes (`KeySegment.kept_eq_iff`).
-/

namespace ConnectorCatalog.Toml

variable {quote : Char} {parts : List StringPart} {s t text : List Char}

/-! ## Names and their pieces -/

/-- Texts between which the dots of a name stand. -/
structure ArePieces (ts : List (List Char)) : Prop where
  ne_nil : ts ≠ []
  dotless : ∀ t ∈ ts, '.' ∉ t

instance : DecidablePred ArePieces := fun ts =>
  decidable_of_iff (ts ≠ [] ∧ ∀ t ∈ ts, '.' ∉ t)
    ⟨fun ⟨hne, hdotless⟩ => ⟨hne, hdotless⟩, fun h => ⟨h.ne_nil, h.dotless⟩⟩

/-- The name with these pieces. -/
def dotted (ts : List (List Char)) : String := String.ofList (joinWith ['.'] ts)

theorem dotted_inj {ts us : List (List Char)} (ht : ArePieces ts) (hu : ArePieces us) :
    dotted ts = dotted us ↔ ts = us := by
  refine ⟨fun h => ?_, congrArg dotted⟩
  rw [← cutAll_joinWith ht.ne_nil ht.dotless, String.ofList_inj.1 h,
    cutAll_joinWith hu.ne_nil hu.dotless]

/-- A piece of a key without the blanks and quotes around it. -/
def unquoted (piece : List Char) : List Char :=
  trimWhile (· == '\'') (trimWhile (· == '"') (trim piece))

/-- The pieces of a text between its dots, without the blanks and quotes around them. -/
def namePieces (s : List Char) : List (List Char) := (cutAll (· == '.') s).map unquoted

theorem unquoted_sublist (piece : List Char) : (unquoted piece).Sublist piece :=
  ((trimWhile_sublist _ _).trans (trimWhile_sublist _ _)).trans (trimWhile_sublist _ _)

theorem keyName_eq (s : List Char) : keyName s = dotted (namePieces s) := rfl

theorem arePieces_namePieces (s : List Char) : ArePieces (namePieces s) where
  ne_nil := by simpa [namePieces] using cutAll_ne_nil _ s
  dotless t ht hdot := by
    obtain ⟨piece, hpiece, rfl⟩ := List.mem_map.1 ht
    exact absurd (of_mem_cutAll hpiece ((unquoted_sublist piece).subset hdot)).2 (by decide)

theorem namePieces_of_dotless (h : '.' ∉ s) : namePieces s = [unquoted s] := by
  have hnone : ∀ c ∈ s, (c == '.') = false := fun c hc => beq_false_of_ne fun hdot => h (hdot ▸ hc)
  rw [namePieces, cutAll_eq_singleton hnone, List.map_singleton]

theorem namePieces_append_dot (s t : List Char) :
    namePieces (s ++ '.' :: t) = namePieces s ++ namePieces t := by
  rw [namePieces, cutAll_append_cons (p := (· == '.')) rfl, List.map_append, namePieces, namePieces]

theorem two_le_length_namePieces (h : '.' ∈ s) : 2 ≤ (namePieces s).length := by
  obtain ⟨a, b, rfl⟩ := List.append_of_mem h
  have ha := List.length_pos_iff.2 (arePieces_namePieces a).ne_nil
  have hb := List.length_pos_iff.2 (arePieces_namePieces b).ne_nil
  rw [namePieces_append_dot, List.length_append]
  omega

section Blanks

variable {b : List Char} (hb : ∀ c ∈ b, isGap c = true)

include hb

theorem isBlank_of_gap : ∀ c ∈ b, isBlank c = true := by
  intro c hc
  have hgap := hb c hc
  simp only [isGap, Bool.or_eq_true, beq_iff_eq] at hgap
  rcases hgap with rfl | rfl <;> rfl

theorem ne_dot_of_gap : ∀ c ∈ b, (c == '.') = false := by
  rintro c hc
  refine beq_false_of_ne ?_
  rintro rfl
  exact absurd (hb _ hc) (by decide)

/-- Blanks in front of a text are in its first piece, and are trimmed with it. -/
theorem namePieces_append_left (s : List Char) : namePieces (b ++ s) = namePieces s := by
  have hfirst : ∀ piece, unquoted (b ++ piece) = unquoted piece := fun piece => by
    have htrim := trim_surrounded (isBlank_of_gap hb) (List.forall_mem_nil _) piece
    rw [List.append_nil] at htrim
    rw [unquoted, htrim, unquoted]
  rw [namePieces, cutAll_append_of_not (ne_dot_of_gap hb), namePieces]
  cases cutAll (· == '.') s with
  | nil => rfl
  | cons piece pieces => rw [List.modifyHead_cons, List.map_cons, List.map_cons, hfirst]

theorem namePieces_append_right (s : List Char) : namePieces (s ++ b) = namePieces s := by
  have hlast : ∀ piece, unquoted (piece ++ b) = unquoted piece := fun piece => by
    have htrim := trim_surrounded (List.forall_mem_nil _) (isBlank_of_gap hb) piece
    rw [List.nil_append] at htrim
    rw [unquoted, htrim, unquoted]
  obtain ⟨front, last, hs, hsb⟩ := exists_cutAll_append (ne_dot_of_gap hb) s
  rw [namePieces, namePieces, hs, hsb, List.map_append, List.map_append, List.map_singleton,
    List.map_singleton, hlast]

end Blanks

/-! ## What is kept of a key -/

/-- What is kept of a segment: more than one piece if there is a dot in it. -/
def KeySegment.kept (segment : KeySegment) : List (List Char) := namePieces segment.source

/-- What is kept of a key. -/
def Key.kept (k : Key) : List (List Char) := k.segments.flatMap KeySegment.kept

theorem namePieces_rest : ∀ {rest : List DottedSegment} (_ : ∀ d ∈ rest, d.IsWritten) (s : List Char),
    namePieces (s ++ rest.flatMap DottedSegment.source)
      = namePieces s ++ (rest.map DottedSegment.segment).flatMap KeySegment.kept
  | [], _, s => by simp
  | d :: rest, h, s => by
    have hd := h d (List.mem_cons_self ..)
    have hsource : s ++ (d :: rest).flatMap DottedSegment.source = (s ++ d.before)
        ++ '.' :: (d.behind ++ (d.segment.source ++ rest.flatMap DottedSegment.source)) := by
      rw [List.flatMap_cons, DottedSegment.source]
      simp
    rw [hsource, namePieces_append_dot, namePieces_append_right hd.before,
      namePieces_append_left hd.behind, namePieces_rest fun e he => h e (List.mem_cons_of_mem _ he)]
    rfl

theorem namePieces_source {k : Key} (h : k.IsWritten) : namePieces k.source = k.kept :=
  namePieces_rest h.rest k.first.source

theorem keyName_source {k : Key} (h : k.IsWritten) : keyName k.source = dotted k.kept := by
  rw [keyName_eq, namePieces_source h]

theorem arePieces_kept {k : Key} (h : k.IsWritten) : ArePieces k.kept :=
  namePieces_source h ▸ arePieces_namePieces k.source

/-! ## Segments that are kept as they are meant -/

/-- A segment that is kept as it is meant: there is no dot in it, and no backslash and no apostrophe at
an end if it stands in double quotes. -/
def KeySegment.IsWhole : KeySegment → Prop
  | bare _ => True
  | quoted quote parts =>
    let inside := parts.flatMap StringPart.source
    '.' ∉ inside ∧
      (quote = '"' → '\\' ∉ inside ∧ inside.head? ≠ some '\'' ∧ inside.getLast? ≠ some '\'')

instance : DecidablePred KeySegment.IsWhole
  | .bare _ => inferInstanceAs (Decidable True)
  | .quoted quote parts => inferInstanceAs (Decidable ('.' ∉ parts.flatMap StringPart.source ∧
      (quote = '"' → '\\' ∉ parts.flatMap StringPart.source ∧
        (parts.flatMap StringPart.source).head? ≠ some '\'' ∧
        (parts.flatMap StringPart.source).getLast? ≠ some '\'')))

/-- Parts without escapes are their characters. -/
theorem exists_plain (h : ∀ p ∈ parts, p.Fits quote false)
    (hback : quote = '"' → '\\' ∉ parts.flatMap StringPart.source) :
    ∃ text : List Char, parts = text.map .plain ∧ ∀ c ∈ text, c ≠ quote := by
  induction parts with
  | nil => exact ⟨[], rfl, List.forall_mem_nil _⟩
  | cons p parts ih =>
    have hp := h p (List.mem_cons_self ..)
    rw [List.flatMap_cons] at hback
    obtain ⟨text, rfl, htext⟩ := ih (fun q hq => h q (List.mem_cons_of_mem _ hq))
      fun hquote hmem => hback hquote (List.mem_append_right _ hmem)
    cases p with
    | plain c => exact ⟨c :: text, rfl, List.forall_mem_cons.2 ⟨hp.2.2 rfl, htext⟩⟩
    | escape letter => exact absurd (by simp [StringPart.source]) (hback hp.1)
    | codePoint digits => exact absurd (by simp [StringPart.source]) (hback hp.1)
    | lineBreak withReturn => cases hp
    | joined withReturn => cases hp.2

theorem flatMap_source_plain (text : List Char) :
    (text.map StringPart.plain).flatMap StringPart.source = text := by
  induction text with
  | nil => rfl
  | cons c text ih =>
    rw [List.map_cons, List.flatMap_cons, ih, StringPart.source, List.singleton_append]

theorem meaning?_plain (text : List Char) :
    StringPart.meaning? false (text.map .plain) = some text := by
  induction text with
  | nil => rfl
  | cons c text ih => simp [StringPart.meaning?, ih]

/-- A character that is no quote of either kind. -/
def isUnmarked (c : Char) : Bool := c != '"' && c != '\''

/-- A part stands for one character, and has more characters that are no quotes if it is an escape. -/
theorem exists_of_meaning?_part {p : StringPart} (h : p.Fits '"' false)
    (htext : StringPart.meaning? false (p :: parts) = some text) :
    ∃ c back, text = c :: back ∧ StringPart.meaning? false parts = some back ∧
      [c].countP isUnmarked ≤ p.source.countP isUnmarked ∧
      ('\\' ∈ p.source → [c].countP isUnmarked < p.source.countP isUnmarked) := by
  cases p with
  | plain c =>
    obtain ⟨back, hback, rfl⟩ := Option.map_eq_some_iff.1 htext
    exact ⟨c, back, rfl, hback, Nat.le_refl _,
      fun hmem => absurd (List.mem_singleton.1 hmem).symm (h.2.1 rfl)⟩
  | escape letter =>
    obtain ⟨c, hc, htext⟩ := Option.bind_eq_some_iff.1 htext
    obtain ⟨back, hback, htext⟩ := Option.bind_eq_some_iff.1 htext
    cases htext
    have hletter := h.2
    simp only [List.mem_cons, List.not_mem_nil, or_false] at hletter
    have hlt : [c].countP isUnmarked < (StringPart.escape letter).source.countP isUnmarked := by
      rcases hletter with rfl | rfl | rfl | rfl | rfl | rfl | rfl <;> cases hc <;> decide
    exact ⟨c, back, rfl, hback, Nat.le_of_lt hlt, fun _ => hlt⟩
  | codePoint digits =>
    obtain ⟨c, hc, htext⟩ := Option.bind_eq_some_iff.1 htext
    obtain ⟨back, hback, htext⟩ := Option.bind_eq_some_iff.1 htext
    cases htext
    have hletter : isUnmarked (if digits.length = 4 then 'u' else 'U') = true := by
      split_ifs <;> rfl
    have htwo : 2 ≤ (StringPart.codePoint digits).source.countP isUnmarked := by
      rw [StringPart.source, List.countP_cons_of_pos (a := '\\') rfl, List.countP_cons_of_pos hletter]
      omega
    have hlt := Nat.lt_of_le_of_lt (List.countP_le_length (p := isUnmarked) (l := [c])) htwo
    exact ⟨c, back, rfl, hback, Nat.le_of_lt hlt, fun _ => hlt⟩
  | lineBreak withReturn => cases h
  | joined withReturn => cases h.2

/-- A string with escapes has more characters that are no quotes than its text. -/
theorem countP_unmarked (h : ∀ p ∈ parts, p.Fits '"' false)
    (htext : StringPart.meaning? false parts = some text) :
    text.countP isUnmarked ≤ (parts.flatMap StringPart.source).countP isUnmarked ∧
      ('\\' ∈ parts.flatMap StringPart.source →
        text.countP isUnmarked < (parts.flatMap StringPart.source).countP isUnmarked) := by
  induction parts generalizing text with
  | nil =>
    cases htext
    exact ⟨Nat.le_refl _, nofun⟩
  | cons p parts ih =>
    obtain ⟨c, back, rfl, hback, hle, hlt⟩ :=
      exists_of_meaning?_part (h p (List.mem_cons_self ..)) htext
    obtain ⟨hle', hlt'⟩ := ih (fun q hq => h q (List.mem_cons_of_mem _ hq)) hback
    rw [← List.singleton_append, List.flatMap_cons, List.countP_append, List.countP_append,
      List.mem_append]
    refine ⟨Nat.add_le_add hle hle', ?_⟩
    rintro (hmem | hmem)
    · exact Nat.add_lt_add_of_lt_of_le (hlt hmem) hle'
    · exact Nat.add_lt_add_of_le_of_lt hle (hlt' hmem)

theorem trim_string (hquote : quote = '"' ∨ quote = '\'') (x : List Char) :
    trim (quote :: (x ++ [quote])) = quote :: (x ++ [quote]) := by
  have hblank : isBlank quote = false := by rcases hquote with rfl | rfl <;> rfl
  refine trimWhile_eq_self_iff.2 ⟨fun c hc => ?_, fun c hc => ?_⟩
  · cases hc
    exact hblank
  · rw [← List.cons_append, List.getLast?_concat] at hc
    cases hc
    exact hblank

theorem unquoted_basic (x : List Char) :
    unquoted ('"' :: (x ++ ['"'])) = trimWhile (· == '\'') (trimWhile (· == '"') x) := by
  have hquote : ∀ c ∈ ['"'], (c == '"') = true := List.forall_mem_singleton.2 rfl
  have htrim := trimWhile_surrounded hquote hquote x
  rw [List.append_assoc, List.singleton_append] at htrim
  rw [unquoted, trim_string (.inl rfl), htrim]

theorem unquoted_literal {x : List Char} (hx : ∀ c ∈ x, c ≠ '\'') :
    unquoted ('\'' :: (x ++ ['\''])) = x := by
  have hquote : ∀ c ∈ ['\''], (c == '\'') = true := List.forall_mem_singleton.2 rfl
  have htrim := trimWhile_surrounded hquote hquote x
  rw [List.append_assoc, List.singleton_append,
    trimWhile_eq_self fun c hc => beq_false_of_ne (hx c hc)] at htrim
  have hdouble : trimWhile (· == '"') ('\'' :: (x ++ ['\''])) = '\'' :: (x ++ ['\'']) := by
    refine trimWhile_eq_self_iff.2 ⟨fun c hc => ?_, fun c hc => ?_⟩
    · cases hc
      rfl
    · rw [← List.cons_append, List.getLast?_concat] at hc
      cases hc
      rfl
  rw [unquoted, trim_string (.inr rfl), hdouble, htrim]

/-- Text without quotes at its ends is what is left between double quotes. -/
theorem unquoted_basic_of_ends {x : List Char} (hx : ∀ c ∈ x, c ≠ '"') :
    unquoted ('"' :: (x ++ ['"'])) = x ↔ x.head? ≠ some '\'' ∧ x.getLast? ≠ some '\'' := by
  rw [unquoted_basic, trimWhile_eq_self (s := x) fun c hc => beq_false_of_ne (hx c hc),
    trimWhile_eq_self_iff]
  have hne : ∀ o : Option Char, (∀ c ∈ o, (c == '\'') = false) ↔ o ≠ some '\'' := by
    rintro (_ | c) <;> simp
  rw [hne, hne]

namespace KeySegment

variable {segment : KeySegment}

theorem kept_bare (h : IsBare text) : (bare text).kept = [text] := by
  have hdot : '.' ∉ text := fun hmem => absurd (h.2 _ hmem) (by decide)
  have hblank : ∀ c ∈ text, isBlank c = false := fun c hc => isBlank_of_isBareKeyChar (h.2 c hc)
  have hne : ∀ {d}, isBareKeyChar d = false → ∀ c ∈ text, (c == d) = false := fun hd c hc =>
    beq_false_of_ne (ne_of_isBareKeyChar (h.2 c hc) hd)
  rw [kept, source, namePieces_of_dotless hdot, unquoted, trim, trimWhile_eq_self hblank,
    trimWhile_eq_self (hne rfl), trimWhile_eq_self (hne rfl)]

theorem dotless_source (hquote : quote = '"' ∨ quote = '\'')
    (h : '.' ∉ parts.flatMap StringPart.source) : '.' ∉ (quoted quote parts).source := by
  have hne : '.' ≠ quote := by rcases hquote with rfl | rfl <;> decide
  simp [source, hne, h]

/-- A whole segment stands for the one piece that is kept of it. -/
theorem kept_of_isWhole (h : segment.IsWritten) (hwhole : segment.IsWhole) :
    ∃ text, segment.text? = some text ∧ segment.kept = [text] := by
  cases segment with
  | bare text => exact ⟨text, rfl, kept_bare h⟩
  | quoted quote parts =>
    obtain ⟨hquote, hparts⟩ := h
    obtain ⟨hdot, hends⟩ := hwhole
    obtain ⟨text, rfl, htext⟩ := exists_plain hparts fun hdouble => (hends hdouble).1
    refine ⟨text, meaning?_plain text, ?_⟩
    rw [kept, namePieces_of_dotless (dotless_source hquote hdot), source, flatMap_source_plain]
    rw [flatMap_source_plain] at hends
    rcases hquote with rfl | rfl
    · rw [(unquoted_basic_of_ends htext).2 (hends rfl).2]
    · rw [unquoted_literal htext]

/-- A segment of which its text is kept is whole. Escapes would show: they have more characters than
what they stand for, quotes left aside. -/
theorem isWhole_of_kept (h : segment.IsWritten) (htext : segment.text? = some text)
    (hkept : segment.kept = [text]) : segment.IsWhole := by
  cases segment with
  | bare text => trivial
  | quoted quote parts =>
    obtain ⟨hquote, hparts⟩ := h
    have hdot : '.' ∉ parts.flatMap StringPart.source := fun hmem => by
      have htwo := two_le_length_namePieces (s := (quoted quote parts).source)
        (List.mem_cons_of_mem _ (List.mem_append_left _ hmem))
      rw [← kept, hkept] at htwo
      exact absurd htwo (by simp)
    refine ⟨hdot, ?_⟩
    rintro rfl
    rw [kept, namePieces_of_dotless (dotless_source hquote hdot), source,
      List.cons.injEq, and_iff_left rfl] at hkept
    have hback : '\\' ∉ parts.flatMap StringPart.source := fun hmem => by
      have hlt := (countP_unmarked hparts htext).2 hmem
      have hcount := congrArg (List.countP isUnmarked) hkept
      rw [unquoted_basic, countP_trimWhile (by simp [isUnmarked]),
        countP_trimWhile (by simp [isUnmarked])] at hcount
      omega
    obtain ⟨x, rfl, hx⟩ := exists_plain hparts fun _ => hback
    obtain rfl : x = text := by simpa [text?, meaning?_plain] using htext
    rw [flatMap_source_plain] at hback hkept ⊢
    exact ⟨hback, (unquoted_basic_of_ends hx).1 hkept⟩

/-- What is kept of a segment is its text exactly if it is whole. -/
theorem kept_eq_iff (h : segment.IsWritten) (htext : segment.text? = some text) :
    segment.kept = [text] ↔ segment.IsWhole := by
  refine ⟨isWhole_of_kept h htext, fun hwhole => ?_⟩
  obtain ⟨t, ht, hkept⟩ := kept_of_isWhole h hwhole
  rw [hkept, Option.some_inj.1 (ht.symm.trans htext)]

end KeySegment

/-! ## Keys that are kept as they are meant -/

namespace Key

variable {segments : List KeySegment} {texts : List (List Char)}

/-- All segments of the key are whole. -/
def IsWhole (k : Key) : Prop := ∀ segment ∈ k.segments, segment.IsWhole

instance : DecidablePred IsWhole := fun k =>
  inferInstanceAs (Decidable (∀ segment ∈ k.segments, segment.IsWhole))

theorem IsWritten.of_mem {k : Key} (h : k.IsWritten) : ∀ segment ∈ k.segments, segment.IsWritten := by
  refine List.forall_mem_cons.2 ⟨h.first, fun segment hsegment => ?_⟩
  obtain ⟨d, hd, rfl⟩ := List.mem_map.1 hsegment
  exact (h.rest d hd).segment

theorem length_le_kept (segments : List KeySegment) :
    segments.length ≤ (segments.flatMap KeySegment.kept).length := by
  induction segments with
  | nil => exact Nat.le_refl _
  | cons segment segments ih =>
    have hpos := List.length_pos_iff.2 (arePieces_namePieces segment.source).ne_nil
    rw [List.flatMap_cons, List.length_append, List.length_cons, KeySegment.kept]
    omega

/-- No segment is kept in more than one piece if there are as many pieces as segments. -/
theorem flatMap_kept_eq_iff (h : ∀ segment ∈ segments, segment.IsWritten)
    (htexts : List.Forall₂ (fun segment text => segment.text? = some text) segments texts) :
    segments.flatMap KeySegment.kept = texts ↔ ∀ segment ∈ segments, segment.IsWhole := by
  induction htexts with
  | nil => simp
  | @cons segment text segments texts htext htexts ih =>
    have hwhole := KeySegment.kept_eq_iff (h segment (List.mem_cons_self ..)) htext
    have ih := ih fun s hs => h s (List.mem_cons_of_mem _ hs)
    rw [List.flatMap_cons, List.forall_mem_cons, ← hwhole, ← ih]
    refine ⟨fun heq => ?_, fun heq => by rw [heq.1, heq.2, List.singleton_append]⟩
    obtain ⟨piece, pieces, hkept⟩ :=
      List.exists_cons_of_ne_nil (arePieces_namePieces segment.source).ne_nil
    rw [← KeySegment.kept] at hkept
    rw [hkept, List.cons_append, List.cons.injEq] at heq
    obtain ⟨rfl, heq⟩ := heq
    have hpieces : pieces = [] := by
      have hle := length_le_kept segments
      have hlength := congrArg List.length heq
      rw [List.length_append, ← htexts.length_eq] at hlength
      exact List.eq_nil_of_length_eq_zero (by omega)
    rw [hpieces] at hkept heq
    exact ⟨hkept, heq⟩

/-- What is kept of a key is its texts exactly if it is whole. -/
theorem kept_eq_iff {k : Key} (h : k.IsWritten) (htexts : k.texts? = some texts) :
    k.kept = texts ↔ k.IsWhole :=
  flatMap_kept_eq_iff h.of_mem (mapM_eq_some_iff.1 htexts)

theorem mapM_text? (h : ∀ segment ∈ segments, segment.IsWritten)
    (hwhole : ∀ segment ∈ segments, segment.IsWhole) :
    segments.mapM KeySegment.text? = some (segments.flatMap KeySegment.kept) := by
  induction segments with
  | nil => rfl
  | cons segment segments ih =>
    obtain ⟨text, htext, hkept⟩ := KeySegment.kept_of_isWhole (h segment (List.mem_cons_self ..))
      (hwhole segment (List.mem_cons_self ..))
    have ih := ih (fun s hs => h s (List.mem_cons_of_mem _ hs))
      fun s hs => hwhole s (List.mem_cons_of_mem _ hs)
    rw [List.mapM_cons, htext, ih, List.flatMap_cons, hkept]
    rfl

/-- A whole key stands for what is kept of it. -/
theorem texts?_of_isWhole {k : Key} (h : k.IsWritten) (hwhole : k.IsWhole) :
    k.texts? = some k.kept := mapM_text? h.of_mem hwhole

end Key

end ConnectorCatalog.Toml
