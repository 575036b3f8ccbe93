import ConnectorCatalog.Proofs.Toml.KeyName

/-!
# Keys that share a name

What is kept of a segment that is not whole is kept of another segment too: of the same string with a
blank in front of a dot in it, or with an apostrophe behind its opening quote. So a key that is not
whole has the name of a key that stands for other texts (`Key.hasNamesake`).
-/

namespace ConnectorCatalog.Toml

open StringPart

variable {quote : Char} {parts : List StringPart} {text : List Char}

/-! ## Strings -/

theorem meaning?_append {a : List StringPart} (ha : ∀ p ∈ a, p.Fits quote false)
    (b : List StringPart) : meaning? false (a ++ b)
      = (meaning? false a).bind fun s => (meaning? false b).map (s ++ ·) := by
  induction a with
  | nil => simp [meaning?]
  | cons p a ih =>
    have ih := ih fun q hq => ha q (List.mem_cons_of_mem _ hq)
    have hp := ha p (List.mem_cons_self ..)
    cases p with
    | plain c =>
      simp only [List.cons_append, meaning?, Bool.false_and, Bool.false_eq_true, if_false, ih]
      cases meaning? false a <;> simp [Function.comp_def]
    | escape letter =>
      simp only [List.cons_append, meaning?, ih, Option.bind_eq_bind]
      cases escaped? letter <;> cases meaning? false a <;> cases meaning? false b <;> simp
    | codePoint digits =>
      simp only [List.cons_append, meaning?, ih, Option.bind_eq_bind]
      cases character? digits <;> cases meaning? false a <;> cases meaning? false b <;> simp
    | lineBreak withReturn => cases hp
    | joined withReturn => cases hp.2

/-- There are no dots in escapes. -/
theorem plain_dot_mem (h : ∀ p ∈ parts, p.Fits quote false)
    (hdot : '.' ∈ parts.flatMap StringPart.source) : StringPart.plain '.' ∈ parts := by
  obtain ⟨p, hp, hmem⟩ := List.mem_flatMap.1 hdot
  have hfits := h p hp
  cases p with
  | plain c => rwa [List.mem_singleton.1 hmem]
  | escape letter =>
    obtain rfl : '.' = letter := by simpa [StringPart.source] using hmem
    exact absurd hfits.2 (by decide)
  | codePoint digits =>
    have hdigit : '.' ∈ digits := by
      rw [StringPart.source] at hmem
      split_ifs at hmem <;> simpa using hmem
    exact absurd (hfits.2.2 _ hdigit) (by decide)
  | lineBreak withReturn => cases hfits
  | joined withReturn => cases hfits.2

theorem head?_source_ne (h : ∀ p ∈ parts, p.Fits quote false) :
    (parts.flatMap StringPart.source).head? ≠ some quote := by
  cases parts with
  | nil => simp
  | cons p parts =>
    obtain ⟨c, t, hc, hne⟩ := exists_first_of_fits (h p (List.mem_cons_self ..))
    rw [List.flatMap_cons, hc]
    simpa using hne

/-- An apostrophe behind an opening double quote is taken for a quote. -/
theorem unquoted_apostrophe {x : List Char} (hx : x.head? ≠ some '"') :
    unquoted ('"' :: ('\'' :: x ++ ['"'])) = unquoted ('"' :: (x ++ ['"'])) := by
  have hend : ∀ {y : List Char}, y.head? ≠ some '"' →
      trimWhile (· == '"') y = dropEndWhile (· == '"') y := fun {y} hy => by
    have hdrop : y.dropWhile (· == '"') = y :=
      dropWhile_eq_self_iff.2 fun c hc => beq_false_of_ne fun heq => hy (heq ▸ hc)
    rw [trimWhile, hdrop]
  have hquote : ∀ c ∈ ['\''], (c == '\'') = true := List.forall_mem_singleton.2 rfl
  have htrim := trimWhile_surrounded hquote (List.forall_mem_nil _) (dropEndWhile (· == '"') x)
  rw [List.append_nil, List.singleton_append] at htrim
  rw [unquoted_basic, unquoted_basic, hend hx, hend (by simp), dropEndWhile_cons, if_neg (by simp),
    htrim]

/-! ## Segments -/

namespace KeySegment

/-- The same is kept of a segment with another text. -/
def HasNamesake (segment : KeySegment) : Prop :=
  ∃ (other : KeySegment) (text : List Char), other.IsWritten ∧ other.text? = some text ∧
    segment.text? ≠ some text ∧ other.kept = segment.kept

theorem hasNamesake_of_dot {a b : List StringPart} (hquote : quote = '"' ∨ quote = '\'')
    (h : ∀ p ∈ a ++ .plain '.' :: b, p.Fits quote false)
    (htext : meaning? false (a ++ .plain '.' :: b) = some text) :
    (quoted quote (a ++ .plain '.' :: b)).HasNamesake := by
  obtain ⟨ha, hb⟩ := List.forall_mem_append.1 h
  have hblank : (StringPart.plain ' ').Fits quote false := by
    rcases hquote with rfl | rfl <;> decide
  have hmeaning := htext
  rw [meaning?_append ha] at htext
  obtain ⟨front, hfront, htext⟩ := Option.bind_eq_some_iff.1 htext
  obtain ⟨back, hback, rfl⟩ := Option.map_eq_some_iff.1 htext
  refine ⟨quoted quote (a ++ .plain ' ' :: .plain '.' :: b), front ++ ' ' :: back,
    ⟨hquote, List.forall_mem_append.2 ⟨ha, List.forall_mem_cons.2 ⟨hblank, hb⟩⟩⟩, ?_, ?_, ?_⟩
  · rw [text?, meaning?_append ha, hfront, meaning?, hback]
    rfl
  · rw [text?, hmeaning]
    simp
  · have hsource : (quoted quote (a ++ .plain ' ' :: .plain '.' :: b)).source
        = (quote :: a.flatMap StringPart.source ++ [' ']) ++ '.' ::
          (b.flatMap StringPart.source ++ [quote]) := by simp [source, StringPart.source]
    have hsource' : (quoted quote (a ++ .plain '.' :: b)).source
        = (quote :: a.flatMap StringPart.source) ++ '.' ::
          (b.flatMap StringPart.source ++ [quote]) := by simp [source, StringPart.source]
    rw [kept, kept, hsource, hsource', namePieces_append_dot, namePieces_append_dot,
      namePieces_append_right (List.forall_mem_singleton.2 rfl)]

theorem hasNamesake_of_dotless (h : ∀ p ∈ parts, p.Fits '"' false)
    (hdot : '.' ∉ parts.flatMap StringPart.source) (htext : meaning? false parts = some text) :
    (quoted '"' parts).HasNamesake := by
  have happend : (StringPart.plain '\'' :: parts).flatMap StringPart.source
      = '\'' :: parts.flatMap StringPart.source := rfl
  refine ⟨quoted '"' (.plain '\'' :: parts), '\'' :: text,
    ⟨.inl rfl, List.forall_mem_cons.2 ⟨by decide, h⟩⟩, ?_, ?_, ?_⟩
  · rw [text?, meaning?, htext]
    rfl
  · rw [text?, htext]
    simp
  · rw [kept, kept, namePieces_of_dotless (dotless_source (.inl rfl) hdot),
      namePieces_of_dotless (dotless_source (.inl rfl) (by simpa [happend] using hdot)), source,
      source, happend, unquoted_apostrophe (head?_source_ne h)]

theorem hasNamesake {segment : KeySegment} (h : segment.IsWritten)
    (htext : segment.text? = some text) (hwhole : ¬ segment.IsWhole) : segment.HasNamesake := by
  cases segment with
  | bare text => exact absurd trivial hwhole
  | quoted quote parts =>
    obtain ⟨hquote, hparts⟩ := h
    by_cases hdot : '.' ∈ parts.flatMap StringPart.source
    · obtain ⟨a, b, rfl⟩ := List.append_of_mem (plain_dot_mem hparts hdot)
      exact hasNamesake_of_dot hquote hparts htext
    · obtain rfl | rfl := hquote
      · exact hasNamesake_of_dotless hparts hdot htext
      · exact absurd ⟨hdot, nofun⟩ hwhole

end KeySegment

/-! ## Keys -/

namespace Key

/-- Another segment may stand in the place of any in a key. -/
theorem exists_replaced {k : Key} (h : k.IsWritten) {segment : KeySegment}
    (hmem : segment ∈ k.segments) : ∃ front back, k.segments = front ++ segment :: back ∧
      ∀ other : KeySegment, other.IsWritten →
        ∃ l : Key, l.IsWritten ∧ l.segments = front ++ other :: back := by
  obtain ⟨first, rest⟩ := k
  rcases List.mem_cons.1 hmem with rfl | hmem
  · exact ⟨[], rest.map DottedSegment.segment, rfl,
      fun other hother => ⟨⟨other, rest⟩, ⟨hother, h.rest⟩, rfl⟩⟩
  · obtain ⟨d, hd, rfl⟩ := List.mem_map.1 hmem
    obtain ⟨a, b, rfl⟩ := List.append_of_mem hd
    obtain ⟨ha, hb⟩ := List.forall_mem_append.1 h.rest
    obtain ⟨hd, hb⟩ := List.forall_mem_cons.1 hb
    refine ⟨first :: a.map DottedSegment.segment, b.map DottedSegment.segment, by simp [segments],
      fun other hother => ⟨⟨first, a ++ ⟨d.before, d.behind, other⟩ :: b⟩, ⟨h.first, ?_⟩,
        by simp [segments]⟩⟩
    exact List.forall_mem_append.2
      ⟨ha, List.forall_mem_cons.2 ⟨⟨hd.before, hd.behind, hother⟩, hb⟩⟩

/-- The key has the name of one that stands for other texts. -/
def HasNamesake (k : Key) : Prop :=
  ∃ (l : Key) (texts : List (List Char)), l.IsWritten ∧ l.texts? = some texts ∧
    k.texts? ≠ some texts ∧ keyName l.source = keyName k.source

/-- A key that is not whole has a namesake: one of its segments has. -/
theorem hasNamesake {k : Key} (h : k.IsWritten) {texts : List (List Char)}
    (htexts : k.texts? = some texts) (hwhole : ¬ k.IsWhole) : k.HasNamesake := by
  obtain ⟨segment, hmem, hsegment⟩ : ∃ segment ∈ k.segments, ¬ segment.IsWhole := by
    simpa [IsWhole] using hwhole
  obtain ⟨front, back, hsegments, hreplace⟩ := exists_replaced h hmem
  have hall := htexts
  rw [texts?, hsegments, List.mapM_append, List.mapM_cons] at hall
  obtain ⟨fronts, hfronts, hall⟩ := Option.bind_eq_some_iff.1 hall
  obtain ⟨rest, hrest, hall⟩ := Option.bind_eq_some_iff.1 hall
  obtain ⟨text, htext, hrest⟩ := Option.bind_eq_some_iff.1 hrest
  obtain ⟨backs, hbacks, hrest⟩ := Option.bind_eq_some_iff.1 hrest
  cases hrest
  cases hall
  obtain ⟨other, text', hother, htext', hne, hkept⟩ :=
    KeySegment.hasNamesake (h.of_mem segment hmem) htext hsegment
  obtain ⟨l, hl, hlsegments⟩ := hreplace other hother
  refine ⟨l, fronts ++ text' :: backs, hl, ?_, fun heq => hne ?_, ?_⟩
  · rw [texts?, hlsegments, List.mapM_append, List.mapM_cons, hfronts, htext', hbacks]
    rfl
  · rw [htexts, Option.some_inj] at heq
    rw [htext, (List.cons.inj (List.append_cancel_left heq)).1]
  · rw [keyName_source hl, keyName_source h, kept, kept, hlsegments, hsegments, List.flatMap_append,
      List.flatMap_append, List.flatMap_cons, List.flatMap_cons, hkept]

end Key

end ConnectorCatalog.Toml
