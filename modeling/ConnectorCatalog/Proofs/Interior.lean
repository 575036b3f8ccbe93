import ConnectorCatalog.Proofs.Outline
import ConnectorCatalog.Proofs.Shape

/-!
# What is written inside comments and literals

Where a text ends inside a comment, a documentation line, a string or a template, what is written
next and does not end it shows as blanks and line breaks only, and leaves the scanner in there
(`masked_interior`). After a backslash the first character is skipped, which makes no difference. So
two such texts with the same number of bytes and line breaks at the same places give the same masked
text, and with it the same outlines (`interior_irrelevant`).
-/

namespace ConnectorCatalog

/-- The character neither ends what the scanner is inside of, nor escapes another. -/
def Context.Keeps : Context → Char → Prop
  | .lineComment, c => c ≠ '\n'
  | .documentation, c => c ≠ '\n'
  | .template, c => c ≠ '`'
  | .string, c => c ≠ '"' ∧ c ≠ '\\'
  | .escaped, c => c ≠ '"' ∧ c ≠ '\\'
  | .code, _ => False

instance (context : Context) (c : Char) : Decidable (context.Keeps c) :=
  match context with
  | .lineComment => inferInstanceAs (Decidable (c ≠ '\n'))
  | .documentation => inferInstanceAs (Decidable (c ≠ '\n'))
  | .template => inferInstanceAs (Decidable (c ≠ '`'))
  | .string => inferInstanceAs (Decidable (c ≠ '"' ∧ c ≠ '\\'))
  | .escaped => inferInstanceAs (Decidable (c ≠ '"' ∧ c ≠ '\\'))
  | .code => inferInstanceAs (Decidable False)

/-- The text `a` ends inside a comment, a documentation line, a string or a template, and `t` stays in
there. -/
def Interior (a t : List Char) : Prop :=
  (Scan.start.final a).context ≠ .code ∧ ∀ c ∈ t, (Scan.start.final a).context.Keeps c

instance (a t : List Char) : Decidable (Interior a t) :=
  have : Decidable (∀ c ∈ t, (Scan.start.final a).context.Keeps c) := List.decidableBAll _ t
  inferInstanceAs (Decidable (_ ∧ _))

/-- A text with everything but its line breaks blanked, byte for byte. -/
def blanked (t : List Char) : List Char :=
  t.flatMap fun c => if c = '\n' then ['\n'] else List.replicate c.utf8Size ' '

/-- What the scanner is inside of after a character that keeps it there. -/
def Context.resumed : Context → Context
  | .escaped => .string
  | context => context

theorem resumed_ne_code {context : Context} (h : context ≠ .code) : context.resumed ≠ .code := by
  cases context <;> first | exact h | exact nofun

theorem keeps_resumed {context : Context} {c : Char} (h : context.Keeps c) :
    context.resumed.Keeps c := by
  cases context <;> exact h

theorem step_of_keeps {s : Scan} {c : Char} (h : s.context.Keeps c) (b : Bool) :
    (s.step c b).1.context = s.context.resumed ∧
      (s.step c b).2.masked = if c = '\n' then ['\n'] else List.replicate c.utf8Size ' ' := by
  obtain ⟨ctx, start⟩ := s
  by_cases hc : c = '\n'
  · subst hc
    cases ctx <;> first | exact absurd rfl h | exact h.elim | exact ⟨rfl, rfl⟩
  · have hread : Scan.read ⟨ctx, start⟩ c b = (ctx.resumed, false) := by
      cases ctx with
      | code => exact h.elim
      | escaped => rfl
      | lineComment => rfl
      | documentation => rfl
      | template => exact if_neg h
      | string =>
        simp only [Scan.read]
        rw [if_neg h.2, if_neg h.1]
        rfl
    rw [Scan.step_of_ne_newline hc, hread, if_neg hc]
    exact ⟨rfl, rfl⟩

/-- What stays inside shows as blanks, and the scanner stays inside. -/
theorem masked_interior {s : Scan} {t : List Char} (h : ∀ c ∈ t, s.context.Keeps c) :
    masked (s.cells t) = blanked t ∧ (t ≠ [] → (s.final t).context = s.context.resumed) := by
  induction t generalizing s with
  | nil => exact ⟨rfl, fun h => absurd rfl h⟩
  | cons c t ih =>
    obtain ⟨h1, h2⟩ := step_of_keeps (h c (List.mem_cons_self ..)) (t.head? == some '/')
    obtain ⟨ih1, ih2⟩ := ih (s := (s.step c (t.head? == some '/')).1) (by
      rw [h1]
      exact fun d hd => keeps_resumed (h d (List.mem_cons_of_mem _ hd)))
    rw [Scan.cells_cons, Scan.final_cons]
    refine ⟨by rw [masked_cons, h2, ih1]; rfl, fun _ => ?_⟩
    by_cases ht : t = []
    · subst ht
      exact h1
    · rw [ih2 ht, h1]
      cases s.context <;> rfl

/-- The bytes of a blanked text are spaces where the text has no line break. -/
theorem bytesOf_blanked (t : List Char) :
    bytesOf (blanked t) = (bytesOf t).map fun b => if b = 0x0A then 0x0A else Offset.space := by
  induction t with
  | nil => rfl
  | cons c t ih =>
    have hcons : bytesOf (c :: t) = String.utf8EncodeChar c ++ bytesOf t := List.flatMap_cons
    rw [blanked, List.flatMap_cons, bytesOf_append, ← blanked, ih, hcons, List.map_append]
    congr 1
    by_cases hc : c = '\n'
    · subst hc
      rfl
    · rw [if_neg hc, bytesOf_replicate_space, ← String.length_utf8EncodeChar, ← List.map_const']
      refine List.map_congr_left fun b hb => ?_
      rw [if_neg]
      rintro rfl
      exact hc (eq_newline_of_mem hb)

/-- As many bytes and line breaks at the same places make the same blanked text. -/
theorem blanked_congr {t u : List Char} (hlen : (bytesOf t).length = (bytesOf u).length)
    (hnewline : ∀ i : Nat, (bytesOf t)[i]? = some 0x0A ↔ (bytesOf u)[i]? = some 0x0A) :
    blanked t = blanked u := by
  apply bytesOf_injective
  rw [bytesOf_blanked, bytesOf_blanked]
  refine List.ext_getElem (by rw [List.length_map, List.length_map, hlen]) fun i h1 h2 => ?_
  rw [List.length_map] at h1 h2
  have := hnewline i
  rw [List.getElem?_eq_getElem h1, List.getElem?_eq_getElem h2, Option.some_inj,
    Option.some_inj] at this
  rw [List.getElem_map, List.getElem_map]
  exact if_congr this rfl rfl

/-- What stays inside does not lead back to code. -/
theorem final_ne_code {s : Scan} (hs : s.context ≠ .code) {t : List Char}
    (h : ∀ c ∈ t, s.context.Keeps c) : (s.final t).context ≠ .code := by
  by_cases ht : t = []
  · rw [ht]
    exact hs
  · rw [(masked_interior h).2 ht]
    exact resumed_ne_code hs

/-- What is written inside takes no part in the masked text but by its bytes and line breaks. -/
theorem masked_eq_of_interior {a x y b : List Char} (hx : Interior a x) (hy : Interior a y)
    (hlen : (bytesOf x).length = (bytesOf y).length)
    (hnewline : ∀ i : Nat, (bytesOf x)[i]? = some 0x0A ↔ (bytesOf y)[i]? = some 0x0A) :
    masked (cells (a ++ x ++ b)) = masked (cells (a ++ y ++ b)) := by
  obtain ⟨hcode, hx⟩ := hx
  obtain ⟨-, hy⟩ := hy
  have hparts : ∀ z, (∀ c ∈ z, (Scan.start.final a).context.Keeps c) →
      masked (cells (a ++ z ++ b)) = masked (Scan.start.cells a) ++ blanked z
        ++ masked (((Scan.start.final a).final z).cells b) := by
    intro z hz
    rw [List.append_assoc, cells, Scan.cells_append a _ (.inl hcode), masked_append,
      Scan.cells_append z b (.inl (final_ne_code hcode hz)), masked_append, (masked_interior hz).1,
      List.append_assoc]
  have hcontext : ((Scan.start.final a).final x).context = ((Scan.start.final a).final y).context := by
    by_cases h : x = []
    · subst h
      obtain rfl : y = [] := eq_nil_of_byteLength (by rw [← length_bytesOf, ← hlen]; rfl)
      rfl
    · have hne : y ≠ [] := by
        rintro rfl
        exact h (eq_nil_of_byteLength (by rw [← length_bytesOf, hlen]; rfl))
      rw [(masked_interior hx).2 h, (masked_interior hy).2 hne]
  have hagree : ((Scan.start.final a).final x).Agree ((Scan.start.final a).final y) :=
    ⟨hcontext, fun h => absurd h (final_ne_code hcode hx)⟩
  rw [hparts x hx, hparts y hy, blanked_congr hlen hnewline, Scan.cells_of_agree hagree]

/-- What is written inside comments and literals neither changes the masked text nor creates, hides
or renames connectors and functions. -/
theorem interior_irrelevant (package : PackageName) (moduleName : String) {A X Y B : String}
    (hX : Interior A.toList X.toList) (hY : Interior A.toList Y.toList)
    (hlen : (utf8 X).length = (utf8 Y).length)
    (hnewline : ∀ i : Nat, (utf8 X)[i]? = some 0x0A ↔ (utf8 Y)[i]? = some 0x0A) :
    mask (A ++ X ++ B) = mask (A ++ Y ++ B) ∧
      (connectorsOfSource package moduleName .detailed (A ++ X ++ B)).map Connector.outline
        = (connectorsOfSource package moduleName .detailed (A ++ Y ++ B)).map Connector.outline := by
  rw [utf8_eq_bytesOf, utf8_eq_bytesOf] at hlen hnewline
  have hmasked := masked_eq_of_interior (b := B.toList) hX hY hlen hnewline
  simp only [← String.toList_append] at hmasked
  refine ⟨?_, ?_⟩
  · rw [mask, mask, hmasked]
  · rw [map_outline_connectorsOfSource, map_outline_connectorsOfSource]
    exact outlines_eq_of_masked_eq hmasked

/-- A class written in a template and a documentation line written in its place make no difference. -/
theorem interior_irrelevant_in_template :
    mask ("string s = `" ++ "é\nclient class X \x7b\x7d" ++ "`;")
        = mask ("string s = `" ++ "ab\n# remote function" ++ "`;") ∧
      (connectorsOfSource ⟨"", "", ""⟩ "" .detailed
          ("string s = `" ++ "é\nclient class X \x7b\x7d" ++ "`;")).map Connector.outline
        = (connectorsOfSource ⟨"", "", ""⟩ "" .detailed
          ("string s = `" ++ "ab\n# remote function" ++ "`;")).map Connector.outline := by
  have hx : Interior "string s = `".toList "é\nclient class X \x7b\x7d".toList := by decide
  have hy : Interior "string s = `".toList "ab\n# remote function".toList := by decide
  have hlen : (utf8 "é\nclient class X \x7b\x7d").length = (utf8 "ab\n# remote function").length := by
    rw [utf8_eq_bytesOf, utf8_eq_bytesOf]
    decide
  have hnewline : (utf8 "é\nclient class X \x7b\x7d").map (· == 0x0A)
      = (utf8 "ab\n# remote function").map (· == 0x0A) := by
    rw [utf8_eq_bytesOf, utf8_eq_bytesOf]
    decide
  refine interior_irrelevant ⟨"", "", ""⟩ "" hx hy hlen fun i => ?_
  have := congrArg (·[i]? == some true) hnewline
  simpa using this

end ConnectorCatalog
