import ConnectorCatalog.Connector.Extract
import ConnectorCatalog.Proofs.Documentation
import ConnectorCatalog.Proofs.Trim
import Mathlib.Tactic.SplitIfs

/-!
# Fields of a display annotation

A field is looked for at every place of an annotation, inside of its values too. The search passes
over a value unless that ends in the name of the field and a colon: then the quote that ends the value
is taken for the one that begins the field's (`passes_quoted`). Otherwise both fields are found with
the values that they are written with, in either order (`ofAnnotations?_text`).
-/

namespace ConnectorCatalog

section Phrase

variable {α : Type _} [BEq α] [LawfulBEq α] {phrase a : List α} {c : α}

theorem isPrefixOf?_append_cons (hc : c ∉ phrase) (a b : List α) :
    phrase.isPrefixOf? (a ++ c :: b) = (phrase.isPrefixOf? a).map (· ++ c :: b) := by
  induction phrase generalizing a with
  | nil => rfl
  | cons p phrase ih =>
    rw [List.mem_cons, not_or] at hc
    cases a with
    | nil => simp [List.isPrefixOf?, Ne.symm hc.1]
    | cons x a =>
      rw [List.cons_append, List.isPrefixOf?, List.isPrefixOf?, ih hc.2]
      split_ifs <;> rfl

/-- A phrase that is not in a text is not found across a character that it does not have. -/
theorem cutAround_append_cons (hc : c ∉ phrase) (ha : cutAround phrase a = none) (b : List α) :
    cutAround phrase (a ++ c :: b)
      = (cutAround phrase b).map fun p => (a ++ c :: p.1, p.2) := by
  have hne : phrase ≠ [] := by
    rintro rfl
    cases a <;> cases ha
  induction a with
  | nil =>
    have hbegin := isPrefixOf?_append_cons hc [] b
    rw [List.nil_append] at hbegin
    rw [List.nil_append, cutAround, hbegin]
    cases phrase with
    | nil => exact absurd rfl hne
    | cons p phrase => rfl
  | cons x a ih =>
    rw [cutAround] at ha
    rw [List.cons_append, cutAround, ← List.cons_append, isPrefixOf?_append_cons hc]
    split at ha
    · cases ha
    · rename_i hbegin
      rw [Option.map_eq_none_iff] at ha
      rw [hbegin, ih ha, Option.map_none, Option.map_map]
      rfl

end Phrase

section Search

variable {β : Type} {read? : List Char → Option β}

theorem firstFound?_of_some {s : List Char} {x : β} (h : read? s = some x) :
    firstFound? read? s = some x := by
  cases s with
  | nil => exact h
  | cons c r => rw [firstFound?, h, Option.orElse_some]

/-- The search for something passes over the text. -/
def Passes (read? : List Char → Option β) (a : List Char) : Prop :=
  ∀ b, firstFound? read? (a ++ b) = firstFound? read? b

theorem passes_append {a b : List Char} (ha : Passes read? a) (hb : Passes read? b) :
    Passes read? (a ++ b) := by
  intro c
  rw [List.append_assoc, ha, hb]

theorem passes_of_none {a : List Char} (h : ∀ v, v <:+ a → v ≠ [] → ∀ b, read? (v ++ b) = none) :
    Passes read? a := by
  induction a with
  | nil => exact fun b => rfl
  | cons c a ih =>
    intro b
    have hc := h (c :: a) List.suffix_rfl (List.cons_ne_nil _ _) b
    rw [List.cons_append] at hc
    rw [List.cons_append, firstFound?, hc, Option.orElse_none]
    exact ih (fun v hv => h v (hv.trans (List.suffix_cons ..))) b

end Search

/-- A text that ends in the name of a field and a colon, blanks apart. -/
def EndsInField (field : String) (v : List Char) : Prop :=
  ∃ a r, v = a ++ (field.toList ++ r) ∧ trim r = [':']

instance (field : String) (v : List Char) : Decidable (EndsInField field v) :=
  decidable_of_iff (∃ n < v.length + 1, field.toList <+: v.drop n ∧
      trim ((v.drop n).drop field.toList.length) = [':']) <| by
    constructor
    · rintro ⟨n, -, ⟨r, hr⟩, htrim⟩
      rw [← hr, List.drop_left] at htrim
      exact ⟨v.take n, r, by rw [hr, List.take_append_drop], htrim⟩
    · rintro ⟨a, r, rfl, htrim⟩
      refine ⟨a.length, by simp only [List.length_append]; omega, ?_⟩
      simp only [List.drop_left]
      exact ⟨List.prefix_append .., htrim⟩

section Field

variable {field : String}

/-- A field is read with the value that is written. -/
theorem quotedField?_written {b b' v : List Char} (hb : ∀ c ∈ b, isBlank c = true)
    (hb' : ∀ c ∈ b', isBlank c = true) (hv : '"' ∉ v) (r : List Char) :
    quotedField? field (field.toList ++ (b ++ ':' :: (b' ++ '"' :: (v ++ '"' :: r))))
      = some (String.ofList v) := by
  have hfield : ∀ t, field.toList.isPrefixOf? (field.toList ++ t) = some t :=
    fun t => List.isPrefixOf?_eq_some_iff_append_eq.2 rfl
  have hquotes : ∀ c ∈ v, (c == '"') = false :=
    fun c hc => beq_false_of_ne fun h => hv (h ▸ hc)
  rw [quotedField?, hfield, Option.map_some, trimStart_blanks hb, trimStart_cons (by decide)]
  simp only []
  rw [trimStart_blanks hb', trimStart_cons (by decide)]
  simp only []
  rw [cutAtFirst_append hquotes rfl, Option.map_some]

/-- What is found at the place of a field: its name, a colon and a quote. -/
theorem exists_of_quotedField? {s : List Char} {x : String} (h : quotedField? field s = some x) :
    ∃ t r r', s = field.toList ++ t ∧ trimStart t = ':' :: r ∧ trimStart r = '"' :: r' := by
  unfold quotedField? at h
  split at h
  · rename_i r hr
    obtain ⟨t, ht, htrim⟩ := Option.map_eq_some_iff.1 hr
    split at h
    · rename_i r' hr'
      exact ⟨t, r, r', (List.isPrefixOf?_eq_some_iff_append_eq.1 ht).symm, htrim, hr'⟩
    · cases h
  · cases h

theorem passes_of_head {c : Char} {w : List Char} (hfield : field.toList = c :: w) {a : List Char}
    (ha : c ∉ a) : Passes (quotedField? field) a := by
  refine passes_of_none fun v hv hne b => ?_
  cases hq : quotedField? field (v ++ b) with
  | none => rfl
  | some x =>
    obtain ⟨t, -, -, hsplit, -, -⟩ := exists_of_quotedField? hq
    obtain ⟨d, v, rfl⟩ := List.exists_cons_of_ne_nil hne
    rw [hfield, List.cons_append, List.cons_append, List.cons.injEq] at hsplit
    exact absurd (hv.subset (hsplit.1 ▸ List.mem_cons_self ..)) ha

/-- Before a character that is no blank, what is trimmed is trimmed from the text in front of it. -/
theorem trimStart_append_cons {c : Char} (hc : isBlank c = false) (w r : List Char) :
    (∀ x ∈ w, isBlank x = true) ∧ trimStart (w ++ c :: r) = c :: r ∨
      ∃ b d w', w = b ++ d :: w' ∧ (∀ x ∈ b, isBlank x = true) ∧
        trimStart (w ++ c :: r) = d :: (w' ++ c :: r) := by
  induction w with
  | nil => exact .inl ⟨nofun, trimStart_cons hc r⟩
  | cons x w ih =>
    cases hx : isBlank x with
    | false => exact .inr ⟨[], x, w, rfl, nofun, trimStart_cons hx _⟩
    | true =>
      have hstep : trimStart (x :: w ++ c :: r) = trimStart (w ++ c :: r) :=
        trimStart_blanks (a := [x]) (by simpa using hx) _
      rw [hstep]
      rcases ih with ⟨hw, htrim⟩ | ⟨b, d, w', rfl, hb, htrim⟩
      · exact .inl ⟨List.forall_mem_cons.2 ⟨hx, hw⟩, htrim⟩
      · exact .inr ⟨x :: b, d, w', rfl, List.forall_mem_cons.2 ⟨hx, hb⟩, htrim⟩

/-- A value that does not end in the name of the field and a colon is passed with its quotes. -/
theorem passes_quoted {c : Char} {w : List Char} (hfield : field.toList = c :: w)
    (hquote : '"' ∉ field.toList) {v : List Char} (hv : '"' ∉ v) (hends : ¬ EndsInField field v) :
    Passes (quotedField? field) ('"' :: (v ++ ['"'])) := by
  have hmark : isBlank '"' = false := by decide
  have hstart : Passes (quotedField? field) ['"'] :=
    passes_of_head hfield (by rw [List.mem_singleton]; rintro rfl; simp [hfield] at hquote)
  refine passes_append (a := ['"']) hstart (passes_of_none fun u hu hne b => ?_)
  cases hq : quotedField? field (u ++ b) with
  | none => rfl
  | some x =>
    obtain ⟨t, r, r', hsplit, ht, hr⟩ := exists_of_quotedField? hq
    obtain rfl | ⟨v', rfl, p, hp⟩ := List.suffix_concat_iff.1 hu
    · exact absurd rfl hne
    -- the name has no quote, so it stands before the quote that ends the value
    obtain ⟨w, rfl, rfl⟩ : ∃ w, v' = field.toList ++ w ∧ t = w ++ '"' :: b := by
      rw [List.append_assoc, List.singleton_append] at hsplit
      rcases List.append_eq_append_iff.1 hsplit with ⟨a, ha, hb⟩ | h
      · cases a with
        | nil => exact ⟨[], by simpa using ha.symm, hb.symm⟩
        | cons d a =>
          rw [List.cons_append, List.cons.injEq] at hb
          exact absurd (by rw [ha, ← hb.1]; simp) hquote
      · exact h
    have hmem : ∀ {y}, y ∈ w → y ∈ v := fun hy => by simp [← hp, hy]
    rcases trimStart_append_cons hmark w b with ⟨-, htrim⟩ | ⟨b₁, d, w', rfl, hb₁, htrim⟩
    · rw [htrim] at ht
      cases ht
    rw [htrim, List.cons.injEq] at ht
    obtain ⟨rfl, rfl⟩ := ht
    rcases trimStart_append_cons hmark w' b with ⟨hw, -⟩ | ⟨b₂, d, w'', rfl, -, htrim⟩
    · have htrim : trim (b₁ ++ ':' :: w') = [':'] := by
        have hcolon : trim [':'] = [':'] := by decide
        have := trim_surrounded hb₁ hw [':']
        rwa [List.append_assoc, List.singleton_append, hcolon] at this
      exact absurd ⟨p, _, hp.symm, htrim⟩ hends
    · rw [htrim, List.cons.injEq] at hr
      exact absurd (hmem (by simp [hr.1])) hv

/-- The text holds the tokens one after the other, with any blanks between and around them. -/
def LaidOut : List (List Char) → List Char → Prop
  | [], s => ∀ c ∈ s, isBlank c = true
  | t :: ts, s => ∃ gap r, s = gap ++ (t ++ r) ∧ (∀ c ∈ gap, isBlank c = true) ∧ LaidOut ts r

instance decidableLaidOut : ∀ (ts : List (List Char)) (s : List Char), Decidable (LaidOut ts s)
  | [], s => List.decidableBAll (fun c => isBlank c = true) s
  | t :: ts, s =>
    have := decidableLaidOut ts
    have := fun n => List.decidableBAll (fun c => isBlank c = true) (s.take n)
    decidable_of_iff (∃ n < s.length + 1, (∀ c ∈ s.take n, isBlank c = true) ∧ t <+: s.drop n ∧
        LaidOut ts ((s.drop n).drop t.length)) <| by
      constructor
      · rintro ⟨n, -, hgap, ⟨r, hr⟩, hrest⟩
        refine ⟨s.take n, r, by rw [hr, List.take_append_drop], hgap, ?_⟩
        rwa [← hr, List.drop_left] at hrest
      · rintro ⟨gap, r, rfl, hgap, hr⟩
        refine ⟨gap.length, by simp only [List.length_append]; omega, ?_⟩
        simp only [List.take_left, List.drop_left]
        exact ⟨hgap, List.prefix_append .., hr⟩

/-- The tokens that a field with a value is written with. -/
def fieldTokens (field : String) (v : List Char) : List (List Char) :=
  [field.toList, [':'], '"' :: (v ++ ['"'])]

/-- Behind tokens that the search passes over, a field is found with the value that is written. -/
theorem firstFound?_laidOut {c : Char} {w : List Char}
    (hfield : field.toList = c :: w) (hc : isBlank c = false) {v : List Char} (hv : '"' ∉ v)
    {front rest : List (List Char)} (hfront : ∀ t ∈ front, Passes (quotedField? field) t)
    {s : List Char} (hs : LaidOut (front ++ (fieldTokens field v ++ rest)) s) :
    firstFound? (quotedField? field) s = some (String.ofList v) := by
  have hblank : ∀ {gap : List Char}, (∀ x ∈ gap, isBlank x = true) →
      Passes (quotedField? field) gap := fun hgap =>
    passes_of_head hfield fun h => by simp [hgap c h] at hc
  induction front generalizing s with
  | nil =>
    obtain ⟨gap, r, rfl, hgap, b, r, rfl, hb, b', r, rfl, hb', -⟩ := hs
    have hfound : quotedField? field _ = _ := quotedField?_written hb hb' hv r
    rw [hblank hgap]
    refine firstFound?_of_some ?_
    rw [← hfound]
    simp
  | cons t front ih =>
    obtain ⟨gap, r, rfl, hgap, hr⟩ := hs
    rw [hblank hgap, hfront t (List.mem_cons_self ..)]
    exact ih (fun u hu => hfront u (List.mem_cons_of_mem _ hu)) hr

end Field

/-- A display annotation as it is written, alone on its lines: with its fields in one order or the
other, and with the blanks before it, in front of its brace, around its fields and behind it. -/
structure WrittenDisplay where
  label : List Char
  iconPath : List Char
  labelFirst : Bool
  indent : List Char
  gap : List Char
  inside : List Char
  behind : List Char
deriving DecidableEq, Repr

namespace WrittenDisplay

/-- The field that stands first, and its value. -/
def first (d : WrittenDisplay) : String × List Char :=
  if d.labelFirst then ("label", d.label) else ("iconPath", d.iconPath)

/-- The field that stands second, and its value. -/
def second (d : WrittenDisplay) : String × List Char :=
  if d.labelFirst then ("iconPath", d.iconPath) else ("label", d.label)

/-- The tokens inside of the braces. -/
def tokens (d : WrittenDisplay) : List (List Char) :=
  fieldTokens d.first.1 d.first.2 ++ [','] :: fieldTokens d.second.1 d.second.2

/-- The text in front of the fields. -/
def head (d : WrittenDisplay) : List Char := "@display".toList ++ (d.gap ++ ['\x7b'])

def text (d : WrittenDisplay) : List Char :=
  d.indent ++ (d.head ++ (d.inside ++ '\x7d' :: d.behind))

/-- Blanks stand where blanks may, the fields are laid out inside of the braces, and their values have
neither quotes nor backslashes nor line breaks. -/
structure IsWritten (d : WrittenDisplay) : Prop where
  indent : ∀ c ∈ d.indent, isBlank c = true ∧ c ≠ '\n'
  gap : ∀ c ∈ d.gap, isBlank c = true
  inside : LaidOut d.tokens d.inside
  behind : ∀ c ∈ d.behind, isBlank c = true ∧ c ≠ '\n'
  label : ∀ c ∈ d.label, c ≠ '"' ∧ c ≠ '\\' ∧ c ≠ '\n'
  iconPath : ∀ c ∈ d.iconPath, c ≠ '"' ∧ c ≠ '\\' ∧ c ≠ '\n'

instance (d : WrittenDisplay) : Decidable d.IsWritten :=
  have := fun s : List Char => List.decidableBAll (fun c => isBlank c = true) s
  have := fun s : List Char => List.decidableBAll (fun c => isBlank c = true ∧ c ≠ '\n') s
  have := fun s : List Char => List.decidableBAll (fun c => c ≠ '"' ∧ c ≠ '\\' ∧ c ≠ '\n') s
  decidable_of_iff ((∀ c ∈ d.indent, isBlank c = true ∧ c ≠ '\n') ∧
      (∀ c ∈ d.gap, isBlank c = true) ∧ LaidOut d.tokens d.inside ∧
      (∀ c ∈ d.behind, isBlank c = true ∧ c ≠ '\n') ∧
      (∀ c ∈ d.label, c ≠ '"' ∧ c ≠ '\\' ∧ c ≠ '\n') ∧
      ∀ c ∈ d.iconPath, c ≠ '"' ∧ c ≠ '\\' ∧ c ≠ '\n')
    ⟨fun ⟨h₁, h₂, h₃, h₄, h₅, h₆⟩ => ⟨h₁, h₂, h₃, h₄, h₅, h₆⟩,
      fun ⟨h₁, h₂, h₃, h₄, h₅, h₆⟩ => ⟨h₁, h₂, h₃, h₄, h₅, h₆⟩⟩

theorem text_eq (d : WrittenDisplay) : d.text = d.indent ++ ("@display".toList
    ++ (d.gap ++ '\x7b' :: (d.inside ++ '\x7d' :: d.behind))) := by
  unfold text head
  generalize "@display".toList = mark
  simp

theorem head_inside (d : WrittenDisplay) :
    d.head ++ d.inside = "@display".toList ++ (d.gap ++ '\x7b' :: d.inside) := by
  unfold head
  generalize "@display".toList = mark
  simp

theorem names (d : WrittenDisplay) : d.first.1 = "label" ∧ d.second.1 = "iconPath" ∨
    d.first.1 = "iconPath" ∧ d.second.1 = "label" := by
  unfold first second
  split
  · exact .inl ⟨rfl, rfl⟩
  · exact .inr ⟨rfl, rfl⟩

theorem values {P : List Char → Prop} {d : WrittenDisplay} (hlabel : P d.label)
    (hicon : P d.iconPath) : P d.first.2 ∧ P d.second.2 := by
  unfold first second
  split
  · exact ⟨hlabel, hicon⟩
  · exact ⟨hicon, hlabel⟩

theorem forall_tokens {P : List Char → Prop} (d : WrittenDisplay) (hlabel : P "label".toList)
    (hicon : P "iconPath".toList) (hcolon : P [':']) (hcomma : P [','])
    (hvalue : ∀ v, v = d.label ∨ v = d.iconPath → P ('"' :: (v ++ ['"']))) : ∀ t ∈ d.tokens, P t := by
  have hvalues := values (P := fun v => P ('"' :: (v ++ ['"']))) (hvalue _ (.inl rfl))
    (hvalue _ (.inr rfl))
  intro t ht
  simp only [tokens, fieldTokens, List.cons_append, List.nil_append, List.mem_cons, List.not_mem_nil,
    or_false] at ht
  rcases d.names with ⟨h₁, h₂⟩ | ⟨h₁, h₂⟩ <;> rw [h₁, h₂] at ht <;>
    rcases ht with rfl | rfl | rfl | rfl | rfl | rfl | rfl <;>
    first | assumption | exact hvalues.1 | exact hvalues.2

end WrittenDisplay

theorem mem_of_laidOut {c : Char} : ∀ {ts : List (List Char)} {s : List Char}, LaidOut ts s → c ∈ s →
    isBlank c = true ∨ ∃ t ∈ ts, c ∈ t
  | [], _, hs, hc => .inl (hs c hc)
  | t :: ts, _, ⟨gap, r, rfl, hgap, hr⟩, hc => by
    rcases List.mem_append.1 hc with hc | hc
    · exact .inl (hgap c hc)
    rcases List.mem_append.1 hc with hc | hc
    · exact .inr ⟨t, List.mem_cons_self .., hc⟩
    · exact (mem_of_laidOut hr hc).imp_right fun ⟨u, hu, hc⟩ => ⟨u, List.mem_cons_of_mem _ hu, hc⟩

section Found

variable {d : WrittenDisplay} (hd : d.IsWritten)

/-- The name of a field begins with a letter that no mark of the annotation is. -/
theorem exists_head_of_name {field : String} (h : field = "label" ∨ field = "iconPath") :
    ∃ c w, field.toList = c :: w ∧ isBlank c = false ∧ c ∉ ['\x7b', ':', ','] ∧ '"' ∉ field.toList := by
  rcases h with rfl | rfl
  · exact ⟨'l', _, rfl, by decide, by decide, by simp⟩
  · exact ⟨'i', _, rfl, by decide, by decide, by simp⟩

include hd

theorem passes_head {field : String} (h : field = "label" ∨ field = "iconPath") :
    Passes (quotedField? field) d.head := by
  obtain ⟨c, w, hfield, hblank, hmark, -⟩ := exists_head_of_name h
  refine passes_append (fun b => ?_) (passes_of_head hfield fun hc => ?_)
  · rcases h with rfl | rfl <;> simp [firstFound?, quotedField?, List.isPrefixOf?]
  · rcases List.mem_append.1 hc with hc | hc
    · rw [hd.gap c hc] at hblank
      cases hblank
    · rw [List.mem_singleton.1 hc] at hmark
      exact hmark (by decide)

theorem firstFound?_first :
    firstFound? (quotedField? d.first.1) (d.head ++ d.inside) = some (String.ofList d.first.2) := by
  have hname : d.first.1 = "label" ∨ d.first.1 = "iconPath" := d.names.imp (·.1) (·.1)
  have hvalue := (WrittenDisplay.values (P := ('"' ∉ ·)) (fun h => (hd.label _ h).1 rfl)
    fun h => (hd.iconPath _ h).1 rfl).1
  obtain ⟨c, w, hfield, hblank, -⟩ := exists_head_of_name hname
  rw [passes_head hd hname]
  exact firstFound?_laidOut hfield hblank hvalue (List.forall_mem_nil _) hd.inside

theorem firstFound?_second (hends : ¬ EndsInField d.second.1 d.first.2) :
    firstFound? (quotedField? d.second.1) (d.head ++ d.inside) = some (String.ofList d.second.2) := by
  have hname : d.second.1 = "label" ∨ d.second.1 = "iconPath" := d.names.symm.imp (·.2) (·.2)
  obtain ⟨hfirst, hsecond⟩ := WrittenDisplay.values (P := ('"' ∉ ·)) (fun h => (hd.label _ h).1 rfl)
    fun h => (hd.iconPath _ h).1 rfl
  obtain ⟨c, w, hfield, hblank, hmark, hquote⟩ := exists_head_of_name hname
  simp only [List.mem_cons, List.not_mem_nil, or_false, not_or] at hmark
  -- neither name has the first letter of the other
  have hother : c ∉ d.first.1.toList := by
    rcases d.names with ⟨h₁, h₂⟩ | ⟨h₁, h₂⟩ <;> rw [h₂] at hfield <;> rw [h₁] <;> simp at hfield <;>
      simp [← hfield.1]
  have hinside := hd.inside
  rw [WrittenDisplay.tokens, ← List.singleton_append, ← List.append_assoc,
    ← List.append_nil (fieldTokens d.second.1 _)] at hinside
  rw [passes_head hd hname]
  refine firstFound?_laidOut hfield hblank hsecond (fun t ht => ?_) hinside
  simp only [fieldTokens, List.cons_append, List.nil_append, List.mem_cons, List.not_mem_nil,
    or_false] at ht
  rcases ht with rfl | rfl | rfl | rfl
  · exact passes_of_head hfield hother
  · exact passes_of_head hfield (by simpa using hmark.2.1)
  · exact passes_quoted hfield hquote hfirst hends
  · exact passes_of_head hfield (by simpa using hmark.2.2)

/-- No closing brace stands in front of the one that ends the annotation, if none is in a value. -/
theorem closing_not_mem_inside (hbrace : '\x7d' ∉ d.label ++ d.iconPath) : '\x7d' ∉ d.inside := by
  rw [List.mem_append, not_or] at hbrace
  intro h
  obtain h | ⟨t, ht, h⟩ := mem_of_laidOut hd.inside h
  · exact absurd h (by decide)
  · refine d.forall_tokens (P := ('\x7d' ∉ ·)) (by simp) (by simp) (by simp) (by simp) ?_ t ht h
    rintro v (rfl | rfl)
    · simpa using hbrace.1
    · simpa using hbrace.2

/-- What is searched for the fields: the text behind the mark, up to the closing brace. -/
theorem takeWhile_closing (hbrace : '\x7d' ∉ d.label ++ d.iconPath) :
    (d.gap ++ '\x7b' :: (d.inside ++ '\x7d' :: d.behind)).takeWhile (· != '\x7d')
      = d.gap ++ '\x7b' :: d.inside := by
  have hall : ∀ c ∈ d.gap ++ '\x7b' :: d.inside, (c != '\x7d') = true := by
    intro c hc
    rw [bne_iff_ne]
    rintro rfl
    simp only [List.mem_append, List.mem_cons] at hc
    rcases hc with hc | hc | hc
    · exact absurd (hd.gap _ hc) (by decide)
    · exact absurd hc (by decide)
    · exact closing_not_mem_inside hd hbrace hc
  rw [← List.cons_append, ← List.append_assoc, List.takeWhile_append_of_pos hall]
  simp

/-- In the text of an annotation without closing braces in its values, and behind lines that do not
hold its mark, both fields are found with their values. -/
theorem ofAnnotations?_text (hbrace : '\x7d' ∉ d.label ++ d.iconPath)
    (hends : ¬ EndsInField d.second.1 d.first.2) {annotations : List Char}
    (h : annotations = d.text ∨ ∃ upper, cutAround "@display".toList upper = none ∧
      annotations = upper ++ '\n' :: d.text) :
    DisplayAnnotation.ofAnnotations? annotations
      = some ⟨some (String.ofList d.label), some (String.ofList d.iconPath)⟩ := by
  have hmark : '@' ∉ d.indent := fun h => absurd (hd.indent _ h).1 (by decide)
  have htext : cutAround "@display".toList d.text
      = some (d.indent, d.gap ++ '\x7b' :: (d.inside ++ '\x7d' :: d.behind)) := by
    rw [d.text_eq]
    exact cutAround_append "display".toList hmark _
  obtain ⟨front, hcut⟩ : ∃ front, cutAround "@display".toList annotations
      = some (front, d.gap ++ '\x7b' :: (d.inside ++ '\x7d' :: d.behind)) := by
    rcases h with rfl | ⟨upper, hupper, rfl⟩
    · exact ⟨_, htext⟩
    · rw [cutAround_append_cons (by simp) hupper, htext]
      exact ⟨_, rfl⟩
  have hfirst := firstFound?_first hd
  have hsecond := firstFound?_second hd hends
  rw [d.head_inside] at hfirst hsecond
  unfold DisplayAnnotation.ofAnnotations?
  rw [hcut, Option.map_some]
  simp only [takeWhile_closing hd hbrace]
  unfold WrittenDisplay.first at hfirst
  unfold WrittenDisplay.second at hsecond
  split at hfirst
  · rw [if_pos ‹_›] at hsecond
    simp only [hfirst, hsecond]
  · rw [if_neg ‹_›] at hsecond
    simp only [hfirst, hsecond]

end Found

end ConnectorCatalog
