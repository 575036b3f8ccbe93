import ConnectorCatalog.Proofs.Toml.Literal
import ConnectorCatalog.Proofs.Toml.StringPart
import Mathlib.Tactic.IntervalCases

/-!
# String literals

A string literal is quotes around parts. Parts are read up to their closing quotes, and what is read up
to closing quotes is parts: on one line (`basicEnd?_parts`, `exists_parts_of_basicEnd?` and the same for
single quotes) and over several (`longEnd?_parts`, `leavesLong_of_longEnd?`).
-/

namespace ConnectorCatalog.Toml

open StringPart

/-- A string as it is written: the kind of its quotes, whether there are three of them on each side,
and what stands between them. -/
structure StringLiteral where
  quote : Char
  isLong : Bool
  parts : List StringPart
deriving DecidableEq, Repr

/-- Three quotes in a row. -/
def threeQuotes (quote : Char) : List StringPart := List.replicate 3 (.plain quote)

/-- From three quotes in a row on there are only quotes. -/
def EndsInQuotes (quote : Char) (parts : List StringPart) : Prop :=
  ∀ t ∈ parts.tails, t.take 3 = threeQuotes quote → ∀ p ∈ t, p = .plain quote

instance (quote : Char) : DecidablePred (EndsInQuotes quote) := fun parts =>
  inferInstanceAs (Decidable (∀ t ∈ parts.tails, t.take 3 = threeQuotes quote →
    ∀ p ∈ t, p = StringPart.plain quote))

namespace StringLiteral

/-- The quotes on one side. -/
def quotes (l : StringLiteral) : List Char := List.replicate (if l.isLong then 3 else 1) l.quote

/-- The literal as text. -/
def source (l : StringLiteral) : List Char :=
  l.quotes ++ (l.parts.flatMap StringPart.source ++ l.quotes)

/-- What the grammar asks of a literal. More than five quotes may close a long one. -/
structure IsWritten (l : StringLiteral) : Prop where
  quote : l.quote = '"' ∨ l.quote = '\''
  fits : ∀ p ∈ l.parts, p.Fits l.quote l.isLong
  ends : l.isLong = true → EndsInQuotes l.quote l.parts

instance : DecidablePred IsWritten := fun l =>
  decidable_of_iff ((l.quote = '"' ∨ l.quote = '\'') ∧ (∀ p ∈ l.parts, p.Fits l.quote l.isLong) ∧
      (l.isLong = true → EndsInQuotes l.quote l.parts))
    ⟨fun ⟨hquote, hfits, hends⟩ => ⟨hquote, hfits, hends⟩, fun h => ⟨h.quote, h.fits, h.ends⟩⟩

end StringLiteral

variable {quote : Char} {isLong : Bool} {parts : List StringPart} {s r t : List Char}

/-! ## Escapes -/

theorem escape?_letter {letter : Char} (h : letter ∈ ['b', 't', 'n', 'f', 'r', '"', '\\'])
    (t : List Char) : escape? (letter :: t) = some t := by
  simp only [List.mem_cons, List.not_mem_nil, or_false] at h
  rcases h with rfl | rfl | rfl | rfl | rfl | rfl | rfl <;> rfl

theorem escape?_digits {digits : List Char} (hlength : digits.length = 4 ∨ digits.length = 8)
    (hdigits : ∀ d ∈ digits, isHexadecimal d = true) (t : List Char) :
    escape? ((if digits.length = 4 then 'u' else 'U') :: (digits ++ t)) = some t := by
  have hall : digits.all isHexadecimal = true := List.all_eq_true.2 hdigits
  rcases hlength with hlength | hlength
  · rw [if_pos hlength, escape?, ← hlength, List.take_left, List.drop_left, if_pos]
    exact ⟨by simp, hall⟩
  · rw [if_neg (by omega), escape?, ← hlength, List.take_left, List.drop_left, if_pos]
    exact ⟨by simp, hall⟩

theorem exists_codePoint {letter : Char} {n : Nat} (hn : n = 4 ∧ letter = 'u' ∨ n = 8 ∧ letter = 'U')
    (hlength : n ≤ s.length) (hdigits : (s.take n).all isHexadecimal = true) :
    ∃ p : StringPart, (∀ isLong, p.Fits '"' isLong) ∧ (∀ c, p ≠ .plain c) ∧
      '\\' :: letter :: s = p.source ++ s.drop n := by
  have htake : (s.take n).length = n := by simp [hlength]
  refine ⟨.codePoint (s.take n), fun _ => ⟨rfl, ?_, List.all_eq_true.1 hdigits⟩, nofun, ?_⟩
  · rw [htake]
    exact hn.imp And.left And.left
  · rw [StringPart.source, htake]
    rcases hn with ⟨rfl, rfl⟩ | ⟨rfl, rfl⟩ <;> simp

/-- An escape is a part that needs double quotes. -/
theorem exists_of_escape? (h : escape? s = some t) :
    ∃ p : StringPart, (∀ isLong, p.Fits '"' isLong) ∧ (∀ c, p ≠ .plain c) ∧
      '\\' :: s = p.source ++ t := by
  unfold escape? at h
  split at h
  · split_ifs at h with hu
    cases h
    exact exists_codePoint (.inl ⟨rfl, rfl⟩) hu.1 hu.2
  · split_ifs at h with hu
    cases h
    exact exists_codePoint (.inr ⟨rfl, rfl⟩) hu.1 hu.2
  · split_ifs at h with hletter
    cases h
    exact ⟨.escape _, fun _ => ⟨rfl, hletter⟩, nofun, rfl⟩
  · cases h

theorem drop_of_escape? (h : escape? s = some t) : s.drop (s.length - t.length) = t := by
  obtain ⟨a, rfl⟩ := suffix_escape? h
  simp

/-! ## Strings on one line -/

theorem basicEnd?_skip (t : List Char) : ∀ a : List Char,
    basicEnd? a.length (a ++ t) = basicEnd? 0 t
  | [] => rfl
  | c :: a => by
    rw [List.length_cons, List.cons_append, basicEnd?, basicEnd?_skip t a]

theorem basicEnd?_backslash {a : List Char} (h : escape? (a ++ t) = some t) :
    basicEnd? 0 ('\\' :: (a ++ t)) = basicEnd? 0 t := by
  have hlength : (a ++ t).length - t.length = a.length := by simp
  rw [basicEnd?, if_neg (by decide), if_pos rfl, h]
  dsimp only
  rw [hlength, basicEnd?_skip]

theorem basicEnd?_part {p : StringPart} (h : p.Fits '"' false) (t : List Char) :
    basicEnd? 0 (p.source ++ t) = basicEnd? 0 t := by
  cases p with
  | plain c =>
    have hquote := h.2.2 rfl
    rw [StringPart.source, List.singleton_append, basicEnd?, if_neg hquote, if_neg (h.2.1 rfl),
      if_pos (by simp [isPlain, h.1, hquote])]
  | escape letter => exact basicEnd?_backslash (a := [letter]) (escape?_letter h.2 t)
  | codePoint digits => exact basicEnd?_backslash (a := _ :: digits) (escape?_digits h.2.1 h.2.2 t)
  | lineBreak withReturn => cases h
  | joined withReturn => cases h.2

theorem basicEnd?_parts (h : ∀ p ∈ parts, p.Fits '"' false) (r : List Char) :
    basicEnd? 0 (parts.flatMap StringPart.source ++ '"' :: r) = some r := by
  induction parts with
  | nil => rfl
  | cons p parts ih =>
    rw [List.flatMap_cons, List.append_assoc, basicEnd?_part (h p (List.mem_cons_self ..)),
      ih fun q hq => h q (List.mem_cons_of_mem _ hq)]

theorem literalEnd?_parts (h : ∀ p ∈ parts, p.Fits '\'' false) (r : List Char) :
    literalEnd? (parts.flatMap StringPart.source ++ '\'' :: r) = some r := by
  induction parts with
  | nil => rfl
  | cons p parts ih =>
    have hp := h p (List.mem_cons_self ..)
    have ih := ih fun q hq => h q (List.mem_cons_of_mem _ hq)
    rw [List.flatMap_cons, List.append_assoc]
    cases p with
    | plain c =>
      have hquote := hp.2.2 rfl
      rw [StringPart.source, List.singleton_append, literalEnd?, if_neg hquote,
        if_pos (by simp [isPlain, hp.1, hquote]), ih]
    | escape letter => exact absurd hp.1 (by decide)
    | codePoint digits => exact absurd hp.1 (by decide)
    | lineBreak withReturn => cases hp
    | joined withReturn => exact absurd hp.1 (by decide)

theorem forall_fits_cons {p : StringPart} (hp : p.Fits quote isLong)
    (hparts : ∀ p ∈ parts, p.Fits quote isLong) : ∀ q ∈ p :: parts, q.Fits quote isLong :=
  List.forall_mem_cons.2 ⟨hp, hparts⟩

theorem flatMap_source_cons (p : StringPart) (parts : List StringPart) (t : List Char) :
    (p :: parts).flatMap StringPart.source ++ t
      = p.source ++ (parts.flatMap StringPart.source ++ t) := by
  rw [List.flatMap_cons, List.append_assoc]

theorem exists_first_of_fits {p : StringPart} (h : p.Fits quote false) :
    ∃ c t, p.source = c :: t ∧ c ≠ quote := by
  cases p with
  | plain c => exact ⟨c, [], rfl, h.2.2 rfl⟩
  | escape letter => exact ⟨'\\', _, rfl, h.1 ▸ by decide⟩
  | codePoint digits => exact ⟨'\\', _, rfl, h.1 ▸ by decide⟩
  | lineBreak withReturn => cases h
  | joined withReturn => cases h.2

theorem exists_parts_of_basicEnd? {skip : Nat} (h : basicEnd? skip s = some r) :
    ∃ parts : List StringPart, (∀ p ∈ parts, p.Fits '"' false) ∧
      s.drop skip = parts.flatMap StringPart.source ++ '"' :: r := by
  fun_induction basicEnd? skip s with
  | case1 => cases h
  | case2 skip c s ih => exact ih h
  | case3 s =>
    cases h
    exact ⟨[], List.forall_mem_nil _, rfl⟩
  | case4 s rest hescape _ ih =>
    obtain ⟨parts, hparts, hrest⟩ := ih h
    obtain ⟨p, hp, -, hs⟩ := exists_of_escape? hescape
    refine ⟨p :: parts, forall_fits_cons (hp false) hparts, ?_⟩
    rw [flatMap_source_cons, ← hrest, drop_of_escape? hescape]
    exact hs
  | case5 => cases h
  | case6 c s hquote hback hplain ih =>
    obtain ⟨parts, hparts, hs⟩ := ih h
    refine ⟨.plain c :: parts, forall_fits_cons ⟨?_, fun _ => hback, fun _ => hquote⟩ hparts, ?_⟩
    · simpa [isPlain, hquote] using hplain
    · rw [flatMap_source_cons, ← hs]
      rfl
  | case7 => cases h

theorem exists_parts_of_literalEnd? (h : literalEnd? s = some r) :
    ∃ parts : List StringPart, (∀ p ∈ parts, p.Fits '\'' false) ∧
      s = parts.flatMap StringPart.source ++ '\'' :: r := by
  fun_induction literalEnd? s with
  | case1 => cases h
  | case2 s =>
    cases h
    exact ⟨[], List.forall_mem_nil _, rfl⟩
  | case3 c s hquote hplain ih =>
    obtain ⟨parts, hparts, hs⟩ := ih h
    refine ⟨.plain c :: parts, forall_fits_cons ⟨?_, by simp, fun _ => hquote⟩ hparts, ?_⟩
    · simpa [isPlain, hquote] using hplain
    · rw [flatMap_source_cons, ← hs]
      rfl
  | case4 => cases h

/-! ## Strings over several lines -/

theorem EndsInQuotes.append_cons {p : StringPart} (h : EndsInQuotes quote parts)
    (hp : p ≠ .plain quote) {run : Nat} (hrun : run < 3) :
    EndsInQuotes quote (List.replicate run (.plain quote) ++ p :: parts) := by
  unfold EndsInQuotes at h ⊢
  interval_cases run <;> simpa [threeQuotes, hp] using h

theorem EndsInQuotes.of_suffix {rest : List StringPart} (h : EndsInQuotes quote parts)
    (hrest : rest <:+ parts) : EndsInQuotes quote rest :=
  fun t ht => h t ((List.mem_tails _ _).2 (((List.mem_tails _ _).1 ht).trans hrest))

/-- Behind three quotes there is no other part. -/
theorem EndsInQuotes.lt_three {run : Nat} {p : StringPart}
    (h : EndsInQuotes quote (List.replicate run (.plain quote) ++ p :: parts))
    (hp : p ≠ .plain quote) : run < 3 := by
  by_contra hrun
  obtain ⟨k, rfl⟩ : ∃ k, run = 3 + k := ⟨run - 3, by omega⟩
  have hall := h _ ((List.mem_tails _ _).2 List.suffix_rfl)
  rw [List.replicate_add, List.append_assoc] at hall
  exact hp (hall rfl p (by simp))

/-- What is left of a string over several lines, `run` quotes of which have been read: parts, and
three quotes behind which no further one comes. -/
def LeavesLong (quote : Char) (run : Nat) (t r : List Char) : Prop :=
  r.head? ≠ some quote ∧ ∃ parts : List StringPart, (∀ p ∈ parts, p.Fits quote true) ∧
    EndsInQuotes quote parts ∧ List.replicate run quote ++ t
      = parts.flatMap StringPart.source ++ (List.replicate 3 quote ++ r)

section Long

variable {escapes : Bool}
  (hquote : quote = '"' ∧ escapes = true ∨ quote = '\'' ∧ escapes = false)

theorem flatMap_source_quotes (quote : Char) (n : Nat) :
    (List.replicate n (StringPart.plain quote)).flatMap StringPart.source
      = List.replicate n quote := by
  induction n with
  | zero => rfl
  | succ n ih =>
    rw [List.replicate_succ, List.flatMap_cons, ih]
    rfl

include hquote in
theorem escapes_iff : escapes = true ↔ quote = '"' := by
  rcases hquote with ⟨rfl, rfl⟩ | ⟨rfl, rfl⟩ <;> decide

include hquote in
theorem fits_quote : (StringPart.plain quote).Fits quote true := by
  rcases hquote with ⟨rfl, -⟩ | ⟨rfl, -⟩ <;> exact ⟨by decide, by decide, nofun⟩

include hquote in
theorem leavesLong_of_three {run : Nat} (hrun : 3 ≤ run) (hr : r.head? ≠ some quote) :
    LeavesLong quote run r r := by
  obtain ⟨k, rfl⟩ : ∃ k, run = k + 3 := ⟨run - 3, by omega⟩
  refine ⟨hr, List.replicate k (.plain quote), fun p hp => ?_, fun t ht _ p hp => ?_, ?_⟩
  · rw [List.eq_of_mem_replicate hp]
    exact fits_quote hquote
  · exact List.eq_of_mem_replicate (((List.mem_tails _ _).1 ht).mem hp)
  · rw [flatMap_source_quotes, List.replicate_add, List.append_assoc]

theorem LeavesLong.cons_quote {run : Nat} (h : LeavesLong quote (run + 1) t r) :
    LeavesLong quote run (quote :: t) r := by
  obtain ⟨hr, parts, hfits, hends, heq⟩ := h
  exact ⟨hr, parts, hfits, hends, by rw [← heq, List.replicate_succ', List.append_assoc]; rfl⟩

include hquote in
theorem LeavesLong.part {p : StringPart} (hp : p.Fits quote true) (hne : p ≠ .plain quote) {run : Nat}
    (hrun : ¬ 3 ≤ run) (h : LeavesLong quote 0 t r) : LeavesLong quote run (p.source ++ t) r := by
  obtain ⟨hr, parts, hfits, hends, heq⟩ := h
  refine ⟨hr, List.replicate run (.plain quote) ++ p :: parts, fun q hq => ?_,
    hends.append_cons hne (Nat.lt_of_not_le hrun), ?_⟩
  · rcases List.mem_append.1 hq with hq | hq
    · rw [List.eq_of_mem_replicate hq]
      exact fits_quote hquote
    · exact forall_fits_cons hp hfits q hq
  · rw [List.flatMap_append, flatMap_source_quotes, List.append_assoc, flatMap_source_cons, ← heq]
    rfl

include hquote in
/-- A string over several lines is its parts and closing quotes. -/
theorem leavesLong_of_longEnd? {run skip : Nat} (h : longEnd? quote escapes run skip s = some r) :
    LeavesLong quote run (s.drop skip) r := by
  fun_induction longEnd? quote escapes run skip s with
  | case1 run skip hrun =>
    cases h
    rw [List.drop_nil]
    exact leavesLong_of_three hquote hrun (by simp)
  | case2 => cases h
  | case3 run skip c s ih => exact ih h
  | case4 run s ih => exact (ih h).cons_quote
  | case5 run c s hc hrun =>
    cases h
    exact leavesLong_of_three hquote hrun (by simpa using hc)
  | case6 run c _ hrun hback s ih =>
    rw [hback.1]
    have hdouble := (escapes_iff hquote).1 hback.2
    exact LeavesLong.part hquote (p := .joined false) ⟨hdouble, rfl⟩ (by simp) hrun (ih h)
  | case7 run c _ hrun hback s ih =>
    rw [hback.1]
    have hdouble := (escapes_iff hquote).1 hback.2
    exact LeavesLong.part hquote (p := .joined true) ⟨hdouble, rfl⟩ (by simp) hrun (ih h)
  | case8 run c s _ hrun hback rest hescape _ _ ih =>
    rw [hescape] at h
    have hrest := ih h
    obtain ⟨p, hp, hne, hs⟩ := exists_of_escape? hescape
    rw [drop_of_escape? hescape] at hrest
    rw [hback.1, List.drop_zero, hs]
    obtain rfl := (escapes_iff hquote).1 hback.2
    exact LeavesLong.part hquote (hp true) (hne _) hrun hrest
  | case9 run c s _ _ _ hescape =>
    rw [hescape] at h
    cases h
  | case10 run s hrun _ _ ih =>
    exact LeavesLong.part hquote (p := .lineBreak false) rfl (by simp) hrun (ih h)
  | case11 run hrun s _ _ _ ih =>
    exact LeavesLong.part hquote (p := .lineBreak true) rfl (by simp) hrun (ih h)
  | case12 => cases h
  | case13 run c s hc hrun hback _ _ hplain ih =>
    refine LeavesLong.part hquote (p := .plain c) ⟨?_, ?_, by simp⟩ (by simpa using hc) hrun (ih h)
    · simpa [isPlain, hc] using hplain
    · exact fun hdouble hslash => hback ⟨hslash, (escapes_iff hquote).2 hdouble⟩
  | case14 => cases h

theorem longEnd?_skip (run : Nat) (t : List Char) : ∀ a : List Char,
    longEnd? quote escapes run a.length (a ++ t) = longEnd? quote escapes run 0 t
  | [] => rfl
  | c :: a => by
    rw [List.length_cons, List.cons_append, longEnd?, longEnd?_skip run t a]

theorem longEnd?_escape {a : List Char} (h : escape? (a ++ t) = some t) {run : Nat} (hrun : run < 3) :
    longEnd? '"' true run 0 ('\\' :: (a ++ t)) = longEnd? '"' true 0 0 t := by
  have hlength : (a ++ t).length - t.length = a.length := by simp
  rw [longEnd?, if_neg (by decide), if_neg (Nat.not_le_of_lt hrun), if_pos ⟨rfl, rfl⟩, h]
  · dsimp only
    rw [hlength, longEnd?_skip]
  · intro u hu
    rw [hu] at h
    simp [escape?] at h
  · intro u hu
    rw [hu] at h
    simp [escape?] at h

include hquote

theorem longEnd?_part {p : StringPart} (h : p.Fits quote true) (hp : p ≠ .plain quote) {run : Nat}
    (hrun : run < 3) (t : List Char) :
    longEnd? quote escapes run 0 (p.source ++ t) = longEnd? quote escapes 0 0 t := by
  have hnot := Nat.not_le_of_lt hrun
  have hfeed : '\n' ≠ quote := by
    rcases hquote with ⟨rfl, -⟩ | ⟨rfl, -⟩ <;> decide
  have hreturn : '\r' ≠ quote := by
    rcases hquote with ⟨rfl, -⟩ | ⟨rfl, -⟩ <;> decide
  cases p with
  | plain c =>
    have hc : c ≠ quote := fun hc => hp (hc ▸ rfl)
    have hback : ¬ (c = '\\' ∧ escapes = true) := fun hback =>
      h.2.1 ((escapes_iff hquote).1 hback.2) hback.1
    have hbreak : c ≠ '\n' ∧ c ≠ '\r' := by
      constructor <;> rintro rfl <;> exact absurd h.1 (by decide)
    rw [StringPart.source, List.singleton_append]
    conv_lhs => unfold longEnd?
    rw [if_neg hc, if_neg hnot, if_neg hback, if_neg hbreak.1, if_neg hbreak.2,
      if_pos (by simp [isPlain, h.1, hc])]
  | escape letter =>
    obtain ⟨rfl, hletter⟩ := h
    obtain rfl := (escapes_iff hquote).2 rfl
    exact longEnd?_escape (a := [letter]) (escape?_letter hletter t) hrun
  | codePoint digits =>
    obtain ⟨rfl, hlength, hdigits⟩ := h
    obtain rfl := (escapes_iff hquote).2 rfl
    exact longEnd?_escape (a := _ :: digits) (escape?_digits hlength hdigits t) hrun
  | lineBreak withReturn =>
    cases withReturn with
    | false =>
      rw [StringPart.source, breakText]
      simp [longEnd?, hfeed, hnot]
    | true =>
      rw [StringPart.source, breakText]
      simp [longEnd?, hreturn, hnot]
  | joined withReturn =>
    obtain ⟨rfl, -⟩ := h
    obtain rfl := (escapes_iff hquote).2 rfl
    cases withReturn with
    | false =>
      rw [StringPart.source, breakText]
      simp [longEnd?, hnot]
    | true =>
      rw [StringPart.source, breakText]
      simp [longEnd?, hnot]

omit hquote in
theorem longEnd?_quote (run : Nat) (t : List Char) :
    longEnd? quote escapes run 0 (quote :: t) = longEnd? quote escapes (run + 1) 0 t := by
  conv_lhs => unfold longEnd?
  rw [if_pos rfl]

omit hquote in
theorem longEnd?_of_three {run : Nat} (hrun : 3 ≤ run) (hr : r.head? ≠ some quote) :
    longEnd? quote escapes run 0 r = some r := by
  cases r with
  | nil => rw [longEnd?, if_pos hrun]
  | cons c r =>
    conv_lhs => unfold longEnd?
    rw [if_neg (by simpa using hr), if_pos hrun]

/-- Parts are read to their closing quotes. -/
theorem longEnd?_parts (hr : r.head? ≠ some quote) {run : Nat}
    (hfits : ∀ p ∈ parts, p.Fits quote true)
    (hends : EndsInQuotes quote (List.replicate run (.plain quote) ++ parts)) :
    longEnd? quote escapes run 0
      (parts.flatMap StringPart.source ++ (List.replicate 3 quote ++ r)) = some r := by
  induction parts generalizing run with
  | nil =>
    simp only [List.flatMap_nil, List.replicate, List.cons_append, List.nil_append, longEnd?_quote]
    exact longEnd?_of_three (by omega) hr
  | cons p parts ih =>
    have hrest := fun q hq => hfits q (List.mem_cons_of_mem p hq)
    rw [flatMap_source_cons]
    by_cases hp : p = .plain quote
    · have hends' : EndsInQuotes quote (List.replicate (run + 1) (.plain quote) ++ parts) := by
        rw [List.replicate_succ', List.append_assoc]
        exact hp ▸ hends
      rw [hp, StringPart.source, List.singleton_append, longEnd?_quote, ih hrest hends']
    · have hends' : EndsInQuotes quote (List.replicate 0 (.plain quote) ++ parts) :=
        hends.of_suffix (List.suffix_append_of_suffix (List.suffix_cons p parts))
      rw [longEnd?_part hquote (hfits p (List.mem_cons_self ..)) hp (hends.lt_three hp),
        ih hrest hends']

end Long

end ConnectorCatalog.Toml
