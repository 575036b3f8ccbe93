import ConnectorCatalog.Json.Printer
import ConnectorCatalog.Proofs.Toml.Suffix
import Mathlib.Data.List.Basic

/-!
# Values written and read

Strings, decimal integers and truth values that are written with a line break behind them are read as
themselves (`readValue?_written`).
-/

namespace ConnectorCatalog.Toml

/-! ## Strings -/

/-- A character between double quotes. -/
def escapeChar (c : Char) : List Char :=
  if c = '\\' then ['\\', '\\'] else if c = '"' then ['\\', '"']
  else if c = '\n' then ['\\', 'n'] else if c = '\r' then ['\\', 'r']
  else if c = '\t' then ['\\', 't'] else [c]

/-- A text between double quotes. -/
def escaped (s : List Char) : List Char := s.flatMap escapeChar

/-- Characters of strings: no control characters but those that are escaped. -/
def isStringChar (c : Char) : Bool := !isControl c || c == '\n' || c == '\r'

theorem escapeChar_cases (c : Char) :
    (∃ d ∈ ['n', 't', 'r', '"', '\\'], escapeChar c = ['\\', d] ∧
      ∀ r, unescape ('\\' :: d :: r) = c :: unescape r) ∨
    c ≠ '\\' ∧ c ≠ '"' ∧ c ≠ '\n' ∧ c ≠ '\r' ∧ escapeChar c = [c] := by
  by_cases h₁ : c = '\\'
  · exact .inl ⟨'\\', by simp, by simp [escapeChar, h₁], fun r => by rw [h₁, unescape]⟩
  by_cases h₂ : c = '"'
  · exact .inl ⟨'"', by simp, by simp [escapeChar, h₂], fun r => by rw [h₂, unescape]⟩
  by_cases h₃ : c = '\n'
  · exact .inl ⟨'n', by simp, by simp [escapeChar, h₃], fun r => by rw [h₃, unescape]⟩
  by_cases h₄ : c = '\r'
  · exact .inl ⟨'r', by simp, by simp [escapeChar, h₄], fun r => by rw [h₄, unescape]⟩
  by_cases h₅ : c = '\t'
  · exact .inl ⟨'t', by simp, by simp [escapeChar, h₅], fun r => by rw [h₅, unescape]⟩
  · exact .inr ⟨h₁, h₂, h₃, h₄, by simp [escapeChar, h₁, h₂, h₃, h₄, h₅]⟩

theorem unescape_cons {c : Char} (h : c ≠ '\\') (r : List Char) :
    unescape (c :: r) = c :: unescape r := by
  conv_lhs => unfold unescape
  split <;> simp_all

theorem unescape_escaped : ∀ s : List Char, unescape (escaped s) = s
  | [] => rfl
  | c :: s => by
    have ih := unescape_escaped s
    unfold escaped at ih ⊢
    rw [List.flatMap_cons]
    rcases escapeChar_cases c with ⟨d, -, hc, hd⟩ | ⟨hc, -, -, -, hself⟩
    · rw [hc, List.cons_append, List.singleton_append, hd, ih]
    · rw [hself, List.singleton_append, unescape_cons hc, ih]

theorem basicEnd?_escape {c : Char} (hc : c ∈ ['n', 't', 'r', '"', '\\']) (r : List Char) :
    basicEnd? 0 ('\\' :: c :: r) = basicEnd? 0 r := by
  have hescape : escape? (c :: r) = some r := by
    simp only [List.mem_cons, List.not_mem_nil, or_false] at hc
    rcases hc with rfl | rfl | rfl | rfl | rfl <;> rfl
  simp [basicEnd?, hescape]

theorem basicEnd?_escaped (r : List Char) : ∀ {s : List Char}, (∀ c ∈ s, isStringChar c = true) →
    basicEnd? 0 (escaped s ++ '"' :: r) = some r
  | [], _ => by simp [escaped, basicEnd?]
  | c :: s, h => by
    have ih := basicEnd?_escaped r fun c hc => h c (List.mem_cons_of_mem _ hc)
    have hplain := h c (List.mem_cons_self ..)
    unfold escaped at ih ⊢
    rw [List.flatMap_cons]
    rcases escapeChar_cases c with ⟨d, hd, hc, -⟩ | ⟨hc, hquote, hbreak, hreturn, hself⟩
    · rw [hc, List.cons_append, List.singleton_append, List.cons_append, List.cons_append,
        basicEnd?_escape hd, ih]
    · simp only [isStringChar, beq_iff_eq, hbreak, hreturn, Bool.or_eq_true, or_false] at hplain
      rw [hself, List.singleton_append, List.cons_append, basicEnd?, if_neg hquote, if_neg hc,
        if_pos (by simp [isPlain, hplain, hquote]), ih]

/-- A string is not taken for one over several lines. -/
theorem escaped_append_ne (s : List Char) {r : List Char} (hr : r.head? ≠ some '"') (t : List Char) :
    escaped s ++ '"' :: r ≠ '"' :: '"' :: t := by
  cases s with
  | nil =>
    intro h
    simp only [escaped, List.flatMap_nil, List.nil_append, List.cons.injEq, true_and] at h
    exact hr (by rw [h]; rfl)
  | cons c s =>
    unfold escaped
    rw [List.flatMap_cons]
    rcases escapeChar_cases c with ⟨d, -, hc, -⟩ | ⟨-, hquote, -, -, hself⟩
    · simp [hc]
    · simp [hself, hquote]

theorem readScalar?_string {s : List Char} (h : ∀ c ∈ s, isStringChar c = true) {r : List Char}
    (hr : r.head? ≠ some '"') :
    readScalar? ('"' :: (escaped s ++ '"' :: r)) = some (.string (String.ofList s), r) := by
  have hbefore : before (escaped s ++ '"' :: r) r = escaped s ++ ['"'] := by
    rw [← List.singleton_append, ← List.append_assoc, before_append]
  unfold readScalar?
  split
  · rename_i t heq
    exact absurd (List.cons.inj heq).2 (escaped_append_ne s hr t)
  · rename_i heq
    simp at heq
  · rename_i heq
    rw [← (List.cons.inj heq).2, basicEnd?_escaped r h, Option.map_some, hbefore,
      List.dropLast_concat, unescape_escaped]
  · rename_i heq
    simp at heq
  · rename_i hquote _
    exact (hquote _ rfl).elim

/-! ## Integers -/

theorem isDecimal_digits {n : Nat} : ∀ c ∈ Json.decimalDigits n, isDecimal c = true :=
  fun _ hc => Nat.isDigit_of_mem_toDigits (by decide) (by decide) hc

theorem ne_of_isDecimal {c d : Char} (hc : isDecimal c = true) (hd : isDecimal d = false) : c ≠ d := by
  rintro rfl
  rw [hc] at hd
  cases hd

theorem head?_toDigits_ne {n : Nat} (hn : n ≠ 0) : (Nat.toDigits 10 n).head? ≠ some '0' := by
  induction n using Nat.strongRecOn with
  | ind n ih =>
    rw [Nat.toDigits_eq_if (by decide)]
    split_ifs with hlt
    · intro h
      have hdigit := Nat.toNat_digitChar_sub_48_of_lt_ten hlt
      rw [Option.some_inj.1 h] at hdigit
      exact hn hdigit.symm
    · have hrest := ih (n / 10) (by omega) (by omega)
      obtain ⟨d, ds, hds⟩ :=
        List.exists_cons_of_ne_nil (Nat.toDigits_ne_nil : Nat.toDigits 10 (n / 10) ≠ [])
      simpa [hds] using hrest

/-- A number is written without leading zeros. -/
theorem digits_of_zero_first {n : Nat} {r : List Char} (h : Json.decimalDigits n = '0' :: r) :
    r = [] := by
  unfold Json.decimalDigits at h
  by_cases hn : n = 0
  · rw [hn] at h
    exact (List.cons.inj h).2.symm
  · exact absurd (by rw [h]; rfl) (head?_toDigits_ne hn)

theorem digitsEnd_append (r : List Char) : ∀ {ds : List Char}, (∀ c ∈ ds, isDecimal c = true) →
    digitsEnd isDecimal (ds ++ '\n' :: r) = '\n' :: r
  | [], _ => rfl
  | d :: ds, h => by
    have hd := h d (List.mem_cons_self ..)
    rw [List.cons_append, digitsEnd]
    · rw [if_pos hd, digitsEnd_append r fun c hc => h c (List.mem_cons_of_mem _ hc)]
    · rintro _ _ rfl
      exact absurd hd (by decide)

section Numeral

variable {sign : List Char} {d : Char} {ds : List Char} (r : List Char)
  (hsign : sign = [] ∨ sign = ['-'])

include hsign in
theorem skipSign_append (hd : isDecimal d = true) (t : List Char) :
    skipSign (sign ++ d :: t) = d :: t := by
  rcases hsign with rfl | rfl
  · rw [List.nil_append, skipSign]
    · exact fun _ h => ne_of_isDecimal hd rfl (List.cons.inj h).1
    · exact fun _ h => ne_of_isDecimal hd rfl (List.cons.inj h).1
  · rfl

variable (hdigits : ∀ c ∈ d :: ds, isDecimal c = true) (hzero : d = '0' → ds = [])

include hsign hdigits hzero

theorem decimalEnd?_numeral :
    decimalEnd? (sign ++ d :: (ds ++ '\n' :: r)) = some ('\n' :: r) := by
  unfold decimalEnd?
  rw [skipSign_append hsign (hdigits d (List.mem_cons_self ..))]
  split
  · rename_i heq
    obtain ⟨rfl, hrest⟩ := List.cons.inj heq
    rw [← hrest, hzero rfl, List.nil_append]
  · rw [digitsEnd?, if_pos (hdigits d (List.mem_cons_self ..)),
      digitsEnd_append r fun c hc => hdigits c (List.mem_cons_of_mem _ hc)]

theorem floatEnd?_numeral : floatEnd? (sign ++ d :: (ds ++ '\n' :: r)) = none := by
  have hd := hdigits d (List.mem_cons_self ..)
  unfold floatEnd?
  rw [skipSign_append hsign hd]
  split
  · exact (ne_of_isDecimal hd rfl (List.cons.inj ‹_›).1).elim
  · exact (ne_of_isDecimal hd rfl (List.cons.inj ‹_›).1).elim
  · rw [decimalEnd?_numeral r hsign hdigits hzero]
    rfl

omit hdigits in
theorem radixEnd?_numeral : radixEnd? (sign ++ d :: (ds ++ '\n' :: r)) = none := by
  rcases hsign with rfl | rfl
  · by_cases hd : d = '0'
    · rw [hd, hzero hd]
      rfl
    · unfold radixEnd?
      split <;> simp_all
  · rfl

omit hzero

theorem dateTimeEnd?_numeral : dateTimeEnd? (sign ++ d :: (ds ++ '\n' :: r)) = none := by
  rw [dateTimeEnd?, Option.map_eq_none_iff]
  rcases hsign with rfl | rfl
  · have hdrop : ((d :: ds) ++ '\n' :: r).dropWhile isDecimal = '\n' :: r := by
      rw [List.dropWhile_append_of_pos hdigits]
      rfl
    have htake : ((d :: ds) ++ '\n' :: r).takeWhile isDecimal ≠ [] := by
      rw [List.takeWhile_append_of_pos hdigits]
      simp
    simp only [List.nil_append, List.cons_append] at hdrop htake ⊢
    rw [dateEnd?, hdrop]
    simp [htake, charEnd?]
  · rfl

theorem timeEnd?_numeral : timeEnd? (sign ++ d :: (ds ++ '\n' :: r)) = none := by
  rcases hsign with rfl | rfl
  · rcases ds with _ | ⟨d', _ | ⟨d'', ds⟩⟩
    · simp [timeEnd?, twoDigitsEnd?, show isDecimal '\n' = false from rfl]
    · simp only [timeEnd?, twoDigitsEnd?, List.nil_append, List.cons_append]
      split_ifs <;> rfl
    · have hd : d'' ≠ ':' := ne_of_isDecimal (hdigits d'' (by simp)) rfl
      simp only [timeEnd?, twoDigitsEnd?, List.nil_append, List.cons_append]
      split_ifs <;> simp [charEnd?, hd]
  · simp [timeEnd?, twoDigitsEnd?, show isDecimal '-' = false from rfl]

theorem booleanEnd?_numeral : booleanEnd? (sign ++ d :: (ds ++ '\n' :: r)) = none := by
  rcases hsign with rfl | rfl
  · have htrue : d ≠ 't' := ne_of_isDecimal (hdigits d (by simp)) rfl
    have hfalse : d ≠ 'f' := ne_of_isDecimal (hdigits d (by simp)) rfl
    simp [booleanEnd?, List.isPrefixOf?, htrue.symm, hfalse.symm]
  · rfl

omit hdigits

include hzero hdigits in
/-- A numeral is read as an integer and as nothing else. -/
theorem scalarEnd?_numeral :
    scalarEnd? (sign ++ d :: (ds ++ '\n' :: r)) = some (.integer, '\n' :: r) := by
  have hreadings : scalarReadings (sign ++ d :: (ds ++ '\n' :: r)) = [(.integer, '\n' :: r)] := by
    simp [scalarReadings, decimalEnd?_numeral r hsign hdigits hzero,
      radixEnd?_numeral r hsign hzero, booleanEnd?_numeral r hsign hdigits,
      floatEnd?_numeral r hsign hdigits hzero, dateTimeEnd?_numeral r hsign hdigits,
      timeEnd?_numeral r hsign hdigits]
  rw [scalarEnd?, hreadings]
  rfl

end Numeral

theorem foldl_decimalDigits (n : Nat) :
    (Json.decimalDigits n).foldl (fun n d => 10 * n + (d.toNat - 48)) 0 = n := by
  rw [Json.decimalDigits]
  exact Nat.ofDigitChars_eq_foldl.symm.trans (Nat.ofDigitChars_toDigits (by decide) (by decide))

/-- An integer is written as a sign and digits. -/
theorem writeInt_eq (n : Int) : ∃ sign d ds, (sign = [] ∧ 0 ≤ n ∨ sign = ['-'] ∧ n < 0) ∧
    Json.decimalDigits n.natAbs = d :: ds ∧ Json.writeInt n = sign ++ d :: ds := by
  obtain ⟨d, ds, hds⟩ : ∃ d ds, Json.decimalDigits n.natAbs = d :: ds :=
    List.exists_cons_of_ne_nil Nat.toDigits_ne_nil
  by_cases hn : n < 0
  · exact ⟨['-'], d, ds, .inr ⟨rfl, hn⟩, hds, by rw [Json.writeInt, if_pos hn, hds]; rfl⟩
  · exact ⟨[], d, ds, .inl ⟨rfl, Int.not_lt.1 hn⟩, hds, by rw [Json.writeInt, if_neg hn, hds]; rfl⟩

theorem integerValue_writeInt {n : Int} (h : IntegerRange.signed64.has n = true) :
    integerValue (Json.writeInt n) = .integer n := by
  obtain ⟨sign, d, ds, hsign, hds, hwrite⟩ := writeInt_eq n
  have hdigits : ∀ c ∈ d :: ds, isDecimal c = true := hds ▸ isDecimal_digits
  have hd := hdigits d (List.mem_cons_self ..)
  have hfilter : (sign ++ d :: ds).filter (· != '_') = sign ++ d :: ds := by
    refine List.filter_eq_self.2 fun c hc => ?_
    rcases List.mem_append.1 hc with hc | hc
    · rcases hsign with ⟨rfl, -⟩ | ⟨rfl, -⟩
      · cases hc
      · rw [List.mem_singleton.1 hc]
        rfl
    · simpa using ne_of_isDecimal (hdigits c hc) rfl
  have hskip := skipSign_append (hsign.imp And.left And.left) hd ds
  have hvalue := foldl_decimalDigits n.natAbs
  have hall : (d :: ds).all isDecimal = true := List.all_eq_true.2 hdigits
  rw [hds] at hvalue
  simp only [integerValue, hwrite, hfilter, hskip, hvalue, hall, true_and]
  rcases hsign with ⟨rfl, hn⟩ | ⟨rfl, hn⟩
  · have hhead : ([] ++ d :: ds).head? ≠ some '-' := by
      simpa using ne_of_isDecimal hd rfl
    rw [if_neg hhead, Int.natAbs_of_nonneg hn, if_pos h]
  · have hhead : (['-'] ++ d :: ds).head? = some '-' := rfl
    have hneg : -(n.natAbs : Int) = n := by omega
    rw [if_pos hhead, hneg, if_pos h]

/-! ## Values -/

namespace Value

/-- A value as it is written on one line. -/
def written : Value → List Char
  | string text => '"' :: (escaped text.toList ++ ['"'])
  | integer n => Json.writeInt n
  | boolean b => if b then "true".toList else "false".toList
  | other source => source.toList

/-- A string without control characters that are not escaped, an integer of 64 bits or a truth
value. -/
def Writable : Value → Prop
  | string text => ∀ c ∈ text.toList, isStringChar c = true
  | integer n => IntegerRange.signed64.has n = true
  | boolean _ => True
  | other _ => False

instance : DecidablePred Writable
  | string text => List.decidableBAll (fun c => isStringChar c = true) text.toList
  | integer n => inferInstanceAs (Decidable (IntegerRange.signed64.has n = true))
  | boolean _ => inferInstanceAs (Decidable True)
  | other _ => inferInstanceAs (Decidable False)

end Value

/-- A value begins neither with a blank or a comment nor as an array or a table does. -/
theorem Value.exists_first {v : Value} (h : v.Writable) :
    ∃ c t, c ∉ [' ', '\t', '#', '[', '\x7b'] ∧ v.written = c :: t := by
  cases v with
  | string text => exact ⟨'"', _, by decide, rfl⟩
  | integer n =>
    obtain ⟨sign, d, ds, hsign, hds, hwrite⟩ := writeInt_eq n
    have hd : isDecimal d = true := isDecimal_digits d (hds ▸ List.mem_cons_self ..)
    rcases hsign with ⟨rfl, -⟩ | ⟨rfl, -⟩
    · refine ⟨d, ds, fun hmem => ?_, hwrite⟩
      simp only [List.mem_cons, List.not_mem_nil, or_false] at hmem
      rcases hmem with rfl | rfl | rfl | rfl | rfl <;> exact absurd hd (by decide)
    · exact ⟨'-', d :: ds, by decide, hwrite⟩
  | boolean b =>
    cases b with
    | true => exact ⟨'t', _, by decide, rfl⟩
    | false => exact ⟨'f', _, by decide, rfl⟩
  | other source => exact h.elim

theorem readScalar?_of_scalarEnd? {kind : ScalarKind} {c : Char} {t r : List Char}
    (hdouble : c ≠ '"') (hsingle : c ≠ '\'') (h : scalarEnd? (c :: t ++ r) = some (kind, r)) :
    readScalar? (c :: t ++ r) = some (scalarValue kind (c :: t), r) := by
  have hbefore := before_append (c :: t) r
  unfold readScalar?
  split <;> simp_all

theorem readScalar?_integer {n : Int} (h : IntegerRange.signed64.has n = true) (r : List Char) :
    readScalar? (Json.writeInt n ++ '\n' :: r) = some (.integer n, '\n' :: r) := by
  have hvalue := integerValue_writeInt h
  obtain ⟨sign, d, ds, hsign, hds, hwrite⟩ := writeInt_eq n
  have hdigits : ∀ c ∈ d :: ds, isDecimal c = true := hds ▸ isDecimal_digits
  have hd := hdigits d (List.mem_cons_self ..)
  have hzero : d = '0' → ds = [] := by
    rintro rfl
    exact digits_of_zero_first hds
  have hend := scalarEnd?_numeral r (hsign.imp And.left And.left) hdigits hzero
  rw [hwrite] at hvalue ⊢
  rw [← hvalue]
  rcases hsign with ⟨rfl, -⟩ | ⟨rfl, -⟩
  · exact readScalar?_of_scalarEnd? (ne_of_isDecimal hd rfl) (ne_of_isDecimal hd rfl) hend
  · exact readScalar?_of_scalarEnd? (c := '-') (t := d :: ds) (by decide) (by decide) hend

theorem readScalar?_boolean (b : Bool) (r : List Char) :
    readScalar? ((Value.boolean b).written ++ '\n' :: r) = some (.boolean b, '\n' :: r) := by
  cases b with
  | true =>
    exact readScalar?_of_scalarEnd? (c := 't') (t := ['r', 'u', 'e']) (r := '\n' :: r) (by decide)
      (by decide) rfl
  | false =>
    exact readScalar?_of_scalarEnd? (c := 'f') (t := ['a', 'l', 's', 'e']) (r := '\n' :: r) (by decide)
      (by decide) rfl

/-- A value is read as it was written. -/
theorem readValue?_written {v : Value} (h : v.Writable) (r : List Char) :
    readValue? (v.written ++ '\n' :: r) = some (v, '\n' :: r) := by
  have hscalar : readScalar? (v.written ++ '\n' :: r) = some (v, '\n' :: r) := by
    cases v with
    | string text =>
      have htext := readScalar?_string h (r := '\n' :: r) (by simp)
      rw [String.ofList_toList] at htext
      simpa [Value.written] using htext
    | integer n => exact readScalar?_integer h r
    | boolean b => exact readScalar?_boolean b r
    | other source => exact h.elim
  obtain ⟨c, t, hc, hwritten⟩ := Value.exists_first h
  simp only [List.mem_cons, List.not_mem_nil, or_false, not_or] at hc
  rw [readValue?, if_neg, hscalar]
  simp [hwritten, hc]

end ConnectorCatalog.Toml
