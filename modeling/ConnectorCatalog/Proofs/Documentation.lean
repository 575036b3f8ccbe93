import ConnectorCatalog.Documentation
import ConnectorCatalog.Proofs.Trim
import Mathlib.Data.List.Basic

/-!
# Documentation is read back as it was written

Lines for a description, for parameters and for the returned value may be written in any order
(`WrittenLine`). A name has no blanks, so the first ` - ` of an entry stands behind its name, however
many there are in its text (`cutAround_entry`). Each line is read as what it was written for
(`ofChars_text`), and the documentation has all of them (`ofLines_written`).
-/

namespace ConnectorCatalog

/-- A phrase is found behind a text that nowhere has its first character. -/
theorem cutAround_append {α : Type _} [BEq α] [LawfulBEq α] {p : α} (phrase : List α) {a : List α}
    (ha : p ∉ a) (b : List α) : cutAround (p :: phrase) (a ++ (p :: phrase ++ b)) = some (a, b) := by
  induction a with
  | nil =>
    have hphrase : (p :: phrase).isPrefixOf? (p :: (phrase ++ b)) = some b :=
      List.isPrefixOf?_eq_some_iff_append_eq.2 rfl
    rw [List.nil_append, List.cons_append, cutAround, hphrase]
  | cons c a ih =>
    rw [List.mem_cons, not_or] at ha
    rw [List.cons_append, cutAround, List.isPrefixOf?, if_neg (by simpa using ha.1), ih ha.2]
    rfl

namespace Documentation

/-- A line of documentation as it is written, with the blanks before its mark. -/
inductive WrittenLine
  | description (line : List Char)
  | parameter (indent name text : List Char)
  | returns (indent text : List Char)
deriving DecidableEq, Repr

/-- An entry behind its mark: a name and the text for it. -/
def entry (name text : List Char) : List Char := ' ' :: (name ++ (" - ".toList ++ text))

namespace WrittenLine

def text : WrittenLine → List Char
  | description line => line
  | parameter indent name text => indent ++ '+' :: entry name text
  | returns indent text => indent ++ '+' :: entry "return".toList text

/-- A line is written as its kind demands: a description has no mark, a parameter a name without
blanks other than `return`, and a text has no blanks around it. -/
def IsWritten : WrittenLine → Prop
  | description line => (trim line).head? ≠ some '+'
  | parameter indent name text =>
    (∀ c ∈ indent, isBlank c = true) ∧ (name ≠ [] ∧ ∀ c ∈ name, isBlank c = false) ∧
      name ≠ "-".toList ∧ name ≠ "return".toList ∧ trim text = text
  | returns indent text => (∀ c ∈ indent, isBlank c = true) ∧ trim text = text

instance : ∀ l : WrittenLine, Decidable l.IsWritten
  | description line => inferInstanceAs (Decidable ((trim line).head? ≠ some '+'))
  | parameter indent name text =>
    have := List.decidableBAll (fun c => isBlank c = true) indent
    have := List.decidableBAll (fun c => isBlank c = false) name
    inferInstanceAs (Decidable (_ ∧ (_ ∧ _) ∧ _ ∧ _ ∧ trim text = text))
  | returns indent text =>
    have := List.decidableBAll (fun c => isBlank c = true) indent
    inferInstanceAs (Decidable (_ ∧ trim text = text))

/-- The text of a description line without the blanks around it. -/
def described? : WrittenLine → Option (List Char)
  | description line => some (trim line)
  | _ => none

/-- The name and the text of a parameter line. -/
def pair? : WrittenLine → Option (String × String)
  | parameter _ name text => some (String.ofList name, String.ofList text)
  | _ => none

/-- The text of a line for the returned value. -/
def returned? : WrittenLine → Option String
  | returns _ text => some (String.ofList text)
  | _ => none

/-- What a written line is read as. -/
def line : WrittenLine → Line
  | description line => .description (trim line)
  | parameter _ name text => .parameter name text
  | returns _ text => .returns text

end WrittenLine

/-- The first ` - ` of an entry stands behind its name. -/
theorem cutAround_entry {name : List Char} (hname : name ≠ [] ∧ ∀ c ∈ name, isBlank c = false)
    (hdash : name ≠ "-".toList) (text : List Char) :
    cutAround " - ".toList (entry name text) = some (' ' :: name, text) := by
  have hspace : ' ' ∉ name := fun h => absurd (hname.2 ' ' h) (by decide)
  -- the blank before the name begins no ` - `, since the name is not a dash alone
  have hfirst : " - ".toList.isPrefixOf? (entry name text) = none := by
    obtain ⟨c, r, rfl⟩ := List.exists_cons_of_ne_nil hname.1
    rw [entry]
    by_cases hc : c = '-'
    · subst hc
      obtain ⟨d, r, rfl⟩ :=
        List.exists_cons_of_ne_nil (show r ≠ [] from fun h => hdash (by rw [h]; rfl))
      have hd : ' ' ≠ d := by
        rintro rfl
        exact hspace (by simp)
      simp [List.isPrefixOf?, hd]
    · simp [List.isPrefixOf?, Ne.symm hc]
  have hrest := cutAround_append "- ".toList hspace text
  rw [entry, cutAround, ← entry, hfirst]
  exact congrArg (Option.map fun p => (' ' :: p.1, p.2)) hrest

theorem trim_name {name : List Char} (hname : name ≠ [] ∧ ∀ c ∈ name, isBlank c = false) :
    trim (' ' :: name) = name := by
  have hblank : ∀ c ∈ [' '], isBlank c = true := List.forall_mem_singleton.2 (by decide)
  have hnone : ∀ c ∈ ([] : List Char), isBlank c = true := nofun
  obtain ⟨c, r, hr⟩ := List.exists_cons_of_ne_nil hname.1
  have hstart : trimStart name = name := by
    rw [hr, trimStart_cons (hname.2 c (by rw [hr]; exact List.mem_cons_self ..))]
  have := trim_surrounded hblank hnone name
  rwa [List.append_nil, List.singleton_append, trim_eq name, hstart,
    trimEnd_of_not_blank hname.2] at this

/-- An entry is read as its name and its text. -/
theorem ofChars_entry {indent name text : List Char} (hindent : ∀ c ∈ indent, isBlank c = true)
    (hname : name ≠ [] ∧ ∀ c ∈ name, isBlank c = false) (hdash : name ≠ "-".toList)
    (htext : trim text = text) :
    Line.ofChars (indent ++ '+' :: entry name text)
      = if name = "return".toList then .returns text else .parameter name text := by
  rw [Line.ofChars, trimStart_blanks hindent, trimStart_cons (by decide)]
  simp only [cutAround_entry hname hdash, trim_name hname, htext]

/-- A written line is read as what it was written for. -/
theorem ofChars_text {l : WrittenLine} (h : l.IsWritten) : Line.ofChars l.text = l.line := by
  cases l with
  | description line =>
    rw [WrittenLine.text, WrittenLine.line, Line.ofChars]
    split
    · rename_i r hr
      refine absurd ?_ h
      rw [trim_eq, hr, trimEnd_cons, if_neg (by simp [isBlank])]
      rfl
    · rfl
  | parameter indent name text =>
    obtain ⟨hindent, hname, hdash, hreturn, htext⟩ := h
    rw [WrittenLine.text, ofChars_entry hindent hname hdash htext, if_neg hreturn]
    rfl
  | returns indent text =>
    obtain ⟨hindent, htext⟩ := h
    have hname : ∀ c ∈ "return".toList, isBlank c = false := by simp [isBlank]
    rw [WrittenLine.text, ofChars_entry hindent ⟨by decide, hname⟩ (by decide) htext, if_pos rfl]
    rfl

/-- The texts that are written for the description, the parameters and the returned value are
read: for the returned value the last one, and for a parameter that is looked up the first. -/
theorem ofLines_written {ls : List WrittenLine} (hls : ∀ l ∈ ls, l.IsWritten) :
    let d := ofLines (ls.map fun l => String.ofList l.text)
    let described := trim (joinWith ['\n'] (ls.filterMap WrittenLine.described?))
    d.parameters = ls.filterMap WrittenLine.pair? ∧
      d.returns = (ls.filterMap WrittenLine.returned?).getLast? ∧
      d.description = (if described = [] then none else some (String.ofList described)) ∧
      ∀ name, (d.parameter? name = none ↔ ∀ p ∈ ls.filterMap WrittenLine.pair?, p.1 ≠ name) ∧
        ∀ text, d.parameter? name = some text ↔ ∃ before behind,
          ls.filterMap WrittenLine.pair? = before ++ (name, text) :: behind ∧
            ∀ p ∈ before, p.1 ≠ name := by
  intro d described
  have hlines : (ls.map fun l => String.ofList l.text).map (fun l => Line.ofChars l.toList)
      = ls.map WrittenLine.line := by
    rw [List.map_map]
    refine List.map_congr_left fun l hl => ?_
    rw [Function.comp_apply, String.toList_ofList, ofChars_text (hls l hl)]
  have hparameters : d.parameters = ls.filterMap WrittenLine.pair? := by
    change (List.map _ _).filterMap Line.parameter? = _
    rw [hlines, List.filterMap_map]
    exact congrArg (List.filterMap · ls) (funext fun l => by cases l <;> rfl)
  refine ⟨hparameters, ?_, ?_, fun name => ⟨?_, fun text => ?_⟩⟩
  · change ((List.map _ _).filterMap Line.returns?).getLast? = _
    rw [hlines, List.filterMap_map]
    exact congrArg (fun f => (List.filterMap f ls).getLast?) (funext fun l => by cases l <;> rfl)
  · change describe (List.map _ _) = _
    rw [hlines, describe, List.filterMap_map]
    have hdescribed : Line.description? ∘ WrittenLine.line = WrittenLine.described? :=
      funext fun l => by cases l <;> rfl
    simp only [hdescribed, List.isEmpty_iff]
    rfl
  · rw [parameter?, hparameters, List.lookup_eq_none_iff]
    simp only [bne_iff_ne, ne_comm]
  · rw [parameter?, hparameters, List.lookup_eq_some_iff]
    simp only [bne_iff_ne, ne_comm]

/-- Two texts for one parameter, one of them empty, an entry whose text looks like another one, and
two texts for the returned value. -/
theorem ofLines_written_interleaved :
    let ls : List WrittenLine := [.description "Sends. ".toList, .returns [] "Nothing".toList,
      .parameter [' '] "to".toList "+ a - b".toList, .description [], .parameter [] "to".toList [],
      .description "All - of it".toList, .returns ['\t'] "An error".toList]
    let d := ofLines (ls.map fun l => String.ofList l.text)
    d.parameters = [("to", "+ a - b"), ("to", "")] ∧ d.returns = some "An error" ∧
      d.description = some "Sends.\n\nAll - of it" ∧
      d.parameter? "to" = some "+ a - b" ∧ d.parameter? "from" = none := by
  intro ls d
  have hls : ∀ l ∈ ls, l.IsWritten := by decide
  obtain ⟨hparameters, hreturns, hdescription, hlookup⟩ := ofLines_written hls
  exact ⟨hparameters, hreturns, hdescription,
    ((hlookup "to").2 _).2 ⟨[], [("to", "")], rfl, nofun⟩, (hlookup "from").1.2 (by decide)⟩

end Documentation

end ConnectorCatalog
