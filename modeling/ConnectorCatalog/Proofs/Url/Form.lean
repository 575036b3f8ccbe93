import ConnectorCatalog.Proofs.Cut
import ConnectorCatalog.Proofs.Trim
import ConnectorCatalog.Proofs.Url.Percent
import ConnectorCatalog.Url.Form

/-!
# Queries are read back

The ampersands and equals signs of a query stand between names and values and not in them: none is
left as it is in what is written for a text. So the pairs that a query is given are read back in
order behind those it held (`decodePairs_append`), whatever characters they hold.
-/

namespace ConnectorCatalog.Form

/-- The character may stand in an encoded text. -/
def isWritten (c : Char) : Bool := isPlain c || c == '+' || c == '%' || (hexValue? c).isSome

theorem isWritten_of_mem_encode {x : Char} {s : List Char} (h : x ∈ encode s) : isWritten x = true := by
  obtain ⟨c, -, hx⟩ := List.mem_flatMap.1 h
  unfold isWritten
  split_ifs at hx with hplain hspace
  · rw [List.mem_singleton.1 hx, hplain]
    rfl
  · rw [List.mem_singleton.1 hx]
    decide
  · rcases Percent.of_mem_encodeChar hx with rfl | hdigit
    · decide
    · rw [hdigit, Bool.or_true]

/-- A text is read back from what is written for it. -/
theorem decode_encode (s : List Char) : decode (encode s) = bytesOf s := by
  rw [decode, encode, List.map_flatMap]
  apply Percent.decode_flatMap
  intro c r
  split_ifs with hplain hspace
  · have hplus : c ≠ '+' := by
      rintro rfl
      cases hplain
    have hsign : c ≠ '%' := by
      rintro rfl
      cases hplain
    rw [List.map_singleton, if_neg hplus]
    exact Percent.decode_cons hsign r
  · rw [hspace]
    exact Percent.decode_cons (by decide) r
  · have hsame : (Percent.encodeChar c).map (fun x => if x = '+' then ' ' else x)
        = Percent.encodeChar c := by
      refine (List.map_congr_left fun x hx => if_neg ?_).trans (List.map_id _)
      rintro rfl
      exact absurd (Percent.of_mem_encodeChar hx) (by decide)
    rw [hsame]
    exact Percent.decode_encodeChar c r

theorem ne_of_mem_encode {x d : Char} {s : List Char} (hd : isWritten d = false) (h : x ∈ encode s) :
    x ≠ d := by
  rintro rfl
  rw [isWritten_of_mem_encode h] at hd
  cases hd

/-- A pair is read back from what is written for it. -/
theorem decodePairs_encodePair (name value : String) :
    decodePairs (encodePair name.toList value.toList) = [(utf8 name, utf8 value)] := by
  have hwhole : cutAll (· == '&') (encodePair name.toList value.toList)
      = [encodePair name.toList value.toList] := by
    apply cutAll_eq_singleton
    intro c hc
    rw [encodePair, List.append_assoc, List.mem_append, List.mem_append, List.mem_singleton] at hc
    rw [beq_eq_false_iff_ne]
    rcases hc with hc | rfl | hc
    · exact ne_of_mem_encode (by decide) hc
    · decide
    · exact ne_of_mem_encode (by decide) hc
  have hcut : cutAtFirst (· == '=') (encodePair name.toList value.toList)
      = some (encode name.toList, encode value.toList) := by
    rw [encodePair, List.append_assoc, List.singleton_append]
    refine cutAtFirst_append (fun c hc => ?_) (by decide) _
    exact beq_eq_false_iff_ne.2 (ne_of_mem_encode (by decide) hc)
  have hne : (encodePair name.toList value.toList).isEmpty = false := by
    simp [encodePair]
  rw [decodePairs, hwhole, List.filter_singleton, hne]
  simp only [Bool.not_false, cond_true, List.map_cons, List.map_nil, hcut, Option.getD_some,
    decode_encode, utf8_eq_bytesOf]

theorem decodePairs_cons_append (query : List Char) (r : List Char) :
    decodePairs (query ++ '&' :: r) = decodePairs query ++ decodePairs r := by
  rw [decodePairs, cutAll_append_cons (by decide), List.filter_append, List.map_append]
  rfl

/-- Pairs are read back behind what a query held already. -/
theorem decodePairs_append (query : List Char) (pairs : List (String × String)) :
    decodePairs (append query pairs)
      = decodePairs query ++ pairs.map fun (name, value) => (utf8 name, utf8 value) := by
  induction pairs generalizing query with
  | nil => exact (List.append_nil _).symm
  | cons pair pairs ih =>
    have hstep : decodePairs (query ++ (if query.isEmpty then [] else ['&'])
        ++ encodePair pair.1.toList pair.2.toList)
        = decodePairs query ++ [(utf8 pair.1, utf8 pair.2)] := by
      rw [← decodePairs_encodePair]
      split_ifs with hquery
      · rw [List.isEmpty_iff.1 hquery]
        rfl
      · rw [List.append_assoc, List.singleton_append, decodePairs_cons_append]
    rw [append, List.foldl_cons, ← append, ih, hstep, List.append_assoc]
    rfl

end ConnectorCatalog.Form
