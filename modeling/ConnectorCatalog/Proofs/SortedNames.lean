import ConnectorCatalog.Project.Load
import ConnectorCatalog.Proofs.Bytes
import Mathlib.Data.List.Basic

/-!
# Names in order

Texts are ordered as their bytes are (`utf8_lt`), so sorted names come in the order of their bytes. In
which order they were before does not matter (`sortNames_eq_of_perm`).
-/

namespace ConnectorCatalog

theorem cons_lt_cons_of_lt {a b : Nat} (h : a < b) (hb : b < 256) (u v : List UInt8) :
    UInt8.ofNat a :: u < UInt8.ofNat b :: v := by
  refine List.cons_lt_cons_iff.2 (.inl (UInt8.lt_iff_toNat_lt.2 ?_))
  rw [UInt8.toNat_ofNat', UInt8.toNat_ofNat']
  omega

/-- One more continuation byte, which holds the last six bits, keeps the order. -/
theorem append_continuation_lt {m n : Nat} {p q : List UInt8} (h : m < n)
    (hlt : m / 64 < n / 64 → ∀ u v, p ++ u < q ++ v) (heq : m / 64 = n / 64 → p = q)
    (u v : List UInt8) :
    p ++ UInt8.ofNat (m % 64 + 128) :: u < q ++ UInt8.ofNat (n % 64 + 128) :: v := by
  rcases Nat.lt_or_ge (m / 64) (n / 64) with hdiv | hdiv
  · exact hlt hdiv _ _
  · have hdiv : m / 64 = n / 64 := Nat.le_antisymm (Nat.div_le_div_right (Nat.le_of_lt h)) hdiv
    rw [heq hdiv]
    exact List.append_left_lt (cons_lt_cons_of_lt (by omega) (by omega) u v)

/-- Of two characters the smaller one has the smaller bytes, whatever follows them. -/
theorem utf8EncodeChar_append_lt {c d : Char} (h : c < d) (u v : List UInt8) :
    String.utf8EncodeChar c ++ u < String.utf8EncodeChar d ++ v := by
  have hd : d.val.toNat < 0x110000 := by
    rcases d.valid with h | h <;> omega
  have hlt : c.val.toNat < d.val.toNat := h
  unfold String.utf8EncodeChar
  generalize c.val.toNat = m at *
  generalize d.val.toNat = n at *
  have hdiv : ∀ k, k / 4096 = k / 64 / 64 ∧ k / 262144 = k / 64 / 64 / 64 := by omega
  simp only [(hdiv _).1, (hdiv _).2]
  split_ifs
  -- the smaller character does not have more bytes
  any_goals omega
  -- if it has fewer of them, or if both have one, then the first byte is smaller
  any_goals (refine cons_lt_cons_of_lt ?_ ?_ _ _ <;> omega)
  -- otherwise the last bytes decide if those in front of them are the same
  · exact append_continuation_lt (p := [_]) (q := [_]) hlt
      (fun h => cons_lt_cons_of_lt (by omega) (by omega)) (fun h => by rw [h]) u v
  · exact append_continuation_lt (p := [_, _]) (q := [_, _]) hlt
      (fun h => append_continuation_lt (p := [_]) (q := [_]) h
        (fun h => cons_lt_cons_of_lt (by omega) (by omega)) (fun h => by rw [h]))
      (fun h => by rw [h]) u v
  · exact append_continuation_lt (p := [_, _, _]) (q := [_, _, _]) hlt
      (fun h => append_continuation_lt (p := [_, _]) (q := [_, _]) h
        (fun h => append_continuation_lt (p := [_]) (q := [_]) h
          (fun h => cons_lt_cons_of_lt (by omega) (by omega)) (fun h => by rw [h]))
        (fun h => by rw [h]))
      (fun h => by rw [h]) u v

theorem bytesOf_lt {s t : List Char} (h : s < t) : bytesOf s < bytesOf t := by
  induction h with
  | nil =>
    rename_i d t
    obtain ⟨b, bytes, hd⟩ := List.exists_cons_of_ne_nil (String.utf8EncodeChar_ne_nil (c := d))
    rw [bytesOf, bytesOf, List.flatMap_cons, hd]
    exact List.nil_lt_cons ..
  | rel h => exact utf8EncodeChar_append_lt h _ _
  | cons _ ih => exact List.append_left_lt ih

/-- The order of texts is that of their bytes. -/
theorem utf8_lt {a b : String} (h : a < b) : utf8 a < utf8 b := by
  rw [utf8_eq_bytesOf, utf8_eq_bytesOf]
  exact bytesOf_lt h

theorem pairwise_sortNames (names : List String) : (sortNames names).Pairwise (· ≤ ·) := by
  have hsorted : (sortNames names).Pairwise fun a b => decide (a ≤ b) = true :=
    List.pairwise_mergeSort
      (fun a b c hab hbc => by
        rw [decide_eq_true_eq] at hab hbc ⊢
        exact String.le_trans hab hbc)
      (fun a b => by simpa using String.le_total a b) names
  exact hsorted.imp fun h => by simpa using h

theorem sortNames_perm (names : List String) : (sortNames names).Perm names :=
  List.mergeSort_perm _ _

/-- Sorting forgets the order in which names come. -/
theorem sortNames_eq_of_perm {names names' : List String} (h : names.Perm names') :
    sortNames names = sortNames names' :=
  ((sortNames_perm names).trans (h.trans (sortNames_perm names').symm)).eq_of_pairwise
    (fun _ _ _ _ => String.le_antisymm) (pairwise_sortNames _) (pairwise_sortNames _)

/-- Names that are all different come in the order of their bytes. -/
theorem ascending_sortNames {names : List String} (h : names.Nodup) :
    (sortNames names).Pairwise fun a b => utf8 a < utf8 b := by
  have hnodup : (sortNames names).Nodup := (sortNames_perm names).nodup_iff.2 h
  refine (pairwise_sortNames names).imp₂ (fun a b hle hne => utf8_lt ?_) hnodup
  exact String.not_le.1 fun hba => hne (String.le_antisymm hle hba)

end ConnectorCatalog
