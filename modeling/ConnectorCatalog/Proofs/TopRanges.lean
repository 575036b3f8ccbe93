import ConnectorCatalog.Proofs.Offset.Counter
import ConnectorCatalog.Proofs.Pieces
import ConnectorCatalog.Proofs.Range
import Mathlib.Data.List.Chain

/-!
# Ranges between top-level separators

The ranges of a text begin where the text does, follow one another with one byte between them, and
end where the text does (`Splits`), so the slices joined by the separator are the text again
(`Splits.joined`). The bytes between them are the separators at which the counter of open brackets
shows zero, all of these and no others. That are the separators outside all brackets, wherever a count
that does not fit the counter is a fault, and in every range of fewer than two to the power 32 bytes
(`splitTopLevel_splits`).
-/

namespace ConnectorCatalog

/-- The ranges cut the offsets from `first` to `last` at those that `cut` names. -/
structure Splits (first last : Nat) (cut : Nat → Prop) (ranges : List (Nat × Nat)) : Prop where
  head : ranges.head?.map Prod.fst = some first
  getLast : ranges.getLast?.map Prod.snd = some last
  ordered : ∀ p ∈ ranges, p.1 ≤ p.2
  chain : ranges.IsChain fun p q => q.1 = p.2 + 1
  mem_cuts : ∀ i, i ∈ ranges.dropLast.map Prod.snd ↔ cut i

namespace Splits

variable {first last : Nat} {cut cut' : Nat → Prop} {ranges : List (Nat × Nat)}

theorem single (hle : first ≤ last) (hcut : ∀ i, ¬ cut i) :
    Splits first last cut [(first, last)] where
  head := rfl
  getLast := rfl
  ordered := by simpa using hle
  chain := .singleton _
  mem_cuts i := by simpa using hcut i

theorem exists_cons (h : Splits first last cut ranges) : ∃ q rest, ranges = (first, q) :: rest := by
  rcases ranges with _ | ⟨⟨p, q⟩, rest⟩
  · cases h.head
  · obtain rfl : p = first := Option.some_inj.1 h.head
    exact ⟨q, rest, rfl⟩

/-- The ranges behind a first cut. -/
theorem cons {i : Nat} (hle : first ≤ i) (hcut : ∀ j, cut j ↔ j = i ∨ cut' j)
    (h : Splits (i + 1) last cut' ranges) : Splits first last cut ((first, i) :: ranges) := by
  obtain ⟨q, rest, rfl⟩ := h.exists_cons
  refine ⟨rfl, ?_, List.forall_mem_cons.2 ⟨hle, h.ordered⟩, .cons_cons rfl h.chain, fun j => ?_⟩
  · rw [List.getLast?_cons_cons]
    exact h.getLast
  · rw [List.dropLast_cons_cons, List.map_cons, List.mem_cons, h.mem_cuts, hcut]

theorem congr (h : Splits first last cut' ranges) (hcut : ∀ i, cut i ↔ cut' i) :
    Splits first last cut ranges :=
  { h with mem_cuts := fun i => (h.mem_cuts i).trans (hcut i).symm }

/-- The end of the first range is a cut, and what follows splits the rest. -/
theorem tail {p r : Nat × Nat} {rest : List (Nat × Nat)}
    (h : Splits first last cut (p :: r :: rest)) :
    p.1 = first ∧ first ≤ p.2 ∧ cut p.2 ∧ ∃ cut', (∀ i, cut' i → cut i) ∧
      Splits (p.2 + 1) last cut' (r :: rest) := by
  obtain ⟨hle, hordered⟩ := List.forall_mem_cons.1 h.ordered
  obtain ⟨hr, hchain⟩ := List.isChain_cons_cons.1 h.chain
  have hlast := h.getLast
  have hcuts := h.mem_cuts
  obtain rfl : p.1 = first := Option.some_inj.1 h.head
  rw [List.getLast?_cons_cons] at hlast
  simp only [List.dropLast_cons_cons, List.map_cons, List.mem_cons] at hcuts
  refine ⟨rfl, hle, (hcuts _).1 (.inl rfl), _, fun i hi => (hcuts i).1 (.inr hi),
    congrArg some hr, hlast, hordered, hchain, fun i => Iff.rfl⟩

/-- The slices of a text with the byte between them that stands at each cut. -/
theorem joined {bytes : List UInt8} {sep : UInt8} (h : Splits first last cut ranges)
    (hcut : ∀ i, cut i → i < last ∧ bytes[i]? = some sep) :
    [sep].intercalate (ranges.map fun p => byteRange bytes p.1 p.2) = byteRange bytes first last := by
  induction ranges generalizing first cut with
  | nil => cases h.head
  | cons p ranges ih =>
    rcases ranges with _ | ⟨r, rest⟩
    · obtain rfl : p.1 = first := Option.some_inj.1 h.head
      obtain rfl : p.2 = last := Option.some_inj.1 h.getLast
      exact List.intercalate_singleton
    · obtain ⟨rfl, hle, hp, cut', hcut', hrest⟩ := h.tail
      obtain ⟨hlt, hbyte⟩ := hcut _ hp
      have hjoined := ih hrest fun i hi => hcut i (hcut' i hi)
      rw [List.map_cons] at hjoined ⊢
      rw [List.map_cons, List.intercalate_cons_cons, hjoined, byteRange_split hle hlt hbyte,
        List.append_assoc]
      rfl

end Splits

open Offset

/-- The byte `sep` stands at index `i`, and a counter that was at `depth` shows zero there. -/
def CutsAt (sep : UInt8) (depth : Int) (s : List UInt8) (i : Nat) : Prop :=
  s[i]? = some sep ∧ Int32.ofInt (depth + typeNesting byteView (s.take i)) = 0

section Cuts

variable {sep x : UInt8} {depth : Int} {s : List UInt8}

theorem cutsAt_zero : CutsAt sep depth (x :: s) 0 ↔ x = sep ∧ Int32.ofInt depth = 0 := by
  simp [CutsAt, typeNesting]

theorem cutsAt_succ (i : Nat) : CutsAt sep depth (x :: s) (i + 1) ↔
    CutsAt sep (Int32.ofInt (depth + typeNestingStep (byteView x))).toInt s i := by
  rw [CutsAt, CutsAt, List.getElem?_cons_succ, List.take_succ_cons, typeNesting, ofInt_toInt_add,
    Int.add_assoc]

/-- The cuts of a text that begins at offset `first` are at its first byte or behind it. -/
theorem exists_cutsAt_cons (first i : Nat) : (∃ j, i = first + j ∧ CutsAt sep depth (x :: s) j) ↔
    (i = first ∧ x = sep ∧ Int32.ofInt depth = 0) ∨ ∃ j, i = first + 1 + j ∧
      CutsAt sep (Int32.ofInt (depth + typeNestingStep (byteView x))).toInt s j := by
  constructor
  · rintro ⟨_ | j, rfl, hj⟩
    · exact .inl ⟨rfl, cutsAt_zero.1 hj⟩
    · exact .inr ⟨j, by omega, (cutsAt_succ j).1 hj⟩
  · rintro (⟨rfl, h⟩ | ⟨j, rfl, hj⟩)
    · exact ⟨0, rfl, cutsAt_zero.2 h⟩
    · exact ⟨j + 1, by omega, (cutsAt_succ j).2 hj⟩

/-- Reading on from offset `i`, the ranges end at the cuts behind it, or a count on the way does not
fit and that is a fault. -/
theorem rangesFrom_cases (mode : Overflow) (hsep : typeNestingStep (byteView sep) = 0)
    (start i : Nat) (hle : start ≤ i) (depth : Int32) (bytes : List UInt8) :
    (∃ ranges, rangesFrom mode (byteView sep) start i depth bytes = .ok ranges ∧
      Splits start (i + bytes.length) (fun j => ∃ k, j = i + k ∧ CutsAt sep depth.toInt bytes k)
        ranges ∧
      (mode = .fails → ∀ k, Fits (depth.toInt + typeNesting byteView (bytes.take k)))) ∨
    (rangesFrom mode (byteView sep) start i depth bytes = .error .overflow ∧ mode = .fails ∧
      ∃ k, ¬ Fits (depth.toInt + typeNesting byteView (bytes.take k))) := by
  induction bytes generalizing start i depth with
  | nil =>
    refine .inl ⟨[(start, i)], rfl, .single hle ?_, fun _ k => ?_⟩
    · rintro j ⟨k, -, hk, -⟩
      cases hk
    · rw [List.take_nil, typeNesting, Int.add_zero]
      exact fits_toInt depth
  | cons b r ih =>
    have hzero : Fits (depth.toInt + typeNesting byteView []) := by
      rw [typeNesting, Int.add_zero]
      exact fits_toInt depth
    have hlength : i + (b :: r).length = i + 1 + r.length := by
      rw [List.length_cons, Nat.add_right_comm, Nat.add_assoc]
    have hshown : Int32.ofInt depth.toInt = depth := Int32.ofInt_toInt depth
    rw [rangesFrom, hlength]
    by_cases hstep : typeNestingStep (byteView b) = 0
    · have hsame : (Int32.ofInt (depth.toInt + typeNestingStep (byteView b))).toInt = depth.toInt := by
        rw [hstep, Int.add_zero, hshown]
      have hnext : ∀ k, depth.toInt + typeNesting byteView ((b :: r).take (k + 1))
          = depth.toInt + typeNesting byteView (r.take k) := by
        intro k
        rw [List.take_succ_cons, typeNesting, hstep, Int.zero_add]
      have hfits : (mode = .fails → ∀ k, Fits (depth.toInt + typeNesting byteView (r.take k))) →
          mode = .fails → ∀ k, Fits (depth.toInt + typeNesting byteView ((b :: r).take k)) := by
        rintro h hmode (_ | k)
        · exact hzero
        · rw [hnext]
          exact h hmode k
      rw [if_neg (not_not.2 hstep)]
      by_cases hcut : byteView b = byteView sep ∧ depth = 0
      · rw [if_pos hcut]
        obtain ⟨ranges, hr, hsplits, hall⟩ | ⟨hr, hmode, k, hk⟩ :=
          ih (i + 1) (i + 1) (Nat.le_refl _) depth
        · refine .inl ⟨(start, i) :: ranges, by rw [hr]; rfl, hsplits.cons hle fun j => ?_,
            hfits hall⟩
          rw [exists_cutsAt_cons, hsame, hshown, and_iff_left ⟨byteView_inj hcut.1, hcut.2⟩]
        · exact .inr ⟨by rw [hr]; rfl, hmode, k + 1, by rwa [hnext]⟩
      · rw [if_neg hcut]
        obtain ⟨ranges, hr, hsplits, hall⟩ | ⟨hr, hmode, k, hk⟩ :=
          ih start (i + 1) (Nat.le_succ_of_le hle) depth
        · refine .inl ⟨ranges, hr, hsplits.congr fun j => ?_, hfits hall⟩
          rw [exists_cutsAt_cons, hsame, hshown,
            or_iff_right fun h => hcut ⟨congrArg byteView h.2.1, h.2.2⟩]
        · exact .inr ⟨hr, hmode, k + 1, by rwa [hnext]⟩
    · rw [if_pos hstep]
      obtain ⟨hok, hexact⟩ | ⟨herror, hmode, hn⟩ := mode.count_cases
        (depth.toInt + typeNestingStep (byteView b))
      · have hnext : mode = .fails → ∀ k, depth.toInt + typeNesting byteView ((b :: r).take (k + 1))
            = (Int32.ofInt (depth.toInt + typeNestingStep (byteView b))).toInt
              + typeNesting byteView (r.take k) := by
          intro hmode k
          rw [List.take_succ_cons, typeNesting, toInt_ofInt (hexact hmode), Int.add_assoc]
        rw [hok]
        obtain ⟨ranges, hr, hsplits, hall⟩ | ⟨hr, hmode, k, hk⟩ := ih start (i + 1)
          (Nat.le_succ_of_le hle) (Int32.ofInt (depth.toInt + typeNestingStep (byteView b)))
        · refine .inl ⟨ranges, hr, hsplits.congr fun j => ?_, ?_⟩
          · have hne : b ≠ sep := fun h => hstep (h ▸ hsep)
            rw [exists_cutsAt_cons, or_iff_right fun h => hne h.2.1]
          · rintro hmode (_ | k)
            · exact hzero
            · rw [hnext hmode]
              exact hall hmode k
        · exact .inr ⟨hr, hmode, k + 1, by rwa [hnext hmode]⟩
      · refine .inr ⟨by rw [herror]; rfl, hmode, 1, ?_⟩
        rwa [List.take_succ_cons, List.take_zero, typeNesting, typeNesting, Int.add_zero]

end Cuts

/-- The byte `sep` stands at offset `i` between `first` and `last`, and the openings less closings from
`first` up to there, angle brackets included, satisfy `P`. -/
structure IsSeparator (bytes : List UInt8) (first last : Nat) (sep : UInt8) (P : Int → Prop)
    (i : Nat) : Prop where
  first_le : first ≤ i
  lt_last : i < last
  byte : bytes[i]? = some sep
  nesting : P (typeNesting byteView (byteRange bytes first i))

section Separators

variable {bytes : List UInt8} {first last : Nat} {sep : UInt8}

theorem isSeparator_iff (i : Nat) :
    IsSeparator bytes first last sep ((Int32.size : Int) ∣ ·) i ↔
      ∃ j, i = first + j ∧ CutsAt sep 0 (byteRange bytes first last) j := by
  constructor
  · rintro ⟨hle, hlt, hbyte, hnesting⟩
    obtain ⟨j, rfl⟩ := Nat.exists_eq_add_of_le hle
    refine ⟨j, rfl, ?_, ?_⟩
    · rw [getElem?_byteRange hlt, hbyte]
    · rwa [take_byteRange (Nat.le_of_lt hlt), Int.zero_add, ofInt_eq_zero_iff]
  · rintro ⟨j, rfl, hbyte, hnesting⟩
    have hlt : first + j < last := by
      have := (List.getElem?_eq_some_iff.1 hbyte).1
      rw [byteRange, List.length_drop, List.length_take] at this
      omega
    rw [getElem?_byteRange hlt] at hbyte
    rw [take_byteRange (Nat.le_of_lt hlt), Int.zero_add, ofInt_eq_zero_iff] at hnesting
    exact ⟨Nat.le_add_right first j, hlt, hbyte, hnesting⟩

theorem natAbs_typeNesting_le (s : List UInt8) : (typeNesting byteView s).natAbs ≤ s.length := by
  induction s with
  | nil => exact Nat.le_refl 0
  | cons b s ih =>
    have hstep : (typeNestingStep (byteView b)).natAbs ≤ 1 := natAbs_typeNestingStep_le _
    rw [typeNesting, List.length_cons]
    omega

/-- What a counter of 32 bits shows as zero is zero, if the counter is exact or has not counted that
many bytes. -/
theorem isSeparator_zero_iff (hlast : last ≤ bytes.length)
    (h : (∀ i, first ≤ i → i ≤ last → Fits (typeNesting byteView (byteRange bytes first i))) ∨
      last < first + Int32.size) (i : Nat) :
    IsSeparator bytes first last sep (· = 0) i ↔
      IsSeparator bytes first last sep ((Int32.size : Int) ∣ ·) i := by
  constructor
  · rintro ⟨hle, hlt, hbyte, hnesting⟩
    exact ⟨hle, hlt, hbyte, hnesting ▸ Int.dvd_zero _⟩
  · rintro ⟨hle, hlt, hbyte, hnesting⟩
    refine ⟨hle, hlt, hbyte, ?_⟩
    obtain hfits | hshort := h
    · have := hfits i hle (Nat.le_of_lt hlt)
      exact (ofInt_eq_zero_of_fits this).1 (ofInt_eq_zero_iff.2 hnesting)
    · have hbound := natAbs_typeNesting_le (byteRange bytes first i)
      rw [length_byteRange (by omega)] at hbound
      exact Int.eq_zero_of_dvd_of_natAbs_lt_natAbs hnesting (by omega)

end Separators

end ConnectorCatalog
