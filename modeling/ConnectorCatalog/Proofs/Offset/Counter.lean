import ConnectorCatalog.Offset.Bracket
import ConnectorCatalog.Proofs.Bracket
import ConnectorCatalog.Proofs.Bytes
import Mathlib.Data.List.Forall2
import Mathlib.Tactic.SplitIfs

/-!
# Counting with 32 bits

A counter shows the exact count modulo two to the power 32. Where overflow is a fault, a count that is
given is exact, and it is given if every count on the way fits (`countFrom_cases`). A run that counts
goes wrong in no other way, and in none if its counts are known to be small (`Runs`).
-/

namespace ConnectorCatalog.Offset

theorem toInt_ofInt {n : Int} (h : Fits n) : (Int32.ofInt n).toInt = n :=
  Int32.toInt_ofInt_of_le h.1 h.2

theorem ofInt_toInt_add (n k : Int) :
    Int32.ofInt ((Int32.ofInt n).toInt + k) = Int32.ofInt (n + k) := by
  rw [Int32.ofInt_add, Int32.ofInt_toInt, ← Int32.ofInt_add]

theorem fits_toInt (n : Int32) : Fits n.toInt := ⟨n.le_toInt, n.toInt_lt⟩

theorem fits_of_natAbs_lt {n : Int} (h : n.natAbs < countLimit) : Fits n := by
  unfold Fits
  omega

/-- A counter shows zero at the multiples of two to the power 32. -/
theorem ofInt_eq_zero_iff {n : Int} : Int32.ofInt n = 0 ↔ (Int32.size : Int) ∣ n := by
  rw [Int32.ofInt_eq_iff_bmod_eq_toInt, Int32.toInt_zero]
  exact Int.dvd_iff_bmod_eq_zero.symm

theorem ofInt_eq_zero_of_fits {n : Int} (h : Fits n) : Int32.ofInt n = 0 ↔ n = 0 := by
  rw [← Int32.toInt_inj, toInt_ofInt h, Int32.toInt_zero]

/-- A count is given, or it does not fit and that is a fault. -/
theorem Overflow.count_cases (mode : Overflow) (n : Int) :
    (mode.count n = .ok (Int32.ofInt n) ∧ (mode = .fails → Fits n)) ∨
      (mode.count n = .error .overflow ∧ mode = .fails ∧ ¬ Fits n) := by
  rw [count]
  split_ifs with h
  · exact .inr ⟨rfl, h⟩
  · exact .inl ⟨rfl, fun hmode => Decidable.not_not.1 fun hn => h ⟨hmode, hn⟩⟩

/-- Counting on gives the exact count modulo two to the power 32, or a count on the way does not fit
and that is a fault. -/
theorem countFrom_cases (mode : Overflow) (depth : Int32) (bytes : List UInt8) :
    (countFrom mode depth bytes = .ok (Int32.ofInt (depth.toInt + nesting byteView bytes)) ∧
      (mode = .fails → ∀ k, Fits (depth.toInt + nesting byteView (bytes.take k)))) ∨
    (countFrom mode depth bytes = .error .overflow ∧ mode = .fails ∧
      ∃ k, ¬ Fits (depth.toInt + nesting byteView (bytes.take k))) := by
  induction bytes generalizing depth with
  | nil =>
    refine .inl ⟨?_, fun _ k => ?_⟩
    · rw [nesting, Int.add_zero, Int32.ofInt_toInt]
      rfl
    · rw [List.take_nil, nesting, Int.add_zero]
      exact fits_toInt depth
  | cons b r ih =>
    have hzero : Fits (depth.toInt + nesting byteView []) := by
      rw [nesting, Int.add_zero]
      exact fits_toInt depth
    obtain ⟨hok, hfits⟩ | ⟨herror, hmode, hn⟩ := mode.count_cases
      (depth.toInt + nestingStep (byteView b))
    · have hstep : countFrom mode depth (b :: r)
          = countFrom mode (Int32.ofInt (depth.toInt + nestingStep (byteView b))) r := by
        rw [countFrom, List.foldlM_cons, hok]
        rfl
      rw [hstep]
      have hexact : mode = .fails →
          (Int32.ofInt (depth.toInt + nestingStep (byteView b))).toInt
            = depth.toInt + nestingStep (byteView b) := fun hmode => toInt_ofInt (hfits hmode)
      obtain ⟨hr, hall⟩ | ⟨hr, hmode, k, hk⟩ :=
        ih (Int32.ofInt (depth.toInt + nestingStep (byteView b)))
      · refine .inl ⟨?_, fun hmode k => ?_⟩
        · rw [hr, ofInt_toInt_add, nesting, Int.add_assoc]
        · cases k with
          | zero => exact hzero
          | succ k =>
            have := hall hmode k
            rwa [hexact hmode, Int.add_assoc] at this
      · refine .inr ⟨hr, hmode, k + 1, ?_⟩
        rwa [List.take_succ_cons, nesting, ← Int.add_assoc, ← hexact hmode]
    · refine .inr ⟨?_, hmode, 1, ?_⟩
      · rw [countFrom, List.foldlM_cons, herror]
        rfl
      · rwa [List.take_succ_cons, List.take_zero, nesting, nesting, Int.add_zero]

theorem natAbs_nestingStep_le (c : Char) : (nestingStep c).natAbs ≤ 1 := by
  unfold nestingStep
  split_ifs <;> decide

theorem natAbs_typeNestingStep_le (c : Char) : (typeNestingStep c).natAbs ≤ 1 := by
  unfold typeNestingStep
  split_ifs
  · decide
  · decide
  · exact natAbs_nestingStep_le c

theorem natAbs_nesting_le (bytes : List UInt8) : (nesting byteView bytes).natAbs ≤ bytes.length := by
  induction bytes with
  | nil => exact Nat.le_refl 0
  | cons b r ih =>
    have hstep := natAbs_nestingStep_le (byteView b)
    rw [nesting, List.length_cons]
    omega

/-- The nesting of a range is given modulo two to the power 32, or a count on the way did not fit and
that is a fault. -/
theorem nestingDepth_cases (mode : Overflow) {bytes : List UInt8} {first last : Nat}
    (hle : first ≤ last) (hlast : last ≤ bytes.length) :
    (nestingDepth mode bytes first last
        = .ok (Int32.ofInt (nesting byteView (byteRange bytes first last))) ∧
      (mode = .fails → Fits (nesting byteView (byteRange bytes first last)))) ∨
    (nestingDepth mode bytes first last = .error .overflow ∧ mode = .fails ∧
      first + countLimit ≤ last) := by
  have hslice : sliceBytes bytes first last = .ok (byteRange bytes first last) := by
    rw [sliceBytes, sliceList, if_neg (by omega)]
    rfl
  have hrun : nestingDepth mode bytes first last = countFrom mode 0 (byteRange bytes first last) := by
    rw [nestingDepth, hslice]
    rfl
  have hlength : (byteRange bytes first last).length = last - first := by
    rw [byteRange, List.length_drop, List.length_take, Nat.min_eq_left hlast]
  rw [hrun]
  obtain ⟨hok, hfits⟩ | ⟨herror, hmode, k, hk⟩ :=
    countFrom_cases mode 0 (byteRange bytes first last)
  · rw [Int32.toInt_zero, Int.zero_add] at hok
    refine .inl ⟨hok, fun hmode => ?_⟩
    have := hfits hmode (byteRange bytes first last).length
    rwa [List.take_length, Int32.toInt_zero, Int.zero_add] at this
  · refine .inr ⟨herror, hmode, Nat.le_of_not_lt fun hlt => hk ?_⟩
    have hbound := natAbs_nesting_le ((byteRange bytes first last).take k)
    rw [List.length_take, hlength] at hbound
    rw [Int32.toInt_zero, Int.zero_add]
    exact fits_of_natAbs_lt (by omega)

section Runs

variable {α β : Type} {mode : Overflow} {small small' : Prop} {P : α → Prop} {Q : β → Prop}

/-- What is given satisfies `P`, and nothing goes wrong but a count that does not fit where that is a
fault; if counts are `small`, nothing does. -/
def Runs (mode : Overflow) (small : Prop) (P : α → Prop) : Except Fault α → Prop
  | .ok x => P x
  | .error e => e = .overflow ∧ mode = .fails ∧ ¬ small

theorem Runs.bind {x : Except Fault α} {f : α → Except Fault β} (h : Runs mode small P x)
    (hf : ∀ a, P a → Runs mode small Q (f a)) : Runs mode small Q (x >>= f) := by
  cases x with
  | ok a => exact hf a h
  | error e => exact h

theorem Runs.imp {P' : α → Prop} {x : Except Fault α} (h : Runs mode small P x)
    (hsmall : small' → small) (hP : ∀ a, P a → P' a) : Runs mode small' P' x := by
  cases x with
  | ok a => exact hP a h
  | error e => exact ⟨h.1, h.2.1, fun hs => h.2.2 (hsmall hs)⟩

theorem runs_count {n : Int} (h : small → Fits n) :
    Runs mode small (fun x => small → x.toInt = n) (mode.count n) := by
  obtain ⟨hok, -⟩ | ⟨herror, hmode, hn⟩ := mode.count_cases n
  · rw [hok]
    exact fun hs => toInt_ofInt (h hs)
  · rw [herror]
    exact ⟨rfl, hmode, fun hs => hn (h hs)⟩

/-- A pass over a list runs if each of its steps does. -/
theorem Runs.mapM {γ : Type} {R : α → γ → Prop} {f : α → Except Fault β} {g : γ → β} {xs : List α}
    {ys : List γ} (h : List.Forall₂ R xs ys)
    (hf : ∀ x y, R x y → Runs mode small (fun b => small → b = g y) (f x)) :
    Runs mode small (fun bs => small → bs = ys.map g) (xs.mapM f) := by
  induction h with
  | nil => exact fun _ => rfl
  | cons hr _ ih =>
    rw [List.mapM_cons]
    exact (hf _ _ hr).bind fun b hb => ih.bind fun bs hbs hs => by rw [hb hs, hbs hs, List.map_cons]

end Runs

end ConnectorCatalog.Offset
