import ConnectorCatalog.Version
import Mathlib.Order.Defs.LinearOrder

/-!
# The order of versions

The order of versions is total, and only equal versions compare as equal.
-/

namespace ConnectorCatalog

open Std

namespace VersionIdentifier

/-- The order of characters. -/
def compareChar : Char → Char → Ordering := Ordering.byKey Char.toNat compare

instance : TransCmp compareChar := inferInstanceAs (TransCmp (Ordering.byKey _ _))

instance : LawfulEqCmp compareChar where
  compare_self := ReflCmp.compare_self
  eq_of_compare {a b} h :=
    Char.toNat_inj.1 (LawfulEqCmp.eq_of_compare (show compare a.toNat b.toNat = .eq from h))

theorem compareText_eq : compareText = List.compareLex compareChar := by
  funext s t
  induction s generalizing t with
  | nil => cases t <;> rfl
  | cons a s ih =>
    cases t with
    | nil => rfl
    | cons b t => rw [compareText, List.compareLex_cons_cons, ih]; rfl

instance : TransCmp compareText := compareText_eq ▸ inferInstance

instance : LawfulEqCmp compareText := compareText_eq ▸ inferInstance

/-- The order of two numbers: by value and then by the count of their digits. -/
def compareNumber : Nat × Nat → Nat × Nat → Ordering :=
  compareLex (compareOn Prod.fst) (compareOn Prod.snd)

instance : TransCmp compareNumber := inferInstanceAs (TransCmp (compareLex _ _))

theorem order_number (m i n j : Nat) : (number m i).order (number n j) = compareNumber (m, i) (n, j) :=
  rfl

instance : TransCmp order where
  eq_swap {a b} := by
    cases a <;> cases b
    · rw [order_number, order_number]
      exact OrientedCmp.eq_swap
    · rfl
    · rfl
    · change compareText _ _ = (compareText _ _).swap
      exact OrientedCmp.eq_swap
  isLE_trans {a b c} hab hbc := by
    cases a with
    | number m i =>
      cases c with
      | name s => rfl
      | number n j =>
        cases b with
        | name s => cases hbc
        | number k l =>
          rw [order_number] at hab hbc ⊢
          exact TransCmp.isLE_trans hab hbc
    | name s =>
      cases b with
      | number => cases hab
      | name t =>
        cases c with
        | number => cases hbc
        | name u =>
          change (compareText _ _).isLE = true at hab hbc ⊢
          exact TransCmp.isLE_trans hab hbc

instance : LawfulEqCmp order where
  compare_self {a} := by
    cases a with
    | number m i =>
      rw [order_number]
      exact ReflCmp.compare_self
    | name s =>
      change compareText s s = .eq
      exact ReflCmp.compare_self
  eq_of_compare {a b} h := by
    cases a <;> cases b
    · simpa [order, Ordering.then_eq_eq] using h
    · cases h
    · cases h
    · change compareText _ _ = .eq at h
      rw [LawfulEqCmp.eq_of_compare h]

theorem orderAll_eq : orderAll = List.compareLex order := by
  funext s t
  induction s generalizing t with
  | nil => cases t <;> rfl
  | cons a s ih =>
    cases t with
    | nil => rfl
    | cons b t => rw [orderAll, List.compareLex_cons_cons, ih]

instance : TransCmp orderAll := orderAll_eq ▸ inferInstance

instance : LawfulEqCmp orderAll := orderAll_eq ▸ inferInstance

end VersionIdentifier

namespace Version

open VersionIdentifier

/-- A pre-release comes before none at all. -/
theorem preReleaseOrder_eq :
    preReleaseOrder = compareLex (compareOn List.isEmpty) VersionIdentifier.orderAll := by
  funext s t
  cases s <;> cases t <;> rfl

instance : TransCmp preReleaseOrder := preReleaseOrder_eq ▸ inferInstance

instance : LawfulEqCmp preReleaseOrder where
  compare_self := ReflCmp.compare_self
  eq_of_compare {s t} h := by
    rw [preReleaseOrder_eq, compareLex, Ordering.then_eq_eq] at h
    exact LawfulEqCmp.eq_of_compare h.2

instance : TransCmp order :=
  inferInstanceAs (TransCmp (compareLex (Ordering.byKey major compare) <|
    compareLex (Ordering.byKey minor compare) <| compareLex (Ordering.byKey patch compare) <|
    compareLex (Ordering.byKey preRelease preReleaseOrder) (Ordering.byKey build orderAll)))

instance : LawfulEqCmp order where
  compare_self := ReflCmp.compare_self
  eq_of_compare {a b} h := by
    simp only [order, Ordering.then_eq_eq] at h
    obtain ⟨hmajor, hminor, hpatch, hpreRelease, hbuild⟩ := h
    obtain ⟨major, minor, patch, preRelease, build⟩ := a
    rw [Version.mk.injEq]
    exact ⟨LawfulEqCmp.eq_of_compare hmajor, LawfulEqCmp.eq_of_compare hminor,
      LawfulEqCmp.eq_of_compare hpatch, LawfulEqCmp.eq_of_compare hpreRelease,
      LawfulEqCmp.eq_of_compare hbuild⟩

end Version

end ConnectorCatalog
