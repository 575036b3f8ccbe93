import ConnectorCatalog.Proofs.Neutral
import ConnectorCatalog.Proofs.Offset.Counter
import ConnectorCatalog.Proofs.Range
import ConnectorCatalog.Source.Offset
import Mathlib.Order.Bounds.Basic

/-!
# Partners of brackets

A partner is looked for by counting one kind of bracket, so it stands where the closings of that kind
are as many as the openings for the first time (`closeIndex?_isFirst`). Where the text is well nested
over all three kinds, that is the bracket which closes the first one and has a well nested text in
front of it (`IsPartner`), and up to there the nesting of all kinds never falls below that of the
first bracket (`IsPartner.countsTo`).
-/

namespace ConnectorCatalog

open Offset

section First

/-- The least number with `P`, or none if there is no such number. -/
def IsFirst (P : Nat → Prop) : Option Nat → Prop
  | none => ∀ i, ¬ P i
  | some i => IsLeast {i | P i} i

variable {P Q : Nat → Prop} {found : Option Nat}

theorem IsFirst.eq_some_iff (h : IsFirst P found) (i : Nat) :
    found = some i ↔ IsLeast {i | P i} i := by
  cases found with
  | none => exact ⟨nofun, fun hi => absurd hi.1 (h i)⟩
  | some j => rw [Option.some_inj, IsLeast.isLeast_iff_eq h]

theorem IsFirst.eq_none_iff (h : IsFirst P found) : found = none ↔ ∀ i, ¬ P i := by
  cases found with
  | none => exact ⟨fun _ => h, fun _ => rfl⟩
  | some j => exact ⟨nofun, fun hnone => absurd h.1 (hnone j)⟩

/-- What is first behind `n` numbers without `P`. -/
theorem IsFirst.add {n : Nat} (h : IsFirst Q found) (hn : ∀ i < n, ¬ P i)
    (hQ : ∀ i, P (n + i) ↔ Q i) : IsFirst P (found.map (n + ·)) := by
  have hsplit : ∀ i, P i → ∃ j, i = n + j ∧ Q j := by
    intro i hi
    obtain ⟨j, rfl⟩ := Nat.exists_eq_add_of_le (Nat.le_of_not_lt fun hlt => hn i hlt hi)
    exact ⟨j, rfl, (hQ j).1 hi⟩
  cases found with
  | none =>
    intro i hi
    obtain ⟨j, -, hj⟩ := hsplit i hi
    exact h j hj
  | some j =>
    refine ⟨(hQ j).2 h.1, fun i hi => ?_⟩
    obtain ⟨k, rfl, hk⟩ := hsplit i hi
    exact Nat.add_le_add_left (h.2 hk) n

theorem IsFirst.succ (h : IsFirst Q found) (h0 : ¬ P 0) (hQ : ∀ i, P (i + 1) ↔ Q i) :
    IsFirst P (found.map (· + 1)) := by
  have hadd := IsFirst.add (P := P) (n := 1) h (fun i hi => by rwa [Nat.lt_one_iff.1 hi])
    fun i => by rw [Nat.add_comm, hQ]
  simpa only [Nat.add_comm 1] using hadd

end First

section Counting

variable {α : Type _} {view : α → Char} {opening closing : Char} {depth : Nat}

/-- Up to index `i` there are as many closings as openings, `depth` openings more included. -/
def MadeUpAt (view : α → Char) (opening closing : Char) (depth : Nat) (s : List α) (i : Nat) : Prop :=
  (s.take (i + 1)).countP (view · = closing) = depth + (s.take (i + 1)).countP (view · = opening)

theorem madeUpAt_zero (x : α) (s : List α) : MadeUpAt view opening closing depth (x :: s) 0 ↔
    (if view x = closing then 1 else 0) = depth + if view x = opening then 1 else 0 := by
  simp [MadeUpAt, List.countP_cons]

theorem madeUpAt_succ {x : α} {depth' : Nat} (h : depth' + (if view x = closing then 1 else 0)
      = depth + if view x = opening then 1 else 0) (s : List α) (i : Nat) :
    MadeUpAt view opening closing depth (x :: s) (i + 1) ↔
      MadeUpAt view opening closing depth' s i := by
  simp only [MadeUpAt, List.take_succ_cons, List.countP_cons, decide_eq_true_eq]
  omega

/-- The search goes on until the closings have made up for the openings. -/
theorem closeFrom_isFirst (hne : opening ≠ closing) (hpos : 0 < depth) (s : List α) :
    IsFirst (MadeUpAt view opening closing depth s) (closeFrom view opening closing depth s) := by
  induction s generalizing depth with
  | nil =>
    intro i hi
    simp only [MadeUpAt, List.take_nil, List.countP_nil] at hi
    omega
  | cons x s ih =>
    have h0 : MadeUpAt view opening closing depth (x :: s) 0 ↔ _ := madeUpAt_zero x s
    rw [closeFrom]
    split_ifs with ho hc hone
    · have hc : view x ≠ closing := ho ▸ hne
      rw [if_neg hc, if_pos ho] at h0
      refine (ih (Nat.succ_pos depth)).succ (h0.not.2 (by omega)) (madeUpAt_succ ?_ s)
      rw [if_neg hc, if_pos ho]
    · rw [if_pos hc, if_neg ho] at h0
      exact ⟨h0.2 (by omega), fun i _ => Nat.zero_le i⟩
    · rw [if_pos hc, if_neg ho] at h0
      refine (ih (by omega)).succ (h0.not.2 (by omega)) (madeUpAt_succ ?_ s)
      rw [if_pos hc, if_neg ho]
      omega
    · rw [if_neg hc, if_neg ho] at h0
      refine (ih hpos).succ (h0.not.2 (by omega)) (madeUpAt_succ ?_ s)
      rw [if_neg hc, if_neg ho]

/-- The partner of the first bracket stands where, after it, the closings of its kind are as many as
the openings for the first time. -/
theorem closeIndex?_isFirst {x : α} (hx : closing? (view x) = some closing) (s : List α) :
    IsFirst (fun i => 0 < i ∧ MadeUpAt view (view x) closing 0 (x :: s) i)
      (closeIndex? view (x :: s)) := by
  have hne : closing ≠ view x := ne_of_isClosing hx (isClosing_of_closing? hx)
  rw [closeIndex?, hx]
  refine (closeFrom_isFirst hne.symm Nat.one_pos s).succ (fun h => Nat.lt_irrefl 0 h.1) fun i => ?_
  rw [and_iff_right (Nat.succ_pos i)]
  refine madeUpAt_succ ?_ s i
  rw [if_neg hne.symm, if_pos rfl]

end Counting

section Nested

variable {α : Type _} {view : α → Char}

/-- The closing that is due once `pending` are closed stands behind what closes these. -/
theorem exists_closing {pending rest : List Char} {c : Char} {s : List α}
    (h : wellNestedFrom view (pending ++ c :: rest) s = true) :
    ∃ u y v, s = u ++ y :: v ∧ wellNestedFrom view pending u = true ∧ view y = c := by
  induction s generalizing pending with
  | nil => simp [wellNestedFrom] at h
  | cons x s ih =>
    obtain ⟨d, ho, hs⟩ | ⟨left, hc, hleft, hs⟩ | ⟨ho, hc, hs⟩ := wellNestedFrom_cons h
    · rw [← List.cons_append] at hs
      obtain ⟨u, y, v, rfl, hu, hy⟩ := ih hs
      exact ⟨x :: u, y, v, rfl, by rw [wellNestedFrom, ho]; exact hu, hy⟩
    · cases pending with
      | nil =>
        obtain ⟨rfl, -⟩ := List.cons.inj hleft
        exact ⟨[], x, s, rfl, rfl, rfl⟩
      | cons d pending =>
        obtain ⟨rfl, rfl⟩ := List.cons.inj hleft
        obtain ⟨u, y, v, rfl, hu, hy⟩ := ih hs
        refine ⟨x :: u, y, v, rfl, ?_, hy⟩
        rw [wellNestedFrom, closing?_of_isClosing hc, hc]
        simpa using hu
    · obtain ⟨u, y, v, rfl, hu, hy⟩ := ih hs
      refine ⟨x :: u, y, v, rfl, ?_, hy⟩
      rw [wellNestedFrom, ho, hc]
      exact hu

/-- A beginning of a well nested text closes nothing that it has not opened. -/
theorem nesting_nonneg {a b : List α} (h : wellNested view (a ++ b) = true) : 0 ≤ nesting view a := by
  obtain ⟨rest, hrest⟩ := exists_pending h
  have hall := nesting_of_wellNested h
  rw [nesting_append, nesting_of_wellNestedFrom hrest] at hall
  omega

end Nested

/-- The bracket at offset `close` closes the one at offset `opening`: it is of the same kind, and what
stands between the two is well nested over all kinds. -/
structure IsPartner (bytes : List UInt8) (opening close : Nat) : Prop where
  lt : opening < close
  closes : ∃ b ∈ bytes[opening]?, ∃ b' ∈ bytes[close]?, closing? (byteView b) = some (byteView b')
  inside : wellNested byteView (byteRange bytes (opening + 1) close) = true

section Offsets

variable {bytes : List UInt8} {opening : Nat} {b : UInt8} {closing : Char}

theorem closeOffset?_isFirst (hb : bytes[opening]? = some b)
    (hclosing : closing? (byteView b) = some closing) :
    IsFirst (fun c => opening < c ∧ (byteRange bytes opening (c + 1)).countP (byteView · = closing)
        = (byteRange bytes opening (c + 1)).countP (byteView · = byteView b))
      (closeOffset? bytes opening) := by
  obtain ⟨a, r, rfl, rfl⟩ := exists_append_cons hb
  rw [closeOffset?, List.drop_left]
  refine (closeIndex?_isFirst hclosing r).add (fun i hi h => Nat.lt_asymm hi h.1) fun i => ?_
  rw [Nat.add_assoc, byteRange_behind, MadeUpAt, Nat.zero_add]
  exact and_congr_left fun _ => by omega

theorem isPartner_append (a : List UInt8) {b b' : UInt8} {body : List UInt8}
    (hclosing : closing? (byteView b) = some (byteView b'))
    (hbody : wellNested byteView body = true) (r : List UInt8) :
    IsPartner (a ++ b :: (body ++ b' :: r)) a.length (a.length + 1 + body.length) where
  lt := by omega
  closes := by
    refine ⟨b, by simp, b', ?_, hclosing⟩
    rw [List.getElem?_append_right (by omega), Nat.add_assoc, Nat.add_sub_cancel_left, Nat.add_comm 1]
    simp
  inside := by rwa [byteRange_behind_cons, List.take_left]

theorem IsPartner.exists_append {c : Nat} (h : IsPartner bytes opening c) :
    ∃ a b body b' r, bytes = a ++ b :: (body ++ b' :: r) ∧ a.length = opening ∧
      a.length + 1 + body.length = c ∧ closing? (byteView b) = some (byteView b') ∧
      wellNested byteView body = true := by
  obtain ⟨hlt, ⟨b, hb, b', hb', hclosing⟩, hinside⟩ := h
  obtain ⟨a, r, rfl, rfl⟩ := exists_append_cons hb
  obtain ⟨n, rfl⟩ := Nat.exists_eq_add_of_lt hlt
  rw [Option.mem_def, List.getElem?_append_right (by omega), Nat.add_assoc, Nat.add_sub_cancel_left,
    List.getElem?_cons_succ] at hb'
  obtain ⟨body, r, rfl, rfl⟩ := exists_append_cons hb'
  rw [Nat.add_right_comm, byteRange_behind_cons, List.take_left] at hinside
  exact ⟨a, b, body, b', r, rfl, rfl, Nat.add_right_comm .., hclosing, hinside⟩

/-- An opening bracket has its partner in a well nested text that begins with it. -/
theorem exists_partner {last : Nat} (hb : bytes[opening]? = some b)
    (hclosing : closing? (byteView b) = some closing) (hlast : opening < last)
    (hword : wellNested byteView (byteRange bytes opening last) = true) :
    ∃ c < last, IsPartner bytes opening c := by
  obtain ⟨a, r, rfl, rfl⟩ := exists_append_cons hb
  obtain ⟨n, rfl⟩ := Nat.exists_eq_add_of_lt hlast
  rw [Nat.add_assoc, byteRange_behind, List.take_succ_cons, wellNested, wellNestedFrom,
    hclosing] at hword
  have hdue : wellNestedFrom byteView ([] ++ [closing]) (r.take n) = true := hword
  obtain ⟨u, y, v, hr, hu, rfl⟩ := exists_closing hdue
  have hlen : u.length < n := by
    have := congrArg List.length hr
    rw [List.length_take, List.length_append, List.length_cons] at this
    omega
  have hsplit : r = u ++ y :: (v ++ r.drop n) := by
    rw [← List.cons_append, ← List.append_assoc, ← hr, List.take_append_drop]
  rw [hsplit]
  exact ⟨a.length + 1 + u.length, by omega, isPartner_append a hclosing hu _⟩

theorem closeOffset?_of_isPartner {c : Nat} (h : IsPartner bytes opening c) :
    closeOffset? bytes opening = some c := by
  obtain ⟨a, b, body, b', r, rfl, rfl, rfl, hclosing, hbody⟩ := h.exists_append
  have hsearch := enclosed?_of_neutral hclosing (neutral_of_wellNested hbody) r
  obtain ⟨-, -, -, -, hi⟩ := enclosed?_eq_some hsearch
  rw [closeOffset?, List.drop_left, hi, Option.map_some, Nat.add_right_comm, Nat.add_assoc]

/-- Between two offsets there are `n` openings more than closings, and a counter of 32 bits shows `n`
modulo two to the power 32: exactly `n` if a count that does not fit is a fault, or if there are fewer
than two to the power 31 bytes. It shows nothing only if a count does not fit. -/
structure CountsTo (mode : Overflow) (bytes : List UInt8) (first last n : Nat) : Prop where
  nesting : nesting byteView (byteRange bytes first last) = n
  shown : ∀ depth, nestingDepth mode bytes first last = .ok depth → depth = Int32.ofInt n ∧
    (mode = .fails ∨ last < first + countLimit → depth.toInt = n)
  given : mode = .wraps ∨ last < first + countLimit →
    ∃ depth, nestingDepth mode bytes first last = .ok depth

theorem countsTo (mode : Overflow) {first last n : Nat} (hle : first ≤ last)
    (hlast : last ≤ bytes.length) (h : nesting byteView (byteRange bytes first last) = n) :
    CountsTo mode bytes first last n := by
  obtain ⟨hok, hfits⟩ | ⟨herror, hmode, hlong⟩ := nestingDepth_cases mode hle hlast
  · rw [h] at hok hfits
    refine ⟨h, fun depth hdepth => ?_, fun _ => ⟨_, hok⟩⟩
    rw [hok] at hdepth
    cases hdepth
    refine ⟨rfl, fun hexact => toInt_ofInt (hexact.elim hfits fun hshort => ?_)⟩
    have hbound := natAbs_nesting_le (byteRange bytes first last)
    rw [length_byteRange hlast, h] at hbound
    exact fits_of_natAbs_lt (by omega)
  · refine ⟨h, fun depth hdepth => ?_, ?_⟩
    · rw [herror] at hdepth
      cases hdepth
    · rintro (hwraps | hshort)
      · rw [hmode] at hwraps
        cases hwraps
      · omega

/-- In front of the partner of a bracket the nesting never falls below that of the bracket. -/
theorem IsPartner.countsTo {c : Nat} (h : IsPartner bytes opening c) (mode : Overflow) :
    CountsTo mode bytes (opening + 1) c 0 ∧
      ∀ e, opening < e → e ≤ c → ∃ n, CountsTo mode bytes (opening + 1) e n := by
  obtain ⟨a, b, body, b', r, rfl, rfl, rfl, hclosing, hbody⟩ := h.exists_append
  have hlength : (a ++ b :: (body ++ b' :: r)).length = a.length + 1 + body.length + 1 + r.length := by
    simp only [List.length_append, List.length_cons]
    omega
  constructor
  · refine ConnectorCatalog.countsTo mode (by omega) (by omega) ?_
    rw [byteRange_behind_cons, List.take_left]
    exact nesting_of_wellNested hbody
  · intro e he hec
    obtain ⟨k, rfl⟩ := Nat.exists_eq_add_of_le (Nat.succ_le_of_lt he)
    have hk : k ≤ body.length := by omega
    have hrange : byteRange (a ++ b :: (body ++ b' :: r)) (a.length + 1) (a.length + 1 + k)
        = body.take k := by
      rw [byteRange_behind_cons, List.take_append_of_le_length hk]
    have hnonneg : 0 ≤ nesting byteView (body.take k) :=
      nesting_nonneg (b := body.drop k) (by rwa [List.take_append_drop])
    obtain ⟨n, hn⟩ := Int.eq_ofNat_of_zero_le hnonneg
    exact ⟨n, ConnectorCatalog.countsTo mode (by omega) (by omega) (hrange ▸ hn)⟩

end Offsets

end ConnectorCatalog
