import ConnectorCatalog.Offset.Mask
import ConnectorCatalog.Proofs.Bytes
import ConnectorCatalog.Proofs.Scan
import Mathlib.Tactic.SplitIfs

/-!
# Masking byte by byte

The scanner that goes byte by byte shows the same as the one that goes character by character
(`maskBytes_eq`), although its escapes may end inside a character: the bytes that are left of such a
character are blanked one at a time, as the string goes on.
-/

namespace ConnectorCatalog

open Offset

/-- The context of the scanner by characters that a region stands for. -/
def Offset.Region.context : Region → Context
  | .code => .code
  | .lineComment => .lineComment
  | .documentation => .documentation
  | .string => .string
  | .template => .template

section Steps

variable {pre s out : List UInt8} {b : UInt8} {region : Region} {f : Bool}

theorem maskFrom_nil : maskFrom pre pre.length region f = .ok [] := by
  rw [maskFrom, if_neg (Nat.lt_irrefl _)]
  rfl

theorem maskFrom_newline (hb : byteView b = '\n')
    (h : maskFrom (pre ++ [b] ++ s) (pre ++ [b]).length region.afterNewline true = .ok out) :
    maskFrom (pre ++ b :: s) pre.length region f = .ok (b :: out) := by
  rw [List.append_assoc, List.singleton_append, List.length_append, List.length_singleton] at h
  rw [maskFrom, if_pos (by simp), elementAt_append]
  simp only [bind, Except.bind, hb, if_true, h]
  rfl

theorem escapes_append (next : UInt8) (hb : byteView b = '\\') :
    escapes (pre ++ b :: next :: s) pre.length .string b = .ok (byteView next != '\n') := by
  have h := elementAt_append (pre ++ [b]) next s
  rw [List.append_assoc, List.singleton_append, List.length_append, List.length_singleton] at h
  rw [escapes, if_pos ⟨rfl, hb, by simp⟩, h]
  rfl

theorem escapes_eq_false (h : region = .string → byteView b = '\\' →
    ∀ next, s.head? = some next → byteView next = '\n') :
    escapes (pre ++ b :: s) pre.length region b = .ok false := by
  cases s with
  | nil =>
    rw [escapes, if_neg (by simp)]
    rfl
  | cons next s =>
    by_cases hr : region = .string ∧ byteView b = '\\'
    · obtain ⟨rfl, hb⟩ := hr
      rw [escapes_append next hb, h rfl hb next rfl]
      rfl
    · rw [escapes, if_neg (fun hc => hr ⟨hc.1, hc.2.1⟩)]
      rfl

theorem maskFrom_escape {next : UInt8} (hb : byteView b = '\\') (hn : byteView next ≠ '\n')
    (h : maskFrom (pre ++ [b, next] ++ s) (pre ++ [b, next]).length .string false = .ok out) :
    maskFrom (pre ++ b :: next :: s) pre.length .string f = .ok (space :: space :: out) := by
  rw [List.append_assoc, List.length_append] at h
  simp only [List.cons_append, List.nil_append, List.length_cons, List.length_nil] at h
  rw [maskFrom, if_pos (by simp), elementAt_append]
  simp only [bind, Except.bind, hb, escapes_append next hb, bne_iff_ne.2 hn, if_true, h,
    show '\\' ≠ '\n' by decide, if_false]
  rfl

theorem maskFrom_read (hb : byteView b ≠ '\n')
    (he : region = .string → byteView b = '\\' →
      ∀ next, s.head? = some next → byteView next = '\n')
    (h : maskFrom (pre ++ [b] ++ s) (pre ++ [b]).length (region.read f b s.head?).1
      (f && isIndent b) = .ok out) :
    maskFrom (pre ++ b :: s) pre.length region f = .ok ((region.read f b s.head?).2 :: out) := by
  have hnext : (pre ++ b :: s)[pre.length + 1]? = s.head? := by
    rw [List.getElem?_append_right (Nat.le_add_right ..), Nat.add_sub_cancel_left,
      List.getElem?_cons_succ, List.head?_eq_getElem?]
  rw [List.append_assoc, List.singleton_append, List.length_append, List.length_singleton] at h
  rw [maskFrom, if_pos (by simp), elementAt_append]
  simp only [bind, Except.bind, hb, if_false, escapes_eq_false he, Bool.false_eq_true, hnext, h]
  rfl

end Steps

/-- What a region shows for a byte of a character outside ASCII. -/
def Offset.Region.showHigh (region : Region) (b : UInt8) : UInt8 :=
  if region = .code then b else space

theorem read_of_le {b : UInt8} (hb : 128 ≤ b.toNat) (region : Region) (f : Bool)
    (next? : Option UInt8) : region.read f b next? = (region, region.showHigh b) := by
  have h1 := byteView_ne_of_le hb (c := '/') rfl
  have h2 := byteView_ne_of_le hb (c := '#') rfl
  have h3 := byteView_ne_of_le hb (c := '"') rfl
  have h4 := byteView_ne_of_le hb (c := '`') rfl
  cases region <;> simp [Region.read, Region.showHigh, h1, h2, h3, h4]

theorem isIndent_of_le {b : UInt8} (hb : 128 ≤ b.toNat) : isIndent b = false := by
  have h1 := byteView_ne_of_le hb (c := ' ') rfl
  have h2 := byteView_ne_of_le hb (c := '\t') rfl
  have h3 := byteView_ne_of_le hb (c := '\r') rfl
  simp [isIndent, h1, h2, h3]

/-- Bytes of characters outside ASCII leave the scanner where it is. -/
theorem maskFrom_high {region : Region} :
    ∀ (bs : List UInt8) {pre s out : List UInt8} {f : Bool}, (∀ b ∈ bs, 128 ≤ b.toNat) →
      maskFrom (pre ++ bs ++ s) (pre ++ bs).length region (f && bs.isEmpty) = .ok out →
      maskFrom (pre ++ (bs ++ s)) pre.length region f = .ok (bs.map region.showHigh ++ out)
  | [], pre, s, out, f, _, h => by simpa using h
  | b :: bs, pre, s, out, f, hbs, h => by
    have hb := hbs b (List.mem_cons_self ..)
    have hread := read_of_le hb region f (bs ++ s).head?
    have hstep : maskFrom (pre ++ b :: (bs ++ s)) pre.length region f
        = .ok ((region.read f b (bs ++ s).head?).2 :: (bs.map region.showHigh ++ out)) := by
      refine maskFrom_read (byteView_ne_of_le hb rfl)
        (fun _ hc => absurd hc (byteView_ne_of_le hb rfl)) ?_
      rw [hread, isIndent_of_le hb, Bool.and_false]
      refine maskFrom_high bs (fun b hb => hbs b (List.mem_cons_of_mem _ hb)) ?_
      simpa using h
    rw [hread] at hstep
    exact hstep

/-- The bytes that show for some cells. -/
def shownBytes (xs : List Cell) : List UInt8 := bytesOf (masked xs)

theorem shownBytes_cons (x : Cell) (xs : List Cell) :
    shownBytes (x :: xs) = bytesOf x.masked ++ shownBytes xs := by
  simp [shownBytes, masked]

theorem bytesOf_replicate_space (n : Nat) :
    bytesOf (List.replicate n ' ') = List.replicate n space := by
  induction n with
  | zero => rfl
  | succ n ih => rw [List.replicate_succ, List.replicate_succ, ← ih]; rfl

theorem bytesOf_masked_of_not_isCode (c : Char) :
    bytesOf (Cell.masked ⟨c, false⟩) = List.replicate c.utf8Size space := by
  rw [Cell.masked, if_neg Bool.false_ne_true, bytesOf_replicate_space]

theorem bytesOf_masked_of_isCode (c : Char) :
    bytesOf (Cell.masked ⟨c, true⟩) = String.utf8EncodeChar c := by
  simp [Cell.masked, bytesOf]

/-- The first byte after some characters shows what the first of them is, if that is ASCII. -/
theorem head?_bytesOf_eq_some {t : List Char} {d : Char} (hd : isAscii d = true) :
    (bytesOf t).head?.map byteView = some d ↔ t.head? = some d := by
  cases t with
  | nil => simp
  | cons c t =>
    obtain ⟨b, bs, hbs⟩ := List.exists_cons_of_ne_nil (String.utf8EncodeChar_ne_nil (c := c))
    rw [bytesOf, List.flatMap_cons, hbs]
    simp only [List.cons_append, List.head?_cons, Option.map_some, Option.some.injEq]
    cases hc : isAscii c with
    | true =>
      obtain ⟨b', hb', hv⟩ := bytes_of_ascii hc
      rw [hbs] at hb'
      cases hb'
      rw [hv]
    | false =>
      have hb := le_of_mem_bytes hc (b := b) (by rw [hbs]; exact List.mem_cons_self ..)
      constructor
      · intro h
        exact absurd h (byteView_ne_of_le hb hd)
      · rintro rfl
        rw [hc] at hd
        cases hd

/-- On an ASCII character both scanners do the same, an escape apart. -/
theorem read_of_ascii {b : UInt8} (hb : isAscii (byteView b) = true) {region : Region} {f : Bool}
    {next? : Option UInt8} {slashNext : Bool}
    (hn : next?.map byteView = some '/' ↔ slashNext = true)
    (he : ¬ (region = .string ∧ byteView b = '\\')) :
    (Scan.read ⟨region.context, f⟩ (byteView b) slashNext).1 = (region.read f b next?).1.context ∧
      bytesOf (Cell.masked ⟨byteView b, (Scan.read ⟨region.context, f⟩ (byteView b) slashNext).2⟩)
        = [(region.read f b next?).2] := by
  have hsize : (byteView b).utf8Size = 1 := by simpa [isAscii] using hb
  have hcode : bytesOf (Cell.masked ⟨byteView b, true⟩) = [b] := by
    obtain ⟨d, hd, hv⟩ := bytes_of_ascii hb
    rw [bytesOf_masked_of_isCode, hd, byteView_inj hv]
  have hspace : bytesOf (Cell.masked ⟨byteView b, false⟩) = [space] := by
    rw [bytesOf_masked_of_not_isCode, hsize]
    rfl
  cases region with
  | code =>
    simp only [Region.context, Scan.read, Region.read, ← hn]
    split_ifs <;> exact ⟨rfl, by assumption⟩
  | lineComment => exact ⟨rfl, hspace⟩
  | documentation => exact ⟨rfl, hspace⟩
  | string =>
    have hne : byteView b ≠ '\\' := fun h => he ⟨rfl, h⟩
    simp only [Region.context, Scan.read, Region.read, hne, if_false]
    split_ifs <;> exact ⟨rfl, by assumption⟩
  | template =>
    simp only [Region.context, Scan.read, Region.read]
    split_ifs <;> exact ⟨rfl, by assumption⟩

/-- A character outside ASCII leaves the scanner by characters where it is. -/
theorem read_of_not_ascii {c : Char} (hc : isAscii c = false) (region : Region) (f slashNext : Bool) :
    Scan.read ⟨region.context, f⟩ c slashNext = (region.context, decide (region = .code)) := by
  have hne : ∀ d, isAscii d = true → c ≠ d := by
    rintro d hd rfl
    rw [hd] at hc
    cases hc
  have h1 := hne '/' rfl
  have h2 := hne '#' rfl
  have h3 := hne '"' rfl
  have h4 := hne '`' rfl
  have h5 := hne '\\' rfl
  cases region <;> simp [Region.context, Scan.read, h1, h2, h3, h4, h5]

/-- All bytes of a character but the first are at least 128. -/
theorem le_of_mem_tail {c : Char} {d : UInt8} {ds : List UInt8}
    (h : String.utf8EncodeChar c = d :: ds) : ∀ b ∈ ds, 128 ≤ b.toNat := by
  intro b hb
  cases hc : isAscii c with
  | true =>
    obtain ⟨b', hb', -⟩ := bytes_of_ascii hc
    rw [hb'] at h
    cases h
    cases hb
  | false => exact le_of_mem_bytes hc (by rw [h]; exact List.mem_cons_of_mem _ hb)

/-- The first byte shows an ASCII character only if that is the character. -/
theorem byteView_ne_of_ne {c e : Char} (he : isAscii e = true) (hne : c ≠ e) {d : UInt8}
    {ds : List UInt8} (h : String.utf8EncodeChar c = d :: ds) : byteView d ≠ e := by
  cases hc : isAscii c with
  | true =>
    obtain ⟨b', hb', hv⟩ := bytes_of_ascii hc
    rw [hb'] at h
    cases h
    rwa [hv]
  | false => exact byteView_ne_of_le (le_of_mem_bytes hc (by rw [h]; exact List.mem_cons_self ..)) he

/-- At the end or before a line break a backslash takes nothing with it. -/
theorem cells_escaped {t : List Char} (ht : ∀ c, t.head? = some c → c = '\n') (f : Bool) :
    Scan.cells ⟨.escaped, f⟩ t = Scan.cells ⟨.string, f⟩ t := by
  cases t with
  | nil => rfl
  | cons c t =>
    obtain rfl := ht c rfl
    rfl

/-- The two bytes of an escape and the rest of the escaped character show as spaces. -/
theorem shownBytes_escape {c : Char} (hc : c ≠ '\n') (f : Bool) (t : List Char) {d : UInt8}
    {ds : List UInt8} (h : String.utf8EncodeChar c = d :: ds) :
    shownBytes (Scan.cells ⟨.string, f⟩ ('\\' :: c :: t)) = space :: space ::
      (ds.map (Region.showHigh .string) ++ shownBytes (Scan.cells ⟨.string, false⟩ t)) := by
  have hsize : c.utf8Size = ds.length + 1 := by
    rw [← String.length_utf8EncodeChar, h, List.length_cons]
  have hstep : ∀ b, Scan.step ⟨.string, f⟩ '\\' b = (⟨.escaped, false⟩, ⟨'\\', false⟩) := by
    intro b
    simp [Scan.step, Scan.read]
  have hstep' : ∀ b, Scan.step ⟨.escaped, false⟩ c b = (⟨.string, false⟩, ⟨c, false⟩) := by
    intro b
    rw [Scan.step_of_ne_newline hc, Bool.false_and]
    rfl
  have hds : ds.map (Region.showHigh .string) = List.replicate ds.length space := by
    rw [← List.map_const]
    rfl
  rw [Scan.cells_cons, hstep, Scan.cells_cons, hstep', shownBytes_cons, shownBytes_cons,
    bytesOf_masked_of_not_isCode, bytesOf_masked_of_not_isCode, hsize, hds]
  rfl

/-- From region `region` on, the scanner shows of `t` byte by byte what it shows character by
character, wherever `t` stands. -/
def ShownAlike (region : Region) (f : Bool) (t : List Char) : Prop :=
  ∀ pre : List UInt8, maskFrom (pre ++ bytesOf t) pre.length region f
    = .ok (shownBytes (Scan.cells ⟨region.context, f⟩ t))

theorem shownAlike_nil (region : Region) (f : Bool) : ShownAlike region f [] := by
  intro pre
  rw [bytesOf_nil, List.append_nil]
  exact maskFrom_nil

theorem shownAlike_newline {t : List Char} {region : Region} {f : Bool}
    (ih : ShownAlike region.afterNewline true t) : ShownAlike region f ('\n' :: t) := by
  intro pre
  obtain ⟨b, hb, hv⟩ := bytes_of_ascii (c := '\n') rfl
  have hcell : bytesOf (Cell.masked ⟨'\n', true⟩) = [b] := by rw [bytesOf_masked_of_isCode, hb]
  have hafter : Scan.afterNewline region.context = region.afterNewline.context := by
    cases region <;> rfl
  rw [Scan.cells_cons, Scan.step, if_pos rfl, shownBytes_cons, hcell, hafter, bytesOf,
    List.flatMap_cons, hb]
  exact maskFrom_newline hv (ih _)

theorem shownAlike_of_not_ascii {c : Char} {t : List Char} {region : Region} {f : Bool}
    (hc : isAscii c = false) (ih : ShownAlike region false t) : ShownAlike region f (c :: t) := by
  intro pre
  have hne : c ≠ '\n' := by rintro rfl; cases hc
  have hblank : (c == ' ' || c == '\t' || c == '\r') = false := by
    simp only [Bool.or_eq_false_iff, beq_eq_false_iff_ne]
    refine ⟨⟨?_, ?_⟩, ?_⟩ <;> rintro rfl <;> cases hc
  have hshow : bytesOf (Cell.masked ⟨c, decide (region = .code)⟩)
      = (String.utf8EncodeChar c).map region.showHigh := by
    by_cases hr : region = .code
    · have hid : region.showHigh = id := by funext b; simp [Region.showHigh, hr]
      rw [decide_eq_true hr, bytesOf_masked_of_isCode, hid, List.map_id]
    · have hconst : region.showHigh = fun _ => space := by funext b; simp [Region.showHigh, hr]
      rw [decide_eq_false hr, bytesOf_masked_of_not_isCode, hconst, List.map_const',
        String.length_utf8EncodeChar]
  have hemp : (String.utf8EncodeChar c).isEmpty = false := by simp
  rw [Scan.cells_cons, Scan.step_of_ne_newline hne, read_of_not_ascii hc, hblank, shownBytes_cons,
    hshow, Bool.and_false, bytesOf, List.flatMap_cons]
  refine maskFrom_high _ (fun b hb => le_of_mem_bytes hc hb) ?_
  rw [hemp, Bool.and_false]
  exact ih _

/-- An ASCII character other than a line break or a backslash in a string. -/
theorem shownAlike_of_ascii {c : Char} {t : List Char} {region : Region} {f : Bool}
    (hc : isAscii c = true) (hn : c ≠ '\n') (he : ¬ (region = .string ∧ c = '\\'))
    (ih : ∀ region f, ShownAlike region f t) : ShownAlike region f (c :: t) := by
  intro pre
  obtain ⟨b, hb, rfl⟩ := bytes_of_ascii hc
  have hslash : (bytesOf t).head?.map byteView = some '/' ↔ (t.head? == some '/') = true := by
    rw [head?_bytesOf_eq_some rfl, beq_iff_eq]
  obtain ⟨hctx, hcell⟩ := read_of_ascii (f := f) hc hslash he
  rw [Scan.cells_cons, Scan.step_of_ne_newline hn, shownBytes_cons, hcell, hctx, bytesOf,
    List.flatMap_cons, hb]
  exact maskFrom_read hn (fun hr hbs => absurd ⟨hr, hbs⟩ he) (ih _ _ _)

/-- A backslash in a string, with or without a character to take with it. -/
theorem shownAlike_backslash {t : List Char} {f : Bool} (ih : ShownAlike .string false t)
    (ih' : ∀ c r, t = c :: r → ShownAlike .string false r) :
    ShownAlike .string f ('\\' :: t) := by
  intro pre
  obtain ⟨b, hb, hv⟩ := bytes_of_ascii (c := '\\') rfl
  have hbytes : bytesOf ('\\' :: t) = b :: bytesOf t := by rw [bytesOf, List.flatMap_cons, hb]; rfl
  have hbn : byteView b ≠ '\n' := by rw [hv]; decide
  rw [hbytes]
  -- before a line break or the end nothing is escaped, and by characters `escaped` goes on as `string`
  by_cases ht : ∀ c, t.head? = some c → c = '\n'
  · have hnext : ∀ next, (bytesOf t).head? = some next → byteView next = '\n' := by
      intro next h
      cases t with
      | nil => cases h
      | cons d t =>
        obtain rfl := ht d rfl
        cases h
        rfl
    have hread : Region.read .string f b (bytesOf t).head? = (.string, space) := by
      simp [Region.read, hv]
    have hindent : (f && isIndent b) = false := by simp [isIndent, hv]
    have h : maskFrom (pre ++ b :: bytesOf t) pre.length .string f
        = .ok ((Region.read .string f b (bytesOf t).head?).2
          :: shownBytes (Scan.cells ⟨.string, false⟩ t)) := by
      refine maskFrom_read hbn (fun _ _ => hnext) ?_
      rw [hread, hindent]
      exact ih _
    have hstep : ∀ s, Scan.step ⟨.string, f⟩ '\\' s = (⟨.escaped, false⟩, ⟨'\\', false⟩) := by
      intro s
      simp [Scan.step, Scan.read]
    rw [h, hread, Region.context, Scan.cells_cons, hstep, cells_escaped ht, shownBytes_cons,
      bytesOf_masked_of_not_isCode]
    rfl
  · cases t with
    | nil => exact absurd (by simp) ht
    | cons c r =>
      have hc : c ≠ '\n' := by
        rintro rfl
        exact ht (by simp)
      obtain ⟨d, ds, hd⟩ := List.exists_cons_of_ne_nil (String.utf8EncodeChar_ne_nil (c := c))
      rw [Region.context, shownBytes_escape hc f r hd, bytesOf, List.flatMap_cons, hd]
      refine maskFrom_escape hv (byteView_ne_of_ne rfl hc hd) ?_
      -- the escape took one byte of `c`, the others are blanked as part of the string
      refine maskFrom_high ds (le_of_mem_tail hd) ?_
      rw [Bool.false_and]
      exact ih' c r rfl _

/-- Byte by byte, the scanner shows what it shows character by character. -/
theorem shownAlike : ∀ (t : List Char) (region : Region) (f : Bool), ShownAlike region f t
  | [], region, f => shownAlike_nil region f
  | c :: t, region, f => by
    have ih := shownAlike t
    cases hc : isAscii c with
    | false => exact shownAlike_of_not_ascii hc (ih region false)
    | true =>
      by_cases hn : c = '\n'
      · subst hn
        exact shownAlike_newline (ih _ _)
      by_cases he : region = .string ∧ c = '\\'
      · obtain ⟨rfl, rfl⟩ := he
        refine shownAlike_backslash (ih _ _) ?_
        rintro d r rfl
        exact shownAlike r .string false
      · exact shownAlike_of_ascii hc hn he ih

/-- The masked bytes of a text are the bytes of its masked cells. -/
theorem maskBytes_eq (t : List Char) : maskBytes (bytesOf t) = .ok (bytesOf (masked (cells t))) :=
  shownAlike t .code true []

end ConnectorCatalog
