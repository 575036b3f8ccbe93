import ConnectorCatalog.Offset.Extract
import ConnectorCatalog.Proofs.Offset.Leading
import ConnectorCatalog.Proofs.Offset.Parameter
import ConnectorCatalog.Proofs.Offset.ReturnType

/-!
# Extraction by offset never goes wrong

Headers found in a masked text begin and end between two cells, and so does all that is looked up
from there. Hence every slice and index is in range and at the edge of a character, and no count falls
below zero. Nothing can go wrong but a count of nesting that does not fit 32 bits, where that is a
fault and a document has two to the power 31 bytes or more; without such documents the connectors are
those read from the cells (`connectors_safe`).
-/

namespace ConnectorCatalog

theorem cutAround_eq_some {phrase t a b : List Char} (h : cutAround phrase t = some (a, b)) :
    t = a ++ phrase ++ b := by
  induction t generalizing a b with
  | nil =>
    rw [cutAround] at h
    split_ifs at h with hp
    cases h
    rw [List.isEmpty_iff.1 hp]
    rfl
  | cons c t ih =>
    rw [cutAround] at h
    split at h
    · rename_i rest hrest
      cases h
      exact (List.append_eq_of_isPrefixOf?_eq_some hrest).symm
    · obtain ⟨⟨u, v⟩, hu, hp⟩ := Option.map_eq_some_iff.1 h
      cases hp
      rw [ih hu]
      rfl

namespace Offset

theorem displayAnnotation_eq (annotations : List Char) :
    displayAnnotation annotations = (.ok <| DisplayAnnotation.ofAnnotations? annotations) := by
  unfold displayAnnotation DisplayAnnotation.ofAnnotations? findPhrase?
  cases h : cutAround "@display".toList annotations with
  | none => rfl
  | some q =>
    obtain ⟨a, b⟩ := q
    have hbody := slice_append a ("@display".toList ++ b) []
    rw [List.append_nil, ← List.append_assoc, ← cutAround_eq_some h] at hbody
    have hkeep : ∀ c ∈ "@display".toList, (c != '\x7d') = true :=
      List.all_eq_true.1 (by decide)
    have hphrase : ("@display".toList ++ b).takeWhile (· != '\x7d')
        = "@display".toList ++ b.takeWhile (· != '\x7d') := List.takeWhile_append_of_pos hkeep
    simp only [Option.map_some, ← hphrase, bind, Except.bind, hbody, findChar?]
    cases hc : cutAtFirst (· == '\x7d') ("@display".toList ++ b) with
    | none =>
      have hall : ("@display".toList ++ b).takeWhile (· != '\x7d') = "@display".toList ++ b := by
        rw [List.takeWhile_eq_self_iff]
        exact fun c hmem => congrArg not (cutAtFirst_eq_none hc c hmem)
      rw [hall]
      rfl
    | some r =>
      obtain ⟨u, v⟩ := r
      obtain ⟨e, he, hsplit, hu⟩ := cutAtFirst_eq_some hc
      have htake : ("@display".toList ++ b).takeWhile (· != '\x7d') = u := by
        have hkept : ∀ c ∈ u, (c != '\x7d') = true := fun c hmem => congrArg not (hu c hmem)
        rw [hsplit, List.takeWhile_append_of_pos hkept, List.takeWhile_cons,
          if_neg (by simpa using he), List.append_nil]
      have hslice := slice_append [] u (e :: v)
      rw [List.nil_append, byteLength_nil, ← hsplit] at hslice
      simp only [Option.map_some, hslice, htake]
      rfl

/-- Where the header `o.header` begins and where its bracket ends. -/
def Found.ofOccurrence {η : Type} (s : List Cell) (o : Occurrence η) : Found η :=
  ⟨o.header, width o.before, width s - width o.rest + 1⟩

theorem headersIn_masked {η : Type} {read? : List Cell → Option (η × List Cell)} {s : List Cell}
    (hflat : occurrences read? (flat s) = (occurrences read? s).map Occurrence.flat) :
    headersIn read? (masked s) = (occurrences read? s).map (Found.ofOccurrence s) := by
  have hwidth : ∀ s : List Cell, byteLength (chars (flat s)) = width s := by
    intro s
    rw [flat_eq_plain, chars_plain, byteLength_masked]
  rw [headersIn, ← plain, ← flat_eq_plain, hflat, List.map_map]
  refine List.map_congr_left fun o _ => ?_
  simp only [Function.comp_apply, Occurrence.flat, Found.ofOccurrence, hwidth, byteLength_masked]

section Runs

variable {mode : Overflow} {small : Prop}

/-- Each header in the masked text stands for one in the cells. -/
theorem runs_headersIn {η γ : Type} {read? : List Cell → Option (η × List Cell)} {s : List Cell}
    (hflat : occurrences read? (flat s) = (occurrences read? s).map Occurrence.flat)
    {f : Found η → Except Fault γ} {g : Occurrence η → γ}
    (h : ∀ o ∈ occurrences read? s,
      Runs mode small (fun found => small → found = g o) (f (Found.ofOccurrence s o))) :
    Runs mode small (fun found => small → found = (occurrences read? s).map g)
      ((headersIn read? (masked s)).mapM f) := by
  rw [headersIn_masked hflat]
  refine Runs.mapM (R := fun found o => found = Found.ofOccurrence s o ∧
    o ∈ occurrences read? s) ?_ ?_
  · rw [List.forall₂_map_left_iff, List.forall₂_same]
    exact fun o ho => ⟨rfl, ho⟩
  · rintro _ o ⟨rfl, ho⟩
    exact h o ho

/-- A header ends one byte behind the cells before its bracket. -/
theorem stop_ofOccurrence {η : Type} {s p r : List Cell} {o : Occurrence η}
    (hs : s = o.before ++ (p ++ r)) (hrest : o.rest = r) :
    (Found.ofOccurrence s o).stop = width (o.before ++ p) + 1 := by
  rw [Found.ofOccurrence, hrest, hs]
  simp only [width_append]
  omega

/-- A header is left out because of its nesting exactly where the cells say so. -/
theorem skipped_iff {depth : Int32} {n : Int} {taken : Bool} (h : depth.toInt = n) :
    (depth ≠ 0 ∨ (!taken) = true) ↔ ¬ (n = 0 ∧ taken = true) := by
  have hzero : depth = 0 ↔ n = 0 := by rw [← h, ← Int32.toInt_inj, Int32.toInt_zero]
  rw [ne_eq, hzero]
  cases taken <;> simp

/-- The parameters and the return type of a function, the list of which stands between `b` and `x`. -/
theorem runs_signature {document passed list after rest : List Cell} {b x : Cell}
    (hsmall : small → width document < countLimit) (hpair : closing? b.shown = some x.shown)
    (hdocument : document = passed ++ b :: (list ++ x :: after) ++ rest) :
    (∀ docs, Runs mode small (fun found => small → found = parametersOf docs list)
        (parametersAt mode docs (chars document) (masked document) (width passed + 1)
          (width (passed ++ b :: list)))) ∧
      Runs mode small (fun found => small → found = returnTypeOf after)
        (returnTypeAt mode (chars document) (masked document) (width (passed ++ b :: list) + 1)
          (width (passed ++ b :: (list ++ x :: after)))) := by
  obtain ⟨hb, hx⟩ := closing?_eq_some hpair
  have hlist : width passed + 1 = width (passed ++ [b]) := by
    rw [width_append, width_cons, (utf8Size_of_shown hb).2, width_nil]
  have hafter : width (passed ++ b :: list) + 1 = width (passed ++ b :: list ++ [x]) := by
    rw [width_append _ [x], width_cons, (utf8Size_of_shown hx).2, width_nil]
  constructor
  · intro docs
    have hrange : IsRange document (width (passed ++ [b]), width (passed ++ [b] ++ list)) list :=
      ⟨passed ++ [b], x :: after ++ rest, by rw [hdocument]; simp, rfl⟩
    have h : Runs mode small _ (parametersAt mode docs _ _ _ _) := runs_parametersAt docs hsmall hrange
    rw [← hlist, List.append_assoc passed, List.singleton_append] at h
    exact h
  · have hsplit : passed ++ b :: (list ++ x :: after) = passed ++ b :: list ++ [x] ++ after := by
      simp
    rw [hsplit] at hdocument ⊢
    rw [hafter]
    exact runs_returnTypeAt hsmall hdocument

/-- The function found in a class body, which stands between `lead` and `rest`. -/
theorem runs_functionAt {document lead body rest : List Cell}
    (hsmall : small → width document < countLimit) (hsplit : document = lead ++ body ++ rest)
    (hnewline : ∀ x ∈ document, x.char = '\n' → x.isCode = true)
    {o : Occurrence MethodHeader} (ho : o ∈ occurrences MethodHeader.read? body) :
    Runs mode small (fun found => small → found = ConnectorFunction.ofOccurrence? lead o)
      (functionAt mode (chars document) (masked document) (width lead) (width (lead ++ body))
        (Found.ofOccurrence body o)) := by
  obtain ⟨p, b, r, hbody, hrest, hb⟩ := split_of_mem_occurrences MethodHeader.headerReader ho
  have hstart : width lead + (Found.ofOccurrence body o).start = width (lead ++ o.before) :=
    (width_append ..).symm
  have hdocument : document = lead ++ o.before ++ (p ++ b :: r ++ rest) := by
    rw [hsplit, hbody]
    simp
  have hupto : lead ++ body = lead ++ o.before ++ p ++ b :: r := by
    rw [hbody]
    simp
  have hopening : predecessor (width lead + (Found.ofOccurrence body o).stop)
      = .ok (width (lead ++ o.before ++ p)) := by
    rw [stop_ofOccurrence hbody hrest, ← Nat.add_assoc, ← width_append, ← List.append_assoc]
    rfl
  rw [functionAt, ConnectorFunction.ofOccurrence?, hstart]
  refine (runs_nestingDepth hsmall hdocument).bind fun depth hdepth => ?_
  by_cases hskip : depth ≠ 0 ∨ (!(Found.ofOccurrence body o).header.isCallable) = true
  · rw [if_pos hskip]
    exact fun hs => (if_neg ((skipped_iff (hdepth hs)).1 hskip)).symm
  · rw [if_neg hskip, hopening]
    obtain ⟨found, hfound, hfilter⟩ :=
      matchingClose_filter (lead ++ o.before ++ p) rest (List.cons_ne_nil b r)
    rw [← hupto, ← hsplit, shownBytes] at hfound
    rw [← hupto] at hfilter
    have htaken : small → (nesting Cell.shown o.before = 0 ∧ o.header.isCallable = true) := fun hs =>
      not_not.1 ((skipped_iff (hdepth hs)).not.1 hskip)
    simp only [bind, Except.bind, hfound]
    obtain ⟨hclose, henclosed⟩ | ⟨b', list, x, after, hs, hpair, hclose, henclosed⟩ :=
      enclosed?_cases Cell.shown (b :: r)
    · rw [hclose, Option.map_none] at hfilter
      rw [hfilter]
      exact fun hs => by rw [if_pos (htaken hs), hrest, henclosed, Option.map_none]
    · cases hs
      rw [hclose, Option.map_some, List.take_succ_cons, List.take_left] at hfilter
      have hleading : Runs mode small _ (leadingMetadata mode _ _ _) :=
        runs_leadingMetadata (hdocument ▸ hsmall)
          fun y hy => hnewline y (hdocument ▸ List.mem_append_left _ hy)
      rw [← hdocument] at hleading
      obtain ⟨hparameters, hreturn⟩ :=
        runs_signature hsmall hpair (hsplit.trans (congrArg (· ++ rest) hupto))
      rw [← hupto] at hreturn
      rw [hfilter]
      refine hleading.bind fun leading hleading => (hparameters _).bind fun parameters hparameters =>
        hreturn.bind fun type htype hs => ?_
      rw [if_pos (htaken hs), hrest, henclosed, Option.map_some, hparameters hs, htype hs, hleading hs]
      rfl

/-- The functions in the class body between the bracket `b` and its partner. -/
theorem runs_functionsAt {document lead body rest : List Cell} {b : Cell}
    (hsmall : small → width document < countLimit) (hsplit : document = lead ++ [b] ++ body ++ rest)
    (hb : isAscii b.shown = true ∧ b.shown ≠ ' ')
    (hnewline : ∀ x ∈ document, x.char = '\n' → x.isCode = true) :
    Runs mode small (fun found => small → found = functionsOf (lead ++ [b]) body)
      (functionsAt mode (chars document) (masked document) (width lead)
        (width (lead ++ [b] ++ body))) := by
  have hopening : width lead + 1 = width (lead ++ [b]) := by
    rw [width_append, width_cons, (utf8Size_of_shown hb).2, width_nil]
  have hslice := slice_masked (lead ++ [b]) body rest
  rw [← hsplit] at hslice
  rw [functionsAt, hopening, hslice]
  refine (runs_headersIn (methods_flat body) fun o ho =>
    runs_functionAt hsmall hsplit hnewline ho).bind fun found hfound hs => ?_
  rw [hfound hs, List.filterMap_map]
  rfl

variable (package : PackageName) (moduleName : String) (detail : Detail)

/-- The connector found in a document. -/
theorem runs_connectorAt {document : List Cell} (hsmall : small → width document < countLimit)
    (hnewline : ∀ x ∈ document, x.char = '\n' → x.isCode = true)
    {o : Occurrence ClassHeader} (ho : o ∈ occurrences ClassHeader.read? document) :
    Runs mode small
      (fun found => small → found = Connector.ofOccurrence? package moduleName detail document o)
      (connectorAt mode package moduleName detail (chars document) (masked document)
        (Found.ofOccurrence document o)) := by
  obtain ⟨p, b, r, hdocument, hrest, hb⟩ := split_of_mem_occurrences ClassHeader.headerReader ho
  have hopening : predecessor (Found.ofOccurrence document o).stop
      = .ok (width (o.before ++ p)) := by
    rw [stop_ofOccurrence hdocument hrest]
    rfl
  rw [connectorAt, Connector.ofOccurrence?]
  have hdepth : Runs mode small _ (nestingDepth mode (shownBytes document) 0 (width o.before)) :=
    runs_nestingDepth (a := []) hsmall hdocument
  refine hdepth.bind fun depth hdepth => ?_
  by_cases hskip : depth ≠ 0 ∨ (!(Found.ofOccurrence document o).header.isConnector) = true
  · rw [if_pos hskip]
    exact fun hs => (if_neg ((skipped_iff (hdepth hs)).1 hskip)).symm
  · rw [if_neg hskip, hopening]
    have hclose := matchingClose_shownBytes (o.before ++ p) (b :: r)
    rw [List.append_assoc, ← hdocument, shownBytes] at hclose
    have htaken : small → (nesting Cell.shown o.before = 0 ∧ o.header.isConnector = true) := fun hs =>
      not_not.1 ((skipped_iff (hdepth hs)).not.1 hskip)
    simp only [bind, Except.bind, hclose]
    obtain ⟨hnone, henclosed⟩ | ⟨b', body, x, after, hs, hpair, hindex, henclosed⟩ :=
      enclosed?_cases Cell.shown (b :: r)
    · rw [hnone, Option.map_none]
      exact fun hs => by rw [if_pos (htaken hs), hrest, henclosed, Option.map_none]
    · cases hs
      have hleading : Runs mode small _ (leadingMetadata mode _ _ _) :=
        runs_leadingMetadata (hdocument ▸ hsmall)
          fun y hy => hnewline y (hdocument ▸ List.mem_append_left _ hy)
      rw [← hdocument] at hleading
      have hsplit : document = o.before ++ p ++ [b] ++ body ++ x :: after := by
        rw [hdocument]
        simp
      have hlead : document.take (document.length - (b :: (body ++ x :: after)).length + 1)
          = o.before ++ p ++ [b] := by
        have hlen : document.length - (b :: (body ++ x :: after)).length + 1
            = (o.before ++ p ++ [b]).length := by
          rw [hdocument]
          simp only [List.length_append, List.length_cons, List.length_nil]
          omega
        rw [hlen, hsplit, List.append_assoc _ body, List.take_left]
      have hfunctions : Runs mode small _ (functionsAt mode _ _ _ _) :=
        runs_functionsAt hsmall hsplit (closing?_eq_some hpair).1 hnewline
      rw [List.append_assoc _ [b] body, List.singleton_append] at hfunctions
      rw [hindex, Option.map_some, List.take_succ_cons, List.take_left]
      refine hleading.bind fun leading hleading => ?_
      simp only [displayAnnotation_eq]
      cases detail with
      | summary =>
        intro hs
        rw [if_pos (htaken hs), hrest, henclosed, Option.map_some, hleading hs]
        rfl
      | detailed =>
        refine hfunctions.bind fun functions hfunctions hs => ?_
        rw [if_pos (htaken hs), hrest, henclosed, Option.map_some, hlead, hleading hs, hfunctions hs]
        rfl

theorem runs_connectorsOfSource (content : String)
    (hsmall : small → byteLength content.toList < countLimit) :
    Runs mode small (fun found =>
        small → found = ConnectorCatalog.connectorsOfSource package moduleName detail content)
      (connectorsOfSource mode package moduleName detail content.toList) := by
  have hmask : mask content.toList = .ok (masked (cells content.toList)) := by
    rw [mask, maskBytes_eq]
    simp only [bind, Except.bind, textOfBytes_bytesOf]
  have hwidth : width (cells content.toList) = byteLength content.toList := by
    rw [width, chars_cells]
  have hat : ∀ o ∈ occurrences ClassHeader.read? (cells content.toList), Runs mode small
      (fun found => small → found
        = Connector.ofOccurrence? package moduleName detail (cells content.toList) o)
      (connectorAt mode package moduleName detail content.toList (masked (cells content.toList))
        (Found.ofOccurrence (cells content.toList) o)) := by
    intro o ho
    have h : Runs mode small _ (connectorAt mode _ _ _ (chars (cells content.toList)) _ _) :=
      runs_connectorAt package moduleName detail (hwidth ▸ hsmall)
        (Scan.start.newline_isCode content.toList) ho
    rwa [chars_cells] at h
  rw [connectorsOfSource, hmask]
  refine (runs_headersIn (classes_flat _) hat).bind fun found hfound hs => ?_
  rw [hfound hs, List.filterMap_map]
  rfl

theorem runs_connectors (p : Project) :
    Runs mode (∀ q ∈ p.documents, byteLength q.2.content.toList < countLimit)
      (fun found => (∀ q ∈ p.documents, byteLength q.2.content.toList < countLimit) →
        found = p.connectors detail)
      (connectors mode p detail) := by
  have hdocuments : List.Forall₂ (fun q q' => q = q' ∧ q ∈ p.documents) p.documents p.documents :=
    List.forall₂_same.2 fun q hq => ⟨rfl, hq⟩
  rw [connectors]
  refine (Runs.mapM (g := fun q => ConnectorCatalog.connectorsOfSource p.package q.1.name detail
    q.2.content) hdocuments ?_).bind fun found hfound hs => ?_
  · rintro q _ ⟨rfl, hq⟩
    exact runs_connectorsOfSource p.package q.1.name detail q.2.content fun hs => hs q hq
  · rw [hfound hs, Project.connectors, List.flatMap]

end Runs

end Offset

end ConnectorCatalog
