import ConnectorCatalog.Json.Shape
import ConnectorCatalog.Proofs.Basic
import ConnectorCatalog.Proofs.Json.Canonical

/-!
# The members of a record

Which members a record is read as: those of an object that have a field, under the names of their
fields. A record that is written member by member in the order of its fields is read as those members
(`members_of_follows`), and what is read does not change when objects are sorted
(`members_canonical`).
-/

namespace ConnectorCatalog

namespace Shape

variable {fields : List Field} {name : String}

/-- A member under the name of its field. -/
def named? (fields : List Field) (m : String × Json) : Option (String × Json) :=
  (field? fields m.1).map fun f => (f.name, m.2)

/-- Every known member has the shape of its field. -/
def Fit (fields : List Field) (ms : List (String × Json)) : Prop :=
  ∀ m ∈ ms, ∀ f, field? fields m.1 = some f → f.shape m.2 = .ok ()

theorem knownMembers_eq_ok {known : List (String × Json)} : ∀ {ms seen : List (String × Json)},
    (seen.map Prod.fst).Nodup →
    (knownMembers fields seen ms = .ok known ↔ Fit fields ms ∧
      known = seen.reverse ++ ms.filterMap (named? fields) ∧ (known.map Prod.fst).Nodup)
  | [], seen, hseen => by
    simp only [knownMembers, Fit, List.filterMap_nil, List.append_nil, Except.ok.injEq]
    constructor
    · rintro rfl
      simpa using hseen
    · exact fun h => h.2.1.symm
  | (k, x) :: ms, seen, hseen => by
    rw [knownMembers]
    cases hf : field? fields k with
    | none => simp [knownMembers_eq_ok hseen, Fit, named?, hf]
    | some f =>
      by_cases hmet : f.name ∈ seen.map Prod.fst
      · have hany : (seen.any fun m => m.1 == f.name) = true := by simpa using hmet
        simp only [hany, if_true, reduceCtorEq, false_iff, not_and]
        rintro - rfl hnodup
        -- the field is among those that were seen
        rw [List.map_append, List.nodup_append] at hnodup
        exact hnodup.2.2 f.name (by simpa using hmet) f.name (by simp [named?, hf]) rfl
      · have hany : (seen.any fun m => m.1 == f.name) = false := by
          simpa using fun k y hm hk => hmet (List.mem_map.2 ⟨(k, y), hm, hk⟩)
        have hnext : (((f.name, x) :: seen).map Prod.fst).Nodup := List.nodup_cons.2 ⟨hmet, hseen⟩
        cases hx : f.shape x with
        | error e => simp [hany, hx, bind, Except.bind, Fit, hf]
        | ok u => simp [hany, hx, bind, Except.bind, knownMembers_eq_ok hnext, Fit, named?, hf]

/-- An object is read as its known members if they fit, none comes twice and none is lacking. -/
theorem members_object {ms known : List (String × Json)} :
    members name fields (.object ms) = .ok known ↔
      Fit fields ms ∧ known = ms.filterMap (named? fields) ∧ (known.map Prod.fst).Nodup ∧
        ∀ f ∈ fields, f.presence = .required → f.name ∈ known.map Prod.fst := by
  have hknown : knownMembers fields [] ms = .ok known ↔ Fit fields ms ∧
      known = ms.filterMap (named? fields) ∧ (known.map Prod.fst).Nodup := by
    simpa using @knownMembers_eq_ok fields known ms [] List.nodup_nil
  have hmissing : ∀ ks : List (String × Json), missing? fields ks = none ↔
      ∀ f ∈ fields, f.presence = .required → f.name ∈ ks.map Prod.fst := by
    simp [missing?]
  rw [← and_assoc (b := (known.map Prod.fst).Nodup), ← and_assoc, ← hknown, ← hmissing, members,
    bind_eq_ok]
  constructor
  · rintro ⟨ks, hks, h⟩
    cases hm : missing? fields ks with
    | some f => simp [hm] at h
    | none =>
      rw [hm, Except.ok.injEq] at h
      exact h ▸ ⟨hks, hm⟩
  · rintro ⟨hks, hm⟩
    exact ⟨known, hks, by rw [hm]⟩

/-! ## Members in the order of the fields -/

/-- Members under the names of fields, in the order of these, some that need not be there left
out. -/
inductive Follows : List Field → List (String × Json) → Prop
  | nil : Follows [] []
  | given {f fs x ms} : f.shape x = .ok () → Follows fs ms → Follows (f :: fs) ((f.name, x) :: ms)
  | omitted {f fs ms} : f.presence ≠ .required → Follows fs ms → Follows (f :: fs) ms

/-- No field goes by the name of a later one. -/
def Apart (fields : List Field) : Prop :=
  fields.Pairwise fun f g => f.name ≠ g.name ∧ g.name ∉ f.aliases

theorem field?_of_apart : ∀ {fields : List Field}, Apart fields → ∀ f ∈ fields,
    field? fields f.name = some f
  | [], _, _, hf => absurd hf List.not_mem_nil
  | g :: fields, h, f, hf => by
    obtain ⟨hg, h⟩ := List.pairwise_cons.1 h
    rcases List.mem_cons.1 hf with rfl | hf
    · simp [field?]
    · have hgf := hg f hf
      simpa [field?, hgf.1, hgf.2] using field?_of_apart h f hf

namespace Follows

variable {f : Field} {fs : List Field} {ms : List (String × Json)}

theorem exists_field (h : Follows fs ms) :
    ∀ m ∈ ms, ∃ f ∈ fs, f.name = m.1 ∧ f.shape m.2 = .ok () := by
  induction h with
  | nil => simp
  | given hx _ ih =>
    intro m hm
    rcases List.mem_cons.1 hm with rfl | hm
    · exact ⟨_, List.mem_cons_self .., rfl, hx⟩
    · obtain ⟨g, hg, hgm⟩ := ih m hm
      exact ⟨g, List.mem_cons_of_mem _ hg, hgm⟩
  | omitted _ _ ih =>
    intro m hm
    obtain ⟨g, hg, hgm⟩ := ih m hm
    exact ⟨g, List.mem_cons_of_mem _ hg, hgm⟩

theorem sublist (h : Follows fs ms) : (ms.map Prod.fst).Sublist (fs.map Field.name) := by
  induction h with
  | nil => exact .slnil
  | given _ _ ih => exact ih.cons_cons _
  | omitted _ _ ih => exact ih.cons _

theorem mem_of_required (h : Follows fs ms) :
    ∀ f ∈ fs, f.presence = .required → f.name ∈ ms.map Prod.fst := by
  induction h with
  | nil => simp
  | given _ _ ih =>
    intro g hg hreq
    rcases List.mem_cons.1 hg with rfl | hg
    · simp
    · exact List.mem_cons_of_mem _ (ih g hg hreq)
  | omitted hf _ ih =>
    intro g hg hreq
    rcases List.mem_cons.1 hg with rfl | hg
    · exact absurd hreq hf
    · exact ih g hg hreq

end Follows

/-- What is written in the order of the fields is read as it is written. -/
theorem members_of_follows {ms : List (String × Json)} (hfields : Apart fields)
    (h : Follows fields ms) : members name fields (.object ms) = .ok ms := by
  have hnamed : ∀ m ∈ ms, named? fields m = some m := by
    intro m hm
    obtain ⟨f, hf, hname, -⟩ := h.exists_field m hm
    rw [named?, ← hname, field?_of_apart hfields f hf, Option.map_some, hname]
  refine members_object.2 ⟨?_, ?_, ?_, h.mem_of_required⟩
  · intro m hm g hg
    obtain ⟨f, hf, hname, hshape⟩ := h.exists_field m hm
    rw [← hname, field?_of_apart hfields f hf, Option.some_inj] at hg
    rwa [← hg]
  · rw [List.filterMap_congr hnamed, List.filterMap_some]
  · exact h.sublist.nodup (List.pairwise_map.2 (hfields.imp And.left))

theorem record_of_follows {ms : List (String × Json)} (hfields : Apart fields)
    (h : Follows fields ms) : record name fields (.object ms) = .ok () := by
  rw [record, members_of_follows hfields h]
  rfl

/-! ## Sorted objects -/

/-- The canonical form of a value that has the shape has it too. -/
def Stable (s : Shape) : Prop := ∀ j, s j = .ok () → s j.canonical = .ok ()

theorem stable_any : Stable any := fun _ _ => rfl

theorem stable_string : Stable string
  | .string _, _ => rfl

theorem stable_bool : Stable bool
  | .bool _, _ => rfl

theorem Stable.nullable {s : Shape} (hs : Stable s) : Stable (nullable s)
  | .null, _ => rfl
  | .bool b, h => hs (.bool b) h
  | .number n, h => hs (.number n) h
  | .string t, h => hs (.string t) h
  | .array xs, h => hs (.array xs) h
  | .object ms, h => hs (.object ms) h

theorem elements_canonical {s : Shape} (hs : Stable s) :
    ∀ {xs : List Json}, elements s xs = .ok () → elements s (xs.map Json.canonical) = .ok ()
  | [], _ => rfl
  | x :: xs, h => by
    rw [elements, bind_eq_ok] at h
    obtain ⟨u, hx, hxs⟩ := h
    rw [List.map_cons, elements, hs x hx]
    exact elements_canonical hs hxs

theorem Stable.list {s : Shape} (hs : Stable s) : Stable (list s)
  | .array xs, h => by
    rw [Json.canonical, Json.canonicalElements_eq]
    exact elements_canonical hs h

theorem fieldsInOrder_canonical {expected : String} :
    ∀ {fs : List Field} {n : Nat} {xs : List Json} {ms : List (String × Json)},
      (∀ f ∈ fs, Stable f.shape) → fieldsInOrder expected n fs xs = .ok ms →
      fieldsInOrder expected n fs (xs.map Json.canonical)
        = .ok (ms.map fun m => (m.1, m.2.canonical))
  | [], _, [], ms, _, h => by
    rw [fieldsInOrder, Except.ok.injEq] at h
    rw [← h]
    rfl
  | [], _, _ :: _, _, _, h => by simp [fieldsInOrder] at h
  | f :: fs, n, [], ms, hs, h => by
    rw [fieldsInOrder] at h
    split_ifs at h with hf
    rw [List.map_nil, fieldsInOrder, if_pos hf]
    simpa using fieldsInOrder_canonical (fun g hg => hs g (List.mem_cons_of_mem _ hg)) h
  | f :: fs, n, x :: xs, ms, hs, h => by
    simp only [fieldsInOrder, bind_eq_ok, Except.ok.injEq] at h
    obtain ⟨u, hx, rest, hrest, rfl⟩ := h
    have hrest' := fieldsInOrder_canonical (fun g hg => hs g (List.mem_cons_of_mem _ hg)) hrest
    have hx' : f.shape x.canonical = .ok () := hs f (List.mem_cons_self ..) x hx
    rw [List.map_cons, fieldsInOrder, hx', hrest']
    rfl

/-- Sorting permutes the known members, if no field comes twice. -/
theorem known_sortMembers_perm {ms : List (String × Json)}
    (h : ((ms.filterMap (named? fields)).map Prod.fst).Nodup) :
    ((Json.sortMembers ms).filterMap (named? fields)).Perm (ms.filterMap (named? fields)) := by
  let known key := (field? fields key).isSome
  have hknown : ∀ l : List (String × Json),
      l.filterMap (named? fields) = (l.filter fun m => known m.1).filterMap (named? fields) := by
    intro l
    rw [List.filterMap_filter]
    refine List.filterMap_congr fun m _ => ?_
    cases hm : field? fields m.1 <;> simp [known, named?, hm]
  -- two members with one key have one field
  have hkeys : ((ms.filter fun m => known m.1).map Prod.fst).Nodup := by
    refine List.Nodup.of_map (fun key => ((field? fields key).map Field.name).getD "") ?_
    convert h using 1
    rw [hknown, List.map_map, List.map_filterMap, ← List.filterMap_eq_map]
    refine List.filterMap_congr fun m hm => ?_
    obtain ⟨f, hf⟩ := Option.isSome_iff_exists.1 (List.mem_filter.1 hm).2
    simp [named?, hf]
  rw [hknown (Json.sortMembers ms), hknown ms]
  exact (Json.filter_sortMembers_perm hkeys).filterMap _

/-- The members of a record whose objects are sorted are the members of the record, sorted. -/
theorem members_canonical {j : Json} {ms : List (String × Json)}
    (hs : ∀ f ∈ fields, Stable f.shape) (h : members name fields j = .ok ms) :
    ∃ ms', members name fields j.canonical = .ok ms' ∧
      ∀ key, ms'.lookup key = (ms.lookup key).map Json.canonical := by
  cases j with
  | array xs =>
    refine ⟨ms.map fun m => (m.1, m.2.canonical), ?_, fun key => lookup_map _ key ms⟩
    rw [Json.canonical, Json.canonicalElements_eq]
    exact fieldsInOrder_canonical hs h
  | object all =>
    obtain ⟨hfit, rfl, hnodup, hreq⟩ := members_object.1 h
    have hmap : (all.map fun m => (m.1, m.2.canonical)).filterMap (named? fields)
        = (all.filterMap (named? fields)).map fun m => (m.1, m.2.canonical) := by
      rw [List.filterMap_map, List.map_filterMap]
      refine List.filterMap_congr fun m _ => ?_
      cases hm : field? fields m.1 <;> simp [named?, hm]
    have hkeys : ((all.filterMap (named? fields)).map fun m => (m.1, m.2.canonical)).map Prod.fst
        = (all.filterMap (named? fields)).map Prod.fst := by simp
    rw [← hkeys, ← hmap] at hnodup
    have hperm := known_sortMembers_perm hnodup
    rw [Json.canonical, Json.canonicalMembers_eq]
    refine ⟨_, members_object.2 ⟨?_, rfl, (hperm.map _).nodup_iff.2 hnodup, ?_⟩, fun key => ?_⟩
    · intro m hm f hf
      obtain ⟨m, hall, rfl⟩ := List.mem_map.1 (Json.mem_of_mem_sortMembers hm)
      exact hs f (List.mem_of_find?_eq_some hf) m.2 (hfit m hall f hf)
    · intro f hf hpresence
      rw [(hperm.map _).mem_iff, hmap, hkeys]
      exact hreq f hf hpresence
    · rw [lookup_eq_of_perm hperm ((hperm.map _).nodup_iff.2 hnodup), hmap, lookup_map]
  | _ => cases h

theorem stable_record (hs : ∀ f ∈ fields, Stable f.shape) : Stable (record name fields) := by
  intro j h
  rw [record, bind_eq_ok] at h
  obtain ⟨ms, hms, -⟩ := h
  obtain ⟨ms', hms', -⟩ := members_canonical hs hms
  rw [record, hms']
  rfl

end Shape

end ConnectorCatalog
