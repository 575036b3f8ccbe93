import ConnectorCatalog.Proofs.Toml.KeyName

/-!
# Bare names

Names of segments that need no quotes, with dots between, are keys as they stand: each is read up to
what follows it (`keyEnd?_append`) and is its own name (`keyName_toList`).
-/

namespace ConnectorCatalog.Toml

/-- A name of bare segments with dots between. -/
def IsBareName (name : String) : Prop := ∀ s ∈ cutAll (· == '.') name.toList, IsBare s

instance : DecidablePred IsBareName := fun name =>
  inferInstanceAs (Decidable (∀ s ∈ cutAll (· == '.') name.toList, IsBare s))

theorem joinWith_dot (t : List Char) : ∀ ts : List (List Char),
    joinWith ['.'] (t :: ts) = t ++ ts.flatMap ('.' :: ·)
  | [] => by simp [joinWith]
  | u :: ts => by simp [joinWith, joinWith_dot u ts]

/-- A bare name is a key of bare segments without blanks, which are kept as they stand. -/
theorem exists_bareKey {name : String} (h : IsBareName name) :
    ∃ k : Key, k.IsWritten ∧ k.source = name.toList ∧ k.kept = cutAll (· == '.') name.toList := by
  obtain ⟨t, ts, hts⟩ := List.exists_cons_of_ne_nil (cutAll_ne_nil (· == '.') name.toList)
  have hbare : ∀ s ∈ t :: ts, IsBare s := hts ▸ h
  have hkept : ∀ {us : List (List Char)}, (∀ u ∈ us, IsBare u) →
      (us.map KeySegment.bare).flatMap KeySegment.kept = us := fun {us} hus => by
    rw [List.flatMap_map, List.flatMap_congr fun u hu => KeySegment.kept_bare (hus u hu),
      List.flatMap_singleton']
  refine ⟨⟨.bare t, ts.map fun u => ⟨[], [], .bare u⟩⟩, ⟨hbare t (List.mem_cons_self ..), ?_⟩, ?_, ?_⟩
  · intro d hd
    obtain ⟨u, hu, rfl⟩ := List.mem_map.1 hd
    exact ⟨List.forall_mem_nil _, List.forall_mem_nil _, hbare u (List.mem_cons_of_mem _ hu)⟩
  · rw [← joinWith_cutAll '.' name.toList, hts, joinWith_dot, Key.source, List.flatMap_map]
    rfl
  · rw [hts, Key.kept, Key.segments, List.map_map]
    exact hkept hbare

theorem exists_first {name : String} (h : IsBareName name) :
    ∃ c t, isBareKeyChar c = true ∧ name.toList = c :: t := by
  obtain ⟨s, ss, hs⟩ := List.exists_cons_of_ne_nil (cutAll_ne_nil (· == '.') name.toList)
  have hbare : IsBare s := h s (hs ▸ List.mem_cons_self ..)
  obtain ⟨c, t, rfl⟩ := List.exists_cons_of_ne_nil hbare.1
  refine ⟨c, t ++ ss.flatMap ('.' :: ·), hbare.2 c (List.mem_cons_self ..), ?_⟩
  rw [← joinWith_cutAll '.' name.toList, hs, joinWith_dot, List.cons_append]

/-- A bare name is read up to what follows it. -/
theorem keyEnd?_append {name : String} (h : IsBareName name) {r : List Char}
    (hr : ∀ c ∈ r.head?, isBareKeyChar c = false) (hdot : ∀ t, skipGap r ≠ '.' :: t) :
    keyEnd? (name.toList ++ r) = some r := by
  obtain ⟨k, hk, hsource, -⟩ := exists_bareKey h
  exact hsource ▸ keyEnd?_source hk hr hdot

/-- A bare name is the name of the key that is written so. -/
theorem keyName_toList {name : String} (h : IsBareName name) : keyName name.toList = name := by
  obtain ⟨k, hk, hsource, hkept⟩ := exists_bareKey h
  rw [← hsource, keyName_source hk, hkept, dotted, joinWith_cutAll, String.ofList_toList]

end ConnectorCatalog.Toml
