import Mathlib.Data.List.Nodup
import Viewflow.Distinct
import Viewflow.Keyed

namespace Viewflow.Keyed

variable {κ ν : Type} [DecidableEq κ] {m : Keyed κ ν} {key : κ} {value : ν}
  {before entries : List (κ × ν)}

theorem find?_eq_some_iff (m : Keyed κ ν) : m.find? key = some value ↔ (key, value) ∈ m.entries := by
  obtain ⟨entries, distinct⟩ := m
  induction entries with
  | nil => simp [find?, findEntry]
  | cons entry rest ih =>
    obtain ⟨k, v⟩ := entry
    rw [List.map_cons, List.nodup_cons] at distinct
    have later := ih distinct.2
    simp only [find?, findEntry, List.mem_cons, Prod.mk.injEq] at later ⊢
    split
    · next same =>
      subst same
      have absent : (k, value) ∉ rest := fun member =>
        distinct.1 (List.mem_map.mpr ⟨_, member, rfl⟩)
      simp [absent, eq_comm]
    · next other => simp [Ne.symm other, later]

theorem mem_values_iff : value ∈ m.values ↔ ∃ key, m.find? key = some value := by
  simp only [find?_eq_some_iff]
  constructor
  · intro member
    obtain ⟨entry, listed, rfl⟩ := List.mem_map.mp member
    exact ⟨entry.1, listed⟩
  · rintro ⟨key, listed⟩
    exact List.mem_map.mpr ⟨_, listed, rfl⟩

theorem mem_keys_iff : key ∈ m.keys ↔ ∃ value, m.find? key = some value := by
  simp only [find?_eq_some_iff, keys, List.mem_map, Prod.exists, exists_and_right, exists_eq_right]

theorem find?_putAll (m : Keyed κ ν) (entries : List (κ × ν)) (key : κ) :
    (m.putAll entries).find? key = (entries.reverse.lookup key).or (m.find? key) := by
  unfold putAll
  induction entries generalizing m with
  | nil => rfl
  | cons entry entries ih =>
    obtain ⟨k, value⟩ := entry
    rw [List.foldl_cons, ih, find?_put, List.reverse_cons, List.lookup_append, Option.or_assoc,
      List.lookup_cons]
    congr 1
    by_cases same : key = k
    · simp [same]
    · simp [same, beq_eq_false_iff_ne.mpr same]

theorem find?_ofList (entries : List (κ × ν)) (key : κ) :
    (ofList entries).find? key = entries.reverse.lookup key :=
  (find?_putAll empty entries key).trans (Option.or_none ..)

theorem find?_ofList_of_mem (listed : (key, value) ∈ entries)
    (alone : ∀ other, (key, other) ∈ entries → other = value) :
    (ofList entries).find? key = some value := by
  rw [find?_ofList]
  have found : (entries.reverse.lookup key).isSome = true :=
    List.lookup_isSome_iff.mpr ⟨_, List.mem_reverse.mpr listed, beq_self_eq_true key⟩
  obtain ⟨other, last⟩ := Option.isSome_iff_exists.mp found
  obtain ⟨_, _, split, _⟩ := List.lookup_eq_some_iff.mp last
  have member : (key, other) ∈ entries.reverse := by simp [split]
  rw [last, alone other (List.mem_reverse.mp member)]

theorem keys_ofList_subset : (ofList entries).keys ⊆ entries.map Prod.fst := by
  intro key listed
  obtain ⟨value, found⟩ := mem_keys_iff.mp listed
  rw [find?_ofList, List.lookup_eq_some_iff] at found
  obtain ⟨_, _, split, _⟩ := found
  have member : (key, value) ∈ entries.reverse := by simp [split]
  exact List.mem_map_of_mem (List.mem_reverse.mp member)

theorem keys_putAll (m : Keyed κ ν) (entries : List (κ × ν)) :
    (m.putAll entries).keys = ((entries.map Prod.fst).foldl Distinct.insert ⟨m.keys, m.nodup⟩).toList := by
  unfold putAll
  induction entries generalizing m with
  | nil => rfl
  | cons entry entries ih =>
    have same : (⟨(m.put entry.1 entry.2).keys, (m.put entry.1 entry.2).nodup⟩ : Distinct κ) =
        Distinct.insert ⟨m.keys, m.nodup⟩ entry.1 := by
      unfold Distinct.insert
      split
      · next known => simp only [keys_put, if_pos known]
      · next fresh => simp only [keys_put, if_neg fresh]
    rw [List.foldl_cons, ih, same, List.map_cons, List.foldl_cons]

theorem keys_ofList (entries : List (κ × ν)) :
    (ofList entries).keys = (Distinct.ofList (entries.map Prod.fst)).toList := keys_putAll empty entries

theorem prefix_putEntry (value : ν) (front : before <+: entries) (fresh : key ∉ before.map Prod.fst) :
    before <+: putEntry key value entries := by
  obtain ⟨behind, rfl⟩ := front
  induction before with
  | nil => exact List.nil_prefix
  | cons entry before ih =>
    obtain ⟨k, v⟩ := entry
    rw [List.map_cons, List.mem_cons, not_or] at fresh
    obtain ⟨other, fresh⟩ := fresh
    rw [List.cons_append, putEntry, if_neg (Ne.symm other), List.prefix_cons_inj]
    exact ih fresh

theorem prefix_putAll (front : before <+: m.entries) (fresh : ∀ e ∈ entries, e.1 ∉ before.map Prod.fst) :
    before <+: (m.putAll entries).entries := by
  refine List.foldlRecOn (motive := fun grown : Keyed κ ν => before <+: grown.entries) _ _ front ?_
  exact fun grown front e listed => prefix_putEntry e.2 front (fresh e listed)

theorem prefix_ofList (more : List (κ × ν)) (fresh : ∀ e ∈ more, e.1 ∉ entries.map Prod.fst) :
    (ofList entries).entries <+: (ofList (entries ++ more)).entries := by
  have split : ofList (entries ++ more) = (ofList entries).putAll more := List.foldl_append
  rw [split]
  exact prefix_putAll List.prefix_rfl fun e listed there => fresh e listed (keys_ofList_subset there)

theorem putEntry_fresh (value : ν) (fresh : key ∉ entries.map Prod.fst) :
    putEntry key value entries = entries ++ [(key, value)] := by
  induction entries with
  | nil => rfl
  | cons entry entries ih =>
    obtain ⟨k, v⟩ := entry
    rw [List.map_cons, List.mem_cons, not_or] at fresh
    obtain ⟨other, fresh⟩ := fresh
    rw [putEntry, if_neg (Ne.symm other), ih fresh, List.cons_append]

theorem entries_putAll (fresh : (m.keys ++ entries.map Prod.fst).Nodup) :
    (m.putAll entries).entries = m.entries ++ entries := by
  unfold putAll
  induction entries generalizing m with
  | nil => rw [List.foldl_nil, List.append_nil]
  | cons entry entries ih =>
    rw [List.map_cons, List.append_cons] at fresh
    have absent : entry.1 ∉ m.keys := by
      intro there
      exact (List.nodup_append.mp (List.nodup_append.mp fresh).1).2.2 _ there _ (List.mem_singleton_self _) rfl
    have put : (m.put entry.1 entry.2).entries = m.entries ++ [entry] := putEntry_fresh entry.2 absent
    have keys : (m.put entry.1 entry.2).keys = m.keys ++ [entry.1] := by rw [keys_put, if_neg absent]
    rw [List.foldl_cons, ih (keys ▸ fresh), put, List.append_assoc, List.singleton_append]

theorem entries_ofList (distinct : (entries.map Prod.fst).Nodup) : (ofList entries).entries = entries :=
  entries_putAll (m := empty) distinct

end Viewflow.Keyed
