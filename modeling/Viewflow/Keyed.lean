namespace Viewflow

def putEntry {κ ν : Type} [DecidableEq κ] (key : κ) (value : ν) : List (κ × ν) → List (κ × ν)
  | [] => [(key, value)]
  | (k, v) :: rest => if k = key then (k, value) :: rest else (k, v) :: putEntry key value rest

def findEntry {κ ν : Type} [DecidableEq κ] (key : κ) : List (κ × ν) → Option ν
  | [] => none
  | (k, v) :: rest => if k = key then some v else findEntry key rest

theorem mem_keys_putEntry {κ ν : Type} [DecidableEq κ] (key : κ) (value : ν) (entries : List (κ × ν))
    (k : κ) : k ∈ (putEntry key value entries).map Prod.fst ↔ k = key ∨ k ∈ entries.map Prod.fst := by
  induction entries with
  | nil => simp [putEntry]
  | cons entry rest ih =>
    obtain ⟨k', v'⟩ := entry
    unfold putEntry
    split
    · next same => subst same; simp
    · simp only [List.map_cons, List.mem_cons, ih]
      constructor
      · rintro (h | h | h) <;> simp [h]
      · rintro (h | h | h) <;> simp [h]

theorem putEntry_nodup {κ ν : Type} [DecidableEq κ] (key : κ) (value : ν) (entries : List (κ × ν))
    (nodup : (entries.map Prod.fst).Nodup) : ((putEntry key value entries).map Prod.fst).Nodup := by
  induction entries with
  | nil => simp [putEntry]
  | cons entry rest ih =>
    obtain ⟨k', v'⟩ := entry
    rw [List.map_cons, List.nodup_cons] at nodup
    unfold putEntry
    split
    · rw [List.map_cons, List.nodup_cons]; exact nodup
    · next other =>
      rw [List.map_cons, List.nodup_cons]
      refine ⟨fun member => ?_, ih nodup.2⟩
      rcases (mem_keys_putEntry key value rest k').mp member with same | old
      · exact other same
      · exact nodup.1 old

theorem findEntry_putEntry {κ ν : Type} [DecidableEq κ] (key k : κ) (value : ν)
    (entries : List (κ × ν)) :
    findEntry k (putEntry key value entries) = if k = key then some value else findEntry k entries := by
  induction entries with
  | nil =>
    by_cases same : k = key
    · simp [putEntry, findEntry, same]
    · simp [putEntry, findEntry, same, Ne.symm same]
  | cons entry rest ih =>
    obtain ⟨k', v'⟩ := entry
    by_cases here : k' = key
    · subst here
      by_cases same : k = k'
      · simp [putEntry, findEntry, same]
      · simp [putEntry, findEntry, same, Ne.symm same]
    · by_cases there : k' = k
      · subst there; simp [putEntry, findEntry, here]
      · simp [putEntry, findEntry, here, there, ih]

theorem keys_putEntry {κ ν : Type} [DecidableEq κ] (key : κ) (value : ν) (entries : List (κ × ν)) :
    (putEntry key value entries).map Prod.fst =
      if key ∈ entries.map Prod.fst then entries.map Prod.fst else entries.map Prod.fst ++ [key] := by
  induction entries with
  | nil => simp [putEntry]
  | cons entry rest ih =>
    obtain ⟨k', v'⟩ := entry
    by_cases here : k' = key
    · simp [putEntry, here]
    · by_cases later : key ∈ rest.map Prod.fst
      · simp only [later, if_true] at ih
        simp only [putEntry, here, if_false, List.map_cons, ih, List.mem_cons, later, or_true, if_true]
      · simp only [later, if_false] at ih
        simp only [putEntry, here, if_false, List.map_cons, ih, List.mem_cons, later, or_false,
          Ne.symm here, List.cons_append]

-- Maps that keep their keys in the order of first arrival. Every key occurs once.
structure Keyed (κ ν : Type) where
  entries : List (κ × ν)
  nodup : (entries.map Prod.fst).Nodup
deriving DecidableEq

namespace Keyed
variable {κ ν : Type}

def empty : Keyed κ ν := ⟨[], by simp⟩

instance : Inhabited (Keyed κ ν) := ⟨empty⟩

def keys (m : Keyed κ ν) : List κ := m.entries.map Prod.fst

def values (m : Keyed κ ν) : List ν := m.entries.map Prod.snd

def isEmpty (m : Keyed κ ν) : Bool := m.entries.isEmpty

variable [DecidableEq κ]

def find? (m : Keyed κ ν) (key : κ) : Option ν := findEntry key m.entries

def contains (m : Keyed κ ν) (key : κ) : Bool := (m.find? key).isSome

def put (m : Keyed κ ν) (key : κ) (value : ν) : Keyed κ ν :=
  ⟨putEntry key value m.entries, putEntry_nodup key value m.entries m.nodup⟩

theorem find?_put (m : Keyed κ ν) (key k : κ) (value : ν) :
    (m.put key value).find? k = if k = key then some value else m.find? k :=
  findEntry_putEntry key k value m.entries

theorem keys_put (m : Keyed κ ν) (key : κ) (value : ν) :
    (m.put key value).keys = if key ∈ m.keys then m.keys else m.keys ++ [key] :=
  keys_putEntry key value m.entries

def putNew (m : Keyed κ ν) (key : κ) (value : ν) : Keyed κ ν :=
  if m.contains key then m else m.put key value

def putAll (m : Keyed κ ν) (entries : List (κ × ν)) : Keyed κ ν :=
  entries.foldl (fun m entry => m.put entry.1 entry.2) m

def ofList (entries : List (κ × ν)) : Keyed κ ν := empty.putAll entries

def agrees [BEq ν] (a b : Keyed κ ν) : Bool :=
  a.entries.length == b.entries.length &&
    a.entries.all fun entry => b.find? entry.1 == some entry.2

end Keyed
end Viewflow
