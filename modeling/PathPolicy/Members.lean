/-!
Association lists in ascending order of their keys. They hold the members of tree-shaped
values; a key occurs once.
-/

namespace PathPolicy.Members
variable {α : Type}

def find? (key : String) : List (String × α) → Option α
  | [] => none
  | (k, x) :: rest => if k = key then some x else find? key rest

def insert (key : String) (value : α) : List (String × α) → List (String × α)
  | [] => [(key, value)]
  | (k, x) :: rest =>
    if key = k then (key, value) :: rest
    else if key < k then (key, value) :: (k, x) :: rest
    else (k, x) :: insert key value rest

def erase (key : String) : List (String × α) → List (String × α)
  | [] => []
  | (k, x) :: rest => if k = key then rest else (k, x) :: erase key rest

/-- The last of several values for one key counts. -/
def ofList (entries : List (String × α)) : List (String × α) :=
  entries.foldl (fun members (k, x) => insert k x members) []

theorem find?_insert_self (key : String) (value : α) (members : List (String × α)) :
    find? key (insert key value members) = some value := by
  induction members with
  | nil => simp [insert, find?]
  | cons m rest ih =>
    obtain ⟨k, x⟩ := m
    simp only [insert]
    split
    · simp [find?]
    · split
      · simp [find?]
      · rename_i h _
        simp [find?, ih, Ne.symm h]

theorem find?_insert_of_ne {key other : String} (h : key ≠ other) (value : α)
    (members : List (String × α)) :
    find? other (insert key value members) = find? other members := by
  induction members with
  | nil => simp [insert, find?, h]
  | cons m rest ih =>
    obtain ⟨k, x⟩ := m
    simp only [insert]
    split
    · rename_i hk
      subst hk
      simp [find?, h]
    · split
      · simp [find?, h]
      · simp [find?, ih]

theorem find?_erase_of_ne {key other : String} (h : key ≠ other) (members : List (String × α)) :
    find? other (erase key members) = find? other members := by
  induction members with
  | nil => rfl
  | cons m rest ih =>
    obtain ⟨k, x⟩ := m
    simp only [erase]
    split
    · rename_i hk
      subst hk
      simp [find?, h]
    · simp [find?, ih]

theorem insert_last {key : String} {members : List (String × α)}
    (h : ∀ m ∈ members, m.1 < key) (value : α) :
    insert key value members = members ++ [(key, value)] := by
  induction members with
  | nil => rfl
  | cons m members ih =>
    obtain ⟨k, x⟩ := m
    have hlt : k < key := h (k, x) List.mem_cons_self
    have hne : key ≠ k := fun heq => String.lt_irrefl k (heq ▸ hlt)
    simp only [insert, if_neg hne, if_neg (String.lt_asymm hlt),
      ih fun m hm => h m (List.mem_cons_of_mem _ hm), List.cons_append]

theorem foldl_insert_of_sorted {done members : List (String × α)}
    (h : ((done ++ members).map Prod.fst).Pairwise (· < ·)) :
    members.foldl (fun members (k, x) => insert k x members) done = done ++ members := by
  induction members generalizing done with
  | nil => exact (List.append_nil done).symm
  | cons m members ih =>
    obtain ⟨name, x⟩ := m
    have hlast : ∀ m ∈ done, m.1 < name := by
      intro m hm
      rw [List.map_append, List.pairwise_append] at h
      exact h.2.2 m.1 (List.mem_map_of_mem hm) name (by simp)
    rw [List.foldl_cons]
    dsimp only
    rw [insert_last hlast, ih (by simpa using h), List.append_assoc, List.singleton_append]

theorem ofList_of_sorted {members : List (String × α)}
    (h : (members.map Prod.fst).Pairwise (· < ·)) : ofList members = members :=
  foldl_insert_of_sorted h

end PathPolicy.Members
