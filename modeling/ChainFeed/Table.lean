/-!
# Tables

Values under names, in the order in which the names first came up.
-/

namespace ChainFeed

abbrev Table (β : Type) := List (String × β)

namespace Table

variable {β : Type}

def get? (t : Table β) (name : String) : Option β :=
  match t with
  | [] => none
  | (n, b) :: rest => if n = name then some b else get? rest name

def insert (t : Table β) (name : String) (b : β) : Table β :=
  match t with
  | [] => [(name, b)]
  | (n, c) :: rest => if n = name then (name, b) :: rest else (n, c) :: insert rest name b

/-- The last value of each name. -/
def ofList (entries : List (String × β)) : Table β := entries.foldl (fun t e => insert t e.1 e.2) []

def values (t : Table β) : List β := t.map (·.2)

@[simp] theorem get?_insert_self (t : Table β) (name : String) (b : β) :
    (t.insert name b).get? name = some b := by
  induction t with
  | nil => simp [insert, get?]
  | cons e t ih => by_cases h : e.1 = name <;> simp [insert, get?, h, ih]

theorem get?_insert_of_ne (t : Table β) {name other : String} (h : other ≠ name) (b : β) :
    (t.insert name b).get? other = t.get? other := by
  induction t with
  | nil => simp [insert, get?, Ne.symm h]
  | cons e t ih =>
    by_cases he : e.1 = name
    · simp [insert, get?, he, Ne.symm h]
    · simp [insert, get?, he, ih]

theorem insert_of_notMem (t : Table β) {name : String} (h : name ∉ t.map Prod.fst) (b : β) :
    t.insert name b = t ++ [(name, b)] := by
  induction t with
  | nil => rfl
  | cons e t ih =>
    obtain ⟨hne, ht⟩ := not_or.mp (mt List.mem_cons.mpr h)
    rw [insert, if_neg fun he => hne he.symm, ih ht, List.cons_append]

theorem ofList_eq_self {entries : List (String × β)} (h : (entries.map Prod.fst).Nodup) :
    ofList entries = entries := by
  suffices hfrom : ∀ (rest : List (String × β)) (t : Table β), ((t ++ rest).map Prod.fst).Nodup →
      rest.foldl (fun t e => insert t e.1 e.2) t = t ++ rest from hfrom entries [] h
  intro rest
  induction rest with
  | nil => exact fun t _ => (List.append_nil t).symm
  | cons e rest ih =>
    intro t hnodup
    have hfresh : e.1 ∉ t.map Prod.fst := by
      rw [List.map_append, List.nodup_append] at hnodup
      exact fun hmem => hnodup.2.2 e.1 hmem e.1 List.mem_cons_self rfl
    rw [List.foldl_cons, insert_of_notMem t hfresh, ih _ (by simpa using hnodup), List.append_assoc]
    rfl

theorem insert_map {γ : Type} (f : β → γ) (t : Table β) (name : String) (b : β) :
    insert (t.map fun e => (e.1, f e.2)) name (f b) = (insert t name b).map fun e => (e.1, f e.2) := by
  induction t with
  | nil => rfl
  | cons e t ih => by_cases h : e.1 = name <;> simp [insert, h, ih]

theorem ofList_map {γ : Type} (f : β → γ) (entries : List (String × β)) :
    ofList (entries.map fun e => (e.1, f e.2)) = (ofList entries).map fun e => (e.1, f e.2) := by
  suffices hfrom : ∀ t : Table β, entries.foldl (fun t e => insert t e.1 (f e.2))
      (t.map fun e => (e.1, f e.2)) =
        (entries.foldl (fun t e => insert t e.1 e.2) t).map fun e => (e.1, f e.2) by
    rw [ofList, List.foldl_map]
    exact hfrom []
  induction entries with
  | nil => exact fun _ => rfl
  | cons e rest ih =>
    intro t
    rw [List.foldl_cons, List.foldl_cons, insert_map]
    exact ih _

end Table

end ChainFeed
