/-!
# Entries: key-value pairs in order of first insertion

Members of a JSON object, children of a token group and settings of a configuration file are all
lists of pairs whose order can be seen in the output. `Entries` is such a list with the operations
of a map:

* `get?` reads the first pair of a key;
* `insert` replaces the value of a key where it stands, and appends a key that is new;
* `erase` drops every pair of a key;
* `ofList` inserts pairs one after another, so a repeated key keeps its first place and its last
  value.

The lemmas describe the operations through `get?` and `keys`; `Distinct` says that no key occurs
twice, and every operation keeps it.
-/

namespace TokenSheets

universe u v w

/-- Key-value pairs, in order. -/
abbrev Entries (κ : Type u) (α : Type v) := List (κ × α)

namespace Entries

variable {κ : Type u} {α : Type v}

/-- The keys, in order. -/
def keys (entries : Entries κ α) : List κ := entries.map (·.1)

/-- No key occurs twice. -/
def Distinct (entries : Entries κ α) : Prop := (keys entries).Nodup

@[simp] theorem keys_nil : keys ([] : Entries κ α) = [] := rfl

@[simp] theorem keys_cons (p : κ × α) (rest : Entries κ α) :
    keys (p :: rest) = p.1 :: keys rest := rfl

@[simp] theorem keys_append (a b : Entries κ α) : keys (a ++ b) = keys a ++ keys b := by
  simp [keys]

theorem filterMap_sublist_map {β : Type w} {pick : β → Option κ} {key : β → κ}
    (keeps : ∀ b k, pick b = some k → k = key b) (bs : List β) :
    (bs.filterMap pick).Sublist (bs.map key) := by
  induction bs with
  | nil => exact List.Sublist.slnil
  | cons b rest ih =>
    rw [List.filterMap_cons]
    rcases h : pick b with _ | k
    · exact ih.cons _
    · rw [List.map_cons, ← keeps b k h]
      exact ih.cons_cons _

theorem keys_filterMap_sublist {β : Type w} {pick : β → Option (κ × α)} {key : β → κ}
    (keeps : ∀ b p, pick b = some p → p.1 = key b) (bs : List β) :
    (keys (bs.filterMap pick)).Sublist (bs.map key) := by
  rw [keys, List.map_filterMap]
  refine filterMap_sublist_map (fun b k h => ?_) bs
  obtain ⟨p, hp, rfl⟩ := Option.map_eq_some_iff.mp h
  exact keeps b p hp

variable [DecidableEq κ]

/-- The value that stands first under `key`. -/
def get? (key : κ) : Entries κ α → Option α
  | [] => none
  | (k, v) :: rest => if k = key then some v else get? key rest

/-- Replaces the value of `key` where it stands, or appends the pair. -/
def insert (key : κ) (value : α) : Entries κ α → Entries κ α
  | [] => [(key, value)]
  | (k, v) :: rest => if k = key then (k, value) :: rest else (k, v) :: insert key value rest

/-- Drops every pair of `key`. -/
def erase (key : κ) (entries : Entries κ α) : Entries κ α := entries.filter fun p => p.1 ≠ key

/-- Inserts the pairs one after another. -/
def ofList (pairs : List (κ × α)) : Entries κ α :=
  pairs.foldl (fun entries p => insert p.1 p.2 entries) []

/-! ### What the operations do to `get?` -/

@[simp] theorem get?_nil (key : κ) : get? key ([] : Entries κ α) = none := rfl

theorem get?_cons (key k : κ) (v : α) (rest : Entries κ α) :
    get? key ((k, v) :: rest) = if k = key then some v else get? key rest := rfl

theorem get?_eq_none_iff {key : κ} {entries : Entries κ α} :
    get? key entries = none ↔ key ∉ keys entries := by
  induction entries with
  | nil => simp
  | cons p rest ih => grind [get?, keys]

theorem mem_of_get? {key : κ} {value : α} {entries : Entries κ α}
    (h : get? key entries = some value) : (key, value) ∈ entries := by
  induction entries with
  | nil => simp at h
  | cons p rest ih =>
    rw [get?_cons] at h
    split at h
    · rename_i hkey
      exact List.mem_cons.mpr (.inl (by rw [← hkey, ← Option.some.inj h]))
    · exact List.mem_cons_of_mem _ (ih h)

theorem get?_of_mem {key : κ} {value : α} {entries : Entries κ α} (distinct : Distinct entries)
    (h : (key, value) ∈ entries) : get? key entries = some value := by
  induction entries with
  | nil => simp at h
  | cons p rest ih => grind [get?, Distinct, keys]

theorem get?_insert (key k : κ) (value : α) (entries : Entries κ α) :
    get? k (insert key value entries) = if key = k then some value else get? k entries := by
  induction entries with
  | nil => simp [insert, get?]
  | cons p rest ih => grind [get?, insert]

theorem get?_erase (key k : κ) (entries : Entries κ α) :
    get? k (erase key entries) = if key = k then none else get? k entries := by
  induction entries with
  | nil => simp [erase]
  | cons p rest ih => grind [get?, erase]

theorem get?_append (key : κ) (a b : Entries κ α) :
    get? key (a ++ b) = (get? key a).or (get? key b) := by
  induction a with
  | nil => simp
  | cons p rest ih => by_cases h : p.1 = key <;> simp [get?, h, ih]

/-! ### What the operations do to the keys -/

theorem keys_insert (key : κ) (value : α) (entries : Entries κ α) :
    keys (insert key value entries) =
      if key ∈ keys entries then keys entries else keys entries ++ [key] := by
  induction entries with
  | nil => simp [insert, keys]
  | cons p rest ih => grind [insert, keys]

theorem Distinct.insert {entries : Entries κ α} (h : Distinct entries) (key : κ) (value : α) :
    Distinct (insert key value entries) := by
  unfold Distinct at *
  rw [keys_insert]
  split
  · exact h
  · rw [List.nodup_append]
    exact ⟨h, by simp, by grind⟩

theorem insert_of_notMem {key : κ} {entries : Entries κ α} (h : key ∉ keys entries) (value : α) :
    insert key value entries = entries ++ [(key, value)] := by
  induction entries with
  | nil => rfl
  | cons p rest ih => grind [insert, keys]

theorem mem_insert {key : κ} {value : α} {entries : Entries κ α} {p : κ × α}
    (h : p ∈ insert key value entries) : p = (key, value) ∨ p ∈ entries := by
  induction entries with
  | nil => simpa [insert] using h
  | cons q rest ih => grind [insert]

theorem distinct_ofList (pairs : List (κ × α)) : Distinct (ofList pairs) := by
  have go : ∀ (pairs : List (κ × α)) (entries : Entries κ α), Distinct entries →
      Distinct (pairs.foldl (fun entries p => Entries.insert p.1 p.2 entries) entries) := by
    intro pairs
    induction pairs with
    | nil => exact fun _ h => h
    | cons p rest ih => exact fun entries h => ih _ (h.insert p.1 p.2)
  exact go pairs [] (by simp [Distinct])

end Entries

end TokenSheets
