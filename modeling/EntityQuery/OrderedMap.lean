/-!
Maps from names to values that keep their names in the order of first insertion. A name given
again keeps its place and takes the new value.
-/
namespace EntityQuery

/-- Puts a value under a name: in the place of the name, or at the end. -/
def insertEntry {α : Type} (name : String) (value : α) : List (String × α) → List (String × α)
  | [] => [(name, value)]
  | (n, v) :: rest =>
      if n = name then (n, value) :: rest else (n, v) :: insertEntry name value rest

theorem keys_insertEntry {α : Type} (name : String) (value : α) (entries : List (String × α)) :
    (insertEntry name value entries).map Prod.fst =
      if name ∈ entries.map Prod.fst then entries.map Prod.fst
      else entries.map Prod.fst ++ [name] := by
  induction entries with
  | nil => simp [insertEntry]
  | cons entry rest ih =>
    obtain ⟨n, v⟩ := entry
    by_cases h : n = name
    · simp [insertEntry, h]
    · have h' : ¬ name = n := fun e => h e.symm
      simp only [insertEntry, h, if_false, List.map_cons, ih, List.mem_cons, h', false_or]
      split <;> simp

theorem nodup_insertEntry {α : Type} (name : String) (value : α) {entries : List (String × α)}
    (h : (entries.map Prod.fst).Nodup) :
    ((insertEntry name value entries).map Prod.fst).Nodup := by
  rw [keys_insertEntry]
  split
  · exact h
  · rename_i hn
    exact List.nodup_append.2
      ⟨h, by simp, fun a ha b hb => by simp at hb; subst hb; rintro rfl; exact hn ha⟩

/-- Named values in order of first insertion. -/
structure OrderedMap (α : Type) where
  entries : List (String × α)
  nodup : (entries.map Prod.fst).Nodup := by simp

namespace OrderedMap

variable {α β : Type}

instance [Repr α] : Repr (OrderedMap α) := ⟨fun m n => reprPrec m.entries n⟩

instance [DecidableEq α] : DecidableEq (OrderedMap α) := fun a b =>
  if h : a.entries = b.entries then
    isTrue (by obtain ⟨x, hx⟩ := a; obtain ⟨y, hy⟩ := b; cases h; rfl)
  else isFalse (fun e => h (congrArg entries e))

def empty : OrderedMap α := { entries := [] }

instance : Inhabited (OrderedMap α) := ⟨empty⟩

def keys (m : OrderedMap α) : List String := m.entries.map Prod.fst

def values (m : OrderedMap α) : List α := m.entries.map Prod.snd

def find? (m : OrderedMap α) (name : String) : Option α := m.entries.lookup name

def contains (m : OrderedMap α) (name : String) : Bool := (m.find? name).isSome

def insert (m : OrderedMap α) (name : String) (value : α) : OrderedMap α :=
  ⟨insertEntry name value m.entries, nodup_insertEntry name value m.nodup⟩

/-- Inserts the pairs one after the other. -/
def ofList (pairs : List (String × α)) : OrderedMap α :=
  pairs.foldl (fun m p => m.insert p.1 p.2) empty

def isEmpty (m : OrderedMap α) : Bool := m.entries.isEmpty

@[ext] theorem ext {a b : OrderedMap α} (h : a.entries = b.entries) : a = b := by
  obtain ⟨x, hx⟩ := a; obtain ⟨y, hy⟩ := b; cases h; rfl

@[simp] theorem entries_empty : (empty : OrderedMap α).entries = [] := rfl

@[simp] theorem entries_insert (m : OrderedMap α) (name : String) (value : α) :
    (m.insert name value).entries = insertEntry name value m.entries := rfl

theorem keys_insert (m : OrderedMap α) (name : String) (value : α) :
    (m.insert name value).keys = if name ∈ m.keys then m.keys else m.keys ++ [name] :=
  keys_insertEntry name value m.entries

theorem find?_insert_self (m : OrderedMap α) (name : String) (value : α) :
    (m.insert name value).find? name = some value := by
  obtain ⟨entries, hn⟩ := m
  simp only [find?, insert]
  clear hn
  induction entries with
  | nil => simp [insertEntry]
  | cons entry rest ih =>
    obtain ⟨n, v⟩ := entry
    by_cases h : n = name
    · simp [insertEntry, h]
    · have h' : (name == n) = false := beq_eq_false_iff_ne.2 (fun e => h e.symm)
      simp [insertEntry, h, List.lookup_cons, h', ih]

theorem find?_insert_of_ne (m : OrderedMap α) {name other : String} (value : α)
    (hne : other ≠ name) : (m.insert name value).find? other = m.find? other := by
  obtain ⟨entries, hn⟩ := m
  simp only [find?, insert]
  clear hn
  have hf : (other == name) = false := beq_eq_false_iff_ne.2 hne
  induction entries with
  | nil => simp [insertEntry, List.lookup_cons, hf]
  | cons entry rest ih =>
    obtain ⟨n, v⟩ := entry
    by_cases h : n = name
    · subst h
      simp [insertEntry, List.lookup_cons, hf]
    · simp only [insertEntry, h, if_false, List.lookup_cons]
      split <;> simp_all

end OrderedMap
end EntityQuery
