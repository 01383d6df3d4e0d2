import EntityQuery.Predicate.Operator
import EntityQuery.Proofs.QueryStrings
/-!
Tables of operators over whole runs. A table that starts with the built-in operators is at every time the
list of the registrations that have succeeded, each under its name in lower case. A request adds at most one
to them and changes none; so an operator is found under every spelling of the one name that brought it.
-/
namespace EntityQuery

namespace OperatorTable

variable {α : Type}

/-- What is asked of a table: to register an operator, where none stands for something that is no operator,
or to look one up. -/
inductive Request (α : Type) where
  | register (name : String) (operator : Option α)
  | get (name : String)

/-- What a table answers. -/
inductive Outcome (α : Type) where
  | registered
  | refused (e : RegistrationError)
  | found (operator : α)
  | missing (e : QueryError)

/-- A request to a table: what it answers, and the table after it. -/
def serve (t : OperatorTable α) : Request α → Outcome α × OperatorTable α
  | .register name operator => match t.register name operator with
    | .ok u => (.registered, u)
    | .error e => (.refused e, t)
  | .get name => match t.get name with
    | .ok o => (.found o, t)
    | .error e => (.missing e, t)

/-- The table after requests, one after the other. -/
def after (t : OperatorTable α) : List (Request α) → OperatorTable α
  | [] => t
  | r :: rs => after (t.serve r).2 rs

/-- What requests make of a registration: the name as it was given and the operator, if it has succeeded. -/
def success? : Request α → Outcome α → Option (String × α)
  | .register name operator, .registered => operator.map fun o => (name, o)
  | _, _ => none

/-- The registrations that succeed when requests are made one after the other. -/
def successes (t : OperatorTable α) : List (Request α) → List (String × α)
  | [] => []
  | r :: rs => (success? r (t.serve r).1).toList ++ successes (t.serve r).2 rs

/-- The table of the built-in operators, with the operators of another type in their places. -/
def builtInAs (f : Operator → α) : OperatorTable α where
  entries := builtIn.entries.map fun e => (e.1, f e.2)
  nodup := by
    rw [List.map_map]
    exact builtIn.nodup

theorem builtInAs_id : builtInAs id = builtIn := OrderedMap.ext (List.map_id _)

/-- What a name must be for a registration: in lower case an identifier that is neither reserved nor taken. -/
structure Accepts (t : OperatorTable α) (name : String) : Prop where
  identifier : Text.isIdentifier (Text.lower name) = true
  unreserved : Text.lower name ∉ Operator.reservedNames
  free : Text.lower name ∉ OrderedMap.keys t

/-- What a table does after the registrations of a history, its first operators among them. -/
structure Accounts (t : OperatorTable α) (history : List (String × α)) : Prop where
  names : ∀ name ∈ OrderedMap.keys t,
    Text.isIdentifier name = true ∧ name ∉ Operator.reservedNames
  lasting : ∀ name o, OrderedMap.find? t name = some o →
    ∀ more, OrderedMap.find? (t.after more) name = some o
  unchanged : ∀ r, (t.serve r).1 ≠ .registered → (t.serve r).2 = t
  registers : ∀ name operator, (t.serve (.register name operator)).1 = .registered ↔
    t.Accepts name ∧ ∃ o, operator = some o
  answers : ∀ name,
    (∃ e, history.filter (fun e => Text.lower e.1 = Text.lower name) = [e] ∧
      (t.serve (.get name)).1 = .found e.2) ∨
    ((∀ e ∈ history, Text.lower e.1 ≠ Text.lower name) ∧
      (t.serve (.get name)).1 = .missing (.unknownOperator name))

/-! ### One request -/

section Step

variable {t u : OperatorTable α} {name : String} {operator : Option α}

theorem contains_iff : OrderedMap.contains t name = true ↔ name ∈ OrderedMap.keys t := by
  rw [OrderedMap.contains, Option.isSome_iff_exists]
  constructor
  · rintro ⟨o, ho⟩
    exact List.mem_map_of_mem (OrderedMap.mem_entries_iff.mpr ho)
  · intro h
    obtain ⟨e, he, rfl⟩ := List.mem_map.mp h
    exact ⟨e.2, OrderedMap.mem_entries_iff.mp he⟩

/-- A registration succeeds for an operator under a name that is accepted, and adds it at the end. -/
theorem register_eq_ok_iff : t.register name operator = .ok u ↔
    t.Accepts name ∧ ∃ o, operator = some o ∧ u = OrderedMap.insert t (Text.lower name) o := by
  unfold register
  constructor
  · intro h
    dsimp only at h
    split at h
    · cases h
    rename_i hidentifier
    split at h
    · cases h
    rename_i hreserved
    split at h
    · cases h
    rename_i htaken
    split at h
    · cases h
    · rename_i o
      cases h
      exact ⟨⟨by simpa using hidentifier, by simpa using hreserved, fun hm => htaken (contains_iff.mpr hm)⟩,
        o, rfl, rfl⟩
  · rintro ⟨h, o, rfl, rfl⟩
    have hfree : OrderedMap.contains t (Text.lower name) = false :=
      Bool.eq_false_iff.mpr fun hm => h.free (contains_iff.mp hm)
    simp [h.identifier, h.unreserved, hfree]

theorem entries_insert_of_accepts (h : t.Accepts name) (o : α) :
    (OrderedMap.insert t (Text.lower name) o).entries = t.entries ++ [(Text.lower name, o)] :=
  OrderedMap.insertEntry_of_not_mem h.free

/-- A request that registers nothing leaves the table as it is. -/
theorem serve_cases (t : OperatorTable α) (r : Request α) :
    (success? r (t.serve r).1 = none ∧ (t.serve r).2 = t) ∨
      ∃ name o, success? r (t.serve r).1 = some (name, o) ∧ (t.serve r).1 = .registered ∧
        t.Accepts name ∧ (t.serve r).2.entries = t.entries ++ [(Text.lower name, o)] := by
  cases r with
  | get name =>
    left
    simp only [serve]
    cases t.get name <;> exact ⟨rfl, rfl⟩
  | register name operator =>
    simp only [serve]
    cases h : t.register name operator with
    | error e => exact .inl ⟨rfl, rfl⟩
    | ok u =>
      obtain ⟨haccepts, o, rfl, rfl⟩ := register_eq_ok_iff.mp h
      exact .inr ⟨name, o, rfl, rfl, haccepts, entries_insert_of_accepts haccepts o⟩

end Step

/-! ### Runs -/

/-- The entries of a table are the registrations of a history, under names that may be registered. -/
structure Holds (t : OperatorTable α) (history : List (String × α)) : Prop where
  entries : t.entries = history.map fun e => (Text.lower e.1, e.2)
  names : ∀ e ∈ history,
    Text.isIdentifier (Text.lower e.1) = true ∧ Text.lower e.1 ∉ Operator.reservedNames

theorem holds_builtInAs (f : Operator → α) : (builtInAs f).Holds (builtInAs f).entries := by
  have hnames : ∀ e ∈ builtIn.entries, Text.lower e.1 = e.1 ∧
      Text.isIdentifier (Text.lower e.1) = true ∧ Text.lower e.1 ∉ Operator.reservedNames := by
    decide +kernel
  constructor
  · simp only [builtInAs, List.map_map]
    exact List.map_congr_left fun e he => by simp [(hnames e he).1]
  · simp only [builtInAs, List.forall_mem_map]
    exact fun e he => (hnames e he).2

variable {t : OperatorTable α} {history : List (String × α)}

theorem Holds.serve (h : t.Holds history) (r : Request α) :
    (t.serve r).2.Holds (history ++ (success? r (t.serve r).1).toList) := by
  rcases serve_cases t r with ⟨hnone, hsame⟩ | ⟨name, o, hsome, -, haccepts, hentries⟩
  · rw [hnone, hsame, Option.toList_none, List.append_nil]
    exact h
  · rw [hsome, Option.toList_some]
    constructor
    · rw [hentries, h.entries, List.map_append, List.map_singleton]
    · intro e he
      rcases List.mem_append.mp he with he | he
      · exact h.names e he
      · rw [List.mem_singleton.mp he]
        exact ⟨haccepts.identifier, haccepts.unreserved⟩

/-- A run adds the registrations that succeed in it to those of before. -/
theorem Holds.after (h : t.Holds history) (requests : List (Request α)) :
    (t.after requests).Holds (history ++ t.successes requests) := by
  induction requests generalizing t history with
  | nil =>
    rw [successes, List.append_nil]
    exact h
  | cons r rs ih =>
    rw [successes, ← List.append_assoc]
    exact ih (h.serve r)

/-- The tables that are reached from the built-in operators. -/
theorem holds_after_builtInAs (f : Operator → α) (requests : List (Request α)) :
    ((builtInAs f).after requests).Holds
      ((builtInAs f).entries ++ (builtInAs f).successes requests) :=
  (holds_builtInAs f).after requests

theorem Holds.mem_keys_iff (h : t.Holds history) {name : String} :
    name ∈ OrderedMap.keys t ↔ ∃ e ∈ history, Text.lower e.1 = name := by
  rw [OrderedMap.keys, h.entries, List.map_map, List.mem_map]
  rfl

theorem Holds.find?_after (h : t.Holds history) {name : String} {o : α}
    (ho : OrderedMap.find? t name = some o) (more : List (Request α)) :
    OrderedMap.find? (t.after more) name = some o := by
  have hentries : (t.after more).entries = t.entries ++
      (t.successes more).map fun e => (Text.lower e.1, e.2) := by
    rw [(h.after more).entries, List.map_append, h.entries]
  rw [OrderedMap.find?] at ho ⊢
  rw [hentries, List.lookup_append, ho, Option.some_or]

/-- At most one registration of a history has the name. -/
theorem Holds.length_filter_le (h : t.Holds history) (name : String) :
    (history.filter fun e => Text.lower e.1 = name).length ≤ 1 := by
  have hkeys : (history.map fun e => Text.lower e.1).Nodup := by
    have hnodup := t.nodup
    rwa [h.entries, List.map_map] at hnodup
  have hsame : ((history.filter fun e => Text.lower e.1 = name).map fun e => Text.lower e.1) =
      List.replicate (history.filter fun e => Text.lower e.1 = name).length name := by
    rw [List.map_eq_replicate_iff]
    intro e he
    simpa using (List.mem_filter.mp he).2
  have hfiltered : ((history.filter fun e => Text.lower e.1 = name).map fun e => Text.lower e.1).Nodup :=
    hkeys.sublist (List.filter_sublist.map _)
  rw [hsame] at hfiltered
  exact List.nodup_replicate.mp hfiltered

/-- A lookup finds the one registration whose name reads the same in lower case. -/
theorem Holds.get_cases (h : t.Holds history) (name : String) :
    (∃ e, history.filter (fun e => Text.lower e.1 = Text.lower name) = [e] ∧ t.get name = .ok e.2) ∨
      ((∀ e ∈ history, Text.lower e.1 ≠ Text.lower name) ∧
        t.get name = .error (.unknownOperator name)) := by
  unfold get
  cases hfind : OrderedMap.find? t (Text.lower name) with
  | none =>
    refine .inr ⟨fun e he hname => ?_, rfl⟩
    have hkey := h.mem_keys_iff.mpr ⟨e, he, hname⟩
    rw [← contains_iff, OrderedMap.contains, hfind] at hkey
    cases hkey
  | some o =>
    left
    have hmem := OrderedMap.mem_entries_iff.mpr hfind
    rw [h.entries] at hmem
    obtain ⟨e, he, heo⟩ := List.mem_map.mp hmem
    obtain ⟨hname, rfl⟩ := Prod.mk.inj heo
    have hin : e ∈ history.filter fun e => Text.lower e.1 = Text.lower name := by simp [he, hname]
    refine ⟨e, ?_, rfl⟩
    have hle := h.length_filter_le (Text.lower name)
    obtain ⟨e', he'⟩ := List.length_eq_one_iff.mp (le_antisymm hle (List.length_pos_of_mem hin))
    rw [he'] at hin ⊢
    rw [List.mem_singleton.mp hin]

/-- From the built-in operators, and after any requests: every name is an identifier and not reserved, an
operator keeps its name, what fails changes nothing, what may be registered is registered, and a lookup
finds the one registration under the name in any case. -/
theorem accounts_after (f : Operator → α) (requests : List (Request α)) :
    ((builtInAs f).after requests).Accounts
      ((builtInAs f).entries ++ (builtInAs f).successes requests) := by
  have hholds := holds_after_builtInAs f requests
  refine ⟨fun name hname => ?_, fun name o ho more => hholds.find?_after ho more, fun r hr => ?_,
    fun name operator => ?_, fun name => ?_⟩
  · obtain ⟨e, he, rfl⟩ := hholds.mem_keys_iff.mp hname
    exact hholds.names e he
  · rcases serve_cases _ r with ⟨-, hsame⟩ | ⟨name, o, -, hregistered, -⟩
    · exact hsame
    · exact absurd hregistered hr
  · simp only [serve]
    cases h : register _ name operator with
    | ok u =>
      obtain ⟨haccepts, o, ho, -⟩ := register_eq_ok_iff.mp h
      exact iff_of_true rfl ⟨haccepts, o, ho⟩
    | error e =>
      refine iff_of_false (fun heq => by cases heq) ?_
      rintro ⟨haccepts, o, ho⟩
      cases h.symm.trans (register_eq_ok_iff.mpr ⟨haccepts, o, ho, rfl⟩)
  · simp only [serve]
    rcases hholds.get_cases name with ⟨e, he, hget⟩ | ⟨hnone, hget⟩
    · exact .inl ⟨e, he, by rw [hget]⟩
    · exact .inr ⟨hnone, by rw [hget]⟩

/-- The first registration of a name stands, and it is found with the Kelvin sign in the name too. -/
example : ((builtIn.after [.register "Kind" (some .startsWith), .register "KIND" (some .equal)]).get
    "\u212aind").toOption = some .startsWith := by decide +kernel

end OperatorTable
end EntityQuery
