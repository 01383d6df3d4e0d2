import EntityQuery.Proofs.Runs
/-!
What becomes of a value that is given in place of a descriptor. It is refused as an invalid argument, or
read. The one exception are relations and sort entries written as a sequence: each item becomes the key
of a mapping before anything is checked, and an item that cannot be a key ends the operation with an
error of another kind.
-/
namespace EntityQuery

namespace Value

/-- Lists, sets and mappings cannot be keys, and neither can tuples that hold one of these. -/
inductive Unusable : Value → Prop
  | list (xs : List Value) : Unusable (list xs)
  | set (xs : List Value) : Unusable (set xs)
  | mapping (es : List (Value × Value)) : Unusable (mapping es)
  | tuple {xs : List Value} {x : Value} (hx : x ∈ xs) (h : Unusable x) : Unusable (tuple xs)

theorem unusable_tuple_iff {xs : List Value} : (tuple xs).Unusable ↔ ∃ x ∈ xs, x.Unusable := by
  constructor
  · rintro (_ | _ | _ | ⟨hx, h⟩)
    exact ⟨_, hx, h⟩
  · rintro ⟨x, hx, h⟩
    exact .tuple hx h

mutual

theorem isSome_keyObstacle? : ∀ v : Value, (keyObstacle? v).isSome ↔ v.Unusable
  | list xs => by simp [keyObstacle?, Unusable.list xs]
  | set xs => by simp [keyObstacle?, Unusable.set xs]
  | mapping es => by simp [keyObstacle?, Unusable.mapping es]
  | tuple xs => by
    rw [keyObstacle?, unusable_tuple_iff]
    exact isSome_keyObstacles? xs
  | null | boolean _ | integer _ | float _ | text _ | bytes _ | moment _ | condition _ | constant _ =>
    iff_of_false (by simp [keyObstacle?]) (by rintro ⟨⟩)

theorem isSome_keyObstacles? : ∀ xs : List Value, (keyObstacles? xs).isSome ↔ ∃ x ∈ xs, x.Unusable
  | [] => by simp [keyObstacles?]
  | x :: xs => by
    rw [keyObstacles?, List.exists_mem_cons_iff, ← isSome_keyObstacle? x, ← isSome_keyObstacles? xs]
    cases keyObstacle? x <;> simp

end

/-- A list or tuple with an item that cannot be a key. -/
def ListsUnusable (v : Value) : Prop := ∃ xs, (v = list xs ∨ v = tuple xs) ∧ ∃ x ∈ xs, x.Unusable

theorem listsUnusable_list {xs : List Value} : (list xs).ListsUnusable ↔ ∃ x ∈ xs, x.Unusable := by
  simp [ListsUnusable]

theorem listsUnusable_tuple {xs : List Value} : (tuple xs).ListsUnusable ↔ ∃ x ∈ xs, x.Unusable := by
  simp [ListsUnusable]

theorem sameKey_text_iff {v : Value} {name : String} : sameKey v (text name) = true ↔ v = text name := by
  cases v <;> simp [sameKey, integer?]

/-- A value put under a text key leaves the values under all other names. -/
theorem lookupText_insertKeyed_of_ne {key name : String} (hne : key ≠ name) (v : Value)
    (es : List (Value × Value)) :
    lookupText name (insertKeyed (text key) v es) = lookupText name es := by
  induction es with
  | nil => simp [insertKeyed, lookupText, hne]
  | cons e es ih =>
    obtain ⟨k, w⟩ := e
    rw [insertKeyed]
    by_cases hk : sameKey k (text key) = true
    · obtain rfl := sameKey_text_iff.mp hk
      simp [lookupText, hk, hne]
    · rw [if_neg hk]
      unfold lookupText at ih ⊢
      rw [List.findSome?_cons, List.findSome?_cons, ih]

end Value

namespace Descriptor

open Reader

/-- Reading fails for an unusable key under one condition, and else succeeds. -/
def StopsIf {α : Type} (p : Prop) (x : Except ReadError α) : Prop :=
  (¬ p ∧ ∃ a, x = .ok a) ∨ p ∧ ∃ kind, x = .error (.unusableKey kind)

theorem stopsIf_sequenceAsMapping (value : Value) (items : List Value) :
    StopsIf (∃ x ∈ items, x.Unusable) (sequenceAsMapping value items) := by
  unfold sequenceAsMapping
  cases h : items.findSome? Value.keyObstacle? with
  | none =>
    refine .inl ⟨?_, _, rfl⟩
    rintro ⟨x, hx, hu⟩
    simp [List.findSome?_eq_none_iff.mp h x hx, ← Value.isSome_keyObstacle?] at hu
  | some kind =>
    obtain ⟨x, hx, hk⟩ := List.exists_of_findSome?_eq_some h
    exact .inr ⟨⟨x, hx, (Value.isSome_keyObstacle? x).mp (by rw [hk]; rfl)⟩, kind, rfl⟩

theorem stopsIf_fullRelations (v : Value) : StopsIf v.ListsUnusable (fullRelations v) := by
  cases v with
  | list xs =>
    rw [Value.listsUnusable_list]
    exact stopsIf_sequenceAsMapping _ xs
  | tuple xs =>
    rw [Value.listsUnusable_tuple]
    exact stopsIf_sequenceAsMapping _ xs
  | _ => exact .inl ⟨by simp [Value.ListsUnusable], _, rfl⟩

theorem stopsIf_fullSort (v : Value) : StopsIf v.ListsUnusable (fullSort v) := by
  cases v with
  | list xs =>
    rw [Value.listsUnusable_list]
    exact stopsIf_sequenceAsMapping _ xs
  | tuple xs =>
    rw [Value.listsUnusable_tuple]
    exact stopsIf_sequenceAsMapping _ xs
  | _ => exact .inl ⟨by simp [Value.ListsUnusable], _, rfl⟩

/-- A field of a record is given, and lists an item that cannot be a key. -/
def FieldListsUnusable (f : FieldName) (record : List (Value × Value)) : Prop :=
  ∃ spelling v, f.find? record = some (spelling, v) ∧ v.ListsUnusable

theorem stopsIf_rewriteField {rewrite : Value → Except ReadError Value}
    (h : ∀ v, StopsIf v.ListsUnusable (rewrite v)) (f : FieldName) (record : List (Value × Value)) :
    StopsIf (FieldListsUnusable f record) (rewriteField f rewrite record) := by
  unfold rewriteField FieldListsUnusable
  cases f.find? record with
  | none => exact .inl ⟨by simp, record, rfl⟩
  | some found =>
    obtain ⟨spelling, v⟩ := found
    rcases h v with ⟨hv, w, hw⟩ | ⟨hv, kind, hw⟩
    · exact .inl ⟨by simpa using hv, _, by simp only [hw]; rfl⟩
    · exact .inr ⟨by simpa using hv, kind, by simp only [hw]; rfl⟩

/-- Relations that have been written out leave the sort entries as they were given. -/
theorem fieldListsUnusable_sort {record full : List (Value × Value)}
    (h : rewriteField relationsName fullRelations record = .ok full) :
    FieldListsUnusable sortName full ↔ FieldListsUnusable sortName record := by
  have hfind : sortName.find? full = sortName.find? record := by
    unfold rewriteField at h
    cases hf : relationsName.find? record with
    | none =>
      rw [hf] at h
      cases h
      rfl
    | some found =>
      obtain ⟨spelling, v⟩ := found
      rw [hf] at h
      obtain ⟨w, -, rfl⟩ := ok_of_map h
      have hspelling : spelling = "relations" := by
        unfold FieldName.find? at hf
        split at hf
        · cases hf
          rfl
        · obtain ⟨_, -, hv⟩ := Option.map_eq_some_iff.mp hf
          cases hv
          rfl
      subst hspelling
      unfold FieldName.find?
      rw [Value.lookupText_insertKeyed_of_ne (by decide), Value.lookupText_insertKeyed_of_ne (by decide)]
  unfold FieldListsUnusable
  rw [hfind]

/-- The relations or the sort entries of a record list an item that cannot be a key. -/
def ListsUnusable (record : List (Value × Value)) : Prop :=
  FieldListsUnusable relationsName record ∨ FieldListsUnusable sortName record

/-- A record is read, or all its faults are told, unless it lists an item that cannot be a key. -/
theorem ofValue_mapping (record : List (Value × Value)) :
    (¬ ListsUnusable record ∧
      ((∃ d, ofValue (.mapping record) = .ok d) ∨ ∃ fs, ofValue (.mapping record) = .error (.faults fs))) ∨
    ListsUnusable record ∧ ∃ kind, ofValue (.mapping record) = .error (.unusableKey kind) := by
  unfold ofValue ListsUnusable
  rcases stopsIf_rewriteField stopsIf_fullRelations relationsName record with
    ⟨hr, full, hfull⟩ | ⟨hr, kind, hkind⟩
  · rw [← fieldListsUnusable_sort hfull]
    simp only [hfull, Except.bind]
    rcases stopsIf_rewriteField stopsIf_fullSort sortName full with
      ⟨hs, whole, hwhole⟩ | ⟨hs, kind, hkind⟩
    · refine .inl ⟨not_or.mpr ⟨hr, hs⟩, ?_⟩
      simp only [hwhole]
      cases readRecord whole with
      | ok d => exact .inl ⟨d, rfl⟩
      | error fs => exact .inr ⟨fs, rfl⟩
    · exact .inr ⟨.inr hs, kind, by simp only [hkind]⟩
  · exact .inr ⟨.inl hr, kind, by simp only [hkind, Except.bind]⟩

end Descriptor

/-- The input is a mapping whose relations or sort entries list an item that cannot be a key. -/
def QueryInput.ListsUnusable : QueryInput → Prop
  | value (.mapping record) => Descriptor.ListsUnusable record
  | _ => False

/-- The operations that read by a descriptor. -/
inductive Reading where
  | explain | fetchOne | fetchAll | count
  deriving DecidableEq, Repr

namespace Reading

def operation : Reading → String
  | explain => "explain"
  | fetchOne => "fetch_one"
  | fetchAll => "fetch_all"
  | count => "count"

/-- Whether nothing at all stands for the descriptor that asks for everything. -/
def allowsNone : Reading → Bool
  | explain | count => true
  | fetchOne | fetchAll => false

def step : Reading → QueryInput → Step
  | explain => .explain
  | fetchOne => .fetchOne
  | fetchAll => .fetchAll
  | count => .count

/-- The answer of an operation that fails. -/
def failed (e : QueryError) : Reading → StepReply
  | explain => .explained (.error e)
  | fetchOne => .fetched (.one (.error e))
  | fetchAll => .fetched (.all (.error e))
  | count => .counted (.error e)

/-- The descriptor of what an operation is given. -/
def resolve (r : Reading) (input : QueryInput) : Except QueryError Descriptor :=
  input.resolve r.operation r.allowsNone

/-- An operation whose input is refused answers the refusal, and changes nothing. -/
theorem run_of_resolve {r : Reading} {input : QueryInput} {e : QueryError}
    (h : r.resolve input = .error e) (s : Schema) (w : World) :
    (r.step input).run s w = (r.failed e, w) := by
  have hrun : ∀ {α : Type} (f : Descriptor × Plan → Work α),
      Repository.run w.repository (Repository.plan s input r.operation r.allowsNone >>= f) =
        (.error e, ⟨w.repository, []⟩) := by
    intro α f
    change (Repository.plan s input r.operation r.allowsNone >>= f).run _ = _
    rw [Work.run_bind, Repository.run_plan_refused h]
  cases r
  all_goals
    dsimp only [operation, allowsNone] at hrun
    simp only [step, Step.run, failed, Repository.explain, Repository.fetchOne, Repository.fetchAll,
      Repository.count, hrun]

theorem resolve_cases (r : Reading) (input : QueryInput) :
    (¬ input.ListsUnusable ∧
      ((∃ d, r.resolve input = .ok d) ∨ ∃ e, r.resolve input = .error e ∧ e.kind = .invalidArgument)) ∨
    input.ListsUnusable ∧ ∃ kind, r.resolve input = .error (.unusableKey kind) := by
  unfold resolve
  cases input with
  | descriptor d => exact .inl ⟨not_false, .inl ⟨d, rfl⟩⟩
  | value v =>
    cases v with
    | mapping record =>
      unfold QueryInput.resolve QueryInput.ListsUnusable
      rcases Descriptor.ofValue_mapping record with
        ⟨hu, ⟨d, hd⟩ | ⟨fs, hfs⟩⟩ | ⟨hu, kind, hkind⟩
      · exact .inl ⟨hu, .inl ⟨d, by simp only [hd]⟩⟩
      · exact .inl ⟨hu, .inr ⟨.invalidDescriptor fs, by simp only [hfs], rfl⟩⟩
      · exact .inr ⟨hu, kind, by simp only [hkind]⟩
    | null =>
      refine .inl ⟨not_false, ?_⟩
      cases r with
      | explain | count => exact .inl ⟨{}, rfl⟩
      | fetchOne | fetchAll => exact .inr ⟨_, rfl, rfl⟩
    | _ => exact .inl ⟨not_false, .inr ⟨.notDescriptor r.operation, rfl, rfl⟩⟩

/-- An input is read or refused as an invalid argument exactly if its relations and sort entries list no
item that cannot be a key; such an item is an error of its own. Whatever the error is, it is what the
operation answers. -/
theorem resolve_invalidArgument_iff (r : Reading) (input : QueryInput) :
    ((∀ e, r.resolve input = .error e → e.kind = .invalidArgument) ↔ ¬ input.ListsUnusable) ∧
      (input.ListsUnusable → ∃ kind, r.resolve input = .error (.unusableKey kind)) ∧
      ∀ e, r.resolve input = .error e → ∀ s w, (r.step input).run s w = (r.failed e, w) := by
  rcases r.resolve_cases input with ⟨hu, hread⟩ | ⟨hu, kind, hkind⟩
  · refine ⟨iff_of_true (fun e he => ?_) hu, fun h => absurd h hu, fun e he => run_of_resolve he⟩
    rcases hread with ⟨d, hd⟩ | ⟨e', he', hinvalid⟩
    · cases he.symm.trans hd
    · cases he.symm.trans he'
      exact hinvalid
  · refine ⟨iff_of_false (fun h => ?_) (not_not_intro hu), fun _ => ⟨kind, hkind⟩,
      fun e he => run_of_resolve he⟩
    cases h _ hkind

/-- Relations of which one is given as a list of its own. -/
def nestedRelations : QueryInput :=
  .value (.mapping [(.text "relations", .list [.list [.text "comments"]])])

theorem not_invalidArgument_nestedRelations :
    ∃ e, fetchAll.resolve nestedRelations = .error e ∧ e.kind = .wrongType ∧
      ∀ s w, (fetchAll.step nestedRelations).run s w = (fetchAll.failed e, w) :=
  ⟨.unusableKey "list", rfl, rfl, run_of_resolve rfl⟩

end Reading
end EntityQuery
