import EntityQuery.Proofs.OuterForm
import EntityQuery.Proofs.QueryStrings
/-!
Renamings of aliases, and the descriptor of a query under other aliases. A relation key and a sort key name
an alias before their first dot, a filter key before the last dot of its path.
-/
namespace EntityQuery

namespace Text

/-- Whether a name is a stem, an underscore and a positive number. -/
def IsNumbered (name : String) : Prop :=
  ∃ stem n, 0 < n ∧ name = stem ++ "_" ++ toString (n : Nat)

theorem not_mem_of_splitFirstDot? {name head tail : String}
    (h : splitFirstDot? name = some (head, tail)) : '.' ∉ head.toList := by
  unfold splitFirstDot? at h
  split at h
  · cases h
  · cases h
    intro hdot
    rw [String.toList_ofList] at hdot
    simpa using List.mem_takeWhile_imp hdot

theorem not_mem_splitLastDot (path : String) : '.' ∉ (splitLastDot path).2.toList := by
  intro hdot
  simp only [splitLastDot, String.toList_ofList, List.mem_reverse] at hdot
  simpa using List.mem_takeWhile_imp hdot

/-- A text with a dot is divided at the last one. -/
theorem append_splitLastDot {path : String} (h : '.' ∈ path.toList) :
    path = (splitLastDot path).1 ++ "." ++ (splitLastDot path).2 := by
  have hparts := List.takeWhile_append_dropWhile (p := (· != '.')) (l := path.toList.reverse)
  have hfirst := List.head?_dropWhile_not (· != '.') path.toList.reverse
  unfold splitLastDot
  dsimp only
  cases hdrop : path.toList.reverse.dropWhile (· != '.') with
  | nil => simpa using List.dropWhile_eq_nil_iff.mp hdrop '.' (List.mem_reverse.mpr h)
  | cons c rest =>
    rw [hdrop] at hparts hfirst
    obtain rfl : c = '.' := by simpa using hfirst
    have hpath := congrArg List.reverse hparts
    refine String.ext ?_
    simpa using hpath.symm

theorem eq_of_splitLastDot {path : String} (h : (splitLastDot path).1 ≠ "") :
    path = (splitLastDot path).1 ++ "." ++ (splitLastDot path).2 := by
  refine append_splitLastDot (not_imp_comm.mp (fun hdot => ?_) h)
  rw [splitLastDot_dotless hdot]

theorem splitAt_ne_nil (sep : Char) (cs : List Char) : splitAt sep cs ≠ [] := by
  unfold splitAt
  split
  · exact List.cons_ne_nil _ _
  · split
    · exact List.cons_ne_nil _ _
    · split <;> exact List.cons_ne_nil _ _

theorem eq_append_of_splitAt {sep : Char} {cs a b : List Char} (h : splitAt sep cs = [a, b]) :
    cs = a ++ sep :: b ∧ sep ∉ a ∧ sep ∉ b := by
  by_cases hsep : sep ∈ cs
  · obtain ⟨before, after, rfl, hbefore⟩ := List.eq_append_cons_of_mem hsep
    rw [splitAt_append hbefore] at h
    obtain ⟨rfl, hlast⟩ := List.cons.inj h
    by_cases hafter : sep ∈ after
    · obtain ⟨middle, rest, rfl, hmiddle⟩ := List.eq_append_cons_of_mem hafter
      rw [splitAt_append hmiddle] at hlast
      exact absurd (List.cons.inj hlast).2 (splitAt_ne_nil sep rest)
    · rw [splitAt_without hafter] at hlast
      cases hlast
      exact ⟨rfl, hbefore, hafter⟩
  · rw [splitAt_without hsep] at h
    cases h

end Text

theorem splitFilterKey?_eq_some {key path name : String}
    (h : splitFilterKey? key = some (path, name)) :
    key = path ++ ":" ++ name ∧ ':' ∉ path.toList ∧ ':' ∉ name.toList := by
  unfold splitFilterKey? at h
  split at h
  · rename_i a b hsplit
    cases h
    obtain ⟨hkey, ha, hb⟩ := Text.eq_append_of_splitAt hsplit
    exact ⟨String.ext (by simpa using hkey), by simpa using ha, by simpa using hb⟩
  · cases h

/-- A map of aliases that tells them apart, brings no separator into an alias, and keeps the names that
statements number. -/
structure Renaming where
  rename : String → String
  injective : Function.Injective rename
  empty : rename "" = ""
  dotless : ∀ {a : String}, '.' ∉ a.toList → '.' ∉ (rename a).toList
  colonless : ∀ {a : String}, ':' ∉ a.toList → ':' ∉ (rename a).toList
  numbered : ∀ {a : String}, Text.IsNumbered a → rename a = a

instance : CoeFun Renaming fun _ => String → String := ⟨Renaming.rename⟩

/-! ### Keys -/

/-- A key under another alias before its first dot. -/
def renamedHead (f : String → String) (key : String) : String :=
  match Text.splitFirstDot? key with
  | some (a, rest) => f a ++ "." ++ rest
  | none => key

/-- A path under another alias before its last dot. -/
def renamedPath (f : String → String) (path : String) : String :=
  if (Text.splitLastDot path).1.isEmpty then path
  else f (Text.splitLastDot path).1 ++ "." ++ (Text.splitLastDot path).2

/-- A filter key whose path stands under another alias. -/
def renamedFilterKey (f : String → String) (key : String) : String :=
  match splitFilterKey? key with
  | some (path, operator) => renamedPath f path ++ ":" ++ operator
  | none => key

section

variable (f : Renaming)

theorem Renaming.eq_empty_iff {a : String} : f a = "" ↔ a = "" :=
  ⟨fun h => f.injective (h.trans f.empty.symm), fun h => h ▸ f.empty⟩

theorem splitFirstDot?_renamedHead (key : String) :
    Text.splitFirstDot? (renamedHead f key) =
      (Text.splitFirstDot? key).map fun parts => (f parts.1, parts.2) := by
  unfold renamedHead
  cases h : Text.splitFirstDot? key with
  | none => exact h
  | some parts =>
    exact Text.splitFirstDot?_append (f.dotless (Text.not_mem_of_splitFirstDot? h))

theorem renamedHead_injective : Function.Injective (renamedHead f) := by
  intro key other h
  have hparts := congrArg Text.splitFirstDot? h
  rw [splitFirstDot?_renamedHead, splitFirstDot?_renamedHead] at hparts
  cases hkey : Text.splitFirstDot? key with
  | none =>
    rw [hkey] at hparts
    have hother := Option.map_eq_none_iff.mp hparts.symm
    simpa only [renamedHead, hkey, hother] using h
  | some parts =>
    rw [hkey] at hparts
    obtain ⟨parts', hother, hsame⟩ := Option.map_eq_some_iff.mp hparts.symm
    obtain ⟨hhead, hrest⟩ := Prod.mk.inj hsame
    rw [Text.splitFirstDot?_eq_some hkey, Text.splitFirstDot?_eq_some hother, f.injective hhead, hrest]

theorem splitLastDot_renamedPath (path : String) :
    Text.splitLastDot (renamedPath f path) =
      (f (Text.splitLastDot path).1, (Text.splitLastDot path).2) := by
  unfold renamedPath
  split
  · rename_i h
    have hempty : (Text.splitLastDot path).1 = "" := by simpa using h
    rw [hempty, f.empty, ← hempty]
  · exact Text.splitLastDot_append (Text.not_mem_splitLastDot path)

theorem renamedPath_injective : Function.Injective (renamedPath f) := by
  intro path other h
  have hparts := congrArg Text.splitLastDot h
  rw [splitLastDot_renamedPath, splitLastDot_renamedPath] at hparts
  obtain ⟨hrenamed, hfield⟩ := Prod.mk.inj hparts
  have halias := f.injective hrenamed
  by_cases hempty : (Text.splitLastDot path).1 = ""
  · have hempty' := halias.symm.trans hempty
    simpa [renamedPath, hempty, hempty'] using h
  · have hempty' : (Text.splitLastDot other).1 ≠ "" := halias ▸ hempty
    rw [Text.eq_of_splitLastDot hempty, halias, hfield, ← Text.eq_of_splitLastDot hempty']

theorem not_mem_renamedPath {path : String} (h : ':' ∉ path.toList) :
    ':' ∉ (renamedPath f path).toList := by
  unfold renamedPath
  split
  · exact h
  · rename_i hempty
    have halias : (Text.splitLastDot path).1 ≠ "" := by simpa using hempty
    rw [Text.eq_of_splitLastDot halias] at h
    simp only [String.toList_append, List.mem_append, not_or] at h ⊢
    exact ⟨⟨f.colonless h.1.1, h.1.2⟩, h.2⟩

theorem splitFilterKey?_renamedFilterKey (key : String) :
    splitFilterKey? (renamedFilterKey f key) =
      (splitFilterKey? key).map fun parts => (renamedPath f parts.1, parts.2) := by
  unfold renamedFilterKey
  cases h : splitFilterKey? key with
  | none => exact h
  | some parts =>
    obtain ⟨-, hpath, hname⟩ := splitFilterKey?_eq_some h
    exact splitFilterKey?_append (not_mem_renamedPath f hpath) hname

theorem renamedFilterKey_injective : Function.Injective (renamedFilterKey f) := by
  intro key other h
  have hparts := congrArg splitFilterKey? h
  rw [splitFilterKey?_renamedFilterKey, splitFilterKey?_renamedFilterKey] at hparts
  cases hkey : splitFilterKey? key with
  | none =>
    rw [hkey] at hparts
    have hother := Option.map_eq_none_iff.mp hparts.symm
    simpa only [renamedFilterKey, hkey, hother] using h
  | some parts =>
    rw [hkey] at hparts
    obtain ⟨parts', hother, hsame⟩ := Option.map_eq_some_iff.mp hparts.symm
    obtain ⟨hpath, hname⟩ := Prod.mk.inj hsame
    rw [(splitFilterKey?_eq_some hkey).1, (splitFilterKey?_eq_some hother).1,
      renamedPath_injective f hpath, hname]

end

/-! ### Maps and descriptors -/

namespace OrderedMap

variable {α β : Type}

/-- A map with other names, and with values that may depend on the names before. -/
def renamed (f : String → String) (g : String → α → β) (m : OrderedMap α) : OrderedMap β :=
  ofList (m.entries.map fun e => (f e.1, g e.1 e.2))

theorem renamed_congr {f f' : String → String} {g g' : String → α → β} {m : OrderedMap α}
    (h : ∀ e ∈ m.entries, f e.1 = f' e.1 ∧ g e.1 e.2 = g' e.1 e.2) :
    m.renamed f g = m.renamed f' g' := by
  unfold renamed
  refine congrArg ofList (List.map_congr_left fun e he => ?_)
  rw [(h e he).1, (h e he).2]

variable {f : String → String} (hf : Function.Injective f) (g : String → α → β) (m : OrderedMap α)

include hf

theorem entries_renamed :
    (m.renamed f g).entries = m.entries.map fun e => (f e.1, g e.1 e.2) := by
  refine entries_ofList ?_
  rw [List.map_map]
  have hkeys := m.nodup.map hf
  rwa [List.map_map] at hkeys

theorem find?_renamed (name : String) :
    (m.renamed f g).find? (f name) = (m.find? name).map (g name) := by
  unfold find?
  rw [entries_renamed hf]
  induction m.entries with
  | nil => rfl
  | cons e rest ih =>
    rw [List.map_cons, List.lookup_cons, List.lookup_cons, ih]
    by_cases h : name = e.1
    · subst h
      simp
    · rw [beq_false_of_ne h, beq_false_of_ne fun he => h (hf he)]

theorem renamed_insert (name : String) (v : α) :
    (m.insert name v).renamed f g = (m.renamed f g).insert (f name) (g name v) := by
  refine OrderedMap.ext ?_
  rw [entries_renamed hf, entries_insert, entries_insert, entries_renamed hf]
  induction m.entries with
  | nil => rfl
  | cons e rest ih =>
    rw [List.map_cons]
    unfold insertEntry
    by_cases h : e.1 = name
    · rw [if_pos h, if_pos (congrArg f h), h]
      rfl
    · rw [if_neg h, if_neg fun he => h (hf he), List.map_cons, ih]

end OrderedMap

/-- Options of the relation under a key that give its alias another name. -/
def RelationOptions.renamed (f : String → String) (key : String) (o : RelationOptions) :
    RelationOptions :=
  { o with joinAlias := some (f (Plan.joinAlias key o)) }

/-- A query under other aliases: in the options of its relations, and in its keys. -/
def Descriptor.renamed (f : String → String) (d : Descriptor) : Descriptor :=
  { d with
    relations := d.relations.renamed (renamedHead f) (RelationOptions.renamed f)
    parameters := d.parameters.renamed (renamedFilterKey f) fun _ v => v
    sort := d.sort.renamed (renamedHead f) fun _ direction => direction }

end EntityQuery
