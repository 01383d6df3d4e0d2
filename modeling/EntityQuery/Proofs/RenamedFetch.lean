import EntityQuery.Proofs.RenamedNames
import EntityQuery.Proofs.Walk
/-!
Fresh aliases. The aliases of a query are bound names: where they are words that tell themselves apart,
fresh words in their places change nothing that is fetched or counted.
-/
namespace EntityQuery

namespace Text

/-- Whether a name is made of ASCII letters, digits and underscores. -/
def isWord (name : String) : Bool :=
  !name.isEmpty && name.toList.all fun c => c.isAlphanum || c == '_'

theorem not_mem_of_isWord {name : String} (h : isWord name = true) {c : Char}
    (hc : (c.isAlphanum || c == '_') = false) : c ∉ name.toList := fun hmem => by
  have hall := List.all_eq_true.mp (Bool.and_eq_true_iff.mp h).2 c hmem
  rw [hc] at hall
  cases hall

theorem ne_empty_of_isWord {name : String} (h : isWord name = true) : name ≠ "" := by
  rintro rfl
  cases h

/-! ### Numbered names and case -/

/-- Lower case gives a small letter, or the character itself. -/
theorem toLower_eq {c d : Char} (h : c.toLower = d) (hd : ¬ d.isLower = true) : c = d := by
  unfold Char.toLower at h
  split at h
  · rename_i hupper
    subst h
    refine absurd ?_ hd
    obtain ⟨hlow, hhigh⟩ := hupper
    rw [ge_iff_le, UInt32.le_iff_toNat_le] at hlow
    rw [UInt32.le_iff_toNat_le] at hhigh
    simp only [Char.isLower, ge_iff_le, UInt32.le_iff_toNat_le, UInt32.toNat_add, Bool.and_eq_true,
      decide_eq_true_eq]
    change 65 ≤ c.val.toNat at hlow
    change c.val.toNat ≤ 90 at hhigh
    change 97 ≤ (c.val.toNat + 32) % 4294967296 ∧ (c.val.toNat + 32) % 4294967296 ≤ 122
    omega
  · exact h

theorem not_isLower_of_isDigit {c : Char} (h : c.isDigit = true) : ¬ c.isLower = true := by
  simp only [Char.isDigit, Char.isLower, ge_iff_le, UInt32.le_iff_toNat_le, Bool.and_eq_true,
    decide_eq_true_eq] at h ⊢
  change 48 ≤ c.val.toNat ∧ c.val.toNat ≤ 57 at h
  change ¬ (97 ≤ c.val.toNat ∧ c.val.toNat ≤ 122)
  omega

theorem toLower_of_isDigit {c : Char} (h : c.isDigit = true) : c.toLower = c := by
  unfold Char.toLower
  refine dif_neg ?_
  simp only [Char.isDigit, ge_iff_le, UInt32.le_iff_toNat_le, Bool.and_eq_true,
    decide_eq_true_eq] at h ⊢
  change 48 ≤ c.val.toNat ∧ c.val.toNat ≤ 57 at h
  change ¬ (65 ≤ c.val.toNat ∧ c.val.toNat ≤ 90)
  omega

theorem isDigit_of_mem_toString {n : Nat} {c : Char} (hc : c ∈ (toString n).toList) :
    c.isDigit = true := by
  rw [Nat.toString_eq_repr, Nat.toList_repr] at hc
  exact Nat.isDigit_of_mem_toDigits (by decide) (by decide) hc

theorem not_isNumbered_of_not_mem {name : String} (h : '_' ∉ name.toList) : ¬ IsNumbered name := by
  rintro ⟨stem, n, -, rfl⟩
  exact h (by simp)

/-- A name that is numbered in lower case is numbered. -/
theorem isNumbered_of_lowerAscii {a b : String} (h : lowerAscii a = lowerAscii b)
    (hb : IsNumbered b) : IsNumbered a := by
  obtain ⟨stem, n, hn, rfl⟩ := hb
  have hdigits : (toString n).toList.map Char.toLower = (toString n).toList := by
    conv_rhs => rw [← List.map_id (toString n).toList]
    exact List.map_congr_left fun c hc => toLower_of_isDigit (isDigit_of_mem_toString hc)
  have hchars : a.toList.map Char.toLower =
      stem.toList.map Char.toLower ++ '_' :: (toString n).toList := by
    have hlower := congrArg String.toList h
    rw [← hdigits]
    simpa [lowerAscii] using hlower
  obtain ⟨front, back, ha, -, hback⟩ := List.map_eq_append_iff.mp hchars
  have hsame : back = '_' :: (toString n).toList := by
    rw [← hback]
    conv_lhs => rw [← List.map_id back]
    refine List.map_congr_left fun c hc => toLower_eq rfl ?_
    have hmem : c.toLower ∈ '_' :: (toString n).toList := hback ▸ List.mem_map_of_mem hc
    rcases List.mem_cons.mp hmem with hlast | hdigit
    · rw [hlast]
      decide
    · exact not_isLower_of_isDigit (isDigit_of_mem_toString hdigit)
  refine ⟨String.ofList front, n, hn, String.ext ?_⟩
  simp [ha, hsame]

end Text

/-! ### Exchanging aliases -/

/-- Aliases that can stand in a statement beside that of a root: words that are not numbered and, letters
in any case, differ from it and from each other. -/
structure AliasesApart (rootAlias : String) (aliases : List String) : Prop where
  word : ∀ a ∈ aliases, Text.isWord a = true
  unnumbered : ∀ a ∈ aliases, ¬ Text.IsNumbered a
  apart : ((rootAlias :: aliases).map Text.lowerAscii).Nodup

section

variable {rootAlias : String} {aliases : List String} {fresh : String → String}

theorem AliasesApart.nodup (h : AliasesApart rootAlias aliases) : (rootAlias :: aliases).Nodup :=
  h.apart.of_map _

theorem AliasesApart.eq_of_lowerAscii (h : AliasesApart rootAlias aliases) {a b : String}
    (ha : a ∈ rootAlias :: aliases) (hb : b ∈ rootAlias :: aliases)
    (hab : Text.lowerAscii a = Text.lowerAscii b) : a = b :=
  List.inj_on_of_nodup_map h.apart ha hb hab

/-- Exchanges each alias with its fresh one. -/
def exchange (aliases : List String) (fresh : String → String) (name : String) : String :=
  if name ∈ aliases then fresh name
  else (aliases.find? fun a => fresh a == name).getD name

theorem exchange_mem {name : String} (h : name ∈ aliases) : exchange aliases fresh name = fresh name :=
  if_pos h

theorem exchange_fresh (hinj : ∀ a ∈ aliases, ∀ b ∈ aliases, fresh a = fresh b → a = b)
    (hfresh : ∀ a ∈ aliases, fresh a ∉ aliases) {a : String} (ha : a ∈ aliases) :
    exchange aliases fresh (fresh a) = a := by
  unfold exchange
  rw [if_neg (hfresh a ha)]
  cases hfind : aliases.find? fun b => fresh b == fresh a with
  | none =>
    have hnone := List.find?_eq_none.mp hfind a ha
    simp at hnone
  | some b =>
    exact hinj b (List.mem_of_find?_eq_some hfind) a ha (by simpa using List.find?_some hfind)

theorem exchange_other {name : String} (h : name ∉ aliases) (hfresh : name ∉ aliases.map fresh) :
    exchange aliases fresh name = name := by
  unfold exchange
  rw [if_neg h, List.find?_eq_none.mpr fun a ha => ?_]
  · rfl
  · simpa using fun he => hfresh (List.mem_map.mpr ⟨a, ha, he⟩)

end

section

variable {rootAlias : String} {aliases : List String} {fresh : String → String}
  (hold : AliasesApart rootAlias aliases) (hnew : AliasesApart rootAlias (aliases.map fresh))
  (hfresh : ∀ a ∈ aliases, fresh a ∉ aliases)

include hold hnew hfresh

omit hold in
theorem exchange_exchange (name : String) :
    exchange aliases fresh (exchange aliases fresh name) = name := by
  have hinj := List.inj_on_of_nodup_map (List.nodup_cons.mp hnew.nodup).2
  by_cases hname : name ∈ aliases
  · rw [exchange_mem hname, exchange_fresh hinj hfresh hname]
  · by_cases hnext : name ∈ aliases.map fresh
    · obtain ⟨a, ha, rfl⟩ := List.mem_map.mp hnext
      rw [exchange_fresh hinj hfresh ha, exchange_mem ha]
    · rw [exchange_other hname hnext, exchange_other hname hnext]

/-- No separator comes into a name by the exchange. -/
theorem not_mem_exchange {c : Char} (hc : (c.isAlphanum || c == '_') = false) {name : String}
    (h : c ∉ name.toList) : c ∉ (exchange aliases fresh name).toList := by
  by_cases hname : name ∈ aliases
  · rw [exchange_mem hname]
    exact Text.not_mem_of_isWord (hnew.word _ (List.mem_map_of_mem hname)) hc
  · by_cases hnext : name ∈ aliases.map fresh
    · obtain ⟨a, ha, rfl⟩ := List.mem_map.mp hnext
      rw [exchange_fresh (List.inj_on_of_nodup_map (List.nodup_cons.mp hnew.nodup).2) hfresh ha]
      exact Text.not_mem_of_isWord (hold.word a ha) hc
    · rwa [exchange_other hname hnext]

omit hfresh in
theorem exchange_numbered {name : String} (h : Text.IsNumbered name) :
    exchange aliases fresh name = name :=
  exchange_other (fun hmem => hold.unnumbered _ hmem h) fun hmem => hnew.unnumbered _ hmem h

omit hfresh in
theorem exchange_root : exchange aliases fresh rootAlias = rootAlias :=
  exchange_other (List.nodup_cons.mp hold.nodup).1 (List.nodup_cons.mp hnew.nodup).1

/-- The exchange of aliases with fresh ones is a renaming. -/
def Renaming.ofFresh : Renaming where
  rename := exchange aliases fresh
  injective := Function.Involutive.injective (exchange_exchange hnew hfresh)
  empty := exchange_other (fun h => Text.ne_empty_of_isWord (hold.word _ h) rfl)
    fun h => Text.ne_empty_of_isWord (hnew.word _ h) rfl
  dotless := not_mem_exchange hold hnew hfresh (by decide)
  colonless := not_mem_exchange hold hnew hfresh (by decide)
  numbered := exchange_numbered hold hnew

/-- The exchange keeps which names of a statement are the same: an alias is none of those that are
numbered, and differs from the others before and after. -/
theorem Renaming.faithful_ofFresh : (Renaming.ofFresh hold hnew hfresh).Faithful
    fun a => a ∈ rootAlias :: aliases ∨ Text.IsNumbered a := by
  have hmem : ∀ {a}, a ∈ rootAlias :: aliases →
      exchange aliases fresh a ∈ rootAlias :: aliases.map fresh := by
    intro a ha
    rcases List.mem_cons.mp ha with rfl | ha
    · rw [exchange_root hold hnew]
      exact List.mem_cons_self
    · rw [exchange_mem ha]
      exact List.mem_cons_of_mem _ (List.mem_map_of_mem ha)
  have hmixed : ∀ {a b}, a ∈ rootAlias :: aliases → Text.IsNumbered b →
      (Text.lowerAscii (exchange aliases fresh a) = Text.lowerAscii b ↔
        Text.lowerAscii a = Text.lowerAscii b) := by
    intro a b ha hb
    rcases List.mem_cons.mp ha with rfl | ha
    · rw [exchange_root hold hnew]
    · rw [exchange_mem ha]
      exact iff_of_false
        (fun h => hnew.unnumbered _ (List.mem_map_of_mem ha) (Text.isNumbered_of_lowerAscii h hb))
        fun h => hold.unnumbered a ha (Text.isNumbered_of_lowerAscii h hb)
  intro a b ha hb
  change Text.lowerAscii (exchange aliases fresh a) = Text.lowerAscii (exchange aliases fresh b) ↔ _
  rcases ha with ha | ha
  · rcases hb with hb | hb
    · constructor
      · intro h
        have hsame := hnew.eq_of_lowerAscii (hmem ha) (hmem hb) h
        rw [(Renaming.ofFresh hold hnew hfresh).injective hsame]
      · intro h
        rw [hold.eq_of_lowerAscii ha hb h]
    · rw [exchange_numbered hold hnew hb]
      exact hmixed ha hb
  · rw [exchange_numbered hold hnew ha]
    rcases hb with hb | hb
    · rw [eq_comm, hmixed hb ha, eq_comm]
    · rw [exchange_numbered hold hnew hb]

end

/-! ### Queries under fresh aliases -/

/-- The alias that a relation key or a sort key names, if any. -/
def headAlias? (key : String) : Option String := (Text.splitFirstDot? key).map Prod.fst

/-- The alias that the path of a filter key names, if any. -/
def pathAlias? (key : String) : Option String :=
  (splitFilterKey? key).map fun parts => (Text.splitLastDot parts.1).1

theorem renamedHead_congr {f g : String → String} {key : String}
    (h : ∀ a, headAlias? key = some a → f a = g a) : renamedHead f key = renamedHead g key := by
  unfold renamedHead
  unfold headAlias? at h
  cases hkey : Text.splitFirstDot? key with
  | none => rfl
  | some parts =>
    rw [hkey] at h
    exact congrArg (fun a => a ++ "." ++ parts.2) (h parts.1 rfl)

theorem renamedFilterKey_congr {f g : String → String} {key : String}
    (h : ∀ a, pathAlias? key = some a → f a = g a) :
    renamedFilterKey f key = renamedFilterKey g key := by
  unfold renamedFilterKey
  unfold pathAlias? at h
  cases hkey : splitFilterKey? key with
  | none => rfl
  | some parts =>
    rw [hkey] at h
    unfold renamedPath
    dsimp only
    rw [h _ rfl]

namespace Descriptor

variable {d : Descriptor} {fresh : String → String}

/-- The names that stand in a query where an alias can stand. -/
def namedAliases (d : Descriptor) : List String :=
  d.joinAliases ++ d.relations.keys.filterMap headAlias? ++ d.sort.keys.filterMap headAlias? ++
    d.parameters.keys.filterMap pathAlias?

/-- The fresh alias in the place of a join alias; any other name stays. -/
def newAlias (fresh : String → String) (d : Descriptor) (a : String) : String :=
  if a ∈ d.joinAliases then fresh a else a

/-- A query whose joins stand under fresh aliases. -/
def withAliases (fresh : String → String) (d : Descriptor) : Descriptor :=
  d.renamed (d.newAlias fresh)

theorem mem_namedAliases_relation {e : String × RelationOptions} (he : e ∈ d.relations.entries) :
    Plan.joinAlias e.1 e.2 ∈ d.namedAliases ∧ ∀ a, headAlias? e.1 = some a → a ∈ d.namedAliases := by
  have halias : Plan.joinAlias e.1 e.2 ∈ d.joinAliases :=
    List.mem_map_of_mem (f := fun e => Plan.joinAlias e.1 e.2) he
  have hkey : e.1 ∈ d.relations.keys := List.mem_map_of_mem he
  refine ⟨by simp [namedAliases, halias], fun a ha => ?_⟩
  have hhead : a ∈ d.relations.keys.filterMap headAlias? := List.mem_filterMap.mpr ⟨_, hkey, ha⟩
  simp [namedAliases, hhead]

theorem mem_namedAliases_sort {e : String × Direction} (he : e ∈ d.sort.entries) {a : String}
    (ha : headAlias? e.1 = some a) : a ∈ d.namedAliases := by
  have hkey : e.1 ∈ d.sort.keys := List.mem_map_of_mem he
  have hhead : a ∈ d.sort.keys.filterMap headAlias? := List.mem_filterMap.mpr ⟨_, hkey, ha⟩
  simp [namedAliases, hhead]

theorem mem_namedAliases_parameter {e : String × Value} (he : e ∈ d.parameters.entries) {a : String}
    (ha : pathAlias? e.1 = some a) : a ∈ d.namedAliases := by
  have hkey : e.1 ∈ d.parameters.keys := List.mem_map_of_mem he
  have hpath : a ∈ d.parameters.keys.filterMap pathAlias? := List.mem_filterMap.mpr ⟨_, hkey, ha⟩
  simp [namedAliases, hpath]

/-- Renamings that agree on the aliases of a query rename it alike. -/
theorem renamed_congr {f g : String → String} (h : ∀ a ∈ d.namedAliases, f a = g a) :
    d.renamed f = d.renamed g := by
  have hrelations : d.relations.renamed (renamedHead f) (RelationOptions.renamed f) =
      d.relations.renamed (renamedHead g) (RelationOptions.renamed g) := by
    refine OrderedMap.renamed_congr fun e he => ?_
    obtain ⟨halias, hhead⟩ := mem_namedAliases_relation he
    refine ⟨renamedHead_congr fun a ha => h a (hhead a ha), ?_⟩
    unfold RelationOptions.renamed
    rw [h _ halias]
  have hsort : d.sort.renamed (renamedHead f) (fun _ direction => direction) =
      d.sort.renamed (renamedHead g) fun _ direction => direction :=
    OrderedMap.renamed_congr fun e he =>
      ⟨renamedHead_congr fun a ha => h a (mem_namedAliases_sort he ha), rfl⟩
  have hparameters : d.parameters.renamed (renamedFilterKey f) (fun _ v => v) =
      d.parameters.renamed (renamedFilterKey g) fun _ v => v :=
    OrderedMap.renamed_congr fun e he =>
      ⟨renamedFilterKey_congr fun a ha => h a (mem_namedAliases_parameter he ha), rfl⟩
  unfold renamed
  rw [hrelations, hsort, hparameters]

/-- Fresh aliases stand in the places where the exchange puts them. -/
theorem newAlias_eq_exchange (hfresh : ∀ a ∈ d.joinAliases, fresh a ∉ d.namedAliases) {a : String}
    (ha : a ∈ d.namedAliases) : d.newAlias fresh a = exchange d.joinAliases fresh a := by
  unfold newAlias
  split
  · rename_i hmem
    exact (exchange_mem hmem).symm
  · rename_i hmem
    refine (exchange_other hmem fun hnext => ?_).symm
    obtain ⟨b, hb, rfl⟩ := List.mem_map.mp hnext
    exact hfresh b hb ha

end Descriptor

/-! ### Fetching and counting -/

/-- A renaming suits a plan without join conditions if it keeps the alias of the root, and which names of
its statements are the same. -/
structure Renaming.Suits (s : Schema) (p : Plan) (f : Renaming) : Prop where
  layout : p.Layout s
  absent : ∀ j ∈ p.joins, j.condition = .absent
  predicates : ∀ q ∈ p.predicates, ∀ c ∈ q.columns, p.InStatement c.aliasName
  root : f p.rootAlias = p.rootAlias
  faithful : f.Faithful p.InStatement

namespace Repository

open Plan

variable {s : Schema} {db : Database} {p : Plan} {f : Renaming} {r : Repository} {d : Descriptor}

/-- A plan loads the same under other aliases. -/
theorem load_renamed (h : f.Suits s p) {o : Outline} (ho : p.outline = .ok o) :
    load s db (p.renamed f) (renamedOutline f o) = load s db p o := by
  obtain ⟨hj, horder⟩ := outline_eq_ok ho
  obtain ⟨hst, hfollows⟩ := resolveJoins_eq_ok h.layout hj
  have hassemble : (p.renamed f).assemble (renamedOutline f o).1 (renamedOutline f o).2 =
      (p.assemble o.1 o.2).map (Selection.renamed f) := assemble_renamed h.root o.1 o.2
  unfold load
  rw [hassemble]
  cases hsel : p.assemble o.1 o.2 with
  | error e => rfl
  | ok selection =>
    have hwithin : selection.select.Within p.InStatement := by
      cases assemble_eq_ok hst hsel
      exact ⟨fun c hc => inStatement_of_names (names_loadTree hst c hc),
        List.forall_mem_singleton.mpr (within_joined hst (linked_of_absent h.absent hfollows)),
        within_conditions h.predicates,
        fun c hc => inStatement_of_names (names_orderColumns h.layout horder c hc)⟩
    have hrun : (selection.select.renamed f).run s db = selection.select.run s db := by
      unfold Select.run
      rw [Select.check_renamed h.faithful hwithin, Select.rows_renamed]
    change ((selection.select.renamed f).run s db >>= loadRows s (selection.tree.renamed f)) =
      selection.select.run s db >>= loadRows s selection.tree
    rw [hrun, loadRows_renamed]

/-- A plan counts the same under other aliases. -/
theorem countRows_renamed (h : f.Suits s p) : countRows s db (p.renamed f) = countRows s db p := by
  unfold countRows
  rw [keySelection_renamed h.root]
  cases hkeys : p.keySelection with
  | error e => rfl
  | ok keys =>
    have hwithin : keys.Within p.InStatement := by
      obtain ⟨js, hj, hkeys⟩ := ok_of_bind hkeys
      obtain ⟨hst, hfollows⟩ := resolveJoins_eq_ok h.layout hj
      cases assembleKeys_eq_ok hst hkeys
      refine ⟨fun c hc => ?_,
        List.forall_mem_singleton.mpr (within_joined hst (linked_of_absent h.absent hfollows)),
        within_conditions h.predicates, fun c hc => absurd hc List.not_mem_nil⟩
      obtain ⟨column, -, rfl⟩ := List.mem_map.mp hc
      exact .inl List.mem_cons_self
    change (keys.renamed f).runCount s db = keys.runCount s db
    unfold Select.runCount Select.countDistinct
    rw [Select.check_renamed h.faithful hwithin, Select.rows_renamed, Select.cells_renamed]

theorem hydrate_renamed (hroot : f p.rootAlias = p.rootAlias) :
    hydrate db (p.renamed f) = hydrate db p := by
  have hunfolding : unfolding db (p.renamed f) = unfolding db p := by
    unfold unfolding
    rw [collectionIndex_renamed f hroot]
  funext hydration g roots
  unfold hydrate
  rw [hunfolding]

theorem shape_renamed (hroot : f p.rootAlias = p.rootAlias) : shape db (p.renamed f) = shape db p := by
  have hunfolding : unfolding db (p.renamed f) = unfolding db p := by
    unfold unfolding
    rw [collectionIndex_renamed f hroot]
  funext hydration g roots
  unfold shape hydrateIndexed
  rw [hydrate_renamed hroot, hunfolding]
  rfl

theorem readAll_renamed (h : f.Suits s p) {o : Outline} (ho : p.outline = .ok o) (hydration : Hydration) :
    readAll s db (p.renamed f) hydration (renamedOutline f o) = readAll s db p hydration o := by
  unfold readAll
  rw [load_renamed h ho, shape_renamed h.root]

theorem readOne_renamed (h : f.Suits s p) {o : Outline} (ho : p.outline = .ok o) (hydration : Hydration) :
    readOne s db (p.renamed f) hydration (renamedOutline f o) = readOne s db p hydration o := by
  unfold readOne
  rw [load_renamed h ho, hydrate_renamed h.root]

/-- The entries of a sort that are left unresolved are entries of the query. -/
theorem unresolvedSort_subset (hp : planOf s r d = .ok p) : p.unresolvedSort ⊆ d.sort.entries := by
  obtain ⟨first, joined, filtered, -, -, -, rfl⟩ := build_eq_ok hp
  exact List.filter_subset_self _

end Repository

/-- A query can take fresh aliases beside a root: its joins have no conditions, its aliases and the fresh
ones can stand beside that of the root, and the query names none of the fresh ones. -/
structure Descriptor.CanTake (rootAlias : String) (fresh : String → String) (d : Descriptor) : Prop where
  bare : ∀ e ∈ d.relations.entries, e.2.condition = .null
  old : AliasesApart rootAlias d.joinAliases
  new : AliasesApart rootAlias (d.joinAliases.map fresh)
  unnamed : ∀ a ∈ d.joinAliases, fresh a ∉ d.namedAliases

namespace Descriptor.CanTake

open Plan Repository

variable {s : Schema} {p : Plan} {r : Repository} {d : Descriptor} {fresh : String → String}

theorem other {rootAlias : String} (h : d.CanTake rootAlias fresh) :
    ∀ a ∈ d.joinAliases, fresh a ∉ d.joinAliases := fun a ha hmem =>
  h.unnamed a ha (by simp [namedAliases, hmem])

/-- The renaming that exchanges the aliases with the fresh ones. -/
def toRenaming {rootAlias : String} (h : d.CanTake rootAlias fresh) : Renaming :=
  .ofFresh h.old h.new h.other

theorem toRenaming_root {rootAlias : String} (h : d.CanTake rootAlias fresh) :
    h.toRenaming rootAlias = rootAlias := exchange_root h.old h.new

theorem newAlias_eq {rootAlias : String} (h : d.CanTake rootAlias fresh) {a : String}
    (ha : a ∈ d.namedAliases) : d.newAlias fresh a = h.toRenaming a :=
  newAlias_eq_exchange h.unnamed ha

theorem withAliases_eq {rootAlias : String} (h : d.CanTake rootAlias fresh) :
    d.withAliases fresh = d.renamed h.toRenaming := renamed_congr fun _ => h.newAlias_eq

/-- The renaming suits every plan that is built for the query. -/
theorem suits (h : d.CanTake r.builder.root.aliasName fresh) (hp : planOf s r d = .ok p) :
    h.toRenaming.Suits s p where
  layout := layout_build h.old.nodup hp
  absent := fun j hj =>
    have ⟨e, he, hasked⟩ := exists_of_forall₂ (build_joins hp) hj
    hasked.condition (h.bare e he)
  predicates := fun q hq c hc => inStatement_of_names (names_predicates h.old.nodup hp q hq c hc)
  root := by
    unfold Plan.rootAlias
    rw [(build_frame hp).1]
    exact h.toRenaming_root
  faithful := by
    unfold InStatement
    rw [aliasNames_build hp]
    exact Renaming.faithful_ofFresh h.old h.new h.other

/-- The plan of the query under the fresh aliases. -/
theorem planOf_withAliases (hs : s.Identifiers) (hroot : r.builder.root ∈ s.entities)
    (h : d.CanTake r.builder.root.aliasName fresh) :
    (planOf s r (d.withAliases fresh)).toOption =
      (planOf s r d).toOption.map (Plan.renamed h.toRenaming) := by
  rw [h.withAliases_eq]
  refine build_renamed hs hroot h.toRenaming_root h.bare fun a ha => ?_
  exact ⟨Text.ne_empty_of_isWord (h.old.word a ha),
    Text.not_mem_of_isWord (h.old.word a ha) (by decide)⟩

/-- The unresolved sort of the query under the fresh aliases. -/
theorem renamedSort_eq (h : d.CanTake r.builder.root.aliasName fresh) (hp : planOf s r d = .ok p) :
    renamedSort h.toRenaming p.unresolvedSort = renamedSort (d.newAlias fresh) p.unresolvedSort := by
  refine List.map_congr_left fun e he => ?_
  rw [renamedHead_congr fun a ha =>
    (h.newAlias_eq (mem_namedAliases_sort (unresolvedSort_subset hp he) ha)).symm]

end Descriptor.CanTake

namespace Repository

variable {s : Schema} {r : Repository} {d : Descriptor} {fresh : String → String}

/-- Fresh aliases in the places of those of a query change neither what is fetched or counted nor the
index of collections, and the unresolved sort stands under them. -/
theorem fetch_withAliases (hs : s.Identifiers) (hroot : r.builder.root ∈ s.entities)
    (h : d.CanTake r.builder.root.aliasName fresh) (hf : r.ReadsAfresh d) (db : Database) :
    (run r (fetchAll s db (.descriptor (d.withAliases fresh)))).1.toOption =
        (run r (fetchAll s db (.descriptor d))).1.toOption ∧
      (run r (fetchOne s db (.descriptor (d.withAliases fresh)))).1.toOption =
        (run r (fetchOne s db (.descriptor d))).1.toOption ∧
      (run r (count s db (.descriptor (d.withAliases fresh)))).1.toOption =
        (run r (count s db (.descriptor d))).1.toOption ∧
      (planOf s r (d.withAliases fresh)).toOption.map
          (fun p => (p.collectionIndex, p.unresolvedSort)) =
        (planOf s r d).toOption.map fun p =>
          (p.collectionIndex, renamedSort (d.newAlias fresh) p.unresolvedSort) := by
  have hfresh : r.ReadsAfresh (d.withAliases fresh) := hf
  rw [toOption_fetchAll s db hfresh, toOption_fetchAll s db hf, toOption_fetchOne s db hfresh,
    toOption_fetchOne s db hf, toOption_count, toOption_count, h.planOf_withAliases hs hroot]
  cases hp : planOf s r d with
  | error e => exact ⟨rfl, rfl, rfl, rfl⟩
  | ok p =>
    have hsuits := h.suits hp
    have houtline := Plan.outline_renamed hsuits.root
    have hcount : countRows s db (p.renamed h.toRenaming) = countRows s db p := countRows_renamed hsuits
    have hall : ∀ o, p.outline.toOption = some o →
        readAll s db (p.renamed h.toRenaming) (d.withAliases fresh).hydration
            (Plan.renamedOutline h.toRenaming o) = readAll s db p d.hydration o :=
      fun o ho => readAll_renamed hsuits (eq_ok_of_toOption ho) d.hydration
    have hone : ∀ o, p.outline.toOption = some o →
        readOne s db (p.renamed h.toRenaming) (d.withAliases fresh).hydration
            (Plan.renamedOutline h.toRenaming o) = readOne s db p d.hydration o :=
      fun o ho => readOne_renamed hsuits (eq_ok_of_toOption ho) d.hydration
    have hplan : (Except.ok p : Except QueryError Plan).toOption = some p := rfl
    simp only [hplan, Option.map_some, Option.bind_some, houtline, hcount, toOption_map,
      Option.bind_map]
    refine ⟨Option.bind_congr fun o ho => ?_, Option.bind_congr fun o ho => ?_, trivial, ?_⟩
    · rw [Function.comp_apply, hall o ho]
      rfl
    · rw [Function.comp_apply, hone o ho]
    · rw [Plan.collectionIndex_renamed _ hsuits.root, ← h.renamedSort_eq hp]
      rfl

/-- Products with a tag, by which they are filtered, and with the other products under it. -/
def productsByTag : Descriptor where
  relations := .ofList
    [("tags", { joinType := .inner, indexBy := some "label" }),
     ("tags.products", { joinAlias := some "others" })]
  parameters := .ofList [("tags.label:eq", .text "steel")]
  sort := .ofList [("id", .ascending), ("tags.weight", .descending)]
  hydration := .records

def labelsForTags (a : String) : String := if a = "tags" then "labels" else "rest"

theorem canTake_productsByTag :
    productsByTag.CanTake Model.Shop.product.aliasName labelsForTags where
  bare := fun e he => by
    rcases List.mem_pair.mp (show e ∈ [_, _] from he) with rfl | rfl <;> rfl
  old := ⟨by decide +kernel, fun a ha => Text.not_isNumbered_of_not_mem (by revert a; decide +kernel),
    by decide +kernel⟩
  new := ⟨by decide +kernel, fun a ha => Text.not_isNumbered_of_not_mem (by revert a; decide +kernel),
    by decide +kernel⟩
  unnamed := by decide +kernel

theorem fetch_withAliases_productsByTag :
    ∃ items, (run (ofRoot Model.Shop.product) (fetchAll Model.sample Model.sampleRows
          (.descriptor (productsByTag.withAliases labelsForTags)))).1.toOption =
        some (.plain (.list items)) ∧ items.length = 2 ∧
      (planOf Model.sample (ofRoot Model.Shop.product)
          (productsByTag.withAliases labelsForTags)).toOption.map
          (fun p => (p.collectionIndex, p.unresolvedSort)) =
        some ([(["tags"], "label")], [("labels.weight", .descending)]) := by
  obtain ⟨items, hitems, hlength⟩ := fetchAll_listed Model.sample Model.sampleRows List.length
    (r := ofRoot Model.Shop.product) (d := productsByTag) rfl rfl (v := 2) (by decide +kernel)
  obtain ⟨hall, -, -, hplan⟩ := fetch_withAliases (s := Model.sample)
    (r := ofRoot Model.Shop.product) (by decide +kernel) (by decide)
    canTake_productsByTag (readsAfresh_of_uncached rfl) Model.sampleRows
  refine ⟨items, hall.trans (by rw [hitems]; rfl), hlength, hplan.trans ?_⟩
  decide +kernel

end Repository
end EntityQuery
