import EntityQuery.Proofs.Runs
/-!
Keys of results in one space. A named key ends in a colon and the kind of its fetch, a computed one in a
digest, which has no colon. So two fetches meet under one key only by the same name and kind, or by the same
digest, whatever the names are.
-/
namespace EntityQuery

/-! ### Texts of keys -/

namespace Digest

theorem digitChar_ne_colon {n : Nat} (h : n < 16) : ':' ≠ Nat.digitChar n := by
  interval_cases n <;> decide

theorem colon_not_mem_hexByte (b : UInt8) : ':' ∉ hexByte b := by
  have hb := b.toNat_lt
  simp only [hexByte, List.mem_cons, List.not_mem_nil, or_false, not_or]
  exact ⟨digitChar_ne_colon (by omega), digitChar_ne_colon (by omega)⟩

/-- A digest is written in hexadecimal digits alone. -/
theorem colon_not_mem_ofText (t : String) : ':' ∉ (ofText t).toList := by
  simp only [ofText, hex, String.toList_ofList, List.mem_flatMap, not_exists, not_and]
  exact fun _ _ b _ => colon_not_mem_hexByte b

end Digest

namespace ResultStore

variable {space name name' kind kind' : String}

theorem toList_namedKey (hkind : kind.isEmpty = false) :
    (namedKey space name kind).toList = (space ++ ":").toList ++ (name.toList ++ ':' :: kind.toList) := by
  simp [namedKey, hkind]

/-- Named keys tell names and kinds apart, where the kinds are equally long. -/
theorem namedKey_inj (hkind : kind.isEmpty = false) (hkind' : kind'.isEmpty = false)
    (hlength : kind.length = kind'.length) :
    namedKey space name kind = namedKey space name' kind' ↔ name = name' ∧ kind = kind' := by
  refine ⟨fun h => ?_, fun ⟨hname, hkinds⟩ => by rw [hname, hkinds]⟩
  have hlist := congrArg String.toList h
  rw [toList_namedKey hkind, toList_namedKey hkind', List.append_cancel_left_eq] at hlist
  -- the kinds end the keys at one place, so the names before them end at one place too
  obtain ⟨hname, htail⟩ := List.append_inj' hlist (by simp only [List.length_cons, String.length_toList, hlength])
  exact ⟨String.toList_inj.mp hname, String.toList_inj.mp (List.cons_inj_right _ |>.mp htail)⟩

/-- Whatever the name is, no digest has the colon before the kind. -/
theorem namedKey_ne (hkind : kind.isEmpty = false) (t : String) :
    namedKey space name kind ≠ space ++ ":" ++ Digest.ofText t := by
  intro h
  have hlist := congrArg String.toList h
  rw [toList_namedKey hkind, String.toList_append (s := space ++ ":"), List.append_cancel_left_eq] at hlist
  exact Digest.colon_not_mem_ofText t (by simp [← hlist])

end ResultStore

/-! ### Keys of fetches -/

namespace Call

variable {s s' : Schema} {c c' : Call} {space key key' name name' t : String}

/-- The call asks for a cache under a name. -/
def Named (c : Call) (name : String) : Prop :=
  ∃ o, c.descriptor.cache = some o ∧ o.name = some name ∧ name ≠ ""

/-- The call asks for a cache without a name, and its payload has the digest. -/
def HasDigest (s : Schema) (c : Call) (digest : String) : Prop :=
  c.Computed ∧ ∃ t, c.payload s = .ok t ∧ Digest.ofText t = digest

theorem Named.unique (h : c.Named name) (h' : c.Named name') : name = name' := by
  obtain ⟨o, ho, hname, -⟩ := h
  obtain ⟨o', ho', hname', -⟩ := h'
  cases ho.symm.trans ho'
  exact Option.some.inj (hname.symm.trans hname')

theorem Named.not_computed (h : c.Named name) : ¬ c.Computed := by
  obtain ⟨o, ho, hname, hne⟩ := h
  rintro ⟨o', ho', hnone⟩
  cases ho.symm.trans ho'
  simp [hname, hne] at hnone

theorem HasDigest.unique {d d' : String} (h : c.HasDigest s d) (h' : c.HasDigest s d') : d = d' := by
  obtain ⟨-, t, ht, rfl⟩ := h
  obtain ⟨-, t', ht', rfl⟩ := h'
  cases ht.symm.trans ht'
  rfl

theorem isEmpty_kind (c : Call) : c.kind.isEmpty = false := by
  unfold kind
  split <;> rfl

theorem length_kind (c : Call) : c.kind.length = 3 := by
  unfold kind
  split <;> rfl

theorem kind_inj : c.kind = c'.kind ↔ c.one = c'.one := by
  unfold kind
  cases c.one <;> cases c'.one <;> decide

/-- The key of a fetch is named or computed, as the fetch is. -/
theorem storeKey?_cases (h : c.storeKey? s space = some key) :
    (∃ name, c.Named name ∧ key = ResultStore.namedKey space name c.kind) ∨
      ∃ d, c.HasDigest s d ∧ key = space ++ ":" ++ d := by
  obtain ⟨o, hcache, h⟩ := Option.bind_eq_some_iff.mp h
  obtain ⟨⟨p, outline⟩, hplanned, hkey⟩ := Option.bind_eq_some_iff.mp h
  have hplanned := eq_ok_of_toOption hplanned
  have hkey := eq_ok_of_toOption hkey
  unfold Repository.resultKey at hkey
  split at hkey
  · rename_i name hname
    obtain ⟨hname, hne⟩ := Option.filter_eq_some_iff.mp hname
    cases hkey
    exact .inl ⟨name, ⟨o, hcache, hname, by simpa using hne⟩, rfl⟩
  · rename_i hnone
    obtain ⟨selection, hselection, rfl⟩ := ok_of_map hkey
    refine .inr ⟨_, ⟨⟨o, hcache, hnone⟩, _, ?_, rfl⟩, rfl⟩
    unfold payload keyed
    simp only [hplanned, hselection, bind, Except.bind]
    rfl

theorem HasDigest.key_eq (hd : c.HasDigest s t) (h : c.storeKey? s space = some key) :
    key = space ++ ":" ++ t := by
  rcases storeKey?_cases h with ⟨n, hn, -⟩ | ⟨d, hd', rfl⟩
  · exact absurd hd.1 hn.not_computed
  · rw [hd'.unique hd]

/-- Named fetches have one key exactly if they have one name and one kind. -/
theorem key_eq_iff_of_named (h : c.storeKey? s space = some key) (h' : c'.storeKey? s' space = some key')
    (hname : c.Named name) (hname' : c'.Named name') : key = key' ↔ name = name' ∧ c.one = c'.one := by
  rcases storeKey?_cases h with ⟨n, hn, rfl⟩ | ⟨d, hd, -⟩
  · rcases storeKey?_cases h' with ⟨n', hn', rfl⟩ | ⟨d, hd, -⟩
    · rw [hn.unique hname, hn'.unique hname', ResultStore.namedKey_inj c.isEmpty_kind c'.isEmpty_kind
        (c.length_kind.trans c'.length_kind.symm), kind_inj]
    · exact absurd hd.1 hname'.not_computed
  · exact absurd hd.1 hname.not_computed

theorem key_ne_of_computed (h : c.storeKey? s space = some key) (h' : c'.storeKey? s' space = some key')
    (hname : c.Named name) (hcomputed : c'.Computed) : key ≠ key' := by
  rcases storeKey?_cases h with ⟨n, -, rfl⟩ | ⟨d, hd, -⟩
  · rcases storeKey?_cases h' with ⟨n', hn', -⟩ | ⟨d, ⟨-, t, -, rfl⟩, rfl⟩
    · exact absurd hcomputed hn'.not_computed
    · exact ResultStore.namedKey_ne c.isEmpty_kind t
  · exact absurd hd.1 hname.not_computed

/-- Two fetches have one key in a space only if both ask for one name by one kind, or both are without a name
and have one digest. A key with a name is no key without one, and the kinds of a name have keys of their own. -/
theorem keys_apart (h : c.storeKey? s space = some key) (h' : c'.storeKey? s' space = some key') :
    (key = key' ↔ (∃ name, c.Named name ∧ c'.Named name ∧ c.one = c'.one) ∨
        ∃ d, c.HasDigest s d ∧ c'.HasDigest s' d) ∧
      (∀ name, c.Named name → c'.Computed → key ≠ key') ∧
      ∀ name, c.Named name → c'.Named name → c.one ≠ c'.one → key ≠ key' := by
  refine ⟨⟨fun heq => ?_, ?_⟩, fun name hname => key_ne_of_computed h h' hname,
    fun name hname hname' hone heq => hone ((key_eq_iff_of_named h h' hname hname').mp heq).2⟩
  · rcases storeKey?_cases h with ⟨name, hname, -⟩ | ⟨d, hd, hkey⟩ <;>
      rcases storeKey?_cases h' with ⟨name', hname', -⟩ | ⟨d', hd', hkey'⟩
    · obtain ⟨rfl, hone⟩ := (key_eq_iff_of_named h h' hname hname').mp heq
      exact .inl ⟨name, hname, hname', hone⟩
    · exact absurd heq (key_ne_of_computed h h' hname hd'.1)
    · exact absurd heq.symm (key_ne_of_computed h' h hname' hd.1)
    · obtain rfl : d = d' := String.append_right_inj _ |>.mp (hkey.symm.trans (heq.trans hkey'))
      exact .inr ⟨d, hd, hd'⟩
  · rintro (⟨name, hname, hname', hone⟩ | ⟨d, hd, hd'⟩)
    · exact (key_eq_iff_of_named h h' hname hname').mpr ⟨rfl, hone⟩
    · rw [hd.key_eq h, hd'.key_eq h']

/-- A fetch of users under a name that is written like a digest. -/
def digestNamed (one : Bool) : Call :=
  ⟨World.users, one,
    { cache := some { name := some "da39a3ee5e6b4b0d3255bfef95601890afd80709" } }⟩

/-- A name that is written like a digest is no digest, and gives a key to each kind of fetch. -/
theorem keys_apart_digestNamed : ∃ all one computed,
    (digestNamed false).storeKey? Model.sample "lens" = some all ∧
    (digestNamed true).storeKey? Model.sample "lens" = some one ∧
    (subcategories "children").storeKey? Model.sample "lens" = some computed ∧
    all ≠ computed ∧ all ≠ one := by
  have hkey : ∀ one, ((digestNamed one).storeKey? Model.sample "lens").isSome = true := by decide +kernel
  have hcomputed : ((subcategories "children").storeKey? Model.sample "lens").isSome = true := by decide +kernel
  obtain ⟨all, hall⟩ := Option.isSome_iff_exists.mp (hkey false)
  obtain ⟨one, hone⟩ := Option.isSome_iff_exists.mp (hkey true)
  obtain ⟨computed, hcomputed⟩ := Option.isSome_iff_exists.mp hcomputed
  have hnamed : ∀ one, (digestNamed one).Named "da39a3ee5e6b4b0d3255bfef95601890afd80709" :=
    fun _ => ⟨_, rfl, rfl, by decide⟩
  exact ⟨all, one, computed, hall, hone, hcomputed,
    (keys_apart hall hcomputed).2.1 _ (hnamed false) (computed_subcategories _),
    (keys_apart hall hone).2.2 _ (hnamed false) (hnamed true) (by decide)⟩

end Call
end EntityQuery
