import EntityQuery.Proofs.Agreement
import EntityQuery.Proofs.Runs
import EntityQuery.Proofs.TakenAliases
/-!
Pages of a repository with a store. The total of a page is counted when the page is asked for, but its
items may be older: they are what one query of the run has read at one time. At that time there were as
many of them as this query had matches, or as its bounds left of these.
-/
namespace EntityQuery

namespace Repository

variable {s : Schema} {db : Database} {r : Repository} {d : Descriptor} {p : Plan} {o : Outline}

/-- A query without an index reads an item for each of its matches, or for some of them if it has
bounds. -/
theorem countRows_of_readAll (hs : s.WellFormed) (hdb : db.Sound s)
    (hroot : r.builder.root ∈ s.entities) (hp : planOf s r d = .ok p) (ho : p.outline = .ok o)
    (hindex : d.indexBy = none) {value : Fetched} (h : readAll s db p d.hydration o = .ok value) :
    ∃ items n, value = .list items ∧ countRows s db p = .ok n ∧ items.length ≤ n ∧
      (d.limit = none → d.offset = none → items.length = n) := by
  obtain ⟨hproot, hplimit, hpoffset, hpindex, -⟩ := Plan.build_frame hp
  obtain ⟨roots, g, hload, hshape⟩ := readAll_eq_ok h
  obtain ⟨selection, hsel, -, -⟩ := load_eq_ok hload
  have hst := Plan.staged_of_assemble hp ho hsel
  obtain ⟨items, hvalue, hitems⟩ := shape_eq_ok (hpindex.trans hindex) hshape
  have hlength := hydrate_length hitems
  rw [load_roots hs hdb (hproot.symm ▸ hroot) hst hload] at hlength
  have hsorted : ((p.sorted db o.1 o.2).map p.rootKey).eraseDups.length =
      ((p.matched db o.1).map p.rootKey).eraseDups.length := length_eraseDups_sorted _
  refine ⟨items, _, hvalue, exists_countRows hst (outline_eq_ok ho).1 hload, ?_,
    fun hlimit hoffset => ?_⟩
  · rw [hlength, ← hsorted]
    refine length_eraseDups_le fun key hkey => ?_
    obtain ⟨row, hrow, rfl⟩ := List.mem_map.mp hkey
    exact List.mem_map_of_mem (mem_within hrow)
  · rw [hlength, hplimit, hpoffset, hlimit, hoffset, within_none, hsorted]

end Repository

namespace Call

open Repository

variable {s : Schema} {db : Database} {c : Call} {known : ResultStore Fetched} {value : Fetched}

theorem planned_eq_ok {p : Plan} {o : Outline} (h : c.planned s = .ok (p, o)) :
    planOf s ⟨c.builder, none⟩ c.descriptor = .ok p ∧ p.outline = .ok o := by
  obtain ⟨q, hq, h⟩ := ok_of_bind h
  obtain ⟨o', ho, h⟩ := ok_of_bind h
  cases h
  exact ⟨hq, ho⟩

/-- A call is planned by the root and the operators of its builder. -/
theorem planned_congr {b b' : Builder} (hroot : b'.root = b.root) (hoperators : b'.operators = b.operators)
    (one : Bool) (d : Descriptor) :
    (⟨b', one, d⟩ : Call).planned s = (⟨b, one, d⟩ : Call).planned s := by
  unfold planned planOf
  dsimp only
  rw [hroot, hoperators]

theorem storeKey?_congr {b b' : Builder} (hroot : b'.root = b.root)
    (hoperators : b'.operators = b.operators) (space : String) (one : Bool) (d : Descriptor) :
    (⟨b', one, d⟩ : Call).storeKey? s space = (⟨b, one, d⟩ : Call).storeKey? s space := by
  unfold storeKey?
  rw [planned_congr hroot hoperators]
  rfl

/-- A call is answered with a page if it fetches all matches with their number. -/
theorem replyWith_eq_page {fetched : Except QueryError Fetched} {page : Page Fetched}
    (h : c.replyWith s db fetched = .all (.ok (.page page))) :
    c.one = false ∧ fetched = .ok page.items ∧
      ∃ p o n, c.planned s = .ok (p, o) ∧ countRows s db p = .ok n ∧ page.total = n := by
  unfold replyWith at h
  split at h
  · cases h
  · rename_i hone
    obtain ⟨⟨p, o⟩, hplanned, h⟩ := ok_of_bind (Reply.all.inj h)
    obtain ⟨items, hitems, h⟩ := ok_of_bind h
    split at h
    · obtain ⟨n, hn, h⟩ := ok_of_bind h
      cases h
      exact ⟨by simpa using hone, hitems, p, o, n, hplanned, hn, rfl⟩
    · cases h

/-- A call gets what it reads from the database, or what the store holds under its key. -/
theorem read_or_found (h : (c.stored s db (some known)).1 = .ok value) :
    c.read s db = .ok value ∨ ∃ key entry, c.storeKey? s known.space = some key ∧
      known.entries.find? key = some entry ∧ entry.1 = value := by
  cases hk : c.storeKey? s known.space with
  | none => exact .inl ((stored_of_no_key hk).2 value h)
  | some key =>
    rw [stored_of_key hk] at h
    cases hf : known.entries.find? key with
    | some entry =>
      rw [hf] at h
      exact .inr ⟨key, entry, rfl, hf, Except.ok.inj h⟩
    | none =>
      rw [hf] at h
      cases hr : c.read s db with
      | error e =>
        rw [hr] at h
        cases h
      | ok read =>
        rw [hr] at h
        exact .inl h

end Call

namespace Step

variable {s : Schema} {w : World}

theorem builder_of_call {a : Step} {b : Builder} {c : Call} (h : a.call? b = some c) :
    c.builder = b := by
  cases a with
  | fetchAll input =>
    obtain ⟨d, -, rfl⟩ := Option.map_eq_some_iff.mp h
    rfl
  | fetchOne input =>
    obtain ⟨d, -, rfl⟩ := Option.map_eq_some_iff.mp h
    rfl
  | count input => cases h
  | explain input => cases h
  | write a => cases h

/-- An input that is answered is not refused. -/
theorem exists_call_of_answer {input : QueryInput} {answer : Answer}
    (h : ((fetchAll input).run s w).1 = .fetched (.all (.ok answer))) :
    ∃ c, (fetchAll input).call? w.repository.builder = some c := by
  cases hd : input.resolve "fetch_all" false with
  | ok d =>
    refine ⟨⟨w.repository.builder, false, d⟩, ?_⟩
    rw [call?, hd]
    rfl
  | error e =>
    have hrefused : ((fetchAll input).run s w).1 = .fetched (.all (.error e)) :=
      congrArg (fun a => StepReply.fetched (.all a))
        (Repository.outcome_plan_refused (s := s) hd ⟨w.repository, []⟩).bind_error.answer
    rw [hrefused] at h
    cases h

end Step

namespace World

open Repository

variable {s : Schema} {w : World}

theorem after_append_singleton (s : Schema) (w : World) (steps : List Step) (a : Step) :
    w.after s (steps ++ [a]) = (a.run s (w.after s steps)).2 := by
  simp [after]

/-- A run keeps the root and the operators of the repository. -/
theorem builder_after (w : World) (steps : List Step) :
    (w.after s steps).repository.builder.root = w.repository.builder.root ∧
      (w.after s steps).repository.builder.operators = w.repository.builder.operators := by
  induction steps using List.reverseRecOn with
  | nil => exact ⟨rfl, rfl⟩
  | append_singleton steps a ih =>
    rw [after_append_singleton]
    have h := Step.builder_run (s := s) (w.after s steps) a
    exact ⟨h.1.trans ih.1, h.2.trans ih.2⟩

theorem sound_run (hs : s.WellFormed) (hdb : w.db.Sound s) (a : Step) : (a.run s w).2.db.Sound s := by
  cases a with
  | write a => exact a.sound_run hs hdb
  | _ => exact hdb

theorem sound_after (hs : s.WellFormed) (hdb : w.db.Sound s) (steps : List Step) :
    (w.after s steps).db.Sound s := by
  induction steps using List.reverseRecOn with
  | nil => exact hdb
  | append_singleton steps a ih =>
    rw [after_append_singleton]
    exact sound_run hs ih a

section

variable {space key : String} {value : Fetched} {steps earlier : List Step} {c : Call}

/-- A step of a run, behind some earlier ones, has stored a value under a key: what its call then read
from the database. -/
def StoredBy (s : Schema) (space : String) (w : World) (steps : List Step) (key : String)
    (value : Fetched) (earlier : List Step) (c : Call) : Prop :=
  ∃ a known, earlier ++ [a] <+: steps ∧ (w.after s earlier).repository.store = some known ∧
    known.space = space ∧ a.Adds s (w.after s earlier) known c key value

theorem StoredBy.append (h : StoredBy s space w steps key value earlier c) (a : Step) :
    StoredBy s space w (steps ++ [a]) key value earlier c := by
  obtain ⟨b, known, hprefix, hb⟩ := h
  exact ⟨b, known, hprefix.trans (List.prefix_append steps [a]), hb⟩

/-- Every value of a store was stored by a step of the run. -/
def StoreOf (s : Schema) (space : String) (w : World) (steps : List Step)
    (known : ResultStore Fetched) : Prop :=
  known.space = space ∧ ∀ key entry, known.entries.find? key = some entry →
    ∃ earlier c, StoredBy s space w steps key entry.1 earlier c

/-- The value that a step adds to a store is what its call reads; all others stay. -/
theorem StoreOf.step {known : ResultStore Fetched} (h : StoreOf s space w steps known)
    (hst : (w.after s steps).repository.store = some known) (a : Step) :
    ∃ later, (w.after s (steps ++ [a])).repository.store = some later ∧
      StoreOf s space w (steps ++ [a]) later := by
  have hhonours := Step.honours (s := s) hst a
  have hkept : ∀ key entry, known.entries.find? key = some entry →
      ∃ earlier c, StoredBy s space w (steps ++ [a]) key entry.1 earlier c := fun key entry hentry => by
    obtain ⟨earlier, c, hstored⟩ := h.2 key entry hentry
    exact ⟨earlier, c, hstored.append a⟩
  rw [after_append_singleton]
  by_cases hadds : ∃ c key value, a.Adds s (w.after s steps) known c key value
  · obtain ⟨c, key, value, hadd⟩ := hadds
    refine ⟨_, (hhonours.adds c key value hadd).1, h.1, fun k entry hentry => ?_⟩
    by_cases hk : k = key
    · subst hk
      rw [ResultStore.set, OrderedMap.find?_insert_self] at hentry
      cases hentry
      exact ⟨steps, c, a, known, List.prefix_refl _, hst, h.1, hadd⟩
    · rw [ResultStore.set, OrderedMap.find?_insert_of_ne _ _ hk] at hentry
      exact hkept k entry hentry
  · exact ⟨known, hhonours.keeps fun c key value hadd => hadds ⟨c, key, value, hadd⟩, h.1, hkept⟩

/-- Whatever a run has put into an empty store was read by one of its steps. -/
theorem storeOf_after (hst : w.repository.store = some ⟨space, .empty⟩) (steps : List Step) :
    ∃ known, (w.after s steps).repository.store = some known ∧ StoreOf s space w steps known := by
  induction steps using List.reverseRecOn with
  | nil => exact ⟨_, hst, rfl, fun key entry h => by simp [OrderedMap.find?] at h⟩
  | append_singleton steps a ih =>
    obtain ⟨known, hknown, h⟩ := ih
    exact h.step hknown a

end

/-! ### Where a page comes from -/

/-- What a count of a descriptor answers. -/
def count (s : Schema) (w : World) (d : Descriptor) : Except QueryError Nat :=
  (w.repository.run (Repository.count s w.db (.descriptor d))).1

/-- What a call gets after a run was read behind some steps of it: behind all of them by the call itself,
or by one whose result was stored under its key. -/
structure ReadBy (s : Schema) (space : String) (w : World) (steps : List Step) (now : Call)
    (value : Fetched) (earlier : List Step) (c : Call) : Prop where
  builder : c.builder = (w.after s earlier).repository.builder
  read : c.read s (w.after s earlier).db = .ok value
  source : earlier = steps ∧ c = now ∨
    ∃ key, now.storeKey? s space = some key ∧ StoredBy s space w steps key value earlier c

/-- A query without an index has read one item for each root that a count would find at that time, or
for some of them if it has bounds. -/
def SizedBy (s : Schema) (w : World) (c : Call) (value : Fetched) : Prop :=
  c.one = false → c.descriptor.indexBy = none →
    ∃ items n, value = .list items ∧ w.count s c.descriptor = .ok n ∧ items.length ≤ n ∧
      (c.descriptor.limit = none → c.descriptor.offset = none → items.length = n)

variable {space : String} {steps earlier : List Step} {now c : Call} {value : Fetched}

theorem readBy_of_stored {known : ResultStore Fetched} (hknown : StoreOf s space w steps known)
    (hbuilder : now.builder = (w.after s steps).repository.builder)
    (h : (now.stored s (w.after s steps).db (some known)).1 = .ok value) :
    ∃ earlier c, ReadBy s space w steps now value earlier c := by
  rcases Call.read_or_found h with hread | ⟨key, entry, hkey, hentry, rfl⟩
  · exact ⟨steps, now, hbuilder, hread, .inl ⟨rfl, rfl⟩⟩
  · obtain ⟨earlier, c, hstored⟩ := hknown.2 key entry hentry
    obtain ⟨a, before, -, -, -, hadd⟩ := id hstored
    exact ⟨earlier, c, Step.builder_of_call hadd.call, hadd.read,
      .inr ⟨key, hknown.1 ▸ hkey, hstored⟩⟩

theorem count_of_planned (hbuilder : c.builder = w.repository.builder) {p : Plan}
    {o : Repository.Outline} (hplanned : c.planned s = .ok (p, o)) {n : Nat}
    (hn : Repository.countRows s w.db p = .ok n) : w.count s c.descriptor = .ok n := by
  have hp : Repository.planOf s w.repository c.descriptor = .ok p := by
    have hp := (Call.planned_eq_ok hplanned).1
    unfold Repository.planOf at hp ⊢
    rwa [hbuilder] at hp
  exact Repository.count_of_countRows hp hn

theorem sizedBy_of_read (hs : s.WellFormed) (hdb : w.db.Sound s)
    (hroot : w.repository.builder.root ∈ s.entities) (hbuilder : c.builder = w.repository.builder)
    (h : c.read s w.db = .ok value) : SizedBy s w c value := by
  intro hone hindex
  obtain ⟨⟨p, o⟩, hplanned, hread⟩ := ok_of_bind h
  dsimp only at hread
  rw [hone, if_neg Bool.false_ne_true] at hread
  obtain ⟨hp, ho⟩ := Call.planned_eq_ok hplanned
  obtain ⟨items, n, hvalue, hn, hlength⟩ :=
    Repository.countRows_of_readAll hs hdb (hbuilder ▸ hroot) hp ho hindex hread
  exact ⟨items, n, hvalue, count_of_planned hbuilder hplanned hn, hlength⟩

/-- In a run from an empty store the total of a page is what a count answers when the page is asked for.
Its items were read by one query of the run, by this one or by an earlier one with its key. They are no
more than the matches that this query had then, and as many if it has no bounds. So they are no more than
the total of their own page if it is the same query and has as many matches as then. -/
theorem page_after (hs : s.WellFormed) (hdb : w.db.Sound s)
    (hroot : w.repository.builder.root ∈ s.entities)
    (hst : w.repository.store = some ⟨space, .empty⟩) (steps : List Step) {input : QueryInput}
    {page : Page Fetched}
    (h : ((Step.fetchAll input).run s (w.after s steps)).1 = .fetched (.all (.ok (.page page)))) :
    ∃ now total earlier c,
      (Step.fetchAll input).call? (w.after s steps).repository.builder = some now ∧
      (w.after s steps).count s now.descriptor = .ok total ∧ page.total = total ∧
      ReadBy s space w steps now page.items earlier c ∧
      SizedBy s (w.after s earlier) c page.items ∧
      (c.one = false → c.descriptor = now.descriptor → now.descriptor.indexBy = none →
        (w.after s earlier).count s now.descriptor = .ok total →
        ∃ items, page.items = .list items ∧ items.length ≤ page.total ∧
          (now.descriptor.limit = none → now.descriptor.offset = none →
            items.length = page.total)) := by
  obtain ⟨known, hknown, hstoreOf⟩ := storeOf_after (s := s) hst steps
  obtain ⟨now, hcall⟩ := Step.exists_call_of_answer h
  have hbuilder := Step.builder_of_call hcall
  rw [(Step.run_of_call hcall).1, hknown] at h
  obtain ⟨-, hstored, p, o, total, hplanned, htotal, hpage⟩ :=
    Call.replyWith_eq_page (StepReply.fetched.inj h)
  obtain ⟨earlier, c, hread⟩ := readBy_of_stored hstoreOf hbuilder hstored
  have hsized : SizedBy s (w.after s earlier) c page.items :=
    sizedBy_of_read hs (sound_after hs hdb earlier)
      ((builder_after (s := s) w earlier).1.symm ▸ hroot) hread.builder hread.read
  refine ⟨now, total, earlier, c, hcall, count_of_planned hbuilder hplanned htotal, hpage, hread,
    hsized, fun hone hsame hindex hcount => ?_⟩
  obtain ⟨items, n, hitems, hn, hle, heq⟩ := hsized hone (hsame ▸ hindex)
  rw [hsame] at hn heq
  cases hn.symm.trans hcount
  refine ⟨items, hitems, ?_, fun hlimit hoffset => ?_⟩
  · rw [hpage]
    exact_mod_cast hle
  · rw [hpage, heq hlimit hoffset]

/-- All users with their number, kept under a name. -/
def everyone : Descriptor where
  hydration := .records
  cache := some { name := some "everyone" }
  countAvailableRows := true

/-- The users are listed once, and then the second one is deleted. -/
def secondLeaves : List Step :=
  [.fetchAll (.descriptor everyone), .write (.delete "users" [("id", .integer 2)])]

theorem storeKey?_everyone :
    Call.storeKey? Model.sample "lens" ⟨users, false, everyone⟩ = some "lens:everyone:all" := by
  decide +kernel

theorem read_everyone : ∃ items, items.length = 2 ∧
    Call.read Model.sample Model.sampleRows ⟨users, false, everyone⟩ = .ok (.list items) := by
  have hread : ((readUnsorted Model.sample Model.sampleRows ⟨users, none⟩ everyone).toOption.bind
      listed?).map List.length = some 2 := by
    decide +kernel
  obtain ⟨items, hitems, hlength⟩ := Option.map_eq_some_iff.mp hread
  obtain ⟨fetched, hfetched, hlisted⟩ := Option.bind_eq_some_iff.mp hitems
  refine ⟨items, hlength, ?_⟩
  rw [Call.read_unsorted rfl rfl, eq_ok_of_toOption hfetched]
  cases fetched with
  | list found =>
    cases hlisted
    rfl
  | single item => cases hlisted
  | indexed entries => cases hlisted

/-- When the users are listed again, both are still there, and they are counted as one. -/
theorem exists_page_everyone : ∃ items, items.length = 2 ∧
    ((Step.fetchAll (.descriptor everyone)).run Model.sample
      ((usersOver {}).after Model.sample secondLeaves)).1 =
        .fetched (.all (.ok (.page ⟨.list items, 1, none, none⟩))) := by
  obtain ⟨items, hlength, hread⟩ := read_everyone
  refine ⟨items, hlength, ?_⟩
  let later := (usersOver {}).after Model.sample secondLeaves
  let known : ResultStore Fetched := ResultStore.set {} "lens:everyone:all" (.list items) none
  have hfirst : (Step.fetchAll (.descriptor everyone)).Honours Model.sample (usersOver {}) {} :=
    Step.honours rfl _
  have hstore : later.repository.store = some known :=
    (hfirst.adds ⟨users, false, everyone⟩ _ _ ⟨rfl, storeKey?_everyone, rfl, hread⟩).1
  obtain ⟨hroot, hoperators⟩ := builder_after (s := Model.sample) (usersOver {}) secondLeaves
  obtain ⟨p, hp, hcount⟩ := Option.bind_eq_some_iff.mp
    (show ((Call.planned Model.sample ⟨users, false, everyone⟩).toOption.bind fun po =>
      (countUnsorted Model.sample later.db po.1).toOption) = some 1 by decide +kernel)
  have hagain : (Step.fetchAll (.descriptor everyone)).Honours Model.sample later known :=
    Step.honours hstore _
  obtain ⟨r, hr, hrecalls⟩ := hagain.recalls ⟨later.repository.builder, false, everyone⟩ _ _ rfl
    ((Call.storeKey?_congr hroot hoperators _ _ _).trans storeKey?_everyone) rfl
  have hplanned : Call.planned Model.sample ⟨later.repository.builder, false, everyone⟩ = .ok p :=
    (Call.planned_congr hroot hoperators _ _).trans (eq_ok_of_toOption hp)
  rw [hr, hrecalls.page rfl rfl p.1 p.2 hplanned, countRows_unsorted, eq_ok_of_toOption hcount]
  rfl

theorem readBy_everyone : ∃ page now earlier c,
    ((Step.fetchAll (.descriptor everyone)).run Model.sample
      ((usersOver {}).after Model.sample secondLeaves)).1 = .fetched (.all (.ok (.page page))) ∧
    page.total = 1 ∧
    ReadBy Model.sample "lens" (usersOver {}) secondLeaves now page.items earlier c ∧
    SizedBy Model.sample ((usersOver {}).after Model.sample earlier) c page.items := by
  obtain ⟨items, -, h⟩ := exists_page_everyone
  obtain ⟨now, total, earlier, c, -, -, -, hread, hsized, -⟩ := page_after sample_wellFormed
    sampleRows_sound (by decide) rfl secondLeaves h
  exact ⟨_, now, earlier, c, h, rfl, hread, hsized⟩

/-- A page can have more items than its own total. -/
theorem not_length_le_total_everyone :
    ¬ ∀ (steps : List Step) (page : Page Fetched) (items : List Item),
      ((Step.fetchAll (.descriptor everyone)).run Model.sample
        ((usersOver {}).after Model.sample steps)).1 = .fetched (.all (.ok (.page page))) →
      page.items = .list items → items.length ≤ page.total := by
  obtain ⟨items, hlength, h⟩ := exists_page_everyone
  intro hle
  have htotal : (items.length : Int) ≤ 1 := hle secondLeaves _ items h rfl
  omega

end World
end EntityQuery
