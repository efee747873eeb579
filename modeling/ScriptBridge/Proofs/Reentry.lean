import Mathlib
import ScriptBridge.Proofs.Entries
import ScriptBridge.Proofs.Leads
import ScriptBridge.SharedRegistry

/-!
# ScriptBridge.Proofs.Reentry

A registry whose values use it when they are destroyed is a map with fresh keys all the same.  What
a use of such a map is told, and what has been done to the map then, is `History.Meets`: it is told
by the history before the use, to any depth of destructors.  A history is right (`History.Rightly`)
if each deed came to what the deeds before it say; the registry follows its history
(`SharedRegistry.Follows`) if it has what the history says, and nobody has borrowed the table.

Main results:

* `SharedRegistry.comes_perform` — whatever is done with a registry, to any depth, is told what the
  history says, and a handle that is gone stays gone;
* `registry_run` — what every use of a new registry comes to.
-/

namespace ScriptBridge

namespace History

variable {α : Type} {before : History α} {h k : Handle} {v : α}

/-- Whether a deed came to what the deeds before it say. -/
def Right (before : History α) : Deed α → Prop
  | .pinned h _ => h ∉ before.issued ∧ h.number = before.issued.length + 1
  | .released _ => True
  | .cleared values => values.Perm (before.live.filterMap before.under)
  | .destroying gone => ∀ h ∈ gone, before.under h = none

/-- Whether all deeds are right. -/
def Rightly : History α → Prop
  | [] => True
  | d :: before => Right before d ∧ Rightly before

/-- What stands for a value was given out. -/
theorem mem_issued (hv : before.under h = some v) : h ∈ before.issued := by
  induction before with
  | nil => cases hv
  | cons d before ih =>
    cases d with
    | pinned k u =>
      rw [under] at hv
      split at hv
      · next same => exact same ▸ List.mem_cons_self
      · exact List.mem_cons_of_mem k (ih hv)
    | released k =>
      rw [under] at hv
      split at hv
      · cases hv
      · exact ih hv
    | cleared => cases hv
    | _ => exact ih hv

theorem mem_live : h ∈ before.live ↔ ∃ v, before.under h = some v := by
  rw [live, List.mem_filter, Option.isSome_iff_exists]
  constructor
  · exact fun both => both.2
  · rintro ⟨v, hv⟩
    exact ⟨mem_issued hv, v, hv⟩

/-- Deeds that take the pin of a handle away, if it is there. -/
def Ends (h : Handle) : Deed α → Prop
  | .released k => k = h
  | .cleared _ => True
  | _ => False

/-- A handle stands for the value that was pinned under it, unless its pin was taken away since. -/
theorem under_eq_some (right : before.Rightly) : before.under h = some v ↔
    ∃ later earlier, before = later ++ .pinned h v :: earlier ∧ ∀ d ∈ later, ¬ Ends h d := by
  induction before with
  | nil => simp [under]
  | cons d before ih =>
    have past := ih right.2
    -- what was done last changes nothing for the handle
    have go : under h (d :: before) = under h before → ¬ Ends h d → (∀ u, d ≠ .pinned h u) →
        (under h (d :: before) = some v ↔ ∃ later earlier,
          d :: before = later ++ .pinned h v :: earlier ∧ ∀ e ∈ later, ¬ Ends h e) := by
      intro same goes other
      rw [same, past]
      constructor
      · rintro ⟨later, earlier, rfl, none⟩
        exact ⟨d :: later, earlier, rfl, List.forall_mem_cons.mpr ⟨goes, none⟩⟩
      · rintro ⟨later, earlier, eq, none⟩
        cases later with
        | nil => exact absurd (List.cons.inj eq).1 (other v)
        | cons e later =>
          exact ⟨later, earlier, (List.cons.inj eq).2, fun c hc => none c (List.mem_cons_of_mem e hc)⟩
    cases d with
    | pinned k u =>
      by_cases here : h = k
      · subst here
        rw [under, if_pos rfl]
        constructor
        · rintro ⟨⟩
          exact ⟨[], before, rfl, nofun⟩
        · rintro ⟨later, earlier, eq, none⟩
          cases later with
          | nil =>
            cases eq
            rfl
          | cons e later =>
            obtain ⟨-, rfl⟩ := List.cons.inj eq
            have twice := past.mpr ⟨later, earlier, rfl, fun c hc => none c (List.mem_cons_of_mem e hc)⟩
            exact absurd (mem_issued twice) right.1.1
      · refine go (if_neg here) id fun u eq => here ?_
        cases eq
        rfl
    | released k =>
      by_cases here : h = k
      · subst here
        rw [under, if_pos rfl]
        refine ⟨nofun, ?_⟩
        rintro ⟨later, earlier, eq, none⟩
        cases later with
        | nil => cases eq
        | cons e later =>
          obtain ⟨rfl, -⟩ := List.cons.inj eq
          exact absurd rfl (none _ List.mem_cons_self)
      · exact go (if_neg here) (fun same => here same.symm) nofun
    | cleared values =>
      refine ⟨nofun, ?_⟩
      rintro ⟨later, earlier, eq, none⟩
      cases later with
      | nil => cases eq
      | cons e later =>
        obtain ⟨rfl, -⟩ := List.cons.inj eq
        exact absurd trivial (none _ List.mem_cons_self)
    | _ => exact go rfl id nofun

/-- A handle that was given out and stands for nothing never stands for anything again. -/
theorem under_gone {later earlier : History α} (right : Rightly (later ++ earlier))
    (given : h ∈ earlier.issued) (none : earlier.under h = none) :
    under h (later ++ earlier) = Option.none ∧ h ∈ issued (later ++ earlier) := by
  induction later with
  | nil => exact ⟨none, given⟩
  | cons d later ih =>
    obtain ⟨nothing, still⟩ := ih right.2
    rw [List.cons_append]
    cases d with
    | pinned k u =>
      have other : h ≠ k := fun same => right.1.1 (same ▸ still)
      exact ⟨(if_neg other).trans nothing, List.mem_cons_of_mem k still⟩
    | released k =>
      refine ⟨?_, still⟩
      rw [under, nothing, ite_self]
    | cleared values => exact ⟨rfl, still⟩
    | _ => exact ⟨nothing, still⟩

/-! ## What uses are told -/

mutual

/-- What somebody is told who uses a map with fresh keys, and what has been done to the map then. -/
inductive Meets : History α → Use α → Answer α → History α → Prop
  | pin {before : History α} {v : α} {h : Handle} (fresh : h ∉ before.issued) :
      Meets before (.pin v) (.pin h) (.pinned h v :: before)
  | get {before : History α} {h : Handle} : Meets before (.get h) (.get (before.under h)) before
  /-- The copy has a handle of its own. -/
  | repin {before : History α} {v : α} {h k : Handle} (live : before.under h = some v)
      (fresh : k ∉ before.issued) : Meets before (.repin h) (.repin (some k)) (.pinned k v :: before)
  | repin_gone {before : History α} {h : Handle} (gone : before.under h = none) :
      Meets before (.repin h) (.repin none) before
  | size {before : History α} : Meets before .size (.size before.live.length) before
  | isEmpty {before : History α} : Meets before .isEmpty (.isEmpty before.live.isEmpty) before
  /-- The value is destroyed when its handle is gone. -/
  | release {before after : History α} {v : α} {h : Handle} {destructor : List (Use α)}
      {told : List (Answer α)} (live : before.under h = some v)
      (destroyed : MeetsAll (.destroying [h] :: .released h :: before) destructor told after) :
      Meets before (.release h destructor) (.release true told) after
  | release_gone {before : History α} {h : Handle} {destructor : List (Use α)}
      (gone : before.under h = none) :
      Meets before (.release h destructor) (.release false []) (.released h :: before)
  /-- The values are destroyed when all handles are gone. -/
  | clear {before after : History α} {values : List α} {destructors : List (List (Use α))}
      {told : List (List (Answer α))} (all : values.Perm (before.live.filterMap before.under))
      (destroyed : Destroys before.live (.cleared values :: before) values.length destructors told
        after) :
      Meets before (.clear destructors) (.clear told) after

inductive MeetsAll : History α → List (Use α) → List (Answer α) → History α → Prop
  | nil {before : History α} : MeetsAll before [] [] before
  | cons {before between after : History α} {u : Use α} {us : List (Use α)} {told : Answer α}
      {others : List (Answer α)} (first : Meets before u told between)
      (rest : MeetsAll between us others after) : MeetsAll before (u :: us) (told :: others) after

/-- What destructors are told that run one after the other, for as many values. -/
inductive Destroys : List Handle → History α → Nat → List (List (Use α)) → List (List (Answer α)) →
    History α → Prop
  | nil {gone : List Handle} {before : History α} {count : Nat} :
      Destroys gone before count [] [] before
  | none {gone : List Handle} {before : History α} {destructor : List (Use α)}
      {destructors : List (List (Use α))} :
      Destroys gone before 0 (destructor :: destructors) [] before
  | cons {gone : List Handle} {before between after : History α} {count : Nat}
      {destructor : List (Use α)} {destructors : List (List (Use α))} {told : List (Answer α)}
      {others : List (List (Answer α))}
      (first : MeetsAll (.destroying gone :: before) destructor told between)
      (rest : Destroys gone between count destructors others after) :
      Destroys gone before (count + 1) (destructor :: destructors) (told :: others) after

end

end History

namespace SharedRegistry

open History

variable {α β γ : Type} {s : SharedRegistry α} {gone : List Handle}

/-- Whether a registry has what its history says, which is right, and nobody has its table. -/
structure Follows (s : SharedRegistry α) : Prop where
  right : s.history.Rightly
  found : ∀ h, s.registry.get? h = s.history.under h
  /-- Zero is never a handle. -/
  positive : s.registry.live[0]? = none
  issuing : s.registry.issued = s.history.issued.length
  old : ∀ h ∈ s.history.issued, h.number ≤ s.history.issued.length
  once : s.history.issued.Nodup
  unread : s.readers = 0
  unwritten : s.written = false
  unclashed : s.clashed = false

theorem follows_new : (new : SharedRegistry α).Follows where
  right := trivial
  found := Registry.get?_empty
  positive := by simp [new, Registry.empty]
  issuing := rfl
  old := nofun
  once := .nil
  unread := rfl
  unwritten := rfl
  unclashed := rfl

/-! ## What is in the table -/

/-- The entries of the table are those of the handles that stand for something. -/
theorem Follows.entries (hs : s.Follows) : entries s.registry.live
    = ↑(s.history.live.filterMap fun h => (s.history.under h).map fun v => (h.number, v)) := by
  have once : (s.history.live.filterMap fun h =>
      (s.history.under h).map fun v => (h.number, v)).Nodup := by
    refine (hs.once.filter _).filterMap fun h k e he ke => ?_
    obtain ⟨v, -, rfl⟩ := Option.map_eq_some_iff.mp he
    obtain ⟨u, -, same⟩ := Option.map_eq_some_iff.mp ke
    obtain ⟨number, -⟩ := Prod.mk.inj same
    cases h
    cases k
    cases number
    rfl
  rw [Multiset.Nodup.ext (nodup_entries _) (Multiset.coe_nodup.mpr once)]
  rintro ⟨n, v⟩
  rw [mem_entries, Multiset.mem_coe, List.mem_filterMap]
  constructor
  · intro hv
    have pos : 0 < n := by
      refine Nat.pos_of_ne_zero ?_
      rintro rfl
      exact Option.some_ne_none v (hv.symm.trans hs.positive)
    have here : s.history.under ⟨n, pos⟩ = some v := (hs.found ⟨n, pos⟩).symm.trans hv
    exact ⟨⟨n, pos⟩, mem_live.mpr ⟨v, here⟩, by rw [here, Option.map_some]⟩
  · rintro ⟨h, -, eq⟩
    obtain ⟨u, hu, same⟩ := Option.map_eq_some_iff.mp eq
    obtain ⟨rfl, rfl⟩ := Prod.mk.inj same
    exact (hs.found h).trans hu

/-- The values in the table are those that the handles stand for. -/
theorem Follows.values (hs : s.Follows) :
    (s.registry.clear.1).Perm (s.history.live.filterMap s.history.under) := by
  have all := congrArg (Multiset.map Prod.snd) hs.entries
  rw [ScriptBridge.entries, Multiset.map_coe, Multiset.map_coe, Multiset.coe_eq_coe,
    List.map_filterMap] at all
  have values : (fun h => Option.map Prod.snd ((s.history.under h).map fun v => (h.number, v)))
      = s.history.under := by
    funext h
    cases s.history.under h <;> rfl
  rwa [values] at all

theorem Follows.size (hs : s.Follows) : s.registry.size = s.history.live.length := by
  have all := congrArg (Multiset.map Prod.fst) hs.entries
  rw [ScriptBridge.entries, Multiset.map_coe, Multiset.map_coe, List.map_filterMap] at all
  have numbers : s.history.live.filterMap (fun h => Option.map Prod.fst
      ((s.history.under h).map fun v => (h.number, v))) = s.history.live.map Handle.number := by
    refine List.filterMap_eq_map_iff_forall_eq_some.mpr fun h hh => ?_
    obtain ⟨v, hv⟩ := mem_live.mp hh
    rw [hv]
    rfl
  have count := congrArg Multiset.card all
  rwa [numbers, Multiset.coe_card, Multiset.coe_card, List.length_map, List.length_map,
    Std.TreeMap.length_toList] at count

theorem Follows.isEmpty (hs : s.Follows) : (s.registry.size == 0) = s.history.live.isEmpty := by
  rw [hs.size]
  cases s.history.live <;> rfl

/-! ## What is done to the table -/

theorem Follows.look_run (hs : s.Follows) (f : Registry α → β) :
    (look f).run s = (f s.registry, s) := by
  have run : (look f).run s = (f s.registry, { s with clashed := s.clashed || s.written }) := rfl
  have still : (s.clashed || s.written) = s.clashed := by rw [hs.unwritten, Bool.or_false]
  rw [run, still]

theorem Follows.change_run (hs : s.Follows) (f : Registry α → β × Registry α) :
    (change f).run s = ((f s.registry).1, { s with registry := (f s.registry).2 }) := by
  have run : (change f).run s = ((f s.registry).1, { s with
      registry := (f s.registry).2
      written := false
      clashed := s.clashed || s.written || s.readers != 0 }) := rfl
  have still : (s.clashed || s.written || s.readers != 0) = s.clashed := by
    simp [hs.unwritten, hs.unread]
  rw [run, still, ← hs.unwritten]

/-- The next handle has not been given out. -/
theorem Follows.fresh (hs : s.Follows) : s.registry.next ∉ s.history.issued := by
  intro given
  have bound := hs.old _ given
  rw [← hs.issuing] at bound
  exact absurd bound (Nat.not_le.mpr (Nat.lt_succ_self _))

/-- The registry with one value more. -/
def withPin (s : SharedRegistry α) (v : α) : SharedRegistry α :=
  { s with registry := (s.registry.pin v).2, history := .pinned s.registry.next v :: s.history }

/-- The registry with a pin less. -/
def without (s : SharedRegistry α) (h : Handle) : SharedRegistry α :=
  { s with registry := (s.registry.release h).2, history := .released h :: s.history }

/-- The registry without pins. -/
def cleared (s : SharedRegistry α) : SharedRegistry α :=
  { s with registry := s.registry.clear.2, history := .cleared s.registry.clear.1 :: s.history }

/-- The registry when some value begins to be destroyed. -/
def destroying (s : SharedRegistry α) (gone : List Handle) : SharedRegistry α :=
  { s with history := .destroying gone :: s.history }

theorem Follows.withPin (hs : s.Follows) (v : α) : (s.withPin v).Follows where
  right := ⟨⟨hs.fresh, by rw [← hs.issuing]; rfl⟩, hs.right⟩
  found h := by
    change (s.registry.pin v).2.get? h = under h (.pinned s.registry.next v :: s.history)
    rw [Registry.get?_pin, under, hs.found]
  positive := by
    change (s.registry.live.insert (s.registry.issued + 1) v)[0]? = none
    rw [getElem?_insert_of_ne (Nat.succ_ne_zero _).symm]
    exact hs.positive
  issuing := congrArg (· + 1) hs.issuing
  old := List.forall_mem_cons.mpr
    ⟨Nat.succ_le_succ (Nat.le_of_eq hs.issuing), fun h hh => Nat.le_succ_of_le (hs.old h hh)⟩
  once := List.nodup_cons.mpr ⟨hs.fresh, hs.once⟩
  unread := hs.unread
  unwritten := hs.unwritten
  unclashed := hs.unclashed

theorem Follows.without (hs : s.Follows) (h : Handle) : (s.without h).Follows where
  right := ⟨trivial, hs.right⟩
  found k := by
    change (s.registry.release h).2.get? k = under k (.released h :: s.history)
    rw [Registry.get?_release, under, hs.found]
  positive := by
    change (s.registry.live.erase h.number)[0]? = none
    rw [getElem?_erase_of_ne (Nat.ne_of_lt h.number_pos)]
    exact hs.positive
  issuing := hs.issuing
  old := hs.old
  once := hs.once
  unread := hs.unread
  unwritten := hs.unwritten
  unclashed := hs.unclashed

theorem Follows.cleared (hs : s.Follows) : s.cleared.Follows where
  right := ⟨hs.values, hs.right⟩
  found := Registry.get?_clear s.registry
  positive := by simp [SharedRegistry.cleared, Registry.clear]
  issuing := hs.issuing
  old := hs.old
  once := hs.once
  unread := hs.unread
  unwritten := hs.unwritten
  unclashed := hs.unclashed

theorem Follows.destroying (hs : s.Follows) (nothing : ∀ h ∈ gone, s.history.under h = none) :
    (s.destroying gone).Follows :=
  { hs with right := ⟨nothing, hs.right⟩ }

theorem Follows.pin_run (hs : s.Follows) (v : α) :
    (SharedRegistry.pin v).run s = (s.registry.next, s.withPin v) := by
  rw [SharedRegistry.pin, stateM_run_bind, hs.change_run]
  rfl

theorem Follows.get?_run (hs : s.Follows) (h : Handle) :
    (SharedRegistry.get? h).run s = (s.history.under h, s) := by
  rw [SharedRegistry.get?, hs.look_run, hs.found]

/-! ## Uses to any depth -/

/-- Handles that were given out and stand for nothing. -/
def Gone (gone : List Handle) (s : SharedRegistry α) : Prop :=
  ∀ h ∈ gone, h ∈ s.history.issued ∧ s.history.under h = none

/-- Whether a registry follows its history, in which some handles are gone. -/
def Stands (gone : List Handle) (s : SharedRegistry α) : Prop := s.Follows ∧ s.Gone gone

theorem Stands.less (more : List Handle) (hs : s.Stands (more ++ gone)) : s.Stands gone :=
  ⟨hs.1, fun h hh => hs.2 h (List.mem_append_right more hh)⟩

theorem Stands.withPin (hs : s.Stands gone) (v : α) : (s.withPin v).Stands gone := by
  refine ⟨hs.1.withPin v, fun h hh => ?_⟩
  obtain ⟨given, nothing⟩ := hs.2 h hh
  have other : h ≠ s.registry.next := fun same => hs.1.fresh (same ▸ given)
  exact ⟨List.mem_cons_of_mem _ given, (if_neg other).trans nothing⟩

theorem Stands.without (hs : s.Stands gone) (h : Handle) : (s.without h).Stands gone := by
  refine ⟨hs.1.without h, fun k hk => ⟨(hs.2 k hk).1, ?_⟩⟩
  rw [SharedRegistry.without, under, (hs.2 k hk).2, ite_self]

/-- A handle that is released is gone. -/
theorem Stands.released (hs : s.Stands gone) {h : Handle} {v : α} (live : s.history.under h = some v) :
    (s.without h).Stands ([h] ++ gone) := by
  refine ⟨hs.1.without h, List.forall_mem_cons.mpr ⟨⟨?_, if_pos rfl⟩, (hs.without h).2⟩⟩
  have given : h ∈ s.history.issued := mem_issued live
  exact given

/-- All handles that were live are gone when the registry is cleared. -/
theorem Stands.cleared (hs : s.Stands gone) : s.cleared.Stands (s.history.live ++ gone) := by
  refine ⟨hs.1.cleared, fun h hh => ⟨?_, rfl⟩⟩
  obtain present | before := List.mem_append.mp hh
  · obtain ⟨v, hv⟩ := mem_live.mp present
    have given : h ∈ s.history.issued := mem_issued hv
    exact given
  · exact (hs.2 h before).1

theorem Stands.destroying {away : List Handle} (hs : s.Stands (away ++ gone)) :
    (s.destroying away).Stands (away ++ gone) :=
  ⟨hs.1.destroying fun h hh => (hs.2 h (List.mem_append_left gone hh)).2, hs.2⟩

/-- Whether something that is done with a registry comes to what the history says, and handles that
are gone stay gone. -/
def Comes (gone : List Handle) (x : Sharing α β) (meets : History α → β → History α → Prop) : Prop :=
  ∀ s : SharedRegistry α, s.Stands gone →
    (x.run s).2.Stands gone ∧ meets s.history (x.run s).1 (x.run s).2.history

theorem Comes.bind {x : Sharing α β} {f : β → Sharing α γ} {first : History α → β → History α → Prop}
    {all : History α → γ → History α → Prop} (hx : Comes gone x first)
    (hf : ∀ before b, Comes gone (f b) fun between c after =>
      first before b between → all before c after) : Comes gone (x >>= f) all := by
  intro s hs
  rw [stateM_run_bind]
  obtain ⟨between, met⟩ := hx s hs
  obtain ⟨after, rest⟩ := hf s.history (x.run s).1 _ between
  exact ⟨after, rest met⟩

/-- What is told is passed on. -/
theorem Comes.pure {b : β} {meets : History α → β → History α → Prop}
    (same : ∀ before, meets before b before) : Comes gone (pure b : Sharing α β) meets :=
  fun s hs => ⟨hs, same s.history⟩

theorem comes_pin (v : α) : Comes gone (pin v) fun before h after =>
    Meets before (.pin v) (.pin h) after := by
  intro s hs
  rw [hs.1.pin_run]
  exact ⟨hs.withPin v, .pin hs.1.fresh⟩

theorem comes_look {f : Registry α → β} {meets : History α → β → History α → Prop}
    (met : ∀ s : SharedRegistry α, s.Follows → meets s.history (f s.registry) s.history) :
    Comes gone (look f) meets := by
  intro s hs
  rw [hs.1.look_run]
  exact ⟨hs, met s hs.1⟩

theorem comes_repin (h : Handle) : Comes gone (repin h) fun (before : History α) copy after =>
    Meets before (.repin h) (.repin copy) after := by
  intro s hs
  rw [repin, stateM_run_bind, hs.1.get?_run]
  cases hv : s.history.under h with
  | none => exact ⟨hs, .repin_gone hv⟩
  | some v =>
    simp only
    rw [stateM_run_bind, hs.1.pin_run]
    exact ⟨hs.withPin v, .repin hv hs.1.fresh⟩

/-- A value is destroyed when its handle is gone. -/
theorem comes_release {destroy : Sharing α (List (Answer α))} {h : Handle}
    {destructor : List (Use α)} (destroys : ∀ gone, Comes gone destroy fun before told after =>
      MeetsAll before destructor told after) :
    Comes gone (release h destroy) fun before out after =>
      Meets before (.release h destructor) (.release out.1 out.2) after := by
  intro s hs
  have removed : (change fun r => r.release h).run s
      = (s.history.under h, { s with registry := (s.registry.release h).2 }) := by
    rw [hs.1.change_run, ← hs.1.found]
    rfl
  rw [release, stateM_run_bind, removed, stateM_run_bind]
  cases hv : s.history.under h with
  | none => exact ⟨hs.without h, .release_gone hv⟩
  | some v =>
    obtain ⟨stands, told⟩ := destroys ([h] ++ gone) _ (hs.released hv).destroying
    exact ⟨stands.less [h], .release hv told⟩

/-- Values are destroyed when all handles are gone that were live. -/
theorem comes_clear {destroy : List Handle → Nat → Sharing α (List (List (Answer α)))}
    {destructors : List (List (Use α))}
    (destroys : ∀ present count gone, Comes (present ++ gone) (destroy present count)
      fun before told after => Destroys present before count destructors told after) :
    Comes gone (clear destroy) fun before told after =>
      Meets before (.clear destructors) (.clear told) after := by
  intro s hs
  have removed : (change fun r => r.clear).run s
      = (s.registry.clear.1, { s with registry := s.registry.clear.2 }) := hs.1.change_run _
  rw [clear, stateM_get_bind, stateM_run_bind, removed, stateM_run_bind]
  obtain ⟨stands, told⟩ := destroys s.history.live _ gone s.cleared hs.cleared
  exact ⟨stands.less _, .clear hs.1.values told⟩

mutual

/-- Whatever is done with a registry is told what the history says, and handles that are gone stay
gone. -/
theorem comes_perform (gone : List Handle) : (u : Use α) →
    Comes gone (perform u) fun before told after => Meets before u told after
  | .pin v => (comes_pin v).bind fun _ _ => .pure fun _ met => met
  | .get h => by
    have met : Comes gone (get? h : Sharing α (Option α)) fun before found after =>
        Meets before (.get h) (.get found) after :=
      comes_look fun s hs => by
        rw [hs.found]
        exact .get
    exact met.bind fun _ _ => .pure fun _ met => met
  | .repin h => (comes_repin h).bind fun _ _ => .pure fun _ met => met
  | .size => by
    have met : Comes gone (size : Sharing α Nat) fun before n after =>
        Meets before .size (.size n) after :=
      comes_look fun s hs => by
        rw [hs.size]
        exact .size
    exact met.bind fun _ _ => .pure fun _ met => met
  | .isEmpty => by
    have met : Comes gone (isEmpty : Sharing α Bool) fun before empty after =>
        Meets before .isEmpty (.isEmpty empty) after :=
      comes_look fun s hs => by
        rw [hs.isEmpty]
        exact .isEmpty
    exact met.bind fun _ _ => .pure fun _ met => met
  | .release _ destructor => (comes_release fun gone => comes_performAll gone destructor).bind
      fun _ _ => .pure fun _ met => met
  | .clear destructors => (comes_clear fun present count gone =>
      comes_destroyAll present gone destructors count).bind fun _ _ => .pure fun _ met => met

theorem comes_performAll (gone : List Handle) : (us : List (Use α)) →
    Comes gone (performAll us) fun before told after => MeetsAll before us told after
  | [] => .pure fun _ => .nil
  | u :: us => (comes_perform gone u).bind fun _ _ => (comes_performAll gone us).bind
      fun _ _ => .pure fun _ rest first => .cons first rest

theorem comes_destroyAll (present gone : List Handle) :
    (destructors : List (List (Use α))) → (count : Nat) →
      Comes (present ++ gone) (destroyAll destructors present count) fun before told after =>
        Destroys present before count destructors told after
  | [], _ => .pure fun _ => .nil
  | _ :: _, 0 => .pure fun _ => .none
  | destructor :: destructors, count + 1 => by
    have told : Comes (present ++ gone) (note (.destroying present) : Sharing α Unit)
        fun before _ after => after = .destroying present :: before :=
      fun s hs => ⟨hs.destroying, rfl⟩
    refine told.bind fun _ _ => (comes_performAll (present ++ gone) destructor).bind fun _ _ =>
      (comes_destroyAll present gone destructors count).bind fun _ _ => .pure ?_
    intro _ rest first begun
    exact .cons (begun ▸ first) rest

end

end SharedRegistry

open History in
/-- Whatever is done with a new registry, in sequence and by values that are destroyed, it is told
what a map with fresh keys says.  A handle is never given out twice; it stands for the value that was
pinned under it until it is released or the registry is cleared, and for nothing from then on; and
the table is never asked for while it is lent. -/
theorem registry_run {α : Type} (uses : List (Use α)) :
    let told := ((SharedRegistry.performAll uses).run .new).1
    let s := ((SharedRegistry.performAll uses).run .new).2
    MeetsAll [] uses told s.history
    ∧ s.history.Rightly ∧ s.history.issued.Nodup
    ∧ (∀ h ∈ s.history.issued, 0 < h.number ∧ h.number ≤ s.history.issued.length)
    ∧ (∀ h, s.registry.get? h = s.history.under h)
    ∧ (∀ h v, s.history.under h = some v ↔ ∃ later earlier,
        s.history = later ++ .pinned h v :: earlier ∧ ∀ d ∈ later, ¬ Ends h d)
    ∧ (∀ (later earlier : History α) (h : Handle), s.history = later ++ earlier →
        h ∈ earlier.issued → earlier.under h = none → s.history.under h = none)
    ∧ s.registry.size = s.history.live.length
    ∧ s.clashed = false ∧ s.readers = 0 ∧ s.written = false := by
  intro told s
  obtain ⟨⟨follows, -⟩, met⟩ := SharedRegistry.comes_performAll [] uses .new
    ⟨SharedRegistry.follows_new, nofun⟩
  refine ⟨met, follows.right, follows.once, fun h hh => ⟨h.number_pos, follows.old h hh⟩,
    follows.found, fun h v => under_eq_some follows.right, fun later earlier h eq given none => ?_,
    follows.size, follows.unclashed, follows.unread, follows.unwritten⟩
  have right := follows.right
  rw [eq] at right ⊢
  exact (under_gone right given none).1

/-- A value is pinned twice.  When it is released under its first handle, its destructor finds that
handle gone, pins another value, and releases the copy, whose destructor counts what is left; when the
registry is cleared, a destructor pins a value that stays. -/
theorem registry_run_nested :
    let first : Handle := ⟨1, by decide⟩
    let copy : Handle := ⟨2, by decide⟩
    let other : Handle := ⟨3, by decide⟩
    let last : Handle := ⟨4, by decide⟩
    let uses : List (Use Nat) :=
      [.pin 7, .repin first, .release first [.get first, .get copy, .pin 8, .release copy [.size]],
        .release first [], .clear [[.get other, .pin 9]], .isEmpty, .get last]
    let told : List (Answer Nat) :=
      [.pin first, .repin (some copy),
        .release true [.get none, .get (some 7), .pin other, .release true [.size 1]],
        .release false [], .clear [[.get none, .pin last]], .isEmpty false, .get (some 9)]
    ((SharedRegistry.performAll uses).run .new).1 = told
    ∧ History.MeetsAll [] uses told ((SharedRegistry.performAll uses).run .new).2.history := by
  intro first copy other last uses told
  have heard : ((SharedRegistry.performAll uses).run .new).1 = told := by cbv
  have met := (registry_run uses).1
  rw [heard] at met
  exact ⟨heard, met⟩

end ScriptBridge
