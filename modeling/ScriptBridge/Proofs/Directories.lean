import ScriptBridge.Proofs.Entries
import ScriptBridge.Proofs.Leads
import ScriptBridge.SessionMap

/-!
# ScriptBridge.Proofs.Directories

When the directory is right.  `Directory.Sound L n d` says so when the sessions whose runtimes are
there are `L`: there is at most one map, its owners are the sessions that have not been dropped,
those who hold it, and `n` others, and it has the sessions `L` and no others, each under the
address of its runtime.

Main facts:

* `Directory.leads_enroll`, `Directory.leads_remove`, `Directory.leads_dismiss` — a session comes
  and goes;
* `Directory.leads_resolve` — an address leads to the session whose runtime is there;
* `Directory.leads_hold`, `Directory.leads_letGo` — the map is held;
* `Directory.Sound.isSome_current` — there is a map for as long as somebody owns it.
-/

namespace ScriptBridge

open Std

/-! ## Sizes -/

section

variable {α β : Type} [Ord α] [TransOrd α] {t : TreeMap α β} {k : α}

theorem contains_eq_isSome (t : TreeMap α β) (k : α) : t.contains k = t[k]?.isSome :=
  TreeMap.contains_eq_isSome_getElem?

theorem size_insert_of_none {v : β} (h : t[k]? = none) : (t.insert k v).size = t.size + 1 := by
  rw [TreeMap.size_insert, contains_eq_isSome, h]
  rfl

theorem size_pos {v : β} (h : t[k]? = some v) : 0 < t.size := by
  rw [Nat.pos_iff_ne_zero]
  intro zero
  have empty : t.isEmpty = true := by rw [TreeMap.isEmpty_eq_size_eq_zero, zero]; rfl
  have absent := TreeMap.isEmpty_iff_forall_not_mem.mp empty k
  rw [TreeMap.getElem?_eq_none absent] at h
  cases h

theorem size_erase_of_some {v : β} (h : t[k]? = some v) : (t.erase k).size + 1 = t.size := by
  have pos := size_pos h
  rw [TreeMap.size_erase, contains_eq_isSome, h, Option.isSome_some, if_pos rfl]
  omega

theorem size_eq_zero (h : ∀ k : α, t[k]? = none) : t.size = 0 := by
  have empty : t.isEmpty = true := TreeMap.isEmpty_iff_forall_not_mem.mpr fun k hk => by
    rw [TreeMap.mem_iff_isSome_getElem?, h] at hk
    cases hk
  rwa [TreeMap.isEmpty_eq_size_eq_zero, beq_iff_eq] at empty

end

namespace Directory

variable {L L' : SessionId → Prop} {n k : Nat} {d d' b : Directory} {m : MapId} {id : SessionId}
  {shared shared' : SharedMap} {key : Address}

/-! ## When a directory is right -/

/-- Whether somebody owns a map. -/
def Alive (d : Directory) (m : MapId) : Prop := ∃ shared, d.maps[m]? = some shared

/-- How many own the map that are known. -/
def owners (d : Directory) : Nat := d.registrations.size + d.held.length

/-- Whether a directory is right: the runtimes of the sessions `L` are there, and `n` others own the
map besides those who are known. -/
structure Sound (L : SessionId → Prop) (n : Nat) (d : Directory) : Prop where
  one : ∀ (m : MapId) (shared : SharedMap), d.maps[m]? = some shared → d.latest = some m
  made : ∀ m, d.latest = some m → m < d.made
  owned : ∀ (m : MapId) (shared : SharedMap), d.maps[m]? = some shared → shared.owners = d.owners + n ∧ 0 < shared.owners
  registered : ∀ (id : SessionId) (r : Registration), d.registrations[id]? = some r → r.key = d.address id ∧ d.Alive r.map
  held : ∀ m ∈ d.held, d.Alive m
  listed : ∀ (m : MapId) (shared : SharedMap), d.maps[m]? = some shared → ∀ key id,
    shared.map.entries[key]? = some id ↔ L id ∧ d.address id = key
  free : ∀ (m : MapId) (shared : SharedMap), d.maps[m]? = some shared → shared.map.isLent = false
  found : ∀ id, L id → ∃ r : Registration, d.registrations[id]? = some r
  orderly : d.clashed = false

/-- Whether the runtimes are where they were, and no more of them has called back in vain. -/
structure Same (b d : Directory) : Prop where
  address : d.address = b.address
  lost : d.lost = b.lost

theorem Same.refl (d : Directory) : d.Same d := ⟨rfl, rfl⟩

theorem Same.trans {d'' : Directory} (h : d.Same d') (h' : d'.Same d'') : d.Same d'' :=
  ⟨h'.address.trans h.address, h'.lost.trans h.lost⟩

/-- Whether the sessions and those who hold a map are the same as before, too. -/
structure Kept (b d : Directory) : Prop where
  registrations : d.registrations = b.registrations
  held : d.held = b.held
  same : b.Same d

theorem Kept.refl (d : Directory) : d.Kept d := ⟨rfl, rfl, .refl d⟩

theorem Kept.address (h : b.Kept d) : d.address = b.address := h.same.address

theorem Kept.owners (h : b.Kept d) : d.owners = b.owners := by
  rw [Directory.owners, Directory.owners, h.registrations, h.held]

theorem sound_new (address : SessionId → Address) :
    Sound (fun _ => False) 0 (new address) := by
  have none : ∀ m : MapId, (new address).maps[m]? = none := fun m => by simp [new]
  refine ⟨fun m s h => ?_, fun m h => ?_, fun m s h => ?_, fun i r h => ?_, fun m h => ?_,
    fun m s h => ?_, fun m s h => ?_, fun _ h => h.elim, rfl⟩
  · cases (none m).symm.trans h
  · cases h
  · cases (none m).symm.trans h
  · simp [new] at h
  · cases h
  · cases (none m).symm.trans h
  · cases (none m).symm.trans h

namespace Sound

/-- There is one map at most. -/
theorem unique (h : d.Sound L n) {m' : MapId} (hm : d.Alive m) (hm' : d.Alive m') : m = m' := by
  obtain ⟨s, hs⟩ := hm
  obtain ⟨s', hs'⟩ := hm'
  exact Option.some.inj ((h.one m s hs).symm.trans (h.one m' s' hs'))

theorem congr (h : d.Sound L n) (same : ∀ id, L id ↔ L' id) : d.Sound L' n :=
  { h with
    listed := fun m s hs key id => by rw [h.listed m s hs, same]
    found := fun id hid => h.found id ((same id).mpr hid) }

/-- Two runtimes that are there have different addresses. -/
theorem apart (h : d.Sound L n) (hi : L id) {j : SessionId} (hj : L j)
    (same : d.address id = d.address j) : id = j := by
  obtain ⟨r, hr⟩ := h.found id hi
  obtain ⟨-, s, hs⟩ := h.registered id r hr
  have mine := (h.listed _ s hs (d.address j) id).mpr ⟨hi, same⟩
  have other := (h.listed _ s hs (d.address j) j).mpr ⟨hj, rfl⟩
  exact Option.some.inj (mine.symm.trans other)

/-- Without a map there is nobody who could own it. -/
theorem nobody (h : d.Sound L n) (gone : ∀ m, ¬ d.Alive m) :
    (∀ id : SessionId, d.registrations[id]? = none) ∧ d.held = [] ∧ ∀ id, ¬ L id := by
  have unregistered : ∀ id : SessionId, d.registrations[id]? = none := fun id => by
    cases hr : d.registrations[id]? with
    | none => rfl
    | some r => exact absurd (h.registered id r hr).2 (gone _)
  refine ⟨unregistered, ?_, fun id hid => ?_⟩
  · cases held : d.held with
    | nil => rfl
    | cons m rest => exact absurd (h.held m (held ▸ List.mem_cons_self)) (gone m)
  · obtain ⟨r, hr⟩ := h.found id hid
    cases (unregistered id).symm.trans hr

/-- A map that is there gives way to another. -/
theorem replace (h : d.Sound L n) (hm : d.maps[m]? = some shared) (shared' : SharedMap)
    (owned : shared'.owners = d.owners + k) (positive : 0 < shared'.owners)
    (listed : ∀ key id, shared'.map.entries[key]? = some id ↔ L' id ∧ d.address id = key)
    (free : shared'.map.isLent = false) (found : ∀ id, L' id → ∃ r : Registration, d.registrations[id]? = some r) :
    Sound L' k { d with maps := d.maps.insert m shared' } := by
  have own : (d.maps.insert m shared')[m]? = some shared' := by simp
  have only : ∀ {i s}, (d.maps.insert m shared')[i]? = some s → i = m ∧ s = shared' := by
    intro i s hs
    by_cases here : i = m
    · exact ⟨here, Option.some.inj (hs.symm.trans (here ▸ own))⟩
    · rw [getElem?_insert_of_ne here] at hs
      exact absurd (h.unique ⟨s, hs⟩ ⟨shared, hm⟩) here
  have alive : ∀ {i}, d.Alive i → Alive { d with maps := d.maps.insert m shared' } i :=
    fun hi => ⟨shared', by rw [h.unique hi ⟨shared, hm⟩]; exact own⟩
  refine ⟨fun i s hs => ?_, h.made, fun i s hs => ?_, fun i r hr => ?_, fun i hi => ?_,
    fun i s hs => ?_, fun i s hs => ?_, found, h.orderly⟩
  · exact (only hs).1 ▸ h.one m shared hm
  · rw [(only hs).2]
    exact ⟨owned, positive⟩
  · exact ⟨(h.registered i r hr).1, alive (h.registered i r hr).2⟩
  · exact alive (h.held i hi)
  · exact (only hs).2 ▸ listed
  · exact (only hs).2 ▸ free

end Sound

theorem SessionMap.isLent_change (m : SessionMap)
    (f : TreeMap Address SessionId → TreeMap Address SessionId) (free : m.isLent = false) :
    (m.change f).isLent = false := by
  rw [SessionMap.isLent, Bool.or_eq_false_iff] at free
  rw [SessionMap.isLent, Bool.or_eq_false_iff]
  exact ⟨rfl, free.2⟩

/-! ## Owners come and go -/

/-- What is known of a directory while somebody works on it. -/
def Tended (b : Directory) (L : SessionId → Prop) (n : Nat) (d : Directory) : Prop :=
  d.Sound L n ∧ b.Kept d

theorem current_run_some (latest : d.latest = some m) (hm : d.maps[m]? = some shared) :
    current.run d = (some m, { d with
      maps := d.maps.insert m { shared with owners := shared.owners + 1 } }) := by
  rw [current, StateT.run_modifyGet, latest]
  dsimp only
  rw [hm]
  rfl

theorem current_run_none (gone : ∀ m, d.latest = some m → d.maps[m]? = none) :
    current.run d = (none, d) := by
  rw [current, StateT.run_modifyGet]
  cases latest : d.latest with
  | none => rfl
  | some m =>
    dsimp only
    rw [gone m latest]
    rfl

/-- Whoever asks for the map in use owns it too. -/
theorem leads_current : Leads (Tended b L n) current fun r => r.elim
    (fun d => Tended b L n d ∧ ∀ m, ¬ d.Alive m)
    fun m d => 0 < b.owners + n ∧ Tended b L (n + 1) d ∧ d.Alive m := by
  rintro d ⟨h, kept⟩
  by_cases gone : ∀ m, d.latest = some m → d.maps[m]? = none
  · rw [current_run_none gone]
    refine ⟨⟨h, kept⟩, fun m ⟨s, hs⟩ => ?_⟩
    cases (gone m (h.one m s hs)).symm.trans hs
  · push Not at gone
    obtain ⟨m, latest, there⟩ := gone
    obtain ⟨shared, hm⟩ := Option.ne_none_iff_exists'.mp there
    obtain ⟨owned, positive⟩ := h.owned m shared hm
    rw [current_run_some latest hm]
    refine ⟨kept.owners ▸ owned ▸ positive, ⟨h.replace hm { shared with owners := shared.owners + 1 }
      ?_ (Nat.succ_pos _) (h.listed m shared hm) (h.free m shared hm) h.found, kept.registrations,
      kept.held, ⟨kept.same.address, kept.same.lost⟩⟩, _, TreeMap.getElem?_insert_self⟩
    exact congrArg (· + 1) owned

/-- The map in use is there when nobody else works on it. -/
theorem leads_make : Leads (fun d => Tended b L 0 d ∧ ∀ m, ¬ d.Alive m) make fun m d =>
    Tended b L 1 d ∧ d.Alive m := by
  refine .modifyGet fun d ⟨⟨h, kept⟩, gone⟩ => ?_
  obtain ⟨unregistered, unheld, unlisted⟩ := h.nobody gone
  have own : (d.maps.insert d.made ⟨.empty, 1⟩)[d.made]? = some ⟨.empty, 1⟩ := by simp
  have only : ∀ {i s}, (d.maps.insert d.made ⟨.empty, 1⟩)[i]? = some s →
      i = d.made ∧ s = ⟨.empty, 1⟩ := by
    intro i s hs
    by_cases here : i = d.made
    · exact ⟨here, Option.some.inj (hs.symm.trans (here ▸ own))⟩
    · rw [getElem?_insert_of_ne here] at hs
      exact absurd ⟨s, hs⟩ (gone i)
  refine ⟨⟨⟨fun i s hs => ?_, fun i hi => ?_, fun i s hs => ?_, fun i r hr => ?_, fun i hi => ?_,
    fun i s hs => ?_, fun i s hs => ?_, fun i hi => absurd hi (unlisted i), h.orderly⟩,
    kept.registrations, kept.held, ⟨kept.same.address, kept.same.lost⟩⟩, _, own⟩
  · rw [(only hs).1]
  · obtain rfl := Option.some.inj hi
    exact Nat.lt_succ_self _
  · rw [(only hs).2]
    refine ⟨?_, Nat.one_pos⟩
    rw [owners, size_eq_zero unregistered, unheld]
    rfl
  · cases (unregistered i).symm.trans hr
  · rw [unheld] at hi
    cases hi
  · rw [(only hs).2]
    exact fun key id => ⟨fun hk => by simp [SessionMap.empty] at hk, fun hk => absurd hk.1 (unlisted id)⟩
  · rw [(only hs).2]
    rfl

theorem leads_acquire : Leads (Tended b L 0) acquire fun m d => Tended b L 1 d ∧ d.Alive m := by
  refine leads_current.bind fun r => ?_
  cases r with
  | none => exact leads_make
  | some m => exact .pure m fun d h => h.2

/-- An owner lets go of the map, which stays as it is as long as there are others. -/
theorem leads_disown (m : MapId) (P : SessionMap → Prop) : Leads
    (fun d => Tended b L (n + 1) d ∧ ∃ shared, d.maps[m]? = some shared ∧ P shared.map) (disown m)
    fun _ d => Tended b L n d
      ∧ (0 < b.owners + n → ∃ shared, d.maps[m]? = some shared ∧ P shared.map) := by
  refine .modify fun d ⟨⟨h, kept⟩, shared, hm, holds⟩ => ?_
  have known := kept.owners
  obtain ⟨owned, positive⟩ := h.owned m shared hm
  rw [hm]
  dsimp only
  split
  · rename_i more
    refine ⟨⟨h.replace hm { shared with owners := shared.owners - 1 } ?_ (Nat.sub_pos_of_lt more)
      (h.listed m shared hm) (h.free m shared hm) h.found, kept.registrations, kept.held,
      ⟨kept.same.address, kept.same.lost⟩⟩, fun _ => ⟨_, TreeMap.getElem?_insert_self, holds⟩⟩
    change shared.owners - 1 = d.owners + n
    omega
  · rename_i last
    have zero : d.owners = 0 ∧ n = 0 := by omega
    have empty : ∀ i, (d.maps.erase m)[i]? = none := fun i => by
      by_cases here : i = m
      · rw [here]
        exact getElem?_erase_self _ _
      · rw [getElem?_erase_of_ne here]
        cases hi : d.maps[i]? with
        | none => rfl
        | some s => exact absurd (h.unique ⟨s, hi⟩ ⟨shared, hm⟩) here
    have unregistered : ∀ i : SessionId, d.registrations[i]? = none := fun i => by
      cases hr : d.registrations[i]? with
      | none => rfl
      | some r =>
        have := size_pos hr
        rw [owners] at zero
        omega
    have unheld : d.held = [] := List.eq_nil_of_length_eq_zero (by rw [owners] at zero; omega)
    refine ⟨⟨⟨fun i s hs => ?_, h.made, fun i s hs => ?_, fun i r hr => ?_, fun i hi => ?_,
      fun i s hs => ?_, fun i s hs => ?_, h.found, h.orderly⟩, kept.registrations, kept.held,
      ⟨kept.same.address, kept.same.lost⟩⟩, fun others => ?_⟩
    · cases (empty i).symm.trans hs
    · cases (empty i).symm.trans hs
    · cases (unregistered i).symm.trans hr
    · rw [show d.held = [] from unheld] at hi
      cases hi
    · cases (empty i).symm.trans hs
    · cases (empty i).symm.trans hs
    · omega

/-! ## What is done to the table -/

/-- Whoever is in the way of nobody does no harm. -/
theorem Sound.quiet (h : d.Sound L n) {c : Bool} (quiet : c = false) :
    Sound L n { d with clashed := c } := { h with orderly := quiet }

/-- Looking something up changes nothing. -/
theorem leads_look {α : Type} [Inhabited α] (m : MapId) (f : TreeMap Address SessionId → α) :
    Leads (fun d => Tended b L n d ∧ d.Alive m) (look m f) fun a d => (Tended b L n d ∧ d.Alive m)
      ∧ ∃ shared : SharedMap, d.maps[m]? = some shared ∧ a = f shared.map.entries := by
  refine .modifyGet fun d ⟨⟨h, kept⟩, shared, hm⟩ => ?_
  rw [hm]
  obtain ⟨owned, positive⟩ := h.owned m shared hm
  have free := h.free m shared hm
  have unwritten : shared.map.written = false := (Bool.or_eq_false_iff.mp free).1
  have own : (d.maps.insert m shared)[m]? = some shared := TreeMap.getElem?_insert_self
  exact ⟨⟨⟨(h.replace hm shared owned positive (h.listed m shared hm) free h.found).quiet
    (by rw [h.orderly, unwritten]; rfl), kept.registrations, kept.held, ⟨kept.same.address, kept.same.lost⟩⟩,
    shared, own⟩, shared, own, rfl⟩

/-- The sessions that a table lists change with the table. -/
theorem leads_change (m : MapId) (f : TreeMap Address SessionId → TreeMap Address SessionId)
    (lists : ∀ (d : Directory) (shared : SharedMap), d.Sound L n → b.Kept d →
      d.maps[m]? = some shared → ∀ (key : Address) (id : SessionId),
        (f shared.map.entries)[key]? = some id ↔ L' id ∧ d.address id = key)
    (found : ∀ d : Directory, d.Sound L n → b.Kept d → ∀ id, L' id →
      ∃ r : Registration, d.registrations[id]? = some r) :
    Leads (fun d => Tended b L n d ∧ d.Alive m) (change m f)
      fun _ d => Tended b L' n d ∧ d.Alive m := by
  refine .modify fun d ⟨⟨h, kept⟩, shared, hm⟩ => ?_
  rw [hm]
  obtain ⟨owned, positive⟩ := h.owned m shared hm
  have free := h.free m shared hm
  refine ⟨⟨(h.replace hm { shared with map := shared.map.change f } owned positive
    (lists d shared h kept hm) (SessionMap.isLent_change _ f free)
    (found d h kept)).quiet (by rw [h.orderly, free]; rfl), kept.registrations,
    kept.held, ⟨kept.same.address, kept.same.lost⟩⟩, _, TreeMap.getElem?_insert_self⟩

/-- What is looked up in the map in use, if there is one. -/
theorem leads_consult {α : Type} [Inhabited α] (f : TreeMap Address SessionId → α) :
    Leads (Tended b L n) (consult f) fun r d => Tended b L n d ∧ r.elim (∀ m, ¬ d.Alive m)
      fun a => ∃ (m : MapId) (shared : SharedMap), d.maps[m]? = some shared
        ∧ a = f shared.map.entries := by
  refine leads_current.bind fun r => ?_
  cases r with
  | none => exact .pure none fun d h => h
  | some m =>
    refine .given fun others => (leads_look m f).bind fun a => ?_
    refine .bind ((leads_disown m fun map => a = f map.entries).mono (fun d h => ⟨h.1.1, h.2⟩)
      fun _ _ h => h) fun _ => .pure (some a) fun d h => ⟨h.1, m, h.2 others⟩

/-- An address leads to the session whose runtime is there. -/
theorem leads_resolve (key : Address) : Leads (Tended b L n) (resolve key) fun r d =>
    Tended b L n d ∧ ∀ id, r = some id ↔ L id ∧ b.address id = key := by
  refine (leads_consult _).bind fun r => .pure _ fun d ⟨⟨h, kept⟩, found⟩ => ⟨⟨h, kept⟩, fun id => ?_⟩
  rw [← kept.address]
  cases r with
  | none => exact ⟨fun eq => (by cases eq), fun there => absurd there.1 ((h.nobody found).2.2 id)⟩
  | some found' =>
    obtain ⟨m, shared, hm, rfl⟩ := found
    exact h.listed m shared hm key id

/-! ## Sessions come and go -/

/-- A session that owns the map is known from now on. -/
theorem Sound.register (h : d.Sound L (n + 1)) (alive : d.Alive m)
    (fresh : d.registrations[id]? = none) :
    Sound L n { d with registrations := d.registrations.insert id ⟨m, d.address id⟩ } := by
  have own : (d.registrations.insert id ⟨m, d.address id⟩)[id]? = some ⟨m, d.address id⟩ :=
    TreeMap.getElem?_insert_self
  refine ⟨h.one, h.made, fun i s hs => ?_, fun i r hr => ?_, h.held, h.listed, h.free,
    fun i hi => ?_, h.orderly⟩
  · refine ⟨(h.owned i s hs).1.trans ?_, (h.owned i s hs).2⟩
    change d.registrations.size + d.held.length + (n + 1)
      = (d.registrations.insert id _).size + d.held.length + n
    rw [size_insert_of_none fresh]
    omega
  · by_cases here : i = id
    · subst here
      obtain rfl := Option.some.inj (own.symm.trans hr)
      exact ⟨rfl, alive⟩
    · rw [getElem?_insert_of_ne here] at hr
      exact h.registered i r hr
  · by_cases here : i = id
    · subst here
      exact ⟨_, own⟩
    · obtain ⟨r, hr⟩ := h.found i hi
      exact ⟨r, (getElem?_insert_of_ne here).trans hr⟩

/-- A new session is on the map with its runtime. -/
theorem leads_enroll (fresh : b.registrations[id]? = none)
    (apart : ∀ j, L j → b.address j ≠ b.address id) :
    Leads (Tended b L 0) (enroll id) fun _ d => d.Sound (fun j => L j ∨ j = id) 0
      ∧ b.Same d ∧ d.held = b.held
      ∧ ∀ (j : SessionId) (r : Registration), d.registrations[j]? = some r →
        j = id ∨ b.registrations[j]? = some r := by
  have added : ∀ m, Leads (fun d => Tended b L 1 d ∧ d.Alive m) (do
      modify fun d => { d with registrations := d.registrations.insert id ⟨m, b.address id⟩ }
      change m fun entries => entries.insert (b.address id) id : Clerk Unit)
      fun _ d => d.Sound (fun j => L j ∨ j = id) 0
        ∧ b.Same d ∧ d.held = b.held
        ∧ ∀ (j : SessionId) (r : Registration), d.registrations[j]? = some r →
          j = id ∨ b.registrations[j]? = some r := by
    intro m
    let b' := { b with registrations := b.registrations.insert id ⟨m, b.address id⟩ }
    have known : Leads (fun d => Tended b L 1 d ∧ d.Alive m) (modify fun d =>
        { d with registrations := d.registrations.insert id ⟨m, b.address id⟩ } : Clerk Unit)
        fun _ d => Tended b' L 0 d ∧ d.Alive m := by
      refine .modify fun d ⟨⟨h, kept⟩, alive⟩ => ?_
      have registered := h.register alive (kept.registrations ▸ fresh)
      exact ⟨⟨kept.address ▸ registered, by rw [kept.registrations], kept.held, ⟨kept.same.address, kept.same.lost⟩⟩, alive⟩
    have listed : Leads (fun d => Tended b' L 0 d ∧ d.Alive m)
        (change m fun entries => entries.insert (b.address id) id)
        fun _ d => Tended b' (fun j => L j ∨ j = id) 0 d ∧ d.Alive m := by
      refine leads_change m _ (fun d shared h kept hm key j => ?_) fun d h kept j hj => ?_
      · have address : d.address = b.address := kept.address
        by_cases here : key = b.address id
        · subst here
          rw [TreeMap.getElem?_insert_self, address]
          refine ⟨fun eq => ⟨.inr (Option.some.inj eq).symm, by rw [Option.some.inj eq]⟩, ?_⟩
          rintro ⟨hj | rfl, same⟩
          · exact absurd same (apart j hj)
          · rfl
        · rw [getElem?_insert_of_ne here, h.listed m shared hm]
          refine ⟨fun ⟨hj, same⟩ => ⟨.inl hj, same⟩, fun ⟨hj, same⟩ => ⟨?_, same⟩⟩
          refine hj.resolve_right ?_
          rintro rfl
          exact here (same.symm.trans (by rw [address]))
      · obtain hj | rfl := hj
        · exact h.found j hj
        · rw [kept.registrations]
          exact ⟨_, TreeMap.getElem?_insert_self⟩
    refine (known.bind fun _ => listed).mono (fun _ h => h) fun _ d ⟨⟨h, kept⟩, _⟩ =>
      ⟨h, ⟨kept.same.address, kept.same.lost⟩, kept.held, fun j r hr => ?_⟩
    by_cases here : j = id
    · exact .inl here
    · rw [kept.registrations, getElem?_insert_of_ne here] at hr
      exact .inr hr
  refine .get_bind fun d h => ?_
  rw [h.2.address]
  exact Leads.bind leads_acquire added d h

/-- A session whose runtime is gone is not on the map any more. -/
theorem leads_remove (apart : ∀ j, L j → b.address j = b.address id → j = id) :
    Leads (Tended b L n) (remove id) fun _ => Tended b (fun j => L j ∧ j ≠ id) n := by
  refine .get_bind fun d ⟨h, kept⟩ => ?_
  cases hr : d.registrations[id]? with
  | none =>
    refine ⟨h.congr fun j => ⟨fun hj => ⟨hj, ?_⟩, And.left⟩, kept⟩
    rintro rfl
    obtain ⟨r, hr'⟩ := h.found j hj
    cases hr.symm.trans hr'
  | some r =>
    obtain ⟨key, alive⟩ := h.registered id r hr
    have removed : Leads (fun d' => Tended d L n d' ∧ d'.Alive r.map)
        (change r.map fun entries => entries.erase r.key)
        fun _ d' => Tended d (fun j => L j ∧ j ≠ id) n d' ∧ d'.Alive r.map := by
      refine leads_change r.map _ (fun d' shared h' kept' hm key' j => ?_) fun d' h' kept' j hj =>
        h'.found j hj.1
      have address : d'.address = b.address := kept'.address.trans kept.address
      have mine : b.address id = r.key := by rw [key, kept.address]
      by_cases here : key' = r.key
      · subst here
        rw [getElem?_erase_self, address]
        exact ⟨fun eq => (by cases eq), fun ⟨⟨hj, ne⟩, same⟩ =>
          absurd (apart j hj (same.trans mine.symm)) ne⟩
      · rw [getElem?_erase_of_ne here, h'.listed r.map shared hm]
        refine ⟨fun ⟨hj, same⟩ => ⟨⟨hj, ?_⟩, same⟩, fun ⟨hj, same⟩ => ⟨hj.1, same⟩⟩
        rintro rfl
        exact here (same.symm.trans (address ▸ mine))
    have after := removed d ⟨⟨h, .refl d⟩, alive⟩
    exact ⟨after.1.1, after.1.2.registrations.trans kept.registrations,
      after.1.2.held.trans kept.held, kept.same.trans after.1.2.same⟩

/-- A session that is dropped lets go of the map. -/
theorem leads_dismiss (unlisted : ¬ L id) :
    Leads (Tended b L n) (dismiss id) fun _ d => d.Sound L n
      ∧ b.Same d ∧ d.held = b.held ∧ ∀ (j : SessionId) (r : Registration),
        d.registrations[j]? = some r → j ≠ id ∧ b.registrations[j]? = some r := by
  refine .get_bind fun d ⟨h, kept⟩ => ?_
  cases hr : d.registrations[id]? with
  | none =>
    refine ⟨h, kept.same, kept.held, fun j r hj => ⟨?_, kept.registrations ▸ hj⟩⟩
    rintro rfl
    cases hr.symm.trans hj
  | some r =>
    let b' := { d with registrations := d.registrations.erase id }
    have less : Leads (fun d' => d' = d) (modify fun d =>
        { d with registrations := d.registrations.erase id } : Clerk Unit)
        fun _ d' => Tended b' L (n + 1) d'
          ∧ ∃ shared, d'.maps[r.map]? = some shared ∧ True := by
      refine .modify fun d' eq => ?_
      subst eq
      obtain ⟨shared, hm⟩ := (h.registered id r hr).2
      refine ⟨⟨⟨h.one, h.made, fun i s hs => ⟨(h.owned i s hs).1.trans ?_, (h.owned i s hs).2⟩,
        fun i r' hr' => ?_, h.held, h.listed, h.free, fun i hi => ?_, h.orderly⟩, .refl _⟩,
        shared, hm, trivial⟩
      · change d'.registrations.size + d'.held.length + n
          = (d'.registrations.erase id).size + d'.held.length + (n + 1)
        rw [← size_erase_of_some hr]
        omega
      · refine h.registered i r' ?_
        rwa [getElem?_erase_of_ne] at hr'
        rintro rfl
        cases (getElem?_erase_self _ _).symm.trans hr'
      · obtain ⟨r', hr'⟩ := h.found i hi
        refine ⟨r', (getElem?_erase_of_ne ?_).trans hr'⟩
        rintro rfl
        exact unlisted hi
    obtain ⟨⟨h', kept'⟩, -⟩ := Leads.bind less (fun _ => leads_disown r.map fun _ => True) d rfl
    refine ⟨h', kept.same.trans ⟨kept'.same.address, kept'.same.lost⟩, kept'.held.trans kept.held, fun j q hj => ?_⟩
    rw [kept'.registrations] at hj
    have ne : j ≠ id := by
      rintro rfl
      cases (getElem?_erase_self _ _).symm.trans hj
    rw [getElem?_erase_of_ne ne] at hj
    exact ⟨ne, kept.registrations ▸ hj⟩

/-! ## The map is held -/

/-- What was known of the sessions is known again, however many hold the map. -/
def Settled (b : Directory) (L : SessionId → Prop) (d : Directory) : Prop :=
  d.Sound L 0 ∧ d.registrations = b.registrations ∧ b.Same d

theorem leads_count : Leads (Tended b L 0) count fun _ => Settled b L :=
  (leads_consult _).mono (fun _ h => h) fun _ _ h => ⟨h.1.1, h.1.2.registrations, h.1.2.same⟩

theorem leads_hold : Leads (Tended b L 0) hold fun same d => same = true ∧ Settled b L d := by
  refine leads_acquire.bind fun m => ?_
  let b' := { b with held := m :: b.held }
  have holds : Leads (fun d => Tended b L 1 d ∧ d.Alive m) (modify fun d =>
      { d with held := m :: d.held } : Clerk Unit) fun _ => Tended b' L 0 := by
    refine .modify fun d ⟨⟨h, kept⟩, alive⟩ => ⟨⟨h.one, h.made, fun i s hs =>
      ⟨(h.owned i s hs).1.trans ?_, (h.owned i s hs).2⟩, h.registered, fun i hi => ?_, h.listed,
      h.free, h.found, h.orderly⟩, kept.registrations, congrArg (m :: ·) kept.held, ⟨kept.same.address, kept.same.lost⟩⟩
    · change d.registrations.size + d.held.length + (0 + 1)
        = d.registrations.size + (d.held.length + 1) + 0
      omega
    · obtain rfl | hi := List.mem_cons.mp hi
      · exact alive
      · exact h.held i hi
  -- the map that is held is the one in use
  have asks : Leads (Tended b' L 0) current fun r d => r = some m ∧ Tended b' L 1 d ∧ d.Alive m := by
    refine leads_current.mono (fun _ h => h) fun r d after => ?_
    cases r with
    | none =>
      obtain ⟨⟨h, kept⟩, gone⟩ := after
      exact absurd (h.held m (kept.held ▸ List.mem_cons_self)) (gone m)
    | some other =>
      obtain ⟨-, ⟨h, kept⟩, alive⟩ := after
      obtain rfl := h.unique (h.held m (kept.held ▸ List.mem_cons_self)) alive
      exact ⟨rfl, ⟨h, kept⟩, alive⟩
  refine holds.bind fun _ => asks.bind fun r => .given fun eq => ?_
  subst eq
  refine .bind ((leads_disown m fun _ => True).mono (fun d ⟨h, shared, hm⟩ =>
    ⟨h, shared, hm, trivial⟩) fun _ _ h => h) fun _ => .pure _ fun d ⟨⟨h, kept⟩, _⟩ =>
      ⟨beq_self_eq_true m, h, kept.registrations, kept.same.address, kept.same.lost⟩

theorem leads_disownAll (ms : List MapId) :
    Leads (fun d => Tended b L (n + ms.length) d ∧ ∀ m ∈ ms, d.Alive m) (disownAll ms)
      fun _ => Tended b L n := by
  induction ms with
  | nil => exact .pure _ fun d h => h.1
  | cons m ms ih =>
    refine .bind (Q := fun _ d => Tended b L (n + ms.length) d ∧ ∀ m ∈ ms, d.Alive m) ?_ fun _ => ih
    rintro d ⟨⟨h, kept⟩, alive⟩
    obtain ⟨shared, hm⟩ := alive m List.mem_cons_self
    obtain ⟨after, stays⟩ := leads_disown m (fun _ => True) d ⟨⟨h, kept⟩, shared, hm, trivial⟩
    refine ⟨after, fun i hi => ?_⟩
    have others : 0 < b.owners + (n + ms.length) := by
      have := List.length_pos_of_mem hi
      omega
    obtain ⟨s, hs, -⟩ := stays others
    rw [h.unique (alive i (List.mem_cons_of_mem _ hi)) ⟨shared, hm⟩]
    exact ⟨s, hs⟩

theorem leads_letGo : Leads (Tended b L 0) letGo fun _ => Settled b L := by
  refine .get_bind fun d ⟨h, kept⟩ => ?_
  let b' := { b with held := [] }
  have none : Leads (fun d' => d' = d) (modify fun d => { d with held := [] } : Clerk Unit)
      fun _ d' => Tended b' L (0 + d.held.length) d' ∧ ∀ m ∈ d.held, d'.Alive m := by
    refine .modify fun d' eq => ?_
    subst eq
    refine ⟨⟨⟨h.one, h.made, fun i s hs => ⟨(h.owned i s hs).1.trans ?_, (h.owned i s hs).2⟩,
      h.registered, fun i hi => absurd hi List.not_mem_nil, h.listed, h.free, h.found, h.orderly⟩,
      kept.registrations, rfl, ⟨kept.same.address, kept.same.lost⟩⟩, h.held⟩
    change d'.registrations.size + d'.held.length + 0
      = d'.registrations.size + 0 + (0 + d'.held.length)
    omega
  obtain ⟨h', kept'⟩ := Leads.bind none (fun _ => leads_disownAll d.held) d rfl
  exact ⟨h', kept'.registrations, kept'.same.address, kept'.same.lost⟩

/-! ## The map in use -/

/-- There is a map in use if, and only if, a session or somebody else owns it. -/
theorem Sound.isSome_current (h : d.Sound L 0) : (current.run d).1.isSome = true
    ↔ (∃ (id : SessionId) (r : Registration), d.registrations[id]? = some r) ∨ d.held ≠ [] := by
  constructor
  · intro there
    by_contra nobody
    obtain ⟨unregistered, unheld⟩ := not_or.mp nobody
    have gone : ∀ m, d.latest = some m → d.maps[m]? = none := fun m _ => by
      cases hm : d.maps[m]? with
      | none => rfl
      | some shared =>
        have none : ∀ id : SessionId, d.registrations[id]? = none := fun id => by
          cases hr : d.registrations[id]? with
          | none => rfl
          | some r => exact absurd ⟨id, r, hr⟩ unregistered
        obtain ⟨owned, positive⟩ := h.owned m shared hm
        rw [owned, owners, size_eq_zero none, not_not.mp unheld] at positive
        cases positive
    rw [current_run_none gone] at there
    cases there
  · intro owned
    have alive : ∃ m, d.Alive m := by
      obtain ⟨id, r, hr⟩ | held := owned
      · exact ⟨r.map, (h.registered id r hr).2⟩
      · obtain ⟨m, hm⟩ := List.exists_mem_of_ne_nil d.held held
        exact ⟨m, h.held m hm⟩
    obtain ⟨m, shared, hm⟩ := alive
    rw [current_run_some (h.one m shared hm) hm]
    rfl

/-- A map that is made because there was none has no sessions. -/
theorem acquire_new {d : Directory} (gone : (current.run d).1 = none) :
    ∃ shared, (acquire.run d).2.maps[(acquire.run d).1]? = some shared
      ∧ ∀ key : Address, shared.map.entries[key]? = none := by
  have nothing : ∀ m, d.latest = some m → d.maps[m]? = none := fun m latest => by
    cases hm : d.maps[m]? with
    | none => rfl
    | some shared =>
      rw [current_run_some latest hm] at gone
      cases gone
  refine ⟨⟨.empty, 1⟩, ?_, fun key => by simp [SessionMap.empty]⟩
  rw [acquire, stateM_run_bind, current_run_none nothing]
  exact Std.TreeMap.getElem?_insert_self

end Directory

end ScriptBridge
