import ScriptBridge.Proofs.Threads

/-!
# ScriptBridge.Proofs.Listing

The session map over whole runs.  The runtimes may be at any addresses, as long as those that are
there at the same time are at different ones, so that an address may be that of another runtime
later.

`World.Listed` says what the session map is good for at a point of a run: all open sessions own the
one map there is, it leads to each of them and to nobody else, and it is there for as long as
somebody owns it.

Main facts:

* `World.Nests.listed` — the map is right whenever the sessions stand as the activities say;
* `World.Nests.delisted` — a session that has been closed is off the map before it lets go of it;
* `listing_run` — at every point of every run, a runtime that calls back is led to its session.
-/

namespace ScriptBridge.Host

open Script (Spine)

namespace World

variable {π : Past} {w w' : World} {id j : SessionId} {r : Option SessionId}
  {Ss : SessionId → List Spine}

/-! ## Which sessions are on the map -/

/-- What the session map is good for. -/
structure Listed (w : World) : Prop where
  /-- All open sessions own the map in use. -/
  common : ∀ id, IsOpen w.sessions id → ∃ m, w.directory.latest = some m ∧ w.directory.Alive m
    ∧ w.directory.registrations[id]? = some ⟨m, w.directory.address id⟩
  /-- There is no other map, it has exactly the sessions that are open, each under the address of
  its runtime, and nobody is in the way of those who want to change it. -/
  exactly : ∀ (m : MapId) (shared : SharedMap), w.directory.maps[m]? = some shared →
    w.directory.latest = some m ∧ shared.map.isLent = false
      ∧ ∀ (key : Address) (id : SessionId), shared.map.entries[key]? = some id
        ↔ IsOpen w.sessions id ∧ w.directory.address id = key
  /-- An address leads to the open session whose runtime is there. -/
  leads : ∀ (key : Address) (id : SessionId), ((Directory.resolve key).run w.directory).1 = some id
    ↔ IsOpen w.sessions id ∧ w.directory.address id = key
  /-- The sessions that have not been dropped are those that are open. -/
  kept : ∀ id, (∃ r, w.directory.registrations[id]? = some r) ↔ IsOpen w.sessions id
  /-- Whoever holds a map holds the one in use. -/
  held : ∀ m ∈ w.directory.held, w.directory.latest = some m ∧ w.directory.Alive m
  /-- There is a map for as long as somebody owns it. -/
  current : (Directory.current.run w.directory).1.isSome = true
    ↔ (∃ (id : SessionId) (r : Registration), w.directory.registrations[id]? = some r)
      ∨ w.directory.held ≠ []
  /-- Otherwise the next map is a new one without sessions. -/
  afresh : (Directory.current.run w.directory).1 = none →
    ∃ shared, (Directory.acquire.run w.directory).2.maps[(Directory.acquire.run w.directory).1]?
        = some shared
      ∧ ∀ key : Address, shared.map.entries[key]? = none
  /-- Nobody has ever been in anybody's way. -/
  orderly : w.directory.clashed = false
  /-- Every runtime that has called back was led to a session. -/
  found : w.directory.lost = false

/-- A session that is being closed is still open. -/
theorem Nests.isOpen_of_closing (h : w.Nests π r Ss) (closing : w.Closing id) :
    IsOpen w.sessions id := by
  obtain ⟨a, ha, closes⟩ := closing
  have part : .closes ∈ w.parts id :=
    List.mem_map.mpr ⟨a, ha, Activity.part_self (Activity.about_of_closing closes)⟩
  cases hs : w.sessions[id]? with
  | none => cases (h.absent id hs).1 _ part
  | some s =>
    obtain ⟨q, nested, holds, -⟩ := h.lies id s hs
    have standing : q ≠ .shut := by
      rintro rfl
      cases nested.apart_of_shut.1 _ part
    exact ⟨s, hs, holds.isOpen.mpr standing⟩

theorem Nests.listed (h : w.Nests π r Ss) : w.Listed := by
  have routed := h.routed
  have mapped := routed.mapped
  have kept : ∀ id, (∃ r, w.directory.registrations[id]? = some r) ↔ IsOpen w.sessions id :=
    fun id => ⟨fun ⟨r, hr⟩ => (routed.enrolled id r hr).elim (fun there => there)
      h.isOpen_of_closing, mapped.found id⟩
  refine {
    common := fun id isOpen => ?_
    exactly := fun m shared hm =>
      ⟨mapped.one m shared hm, mapped.free m shared hm, mapped.listed m shared hm⟩
    leads := fun key id =>
      (Directory.leads_resolve key w.directory ⟨mapped, .refl w.directory⟩).2 id
    kept := kept
    held := fun m hm => ?_
    current := mapped.isSome_current
    afresh := Directory.acquire_new
    orderly := mapped.orderly
    found := routed.found }
  · obtain ⟨r, hr⟩ := mapped.found id isOpen
    obtain ⟨key, shared, hm⟩ := mapped.registered id r hr
    exact ⟨r.map, mapped.one r.map shared hm, ⟨shared, hm⟩, by rw [hr, ← key]⟩
  · obtain ⟨shared, hm'⟩ := mapped.held m hm
    exact ⟨mapped.one m shared hm', shared, hm'⟩

/-! ## Runtimes that call back -/

/-- The session map does not change while a session does. -/
theorem directory_onSession {α : Type} [Inhabited α] (op : Op α) :
    ((onSession id op).run w).2.directory = w.directory := by
  cases hs : w.sessions[id]? with
  | none => rw [onSession_run_none hs]
  | some s => rw [onSession_run_some hs]; rfl

/-- A runtime is led to its session by the session map alone. -/
theorem ownerOf_congr (same : w'.directory = w.directory) (isOpen : IsOpen w.sessions id)
    (h : w.Listed) : ((ownerOf id).run w').1 = some id := by
  rw [ownerOf, stateM_get_bind, same]
  change ((Directory.resolve (w.directory.address id)).run w'.directory).1 = some id
  rw [same, h.leads]
  exact ⟨isOpen, rfl⟩

/-- A session whose runtime runs is open. -/
theorem Nests.isOpen_script (h : w.Nests π (some id) Ss) : IsOpen w.sessions id := by
  obtain ⟨s, hs⟩ := h.runs id rfl
  obtain ⟨q, nested, holds, waits⟩ := h.lies id s hs
  refine ⟨s, hs, holds.isOpen.mpr ?_⟩
  rintro rfl
  simp [Stand.waits] at waits

/-- A session that has been closed is off the map, and all others are still there, before it lets
go of the map. -/
theorem Nests.delisted (h : w.Nests π r Ss) (closing : w.Closing id) :
    let w' := ((closeSession id).run w).2
    (Directory.current.run w'.directory).1.isSome = true
      ∧ ∀ (key : Address) (j : SessionId), ((Directory.resolve key).run w'.directory).1 = some j
        ↔ (IsOpen w.sessions j ∧ j ≠ id) ∧ w.directory.address j = key := by
  obtain ⟨s, hs, isOpen⟩ := h.isOpen_of_closing closing
  let s' := (Session.finishClose.run s).2
  have closed : ((closeSession id).run w).2 = { w.withSession id s' with
      directory := ((Directory.remove id).run w.directory).2 } := by
    rw [closeSession, stateM_run_bind]
    exact congrArg Prod.snd
      (onSession_run_some (w := ((onDirectory (Directory.remove id)).run w).2) hs)
  have shut : s'.isOpen = false := rfl
  have after := Routed.unlisted h.routed hs isOpen shut closing
  obtain ⟨mapped, kept⟩ := Directory.leads_remove (fun j hj same =>
    h.routed.mapped.apart hj ⟨s, hs, isOpen⟩ same) w.directory ⟨h.routed.mapped, .refl w.directory⟩
  intro w'
  rw [show w' = _ from closed]
  refine ⟨mapped.isSome_current.mpr (.inl ⟨id, ?_⟩), fun key j => ?_⟩
  · rw [kept.registrations]
    exact h.routed.mapped.found id ⟨s, hs, isOpen⟩
  · rw [(Directory.leads_resolve key _ ⟨mapped, .refl _⟩).2 j, kept.address]

end World

/-! ## Runs -/

/-- At every point of every run, if the runtimes that are there at the same time always have
different addresses: the session map is right; a runtime that has called back, or that releases a
handle, is led to its session, whatever coroutine it is in; and a session that has been closed is
off the map, which the others are still on, before it lets go of it. -/
theorem listing_run (address : SessionId → Address) (program : List Step) (whims : List Whim)
    (apart : ∀ (n : Nat) (i j : SessionId),
      World.IsOpen ((World.startAt address program whims).run n).sessions i →
      World.IsOpen ((World.startAt address program whims).run n).sessions j →
      address i = address j → i = j)
    (n : Nat) :
    let w := (World.startAt address program whims).run n
    w.Listed
    ∧ w.directory.address = address
    ∧ (∀ (id : SessionId) (steps : Nat) (target : Script.Value), w.control = .script id →
        let w₁ := ((World.onSession id (Session.runMachine steps)).run w).2
        let w₂ := ((World.onSession id (Session.takeHandle target)).run w₁).2
        World.IsOpen w.sessions id
        ∧ ((World.ownerOf id).run w₁).1 = some id ∧ ((World.ownerOf id).run w₂).1 = some id)
    ∧ ∀ id : SessionId, w.Closing id →
        let w' := ((World.closeSession id).run w).2
        (Directory.current.run w'.directory).1.isSome = true
        ∧ ∀ (key : Address) (j : SessionId), ((Directory.resolve key).run w'.directory).1 = some j
          ↔ (World.IsOpen w.sessions j ∧ j ≠ id) ∧ address j = key := by
  let π : Past := ⟨World.startAt address program whims, address, fun _ => False, fun _ => False, fun _ _ _ => True,
    fun _ _ _ => True⟩
  have start : World.Nests π none (fun _ => []) (World.startAt address program whims) :=
    World.nests_start address program whims rfl rfl (fun _ h => h) (fun _ h => h) fun _ _ _ => trivial
  have clear : ∀ n, ((World.startAt address program whims).run n).Clear π := apart
  obtain ⟨Ss, h, -⟩ := World.nests_along start (fun _ _ _ => trivial) clear
    (fun n _ _ _ _ d errand rest s x _ _ _ _ _ => trivial) n
  intro w
  have listed := h.listed
  have same : w.directory.address = address := h.routed.address
  refine ⟨listed, same, fun id steps target control => ?_, fun id closing => same ▸ h.delisted closing⟩
  have isOpen : World.IsOpen w.sessions id := by
    rw [show ((World.startAt address program whims).run n).control = _ from control] at h
    exact h.isOpen_script
  have ran : ((World.onSession id (Session.runMachine steps)).run w).2.directory = w.directory :=
    World.directory_onSession _
  exact ⟨isOpen, World.ownerOf_congr ran isOpen listed,
    World.ownerOf_congr ((World.directory_onSession _).trans ran) isOpen listed⟩

namespace World

/-- Whether something holds at every point of a run that is over after fewer turns than that. -/
def always (p : World → Bool) : (fuel : Nat) → World → Bool
  | 0, _ => false
  | fuel + 1, w =>
    p w && match w.control with
      | .done => true
      | _ => always p fuel (advance.run w).2

theorem always_run {p : World → Bool} {fuel : Nat} {w : World} (h : w.always p fuel = true) (n : Nat) :
    p (w.run n) = true := by
  induction fuel generalizing w n with
  | zero => cases h
  | succ fuel ih =>
    obtain ⟨now, later⟩ := (Bool.and_eq_true _ _).mp h
    cases n with
    | zero => exact now
    | succ n =>
      rw [run]
      split
      · exact now
      · rename_i goes
        split at later
        · rename_i done
          exact absurd done goes
        · exact ih later n

/-- Whether at most one session is open. -/
def lonely (w : World) : Bool := (w.sessions.toList.filter fun e => e.2.isOpen).length ≤ 1

theorem unique_of_lonely {w : World} {i j : SessionId} (h : w.lonely = true)
    (hi : IsOpen w.sessions i) (hj : IsOpen w.sessions j) : i = j := by
  have listed : ∀ {id : SessionId} {s : Session}, w.sessions[id]? = some s → s.isOpen = true →
      (id, s) ∈ w.sessions.toList.filter fun e => e.2.isOpen := fun hs isOpen =>
    List.mem_filter.mpr ⟨Std.TreeMap.mem_toList_iff_getElem?_eq_some.mpr hs, isOpen⟩
  obtain ⟨s, hs, si⟩ := hi
  obtain ⟨t, ht, ti⟩ := hj
  rw [lonely, decide_eq_true_iff] at h
  have first := listed hs si
  have second := listed ht ti
  generalize w.sessions.toList.filter (fun e => e.2.isOpen) = es at h first second
  cases es with
  | nil => cases first
  | cons e rest =>
    obtain rfl := List.eq_nil_of_length_eq_zero (show rest.length = 0 by simpa using h)
    exact (Prod.mk.inj ((List.mem_singleton.mp first).trans (List.mem_singleton.mp second).symm)).1

end World

/-- A session is closed while somebody else holds the map, which goes away then; the next session
has its runtime at the same address. -/
def moving : List Step := [
  .mk (.openSession "a" .standard) true true,
  .mk (.register "a" "h" (.mk "h" [] [] [] false true)) true true,
  .mk (.execute "a" "coroutine.wrap(h)()") true true,
  .mk .holdMap true true,
  .mk (.closeSession "a") true true,
  .mk .freeMaps true true,
  .mk (.openSession "b" .standard) true true,
  .mk (.execute "b" "x = 1") true true]

/-- The address leads to the first session, to nobody, and then to the second session. -/
theorem listing_run_moving :
    let w₀ := World.startAt (fun _ => 7) moving []
    (∀ (n : Nat) (i j : SessionId), World.IsOpen (w₀.run n).sessions i →
      World.IsOpen (w₀.run n).sessions j → (7 : Address) = 7 → i = j)
    ∧ (w₀.run 6).control.script? = some 1
    ∧ ((Directory.resolve 7).run (w₀.run 6).directory).1 = some 1
    ∧ (Directory.current.run (w₀.run 14).directory).1.isSome = true
    ∧ ((Directory.resolve 7).run (w₀.run 14).directory).1 = none
    ∧ (Directory.current.run (w₀.run 15).directory).1.isSome = false
    ∧ (w₀.run 17).control.script? = some 2
    ∧ ((Directory.resolve 7).run (w₀.run 17).directory).1 = some 2 := by
  intro w₀
  have lonely : w₀.always World.lonely 30 = true := by decide +kernel
  have apart : ∀ (n : Nat) (i j : SessionId), World.IsOpen (w₀.run n).sessions i →
      World.IsOpen (w₀.run n).sessions j → (7 : Address) = 7 → i = j :=
    fun n i j hi hj _ => World.unique_of_lonely (World.always_run lonely n) hi hj
  have listed := fun n => (listing_run (fun _ => 7) moving [] apart n).1
  have opens : ∀ n id, ((w₀.run n).sessions[id]?.any fun s => s.isOpen) = true →
      World.IsOpen (w₀.run n).sessions id := fun n id => (Option.any_eq_true _ _).mp
  refine ⟨apart, by decide +kernel, ?_, ?_, ?_, ?_, by decide +kernel, ?_⟩
  · exact ((listed 6).leads 7 1).mpr ⟨opens 6 1 (by decide +kernel), by decide +kernel⟩
  · exact (listed 14).current.mpr (.inr (by decide +kernel))
  · decide +kernel
  · decide +kernel
  · exact ((listed 17).leads 7 2).mpr ⟨opens 17 2 (by decide +kernel), by decide +kernel⟩

end ScriptBridge.Host
