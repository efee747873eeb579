import ScriptBridge.Proofs.Calm
import ScriptBridge.Proofs.Directories

/-!
# ScriptBridge.Proofs.Routes

How a runtime that calls back is led to its session.  `World.Routed` says that the session maps are
right for the sessions that are open, and that nothing that was over has begun again since some
`Past`: a session that was closed is closed, and a callable that was gone is gone.

Main facts:

* `World.Routed.resolve` — the session map leads from a runtime to the session that owns it;
* `World.Routed.opened`, `World.Routed.unlisted`, `World.Routed.dismissed` — a session comes and goes;
* `World.Routed.calm` — whatever leaves the runtimes alone leaves the routes alone.
-/

namespace ScriptBridge.Host

/-- What is over, and what stays so: what the world was, where runtimes are, which sessions have been
closed, which callables are gone, what values have been for the runtimes that they were handed to, and
how sessions stood on which host code ran when so many activities were in progress. -/
structure Past where
  former : World
  address : SessionId → Address
  closed : SessionId → Prop
  gone : CallableId → Prop
  told : SessionId → Value → Script.Value → Prop
  noted : SessionId → Nat → Script.Spine → Prop

/-- Whether nothing is noted of more activities than so many. -/
def Past.Clean (π : Past) (count : Nat) : Prop :=
  ∀ (id : SessionId) (i : Nat) (S : Script.Spine), count < i → π.noted id i S

theorem Past.Clean.mono {π : Past} {count more : Nat} (h : π.Clean count) (le : count ≤ more) :
    π.Clean more := fun id i S lt => h id i S (Nat.lt_of_le_of_lt le lt)

/-- The session that is being closed. -/
def Activity.closing? : Activity → Option SessionId
  | .step _ (.closing id) => some id
  | _ => none

theorem Activity.closing?_shape (a : Activity) : a.shape.closing? = a.closing? := by
  cases a with
  | step s waiting => cases waiting <;> rfl
  | delivering d errand => cases errand <;> rfl
  | _ => rfl

namespace World

variable {π : Past} {w w' : World} {id j : SessionId} {s s' : Session} {a : Activity}

/-- Whether a session is being closed. -/
def Closing (w : World) (id : SessionId) : Prop := ∃ a ∈ w.activities, a.closing? = some id

theorem Closing.calm (h : w.Closing id) (calm : w.Calm w') : w'.Closing id := by
  obtain ⟨a, ha, closing⟩ := h
  have there : a.shape ∈ w'.activities.map Activity.shape :=
    calm.shapes ▸ List.mem_map_of_mem ha
  obtain ⟨b, hb, eq⟩ := List.mem_map.mp there
  exact ⟨b, hb, by rw [← b.closing?_shape, eq, a.closing?_shape, closing]⟩

theorem isOpen_calm (calm : w.Calm w') (id : SessionId) :
    IsOpen w'.sessions id ↔ IsOpen w.sessions id := by
  constructor
  · rintro ⟨s', hs', isOpen⟩
    obtain ⟨s, hs, still, -⟩ := calm.before hs'
    exact ⟨s, hs, still.isOpen ▸ isOpen⟩
  · rintro ⟨s, hs, isOpen⟩
    obtain ⟨s', hs', still, -⟩ := calm.some hs
    exact ⟨s', hs', still.isOpen.trans isOpen⟩

/-- Whether what is over has stayed so. -/
structure Since (π : Past) (w : World) : Prop where
  ages : π.former.Ages w
  address : w.directory.address = π.address
  closed : ∀ id, π.closed id → id ≤ w.issued ∧ ¬ IsOpen w.sessions id
  gone : ∀ f, π.gone f → f < w.nextCallable ∧ w.callables[f]? = none

/-- Whether a runtime that calls back is led to its session.  A session that is not dropped is open,
or is being closed. -/
structure Routed (π : Past) (w : World) : Prop extends w.Since π where
  living : w.Living
  mapped : w.directory.Sound (IsOpen w.sessions) 0
  enrolled : ∀ (id : SessionId) (r : Registration), w.directory.registrations[id]? = some r →
    IsOpen w.sessions id ∨ w.Closing id
  found : w.directory.lost = false

/-- Whether the runtimes that are there have different addresses. -/
def Clear (π : Past) (w : World) : Prop :=
  ∀ i j, IsOpen w.sessions i → IsOpen w.sessions j → π.address i = π.address j → i = j

theorem Clear.calm (calm : w.Calm w') (h : w'.Clear π) : w.Clear π := fun i j hi hj =>
  h i j ((isOpen_calm calm i).mpr hi) ((isOpen_calm calm j).mpr hj)

namespace Routed

/-- Neither the sessions nor the directory change, no callable comes back, and whatever is being
closed is still being closed. -/
theorem congr (h : w.Routed π) (isOpen : ∀ id, IsOpen w'.sessions id ↔ IsOpen w.sessions id)
    (directory : w'.directory = w.directory) (ages : w.Ages w')
    (closing : ∀ id (r : Registration), w.directory.registrations[id]? = some r →
      w.Closing id → w'.Closing id) : w'.Routed π where
  ages := h.ages.trans ages
  address := directory ▸ h.address
  closed := fun id hid => ⟨Nat.le_trans (h.closed id hid).1 ages.issued,
    fun there => (h.closed id hid).2 ((isOpen id).mp there)⟩
  gone := fun f hf => ⟨Nat.lt_of_lt_of_le (h.gone f hf).1 ages.made,
    ages.gone f (h.gone f hf).1 (h.gone f hf).2⟩
  living := ages.living h.living
  mapped := directory ▸ h.mapped.congr fun id => (isOpen id).symm
  enrolled := fun id r hr => by
    rw [directory] at hr
    exact (h.enrolled id r hr).imp (isOpen id).mpr (closing id r hr)
  found := directory ▸ h.found

theorem calm (h : w.Routed π) (calm : w.Calm w') : w'.Routed π :=
  h.congr (isOpen_calm calm) calm.directory calm.ages fun _ _ _ closing => closing.calm calm

/-- Only activities and what runs next change. -/
theorem aside (h : w.Routed π) (sessions : w'.sessions = w.sessions)
    (directory : w'.directory = w.directory) (callables : w'.callables = w.callables)
    (made : w'.nextCallable = w.nextCallable) (issued : w'.issued = w.issued)
    (dropped : w'.dropped = w.dropped)
    (closing : ∀ id (r : Registration), w.directory.registrations[id]? = some r →
      w.Closing id → w'.Closing id) : w'.Routed π :=
  h.congr (fun _ => by rw [sessions]) directory (.of_same issued.ge made callables dropped) closing

/-- A session that is open stays open. -/
theorem withSession (h : w.Routed π) (hs : w.sessions[id]? = some s) (isOpen : s.isOpen = true)
    (isOpen' : s'.isOpen = true) : (w.withSession id s').Routed π := by
  refine h.congr (fun j => ?_) rfl (.of_same (Nat.le_refl _) rfl rfl rfl) fun _ _ _ closing => closing
  rw [isOpen_withSession]
  by_cases here : j = id
  · subst here
    simp [IsOpen, hs, isOpen, isOpen']
  · simp [here]

/-- An activity begins. -/
theorem push (h : w.Routed π) (a : Activity) :
    Routed π { w with activities := a :: w.activities } :=
  h.aside rfl rfl rfl rfl rfl rfl fun _ _ _ ⟨b, hb, closing⟩ => ⟨b, List.mem_cons_of_mem _ hb, closing⟩

/-- An activity ends.  If a session has been closed, it is dropped. -/
theorem pop (h : w.Routed π) {rest : List Activity} (hw : w.activities = a :: rest)
    (dropped : ∀ id, a.closing? = some id → w.directory.registrations[id]? = none) :
    Routed π { w with activities := w.activities.drop 1 } := by
  refine h.aside rfl rfl rfl rfl rfl rfl fun id r hr ⟨b, hb, closing⟩ => ⟨b, ?_, closing⟩
  rw [hw] at hb
  change b ∈ w.activities.drop 1
  rw [hw]
  obtain rfl | hb := List.mem_cons.mp hb
  · cases (dropped id closing).symm.trans hr
  · exact hb

/-- The session map leads from a runtime that is there to the session that owns it. -/
theorem resolve (h : w.Routed π) (hid : IsOpen w.sessions id) :
    ((ownerOf id).run w).1 = some id ∧ ((ownerOf id).run w).2.Routed π := by
  obtain ⟨⟨mapped, kept⟩, owner⟩ := Directory.leads_resolve (w.directory.address id) w.directory
    ⟨h.mapped, .refl w.directory⟩
  refine ⟨(owner id).mpr ⟨hid, rfl⟩, { h with
    ages := h.ages.trans (.of_same (Nat.le_refl _) rfl rfl rfl)
    address := kept.address.trans h.address
    mapped := mapped
    enrolled := fun j r hr => h.enrolled j r (kept.registrations ▸ hr)
    found := kept.same.lost.trans h.found }⟩

/-- Whoever holds the map or looks at it does nothing to the sessions on it. -/
theorem settled (h : w.Routed π) {d : Directory} (settled : w.directory.Settled (IsOpen w.sessions) d) :
    Routed π { w with directory := d } := by
  obtain ⟨mapped, registrations, same⟩ := settled
  exact { h with
    ages := h.ages.trans (.of_same (Nat.le_refl _) rfl rfl rfl)
    address := same.address.trans h.address
    mapped := mapped
    enrolled := fun j r hr => h.enrolled j r (registrations ▸ hr)
    found := same.lost.trans h.found }

/-! ## Sessions come and go -/

theorem isOpen_insert (absent : w.sessions[id]? = none) (isOpen : s.isOpen = true) (j : SessionId) :
    IsOpen (w.sessions.insert id s) j ↔ IsOpen w.sessions j ∨ j = id := by
  by_cases here : j = id
  · subst here
    simp [IsOpen, isOpen]
  · rw [IsOpen, getElem?_insert_of_ne here, IsOpen]
    simp [here]

/-- A session that is new is put on the map. -/
theorem opened (h : w.Routed π) (absent : w.sessions[w.issued + 1]? = none)
    (idle : ¬ w.Closing (w.issued + 1)) (isOpen : s.isOpen = true)
    (names : List (String × SessionId))
    (clear : Clear π { w with sessions := w.sessions.insert (w.issued + 1) s }) :
    Routed π { w with
      issued := w.issued + 1
      sessions := w.sessions.insert (w.issued + 1) s
      names := names
      directory := ((Directory.enroll (w.issued + 1)).run w.directory).2 } := by
  let id := w.issued + 1
  have opens := isOpen_insert absent isOpen
  have shut : ¬ IsOpen w.sessions id := fun ⟨u, hu, _⟩ => by cases absent.symm.trans hu
  have fresh : w.directory.registrations[id]? = none := by
    cases hr : w.directory.registrations[id]? with
    | none => rfl
    | some r => exact absurd (h.enrolled id r hr) (by simp [shut, id, idle])
  obtain ⟨mapped, same, -, registered⟩ := Directory.leads_enroll fresh (fun j hj eq => by
    have here := clear j id ((opens j).mpr (.inl hj)) ((opens id).mpr (.inr rfl))
      (h.address ▸ eq)
    exact shut (here ▸ hj)) w.directory ⟨h.mapped, .refl w.directory⟩
  refine {
    ages := h.ages.trans (.of_same (Nat.le_succ _) rfl rfl rfl)
    address := same.address.trans h.address
    closed := fun j hj => ⟨Nat.le_succ_of_le (h.closed j hj).1, fun there => ?_⟩
    gone := h.gone
    living := h.living
    mapped := mapped.congr fun j => (opens j).symm
    enrolled := fun j r hr => ?_
    found := same.lost.trans h.found }
  · obtain there | rfl := (opens j).mp there
    · exact (h.closed j hj).2 there
    · exact absurd (h.closed _ hj).1 (Nat.not_succ_le_self _)
  · obtain rfl | hr := registered j r hr
    · exact .inl ((opens id).mpr (.inr rfl))
    · exact (h.enrolled j r hr).imp (fun there => (opens j).mpr (.inl there)) fun closing => closing

/-- A session is taken off the map and closed, but not dropped. -/
theorem unlisted (h : w.Routed π) (hs : w.sessions[id]? = some s) (isOpen : s.isOpen = true)
    (isOpen' : s'.isOpen = false) (closing : w.Closing id) :
    Routed π { w.withSession id s' with
      directory := ((Directory.remove id).run w.directory).2 } := by
  have opens : ∀ j, IsOpen (w.withSession id s').sessions j ↔ IsOpen w.sessions j ∧ j ≠ id := by
    intro j
    rw [isOpen_withSession, isOpen']
    simp [and_comm]
  obtain ⟨mapped, kept⟩ := Directory.leads_remove
    (fun j hj same => h.mapped.apart hj ⟨s, hs, isOpen⟩ same) w.directory
    ⟨h.mapped, .refl w.directory⟩
  exact {
    ages := h.ages.trans (.of_same (Nat.le_refl _) rfl rfl rfl)
    address := kept.address.trans h.address
    closed := fun j hj => ⟨(h.closed j hj).1, fun there => (h.closed j hj).2 ((opens j).mp there).1⟩
    gone := h.gone
    living := h.living
    mapped := mapped.congr fun j => (opens j).symm
    enrolled := fun j r hr => by
      by_cases here : j = id
      · exact .inr (here ▸ closing)
      · exact (h.enrolled j r (kept.registrations ▸ hr)).imp
          (fun there => (opens j).mpr ⟨there, here⟩) fun closing => closing
    found := kept.same.lost.trans h.found }

/-- A session that is closed is dropped. -/
theorem dismissed (h : w.Routed π) (closed : ¬ IsOpen w.sessions id) :
    Routed π { w with directory := ((Directory.dismiss id).run w.directory).2 }
      ∧ ((Directory.dismiss id).run w.directory).2.registrations[id]? = none := by
  obtain ⟨mapped, same, -, left⟩ := Directory.leads_dismiss closed w.directory
    ⟨h.mapped, .refl w.directory⟩
  refine ⟨{ h with
    ages := h.ages.trans (.of_same (Nat.le_refl _) rfl rfl rfl)
    address := same.address.trans h.address
    mapped := mapped
    enrolled := fun j r hr => h.enrolled j r (left j r hr).2
    found := same.lost.trans h.found }, ?_⟩
  cases hr : ((Directory.dismiss id).run w.directory).2.registrations[id]? with
  | none => rfl
  | some r => exact absurd rfl (left id r hr).1

end Routed

end World

end ScriptBridge.Host
