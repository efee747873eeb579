import Mathlib.Data.Multiset.Bind
import Mathlib.Data.Multiset.OrderedMonoid
import ScriptBridge.Proofs.Directories
import ScriptBridge.Proofs.Inventory

/-!
# ScriptBridge.Proofs.Balance

When the books of a world are right.  `World.Balanced μ T w` relates a world to an inventory of
everything that is held, by the world or by whoever works on it: the books of each session are
right, as far as the inventory is about that session, and the owners of each callable are the pins
and the holdings that say so.

Main facts:

* `Session.Tidy.of_own` — the books of a session are about what is held of that session;
* `Session.Sound.only` — an operation on a session hands over nothing of any other;
* `World.keepsAt_onSession` — what an operation does to the holdings of its session it does to the
  holdings of the world.
-/

namespace ScriptBridge

/-! ## What is held of one session -/

/-- The holdings that are about a session. -/
def own (id : SessionId) (H : Multiset Holding) : Multiset Holding :=
  H.filter fun h => h.session = id

@[simp] theorem own_zero (id : SessionId) : own id 0 = 0 := rfl

@[simp] theorem own_add (id : SessionId) (H K : Multiset Holding) :
    own id (H + K) = own id H + own id K := Multiset.filter_add ..

theorem own_singleton {id : SessionId} {h : Holding} (ne : h.session ≠ id) : own id {h} = 0 := by
  rw [own, Multiset.filter_singleton, if_neg ne]
  rfl

theorem own_eq_zero {id : SessionId} {H : Multiset Holding} :
    own id H = 0 ↔ ∀ h ∈ H, h.session ≠ id := Multiset.filter_eq_nil

/-- Holdings that do not count need not be looked at. -/
theorem tally_filter {M : Type} [AddCommMonoid M] {f : Holding → M} (p : Holding → Prop)
    [DecidablePred p] {H : Multiset Holding} (h : ∀ k ∈ H, ¬ p k → f k = 0) :
    tally f (H.filter p) = tally f H := by
  induction H using Multiset.induction_on with
  | empty => rfl
  | cons k H ih =>
    have rest := ih fun j hj => h j (Multiset.mem_cons_of_mem hj)
    by_cases hp : p k
    · rw [Multiset.filter_cons_of_pos _ hp, tally_cons, tally_cons, rest]
    · rw [Multiset.filter_cons_of_neg _ hp, tally_cons, h k (Multiset.mem_cons_self k H) hp,
        zero_add, rest]

namespace Holding

variable {id : SessionId} {h : Holding}

theorem cells_of_ne (ne : h.session ≠ id) : h.cells id = 0 := by
  cases h <;> simp_all [Holding.session, cells]

theorem weight_of_ne (ne : h.session ≠ id) : h.weight id = 0 := by
  cases h <;> simp_all [Holding.session, weight]

theorem pins_of_ne (ne : h.session ≠ id) : h.pins id = 0 := by
  cases h <;> simp_all [Holding.session, pins]

theorem slots_of_ne (ne : h.session ≠ id) : h.slots id = 0 := by
  cases h <;> simp_all [Holding.session, slots]

theorem callables_of_ne (ne : h.session ≠ 0) : h.callables = 0 := by
  cases h <;> simp_all [Holding.session, callables]

theorem debts_of_ne (ne : h.session ≠ 0) : h.debts = 0 := by
  cases h <;> simp_all [Holding.session, debts]

end Holding

namespace Session

variable {s : Session} {m : Memory} {e : Env} {H K : Multiset Holding}

theorem backs_of_ne {h : Holding} (ne : h.session ≠ s.id) : s.Backs h := by
  cases h with
  | ref r => exact fun eq => absurd eq ne
  | out | inbound | slot | entered | pin => exact fun eq => absurd eq ne
  | _ => trivial

/-- The books of a session are right for any holdings that are about it and for no others. -/
theorem Tidy.of_filter (hs : s.Tidy m H) (p : Holding → Prop) [DecidablePred p]
    (kept : ∀ h, h.session = s.id → p h) : s.Tidy m (H.filter p) := by
  have miss : ∀ h ∈ H, ¬ p h → h.session ≠ s.id := fun h _ hp eq => hp (kept h eq)
  exact { hs with
    cells := by rw [tally_filter p fun h hh hp => Holding.cells_of_ne (miss h hh hp), hs.cells]
    ledger := by rw [tally_filter p fun h hh hp => Holding.weight_of_ne (miss h hh hp), hs.ledger]
    anchored := fun ho => by
      rw [tally_filter p fun h hh hp => Holding.slots_of_ne (miss h hh hp), hs.anchored ho]
    pins := fun ho => by
      rw [tally_filter p fun h hh hp => Holding.pins_of_ne (miss h hh hp), hs.pins ho]
    backs := fun h hh => hs.backs h (Multiset.mem_of_mem_filter hh) }

theorem Tidy.of_own (hs : s.Tidy m H) (same : own s.id K = own s.id H) : s.Tidy m K := by
  have other : ∀ (T : Multiset Holding), ∀ h ∈ T, ¬ h.session = s.id → h.session ≠ s.id :=
    fun _ _ _ ne => ne
  have mine := hs.of_filter (fun h => h.session = s.id) fun _ eq => eq
  change s.Tidy m (own s.id H) at mine
  rw [← same, own] at mine
  exact { mine with
    cells := by rw [mine.cells, tally_filter _ fun h _ ne => Holding.cells_of_ne ne]
    ledger := by rw [mine.ledger, tally_filter _ fun h _ ne => Holding.weight_of_ne ne]
    anchored := fun ho => by
      rw [mine.anchored ho, tally_filter _ fun h _ ne => Holding.slots_of_ne ne]
    pins := fun ho => by
      rw [mine.pins ho, tally_filter _ fun h _ ne => Holding.pins_of_ne ne]
    backs := by
      intro h hh
      by_cases eq : h.session = s.id
      · exact mine.backs h (Multiset.mem_filter.mpr ⟨hh, eq⟩)
      · exact backs_of_ne eq }

/-- The session alone, as far as it is concerned. -/
def Env.only (e : Env) (id : SessionId) : Env where
  memory := e.memory
  worth := e.worth
  known := fun i => i = id ∨ i = 0
  nobody := Or.inr rfl

/-- Holdings of other sessions do not matter. -/
theorem Sound.only (hs : s.Sound e H) :
    s.Sound (e.only s.id) (H.filter fun h => h.session = s.id ∨ h.session = 0) := by
  have tallies : tally Holding.callables (H.filter fun h => h.session = s.id ∨ h.session = 0)
      = tally Holding.callables H :=
    tally_filter _ fun h _ ne => Holding.callables_of_ne fun eq => ne (Or.inr eq)
  have debts : tally Holding.debts (H.filter fun h => h.session = s.id ∨ h.session = 0)
      = tally Holding.debts H :=
    tally_filter _ fun h _ ne => Holding.debts_of_ne fun eq => ne (Or.inr eq)
  exact { hs.toTidy.of_filter _ fun h eq => Or.inl eq with
    worth := by
      rw [tallies, debts]
      exact hs.worth
    payable := by
      rw [debts]
      exact hs.payable
    known := Or.inl rfl
    near := fun h hh => (Multiset.mem_filter.mp hh).2 }

/-- An operation on a session hands over nothing of any other. -/
theorem Sound.hands_over {α : Type} {x : Op α} {id : SessionId} {o : Bool} {P : Multiset Holding}
    {Q : α → Multiset Holding} (keeps : Keeps (Books id o) P x Q)
    (hs : Books id o e (P + H) s) (about : ∀ h ∈ P, h.session = id ∨ h.session = 0) :
    ∀ h ∈ Q (x.run s).1, h.session = id ∨ h.session = 0 := by
  obtain ⟨rfl, ho, sound⟩ := hs
  have only := sound.only
  rw [Multiset.filter_add, Multiset.filter_eq_self.mpr about] at only
  intro h hh
  exact (keeps s _ _ ⟨rfl, ho, only⟩).2.2.near h (Multiset.mem_add.mpr (Or.inl hh))

end Session

namespace Host.World

open ScriptBridge.Session (Memory Env)

/-! ## The books of a world -/

/-- The callables with one entry for each owner. -/
def ownersOf (t : Std.TreeMap CallableId Callable) : Multiset CallableId :=
  (entries t).bind fun e => Multiset.replicate e.2.owners e.1

theorem ownersOf_erase {t : Std.TreeMap CallableId Callable} {id : CallableId} {c : Callable}
    (h : t[id]? = some c) :
    ownersOf t = Multiset.replicate c.owners id + ownersOf (t.erase id) := by
  rw [ownersOf, entries_erase h, Multiset.cons_bind, ownersOf]

theorem ownersOf_insert {t : Std.TreeMap CallableId Callable} {id : CallableId} (c : Callable)
    (h : t[id]? = none) :
    ownersOf (t.insert id c) = Multiset.replicate c.owners id + ownersOf t := by
  rw [ownersOf, entries_insert h, Multiset.cons_bind, ownersOf]

theorem ownersOf_replace (t : Std.TreeMap CallableId Callable) (id : CallableId) (c : Callable) :
    ownersOf (t.insert id c) = Multiset.replicate c.owners id + ownersOf (t.erase id) := by
  rw [ownersOf, entries_replace, Multiset.cons_bind, ownersOf]

theorem ownersOf_modify {t : Std.TreeMap CallableId Callable} {id : CallableId} {c : Callable}
    (change : Callable → Callable) (h : t[id]? = some c) :
    ownersOf (t.modify id change)
      = Multiset.replicate (change c).owners id + ownersOf (t.erase id) := by
  rw [ownersOf, entries_modify change h, Multiset.cons_bind, ownersOf]

/-- The owners of the callables of a world. -/
def owned (w : World) : Multiset CallableId := ownersOf w.callables

/-- The callables that sessions pin. -/
def pinned (w : World) : Multiset CallableId := ((entries w.sessions).map fun e => e.2.pinned).sum

/-- Whether there is a session of a number, or the number is that of none. -/
def Known (w : World) (id : SessionId) : Prop := id = 0 ∨ ∃ s, w.sessions[id]? = some s

/-- Whether the runtime of a session is there. -/
def IsOpen (sessions : Std.TreeMap SessionId Session) (id : SessionId) : Prop :=
  ∃ s, sessions[id]? = some s ∧ s.isOpen = true

/-- Whether the directory is right for the sessions, where no address is ever used again. -/
structure Charted (sessions : Std.TreeMap SessionId Session) (d : Directory) : Prop where
  mapped : d.Sound (IsOpen sessions) 0
  enrolled : ∀ (id : SessionId) (r : Registration), d.registrations[id]? = some r →
    ∃ s, sessions[id]? = some s
  wide : ∀ i j, d.address i = d.address j → i = j

/-- The books of a world are right. -/
structure Balanced (μ : SessionId → Memory) (T : Multiset Holding) (w : World) : Prop where
  tidy : ∀ id (s : Session), w.sessions[id]? = some s → s.id = id ∧ s.Tidy (μ id) T
  numbered : ∀ id (s : Session), w.sessions[id]? = some s → 0 < id ∧ id ≤ w.issued
  near : ∀ h ∈ T, w.Known h.session
  worth : w.pinned + tally Holding.callables T = w.owned + tally Holding.debts T
  payable : ∀ f ∈ tally Holding.debts T, f ∈ w.owned
  fresh : ∀ f ∈ keys w.callables, f < w.nextCallable
  fits : ∀ a ∈ w.activities, a.Fits
  bare : ∀ ending, w.control = .leave ending → ending.values = []
  unseen : ∀ id c v, μ id c = some v → ∃ s, w.sessions[id]? = some s
  charted : Charted w.sessions w.directory

/-- The books of a world are right, and all owners of callables are counted. -/
def Books (μ : SessionId → Memory) (H : Multiset Holding) (w : World) : Prop :=
  w.Balanced μ (w.holdings + H) ∧ tally Holding.debts (w.holdings + H) = 0

variable {w : World} {μ : SessionId → Memory} {T H R : Multiset Holding} {id : SessionId}
  {s s' : Session}

theorem mem_owned {f : CallableId} (h : f ∈ w.owned) : ∃ c, w.callables[f]? = some c := by
  rw [owned, ownersOf, Multiset.mem_bind] at h
  obtain ⟨⟨g, c⟩, hc, hf⟩ := h
  obtain rfl := Multiset.eq_of_mem_replicate hf
  exact ⟨c, mem_entries.mp hc⟩

/-- The world with another session under a number. -/
def withSession (w : World) (id : SessionId) (s : Session) : World :=
  { w with sessions := (w.sessions.insert id default).insert id s }

theorem getElem?_withSession_self (w : World) (id : SessionId) (s : Session) :
    (w.withSession id s).sessions[id]? = some s := by simp [withSession]

theorem getElem?_withSession_of_ne {i : SessionId} (ne : i ≠ id) :
    (w.withSession id s).sessions[i]? = w.sessions[i]? := by
  rw [withSession, getElem?_insert_of_ne ne, getElem?_insert_of_ne ne]

@[simp] theorem holdings_withSession : (w.withSession id s).holdings = w.holdings := rfl

/-- The callables that sessions pin have owners more or less when one session changes. -/
theorem pinned_withSession (h : w.sessions[id]? = some s) (s' : Session) :
    (w.withSession id s').pinned + s.pinned = w.pinned + s'.pinned := by
  have same : entries (w.withSession id s').sessions = entries (w.sessions.insert id s') := by
    refine entries_congr fun i => ?_
    by_cases here : i = id
    · subst here
      rw [getElem?_withSession_self]
      simp
    · rw [getElem?_withSession_of_ne here, getElem?_insert_of_ne here]
  rw [pinned, pinned, same, entries_replace, entries_erase h]
  simp only [Multiset.map_cons, Multiset.sum_cons]
  ac_rfl

theorem isOpen_withSession {i : SessionId} : IsOpen (w.withSession id s).sessions i
    ↔ (i = id ∧ s.isOpen = true) ∨ (i ≠ id ∧ IsOpen w.sessions i) := by
  by_cases here : i = id
  · subst here
    rw [IsOpen, getElem?_withSession_self]
    simp
  · rw [IsOpen, getElem?_withSession_of_ne here]
    simp [here, IsOpen]

/-- What an operation does on a session has nothing to do with the directory, as long as it does not
close the session. -/
theorem Charted.withSession {d : Directory} (h : Charted w.sessions d)
    (hs : w.sessions[id]? = some s) (same : s'.isOpen = s.isOpen) :
    Charted (w.withSession id s').sessions d := by
  refine ⟨h.mapped.congr fun i => ?_, fun i r hr => ?_, h.wide⟩
  · rw [isOpen_withSession]
    by_cases here : i = id
    · subst here
      simp [IsOpen, hs, same]
    · simp [here]
  · by_cases here : i = id
    · exact ⟨s', here ▸ getElem?_withSession_self ..⟩
    · rw [getElem?_withSession_of_ne here]
      exact h.enrolled i r hr

/-- Whoever holds the map or looks at it does nothing to the sessions on it. -/
theorem Charted.settled {d d' : Directory} (h : Charted w.sessions d)
    (settled : d.Settled (IsOpen w.sessions) d') : Charted w.sessions d' := by
  obtain ⟨mapped, registrations, same⟩ := settled
  exact ⟨mapped, registrations ▸ h.enrolled, same.address ▸ h.wide⟩

namespace Balanced

/-- What a session is to know of the world. -/
def env (w : World) (μ : SessionId → Memory) (id : SessionId) (s : Session)
    (T : Multiset Holding) : Env where
  memory := μ id
  worth := s.pinned + tally Holding.callables T
  known := w.Known
  nobody := Or.inl rfl

/-- The books of each session of a balanced world are right. -/
theorem sound (hw : w.Balanced μ T) (clear : tally Holding.debts T = 0)
    (h : w.sessions[id]? = some s) : s.Sound (env w μ id s T) T := by
  obtain ⟨hid, tidy⟩ := hw.tidy id s h
  exact { tidy with
    worth := by rw [clear, add_zero, env]
    payable := by simp [clear]
    known := Or.inr ⟨s, by rw [hid, h]⟩
    near := hw.near }

/-- What is held of no session does not matter to any. -/
theorem tidy_of {K : Multiset Holding} (hw : w.Balanced μ T)
    (same : ∀ i, i ≠ 0 → own i K = own i T) (id : SessionId) (s : Session)
    (h : w.sessions[id]? = some s) : s.id = id ∧ s.Tidy (μ id) K := by
  obtain ⟨hid, tidy⟩ := hw.tidy id s h
  refine ⟨hid, tidy.of_own (same _ ?_)⟩
  rw [hid]
  exact Nat.ne_of_gt (hw.numbered id s h).1

/-- Only one session changes, and its books stay right. -/
theorem withSession {P Q : Multiset Holding} (hw : w.Balanced μ (P + R))
    (clear : tally Holding.debts (P + R) = 0) (h : w.sessions[id]? = some s)
    (hid : s'.id = id) (sound : s'.Sound (env w μ id s (P + R)) (Q + R))
    (elsewhere : ∀ i, i ≠ id → i ≠ 0 → own i Q = own i P)
    {d : Directory} (charted : Charted (w.withSession id s').sessions d) :
    Balanced μ (Q + R) { w.withSession id s' with directory := d } := by
  have still : ∀ i : SessionId, (∃ u : Session, w.sessions[i]? = some u) →
      ∃ u : Session, (w.withSession id s').sessions[i]? = some u := by
    rintro i ⟨u, hu⟩
    by_cases here : i = id
    · subst here
      exact ⟨s', getElem?_withSession_self ..⟩
    · exact ⟨u, by rw [getElem?_withSession_of_ne here, hu]⟩
  have total := pinned_withSession h s'
  have worth : s'.pinned + tally Holding.callables (Q + R)
      = s.pinned + tally Holding.callables (P + R) + tally Holding.debts (Q + R) := sound.worth
  have before := hw.worth
  rw [clear, add_zero] at before
  refine {
    tidy := ?_
    numbered := ?_
    near := fun k hk => (sound.near k hk).imp_right (still _)
    worth := ?_
    payable := ?_
    fresh := hw.fresh
    fits := hw.fits
    bare := hw.bare
    unseen := fun i c v hv => still i (hw.unseen i c v hv)
    charted }
  · intro i u hu
    change (w.withSession id s').sessions[i]? = some u at hu
    by_cases here : i = id
    · subst here
      obtain rfl := Option.some.inj ((getElem?_withSession_self w i s').symm.trans hu)
      exact ⟨hid, sound.toTidy⟩
    · rw [getElem?_withSession_of_ne here] at hu
      obtain ⟨rfl, tidy⟩ := hw.tidy i u hu
      have positive := (hw.numbered _ u hu).1
      refine ⟨rfl, tidy.of_own ?_⟩
      rw [own_add, own_add, elsewhere _ here (Nat.ne_of_gt positive)]
  · intro i u hu
    change (w.withSession id s').sessions[i]? = some u at hu
    by_cases here : i = id
    · subst here
      exact hw.numbered _ s h
    · rw [getElem?_withSession_of_ne here] at hu
      exact hw.numbered i u hu
  · change (w.withSession id s').pinned + tally Holding.callables (Q + R)
      = w.owned + tally Holding.debts (Q + R)
    refine add_right_cancel (b := s.pinned) ?_
    rw [add_right_comm, total]
    calc
      w.pinned + s'.pinned + tally Holding.callables (Q + R)
        = w.pinned + (s'.pinned + tally Holding.callables (Q + R)) := by ac_rfl
      _ = (w.pinned + tally Holding.callables (P + R)) + s.pinned
          + tally Holding.debts (Q + R) := by
        rw [worth]
        ac_rfl
      _ = w.owned + tally Holding.debts (Q + R) + s.pinned := by
        rw [before]
        ac_rfl
  · intro f hf
    have mine := sound.payable f hf
    rw [env, Multiset.mem_add] at mine
    change f ∈ w.owned
    rw [← before]
    refine Multiset.mem_add.mpr (mine.imp_left fun pinned => ?_)
    rw [World.pinned, entries_erase h, Multiset.map_cons, Multiset.sum_cons]
    exact Multiset.mem_add.mpr (Or.inl pinned)

/-- What is held of a session that is not there can go. -/
theorem vanish {P Q : Multiset Holding} (hw : w.Balanced μ (P + R))
    (absent : w.sessions[id]? = none) (about : ∀ h ∈ P, h.session = id ∨ h.session = 0)
    (instead : ∀ h ∈ Q, ∃ k ∈ P, k.session = h.session)
    (callables : tally Holding.callables Q = tally Holding.callables P)
    (debts : tally Holding.debts Q = tally Holding.debts P) : w.Balanced μ (Q + R) := by
  refine { hw with
    tidy := ?_
    near := ?_
    worth := by rw [tally_add, tally_add, callables, debts, ← tally_add, ← tally_add, hw.worth]
    payable := by
      rw [tally_add, debts, ← tally_add]
      exact hw.payable }
  · intro i u hu
    obtain ⟨rfl, tidy⟩ := hw.tidy i u hu
    have positive := (hw.numbered _ u hu).1
    have there : u.id ≠ id := by
      rintro rfl
      rw [absent] at hu
      cases hu
    have none : ∀ k ∈ P, k.session ≠ u.id := by
      intro k hk eq
      obtain here | nobody := about k hk
      · exact there (eq.symm.trans here)
      · exact Nat.ne_of_gt positive (eq.symm.trans nobody)
    refine ⟨rfl, tidy.of_own ?_⟩
    rw [own_add, own_add, own_eq_zero.mpr none, own_eq_zero.mpr]
    intro h hh
    obtain ⟨k, hk, eq⟩ := instead h hh
    rw [← eq]
    exact none k hk
  · intro h hh
    obtain hh | hh := Multiset.mem_add.mp hh
    · obtain ⟨k, hk, eq⟩ := instead h hh
      rw [← eq]
      exact hw.near k (Multiset.mem_add.mpr (Or.inl hk))
    · exact hw.near h (Multiset.mem_add.mpr (Or.inr hh))

end Balanced

/-! ## Operations on sessions -/

section

variable {α : Type} [Inhabited α] {op : Op α} {P : Multiset Holding} {Q : α → Multiset Holding}

theorem onSession_run_none (h : w.sessions[id]? = none) :
    (onSession id op).run w = (default, w) := by
  rw [onSession, stateM_run_modifyGet, h]

theorem onSession_run_some (h : w.sessions[id]? = some s) :
    (onSession id op).run w
      = ((op.run s).1, w.withSession id (op.run s).2) := by
  rw [onSession, stateM_run_modifyGet, h]
  rfl

@[simp] theorem holdings_onSession : ((World.onSession id op).run w).2.holdings = w.holdings := by
  cases h : w.sessions[id]? with
  | none => rw [onSession_run_none h]
  | some s => rw [onSession_run_some h, holdings_withSession]

@[simp] theorem activities_onSession :
    ((World.onSession id op).run w).2.activities = w.activities := by
  cases h : w.sessions[id]? with
  | none => rw [onSession_run_none h]
  | some s => rw [onSession_run_some h, withSession]

/-- What an operation does to what is held of its session. -/
theorem Balanced.onSession (hw : w.Balanced μ (P + R)) (clear : tally Holding.debts (P + R) = 0)
    (keeps : ∀ o, Keeps (Session.Books id o) P op Q)
    (elsewhere : ∀ (s : Session) (e : Env) (o : Bool), Session.Books id o e (P + R) s →
      ∀ i, i ≠ id → i ≠ 0 → own i (Q (op.run s).1) = own i P)
    (absent : w.sessions[id]? = none → w.Balanced μ (Q default + R)) :
    Balanced μ (Q ((World.onSession id op).run w).1 + R) ((World.onSession id op).run w).2 := by
  cases h : w.sessions[id]? with
  | none =>
    rw [onSession_run_none h]
    exact absent h
  | some s =>
    rw [onSession_run_some h]
    have books : Session.Books id s.isOpen (env w μ id s (P + R)) (P + R) s :=
      ⟨(hw.tidy id s h).1, rfl, hw.sound clear h⟩
    obtain ⟨hid, same, sound⟩ := keeps s.isOpen s _ R books
    exact hw.withSession clear h hid sound (elsewhere s _ _ books) (hw.charted.withSession h same)

omit [Inhabited α] in
/-- What an operation hands over is of its own session, if all it is handed is. -/
theorem elsewhere_of_about (keeps : ∀ o, Keeps (Session.Books id o) P op Q)
    (about : ∀ h ∈ P, h.session = id ∨ h.session = 0) {o : Bool} {e : Env}
    (hs : Session.Books id o e (P + R) s) :
    ∀ i, i ≠ id → i ≠ 0 → own i (Q (op.run s).1) = own i P := by
  intro i there somebody
  have none : ∀ K : Multiset Holding, (∀ h ∈ K, h.session = id ∨ h.session = 0) → own i K = 0 := by
    intro K hK
    refine own_eq_zero.mpr fun h hh eq => ?_
    obtain here | nobody := hK h hh
    · exact there (eq.symm.trans here)
    · exact somebody (eq.symm.trans nobody)
  rw [none _ about, none _ (Session.Sound.hands_over (keeps o) hs about)]

/-- What an operation makes of the holdings of its session, it makes of the world's. -/
theorem keepsAt_onSession (keeps : ∀ o, Keeps (Session.Books id o) P op Q)
    (about : ∀ h ∈ P, h.session = id ∨ h.session = 0)
    (clear : ∀ a, tally Holding.debts (Q a) = 0)
    (absent : w.sessions[id]? = none → (∀ h ∈ Q default, ∃ k ∈ P, k.session = h.session)
      ∧ tally Holding.callables (Q default) = tally Holding.callables P) :
    KeepsAt Books w P (World.onSession id op) Q := by
  rintro μ H ⟨hw, owed⟩
  have swap : ∀ K, w.holdings + (K + H) = K + (w.holdings + H) := fun K => by ac_rfl
  rw [swap] at hw owed
  have rest : tally Holding.debts (w.holdings + H) = 0 := by
    rw [tally_add] at owed
    exact (add_eq_zero.mp owed).2
  have none : tally Holding.debts P = 0 := by
    rw [tally_add] at owed
    exact (add_eq_zero.mp owed).1
  rw [Books, holdings_onSession, swap]
  refine ⟨hw.onSession owed keeps (fun s e o hs => elsewhere_of_about keeps about hs) ?_, ?_⟩
  · intro h
    obtain ⟨instead, callables⟩ := absent h
    exact hw.vanish h about instead callables (by rw [clear, none])
  · rw [tally_add, clear, rest, add_zero]

/-- An operation that is handed nothing, and does not hand over anything if there is no session. -/
theorem keeps_onSession (keeps : ∀ o, Keeps (Session.Books id o) 0 op Q)
    (clear : ∀ a, tally Holding.debts (Q a) = 0) (nothing : Q default = 0) :
    Keeps Books 0 (World.onSession id op) Q := fun _ =>
  keepsAt_onSession keeps (by simp) clear fun _ => by simp [nothing]

/-- An operation that has nothing to do with holdings. -/
theorem keeps_onSession_aside (keeps : ∀ o, Keeps (Session.Books id o) 0 op fun _ => 0) :
    Keeps Books 0 (World.onSession id op) fun _ => 0 :=
  keeps_onSession keeps (by simp) rfl

end

end Host.World

end ScriptBridge
