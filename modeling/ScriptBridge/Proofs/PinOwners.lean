import ScriptBridge.Proofs.Contents

/-!
# ScriptBridge.Proofs.PinOwners

Who owns the pins of an open session: a cell on its way to the runtime, a userdata of the runtime
whose finalizer has not taken its handle, or a delivery that is about to make a userdata.  A
userdata owns its pin until its finalizer takes it; the runtime finalizes in an order of its own,
so that other finalizers may call the host function afterwards.

Main facts:

* `Host.pins_run` — the pins of an open session have these owners and no others, at any point of
  any run;
* `Host.calls_run` — a call of a host function whose userdata has its handle finds a callable, and
  no other call does;
* `Host.called_when_closing` — a host function that is called after its userdata was finalized.
-/

namespace ScriptBridge

namespace Host

variable {id : SessionId} {w : World} {s : Session}

/-- The pins of the host functions that a delivery is about to make. -/
def Activity.pins (id : SessionId) : Activity → Multiset Nat
  | .delivering d _ => if d.session = id then d.pin.elim 0 fun h => {h.number} else 0
  | _ => 0

/-- The pins of a session that have no cell and no userdata yet. -/
def World.pinsUnderway (w : World) (id : SessionId) : Multiset Nat :=
  (w.activities.map (Activity.pins id)).sum

namespace World

/-- Values pin nothing. -/
theorem pins_values (vs : Multiset Value) :
    tally (Holding.pins id) (vs.map Value.holdings).sum = 0 := by
  refine Multiset.sum_eq_zero fun n hn => ?_
  obtain ⟨h, hh, rfl⟩ := Multiset.mem_map.mp hn
  obtain ⟨v, -, hh⟩ := Multiset.mem_bind.mp hh
  cases v <;> simp_all [Value.holdings, Holding.pins]

/-- Of what something in progress holds apart from its values, the pin of a host function that is
to be made counts. -/
theorem pins_aside (a : Activity) : tally (Holding.pins id) a.aside = a.pins id := by
  have sent : ∀ (session : SessionId) (outs : List Session.Outbound) (vs : List Value),
      tally (Holding.pins id) (outHoldings session outs vs) = 0 := by
    intro session outs vs
    refine Multiset.sum_eq_zero fun n hn => ?_
    obtain ⟨h, hh, rfl⟩ := Multiset.mem_map.mp hn
    obtain ⟨cell, v, rfl⟩ := mem_outHoldings hh
    rfl
  cases a with
  | step s waiting =>
    cases waiting with
    | calling session base outs c => exact sent session outs _
    | _ => rfl
  | delivering d errand =>
    have others : tally (Holding.pins id) (errand.aside d.session) = 0 := by
      cases errand <;> simp [Errand.aside, Holding.pins]
    rw [Activity.aside, tally_add, tally_add, sent, others, add_zero, add_zero, Activity.pins]
    cases d.pin with
    | none => simp
    | some pin => simp [Holding.pins]
  | serving session previous f => simp [Activity.aside, Activity.pins, Holding.pins]
  | _ => rfl

/-- The pins that a world holds are those on their way. -/
theorem tally_pins (w : World) : tally (Holding.pins id) w.holdings = w.pinsUnderway id := by
  have defined : tally (Holding.pins id) (definedHoldings w.defined) = 0 := by
    refine Multiset.sum_eq_zero fun n hn => ?_
    rw [definedHoldings, Multiset.map_map] at hn
    obtain ⟨e, -, rfl⟩ := Multiset.mem_map.mp hn
    rfl
  have progress : tally (Holding.pins id) (w.activities.map Activity.aside).sum
      = w.pinsUnderway id := by
    rw [pinsUnderway]
    induction w.activities with
    | nil => rfl
    | cons a as ih =>
      rw [List.map_cons, List.sum_cons, tally_add, pins_aside, ih, List.map_cons, List.sum_cons]
  rw [holdings_eq, tally_add, pins_values, aside, tally_add, defined, progress, zero_add, zero_add]

/-- A pinned callable is there. -/
theorem Books.pinned_there {μ : SessionId → Session.Memory} {H : Multiset Holding} {k : Nat}
    {f : CallableId} (hw : Books μ H w) (hs : w.sessions[id]? = some s)
    (hf : s.pins.live[k]? = some f) : ∃ c, w.callables[f]? = some c :=
  mem_owned (hw.owned_pinned hs (Multiset.mem_map.mpr ⟨(k, f), mem_entries.mpr hf, rfl⟩))

end World

/-- How many handles are live. -/
theorem size_pins (r : Registry CallableId) : r.size = (keys r.live).card := by
  rw [keys, Multiset.card_map, entries, Multiset.coe_card, Std.TreeMap.length_toList, Registry.size]

/-- At any point of any run, the live pins of an open session are those of the cells on their way
to its runtime, those of the userdata whose finalizers have not taken their handles, and those of
host functions that are about to be made, each counted once; and each finds its callable. -/
theorem pins_run (program : List Step) (whims : List Whim) (n : Nat)
    (hs : ((World.start program whims).run n).sessions[id]? = some s) (ho : s.isOpen) :
    let w := (World.start program whims).run n
    keys s.pins.live = s.cellPins + s.userdataPins + w.pinsUnderway id
      ∧ s.pins.size = s.cellPins.card + s.handles.length + (w.pinsUnderway id).card
      ∧ ∀ k ∈ s.cellPins + s.userdataPins + w.pinsUnderway id, ∃ f c,
        s.pins.live[k]? = some f ∧ w.callables[f]? = some c := by
  intro w
  have books := World.books_run program whims n
  have balance : keys s.pins.live = s.cellPins + s.userdataPins + w.pinsUnderway id := by
    rw [World.Books, add_zero] at books
    obtain ⟨rfl, tidy⟩ := books.1.tidy id s hs
    rw [tidy.pins ho, World.tally_pins]
  refine ⟨balance, ?_, fun k hk => ?_⟩
  · have userdata : s.userdataPins.card = s.handles.length := by
      rw [Session.userdataPins, Multiset.coe_card, List.length_map]
    rw [size_pins, balance, Multiset.card_add, Multiset.card_add, userdata]
  · rw [← balance] at hk
    obtain ⟨f, hf⟩ := mem_keys.mp hk
    obtain ⟨c, hc⟩ := books.pinned_there hs hf
    exact ⟨f, c, hf, hc⟩

/-- Gives scripts a host function. -/
def registering : List Step := [
  .mk (.openSession "a" .standard) true true,
  .mk (.register "a" "h" (.mk "h" [] [] [] false true)) true true]

theorem pins_run_registering : ∃ s,
    ((World.start registering []).run 5).sessions[1]? = some s ∧ s.isOpen
      ∧ keys s.pins.live = s.cellPins + s.userdataPins
        + ((World.start registering []).run 5).pinsUnderway 1 := by
  have there : ((World.start registering []).run 5).sessions[1]?.any (·.isOpen) = true := by
    decide +kernel
  obtain ⟨s, hs, ho⟩ := (Option.any_eq_true _ _).mp there
  exact ⟨s, hs, ho, (pins_run registering [] 5 hs ho).1⟩

/-- At any point of any run, and whatever the runtime of an open session has come to since: a call
of a host function finds a callable if, and only if, its userdata still has its handle. -/
theorem calls_run (program : List Step) (whims : List Whim) (n : Nat)
    (hs : ((World.start program whims).run n).sessions[id]? = some s) (ho : s.isOpen)
    (m : Script.Machine) :
    (∃ h f c, Session.calledHandle { s with machine := m } = some h ∧ s.pins.get? h = some f
        ∧ ((World.start program whims).run n).callables[f]? = some c)
      ↔ ∃ o h, m.hostUpvalue = .userdata o ∧ (o, h) ∈ s.handles := by
  have look : ∀ h, Session.calledHandle { s with machine := m } = some h
      ↔ ∃ o, m.hostUpvalue = .userdata o ∧ s.handles.lookup o = some h := by
    intro h
    rw [Session.calledHandle]
    cases m.hostUpvalue <;> simp
  constructor
  · rintro ⟨h, f, c, called, -, -⟩
    obtain ⟨o, upvalue, found⟩ := (look h).mp called
    obtain ⟨before, after, split, -⟩ := List.lookup_eq_some_iff.mp found
    refine ⟨o, h, upvalue, ?_⟩
    rw [split]
    exact List.mem_append_right _ List.mem_cons_self
  · rintro ⟨o, h, upvalue, held⟩
    obtain ⟨k, found⟩ : ∃ k, s.handles.lookup o = some k := by
      rw [← Option.isSome_iff_exists, List.lookup_isSome_iff]
      exact ⟨_, held, beq_self_eq_true _⟩
    have owned : k.number ∈ s.userdataPins := by
      obtain ⟨before, after, split, -⟩ := List.lookup_eq_some_iff.mp found
      rw [Session.userdataPins, split]
      simp
    obtain ⟨-, -, there⟩ := pins_run program whims n hs ho
    obtain ⟨f, c, hf, hc⟩ := there k.number
      (Multiset.mem_add.mpr (Or.inl (Multiset.mem_add.mpr (Or.inr owned))))
    exact ⟨k, f, c, (look k).mpr ⟨o, upvalue, found⟩, hf, hc⟩

/-- The runtime calls the host function that it was given. -/
theorem calls_run_registering : ∃ s, ∃ m : Script.Machine,
    ((World.start registering []).run 5).sessions[1]? = some s ∧ s.isOpen
      ∧ m.hostUpvalue = .userdata 3 ∧ ∃ h f c,
        Session.calledHandle { s with machine := m } = some h ∧ s.pins.get? h = some f
          ∧ ((World.start registering []).run 5).callables[f]? = some c := by
  have there : ((World.start registering []).run 5).sessions[1]?.any (fun s =>
      s.isOpen ∧ (3, ⟨2, Nat.two_pos⟩) ∈ s.handles) = true := by
    decide +kernel
  obtain ⟨s, hs, there⟩ := (Option.any_eq_true _ _).mp there
  obtain ⟨ho, held⟩ := of_decide_eq_true there
  refine ⟨s, { s.machine with frames := [.host ⟨1, 0, true⟩ (.userdata 3) []] }, hs, ho, rfl, ?_⟩
  exact (calls_run registering [] 5 hs ho _).mpr ⟨3, _, rfl, held⟩

/-- Makes a finalizer that calls a host function, and the function after it. -/
def calling : List Step := [
  .mk (.openSession "a" .standard) true true,
  .mk (.execute "a" "x = setmetatable({}, \x7b__gc = function() h() end\x7d)") true true,
  .mk (.register "a" "h" (.mk "h" [] [] [] false false)) true true,
  .mk (.closeSession "a") true true]

/-- At the end of a session the latest object is finalized first.  A finalizer that is older than
a host function calls it when the handle is gone: the call is not dispatched. -/
theorem called_when_closing :
    (((World.start calling []).run 9).sessions[1]?.any fun s =>
      s.isOpen ∧ (s.machine.run World.slice).pause? = some .invoked
        ∧ (s.machine.run World.slice).hostUpvalue = .userdata 3
        ∧ Session.calledHandle { s with machine := s.machine.run World.slice } = none) = true
      ∧ (((World.start calling []).run 12).events.all fun e => match e.what with
        | .entered .. => false
        | _ => true) = true := by
  constructor <;> decide +kernel

end Host

end ScriptBridge
