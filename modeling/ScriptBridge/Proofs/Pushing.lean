import ScriptBridge.Proofs.Handovers

/-!
# ScriptBridge.Proofs.Pushing

Values that are put on a host's frame turn by turn.  Between two turns a runtime can make a
collection; when none does, a delivery does to the session what `Session.pushAll` does at once, and
nothing else happens.

Main facts:

* `World.run_proceed` — a turn of the host in a run;
* `World.pushed_run` — a delivery of which nothing is left.
-/

namespace ScriptBridge.Host.World

variable {w w₀ : World} {d : Delivery} {errand : Errand} {rest : List Activity} {n : Nat}
  {s s' : Session} {out : Session.Outbound}

/-- Whether no runtime makes a collection of its own accord in some turns of the host, from one on. -/
def Undisturbed (w₀ : World) (n count : Nat) : Prop :=
  ∀ i < count, ∀ id budget, (w₀.run (n + i)).whims.headD .pass ≠ .upon id budget

theorem Undisturbed.mono {count fewer : Nat} (h : w₀.Undisturbed n count) (le : fewer ≤ count) :
    w₀.Undisturbed n fewer := fun i hi => h i (Nat.lt_of_lt_of_le hi le)

theorem Undisturbed.later {k count : Nat} (h : w₀.Undisturbed n (k + count)) :
    w₀.Undisturbed (n + k) count := by
  intro i hi
  rw [Nat.add_assoc]
  exact h (k + i) (Nat.add_lt_add_left hi k)

theorem Undisturbed.now {count : Nat} (h : w₀.Undisturbed n (count + 1)) :
    ∀ id budget, (w₀.run n).whims.headD .pass ≠ .upon id budget := h 0 (Nat.succ_pos _)

/-- No collection is made when nothing is left of the whims. -/
theorem Undisturbed.of_isEmpty {count : Nat}
    (none : ∀ i < count, (w₀.run (n + i)).whims.isEmpty = true) : w₀.Undisturbed n count := by
  intro i hi id budget
  rw [List.isEmpty_iff.mp (none i hi)]
  exact nofun

/-- Whether some turns, from one on, are turns of the host: no runtime runs in them. -/
def Proceeds (w₀ : World) (n count : Nat) : Prop :=
  ∀ i < count, (w₀.run (n + i)).control = .proceed

theorem Proceeds.one (h : (w₀.run n).control = .proceed) : w₀.Proceeds n 1 := by
  intro i hi
  rw [Nat.lt_one_iff.mp hi]
  exact h

theorem Proceeds.append {k l : Nat} (h : w₀.Proceeds n k) (h' : w₀.Proceeds (n + k) l) :
    w₀.Proceeds n (k + l) := by
  intro i hi
  obtain here | there := Nat.lt_or_ge i k
  · exact h i here
  · obtain ⟨j, rfl⟩ := Nat.exists_eq_add_of_le there
    rw [← Nat.add_assoc]
    exact h' j (Nat.lt_of_add_lt_add_left hi)

/-- A run goes on in a turn of the host. -/
theorem run_advance (proceeds : (w₀.run n).control = .proceed) :
    w₀.run (n + 1) = (advance.run (w₀.run n)).2 := by
  obtain ⟨-, done⟩ | next := run_succ n w₀
  · cases proceeds.symm.trans done
  · exact next

/-- A turn of the host, in which no runtime makes a collection. -/
theorem run_proceed (proceeds : (w₀.run n).control = .proceed) (calm : w₀.Undisturbed n 1) :
    w₀.run (n + 1)
      = (proceed.run { w₀.run n with whims := (w₀.run n).whims.tail }).2 := by
  rw [run_advance proceeds, advance_proceed proceeds calm.now]

/-- Whether a delivery is what happens next, with a session as it is now. -/
structure Delivers (w : World) (d : Delivery) (errand : Errand) (rest : List Activity) (s : Session) :
    Prop where
  proceeds : w.control = .proceed
  top : w.activities = .delivering d errand :: rest
  session : w.sessions[d.session]? = some s

/-- One turn of a delivery. -/
theorem Delivers.turn (h : (w₀.run n).Delivers d errand rest s) (calm : w₀.Undisturbed n 1) :
    ∃ w : World, w.Delivers d errand rest s ∧ w.sessions = (w₀.run n).sessions
      ∧ w₀.run (n + 1) = ((deliverNext d errand).run w).2 := by
  refine ⟨{ w₀.run n with whims := (w₀.run n).whims.tail }, ⟨h.proceeds, h.top, h.session⟩, rfl, ?_⟩
  rw [run_proceed h.proceeds calm,
    proceed_delivering (w := { w₀.run n with whims := (w₀.run n).whims.tail }) h.top]

/-- The function for a callable that is pinned is made. -/
theorem Delivers.build {pin : Handle} (h : w.Delivers d errand rest s) (hp : d.pin = some pin) :
    ((deliverNext d errand).run w).2.Delivers { d with pin := none } errand rest
        ((Session.build d.thread pin).run s).2
      ∧ ∀ j ≠ d.session, ((deliverNext d errand).run w).2.sessions[j]? = w.sessions[j]? := by
  let u : World := { w with
    activities := .delivering { d with pin := none } errand :: w.activities.drop 1 }
  have there : u.sessions[d.session]? = some s := h.session
  have run : ((deliverNext d errand).run w).2
      = u.withSession d.session ((Session.build d.thread pin).run s).2 := by
    rw [deliverNext, hp]
    change ((onSession d.session (Session.build d.thread pin)).run u).2 = _
    rw [onSession_run_some there]
  rw [run]
  refine ⟨⟨h.proceeds, ?_, getElem?_withSession_self ..⟩, fun j ne => getElem?_withSession_of_ne ne⟩
  change _ :: w.activities.drop 1 = _
  rw [h.top]
  rfl

/-- A value that pins no callable is put on the host's frame; a callable is pinned for its function. -/
theorem Delivers.next {left : List Session.Outbound} {r : Option (Handle × CallableId)}
    (h : w.Delivers d errand rest s) (hp : d.pin = none) (hl : d.left = out :: left)
    (again : (Session.repin out).run.run s = (.ok r, s')) :
    ((deliverNext d errand).run w).2.Delivers { d with left, pin := r.map (·.1) } errand rest
        (if r.isSome then s' else ((Session.place d.thread out).run s').2)
      ∧ ∀ j ≠ d.session, ((deliverNext d errand).run w).2.sessions[j]? = w.sessions[j]? := by
  have looked : (attemptOn d.session (Session.repin out)).run w
      = (.ok r, w.withSession d.session s') := by
    rw [attemptOn, onSession_run_some h.session, again]
  have top : ∀ d', { w with
      activities := Activity.delivering d' errand :: w.activities.drop 1 }.activities
        = .delivering d' errand :: rest := by
    intro d'
    rw [h.top]
    rfl
  rw [deliverNext, hp, hl]
  simp only
  rw [stateM_run_bind, looked]
  cases r with
  | none =>
    simp only
    rw [stateM_run_bind, onSession_run_some (getElem?_withSession_self ..)]
    refine ⟨⟨h.proceeds, top _, getElem?_withSession_self ..⟩, fun j ne => ?_⟩
    change ((w.withSession d.session s').withSession d.session _).sessions[j]? = _
    rw [getElem?_withSession_of_ne ne, getElem?_withSession_of_ne ne]
  | some r =>
    exact ⟨⟨h.proceeds, top _, getElem?_withSession_self ..⟩,
      fun j ne => getElem?_withSession_of_ne ne⟩

/-- A value is put on the host's frame, in one turn, or in two if it is a callable. -/
theorem Delivers.push {left : List Session.Outbound} {owner : Option CallableId}
    (h : (w₀.run n).Delivers d errand rest s) (hp : d.pin = none) (hl : d.left = out :: left)
    (pushed : (Session.push d.thread out).run.run s = (.ok owner, s'))
    (calm : w₀.Undisturbed n 2) :
    ∃ k ≤ 2, (w₀.run (n + k)).Delivers { d with left } errand rest s'
      ∧ (∀ j ≠ d.session, (w₀.run (n + k)).sessions[j]? = (w₀.run n).sessions[j]?)
      ∧ w₀.Proceeds n k := by
  obtain ⟨w, here, sessions, turn⟩ := h.turn (calm.mono (by decide))
  obtain ⟨r, s₁, again⟩ : ∃ r s₁, (Session.repin out).run.run s = (r, s₁) := ⟨_, _, rfl⟩
  cases r with
  | error f => cases pushed.symm.trans (try_bind_error again)
  | ok r =>
    have ends := congrArg Prod.snd (pushed.symm.trans (try_bind_ok again))
    obtain ⟨next, others⟩ := here.next hp hl again
    rw [← turn] at next
    rw [← turn, sessions] at others
    cases r with
    | none =>
      obtain rfl : s' = ((Session.place d.thread out).run s₁).2 := ends
      obtain ⟨id, t, outs, left', pin⟩ := d
      obtain rfl : pin = none := hp
      exact ⟨1, by decide, next, others, .one h.proceeds⟩
    | some r =>
      obtain ⟨pin, callable⟩ := r
      obtain rfl : s' = ((Session.build d.thread pin).run s₁).2 := ends
      obtain ⟨w', here', sessions', turn'⟩ := next.turn (calm.later (k := 1))
      obtain ⟨built, others'⟩ := here'.build rfl
      rw [← turn'] at built
      rw [← turn', sessions'] at others'
      obtain ⟨id, t, outs, left', pin'⟩ := d
      obtain rfl : pin' = none := hp
      exact ⟨2, Nat.le_refl 2, built, fun j ne => (others' j ne).trans (others j ne),
        (Proceeds.one h.proceeds).append (.one next.proceeds)⟩

/-- The values that are left are put on the host's frame. -/
theorem Delivers.pushAll {owners : List CallableId} (h : (w₀.run n).Delivers d errand rest s)
    (hp : d.pin = none) (pushed : (Session.pushAll d.thread d.left).run.run s = (.ok owners, s'))
    (calm : w₀.Undisturbed n (2 * d.left.length)) :
    ∃ k ≤ 2 * d.left.length, (w₀.run (n + k)).Delivers { d with left := [] } errand rest s'
      ∧ (∀ j ≠ d.session, (w₀.run (n + k)).sessions[j]? = (w₀.run n).sessions[j]?)
      ∧ w₀.Proceeds n k := by
  generalize hl : d.left = left at pushed calm ⊢
  induction left generalizing d s n owners with
  | nil =>
    obtain ⟨id, t, outs, left, pin⟩ := d
    cases hl
    cases pushed
    exact ⟨0, Nat.le_refl 0, h, fun _ _ => rfl, nofun⟩
  | cons out left ih =>
    obtain ⟨owner, s₁, first, pushed⟩ := run_of_bind pushed
    obtain ⟨owners', s₂, others, pushed⟩ := run_of_bind pushed
    cases pushed
    have enough : 2 * (left.length + 1) = 2 + 2 * left.length := by omega
    rw [List.length_cons, enough] at calm ⊢
    obtain ⟨k, hk, next, same, goes⟩ := h.push hp hl first (calm.mono (Nat.le_add_right _ _))
    have after : w₀.Undisturbed (n + k) (2 * left.length) :=
      (calm.mono (Nat.add_le_add_right hk _)).later
    obtain ⟨l, hl, last, same', goes'⟩ := ih next hp rfl others after
    refine ⟨k + l, Nat.add_le_add hk hl, ?_, fun j ne => ?_, goes.append goes'⟩
    · rw [← Nat.add_assoc]
      exact last
    · rw [← Nat.add_assoc]
      exact (same' j ne).trans (same j ne)

end ScriptBridge.Host.World
