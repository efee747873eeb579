import ScriptBridge.Proofs.Threads
import ScriptBridge.Proofs.Underway

/-!
# ScriptBridge.Proofs.Calling

What a call of a script function comes to, in any run.  A call is declined in its first turn, and
then it has had no effect; or it begins, its arguments are put on the host's frame, its function is
called with them in one turn, and its script runs until the call ends.

Main fact:

* `call_run` — all the ways in which a call can go.
-/

namespace ScriptBridge.Host

namespace World

variable {w w₀ w₁ : World} {μ : SessionId → Session.Memory} {id : SessionId} {s s' : Session}
  {r : Ref} {x y : Script.Value} {v : Value} {step : Step} {ref : Ref} {c : Calling}

/-! ## Phases of a run -/

/-- Whether something is so from one point of a run on up to another, unless something happens
before: then it is so until that happens, in a turn. -/
def Until (w₀ : World) (P : World → Prop) (happens : Nat → Prop) (first last : Nat) : Prop :=
  (∀ i, first ≤ i → i ≤ last → P (w₀.run i))
  ∨ ∃ k, first ≤ k ∧ k < last ∧ (∀ i, first ≤ i → i ≤ k → P (w₀.run i)) ∧ happens k

/-- What is so at first, and still so after each turn in which nothing happens. -/
theorem until_run {P : World → Prop} {happens : Nat → Prop} {first last : Nat} (le : first ≤ last)
    (begins : P (w₀.run first))
    (turn : ∀ k, first ≤ k → k < last → P (w₀.run k) → P (w₀.run (k + 1)) ∨ happens k) :
    w₀.Until P happens first last := by
  induction last, le using Nat.le_induction with
  | base =>
    refine .inl fun i lower upper => ?_
    rwa [Nat.le_antisymm upper lower]
  | succ last le ih =>
    obtain all | ⟨k, lower, upper, before, now⟩ :=
      ih fun k lower upper => turn k lower (Nat.lt_succ_of_lt upper)
    · obtain still | now := turn last le (Nat.lt_succ_self last) (all last le (Nat.le_refl last))
      · refine .inl fun i lower upper => ?_
        obtain below | rfl := Nat.le_succ_iff.mp upper
        · exact all i lower below
        · exact still
      · exact .inr ⟨last, le, Nat.lt_succ_self last, all, now⟩
    · exact .inr ⟨k, lower, Nat.lt_succ_of_lt upper, before, now⟩

theorem run_of_done (done : w.control = .done) (k : Nat) : w.run k = w := by
  cases k with
  | zero => rfl
  | succ k => rw [run, done]

/-- A run goes on where it was left. -/
theorem run_add (w : World) (n k : Nat) : w.run (n + k) = (w.run n).run k := by
  induction n generalizing w with
  | zero => rw [Nat.zero_add, run]
  | succ n ih =>
    cases control : w.control with
    | done => rw [run_of_done control, run_of_done control, run_of_done control]
    | _ =>
      have goes : ∀ k, w.run (k + 1) = (advance.run w).2.run k := fun k => by rw [run, control]
      rw [goes, Nat.add_right_comm, goes, ih]

/-! ## What the arguments are -/

/-- A reference that denotes something at two points of a run denotes the same. -/
theorem Books.object?_same {k : Nat} (hw : Books μ 0 w) (hs : w.sessions[r.session]? = some s)
    (ho : s.isOpen) (hx : s.object? r = some x)
    (hs' : (w.run k).sessions[r.session]? = some s') (ho' : s'.isOpen)
    (hy : s'.object? r = some y) : x = y := by
  have after := hw.remember.run k
  have seen : w.snapshot r.session r.cell = some x := by
    rw [snapshot, hs, Option.bind_some, if_pos ho]
    exact hx
  obtain ⟨a, ha, hv⟩ := Option.bind_eq_some_iff.mp hy
  obtain ⟨c, hc, hca⟩ := Option.bind_eq_some_iff.mp ha
  obtain ⟨z, hz, -, remembered⟩ := (after.1.tidy _ s' hs').2.moored ho' r.cell c a hc hca
  rw [remembered x seen, ← Option.some.inj (hz.symm.trans hv)]

/-- What a reference that is held has been for its runtime, it denotes. -/
theorem HasBeen.denotes {n : Nat} (books : ∀ k, Books μ 0 (w₀.run k))
    (hs : (w₀.run n).sessions[r.session]? = some s) (ho : s.isOpen)
    (hx : s.object? r = some x) (hv : v.ref? = some r) (been : w₀.HasBeen r.session v y) : y = x := by
  obtain ⟨m, s', hs', ho', becomes⟩ := been
  have hy : s'.object? r = some y := by
    cases v with
    | reference q | function q =>
      obtain rfl := Option.some.inj hv
      exact becomes
    | _ => cases hv
  obtain le | le := Nat.le_total m n
  · obtain ⟨k, rfl⟩ := Nat.exists_eq_add_of_le le
    rw [run_add] at hs
    exact (books m).object?_same hs' ho' hy hs ho hx
  · obtain ⟨k, rfl⟩ := Nat.exists_eq_add_of_le le
    rw [run_add] at hs'
    exact ((books n).object?_same hs ho hx hs' ho' hy).symm

end World

/-! ## Calls that have begun -/

namespace Call

variable {k : Call} {w₀ : World} {s : Session} {r : Except Failure (List Value)} {w w' : World}

theorem Starts.mono {told told' : Value → Script.Value → Prop}
    (h : k.Starts told w w')
    (more : ∀ v ∈ k.calling.args.map (·.1), ∀ x, told v x → told' v x) : k.Starts told' w w' := by
  obtain ⟨s, info, upvalue, args, operands, frames, hs, current, hf, base, given, rest⟩ := h
  refine ⟨s, info, upvalue, args, operands, frames, hs, current, hf, base, ?_, rest⟩
  exact ((List.forall₂_and_left _ _).mpr ⟨more, given⟩).imp fun v x h => h.1 x h.2

theorem Ends.mono {s₀ s₀' : Session} (h : k.Ends s₀ r w w')
    (more : ∀ q y, s₀'.object? q = some y → s₀.object? q = some y) : k.Ends s₀' r w w' := by
  obtain ⟨s, s', raised, info, upvalue, new, operands, frames, c, u, control, hs, mode, hf, base,
    comes, lacks, plain, hu, rest, lent, eq⟩ := h
  refine ⟨s, s', raised, info, upvalue, new, operands, frames, c, u, control, hs, mode, hf, base,
    comes, lacks, plain, hu, rest, fun v hv q hq mine => ?_, eq⟩
  obtain ⟨x, hx, same⟩ := lent v hv q hq mine
  exact ⟨x, hx, fun y hy => same y (more q y hy)⟩

/-- What a call does after it has begun: its arguments are put on the host's frame, until its
function is called with them; then its script runs, until the call ends. -/
def Runs (k : Call) (w₀ : World) (s : Session) (first last : Nat) : Prop :=
  w₀.Until k.Sending (fun i =>
    k.Starts (fun v x => w₀.HasBeen k.session v x
      ∧ ∀ q, v.ref? = some q → s.object? q = some x) (w₀.run i) (w₀.run (i + 1))
    ∧ w₀.Until k.Running (fun j => ∃ r, k.Ends s r (w₀.run j) (w₀.run (j + 1))) (i + 1) last)
    first last

/-- Whatever a call that has begun does, its arguments are those that it was given. -/
theorem runs_of_sending {program : List Step} {whims : List Whim} {n last : Nat} {s' : Session}
    (le : n ≤ last) (sending : k.Sending ((World.start program whims).run n))
    (hs : ((World.start program whims).run n).sessions[k.session]? = some s') (ho : s'.isOpen)
    (grows : ∀ q x, s.object? q = some x → s'.object? q = some x)
    (held : ∀ v ∈ k.calling.args.map (·.1), ∀ q, v.ref? = some q →
      q.session = k.session ∧ ∃ x, s.object? q = some x) :
    k.Runs (World.start program whims) s n last := by
  have books := World.books_run program whims
  refine World.until_run le sending fun i lower upper sending => ?_
  obtain ⟨stays, -⟩ | next := World.run_succ i (World.start program whims)
  · exact .inl (stays ▸ sending)
  obtain ⟨Ss, nests, -⟩ := World.nests_run program whims i
  obtain sending | starts := sending_turn nests (books i) sending
  · exact .inl (next ▸ sending)
  rw [← next] at starts
  have running : k.Running ((World.start program whims).run (i + 1)) := by
    obtain ⟨-, -, -, -, -, -, -, -, -, -, -, running, -⟩ := starts
    exact running
  refine .inr ⟨starts.mono fun v hv x been => ⟨been, fun q hq => ?_⟩, ?_⟩
  · obtain ⟨mine, y, hy⟩ := held v hv q hq
    rw [← mine] at hs been
    rw [been.denotes books hs ho (grows q y hy) hq, hy]
  · refine World.until_run upper running fun j later _ running => ?_
    obtain ⟨stays, -⟩ | next := World.run_succ j (World.start program whims)
    · exact .inl (stays ▸ running)
    obtain ⟨Ss, nests, -⟩ := World.nests_run program whims j
    obtain ⟨d, rfl⟩ := Nat.exists_eq_add_of_le (Nat.le_trans (Nat.le_succ_of_le lower) later)
    have seen := (books n).remember.run d
    rw [← World.run_add] at seen
    rw [next]
    refine (running_turn nests seen (fun q x mine (hx : s'.object? q = some x) => ?_) running).imp_right
      fun ⟨r, ends⟩ => ⟨r, ends.mono grows⟩
    rw [World.snapshot, hs, Option.bind_some, if_pos ho]
    exact hx

end Call

/-! ## Any run -/

/-- At any point of any run at which a call of a function begins: it is declined, for the first
reason that there is, and ends at once, with the session as it was, but for what the runtime knows of
its stack; or it begins.  Then its arguments are put on the host's frame, the function is called with
them in one turn, and not before, and the script runs until the call ends; it comes to the results,
to the text of the error that was raised, or to a failure at the first result that is no text, and
nothing is left of the cells that were made for the arguments. -/
theorem call_run (program : List Step) (whims : List Whim) (n : Nat) {step : Step} {ref : Ref}
    {c : Calling} {w₁ : World} {s : Session}
    (h : ((World.start program whims).run n).Calls step ref c w₁)
    (hs : w₁.sessions[ref.session]? = some s) :
    let w := World.start program whims
    (∀ f, s.Declines (c.args.map (·.1)) f → ∃ full s' u, (s.withOverflow full).Restored s'
      ∧ w₁.Replaces ref.session s' u
      ∧ w.run (n + 1) = ((World.finishCall step c (.error (.failure f))).run u).2
      ∧ u.Sheds (w.run (n + 1)))
    ∧ ((∀ f, ¬ s.Declines (c.args.map (·.1)) f) → ∃ t outs x s₁, s.active = some t
      ∧ (∀ y, s.object? ref = some y → x = y) ∧ s.Grows s₁
      ∧ List.Forall₂ s₁.Packs (c.args.map (·.1)) outs
      ∧ (w.run (n + 1)).sessions[ref.session]?
        = some { s₁ with machine := s.machine.pushOperand t x }
      ∧ ∀ last, n < last → Call.Runs ⟨step, ref.session, t, s.height, x, outs, c, w₁.activities⟩
        w s (n + 1) last) := by
  intro w
  have books := World.books_run program whims n
  have next : w.run (n + 1) = (World.advance.run (w.run n)).2 := World.run_advance h.proceeds
  rw [next]
  refine ⟨fun f declines => h.declined books hs declines, fun free => ?_⟩
  obtain ⟨t, outs, s₁, s₂, x, active, own, denotes, -, top, hs₂, rfl, grows, -, packs⟩ :=
    h.begins books hs free
  obtain ⟨mine, ho, -⟩ := (h.books books).orderly_at hs (by rw [active]; rfl)
  refine ⟨t, outs, x, s₁, active, denotes, grows, packs, hs₂, fun last later => ?_⟩
  rw [← next] at top hs₂
  refine Call.runs_of_sending later ⟨outs, none, .of_eq top⟩ hs₂ ?_ (fun q y hy => grows.object? hy)
    fun v hv q hq => ?_
  · rw [← ((World.books_run program whims (n + 1)).1.tidy _ _ hs₂).2.awake]
    change s₁.active.isSome = true
    rw [grows.active, active]
    rfl
  · have here : q.session = ref.session := (own v hv q hq).trans mine
    obtain ⟨y, hy, -⟩ := (h.books books).recalls (Multiset.mem_add.mpr (.inl
      (World.mem_callings hv (Value.mem_holdings_ref hq)))) (by rw [here]; exact hs) ho
    exact ⟨here, y, hy⟩

/-- Whether the next turn begins to call a function, with arguments that are no references. -/
def World.callsPlainly (w : World) (test : Session → List Value → Bool) : Bool :=
  w.calls?.any fun (_, ref, c, w₁) => c.args.all (fun e => e.1.ref?.isNone)
    && w₁.sessions[ref.session]?.any fun s => test s (c.args.map (·.1))

theorem World.of_callsPlainly {w : World} {test : Session → List Value → Bool}
    (h : w.callsPlainly test = true) : ∃ step ref c w₁ s, w.Calls step ref c w₁
      ∧ w₁.sessions[ref.session]? = some s ∧ (∀ v ∈ c.args.map (·.1), s.Owns v)
      ∧ test s (c.args.map (·.1)) = true := by
  obtain ⟨⟨step, ref, c, w₁⟩, calls, h⟩ := (Option.any_eq_true _ _).mp h
  obtain ⟨plain, h⟩ := Bool.and_eq_true_iff.mp h
  obtain ⟨s, hs, passes⟩ := (Option.any_eq_true _ _).mp h
  refine ⟨step, ref, c, w₁, s, World.calls_of_eq calls, hs, fun v hv r hr => ?_, passes⟩
  obtain ⟨e, he, rfl⟩ := List.mem_map.mp hv
  have none := List.all_eq_true.mp plain e he
  rw [hr] at none
  cases none

/-- Calls a function with a value of each of two kinds, closes its session, and calls it again. -/
def recalling : List Step := [
  .mk (.openSession "a" .standard) true true,
  .mk (.lookUpFunction "a" "type" (some "f")) true true,
  .mk (.call "f" [.one (.constant (.boolean true)), .nils 1] [] true) true true,
  .mk (.closeSession "a") true true,
  .mk (.call "f" [] [] true) true true]

theorem call_run_recalling :
    let w := World.start recalling []
    (∃ (step : Step) (ref : Ref) (c : Calling) (w₁ : World) (s : Session),
      (w.run 2).Calls step ref c w₁ ∧ w₁.sessions[ref.session]? = some s
      ∧ (∀ f, ¬ s.Declines (c.args.map (·.1)) f)
      ∧ ∃ t outs x, s.active = some t ∧ ∀ last, 2 < last →
        Call.Runs ⟨step, ref.session, t, s.height, x, outs, c, w₁.activities⟩ w s 3 last)
    ∧ ∃ (step : Step) (ref : Ref) (c : Calling) (w₁ : World) (s : Session),
      (w.run 9).Calls step ref c w₁ ∧ w₁.sessions[ref.session]? = some s
      ∧ s.Declines (c.args.map (·.1)) .sessionClosed
      ∧ ∃ full s' u, (s.withOverflow full).Restored s' ∧ w.run 10
        = ((World.finishCall step c (.error (.failure .sessionClosed))).run u).2 := by
  intro w
  constructor
  · have begins : (w.run 2).callsPlainly (fun s vs => s.active.any fun t =>
        (s.machine.reserve t (vs.length + 1)).1) = true := by decide +kernel
    obtain ⟨step, ref, c, w₁, s, calls, hs, own, room⟩ := World.of_callsPlainly begins
    obtain ⟨t, active, room⟩ := (Option.any_eq_true _ _).mp room
    have free : ∀ f, ¬ s.Declines (c.args.map (·.1)) f := by
      intro f declines
      cases declines with
      | closed asleep => rw [asleep] at active; cases active
      | foreign _ split _ hr other =>
        exact other (own _ (split ▸ List.mem_append_right _ List.mem_cons_self) _ hr)
      | full awake _ none =>
        obtain rfl := Option.some.inj (active.symm.trans awake)
        exact none room
    obtain ⟨-, begun⟩ := call_run recalling [] 2 calls hs
    obtain ⟨t, outs, x, -, active, -, -, -, -, runs⟩ := begun free
    exact ⟨step, ref, c, w₁, s, calls, hs, free, t, outs, x, active, runs⟩
  · have closed : (w.run 9).callsPlainly (fun s _ => s.active.isNone) = true := by decide +kernel
    obtain ⟨step, ref, c, w₁, s, calls, hs, -, asleep⟩ := World.of_callsPlainly closed
    have declines : s.Declines (c.args.map (·.1)) .sessionClosed :=
      .closed (Option.isNone_iff_eq_none.mp asleep)
    obtain ⟨declined, -⟩ := call_run recalling [] 9 calls hs
    obtain ⟨full, s', u, restored, -, run, -⟩ := declined .sessionClosed declines
    exact ⟨step, ref, c, w₁, s, calls, hs, declines, full, s', u, restored, run⟩

end ScriptBridge.Host
