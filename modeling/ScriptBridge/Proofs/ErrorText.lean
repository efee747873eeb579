import ScriptBridge.Proofs.Running

/-!
# ScriptBridge.Proofs.ErrorText

The text of an error that no script catches.  It gets to the host by way of a record that ends at
the first NUL, so NULs are left out of it; every other text arrives as it is.

Main facts:

* `Session.errorText_toUTF8` — what the host gets for an error that is a text;
* `Session.withoutNul_eq_iff` — which texts arrive as they are;
* `Host.World.escapes_as_text` — the failure of a step whose script raised the error.
-/

namespace ScriptBridge

/-- Valid text is read as it is. -/
theorem Utf8.lossy_toUTF8 (text : String) : lossy text.toUTF8 = text := by
  have known : String.fromUTF8? text.toUTF8 = some text := by
    unfold String.fromUTF8?
    rw [String.toUTF8_eq_toByteArray, dif_pos text.isValidUTF8]
    rfl
  rw [lossy, known]

namespace Session

variable {s : Session} {t : Script.ThreadId} {text : String} {old : List Script.Value}

/-- A text without its NULs. -/
def withoutNul (text : String) : String := String.ofList (text.toList.filter (· ≠ '\x00'))

/-- Only a text that has a NUL loses something. -/
theorem withoutNul_eq_iff : withoutNul text = text ↔ '\x00' ∉ text.toList := by
  constructor
  · intro same nul
    have kept : '\x00' ∈ text.toList.filter (· ≠ '\x00') := by
      have chars := congrArg String.toList same
      rw [withoutNul, String.toList_ofList] at chars
      rwa [chars]
    simp at kept
  · intro none
    have kept : text.toList.filter (· ≠ '\x00') = text.toList := by
      rw [List.filter_eq_self]
      intro c hc
      exact decide_eq_true fun nul => none (nul ▸ hc)
    rw [withoutNul, kept, String.ofList_toList]

theorem errorText_toUTF8 (text : String) : errorText (.str text.toUTF8) = withoutNul text := by
  have lossless := Utf8.lossy_toUTF8 text
  rw [errorText]
  simp only [Script.Value.text?, lossless]
  rfl

/-- The error on top of the host's frame is taken for the failure. -/
theorem takeError_run (base : Nat) (active : s.active = some t)
    (top : s.machine.operandsOf t = .str text.toUTF8 :: old) :
    ((takeError base).run s).1 = .scriptError (withoutNul text) := by
  have taken : ((takeError base).run s).1 = .scriptError (errorText
      ((s.machine.operandsOf (s.active.getD Script.Machine.main)).headD .nil)) := rfl
  rw [taken, active, Option.getD_some, top, List.headD_cons, errorText_toUTF8]

end Session

namespace Host.World

variable {w : World} {id : SessionId} {s : Session} {t : Script.ThreadId} {text : String}
  {old : List Script.Value} {step : Step} {rest : List Activity} {base : Nat}

/-- A snippet that waits for the runtime on top goes on. -/
theorem finishScript_executing {raised : Bool}
    (waits : w.activities = .step step (.executing id base) :: rest) :
    (finishScript id raised).run w
      = (finishExecuting id raised step base).run (finishTop.run w).2 := by
  rw [finishScript, stateM_get_bind, waits]
  rfl

/-- A call that waits for the runtime on top goes on. -/
theorem finishScript_calling {raised : Bool} {outs : List Session.Outbound} {c : Calling}
    (waits : w.activities = .step step (.calling id base outs c) :: rest) :
    (finishScript id raised).run w
      = (finishCalling id id raised step base outs c).run (finishTop.run w).2 := by
  rw [finishScript, stateM_get_bind, waits]
  rfl

/-- An error that no script catches ends the snippet or the call that the runtime was running for
the host.  The step fails with the text of the error, NULs left out; that is the text itself if and
only if it has none. -/
theorem escapes_as_text (hs : w.sessions[id]? = some s) (active : s.active = some t)
    (top : s.machine.operandsOf t = .str text.toUTF8 :: old) :
    (w.activities = .step step (.executing id base) :: rest → ∃ w',
      (finishScript id true).run w = (finishStep step
        (.error (.failure (.scriptError (Session.withoutNul text))))).run w')
    ∧ (∀ outs c, w.activities = .step step (.calling id base outs c) :: rest → ∃ w',
      (finishScript id true).run w = (finishCall step c
        (.error (.failure (.scriptError (Session.withoutNul text))))).run w')
    ∧ (Session.withoutNul text = text ↔ '\x00' ∉ text.toList) := by
  have taken : ((onSession id (Session.takeError base)).run (finishTop.run w).2).1
      = .scriptError (Session.withoutNul text) := by
    have here : (finishTop.run w).2.sessions[id]? = some s := hs
    rw [onSession_run_some here]
    exact Session.takeError_run base active top
  refine ⟨fun waits => ?_, fun outs c waits => ?_, Session.withoutNul_eq_iff⟩
  · rw [finishScript_executing waits, finishExecuting, if_pos rfl, stateM_run_bind, taken]
    exact ⟨_, rfl⟩
  · rw [finishScript_calling waits, finishCalling, if_pos rfl, stateM_run_bind, taken]
    exact ⟨_, rfl⟩

/-- A snippet that raises a text with a NUL. -/
def raising : List Step := [
  .mk (.openSession "a" .standard) true true,
  .mk (.execute "a" "error('a\\0b', 0)") false true]

/-- Whether a snippet of a session waits on top for the runtime. -/
def awaitsSnippet (id : SessionId) (base : Nat) : List Activity → Bool
  | .step _ (.executing id' base') :: _ => id' == id && base' == base
  | _ => false

theorem of_awaitsSnippet {as : List Activity} (h : awaitsSnippet id base as = true) :
    ∃ step rest, as = .step step (.executing id base) :: rest := by
  unfold awaitsSnippet at h
  split at h
  · obtain ⟨rfl, rfl⟩ : _ = id ∧ _ = base := by simpa using h
    exact ⟨_, _, rfl⟩
  · cases h

/-- The step of the snippet fails with the text less its NUL. -/
theorem escapes_as_text_raising :
    let w := ((onSession 1 (Session.runMachine slice)).run ((World.start raising []).run 2)).2
    ∃ s t old step rest w', w.sessions[1]? = some s ∧ s.active = some t
      ∧ s.machine.operandsOf t = .str "a\x00b".toUTF8 :: old
      ∧ w.activities = .step step (.executing 1 0) :: rest
      ∧ (finishScript 1 true).run w
        = (finishStep step (.error (.failure (.scriptError (Session.withoutNul "a\x00b"))))).run w' := by
  intro w
  have raised : w.sessions[1]?.any (fun s => s.active.any fun t =>
      (s.machine.operandsOf t).head? = some (.str "a\x00b".toUTF8)) = true := by
    decide +kernel
  have waits : awaitsSnippet 1 0 w.activities = true := by decide +kernel
  generalize w = w at raised waits ⊢
  obtain ⟨s, hs, raised⟩ := (Option.any_eq_true _ _).mp raised
  obtain ⟨t, active, raised⟩ := (Option.any_eq_true _ _).mp raised
  obtain ⟨old, top⟩ := List.head?_eq_some_iff.mp (of_decide_eq_true raised)
  obtain ⟨step, rest, here⟩ := of_awaitsSnippet waits
  obtain ⟨w', ended⟩ := (escapes_as_text hs active top).1 here
  exact ⟨s, t, old, step, rest, w', hs, active, top, here, ended⟩

/-- Not every text gets to the host as it is. -/
theorem not_verbatim : ¬ ∀ text : String, Session.errorText (.str text.toUTF8) = text := by
  intro verbatim
  have same := verbatim "a\x00b"
  rw [Session.errorText_toUTF8, Session.withoutNul_eq_iff] at same
  exact same (by decide)

end Host.World

end ScriptBridge
