import Mathlib.Tactic.Common
import ScriptBridge.Script.Embedding

/-!
# ScriptBridge.Proofs.Stacks

How the frames of a runtime lie on each other.  The frames of a coroutine are a `Pile`: what may
lie on a frame depends on what the two are there for, and a coroutine cannot be left from above a
frame that `binds`, because all that lies above one is fixed.  The coroutines that wait for the
running one, down to the main thread, have their piles below its own: all together they are the
`Spine` of the runtime.

While a script runs, the host waits at a place further down: `Spine.under` is that place, with what
made it wait.  Frames of host functions that failed may lie above it for a while; the host does not
wait there any more.

Main facts:

* `Machine.Stacked.leave` — a coroutine that is left gives way to the one that resumed it;
* `Machine.Stacked.raise` — an error leaves the place at which the host waits alone.
-/

namespace ScriptBridge.Script

/-! ## What frames are there for -/

/-- What a frame is there for. -/
inductive Role where
  | script
  /-- A library function that waits for a function it called. -/
  | library
  /-- A library function that waits for a coroutine. -/
  | waiting
  | collecting
  | sweeping
  | host
  | coroutine
  | fromHost
  | finalizer
  | handling
  | closing
  deriving DecidableEq

def Task.role : Task → Role
  | .guarded _ | .textResult | .firstResults _ => .library
  | .resuming _ | .wrapping _ => .waiting
  | .collecting => .collecting
  | .sweeping _ => .sweeping

def Mark.role : Mark → Role
  | .coroutine => .coroutine
  | .fromHost => .fromHost
  | .finalizer => .finalizer
  | .handling => .handling
  | .closing _ => .closing

def Frame.role : Frame → Role
  | .script .. => .script
  | .library _ task => task.role
  | .host .. => .host
  | .mark _ m => m.role

namespace Role

/-- Whether no coroutine can be left from above such a frame. -/
def binds : Role → Bool
  | .host | .fromHost | .collecting | .sweeping => true
  | _ => false

/-- Whether such a frame calls finalizers, one after the other. -/
def collects : Role → Bool
  | .collecting | .sweeping => true
  | _ => false

/-- Whether functions are called from such a frame while it is on top. -/
def calls : Role → Bool
  | .host | .waiting | .collecting | .sweeping => false
  | _ => true

/-- Whether such a frame goes away when what it waits for has ended. -/
def passes : Role → Bool
  | .script | .library | .waiting | .closing => true
  | _ => false

/-- Whether such a frame has nothing to do with what makes the host wait. -/
def plain : Role → Bool
  | .host | .fromHost | .sweeping | .handling => false
  | _ => true

/-- Whether a frame may lie on one of the other role.  Nothing but a finalizer lies on a frame that
calls finalizers; on a frame of the host lies what the host began, or, when it has failed, the
message handler. -/
def on : Role → Role → Bool
  | _, .waiting => false
  | top, .collecting | top, .sweeping => top == .finalizer
  | top, .host => top == .fromHost || top == .sweeping || top == .handling
  | .coroutine, _ | .fromHost, _ | .finalizer, _ => false
  | .sweeping, below => below == .script
  | _, _ => true

end Role

/-- Whether a coroutine with such frames cannot be left. -/
def binding (frames : List Frame) : Bool := frames.any fun f => f.role.binds

/-- The frames of a coroutine, the top first, as they lie on each other.  In a `quiet` pile no
finalizers are called above the bottom. -/
inductive Pile (root : Role) (quiet : Bool) : List Frame → Prop
  | root {f : Frame} : f.role = root → Pile root quiet [f]
  | on {f g : Frame} {rest : List Frame} : f.role.on g.role →
      (binding (g :: rest) → f.info.fixed) → (f.role = .handling → rest ≠ []) →
      (quiet → ¬ f.role.collects) → Pile root quiet (g :: rest) → Pile root quiet (f :: g :: rest)

variable {f g : Frame} {rest frames : List Frame} {root : Role} {quiet : Bool}

namespace Pile

theorem tail (h : Pile root quiet (f :: g :: rest)) : Pile root quiet (g :: rest) := by
  cases h with
  | on _ _ _ _ below => exact below

theorem lies (h : Pile root quiet (f :: g :: rest)) : f.role.on g.role := by
  cases h with
  | on lies _ _ _ _ => exact lies

theorem nonempty (h : Pile root quiet frames) : ∃ f rest, frames = f :: rest := by
  cases h with
  | root | on => exact ⟨_, _, rfl⟩

/-- The frame on top may be changed, as long as it is there for the same. -/
theorem replace (h : Pile root quiet (f :: rest)) (role : g.role = f.role)
    (fixed : f.info.fixed → g.info.fixed) : Pile root quiet (g :: rest) := by
  cases h with
  | root bottom => exact .root (role.trans bottom)
  | on lies firm handles quiets below =>
    exact .on (role ▸ lies) (fun h => fixed (firm h)) (fun h => handles (role ▸ h))
      (fun h => role ▸ quiets h) below

/-- What is called from above a frame that binds cannot be left by yielding. -/
theorem fixed (h : Pile root quiet (f :: rest)) (binds : binding (f :: rest)) :
    f.calleeNesting.2 = true := by
  rw [binding, List.any_cons, Bool.or_eq_true] at binds
  obtain here | below := binds
  · cases f with
    | script => cases here
    | host => rfl
    | library info task => cases task <;> first | rfl | cases here
    | mark info m => cases m <;> first | rfl | cases here
  · cases h with
    | root => cases below
    | on lies firm =>
      have firm := firm below
      cases f with
      | script info a =>
        rw [Frame.calleeNesting]
        split
        · rfl
        · split <;> exact firm
      | host => rfl
      | library info task => cases task <;> first | rfl | exact firm
      | mark info m =>
        cases m with
        | coroutine =>
          revert lies
          rename Frame => g
          cases g.role <;> exact fun lies => by cases lies
        | closing => exact firm
        | _ => rfl

/-- A frame may be put on top. -/
theorem push (h : Pile root quiet (g :: rest)) (lies : f.role.on g.role)
    (firm : binding (g :: rest) → f.info.fixed) (handles : f.role = .handling → rest ≠ [])
    (quiets : quiet → ¬ f.role.collects) : Pile root quiet (f :: g :: rest) :=
  .on lies firm handles quiets h

theorem mono (h : Pile root true frames) : Pile root quiet frames := by
  induction h with
  | root bottom => exact .root bottom
  | on lies firm handles quiets _ ih => exact .on lies firm handles (fun _ => quiets rfl) ih

end Pile

/-! ## When the machine can go on -/

/-- Whether the frame on top is one that an error can be raised from. -/
def Failing : List Frame → Prop
  | [] => False
  | f :: rest => f.role ≠ .waiting ∧ ¬ f.role.collects ∧ (f.role = .host → rest ≠ [])

/-- Whether the frame on top is right for what the machine does next, or for what it waits for in
the middle of a script. -/
def Mode.Ready : Mode → List Frame → Prop
  | .run, f :: _ => f.role = .script
  | .call .., f :: _ => f.role.calls
  | .deliver _, f :: _ => f.role ≠ .host ∧ f.role ≠ .waiting
  | .unwind _, frames => Failing frames
  | .paused .invoked, f :: rest => f.role = .host ∧ rest ≠ []
  | .paused (.releasing _), f :: _ => f.role.calls
  | .paused .collecting, f :: _ => f.role = .collecting
  | _, _ => False

theorem failing_of_calls (h : f.role.calls) : Failing (f :: rest) := by
  refine ⟨?_, ?_, ?_⟩ <;> cases hf : f.role <;> simp_all [Role.calls, Role.collects]

/-- What a frame that goes away lies on can go on. -/
theorem Pile.caller (h : Pile root quiet (f :: rest)) (passes : f.role.passes)
    (other : root.passes = false) : ∃ g rest', rest = g :: rest' ∧ g.role.calls := by
  cases h with
  | root bottom =>
    rw [bottom, other] at passes
    cases passes
  | @on _ g rest' lies _ _ _ _ =>
    refine ⟨g, rest', rfl, ?_⟩
    cases hf : f.role <;> cases hg : g.role <;> simp_all [Role.on, Role.calls, Role.passes]

/-! ## The spine -/

/-- All frames of a runtime, the top first, each with its coroutine. -/
abbrev Spine := List (ThreadId × Frame)

/-- Why the host waits. -/
inductive Wait where
  | call
  | sweep
  | close
  deriving DecidableEq

namespace Spine

/-- What makes the host wait, and where it waits.  The frame of a host function that has failed is
passed over. -/
def ground : Spine → Wait × Spine
  | [] => (.close, [])
  | [_] => (.close, [])
  | (_, f) :: (t, g) :: S =>
    if f.role = .fromHost then (.call, (t, g) :: S)
    else if f.role = .sweeping ∧ g.role = .host then (.sweep, (t, g) :: S)
    else if f.role = .handling ∧ g.role = .host then ground S
    else ground ((t, g) :: S)

/-- What makes the host wait, and where it waits, below a frame of the host on top. -/
def under : Spine → Wait × Spine
  | (_, .host ..) :: S => ground S
  | S => ground S

variable {S : Spine} {t : ThreadId}

/-- A frame that has nothing to do with it is passed over. -/
theorem ground_plain (plain : f.role.plain) : ground ((t, f) :: S) = ground S := by
  cases S with
  | nil => rfl
  | cons p S =>
    obtain ⟨u, g⟩ := p
    rw [ground, if_neg, if_neg, if_neg] <;> intro hr <;> simp [hr, Role.plain] at plain

/-- It does not matter what else a frame holds. -/
theorem ground_role (role : g.role = f.role) : ground ((t, g) :: S) = ground ((t, f) :: S) := by
  cases S with
  | nil => rfl
  | cons p S => rw [ground, ground, role]

/-- So is one that would, if the host is not below it. -/
theorem ground_apart {u : ThreadId} (call : f.role ≠ .fromHost) (apart : g.role ≠ .host) :
    ground ((t, f) :: (u, g) :: S) = ground ((u, g) :: S) := by
  rw [ground, if_neg call, if_neg fun h => apart h.2, if_neg fun h => apart h.2]

theorem under_of_ne (h : f.role ≠ .host) : under ((t, f) :: S) = ground ((t, f) :: S) := by
  cases f with
  | host => exact absurd rfl h
  | _ => rfl

theorem under_host (h : f.role = .host) : under ((t, f) :: S) = ground S := by
  cases f with
  | host => rfl
  | script => cases h
  | library info task => cases task <;> cases h
  | mark info m => cases m <;> cases h

theorem under_plain (plain : f.role.plain) : under ((t, f) :: S) = ground S := by
  rw [under_of_ne fun hr => by simp [hr, Role.plain] at plain, ground_plain plain]

/-- A frame that goes away does not make the host wait. -/
theorem under_passes {u : ThreadId} (passes : f.role.passes ∨ f.role = .host) (calls : g.role.calls) :
    under ((t, f) :: (u, g) :: S) = under ((u, g) :: S) := by
  have next : g.role ≠ .host := fun hr => by rw [hr] at calls; cases calls
  rw [under_of_ne next]
  obtain passes | host := passes
  · exact under_plain (by cases hr : f.role <;> simp_all [Role.passes, Role.plain])
  · exact under_host host

end Spine

namespace Machine

variable {m m' : Machine} {S : Spine} {c t : ThreadId}

/-! ## Coroutines that wait for each other -/

/-- A coroutine, if it is there. -/
def thread? (m : Machine) (c : ThreadId) : Option Thread := m.threads.getD c none

/-- What lies at the bottom of a coroutine: the host's frame, or the finalizers of a runtime that
is being closed, on the main thread. -/
def rootOf (m : Machine) (t : ThreadId) : Role :=
  if t = main then if m.closing then .collecting else .host else .coroutine

/-- The frames below a coroutine: those of the coroutines that wait for it, down to the main
thread. -/
inductive Waits (m : Machine) : ThreadId → Spine → Prop
  | main : Waits m main []
  | more {c r : ThreadId} {S : Spine} {co : Thread} {t : Thread} {f : Frame} {rest : List Frame} :
      c ≠ main → m.thread? c = some co → co.status = .active → co.resumer = some r →
      m.thread? r = some t → t.frames = f :: rest → f.role = .waiting →
      Pile (m.rootOf r) m.closing (f :: rest) → (∀ p ∈ (f :: rest).map (r, ·) ++ S, p.1 ≠ c) →
      Waits m r S → Waits m c ((f :: rest).map (r, ·) ++ S)

/-- Whether a coroutine can be left as it is, and resumed. -/
def Parked (frames : List Frame) : Prop :=
  Pile .coroutine true frames ∧ binding frames = false ∧ ∃ f rest, frames = f :: rest ∧ f.role.calls

/-- The frames of the running coroutine are a pile, and so are those of the coroutines that wait
for it; all others can be resumed or not at all. -/
structure Stacked (m : Machine) (S : Spine) : Prop where
  waits : m.Waits m.current S
  pile : Pile (m.rootOf m.current) m.closing m.frames
  parked : ∀ (c : ThreadId) (t : Thread), m.thread? c = some t → t.status = .suspended → Parked t.frames
  main : ∃ t : Thread, m.thread? Machine.main = some t ∧ t.status = .active

/-- All frames, with those below the running coroutine. -/
def spine (m : Machine) (S : Spine) : Spine := m.frames.map (m.current, ·) ++ S

/-- The frames are as they ought to be, and the one on top is right for what comes next. -/
def Ordered (m : Machine) (S : Spine) : Prop := m.Stacked S ∧ m.mode.Ready m.frames

theorem thread_of {co : Thread} (h : m.thread? c = some co) : m.thread c = co := by
  rw [thread, ← thread?, h]
  rfl

/-- A coroutine that is there may change. -/
theorem thread?_setThread {co : Thread} (h : (m.thread? c).isSome) (d : ThreadId) :
    (m.setThread c co).thread? d = if d = c then some co else m.thread? d := by
  have bound : c < m.threads.size := by
    by_contra out
    rw [thread?, Array.getD_eq_getD_getElem?, Array.getElem?_eq_none (Nat.le_of_not_lt out)] at h
    cases h
  rw [thread?, thread?, setThread]
  by_cases same : d = c
  · subst same
    simp [bound]
  · rw [if_neg same]
    simp [Array.getD_eq_getD_getElem?, Array.getElem?_setIfInBounds_ne (Ne.symm same)]

theorem Waits.fresh (h : m.Waits c S) : ∀ p ∈ S, p.1 ≠ c := by
  cases h with
  | main => simp
  | more _ _ _ _ _ _ _ _ apart _ => exact apart

/-- The coroutines that wait are there, and active. -/
theorem Waits.active (h : m.Waits c S) 
    (there : ∃ t : Thread, m.thread? Machine.main = some t ∧ t.status = .active) :
    (∃ t : Thread, m.thread? c = some t ∧ t.status = .active)
      ∧ ∀ p ∈ S, ∃ t : Thread, m.thread? p.1 = some t ∧ t.status = .active := by
  induction h with
  | main => exact ⟨there, by simp⟩
  | more _ here active _ _ _ _ _ _ _ ih =>
    refine ⟨⟨_, here, active⟩, fun p hp => ?_⟩
    obtain hp | hp := List.mem_append.mp hp
    · obtain ⟨f, -, rfl⟩ := List.mem_map.mp hp
      exact ih.1
    · exact ih.2 p hp

/-- What waits is not affected by other coroutines. -/
theorem Waits.congr (h : m.Waits c S) (closing : m'.closing = m.closing)
    (own : ∀ co, m.thread? c = some co → ∃ co', m'.thread? c = some co'
      ∧ co'.status = co.status ∧ co'.resumer = co.resumer)
    (same : ∀ p ∈ S, m'.thread? p.1 = m.thread? p.1) : m'.Waits c S := by
  induction h with
  | main => exact .main
  | @more c r S co t f rest other here active resumer there frames waits pile apart below ih =>
    obtain ⟨co', here', status, resumer'⟩ := own co here
    have next : m'.thread? r = m.thread? r := same (r, f) (by simp)
    refine .more other here' (status.trans active) (resumer'.trans resumer) (next.trans there) frames
      waits ?_ apart (ih (fun co' hco => ?_) fun p hp => same p (List.mem_append_right _ hp))
    · rwa [rootOf, closing]
    · exact ⟨co', next.trans hco, rfl, rfl⟩

/-! ## What has nothing to do with the stack -/

/-- What a machine is after objects were worked on: the stack is the same, and coroutines that were
not there before have not begun. -/
structure Beside (m m' : Machine) : Prop where
  frames : m'.frames = m.frames
  current : m'.current = m.current
  closing : m'.closing = m.closing
  stay : ∀ (c : ThreadId) (t : Thread), m.thread? c = some t → m'.thread? c = some t
  new : ∀ (c : ThreadId) (t : Thread), m'.thread? c = some t → m.thread? c = some t
    ∨ ∃ body, t.status = .fresh body

theorem Beside.refl (m : Machine) : m.Beside m := ⟨rfl, rfl, rfl, fun _ _ h => h, fun _ _ h => .inl h⟩

theorem Beside.trans {m'' : Machine} (h : m.Beside m') (h' : m'.Beside m'') : m.Beside m'' where
  frames := h'.frames.trans h.frames
  current := h'.current.trans h.current
  closing := h'.closing.trans h.closing
  stay := fun c t ht => h'.stay c t (h.stay c t ht)
  new := fun c t ht => by
    obtain ht | fresh := h'.new c t ht
    · exact h.new c t ht
    · exact .inr fresh

/-- Work on the other parts of a machine. -/
theorem Beside.of_same (frames : m'.frames = m.frames) (current : m'.current = m.current)
    (closing : m'.closing = m.closing) (threads : m'.threads = m.threads) : m.Beside m' := by
  have same : ∀ c, m'.thread? c = m.thread? c := fun c => by rw [thread?, threads, thread?]
  exact ⟨frames, current, closing, fun c _ h => (same c).trans h, fun c _ h => .inl ((same c).symm.trans h)⟩

theorem Beside.spine (h : m.Beside m') (S : Spine) : m'.spine S = m.spine S := by
  rw [Machine.spine, Machine.spine, h.frames, h.current]

theorem Stacked.beside (h : m.Stacked S) (hb : m.Beside m') : m'.Stacked S where
  waits := by
    obtain ⟨-, below⟩ := h.waits.active h.main
    rw [hb.current]
    refine h.waits.congr hb.closing (fun co hco => ⟨co, hb.stay _ _ hco, rfl, rfl⟩) fun p hp => ?_
    obtain ⟨t, ht, -⟩ := below p hp
    rw [ht, hb.stay _ _ ht]
  pile := by rw [rootOf, hb.closing, hb.current, hb.frames]; exact h.pile
  parked := fun c t ht suspended => by
    obtain ht | ⟨body, fresh⟩ := hb.new c t ht
    · exact h.parked c t ht suspended
    · rw [fresh] at suspended
      cases suspended
  main := h.main.imp fun t ht => ⟨hb.stay _ _ ht.1, ht.2⟩

/-- What a machine is after the frames of the running coroutine, and objects other than
coroutines, were worked on. -/
structure Aside (m n : Machine) : Prop where
  current : n.current = m.current
  closing : n.closing = m.closing
  threads : n.threads = m.threads

theorem Aside.trans {n n' : Machine} (h : m.Aside n) (h' : n.Aside n') : m.Aside n' :=
  ⟨h'.current.trans h.current, h'.closing.trans h.closing, h'.threads.trans h.threads⟩

/-- The frames of the running coroutine may change. -/
theorem Stacked.aside {n : Machine} (h : m.Stacked S) (aside : m.Aside n)
    (pile : Pile (m.rootOf m.current) m.closing n.frames) : n.Stacked S := by
  have same : ∀ d, n.thread? d = m.thread? d := fun d => by rw [thread?, aside.threads, thread?]
  refine ⟨?_, ?_, fun d t ht => h.parked d t ((same d).symm.trans ht), ?_⟩
  · rw [aside.current]
    exact h.waits.congr aside.closing (fun co hco => ⟨co, (same _).trans hco, rfl, rfl⟩)
      fun p _ => same p.1
  · rwa [rootOf, aside.current, aside.closing]
  · obtain ⟨t, ht, active⟩ := h.main
    exact ⟨t, (same _).trans ht, active⟩

/-! ## Leaving a coroutine -/

/-- A coroutine that is left gives way to the one that waits for it. -/
theorem Stacked.leave (h : m.Stacked S) (other : m.current ≠ Machine.main) (status : ThreadStatus)
    (frames : List Frame) (parked : status = .suspended → Parked frames) :
    ∃ r f rest S', S = (f :: rest).map (r, ·) ++ S' ∧ f.role = .waiting
      ∧ (m.leaveCoroutine status frames).frames = f :: rest
      ∧ (m.leaveCoroutine status frames).current = r
      ∧ (m.leaveCoroutine status frames).closing = m.closing
      ∧ (m.leaveCoroutine status frames).mode = m.mode
      ∧ (m.leaveCoroutine status frames).Stacked S' := by
  have waits := h.waits
  generalize hc : m.current = c at waits other
  cases waits with
  | main => exact absurd rfl other
  | @more _ r S' co t f rest _ here active resumer there hf waiting pile apart below =>
    obtain ⟨⟨t', there', awake⟩, -⟩ := below.active h.main
    obtain rfl : t = t' := Option.some.inj (there.symm.trans there')
    have ne : r ≠ c := apart (r, f) (by simp)
    have left : ∀ d, (m.setThread c ⟨status, frames, none⟩).thread? d
        = if d = c then some ⟨status, frames, none⟩ else m.thread? d :=
      thread?_setThread (by rw [here]; rfl)
    have back : (m.setThread c ⟨status, frames, none⟩).thread? r = some t := by
      rw [left, if_neg ne, there]
    have run : m.leaveCoroutine status frames
        = { (m.setThread c ⟨status, frames, none⟩).setThread r { t with frames := [] } with
          current := r, frames := f :: rest } := by
      unfold leaveCoroutine
      dsimp only
      rw [hc, thread_of here, resumer, Option.getD_some, thread_of back, hf]
    have all : ∀ d, (m.leaveCoroutine status frames).thread? d
        = if d = r then some { t with frames := [] }
          else if d = c then some ⟨status, frames, none⟩ else m.thread? d := by
      intro d
      rw [run, ← left d]
      exact thread?_setThread (by rw [back]; rfl) d
    have same : ∀ p ∈ S', (m.leaveCoroutine status frames).thread? p.1 = m.thread? p.1 := by
      intro p hp
      rw [all, if_neg (below.fresh p hp), if_neg (apart p (List.mem_append_right _ hp))]
    have closing : (m.leaveCoroutine status frames).closing = m.closing := by rw [run]; rfl
    have root : (m.leaveCoroutine status frames).rootOf r = m.rootOf r := by
      rw [rootOf, closing, rootOf]
    refine ⟨r, f, rest, S', rfl, waiting, by rw [run], by rw [run], closing, by rw [run]; rfl,
      ⟨?_, ?_, ?_, ?_⟩⟩
    · have current : (m.leaveCoroutine status frames).current = r := by rw [run]
      rw [current]
      refine below.congr closing (fun co' hco => ?_) same
      obtain rfl : t = co' := Option.some.inj (there.symm.trans hco)
      exact ⟨{ t with frames := [] }, by rw [all, if_pos rfl], rfl, rfl⟩
    · rw [closing]
      rw [← root] at pile
      rw [run] at pile ⊢
      exact pile
    · intro d u hd suspended
      rw [all] at hd
      split at hd
      · obtain rfl := Option.some.inj hd
        rw [awake] at suspended
        cases suspended
      · split at hd
        · obtain rfl := Option.some.inj hd
          exact parked suspended
        · exact h.parked d u hd suspended
    · obtain ⟨u, hu, awake'⟩ := h.main
      rw [all, if_neg (Ne.symm other)]
      by_cases onMain : Machine.main = r
      · exact ⟨_, if_pos onMain, awake⟩
      · exact ⟨u, by rw [if_neg onMain, hu], awake'⟩

end Machine


/-! ## Errors -/

theorem Frame.role_of_catches (h : f.catches = true) :
    f.role = .library ∨ f.role = .fromHost ∨ f.role = .finalizer := by
  cases f with
  | script | host => cases h
  | library info task => cases task <;> first | exact .inl rfl | cases h
  | mark info m => cases m <;> first | exact .inr (.inl rfl) | exact .inr (.inr rfl) | cases h

theorem Frame.catches_of_role (h : f.role = .fromHost ∨ f.role = .finalizer) : f.catches = true := by
  cases f with
  | script | host => simp [Frame.role] at h
  | library info task => cases task <;> simp [Frame.role, Task.role] at h
  | mark info m => cases m <;> first | rfl | simp [Frame.role, Mark.role] at h

/-- A coroutine in which the host does not wait, nor finalizers are called, is passed over. -/
theorem Pile.under_eq (h : Pile .coroutine quiet frames)
    (loose : ∀ f ∈ frames, f.role ≠ .fromHost ∧ f.role ≠ .finalizer)
    (top : ∀ f rest, frames = f :: rest → ¬ f.role.collects) (c : ThreadId) (S : Spine) :
    Spine.under (frames.map (c, ·) ++ S) = Spine.ground S := by
  induction h with
  | @root f bottom =>
    exact Spine.under_plain (by rw [bottom]; rfl)
  | @on f g rest lies firm handles quiets below ih =>
    rw [List.forall_mem_cons] at loose
    have collects := top f _ rfl
    have next : ¬ g.role.collects := by
      intro hg
      have lies := lies
      cases hr : g.role <;> simp_all [Role.collects, Role.on]
    have ih := ih loose.2 fun f' rest' eq => by
      obtain ⟨rfl, -⟩ := List.cons.inj eq
      exact next
    rw [← ih]
    change Spine.under ((c, f) :: (c, g) :: (rest.map (c, ·) ++ S))
      = Spine.under ((c, g) :: (rest.map (c, ·) ++ S))
    by_cases hg : g.role = .host
    · have handling : f.role = .handling := by
        rw [hg] at lies
        cases hr : f.role <;> simp_all [Role.on, Role.collects]
      rw [Spine.under_of_ne (by simp [handling]), Spine.under_host hg, Spine.ground, handling, hg]
      simp
    · rw [Spine.under_of_ne hg]
      by_cases hf : f.role = .host
      · rw [Spine.under_host hf]
      · rw [Spine.under_of_ne hf, Spine.ground_apart loose.1.1 hg]

namespace Machine

variable {m : Machine} {S : Spine}

theorem rootOf_cases (m : Machine) (t : ThreadId) :
    m.rootOf t = .host ∨ m.rootOf t = .collecting ∨ m.rootOf t = .coroutine := by
  unfold rootOf
  split
  · split
    · exact .inr (.inl rfl)
    · exact .inl rfl
  · exact .inr (.inr rfl)

theorem rootOf_passes (m : Machine) (t : ThreadId) : (m.rootOf t).passes = false := by
  obtain h | h | h := m.rootOf_cases t <;> rw [h] <;> rfl

/-- When a frame goes away, what it lies on can go on. -/
theorem Stacked.pop (h : m.Stacked S) (hf : m.frames = f :: rest)
    (passes : f.role.passes ∨ f.role = .host ∧ rest ≠ []) :
    (∃ g rest', rest = g :: rest' ∧ g.role.calls) ∧ Pile (m.rootOf m.current) m.closing rest
      ∧ Spine.under (rest.map (m.current, ·) ++ S) = Spine.under (m.spine S) := by
  have pile := h.pile
  rw [hf] at pile
  have below : ∃ g rest', rest = g :: rest' ∧ g.role.calls := by
    obtain passes | ⟨host, deep⟩ := passes
    · exact pile.caller passes (m.rootOf_passes _)
    · cases pile with
      | root => exact absurd rfl deep
      | @on _ g rest' lies _ _ _ _ =>
        refine ⟨g, rest', rfl, ?_⟩
        rw [host] at lies
        cases hg : g.role <;> simp_all [Role.on, Role.calls]
  obtain ⟨g, rest', rfl, calls⟩ := below
  refine ⟨⟨g, rest', rfl, calls⟩, pile.tail, ?_⟩
  rw [spine, hf]
  exact (Spine.under_passes (passes.imp_right And.left) calls).symm

/-- What a caller that goes on is handed. -/
theorem ready_deliver {g : Frame} {rest : List Frame} (calls : g.role.calls) (values : List Value) :
    Mode.Ready (.deliver values) (g :: rest) := by
  constructor <;> intro hr <;> rw [hr] at calls <;> cases calls

/-- The frames are as they ought to be, and the host waits there. -/
def Over (m : Machine) (w : Wait × Spine) : Prop :=
  ∃ S, m.Ordered S ∧ Spine.under (m.spine S) = w

theorem Stacked.over {n : Machine} {w : Wait × Spine} (h : m.Stacked S) (aside : m.Aside n)
    (pile : Pile (m.rootOf m.current) m.closing n.frames) (ready : n.mode.Ready n.frames)
    (under : Spine.under (n.frames.map (m.current, ·) ++ S) = w) : n.Over w :=
  ⟨S, ⟨h.aside aside pile, ready⟩, by rw [spine, aside.current, under]⟩

/-- An error leaves the place at which the host waits alone. -/
theorem Stacked.raise (h : m.Stacked S) (failing : Failing m.frames) (depth : Nat) (error : Value) :
    (m.raiseAt depth error).Over (Spine.under (m.spine S)) := by
  obtain ⟨f, rest, hf⟩ := h.pile.nonempty
  have failing' := failing
  rw [hf] at failing'
  obtain ⟨idle, apart, deep⟩ := failing'
  have root := m.rootOf_cases m.current
  have unwound : (m.unwind error).Over (Spine.under (m.spine S)) :=
    h.over ⟨rfl, rfl, rfl⟩ h.pile failing rfl
  unfold raiseAt
  split
  · rename_i catcher found
    split
    · refine ⟨S, ⟨h.aside ⟨rfl, rfl, rfl⟩ ?_, rfl⟩, ?_⟩
      · have pile := h.pile
        rw [hf] at pile ⊢
        refine pile.push ?_ (fun _ => rfl) (fun _ bare => ?_) fun _ => by simp [Frame.role, Mark.role, Role.collects]
        · change Role.on .handling f.role
          cases hr : f.role <;> simp_all [Role.on, Role.collects]
        · subst bare
          rw [hf] at found
          have catches := List.find?_some found
          obtain rfl : catcher = f := by simpa using List.mem_of_find?_eq_some found
          cases pile with
          | root bottom =>
            rw [← bottom] at root
            obtain hr | hr | hr := Frame.role_of_catches catches <;> rw [hr] at root <;> simp at root
      · change Spine.under ((m.current, .mark _ .handling) :: m.spine S) = _
        rw [Spine.under_of_ne (by simp [Frame.role, Mark.role]), spine, hf]
        change Spine.ground ((_, _) :: (_, f) :: (rest.map (m.current, ·) ++ S))
          = Spine.under ((_, f) :: (rest.map (m.current, ·) ++ S))
        by_cases host : f.role = .host
        · rw [Spine.under_host host, Spine.ground, host]
          simp [Frame.role, Mark.role]
        · rw [Spine.under_of_ne host, Spine.ground_apart (by simp [Frame.role, Mark.role]) host]
    · exact unwound
  · rename_i uncaught
    split
    · rename_i reported
      have other : m.current ≠ Machine.main := by
        unfold isReported at reported
        rw [Bool.and_eq_true] at reported
        exact bne_iff_ne.mp reported.1
      obtain ⟨r, g, rest', S', rfl, waits, frames, current, closing, -, stacked⟩ :=
        h.leave other .dead m.frames fun h => by cases h
      obtain ⟨⟨g', rest'', rfl, calls⟩, pile', under⟩ :=
        stacked.pop frames (.inl (by rw [waits]; rfl))
      have popped : (m.leaveCoroutine .dead m.frames).pop.deliver [.bool false, error]
          = { m.leaveCoroutine .dead m.frames with
            frames := g' :: rest'', mode := .deliver [.bool false, error] } := by
        rw [Machine.pop, frames]
        rfl
      rw [popped]
      refine ⟨S', ⟨stacked.aside ⟨rfl, rfl, rfl⟩ pile', ready_deliver calls _⟩, under.trans ?_⟩
      have pile := h.pile
      rw [rootOf, if_neg other] at pile
      rw [spine, frames, current, spine, pile.under_eq (fun f hf => ?_) (fun f' rest' eq => ?_)]
      · exact Spine.under_of_ne (by simp [waits])
      · have free := List.find?_eq_none.mp uncaught f hf
        constructor <;> intro hr <;> exact free (Frame.catches_of_role (by simp [hr]))
      · rw [hf] at eq
        obtain ⟨rfl, -⟩ := List.cons.inj eq
        exact apart
    · exact unwound

end Machine

end ScriptBridge.Script
