import ScriptBridge.Proofs.Keeps
import ScriptBridge.Session.Globals

/-!
# ScriptBridge.Proofs.Transfers

Transfers to the runtime, as they change what is held of a session.

Main facts:

* `keeps_pack` — a value that is made ready has a cell that is held on its behalf;
* `packAll_carries` — of a list of values each has a transfer, in the same order;
* `keeps_packAll` — a batch that fails half-way leaves no cell behind;
* `keeps_repin`, `keeps_build` — a host function that the runtime gets has a pin of its own, which
  is an owner more of its callable.
-/

namespace ScriptBridge

namespace Session

variable {id : SessionId} {o : Bool} {s : Session} {e : Env} {H : Multiset Holding}

/-! ## The runtime -/

theorem keeps_withMachine {α : Type} (f : Script.Machine → α × Script.Machine) :
    Keeps (Books id o) 0 (withMachine f) fun _ => 0 :=
  fun _ _ _ ⟨hid, ho, hs⟩ => ⟨hid, ho, hs.withMachine _⟩

theorem keeps_modifyMachine (f : Script.Machine → Script.Machine) :
    Keeps (Books id o) 0 (modifyMachine f) fun _ => 0 := keeps_withMachine _

theorem thread_run (s : Session) :
    thread.run.run s = (s.active.elim (.error Failure.sessionClosed) .ok, s) := by
  rw [thread, try_get_bind]
  cases s.active <;> rfl

/-- A thread to run on is there only while the session is open. -/
theorem keeps_thread {α : Type} {pre err : Multiset Holding} {ok : α → Multiset Holding}
    {f : Script.ThreadId → Attempt α} (herr : pre = err)
    (h : o = true → ∀ t, Keeps (Books id o) pre (f t).run (onResult ok err)) :
    Keeps (Books id o) pre (thread >>= f).run (onResult ok err) := by
  subst herr
  intro s
  have looks : KeepsAt (Books id o) s pre thread.run (onResult (fun _ => pre) pre) := by
    intro e H hs
    rw [thread_run]
    cases s.active <;> exact hs
  refine looks.tryBind fun t ht => ?_
  rw [thread_run] at ht ⊢
  intro e H hs
  have live := hs.2.2.awake
  cases ha : s.active with
  | none =>
    rw [ha] at ht
    cases ht
  | some u =>
    rw [ha, hs.2.1] at live
    exact h live.symm t s e H hs

theorem reserve_run (t : Script.ThreadId) (count : Nat) (s : Session) :
    (reserve t count).run.run s
      = ((if (s.machine.reserve t count).1 then .ok () else
          .error (.runtime (.stackFull count)) : Except Failure Unit),
        { s with machine := (s.machine.reserve t count).2 }) := by
  have look : (reserve t count).run.run s
      = (if !(s.machine.reserve t count).1 then
          (throw (.runtime (.stackFull count)) : Attempt Unit) else pure ()).run.run
        { s with machine := (s.machine.reserve t count).2 } := rfl
  rw [look]
  cases (s.machine.reserve t count).1 <;> rfl

theorem keeps_reserve (t : Script.ThreadId) (count : Nat) :
    Keeps (Books id o) 0 (reserve t count).run (onResult (fun _ => 0) 0) := by
  intro s e H hs
  have next : Books id o e (0 + H) { s with machine := (s.machine.reserve t count).2 } :=
    ⟨hs.1, hs.2.1, hs.2.2.withMachine _⟩
  rw [reserve_run]
  cases (s.machine.reserve t count).1 <;> exact next

/-! ## To the runtime -/

/-- The debt of a value that was made ready: its pin is an owner more of a callable. -/
def packDebt : Value → Multiset Holding
  | .callable f => {.unpaid f}
  | _ => 0

/-- The debts of values that were made ready. -/
def packDebts (vs : List Value) : Multiset Holding := (vs.map packDebt).sum

@[simp] theorem packDebts_nil : packDebts [] = 0 := rfl

@[simp] theorem packDebts_cons (v : Value) (vs : List Value) :
    packDebts (v :: vs) = packDebt v + packDebts vs := by simp [packDebts]

@[simp] theorem packDebts_append (vs us : List Value) :
    packDebts (vs ++ us) = packDebts vs + packDebts us := by simp [packDebts]

/-- What a value that is held, or pinned, is worth. -/
theorem Sound.worthy {f : CallableId} (hs : s.Sound e H)
    (hf : f ∈ s.pinned + tally Holding.callables H) : f ∈ e.worth := by
  rw [hs.worth] at hf
  obtain hf | hf := Multiset.mem_add.mp hf
  · exact hf
  · exact hs.payable f hf

/-- A new cell without pin or anchor, on behalf of the value it carries. -/
theorem keepsAt_send {c : Cell} {v : Value} (plain : TakesOver id c 0)
    (conveys : ∀ s : Session, s.Conveys c v) :
    KeepsAt (Books id o) s 0 (store c) fun cell => {.out id cell v} := by
  rintro e H ⟨rfl, ho, hs⟩
  refine ⟨rfl, ho, hs.store plain (fun _ => ?_) (Or.inr ⟨v, rfl⟩)⟩
  exact ⟨c, cell?_stored_self c, conveys _⟩

/-- A value that is made ready has a cell that is held on its behalf. -/
theorem keeps_pack (v : Value) :
    Keeps (Books id true) v.holdings (pack v).run
      (onResult (fun out => v.holdings + (outHolding id out v + packDebt v)) v.holdings) := by
  intro s e H hs
  cases v with
  | nil => exact hs
  | number x => exact keepsAt_send (c := .number x) (v := .number x) rfl (fun _ => rfl) e H hs
  | boolean b => exact keepsAt_send (c := .boolean b) (v := .boolean b) rfl (fun _ => rfl) e H hs
  | string text =>
    exact keepsAt_send (c := .string text.toUTF8) (v := .string text) rfl (fun _ => rfl) e H hs
  | reference r =>
    have run : (pack (.reference r)).run.run s
        = (if r.session = s.id then pure (.lent r.cell)
            else throw (.wrongSession s.id r.session) : Attempt Outbound).run.run s := rfl
    rw [run]
    split <;> exact hs
  | function r =>
    have run : (pack (.function r)).run.run s
        = (if r.session = s.id then pure (.lent r.cell)
            else throw (.wrongSession s.id r.session) : Attempt Outbound).run.run s := rfl
    rw [run]
    split <;> exact hs
  | callable f =>
    obtain ⟨rfl, ho, sound⟩ := hs
    have worthy : f ∈ e.worth := sound.worthy <| Multiset.mem_add.mpr <| Or.inr <| by
      simp [Value.holdings, Holding.callables]
    have pinned := sound.pin (v := none) ho worthy (by simp)
    refine ⟨rfl, ho, ?_⟩
    have made := pinned.store (c := .pinned s.pins.next) (h := .out s.id s.nextCell (.callable f))
      ⟨_, rfl⟩ (fun _ => ⟨_, cell?_stored_self _, s.pins.next, rfl, fun _ => ?_⟩) (Or.inr ⟨_, rfl⟩)
    · have regroup : {.out s.id s.nextCell (.callable f)}
            + ({.unpaid f} + ((Value.callable f).holdings + H))
          = (Value.callable f).holdings
            + ({.out s.id s.nextCell (.callable f)} + {.unpaid f}) + H := by ac_rfl
      rw [regroup] at made
      exact made
    · change (s.pins.pin f).2.get? s.pins.next = some f
      rw [Registry.get?_pin, if_pos rfl]

/-- Whether a transfer is one of a value: nil has no cell, a reference lends its own, and any
other value has one made for it. -/
def Carries (id : SessionId) : Outbound → Value → Prop
  | .nil, .nil => True
  | .owned _, .number _ | .owned _, .boolean _ | .owned _, .string _ | .owned _, .callable _ => True
  | .lent cell, .reference r | .lent cell, .function r => r.session = id ∧ r.cell = cell
  | _, _ => False

theorem pack_carries {v : Value} {out : Outbound} (h : ((pack v).run.run s).1 = .ok out) :
    Carries s.id out v := by
  cases v with
  | reference r | function r =>
    have run : (borrow r).run.run s
        = (if r.session = s.id then pure (.lent r.cell)
            else throw (.wrongSession s.id r.session) : Attempt Outbound).run.run s := rfl
    change ((borrow r).run.run s).1 = .ok out at h
    rw [run] at h
    split at h
    · cases h
      exact ⟨‹_›, rfl⟩
    · cases h
  | _ =>
    cases h
    trivial

theorem id_pack (v : Value) : ((pack v).run.run s).2.id = s.id := by
  cases v with
  | reference r | function r =>
    have run : (borrow r).run.run s
        = (if r.session = s.id then pure (.lent r.cell)
            else throw (.wrongSession s.id r.session) : Attempt Outbound).run.run s := rfl
    change ((borrow r).run.run s).2.id = s.id
    rw [run]
    split <;> rfl
  | _ => rfl

theorem packFrom_carries {done : List Outbound} {us : List Value} {index : Nat} {vs : List Value}
    {outs : List Outbound} (hd : List.Forall₂ (Carries s.id) done.reverse us)
    (h : ((packFrom index done vs).run.run s).1 = .ok outs) :
    List.Forall₂ (Carries s.id) outs (us ++ vs) := by
  induction vs generalizing index done us s with
  | nil =>
    obtain rfl := Except.ok.inj h
    rwa [List.append_nil]
  | cons v vs ih =>
    rw [packFrom] at h
    obtain ⟨out, hout, rest⟩ := ok_of_bind h
    obtain ⟨hpack, hstate⟩ := run_of_tryCatch (fun f s => ⟨_, rfl⟩) hout
    rw [hstate] at rest
    have carries := pack_carries hpack
    have next : List.Forall₂ (Carries s.id) (out :: done).reverse (us ++ [v]) := by
      rw [List.reverse_cons]
      exact List.rel_append hd (.cons carries .nil)
    rw [← id_pack v] at next
    have all := ih next rest
    rwa [List.append_assoc, id_pack] at all

/-- Each of the values has its own transfer, in the same order. -/
theorem packAll_carries {vs : List Value} {outs : List Outbound}
    (h : ((packAll vs).run.run s).1 = .ok outs) : List.Forall₂ (Carries s.id) outs vs :=
  @packFrom_carries s [] [] 0 vs outs .nil h

/-- The cell of a transfer that did not come about is released; the callable that it pinned has an
owner less, and was not yet counted as having one more. -/
theorem keeps_free_out (cell : CellId) (v : Value) :
    Keeps (Books id true) ({.out id cell v} + packDebt v) (free cell) fun _ => 0 := by
  rintro s e H ⟨rfl, ho, hs⟩
  rw [add_assoc] at hs
  obtain ⟨c, hc, conveys⟩ := hs.backs (.out s.id cell v) (by simp) rfl
  have freed := (hs.plain).free hc
  rw [free_run hc]
  refine ⟨rfl, ho, ?_⟩
  rw [zero_add]
  cases v with
  | callable f =>
    obtain ⟨handle, rfl, live⟩ := conveys
    rw [show (Cell.pinned handle).handle? = some handle from rfl, Option.bind_some, live ho] at freed
    exact freed.cancel
  | number x =>
    obtain rfl := conveys
    simpa [Cell.handle?, packDebt] using freed
  | boolean b =>
    obtain rfl := conveys
    simpa [Cell.handle?, packDebt] using freed
  | string text =>
    obtain rfl := conveys
    simpa [Cell.handle?, packDebt] using freed
  | _ => exact conveys.elim

/-- A transfer without a cell of its own holds and owes nothing. -/
theorem carries_light {out : Outbound} {v : Value} (h : Carries id out v)
    (light : out.owned? = none) : outHolding id out v + packDebt v = 0 := by
  cases out <;> cases v <;> simp_all [Carries, outHolding, packDebt, Outbound.owned?]

theorem keeps_abandon {outs : List Outbound} {vs : List Value}
    (h : List.Forall₂ (Carries id) outs vs) :
    Keeps (Books id true) (outHoldings id outs vs + packDebts vs) (abandon outs) fun _ => 0 := by
  induction h with
  | nil => exact Keeps.pure _ rfl
  | @cons out v outs vs head rest ih =>
    cases out with
    | owned cell =>
      rw [abandon]
      refine Keeps.bind
        (((keeps_free_out cell v).frame
          (outHoldings id outs vs + packDebts vs)).congr ?_ fun _ => rfl) fun _ => ?_
      · rw [outHoldings_cons, packDebts_cons, outHolding]
        ac_rfl
      · rw [zero_add]
        exact ih
    | nil | lent cell =>
      refine ih.congr ?_ fun _ => rfl
      rw [outHoldings_cons, packDebts_cons, add_add_add_comm, carries_light head rfl, zero_add]

/-- What is held and owed when values were made ready. -/
def sent (id : SessionId) (outs : List Outbound) (vs : List Value) : Multiset Holding :=
  outHoldings id outs vs + packDebts vs

theorem sent_snoc {outs : List Outbound} {vs : List Value} (out : Outbound) (v : Value)
    (h : List.Forall₂ (Carries id) outs vs) :
    sent id (outs ++ [out]) (vs ++ [v]) = sent id outs vs + (outHolding id out v + packDebt v) := by
  rw [sent, sent, outHoldings_append h.length_eq, packDebts_append, outHoldings_cons,
    packDebts_cons]
  simp only [outHoldings_nil, packDebts_nil, add_zero]
  ac_rfl

/-- The rest of a batch is made ready, or none of it. -/
theorem keeps_packFrom {done : List Outbound} {us : List Value}
    (h : List.Forall₂ (Carries id) done.reverse us) (index : Nat) (vs : List Value) :
    Keeps (Books id true) (valueHoldings (us ++ vs) + sent id done.reverse us)
      (packFrom index done vs).run
      (onResult (fun outs => valueHoldings (us ++ vs) + sent id outs (us ++ vs))
        (valueHoldings (us ++ vs))) := by
  induction vs generalizing index done us with
  | nil => exact Keeps.tryPure _ (by rw [List.append_nil])
  | cons v vs ih =>
    intro s
    refine keepsAt_of_books fun hid _ => ?_
    rw [packFrom]
    refine KeepsAt.tryBind (m := fun out =>
      valueHoldings (us ++ v :: vs) + sent id (out :: done).reverse (us ++ [v])) ?_ ?_
    · refine KeepsAt.tryCatch (m := valueHoldings (us ++ v :: vs) + sent id done.reverse us)
        ?_ fun failure => ?_
      · refine (((keeps_pack v) s).frame
          (valueHoldings us + valueHoldings vs + sent id done.reverse us)).congr ?_ fun r => ?_
        · rw [valueHoldings_append, valueHoldings_cons]
          ac_rfl
        · cases r with
          | ok out =>
            simp only [onResult_ok, List.reverse_cons, sent_snoc out v h, valueHoldings_append,
              valueHoldings_cons]
            ac_rfl
          | error f =>
            simp only [onResult_error, valueHoldings_append, valueHoldings_cons]
            ac_rfl
      · have gone := (keeps_abandon h).frame (valueHoldings (us ++ v :: vs))
        refine Keeps.tryBind ((gone.congr (add_comm _ _) fun _ => zero_add _).lift _)
          (fun _ => Keeps.throw _ rfl) _
    · intro out hout
      have carries := pack_carries (run_of_tryCatch (fun f s => ⟨_, rfl⟩) hout).1
      rw [hid] at carries
      have next : List.Forall₂ (Carries id) (out :: done).reverse (us ++ [v]) := by
        rw [List.reverse_cons]
        exact List.rel_append h (.cons carries .nil)
      have rest := ih next (index + 1)
      rw [List.append_assoc] at rest
      exact rest _

/-- A list of values is made ready, or none of it; the values stay with their holder. -/
theorem keeps_packAll (vs : List Value) :
    Keeps (Books id true) (valueHoldings vs) (packAll vs).run
      (onResult (fun outs => valueHoldings vs + sent id outs vs) (valueHoldings vs)) :=
  (@keeps_packFrom id [] [] .nil 0 vs).congr (by simp [sent]) fun _ => rfl

/-! ## On to the host's frame -/

/-- What is held and owed when the callable of a transfer has a second pin. -/
def pinHolding (id : SessionId) (v : Value) : Option (Handle × CallableId) → Multiset Holding
  | some (handle, f) => {.pin id handle (some v)} + {.unpaid f}
  | none => 0

/-- What a value on its way and its transfer hold. -/
def carryHoldings (id : SessionId) (out : Outbound) (v : Value) : Multiset Holding :=
  outHolding id out v + v.holdings

/-- A cell that pins a callable carries it. -/
theorem Sound.callable_of_pinned {out : Outbound} {v : Value} {handle : Handle} {f : CallableId}
    (hs : s.Sound e (carryHoldings s.id out v + H)) (carries : Carries s.id out v)
    (hc : out.cell?.bind s.cell? = some (.pinned handle)) (ho : s.isOpen)
    (hf : s.pins.get? handle = some f) : v = .callable f := by
  cases out with
  | nil => cases hc
  | owned cell =>
    obtain ⟨c, hc', conveys⟩ := hs.backs (.out s.id cell v) (by simp [carryHoldings, outHolding]) rfl
    cases hc.symm.trans hc'
    cases v with
    | callable g =>
      obtain ⟨other, eq, pinned⟩ := conveys
      cases eq
      rw [Option.some.inj (hf.symm.trans (pinned ho))]
    | number | boolean | string => cases conveys
    | _ => exact conveys.elim
  | lent cell =>
    have lent : ∀ r : Ref, .ref r ∈ v.holdings → r.session = s.id ∧ r.cell = cell → False := by
      rintro r mem ⟨here, rfl⟩
      obtain ⟨⟨c, a, hc', ha⟩, -⟩ := hs.backs (.ref r) (by simp [carryHoldings, mem]) here
      cases hc.symm.trans hc'
      cases ha
    cases v with
    | reference r | function r => exact (lent r (by simp [Value.holdings]) carries).elim
    | _ => exact carries.elim

/-- The callable that is on its way is pinned for the function that the runtime will get. -/
theorem keeps_repin {out : Outbound} {v : Value} (carries : Carries id out v) :
    Keeps (Books id o) (carryHoldings id out v) (repin out).run
      (onResult (fun r => carryHoldings id out v + pinHolding id v r) (carryHoldings id out v)) := by
  intro s
  refine KeepsAt.tryGet ?_
  cases hc : out.cell?.bind s.cell? with
  | none => exact KeepsAt.tryPure _ (add_zero _).symm
  | some c =>
    cases c with
    | pinned handle =>
      cases hf : s.pins.get? handle with
      | none =>
        simp only [hf]
        exact KeepsAt.throw _ rfl
      | some f =>
        have twice : s.pins.repin handle = some (s.pins.pin f) := by
          rw [Registry.repin, hf, Option.map_some]
        simp only [twice, hf]
        rintro e H ⟨rfl, ho, hs⟩
        have mine : f ∈ s.pinned := Multiset.mem_map.mpr ⟨(handle.number, f), mem_entries.mpr hf, rfl⟩
        have pinned := hs.pin (v := some v) (hs.isOpen_of_live hf) (hs.worthy (Multiset.mem_add.mpr (Or.inl mine)))
          fun open' u hu => by
            rw [← Option.mem_some.mp hu]
            exact hs.callable_of_pinned carries hc open' hf
        rw [← add_assoc, ← add_assoc, add_comm _ (carryHoldings s.id out v)] at pinned
        exact ⟨rfl, ho, pinned⟩
    | _ => exact KeepsAt.tryPure _ (add_zero _).symm

theorem keeps_build (t : Script.ThreadId) (handle : Handle) (v : Option Value) :
    Keeps (Books id o) {.pin id handle v} (build t handle) fun _ => 0 := by
  refine (((keeps_withMachine _).frame {.pin id handle v}).congr (zero_add _).symm
    fun _ => zero_add _).bind fun owner => ?_
  rintro s e H ⟨rfl, ho, hs⟩
  refine ⟨rfl, ho, ?_⟩
  rw [zero_add]
  exact hs.build owner

theorem keeps_place (t : Script.ThreadId) (out : Outbound) :
    Keeps (Books id o) 0 (place t out) fun _ => 0 :=
  Keeps.get_bind fun s => keeps_modifyMachine _ s

end Session

end ScriptBridge
