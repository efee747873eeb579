import ScriptBridge.Proofs.References

/-!
# ScriptBridge.Proofs.Passage

What becomes of values that pass between the host and an open session.  `Session.Becomes` says
what a host value is for the runtime, and `Session.Reads` what a script value is for the host.
What was there before stays as it was: `Session.Retains`.

Main facts:

* `Session.pushAll_becomes` — values that are made ready arrive on the host's frame, in order;
* `Session.unpackAll_reads` — values that are collected from there are read, in order.
-/

namespace ScriptBridge

/-- What is in the second of two lists that match has a match in the first. -/
theorem exists_of_mem {α β : Type} {R : α → β → Prop} {l : List α} {u : List β}
    (h : List.Forall₂ R l u) {b : β} (hb : b ∈ u) : ∃ a ∈ l, R a b := by
  obtain ⟨i, hi, rfl⟩ := List.mem_iff_getElem.mp hb
  have bound : i < l.length := h.length_eq ▸ hi
  exact ⟨l[i], List.getElem_mem bound, h.get bound hi⟩

/-- Two lists match if each matches a third one between them. -/
theorem forall₂_comp {α β γ : Type} {R : α → β → Prop} {S : β → γ → Prop} {T : α → γ → Prop}
    {l : List α} {m : List β} {r : List γ} (h : List.Forall₂ R l m) (h' : List.Forall₂ S m r)
    (both : ∀ a ∈ l, ∀ b c, R a b → S b c → T a c) : List.Forall₂ T l r := by
  induction h generalizing r with
  | nil =>
    cases h'
    exact .nil
  | cons head _ ih =>
    rw [List.forall_mem_cons] at both
    cases h' with
    | cons head' rest' => exact .cons (both.1 _ _ head head') (ih rest' both.2)

namespace Session

/-! ## What stays -/

/-- What a later state of a session retains of an earlier one: the active thread, anchored cells
and anchors, the functions and userdata of the runtime with their handles, and the pins beyond a
number. -/
structure Retains (n : Nat) (s s' : Session) : Prop where
  id : s'.id = s.id
  active : s'.active = s.active
  anchored : ∀ k c, s.cell? k = some c → c.anchor?.isSome → s'.cell? k = some c
  anchors : ∀ a v, s.anchors.get? a = some v → s'.anchors.get? a = some v
  pins : ∀ h f, n < h.number → s.pins.get? h = some f → s'.pins.get? h = some f
  handles : ∀ o < s.machine.userdata.size, s'.handles.lookup o = s.handles.lookup o
  natives : s.machine.natives.size ≤ s'.machine.natives.size
    ∧ ∀ i < s.machine.natives.size, s'.machine.natives[i]? = s.machine.natives[i]?
  userdata : s.machine.userdata.size ≤ s'.machine.userdata.size
    ∧ ∀ o < s.machine.userdata.size, s'.machine.userdata[o]? = s.machine.userdata[o]?
  shared : s'.machine.handleMetatable = s.machine.handleMetatable

/-- Whether numbers that were not given out are not in use. -/
structure Orderly (s : Session) : Prop where
  fresh : ∀ c ∈ keys s.cells, c < s.nextCell
  issued : ∀ k ∈ keys s.pins.live, k ≤ s.pins.issued
  conserved : s.anchors.Conserved

variable {n : Nat} {s s' s'' : Session} {t : Script.ThreadId}

namespace Retains

theorem refl (n : Nat) (s : Session) : Retains n s s where
  id := rfl
  active := rfl
  anchored := fun _ _ h _ => h
  anchors := fun _ _ h => h
  pins := fun _ _ _ h => h
  handles := fun _ _ => rfl
  natives := ⟨Nat.le_refl _, fun _ _ => rfl⟩
  userdata := ⟨Nat.le_refl _, fun _ _ => rfl⟩
  shared := rfl

theorem trans (h : Retains n s s') (h' : Retains n s' s'') : Retains n s s'' where
  id := h'.id.trans h.id
  active := h'.active.trans h.active
  anchored := fun k c hc ha => h'.anchored k c (h.anchored k c hc ha) ha
  anchors := fun a v hv => h'.anchors a v (h.anchors a v hv)
  pins := fun k f hk hf => h'.pins k f hk (h.pins k f hk hf)
  handles := fun o ho =>
    (h'.handles o (Nat.lt_of_lt_of_le ho h.userdata.1)).trans (h.handles o ho)
  natives := ⟨Nat.le_trans h.natives.1 h'.natives.1, fun i hi =>
    (h'.natives.2 i (Nat.lt_of_lt_of_le hi h.natives.1)).trans (h.natives.2 i hi)⟩
  userdata := ⟨Nat.le_trans h.userdata.1 h'.userdata.1, fun o ho =>
    (h'.userdata.2 o (Nat.lt_of_lt_of_le ho h.userdata.1)).trans (h.userdata.2 o ho)⟩
  shared := h'.shared.trans h.shared

/-- Pins beyond a number are beyond a smaller one. -/
theorem mono {k : Nat} (h : Retains n s s') (le : n ≤ k) : Retains k s s' :=
  { h with pins := fun handle f hk hf => h.pins handle f (Nat.lt_of_le_of_lt le hk) hf }

/-- A reference goes on denoting what it does. -/
theorem object? (h : Retains n s s') {r : Ref} {v : Script.Value} (hv : s.object? r = some v) :
    s'.object? r = some v := by
  obtain ⟨a, ha, hv⟩ := Option.bind_eq_some_iff.mp hv
  obtain ⟨c, hc, ha⟩ := Option.bind_eq_some_iff.mp ha
  have still := h.anchored r.cell c hc (by rw [ha]; rfl)
  rw [Session.object?, slotOf, still, Option.bind_some, ha, Option.bind_some]
  exact h.anchors a v hv

/-- A reference goes on being what its cell says. -/
theorem refTo (h : Retains n s s') {k : CellId} {c : Cell} (hc : s.cell? k = some c)
    (ha : c.anchor?.isSome) : s'.refTo k = s.refTo k :=
  refTo_congr h.id ((h.anchored k c hc ha).trans hc.symm)

end Retains

/-- What a later state retains when nothing is let go of. -/
structure Grows (s s' : Session) : Prop extends Retains 0 s s' where
  cells : ∀ k c, s.cell? k = some c → s'.cell? k = some c
  next : s.nextCell ≤ s'.nextCell
  issuing : s.pins.issued ≤ s'.pins.issued

theorem Grows.refl (s : Session) : s.Grows s :=
  ⟨Retains.refl 0 s, fun _ _ h => h, Nat.le_refl _, Nat.le_refl _⟩

theorem Grows.trans (h : s.Grows s') (h' : s'.Grows s'') : s.Grows s'' :=
  ⟨h.toRetains.trans h'.toRetains, fun k c hc => h'.cells k c (h.cells k c hc),
    Nat.le_trans h.next h'.next, Nat.le_trans h.issuing h'.issuing⟩

/-! ## What the parts of a transfer retain -/

namespace Orderly

/-- The next cell is not in use. -/
theorem next_unused (hs : s.Orderly) : s.cell? s.nextCell = none := by
  rw [Option.eq_none_iff_forall_ne_some]
  intro c hc
  exact absurd (hs.fresh _ (mem_keys.mpr ⟨c, hc⟩)) (Nat.lt_irrefl _)

theorem store (hs : s.Orderly) (c : Cell) : (s.stored c).Orderly ∧ s.Grows (s.stored c) := by
  have old : ∀ k d, s.cell? k = some d → (s.stored c).cell? k = some d := by
    intro k d hd
    have ne : k ≠ s.nextCell := by
      rintro rfl
      exact Option.some_ne_none d (hd.symm.trans hs.next_unused)
    rw [cell?_stored_of_ne ne, hd]
  refine ⟨⟨?_, hs.issued, hs.conserved⟩,
    { Retains.refl 0 s with
      anchored := fun k d hd _ => old k d hd
      cells := old
      next := Nat.le_succ _
      issuing := Nat.le_refl _ }⟩
  intro k hk
  change k ∈ keys (s.cells.insert s.nextCell c) at hk
  rw [keys_insert hs.next_unused, Multiset.mem_cons] at hk
  obtain rfl | hk := hk
  · exact Nat.lt_succ_self _
  · exact Nat.lt_succ_of_lt (hs.fresh k hk)

theorem anchor (hs : s.Orderly) (v : Script.Value) :
    Orderly { s with anchors := (s.anchors.take v).2 }
      ∧ s.Grows { s with anchors := (s.anchors.take v).2 } := by
  refine ⟨⟨hs.fresh, hs.issued, hs.conserved.take v⟩,
    { Retains.refl 0 s with
      anchors := ?_
      cells := fun _ _ h => h
      next := Nat.le_refl _
      issuing := Nat.le_refl _ }⟩
  intro a u hu
  change (s.anchors.take v).2.get? a = some u
  rw [Anchors.get?_take, if_neg, hu]
  rintro rfl
  exact Option.some_ne_none u (hu.symm.trans hs.conserved.next_free)

/-- A pin that is live is not the next one. -/
theorem pin_old (hs : s.Orderly) {h : Handle} {f : CallableId} (hf : s.pins.get? h = some f) :
    h.number ≤ s.pins.issued := hs.issued _ (mem_keys.mpr ⟨f, hf⟩)

theorem pin (hs : s.Orderly) (f : CallableId) :
    Orderly { s with pins := (s.pins.pin f).2 } ∧ s.Grows { s with pins := (s.pins.pin f).2 } := by
  have next : s.pins.next.number = s.pins.issued + 1 := rfl
  refine ⟨⟨hs.fresh, ?_, hs.conserved⟩,
    { Retains.refl 0 s with
      pins := ?_
      cells := fun _ _ h => h
      next := Nat.le_refl _
      issuing := Nat.le_succ _ }⟩
  · have unused : s.pins.live[s.pins.next.number]? = none := by
      rw [Option.eq_none_iff_forall_ne_some]
      intro g hg
      have := hs.issued _ (mem_keys.mpr ⟨g, hg⟩)
      omega
    intro k hk
    change k ∈ keys (s.pins.live.insert s.pins.next.number f) at hk
    change k ≤ s.pins.issued + 1
    rw [keys_insert unused, Multiset.mem_cons] at hk
    obtain rfl | hk := hk
    · exact Nat.le_of_eq next
    · exact Nat.le_succ_of_le (hs.issued k hk)
  · intro h g _ hg
    change (s.pins.pin f).2.get? h = some g
    rw [Registry.get?_pin, if_neg, hg]
    rintro rfl
    have := hs.pin_old hg
    omega

/-- Work on the operands of the runtime. -/
theorem operands (hs : s.Orderly) (vs : List Script.Value) :
    Orderly { s with machine := s.machine.setOperands t vs }
      ∧ s.Grows { s with machine := s.machine.setOperands t vs } :=
  ⟨{ hs with }, { Retains.refl 0 s with
    handles := fun _ _ => rfl
    natives := by simp
    userdata := by simp
    shared := by simp
    cells := fun _ _ h => h
    next := Nat.le_refl _
    issuing := Nat.le_refl _ }⟩

/-- A host function is made, which owns a pin. -/
theorem build (hs : s.Orderly) (listens : s.machine.Listens t) (pin : Handle) :
    ∃ s', (Session.build t pin).run s = ((), s') ∧ s'.Orderly ∧ s.Grows s'
      ∧ s'.pins = s.pins ∧ s'.machine.Listens t
      ∧ s'.machine.operandsOf t = .native s.machine.natives.size :: s.machine.operandsOf t
      ∧ s'.machine.natives[s.machine.natives.size]?
        = some (some ⟨.host, #[.userdata s.machine.userdata.size]⟩)
      ∧ s'.machine.userdata[s.machine.userdata.size]? = some (some ⟨some s'.machine.handleMetatable⟩)
      ∧ s'.handles.lookup s.machine.userdata.size = some pin := by
  obtain ⟨owner, function, natives, userdata, shared, frames⟩ :=
    Script.Machine.newHostFunction_eq s.machine
  set m := s.machine.newHostFunction.2.2
  have hears : m.Listens t := by
    obtain ⟨info, upvalue, vs, rest, hf⟩ := listens
    exact ⟨info, upvalue, vs, rest, (frames t).trans hf⟩
  have same : m.operandsOf t = s.machine.operandsOf t := by
    rw [Script.Machine.operandsOf, frames t, Script.Machine.operandsOf]
  obtain ⟨hears', on⟩ :=
    Script.Machine.listens_pushOperand hears (.native s.machine.natives.size)
  refine ⟨{ s with
      machine := m.pushOperand t (.native s.machine.natives.size)
      handles := (s.machine.userdata.size, pin) :: s.handles }, ?_, { hs with }, ?_, rfl, hears',
    ?_, ?_, ?_, ?_⟩
  · rw [← function, ← owner]
    rfl
  · refine { Retains.refl 0 s with
      handles := ?_
      natives := ?_
      userdata := ?_
      shared := by rw [Script.Machine.pushOperand, Script.Machine.handleMetatable_setOperands, shared]
      cells := fun _ _ h => h
      next := Nat.le_refl _
      issuing := Nat.le_refl _ }
    · intro o ho
      have other : (o == s.machine.userdata.size) = false := beq_false_of_ne (Nat.ne_of_lt ho)
      rw [List.lookup_cons, other]
    · simp only [Script.Machine.pushOperand, Script.Machine.natives_setOperands, natives]
      exact ⟨by simp, fun i hi => by simp [Array.getElem?_push, Nat.ne_of_lt hi]⟩
    · simp only [Script.Machine.pushOperand, Script.Machine.userdata_setOperands, userdata]
      exact ⟨by simp, fun i hi => by simp [Array.getElem?_push, Nat.ne_of_lt hi]⟩
  · rw [on, same]
  · simp [Script.Machine.pushOperand, natives]
  · simp [Script.Machine.pushOperand, userdata, shared]
  · simp

end Orderly

/-! ## Out to the runtime -/

/-- Whether a script value is a host function whose userdata owns a pin of a callable, beyond a
number. -/
def Hosts (n : Nat) (s : Session) (x : Script.Value) (f : CallableId) : Prop :=
  ∃ i o h, x = .native i ∧ s.machine.natives[i]? = some (some ⟨.host, #[.userdata o]⟩)
    ∧ s.machine.userdata[o]? = some (some ⟨some s.machine.handleMetatable⟩)
    ∧ s.handles.lookup o = some h ∧ n < h.number ∧ s.pins.get? h = some f

/-- What a host value is for the runtime. -/
def Becomes (n : Nat) (s : Session) : Value → Script.Value → Prop
  | .nil, x => x = .nil
  | .number y, x => x = .float y
  | .boolean b, x => x = .bool b
  | .string text, x => x = .str text.toUTF8
  | .reference r, x | .function r, x => s.object? r = some x
  | .callable f, x => s.Hosts n x f

theorem Hosts.retain {x : Script.Value} {f : CallableId} (h : s.Hosts n x f)
    (hr : Retains n s s') : s'.Hosts n x f := by
  obtain ⟨i, o, handle, rfl, native, userdata, slot, beyond, pinned⟩ := h
  have hi : i < s.machine.natives.size := (Array.getElem?_eq_some_iff.mp native).1
  have ho : o < s.machine.userdata.size := (Array.getElem?_eq_some_iff.mp userdata).1
  refine ⟨i, o, handle, rfl, (hr.natives.2 i hi).trans native, ?_, (hr.handles o ho).trans slot,
    beyond, hr.pins handle f beyond pinned⟩
  rw [hr.userdata.2 o ho, userdata, hr.shared]

theorem Becomes.retain {v : Value} {x : Script.Value} (h : s.Becomes n v x)
    (hr : Retains n s s') : s'.Becomes n v x := by
  cases v with
  | reference r | function r => exact hr.object? h
  | callable f => exact Hosts.retain h hr
  | _ => exact h

/-- How a host value is made ready. -/
def Packs (s : Session) : Value → Outbound → Prop
  | .nil, out => out = .nil
  | .reference r, out | .function r, out => out = .lent r.cell
  | .number y, out => ∃ k, out = .owned k ∧ s.cell? k = some (.number y)
  | .boolean b, out => ∃ k, out = .owned k ∧ s.cell? k = some (.boolean b)
  | .string text, out => ∃ k, out = .owned k ∧ s.cell? k = some (.string text.toUTF8)
  | .callable f, out => ∃ k h, out = .owned k ∧ s.cell? k = some (.pinned h)
    ∧ s.pins.get? h = some f

theorem Packs.grow {v : Value} {out : Outbound} (h : s.Packs v out) (hg : s.Grows s') :
    s'.Packs v out := by
  cases v with
  | nil | reference | function => exact h
  | callable f =>
    obtain ⟨k, handle, rfl, hk, hf⟩ := h
    exact ⟨k, handle, rfl, hg.cells k _ hk, hg.pins handle f handle.number_pos hf⟩
  | _ =>
    obtain ⟨k, rfl, hk⟩ := h
    exact ⟨k, rfl, hg.cells k _ hk⟩

/-- A value is made ready unless it belongs to another session. -/
theorem pack_packs (hs : s.Orderly) {v : Value} (own : ∀ r, v.ref? = some r → r.session = s.id) :
    ∃ out s', (pack v).run.run s = (.ok out, s') ∧ s'.Orderly ∧ s.Grows s'
      ∧ s'.machine = s.machine ∧ s'.Packs v out := by
  have borrowed : ∀ r : Ref, r.session = s.id → (borrow r).run.run s = (.ok (.lent r.cell), s) := by
    intro r mine
    rw [borrow, try_get_bind, if_pos mine]
    rfl
  cases v with
  | nil => exact ⟨_, s, rfl, hs, Grows.refl s, rfl, rfl⟩
  | number y =>
    obtain ⟨orderly, grows⟩ := hs.store (.number y)
    exact ⟨_, _, rfl, orderly, grows, rfl, _, rfl, cell?_stored_self _⟩
  | boolean b =>
    obtain ⟨orderly, grows⟩ := hs.store (.boolean b)
    exact ⟨_, _, rfl, orderly, grows, rfl, _, rfl, cell?_stored_self _⟩
  | string text =>
    obtain ⟨orderly, grows⟩ := hs.store (.string text.toUTF8)
    exact ⟨_, _, rfl, orderly, grows, rfl, _, rfl, cell?_stored_self _⟩
  | reference r | function r =>
    exact ⟨_, s, borrowed r (own r rfl), hs, Grows.refl s, rfl, rfl⟩
  | callable f =>
    obtain ⟨orderly, grows⟩ := hs.pin f
    obtain ⟨orderly', grows'⟩ := orderly.store (.pinned s.pins.next)
    refine ⟨_, _, rfl, orderly', grows.trans grows', rfl, _, s.pins.next, rfl,
      cell?_stored_self _, ?_⟩
    change (s.pins.pin f).2.get? s.pins.next = some f
    rw [Registry.get?_pin, if_pos rfl]

/-- The rest of a batch is made ready. -/
theorem packFrom_packs (hs : s.Orderly) {us vs : List Value} {done : List Outbound} {index : Nat}
    (own : ∀ v ∈ vs, ∀ r, v.ref? = some r → r.session = s.id)
    (hd : List.Forall₂ s.Packs us done.reverse) :
    ∃ outs s', (packFrom index done vs).run.run s = (.ok outs, s') ∧ s'.Orderly ∧ s.Grows s'
      ∧ s'.machine = s.machine ∧ List.Forall₂ s'.Packs (us ++ vs) outs := by
  induction vs generalizing s index done us with
  | nil => exact ⟨_, s, rfl, hs, Grows.refl s, rfl, by rwa [List.append_nil]⟩
  | cons v vs ih =>
    rw [List.forall_mem_cons] at own
    obtain ⟨out, s₁, run, orderly, grows, machine, packs⟩ := pack_packs hs own.1
    have next : List.Forall₂ s₁.Packs (us ++ [v]) (out :: done).reverse := by
      rw [List.reverse_cons]
      exact List.rel_append (hd.imp fun v out h => h.grow grows) (.cons packs .nil)
    obtain ⟨outs, s₂, run', orderly', grows', machine', all⟩ :=
      ih orderly (fun u hu r hr => (own.2 u hu r hr).trans grows.id.symm) next
    refine ⟨outs, s₂, ?_, orderly', grows.trans grows', machine'.trans machine, ?_⟩
    · rw [packFrom, try_bind_ok (try_tryCatch_ok run), run']
    · rwa [List.append_assoc] at all

theorem packAll_packs (hs : s.Orderly) {vs : List Value}
    (own : ∀ v ∈ vs, ∀ r, v.ref? = some r → r.session = s.id) :
    ∃ outs s', (packAll vs).run.run s = (.ok outs, s') ∧ s'.Orderly ∧ s.Grows s'
      ∧ s'.machine = s.machine ∧ List.Forall₂ s'.Packs vs outs :=
  @packFrom_packs s hs [] vs [] 0 own .nil

/-- A value that pins no callable goes onto the host's frame as it is. -/
theorem push_run_of_unpinned {out : Outbound}
    (h : ∀ handle, out.cell?.bind s.cell? ≠ some (.pinned handle)) :
    (push t out).run.run s
      = (.ok none, { s with machine := s.machine.pushOperand t (s.valueOf out) }) := by
  have none : (repin out).run.run s = (.ok none, s) := by
    rw [repin, try_get_bind]
    cases hc : out.cell?.bind s.cell? with
    | none => rfl
    | some c =>
      cases c with
      | pinned handle => exact absurd hc (h handle)
      | _ => rfl
  rw [push, try_bind_ok none]
  rfl

/-- A callable is pinned once more for the function that it gets. -/
theorem repin_run_of_pinned {k : CellId} {handle : Handle} {f : CallableId}
    (hk : s.cell? k = some (.pinned handle)) (hf : s.pins.get? handle = some f) :
    (repin (.owned k)).run.run s
      = (.ok (some (s.pins.next, f)), { s with pins := (s.pins.pin f).2 }) := by
  have twice : s.pins.repin handle = some (s.pins.pin f) := by
    rw [Registry.repin, hf, Option.map_some]
  rw [repin, try_get_bind, show (Outbound.owned k).cell?.bind s.cell? = _ from hk]
  simp only [twice, hf]
  rfl

/-- A value that was made ready arrives on the host's frame. -/
theorem push_becomes (hs : s.Orderly) (listens : s.machine.Listens t) (hn : n ≤ s.pins.issued)
    {v : Value} {out : Outbound} (hp : s.Packs v out)
    (known : ∀ r, v.ref? = some r → ∃ x, s.object? r = some x) :
    ∃ f s' x, (push t out).run.run s = (.ok f, s') ∧ s'.Orderly ∧ s.Grows s'
      ∧ s'.machine.Listens t ∧ s'.machine.operandsOf t = x :: s.machine.operandsOf t
      ∧ s'.Becomes n v x := by
  have plain : (∀ handle, out.cell?.bind s.cell? ≠ some (.pinned handle)) →
      s.Becomes n v (s.valueOf out) →
      ∃ f s' x, (push t out).run.run s = (.ok f, s') ∧ s'.Orderly ∧ s.Grows s'
        ∧ s'.machine.Listens t ∧ s'.machine.operandsOf t = x :: s.machine.operandsOf t
        ∧ s'.Becomes n v x := by
    intro unpinned becomes
    obtain ⟨orderly, grows⟩ := hs.operands (t := t) (s.valueOf out :: s.machine.operandsOf t)
    obtain ⟨hears, on⟩ := Script.Machine.listens_pushOperand listens (s.valueOf out)
    exact ⟨none, _, s.valueOf out, push_run_of_unpinned unpinned, orderly, grows, hears, on,
      becomes.retain (grows.toRetains.mono (Nat.zero_le n))⟩
  cases v with
  | nil =>
    obtain rfl := hp
    exact plain (fun _ h => by cases h) rfl
  | number y | boolean y | string y =>
    obtain ⟨k, rfl, hk⟩ := hp
    have cell : (Outbound.owned k).cell?.bind s.cell? = _ := hk
    refine plain (fun _ h => by cases cell.symm.trans h) ?_
    rw [valueOf, cell]
    rfl
  | reference r | function r =>
    obtain rfl := hp
    obtain ⟨x, hx⟩ := known r rfl
    refine plain (fun handle h => ?_) (by rw [valueOf_lent hx]; exact hx)
    obtain ⟨a, ha, -⟩ := Option.bind_eq_some_iff.mp hx
    obtain ⟨c, hc, ha⟩ := Option.bind_eq_some_iff.mp ha
    obtain rfl := Option.some.inj (hc.symm.trans h)
    cases ha
  | callable f =>
    obtain ⟨k, handle, rfl, hk, hf⟩ := hp
    obtain ⟨orderly, grows⟩ := hs.pin f
    obtain ⟨s', run, orderly', grows', pins, hears, on, native, userdata, slot⟩ :=
      orderly.build listens s.pins.next
    refine ⟨some f, s', _, ?_, orderly', grows.trans grows', hears, on, _, _, s.pins.next, rfl,
      native, userdata, slot, Nat.lt_succ_of_le hn, ?_⟩
    · rw [push, try_bind_ok (repin_run_of_pinned hk hf)]
      change (Except.ok (some f), ((Session.build t s.pins.next).run
        { s with pins := (s.pins.pin f).2 }).2) = _
      rw [run]
    · rw [pins]
      change (s.pins.pin f).2.get? s.pins.next = some f
      rw [Registry.get?_pin, if_pos rfl]

/-- Values that were made ready arrive on the host's frame, in order. -/
theorem pushAll_becomes (hs : s.Orderly) (listens : s.machine.Listens t) (hn : n ≤ s.pins.issued)
    {vs : List Value} {outs : List Outbound} (hp : List.Forall₂ s.Packs vs outs)
    (known : ∀ v ∈ vs, ∀ r, v.ref? = some r → ∃ x, s.object? r = some x) :
    ∃ fs s' xs, (pushAll t outs).run.run s = (.ok fs, s') ∧ s'.Orderly ∧ s.Grows s'
      ∧ s'.machine.Listens t ∧ s'.machine.operandsOf t = xs.reverse ++ s.machine.operandsOf t
      ∧ List.Forall₂ (s'.Becomes n) vs xs := by
  induction outs generalizing s vs with
  | nil =>
    obtain rfl := List.forall₂_nil_right_iff.mp hp
    exact ⟨[], s, [], rfl, hs, Grows.refl s, listens, rfl, .nil⟩
  | cons out outs ih =>
    obtain ⟨v, us, head, rest, rfl⟩ := List.forall₂_cons_right_iff.mp hp
    rw [List.forall_mem_cons] at known
    obtain ⟨f, s₁, x, run, orderly, grows, hears, on, becomes⟩ :=
      push_becomes hs listens hn head known.1
    have still : ∀ u ∈ us, ∀ r, u.ref? = some r → ∃ x, s₁.object? r = some x := by
      intro u hu r hr
      obtain ⟨x, hx⟩ := known.2 u hu r hr
      exact ⟨x, grows.object? hx⟩
    obtain ⟨fs, s₂, xs, run', orderly', grows', hears', on', all⟩ :=
      ih orderly hears (Nat.le_trans hn grows.issuing) (rest.imp fun v out h => h.grow grows) still
    refine ⟨f.toList ++ fs, s₂, x :: xs, ?_, orderly', grows.trans grows', hears', ?_,
      .cons (becomes.retain (grows'.toRetains.mono (Nat.zero_le n))) all⟩
    · rw [pushAll, try_bind_ok run, try_bind_ok run']
      rfl
    · rw [on', on, List.reverse_cons, List.append_assoc, List.singleton_append]

/-! ## In from the runtime -/

/-- What a script value is for the host: one that is not copied is held by a reference of its
kind, as a function if it is one that belongs to no callable. -/
def Reads (s : Session) : Script.Value → Value → Prop
  | .nil, u => u = .nil
  | .int i, u => u = .number (Script.intToFloat i)
  | .float y, u => u = .number y
  | .bool b, u => u = .boolean b
  | .str t, u => ∃ text, Utf8.decode t = .ok text ∧ u = .string text
  | x, u => ∃ r, s.object? r = some x ∧ r = s.refTo r.cell
    ∧ r.kind = (anchorKind? x).getD .function ∧ r.native = s.machine.isHostClosure x
    ∧ u = if x.kind = .function ∧ r.native = false then .function r else .reference r

/-- What a script value is in while it is on its way to the host. -/
def InCell (s : Session) : Script.Value → Option CellId → Prop
  | .nil, c => c = none
  | .int i, c => ∃ k, c = some k ∧ s.cell? k = some (.number (Script.intToFloat i))
  | .float y, c => ∃ k, c = some k ∧ s.cell? k = some (.number y)
  | .bool b, c => ∃ k, c = some k ∧ s.cell? k = some (.boolean b)
  | .str t, c => ∃ k, c = some k ∧ s.cell? k = some (.string t)
  | x, c => ∃ k a, c = some k ∧ s.cell? k = some (s.cellOf x a) ∧ s.anchors.get? a = some x

theorem reads_solid {x : Script.Value} (hx : x.Solid) (u : Value) :
    s.Reads x u ↔ ∃ r, s.object? r = some x ∧ r = s.refTo r.cell
      ∧ r.kind = (anchorKind? x).getD .function ∧ r.native = s.machine.isHostClosure x
      ∧ u = if x.kind = .function ∧ r.native = false then .function r else .reference r := by
  cases x with
  | nil | int | float | bool | str => exact hx.elim
  | _ => rfl

theorem inCell_solid {x : Script.Value} (hx : x.Solid) (c : Option CellId) :
    s.InCell x c ↔ ∃ k a, c = some k ∧ s.cell? k = some (s.cellOf x a)
      ∧ s.anchors.get? a = some x := by
  cases x with
  | nil | int | float | bool | str => exact hx.elim
  | _ => rfl

/-- Whether a value is copied or held by reference. -/
theorem solid_cases (x : Script.Value) :
    x.Solid ∨ x = .nil ∨ (∃ i, x = .int i) ∨ (∃ y, x = .float y) ∨ (∃ b, x = .bool b)
      ∨ ∃ t, x = .str t := by
  cases x <;> simp [Script.Value.Solid]

theorem Reads.retain {x : Script.Value} {u : Value} (h : s.Reads x u) (hr : Retains n s s')
    (same : s'.machine = s.machine) : s'.Reads x u := by
  obtain solid | rfl | ⟨_, rfl⟩ | ⟨_, rfl⟩ | ⟨_, rfl⟩ | ⟨_, rfl⟩ := solid_cases x
  · rw [reads_solid solid] at h ⊢
    obtain ⟨r, object, self, kind, native, hu⟩ := h
    obtain ⟨a, ha, -⟩ := Option.bind_eq_some_iff.mp object
    obtain ⟨c, hc, ha⟩ := Option.bind_eq_some_iff.mp ha
    refine ⟨r, hr.object? object, ?_, kind, by rw [native, same], hu⟩
    rw [hr.refTo hc (by rw [ha]; rfl), ← self]
  all_goals exact h

/-- A value stays in its cell while the cell and its anchor stay. -/
theorem InCell.stay {x : Script.Value} {c : Option CellId} (h : s.InCell x c)
    (hr : Retains n s s') (same : s'.machine = s.machine)
    (here : ∀ k d, c = some k → s.cell? k = some d → s'.cell? k = some d) : s'.InCell x c := by
  obtain solid | rfl | ⟨_, rfl⟩ | ⟨_, rfl⟩ | ⟨_, rfl⟩ | ⟨_, rfl⟩ := solid_cases x
  · rw [inCell_solid solid] at h ⊢
    obtain ⟨k, a, rfl, hk, ha⟩ := h
    refine ⟨k, a, rfl, ?_, hr.anchors a x ha⟩
    rw [here k _ rfl hk, cellOf, cellOf, same]
  · exact h
  all_goals
    obtain ⟨k, rfl, hk⟩ := h
    exact ⟨k, rfl, here k _ rfl hk⟩

/-- A script value gets a cell that was not in use. -/
theorem toCell_inCell (hs : s.Orderly) (x : Script.Value) :
    ∃ c s', (toCell x).run s = (c, s') ∧ s'.Orderly ∧ s.Grows s' ∧ s'.machine = s.machine
      ∧ s'.InCell x c ∧ ∀ k, c = some k → s.nextCell ≤ k ∧ k < s'.nextCell := by
  have bounds : ∀ (c : Cell) (k : CellId), some s.nextCell = some k →
      s.nextCell ≤ k ∧ k < (s.stored c).nextCell := by
    rintro c k ⟨⟩
    exact ⟨Nat.le_refl _, Nat.lt_succ_self _⟩
  have copied : ∀ c : Cell, (s.stored c).Orderly ∧ s.Grows (s.stored c)
      ∧ (s.stored c).machine = s.machine :=
    fun c => ⟨(hs.store c).1, (hs.store c).2, rfl⟩
  obtain solid | rfl | ⟨i, rfl⟩ | ⟨y, rfl⟩ | ⟨b, rfl⟩ | ⟨t, rfl⟩ := solid_cases x
  · obtain ⟨orderly, grows⟩ := hs.anchor x
    obtain ⟨orderly', grows'⟩ := orderly.store (s.cellOf x s.anchors.next)
    refine ⟨_, _, toCell_run solid, orderly', grows.trans grows', rfl,
      (inCell_solid solid _).mpr ⟨_, s.anchors.next, rfl, cell?_stored_self _, ?_⟩, ?_⟩
    · change (s.anchors.take x).2.get? s.anchors.next = some x
      rw [Anchors.get?_take, if_pos rfl]
    · rintro k ⟨⟩
      exact ⟨Nat.le_refl _, Nat.lt_succ_self _⟩
  · exact ⟨none, s, rfl, hs, Grows.refl s, rfl, rfl, fun _ h => by cases h⟩
  · obtain ⟨orderly, grows, same⟩ := copied (.number (Script.intToFloat i))
    exact ⟨_, _, rfl, orderly, grows, same, ⟨_, rfl, cell?_stored_self _⟩, bounds _⟩
  · obtain ⟨orderly, grows, same⟩ := copied (.number y)
    exact ⟨_, _, rfl, orderly, grows, same, ⟨_, rfl, cell?_stored_self _⟩, bounds _⟩
  · obtain ⟨orderly, grows, same⟩ := copied (.boolean b)
    exact ⟨_, _, rfl, orderly, grows, same, ⟨_, rfl, cell?_stored_self _⟩, bounds _⟩
  · obtain ⟨orderly, grows, same⟩ := copied (.string t)
    exact ⟨_, _, rfl, orderly, grows, same, ⟨_, rfl, cell?_stored_self _⟩, bounds _⟩

/-- Whether no two of some cells are the same. -/
def Apart (cs : List (Option CellId)) : Prop := cs.Pairwise fun c d => ∀ k, c = some k → d ≠ some k

/-- Script values get cells of their own, in order. -/
theorem toCells_inCell (hs : s.Orderly) (xs : List Script.Value) :
    ∃ cs s', (xs.mapM toCell).run s = (cs, s') ∧ s'.Orderly ∧ s.Grows s' ∧ s'.machine = s.machine
      ∧ List.Forall₂ s'.InCell xs cs ∧ Apart cs ∧ ∀ k, some k ∈ cs → s.nextCell ≤ k := by
  induction xs generalizing s with
  | nil => exact ⟨[], s, rfl, hs, Grows.refl s, rfl, .nil, .nil, by simp⟩
  | cons x xs ih =>
    obtain ⟨c, s₁, run, orderly, grows, machine, inCell, bounds⟩ := toCell_inCell hs x
    obtain ⟨cs, s₂, run', orderly', grows', machine', all, apart, above⟩ := ih orderly
    refine ⟨c :: cs, s₂, ?_, orderly', grows.trans grows', machine'.trans machine,
      .cons (inCell.stay grows'.toRetains machine' fun k d _ hk => grows'.cells k d hk) all, .cons ?_ apart, ?_⟩
    · rw [List.mapM_cons, stateM_run_bind, run, stateM_run_bind, run']
      rfl
    · rintro d hd k hk rfl
      exact absurd (above k hd) (Nat.not_le.mpr (bounds k hk).2)
    · intro k hk
      obtain rfl | hk := List.mem_cons.mp hk
      · exact (bounds k rfl).1
      · exact Nat.le_trans grows.next (above k hk)

/-- A cell without an anchor goes, and with it a pin that is not beyond a number. -/
theorem Orderly.freed (hs : s.Orderly) {k : CellId} {c : Cell} (copied : c.anchor? = none)
    (below : ∀ h, c.handle? = some h → h.number ≤ n) (hc : s.cell? k = some c) :
    (s.freed k c).Orderly ∧ Retains n s (s.freed k c)
      ∧ (s.freed k c).machine = s.machine ∧ ∀ j ≠ k, (s.freed k c).cell? j = s.cell? j := by
  have others : ∀ j ≠ k, (s.freed k c).cell? j = s.cell? j :=
    fun j hj => cell?_withdrawn_of_ne (c := c) hj
  have anchors : (s.freed k c).anchors = s.anchors := anchors_withdrawn_copied k copied
  refine ⟨⟨?_, ?_, ?_⟩, { Retains.refl n s with
    anchored := ?_
    anchors := by rw [anchors]; exact fun _ _ h => h
    pins := ?_ }, rfl, others⟩
  · intro j hj
    obtain ⟨d, hd⟩ := mem_keys.mp hj
    exact hs.fresh j (mem_keys.mpr ⟨d, cell?_of_withdrawn (c := c) hd⟩)
  · intro j hj
    cases hh : c.handle? with
    | none =>
      have pins : (s.freed k c).pins = s.pins := pins_withdrawn_unpinned k hh
      rw [pins] at hj ⊢
      exact hs.issued j hj
    | some handle =>
      have pins : (s.freed k c).pins = (s.pins.release handle).2 := pins_withdrawn k hh
      rw [pins] at hj ⊢
      obtain ⟨f, hf⟩ := mem_keys.mp hj
      refine hs.issued j (mem_keys.mpr ⟨f, ?_⟩)
      rw [← hf]
      refine (getElem?_erase_of_ne ?_).symm
      rintro rfl
      exact Option.some_ne_none f (hf.symm.trans (getElem?_erase_self _ _))
  · rw [anchors]
    exact hs.conserved
  · intro j d hd anchored
    rw [others, hd]
    rintro rfl
    obtain rfl := Option.some.inj (hd.symm.trans hc)
    rw [copied] at anchored
    cases anchored
  · intro h f beyond hf
    refine Eq.trans (@get?_pins_withdrawn s k c h fun hk => ?_) hf
    obtain ⟨handle, hh, eq⟩ : ∃ handle, c.handle? = some handle ∧ h.number = handle.number := by
      cases hh : c.handle? with
      | none => simp [Cell.pins, hh] at hk
      | some handle => exact ⟨handle, rfl, by simpa [Cell.pins, hh] using hk⟩
    have := below handle hh
    omega

/-- A script value in a cell is read, unless it is a string that is no text. -/
theorem unpack_reads (hs : s.Orderly) {x : Script.Value} {c : Option CellId} (h : s.InCell x c)
    (valid : ∀ t, x = .str t → ∃ text, Utf8.decode t = .ok text) :
    ∃ u s', (unpack c).run.run s = (.ok u, s') ∧ s'.Orderly ∧ Retains 0 s s'
      ∧ s'.machine = s.machine ∧ s'.Reads x u ∧ ∀ j, c ≠ some j → s'.cell? j = s.cell? j := by
  have gone : ∀ {k : CellId} {d : Cell}, s.cell? k = some d → d.anchor? = none →
      d.handle? = none → (free k).run s = ((), s.freed k d) ∧ (s.freed k d).Orderly
        ∧ Retains 0 s (s.freed k d) ∧ (s.freed k d).machine = s.machine
        ∧ ∀ j, some k ≠ some j → (s.freed k d).cell? j = s.cell? j := by
    intro k d hk copied unpinned
    obtain ⟨orderly, retains, machine, others⟩ :=
      hs.freed (n := 0) copied (fun h hh => by rw [unpinned] at hh; cases hh) hk
    exact ⟨free_run hk, orderly, retains, machine, fun j hj => others j fun e => hj (e ▸ rfl)⟩
  obtain solid | rfl | ⟨i, rfl⟩ | ⟨y, rfl⟩ | ⟨b, rfl⟩ | ⟨t, rfl⟩ := solid_cases x
  · obtain ⟨k, a, rfl, hk, ha⟩ := (inCell_solid solid c).mp h
    have object : s.object? (s.refTo k) = some x := by
      rw [object?_of_slotOf ((slotOf_of_cell (by rw [cell_refTo, hk])).trans (anchor?_cellOf x a))]
      exact ha
    have self : s.refTo k = s.refTo (s.refTo k).cell := by rw [cell_refTo]
    have run : (unpack (some k)).run.run s = _ := try_get_bind _ s
    rw [hk, cellOf] at run
    have named : s.refTo k
        = (anchorKind? x).elim ⟨s.id, k, .function, s.machine.isHostClosure x⟩
          fun kind => ⟨s.id, k, kind, false⟩ := by
      rw [refTo, hk, cellOf]
      cases anchorKind? x <;> rfl
    refine ⟨if x.kind = .function ∧ (s.refTo k).native = false then .function (s.refTo k)
      else .reference (s.refTo k), s, ?_, hs, Retains.refl 0 s, rfl,
      (reads_solid solid _).mpr ⟨_, object, self, ?_, ?_, rfl⟩, fun _ _ => rfl⟩
    · rw [run]
      cases x with
      | nil | int | float | bool | str => exact solid.elim
      | native i =>
        have native : (s.refTo k).native = s.machine.isHostClosure (.native i) := by rw [named]; rfl
        rw [native]
        simp only [anchorKind?]
        cases s.machine.isHostClosure (.native i) <;> rfl
      | table | userdata | thread | light => rfl
      | closure | builtin | inert =>
        rw [named]
        rfl
    · rw [named]
      cases anchorKind? x <;> rfl
    · rw [named]
      cases x with
      | nil | int | float | bool | str => exact solid.elim
      | _ => rfl
  · obtain rfl := h
    exact ⟨.nil, s, rfl, hs, Retains.refl 0 s, rfl, rfl, fun _ _ => rfl⟩
  · obtain ⟨k, rfl, hk⟩ := h
    obtain ⟨run, orderly, retains, machine, others⟩ := gone hk rfl rfl
    refine ⟨_, _, ?_, orderly, retains, machine, rfl, others⟩
    rw [unpack, try_get_bind, hk, try_lift_bind, run]
    rfl
  · obtain ⟨k, rfl, hk⟩ := h
    obtain ⟨run, orderly, retains, machine, others⟩ := gone hk rfl rfl
    refine ⟨_, _, ?_, orderly, retains, machine, rfl, others⟩
    rw [unpack, try_get_bind, hk, try_lift_bind, run]
    rfl
  · obtain ⟨k, rfl, hk⟩ := h
    obtain ⟨run, orderly, retains, machine, others⟩ := gone hk rfl rfl
    refine ⟨_, _, ?_, orderly, retains, machine, rfl, others⟩
    rw [unpack, try_get_bind, hk, try_lift_bind, run]
    rfl
  · obtain ⟨k, rfl, hk⟩ := h
    obtain ⟨text, hd⟩ := valid t rfl
    obtain ⟨run, orderly, retains, machine, others⟩ := gone hk rfl rfl
    refine ⟨_, _, ?_, orderly, retains, machine, ⟨text, hd, rfl⟩, others⟩
    rw [unpack, try_get_bind, hk, try_lift_bind, run, hd]
    rfl

/-- A script value is read, and those that follow stay in their cells. -/
theorem unpack_next (hs : s.Orderly) {x : Script.Value} {c : Option CellId}
    {zs : List Script.Value} {cs : List (Option CellId)} (h : s.InCell x c)
    (valid : ∀ t, x = .str t → ∃ text, Utf8.decode t = .ok text)
    (rest : List.Forall₂ s.InCell zs cs) (apart : Apart (c :: cs)) :
    ∃ u s', (unpack c).run.run s = (.ok u, s') ∧ s'.Orderly ∧ Retains 0 s s'
      ∧ s'.machine = s.machine ∧ s'.Reads x u ∧ List.Forall₂ s'.InCell zs cs := by
  obtain ⟨first, -⟩ := List.pairwise_cons.mp apart
  obtain ⟨u, s', run, orderly, retains, machine, reads, others⟩ := unpack_reads hs h valid
  refine ⟨u, s', run, orderly, retains, machine, reads, ?_⟩
  -- the cells of the values that follow are others
  have other := (List.forall₂_and_left cs zs).mpr ⟨first, rest.flip⟩
  refine (other.imp fun d z h => ?_).flip
  exact InCell.stay h.2 retains machine fun k e hk he => (others k fun eq => h.1 k eq hk).trans he

/-- The rest of a batch is read. -/
theorem unpackFrom_reads (hs : s.Orderly) {ys xs : List Script.Value} {cs : List (Option CellId)}
    {index : Nat} {done : List Value} (h : List.Forall₂ s.InCell xs cs) (apart : Apart cs)
    (valid : ∀ t, .str t ∈ xs → ∃ text, Utf8.decode t = .ok text)
    (hd : List.Forall₂ s.Reads ys done.reverse) :
    ∃ us s', (unpackFrom index done cs).run.run s = (.ok us, s') ∧ s'.Orderly ∧ Retains 0 s s'
      ∧ s'.machine = s.machine ∧ List.Forall₂ s'.Reads (ys ++ xs) us := by
  induction cs generalizing s index done ys xs with
  | nil =>
    obtain rfl := List.forall₂_nil_right_iff.mp h
    exact ⟨_, s, rfl, hs, Retains.refl 0 s, rfl, by rwa [List.append_nil]⟩
  | cons c cs ih =>
    obtain ⟨x, zs, head, rest, rfl⟩ := List.forall₂_cons_right_iff.mp h
    obtain ⟨u, s₁, run, orderly, retains, machine, reads, still⟩ :=
      unpack_next hs head (fun t ht => valid t (ht ▸ List.mem_cons_self)) rest apart
    have next : List.Forall₂ s₁.Reads (ys ++ [x]) (u :: done).reverse := by
      rw [List.reverse_cons]
      exact List.rel_append (hd.imp fun y v h => h.retain retains machine) (.cons reads .nil)
    obtain ⟨us, s₂, run', orderly', retains', machine', all⟩ := ih orderly still
      (List.pairwise_cons.mp apart).2 (fun t ht => valid t (List.mem_cons_of_mem x ht)) next
    refine ⟨us, s₂, ?_, orderly', retains.trans retains', machine'.trans machine, ?_⟩
    · rw [unpackFrom, try_bind_ok (try_tryCatch_ok run), run']
    · rwa [List.append_assoc] at all

/-- Values that are collected from the host's frame are read, in order. -/
theorem unpackAll_reads (hs : s.Orderly) {xs : List Script.Value} {cs : List (Option CellId)}
    (h : List.Forall₂ s.InCell xs cs) (apart : Apart cs)
    (valid : ∀ t, .str t ∈ xs → ∃ text, Utf8.decode t = .ok text) :
    ∃ us s', (unpackAll cs).run.run s = (.ok us, s') ∧ s'.Orderly ∧ Retains 0 s s'
      ∧ s'.machine = s.machine ∧ List.Forall₂ s'.Reads xs us :=
  @unpackFrom_reads s hs [] xs cs 0 [] h apart valid .nil

end Session

end ScriptBridge
