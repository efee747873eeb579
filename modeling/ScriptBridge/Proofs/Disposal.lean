import ScriptBridge.Proofs.RoundTrip

/-!
# ScriptBridge.Proofs.Disposal

What becomes of the cells of a transfer when it is over.  As long as the values that were transferred
are held, a callable among them has another owner than the pin of its cell; so nothing but the
session changes, which lets go of the cells as `Session.abandon` does.

Main facts:

* `World.releaseOutbound_run` — the cells of a transfer are released.
-/

namespace ScriptBridge

namespace Session

variable {s s' s'' : Session}

/-- What a session is after cells went: no cell is there that was not, and no pin. -/
structure Fewer (s s' : Session) : Prop where
  isOpen : s'.isOpen = s.isOpen
  cells : ∀ k c, s'.cell? k = some c → s.cell? k = some c
  pins : ∀ h f, s'.pins.get? h = some f → s.pins.get? h = some f

theorem Fewer.refl (s : Session) : s.Fewer s := ⟨rfl, fun _ _ h => h, fun _ _ h => h⟩

theorem Fewer.trans (h : s.Fewer s') (h' : s'.Fewer s'') : s.Fewer s'' :=
  ⟨h'.isOpen.trans h.isOpen, fun k c hc => h.cells k c (h'.cells k c hc), fun k f hf => h.pins k f (h'.pins k f hf)⟩

/-- What was not there is not there. -/
theorem Fewer.cell_gone (h : s.Fewer s') {k : CellId} (gone : s.cell? k = none) :
    s'.cell? k = none := by
  rw [Option.eq_none_iff_forall_ne_some] at gone ⊢
  exact fun c hc => gone c (h.cells k c hc)

theorem Fewer.pin_gone (h : s.Fewer s') {k : Handle} (gone : s.pins.get? k = none) :
    s'.pins.get? k = none := by
  rw [Option.eq_none_iff_forall_ne_some] at gone ⊢
  exact fun f hf => gone f (h.pins k f hf)

/-- A cell goes with its pin, and nothing comes. -/
theorem fewer_free (s : Session) (k : CellId) :
    s.Fewer ((free k).run s).2 ∧ ((free k).run s).2.cell? k = none
      ∧ (∀ c h, s.cell? k = some c → c.handle? = some h → ((free k).run s).2.pins.get? h = none)
      ∧ ∀ j ≠ k, ((free k).run s).2.cell? j = s.cell? j := by
  cases hc : s.cell? k with
  | none =>
    have run : (free k).run s = ((), { ((withdraw k).run s).2 with
        ledger := ((withdraw k).run s).2.ledger.release ((withdraw k).run s).1.1 }) := rfl
    rw [run, withdraw_run_of_none hc]
    exact ⟨⟨rfl, fun _ _ h => h, fun _ _ h => h⟩, hc, nofun, fun _ _ => rfl⟩
  | some c =>
    rw [free_run hc]
    refine ⟨⟨rfl, fun _ _ hd => cell?_of_withdrawn (c := c) hd, fun h f hf => ?_⟩,
      cell?_withdrawn_self (c := c), fun d h hd hh => ?_, fun _ ne => cell?_withdrawn_of_ne (c := c) ne⟩
    · change (s.withdrawn k c).pins.get? h = some f at hf
      cases hh : c.handle? with
      | none => rwa [pins_withdrawn_unpinned k hh] at hf
      | some own =>
        rw [pins_withdrawn k hh, Registry.get?_release] at hf
        split at hf
        · cases hf
        · exact hf
    · obtain rfl := Option.some.inj hd
      change (s.withdrawn k c).pins.get? h = none
      rw [pins_withdrawn k hh, Registry.get?_release, if_pos rfl]

/-- The cells of a transfer go with their pins, and nothing comes. -/
theorem fewer_abandon (s : Session) (outs : List Outbound) :
    s.Fewer ((abandon outs).run s).2 ∧ ∀ k, .owned k ∈ outs → ((abandon outs).run s).2.cell? k = none
      ∧ ∀ c h, s.cell? k = some c → c.handle? = some h →
        ((abandon outs).run s).2.pins.get? h = none := by
  induction outs generalizing s with
  | nil => exact ⟨.refl s, nofun⟩
  | cons out outs ih =>
    cases out with
    | nil | lent =>
      obtain ⟨fewer, gone⟩ := ih s
      refine ⟨fewer, fun k hk => gone k ?_⟩
      cases hk with
      | tail _ hk => exact hk
    | owned j =>
      obtain ⟨first, gone, unpinned, same⟩ := fewer_free s j
      obtain ⟨rest, others⟩ := ih ((free j).run s).2
      refine ⟨first.trans rest, fun k hk => ?_⟩
      by_cases here : k = j
      · subst here
        exact ⟨rest.cell_gone gone, fun c h hc hh => rest.pin_gone (unpinned c h hc hh)⟩
      · have left : .owned k ∈ outs := by simpa [here] using hk
        exact ⟨(others k left).1, fun c h hc => (others k left).2 c h ((same k here).trans hc)⟩

end Session

namespace Host.World

variable {w w' w'' : World} {μ : SessionId → Session.Memory} {H : Multiset Holding} {id : SessionId}
  {s s' s'' : Session} {f : CallableId}

/-- What a world is in which nothing has changed but one session and the owners of callables. -/
structure Replaces (w : World) (id : SessionId) (s' : Session) (w' : World) : Prop where
  session : w'.sessions[id]? = some s'
  others : ∀ j ≠ id, w'.sessions[j]? = w.sessions[j]?
  activities : w'.activities = w.activities
  control : w'.control = w.control
  names : w'.names = w.names
  holdings : w'.holdings = w.holdings

theorem Replaces.refl (hs : w.sessions[id]? = some s) : w.Replaces id s w :=
  ⟨hs, fun _ _ => rfl, rfl, rfl, rfl, rfl⟩

theorem Replaces.trans (h : w.Replaces id s' w') (h' : w'.Replaces id s'' w'') :
    w.Replaces id s'' w'' where
  session := h'.session
  others := fun j ne => (h'.others j ne).trans (h.others j ne)
  activities := h'.activities.trans h.activities
  control := h'.control.trans h.control
  names := h'.names.trans h.names
  holdings := h'.holdings.trans h.holdings

theorem replaces_withSession (s' : Session) : w.Replaces id s' (w.withSession id s') :=
  ⟨getElem?_withSession_self .., fun _ ne => getElem?_withSession_of_ne ne, rfl, rfl, rfl, rfl⟩

/-- An owner of a callable goes that has another one. -/
theorem chore_shared (hw : Books μ ({.callable f} + H) w) (shared : .callable f ∈ w.holdings + H) :
    ∃ w', (chore (.callable f)).run w = ([], w') ∧ w'.sessions = w.sessions
      ∧ w'.activities = w.activities ∧ w'.control = w.control ∧ w'.names = w.names
      ∧ w'.holdings = w.holdings := by
  have swap : w.holdings + ({.callable f} + H) = {.callable f} + (w.holdings + H) := by ac_rfl
  have books := hw
  rw [Books, swap] at books
  obtain ⟨c, hc⟩ := mem_owned (books.1.owned_callable books.2)
  obtain ⟨-, balance⟩ := owners_callable hc books.1 books.2
  have more : 1 < c.owners := by
    have mine : f ∈ w.pinned + tally Holding.callables (w.holdings + H) :=
      Multiset.mem_add.mpr (.inr (mem_tally.mpr ⟨_, shared, by simp [Holding.callables]⟩))
    rw [balance] at mine
    by_contra last
    obtain left | left := Multiset.mem_add.mp mine
    · rw [Nat.sub_eq_zero_of_le (Nat.not_lt.mp last)] at left
      simp at left
    · obtain ⟨⟨g, d⟩, hd, hf⟩ := Multiset.mem_bind.mp left
      obtain rfl := Multiset.eq_of_mem_replicate hf
      have gone := mem_entries.mp hd
      rw [getElem?_erase_self] at gone
      cases gone
  have held : capturedHoldings (w.callables.insert f { c with owners := c.owners - 1 })
      = capturedHoldings w.callables := capturedHoldings_replace hc rfl
  refine ⟨{ w with callables := w.callables.insert f { c with owners := c.owners - 1 } }, ?_, rfl,
    rfl, rfl, rfl, ?_⟩
  · rw [chore, stateM_get_bind, hc]
    simp only [if_pos more]
    rfl
  · rw [holdings, held, holdings]

/-- One cell of a transfer is released, with the pin that it owns. -/
theorem chores_cell {k : CellId} (hw : Books μ ({.cell id k} + H) w) (hs : w.sessions[id]? = some s)
    (shared : ∀ c h f, s.cell? k = some c → c.handle? = some h → s.pins.get? h = some f →
      .callable f ∈ w.holdings + H) (fuel : Nat) (cs : List Chore) :
    ∃ w' more, (chores (fuel + 3) (.cell id k :: cs)).run w = (chores (fuel + more) cs).run w'
      ∧ w.Replaces id ((Session.free k).run s).2 w' ∧ Books μ H w' := by
  have mine := (hw.1.tidy id s hs).1
  have own : k ∈ (Holding.cell id k).cells s.id := by simp [Holding.cells, mine]
  obtain ⟨c, hc⟩ := (hw.1.sound hw.2 hs).cell_exists (by simp) own
  let w₁ := w.withSession id (s.withdrawn k c)
  let owner := c.handle?.bind s.pins.get?
  have first : (chore (.cell id k)).run w
      = (owner.toList.map Chore.callable ++ [.settle id c.weight], w₁) := by
    rw [chore, stateM_run_bind, onSession_run_some hs, Session.withdraw_run hc]
    rfl
  have books₁ := keeps_chore_cell id k w μ H hw
  rw [first] at books₁
  have begun : (chores (fuel + 3) (.cell id k :: cs)).run w = (chores (fuel + 2)
      (owner.toList.map Chore.callable ++ [.settle id c.weight] ++ cs)).run w₁ := by
    rw [chores, stateM_run_bind, first]
  -- the weight is taken off the ledger last
  have settled : ∀ (fuel : Nat) (u : World), u.sessions[id]? = some (s.withdrawn k c) →
      Books μ ({.due id c.weight} + H) u →
      ∃ w', (chores (fuel + 1) (.settle id c.weight :: cs)).run u = (chores fuel cs).run w'
        ∧ u.Replaces id ((Session.free k).run s).2 w' ∧ Books μ H w' := by
    intro fuel u hu books
    have last : (chore (.settle id c.weight)).run u = ([], u.withSession id (s.freed k c)) := by
      rw [chore, stateM_run_bind, onSession_run_some hu]
      rfl
    have books' := keeps_chore_settle id c.weight u μ H books
    rw [last, choreHoldings_nil, zero_add] at books'
    refine ⟨_, ?_, ?_, books'⟩
    · rw [chores, stateM_run_bind, last, List.nil_append]
    · rw [Session.free_run hc]
      exact replaces_withSession _
  rw [begun]
  cases ho : owner with
  | none =>
    rw [ho] at books₁
    have books₁ : Books μ ({.due id c.weight} + H) w₁ := by simpa [Chore.holdings] using books₁
    obtain ⟨w', run, replaces, books'⟩ :=
      settled (fuel + 1) w₁ (getElem?_withSession_self ..) books₁
    exact ⟨w', 1, run, (replaces_withSession _).trans replaces, books'⟩
  | some f =>
    rw [ho] at books₁
    have both : choreHoldings ([.callable f] ++ [.settle id c.weight])
        = {.callable f} + {.due id c.weight} := by simp [Chore.holdings]
    have books₁ : Books μ ({.callable f} + ({.due id c.weight} + H)) w₁ := by
      rw [← add_assoc, ← both]
      exact books₁
    obtain ⟨handle, hh, hf⟩ := Option.bind_eq_some_iff.mp ho
    have still : .callable f ∈ w₁.holdings + ({.due id c.weight} + H) := by
      obtain there | there := Multiset.mem_add.mp (shared c handle f hc hh hf)
      · exact Multiset.mem_add.mpr (.inl there)
      · exact Multiset.mem_add.mpr (.inr (Multiset.mem_add.mpr (.inr there)))
    obtain ⟨w₂, second, sessions, activities, control, names, holdings⟩ := chore_shared books₁ still
    have books₂ := keeps_chore_callable f w₁ μ _ books₁
    rw [second, choreHoldings_nil, zero_add] at books₂
    have hs₂ : w₂.sessions[id]? = some (s.withdrawn k c) := by
      rw [sessions]
      exact getElem?_withSession_self ..
    obtain ⟨w', run, replaces, books'⟩ := settled fuel w₂ hs₂ books₂
    refine ⟨w', 0, ?_, ((replaces_withSession _).trans ⟨hs₂, fun j _ => by rw [sessions],
      activities, control, names, holdings⟩).trans replaces, books'⟩
    refine Eq.trans ?_ run
    change (chores (fuel + 1 + 1) (.callable f :: .settle id c.weight :: cs)).run w₁ = _
    rw [chores, stateM_run_bind, second, List.nil_append]

/-- The cells of a transfer are released one after the other. -/
theorem chores_outbound {outs : List Session.Outbound}
    (hw : Books μ (choreHoldings (outs.filterMap fun o => o.owned?.map (Chore.cell id)) + H) w)
    (hs : w.sessions[id]? = some s)
    (shared : ∀ k c h f, .owned k ∈ outs → s.cell? k = some c → c.handle? = some h →
      s.pins.get? h = some f → .callable f ∈ w.holdings + H)
    {fuel : Nat}
    (enough : 3 * (outs.filterMap fun o => o.owned?.map (Chore.cell id)).length ≤ fuel) :
    ∃ w', (chores fuel (outs.filterMap fun o => o.owned?.map (Chore.cell id))).run w = ((), w')
      ∧ w.Replaces id ((Session.abandon outs).run s).2 w' ∧ Books μ H w' := by
  induction outs generalizing w s fuel with
  | nil =>
    rw [List.filterMap_nil, choreHoldings_nil, zero_add] at hw
    refine ⟨w, ?_, .refl hs, hw⟩
    cases fuel <;> rfl
  | cons out outs ih =>
    cases out with
    | nil | lent =>
      exact ih hw hs (fun k c h f hk => shared k c h f (List.mem_cons_of_mem _ hk)) enough
    | owned k =>
      change 3 * ((outs.filterMap fun o => o.owned?.map (Chore.cell id)).length + 1) ≤ fuel at enough
      obtain ⟨more, rfl⟩ : ∃ more, fuel = more + 3 := ⟨fuel - 3, by omega⟩
      have swap : choreHoldings ((Session.Outbound.owned k :: outs).filterMap
            fun o => o.owned?.map (Chore.cell id)) + H
          = {.cell id k} + (choreHoldings (outs.filterMap fun o => o.owned?.map (Chore.cell id)) + H) := by
        simp [Session.Outbound.owned?, Chore.holdings]
      rw [swap] at hw
      obtain ⟨w₁, extra, first, replaces, books⟩ := chores_cell hw hs
        (fun c h f hc hh hf => by
          obtain there | there := Multiset.mem_add.mp
            (shared k c h f List.mem_cons_self hc hh hf)
          · exact Multiset.mem_add.mpr (.inl there)
          · exact Multiset.mem_add.mpr (.inr (Multiset.mem_add.mpr (.inr there)))) more
        (outs.filterMap fun o => o.owned?.map (Chore.cell id))
      obtain ⟨w', rest, replaces', books'⟩ := ih books replaces.session
        (fun j c h f hj hc hh hf => by
          obtain ⟨fewer, -⟩ := Session.fewer_free s k
          rw [replaces.holdings]
          exact shared j c h f (List.mem_cons_of_mem _ hj) (fewer.cells j c hc) hh
            (fewer.pins h f hf)) (show _ ≤ more + extra by omega)
      exact ⟨w', first.trans rest, replaces.trans replaces', books'⟩

/-- The cells of a transfer to a session that is open are released, while its values are held. -/
theorem releaseOutbound_run {outs : List Session.Outbound} {vs : List Value}
    (hw : Books μ (outHoldings id outs vs + H) w) (carries : List.Forall₂ (Session.Carries id) outs vs)
    (hs : w.sessions[id]? = some s) (ho : s.isOpen)
    (held : ∀ f, .callable f ∈ vs → .callable f ∈ w.holdings + H) :
    ∃ w', (releaseOutbound id outs).run w = ((), w')
      ∧ w.Replaces id ((Session.abandon outs).run s).2 w' ∧ Books μ H w' := by
  have mine := (hw.1.tidy id s hs).1
  have shared : ∀ k c h f, .owned k ∈ outs → s.cell? k = some c → c.handle? = some h →
      s.pins.get? h = some f → .callable f ∈ w.holdings + H := by
    intro k c h f hk hc hh hf
    obtain ⟨v, hv, there⟩ := @mem_outHoldings_owned id outs vs k hk carries.length_eq
    have back := (hw.1.tidy id s hs).2.backs _ (Multiset.mem_add.mpr (.inr
      (Multiset.mem_add.mpr (.inl there))))
    obtain ⟨d, hd, conveys⟩ := back mine.symm
    obtain rfl := Option.some.inj (hc.symm.trans hd)
    cases v with
    | callable g =>
      obtain ⟨handle, rfl, pinned⟩ := conveys
      obtain rfl := Option.some.inj hh
      obtain rfl := Option.some.inj ((pinned ho).symm.trans hf)
      exact held g hv
    | number | boolean | string =>
      obtain rfl := conveys
      cases hh
    | _ => exact conveys.elim
  have books := hw.plain_outbound carries.length_eq
  rw [releaseOutbound, release]
  cases empty : outs.filterMap fun o => o.owned?.map (Chore.cell id) with
  | nil =>
    obtain ⟨w', run, replaces, books'⟩ := chores_outbound books hs shared
      (show _ ≤ 0 by rw [empty]; exact Nat.le_refl 0)
    rw [empty] at run
    exact ⟨w', run, replaces, books'⟩
  | cons c cs =>
    have bound : 3 * (c :: cs).length ≤ w.choreBound (c :: cs).length := by
      rw [choreBound]
      omega
    rw [← empty] at bound ⊢
    obtain ⟨w', run, replaces, books'⟩ := chores_outbound books hs shared bound
    refine ⟨w', ?_, replaces, books'⟩
    rw [← run, empty]
    rfl

end Host.World

end ScriptBridge
