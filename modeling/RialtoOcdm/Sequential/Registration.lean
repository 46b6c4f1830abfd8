import RialtoOcdm.Sequential.Consistency

/-! Sessions get a key session and close it, and stay consistent. -/

namespace RialtoOcdm

open Concurrency Prog OpenCDMSessionPrivate Rialto

variable {R : Type} {I : World R → Prop} {w : World R} {a : Addr} {o : Object}

theorem World.use_live (ho : w.heap[a]? = some o) (hd : o.destroyed = []) (m : Member) :
    w.use a m = w := w.use_of_has (by simp [World.has, ho, hd])

/-- A member that is there is read without a trace. -/
theorem ensures_readMember {α β : Type} {held : List Mutex} {Q : α → World R → Prop}
    (ho : w.heap[a]? = some o) (hd : o.destroyed = []) {m : Member} {f : Session → β}
    {g : β → Code R α} :
    (readMember a m f >>= g).Ensures I held Q w ↔ (g (f o.session)).Ensures I held Q w := by
  simp [readMember, World.use_live ho hd, World.session_of ho]

theorem session_of_not_mem (ha : a ∉ w.heap) : w.session a = .null := by
  have : w.heap[a]? = none := by simpa using ha
  simp [World.session, this]

/-! ### Getting a key session -/

/-- The session at `a` becomes a client of its dispatcher. -/
def World.join (w : World R) (a : Addr) (sys : SystemId) : World R :=
  ((w.updateClients sys (·.insert a)).updateSession a
    ({ · with messageDispatcherClient := some ⟨sys, a⟩ })).updateSession a ({ · with isInitialized := true })

/-- Another key session id, for a session that was not initialized, in vain. -/
theorem Consistent.assign (h : Consistent w) (ho : w.heap[a]? = some o)
    (hinit : o.session.isInitialized = false) (id : Int32) :
    Consistent (w.updateSession a ({ · with rialtoSessionId := id })) := by
  have ht := h.object a o ho
  have ho' : (w.updateSession a ({ · with rialtoSessionId := id })).heap[a]? =
      some { o with session := { o.session with rialtoSessionId := id } } := by simp [ho]
  refine h.change ho ho' rfl (fun b hb => by simp [Ne.symm hb]) (fun _ _ _ => Iff.rfl) rfl rfl
    (fun _ _ => rfl) (fun _ => rfl) rfl ⟨ht.destroyed, ht.messageDispatcher, ht.table, ht.context,
      ht.data, ?_, ht.clients, ?_⟩
  · cases ht.registered with
    | no handle listening => exact .no handle listening
    | yes sys dispatcher handle initialized listening => simp [hinit] at initialized
  · have hk := ht.keySessions
    rw [hinit] at hk
    simp only [hinit]
    exact hk

/-- A session that was not initialized is, with a key session. -/
theorem Consistent.join (h : Consistent w) (ho : w.heap[a]? = some o)
    (hinit : o.session.isInitialized = false) {sys : SystemId}
    (hsys : o.session.messageDispatcher = some sys) (mediaKeys : ℕ) :
    Consistent ((w.record (.keySessionCreated o.serial mediaKeys o.session.rialtoSessionId)).join a sys) := by
  have ht := h.object a o ho
  have hno : o.session.messageDispatcherClient = none := by
    cases ht.registered with
    | no handle listening => exact handle
    | yes sys dispatcher handle initialized listening => simp [hinit] at initialized
  have hinputs : ∀ m, inputs m (story (.keySessionCreated o.serial mediaKeys o.session.rialtoSessionId ::
      w.journal)) = (if o.serial = m then [.initialized o.session.rialtoSessionId] else []) ++
        inputs m (story w.journal) := by
    intro m
    rw [story_cons rfl, inputs]
    split_ifs with hm <;> simp [Alone.input, hm]
  have halone : ((w.record (.keySessionCreated o.serial mediaKeys o.session.rialtoSessionId)).join a
      sys).alone o.serial = (w.alone o.serial).next (.initialized o.session.rialtoSessionId) := by
    have := hinputs o.serial
    rw [if_pos rfl] at this
    exact congrArg RialtoOcdm.alone this
  have ho' : ((w.record (.keySessionCreated o.serial mediaKeys o.session.rialtoSessionId)).join a
      sys).heap[a]? = some { o with session := { o.session with
        messageDispatcherClient := some ⟨sys, a⟩, isInitialized := true } } := by
    simp [World.join, ho]
  refine h.change ho ho' rfl (fun b hb => by simp [World.join, Ne.symm hb]) (fun b s hb => ?_) rfl rfl
    (fun m hm => ?_) (fun _ => rfl) (by rw [halone]; rfl) ?_
  · by_cases hs : s = sys
    · subst hs
      simp [World.join, Std.ExtTreeSet.mem_insert, Ne.symm hb]
    · simp [World.join, hs]
  · exact (hinputs m).trans (by simp [Ne.symm hm])
  · rw [halone]
    refine ⟨ht.destroyed, ht.messageDispatcher, ht.table, ht.context, ht.data,
      .yes sys hsys rfl rfl rfl, fun s => ?_, ?_⟩
    · by_cases hs : s = sys
      · subst hs
        simp [World.join, Std.ExtTreeSet.mem_insert]
      · simp [World.join, hs, Ne.symm hs, ht.clients, hno]
    · have hk := ht.keySessions
      rw [hinit] at hk
      simp only [Alone.next, hk]
      rfl

/-! ### Closing it -/

/-- The session at `a` stops to be a client, and forgets what it was told. -/
def World.leave (w : World R) (a : Addr) : World R :=
  (((((w.record (.keySessionClosed (w.serial a))).updateSession a
    ({ · with messageDispatcherClient := none })).drop (w.session a).messageDispatcherClient).updateSession a
    ({ · with challengeData := [] })).record (.challengeCleared (w.serial a))).updateSession a
    ({ · with keyStatuses := ∅ })

/-- Dropping its handle takes a session, and nobody else, out of its dispatcher. -/
theorem Tracks.mem_clients_drop {x : Alone} (ht : Tracks w a o x) {w' : World R}
    (hw : w'.clients = w.clients) (b : Addr) (sys : SystemId) :
    b ∈ (w'.drop o.session.messageDispatcherClient).clients sys ↔ b ≠ a ∧ b ∈ w.clients sys := by
  cases hh : o.session.messageDispatcherClient with
  | none =>
    simp only [World.drop, hw, iff_and_self]
    rintro hb rfl
    simp [ht.clients, hh] at hb
  | some handle =>
    have hha : handle.client = a := by
      cases ht.registered with
      | no handle _ => simp [hh] at handle
      | yes sys _ handle _ _ => rw [hh, Option.some.injEq] at handle; rw [handle]
    by_cases hs : sys = handle.dispatcher
    · subst hs
      simp only [World.drop, World.updateClients_clients, Function.update_self, hw, hha,
        Std.ExtTreeSet.mem_erase, ne_eq, Std.compare_eq_iff_eq, eq_comm (a := a)]
    · simp only [World.drop, World.updateClients_clients, Function.update_of_ne hs, hw, iff_and_self]
      rintro hb rfl
      rw [ht.clients, hh, Option.some.injEq] at hb
      exact hs (by rw [hb])

theorem World.leave_journal (ho : w.heap[a]? = some o) :
    (w.leave a).journal = .challengeCleared o.serial :: .keySessionClosed o.serial :: w.journal := by
  simp [World.leave, World.serial_of ho]

theorem Consistent.leave (h : Consistent w) (ho : w.heap[a]? = some o) : Consistent (w.leave a) := by
  have ht := h.object a o ho
  have hj := World.leave_journal ho
  have hinputs : ∀ m, inputs m (story (w.leave a).journal) =
      (if o.serial = m then [.closed] else []) ++ inputs m (story w.journal) := by
    intro m
    rw [hj, story_cons_of_none rfl, story_cons rfl, inputs]
    split_ifs with hm <;> simp [Alone.input, hm]
  have halone : (w.leave a).alone o.serial = (w.alone o.serial).next .closed := by
    rw [World.alone, hinputs, if_pos rfl]
    rfl
  have ho' : (w.leave a).heap[a]? = some { o with session := { o.session with
      messageDispatcherClient := none, challengeData := [], keyStatuses := ∅ } } := by
    simp [World.leave, ho]
  have hclients : ∀ b sys, b ∈ (w.leave a).clients sys ↔ b ≠ a ∧ b ∈ w.clients sys := by
    intro b sys
    have hc : ((w.record (.keySessionClosed (w.serial a))).updateSession a
      ({ · with messageDispatcherClient := none })).clients = w.clients := rfl
    simpa [World.leave, World.session_of ho] using ht.mem_clients_drop hc b sys
  refine h.change ho ho' rfl (fun b hb => by simp [World.leave, Ne.symm hb])
    (fun b s hb => (hclients b s).trans (and_iff_right hb)) (by simp [World.leave]) (by simp [World.leave])
    (fun m hm => ?_) (fun m => by rw [hj]; rfl) (by rw [halone]; rfl) ?_
  · rw [hinputs, if_neg (Ne.symm hm)]
    rfl
  · rw [halone]
    refine ⟨ht.destroyed, ht.messageDispatcher, ht.table, ht.context, rfl, .no rfl rfl, fun s => ?_,
      ht.keySessions⟩
    rw [hclients]
    simp

/-! ### Making and deleting a session -/

theorem Consistent.create (h : Consistent w) (hint : Addr) {s : Session}
    (hhandle : s.messageDispatcherClient = none) (hinit : s.isInitialized = false)
    (hdata : s.data = ([], ∅)) : Consistent (w.create hint s).2 := by
  have hnot := w.address_not_mem hint
  generalize hw' : (w.create hint s).2 = w'
  rw [World.create] at hw'
  generalize w.address hint = a at hnot hw'
  have hheap : ∀ b, w'.heap[b]? = if a = b then some ⟨w.allocated + 1, s, []⟩ else w.heap[b]? :=
    fun b => by rw [← hw']; exact World.heap_allocate
  have hclients : w'.clients = w.clients := by rw [← hw']; rfl
  have hallocated : w'.allocated = w.allocated + 1 := by rw [← hw']; rfl
  have hj : w'.journal = .constructed a (w.allocated + 1) s.messageDispatcher s.callbacks s.context ::
      w.journal := by rw [← hw']; rfl
  have hinputs : ∀ m, inputs m (story w'.journal) = if w.allocated + 1 = m then
      [.constructed s.messageDispatcher s.callbacks s.context] else inputs m (story w.journal) := by
    intro m
    rw [hj, story_cons rfl, inputs]
    split_ifs with hm
    · subst hm
      simp [Alone.input, h.fresh _ (Nat.lt_succ_self w.allocated)]
    · simp [Alone.input, hm]
  have hnew : w'.alone (w.allocated + 1) =
      ⟨s.messageDispatcher, s.callbacks, s.context, none, [], [], ∅, []⟩ := by
    rw [World.alone, hinputs, if_pos rfl]
    rfl
  have hmem : ∀ b ∈ w.heap, b ∈ w'.heap := fun b hb => by
    rw [Std.ExtTreeMap.mem_iff_isSome_getElem?] at hb ⊢
    rw [hheap]
    split_ifs
    · rfl
    · exact hb
  have hobject : ∀ (b : Addr) o, w'.heap[b]? = some o →
      b = a ∧ o.serial = w.allocated + 1 ∨ o.serial ≠ w.allocated + 1 ∧ w.heap[b]? = some o := by
    intro b o ho
    rw [hheap] at ho
    split_ifs at ho with hb
    · cases ho
      exact .inl ⟨hb.symm, rfl⟩
    · have := h.serial b o ho
      exact .inr ⟨by omega, ho⟩
  have hf : ChangesOnly w w' (w.allocated + 1) a :=
    { inputs := fun m hm => (hinputs m).trans (if_neg hm.symm)
      callbacks := fun m => by rw [hj]; rfl
      object := hobject
      kept := fun b o ho _ => by
        have hne : a ≠ b := fun hb => hnot (hb.symm ▸ World.mem_of_object ho)
        rw [hheap, if_neg hne, ho]
      clients := fun _ _ _ _ sys => by rw [hclients]
      allocated := hallocated ▸ Nat.le_succ _
      serial := hallocated.ge }
  refine h.changesOnly hf ?_ (fun o ho _ => ?_)
    (fun sys b hb => hmem b (h.clients sys b (hclients ▸ hb))) (fun b => ?_) ?_
  · rw [hnew, World.alone, h.fresh _ (Nat.lt_succ_self w.allocated)]
    rfl
  · rw [hheap, if_pos rfl] at ho
    cases ho
    rw [hnew]
    refine ⟨rfl, rfl, rfl, rfl, hdata.symm, .no hhandle rfl, fun sys => ?_, by rw [hinit]; rfl⟩
    simp only [hclients, hhandle, reduceCtorEq, iff_false]
    exact fun hmem => hnot (h.clients sys a hmem)
  · rw [← hw']
    simp [World.allocate, Std.ExtTreeMap.mem_insertIfNew, h.registered]
  · rw [hnew]
    exact fun _ => ⟨rfl, Nat.zero_le 1⟩

theorem Consistent.delete (h : Consistent w) (ho : w.heap[a]? = some o) (count : Int32) :
    Consistent (((w.updateActiveSessions (·.insert a count)).deleteSession a).updateActiveSessions
      (·.erase a)) := by
  have ht := h.object a o ho
  generalize hw' : ((w.updateActiveSessions (·.insert a count)).deleteSession a).updateActiveSessions
    (·.erase a) = w'
  rw [deleteSession_eq] at hw'
  have hheap : ∀ (b : Addr) o', w'.heap[b]? = some o' ↔ b ≠ a ∧ w.heap[b]? = some o' := by
    intro b o'
    rw [← hw']
    simp [Std.ExtTreeMap.getElem?_erase, eq_comm (a := a)]
  have hallocated : w'.allocated = w.allocated := by rw [← hw']; rfl
  have hclients : ∀ b sys, b ∈ w'.clients sys ↔ b ≠ a ∧ b ∈ w.clients sys := by
    intro b sys
    have hc : (w.updateActiveSessions (·.insert a count)).clients = w.clients := rfl
    rw [← hw', ← ht.mem_clients_drop hc b sys, ← World.session_of ho]
    rfl
  have hserial : (w.updateActiveSessions (·.insert a count)).serial a = o.serial := World.serial_of ho
  have hstory : story w'.journal = .destructed o.serial :: story w.journal := by
    rw [← hw', hserial]
    dsimp only [World.updateActiveSessions]
    rw [List.cons_append, story_cons rfl]
    cases (World.session _ a).messageDispatcherClient <;> rfl
  have hcallbacks : ∀ m, callbacksOf m w'.journal = callbacksOf m w.journal := by
    intro m
    rw [← hw']
    cases hh : ((w.updateActiveSessions (·.insert a count)).session a).messageDispatcherClient <;>
      simp [callbacksOf]
  have hinputs : ∀ m, inputs m (story w'.journal) =
      (if o.serial = m then [.destructed] else []) ++ inputs m (story w.journal) := by
    intro m
    rw [hstory, inputs]
    split_ifs with hm <;> simp [Alone.input, hm]
  have hself : w'.alone o.serial = (w.alone o.serial).next .destructed := by
    rw [World.alone, hinputs, if_pos rfl]
    rfl
  have hother : ∀ (b : Addr) o', w.heap[b]? = some o' → o'.serial ≠ o.serial → b ≠ a := by
    rintro b o' ho' hs rfl
    rw [ho, Option.some.injEq] at ho'
    exact hs (ho' ▸ rfl)
  have hf : ChangesOnly w w' o.serial a :=
    { inputs := fun m hm => by rw [hinputs, if_neg hm.symm]; rfl
      callbacks := hcallbacks
      object := fun b o' ho' => by
        obtain ⟨hb, ho'⟩ := (hheap b o').mp ho'
        exact .inr ⟨fun he => hb (h.distinct b a o' o ho' ho he), ho'⟩
      kept := fun b o' ho' hs => (hheap b o').mpr ⟨hother b o' ho' hs, ho'⟩
      clients := fun b o' ho' hs sys =>
        (hclients b sys).trans (and_iff_right (hother b o' ho' hs))
      allocated := hallocated.ge
      serial := hallocated ▸ h.serial a o ho }
  refine h.changesOnly hf (by rw [hself]; rfl) (fun o' ho' _ => ?_) (fun sys b hb => ?_)
    (fun b => ?_) fun _ => ?_
  · exact absurd rfl ((hheap a o').mp ho').1
  · obtain ⟨hb, hmem⟩ := (hclients b sys).mp hb
    obtain ⟨o', ho'⟩ := World.object_of_mem (h.clients sys b hmem)
    exact World.mem_of_object ((hheap b o').mpr ⟨hb, ho'⟩)
  · rw [← hw']
    simp [Std.ExtTreeMap.mem_erase, Std.ExtTreeMap.mem_insert, h.registered]
    tauto
  · rw [hself]
    refine ⟨rfl, ?_⟩
    simp only [Alone.next, ht.keySessions]
    split_ifs <;> simp

end RialtoOcdm
