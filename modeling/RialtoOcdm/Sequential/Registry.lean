import RialtoOcdm.Library.ActiveSessions

/-! What the registry's functions do when they run alone: `create`, `get` and `remove`
as functions of the state. `remove` goes down to the deletion of a session, which
takes the session out of the dispatcher when its handle is destroyed. -/

namespace RialtoOcdm

open Concurrency Prog OpenCDMSessionPrivate

variable {R : Type} {I : World R → Prop} {held : List Mutex} {w : World R}

/-- No session is half destroyed. -/
def World.Intact (w : World R) : Prop := ∀ (a : Addr) o, w.heap[a]? = some o → o.destroyed = []

theorem World.Intact.has (h : w.Intact) {a : Addr} (ha : a ∈ w.heap) (m : Member) :
    w.has a m = true := by
  obtain ⟨o, ho⟩ := World.object_of_mem ha
  simp [World.has, ho, h a o ho]

theorem World.use_of_has {a : Addr} {m : Member} (h : w.has a m = true) : w.use a m = w := by
  simp [World.use, h]

theorem World.Intact.use (h : w.Intact) {a : Addr} (ha : a ∈ w.heap) (m : Member) :
    w.use a m = w := w.use_of_has (h.has ha m)

/-! ### Looking a session up -/

/-- What `status` answers. -/
def Session.statusOf (s : Session) (key : Bytes) : KeyStatus :=
  s.keyStatuses[key]?.elim .internalError convertKeyStatus

theorem status_ensures (hi : w.Intact) {a : Addr} (ha : a ∈ w.heap) (key : Bytes) :
    (status a key).Ensures I held (fun r w' => r = (w.session a).statusOf key ∧ w' = w) w := by
  simp only [status, readMember, act_bind, ret_bind, ensures_act, hi.use ha, Session.statusOf]
  cases (w.session a).keyStatuses[key]? <;> simp

/-- The session answers for the key. -/
def World.answers (w : World R) (key : Bytes) (entry : Addr × Int32) : Bool :=
  decide ((w.session entry.1).statusOf key ≠ .internalError)

theorem findSession_ensures (hi : w.Intact) (key : Bytes) {l : List (Addr × Int32)}
    (hl : ∀ e ∈ l, e.1 ∈ w.heap) :
    (ActiveSessions.findSession key l).Ensures I held
      (fun r w' => r = l.find? (w.answers key) ∧ w' = w) w := by
  induction l with
  | nil => simp [ActiveSessions.findSession]
  | cons e rest ih =>
    refine .bind ((status_ensures hi (hl e (by simp)) key).mono fun r w' ⟨hr, hw⟩ => ?_)
    rw [hr, hw, List.find?_cons, World.answers]
    by_cases hs : (w.session e.1).statusOf key = .internalError
    · simpa [hs] using ih fun e he => hl e (by simp [he])
    · simp [hs]

/-- The result of a look-up and the state after it. -/
def World.get (w : World R) (key : Bytes) : Option Addr × World R :=
  match w.activeSessions.toList.find? (w.answers key) with
  | some (session, count) =>
    (some session, w.updateActiveSessions (·.insert session (count + 1)))
  | none => (none, w)

theorem get_ensures (hi : w.Intact) (hreg : ∀ a ∈ w.activeSessions, a ∈ w.heap)
    (hheld : .activeSessions ∉ held) (key : Bytes) :
    (ActiveSessions.get key).Ensures I held (fun r w' => (r, w') = w.get key) w := by
  refine .withLock hheld ?_
  simp only [read_bind, ensures_act, id]
  refine .bind ((findSession_ensures hi key fun e he => hreg _ ?_).mono ?_)
  · have := Std.ExtTreeMap.mem_toList_iff_getElem?_eq_some.mp (show (e.1, e.2) ∈ _ from he)
    exact World.mem_of_count this
  · rintro r w' ⟨hr, hw⟩
    rw [hr, hw, World.get]
    cases w.activeSessions.toList.find? (w.answers key) <;> simp

/-! ### Making a session -/

/-- The address of a new session and the state after its creation. -/
def World.create (w : World R) (hint : Addr) (s : Session) : Addr × World R :=
  (w.address hint, (w.allocate (w.address hint) s).updateActiveSessions
    (·.insertIfNew (w.address hint) 1))

theorem create_ensures (hheld : .activeSessions ∉ held) (hint : Addr)
    (cdm messageDispatcher : Option SystemId) (sessionType : LicenseType)
    (callbacks : Option OpenCDMSessionCallbacks) (context : Addr) (initDataType : String)
    (initData : Bytes) :
    (ActiveSessions.create hint cdm messageDispatcher sessionType callbacks context initDataType
      initData).Ensures I held (fun r w' => (r, w') = w.create hint (construct cdm
        messageDispatcher sessionType callbacks context initDataType initData)) w := by
  refine .withLock hheld ?_
  simp [World.create]

/-! ### Deleting a session -/

theorem addClient_ensures {sys : SystemId} (hheld : .dispatcher sys ∉ held) (client : Addr) :
    (MessageDispatcher.addClient sys client).Ensures I held
      (fun _ w' => w' = w.updateClients sys (·.insert client)) w :=
  .withLock hheld (by simp)

theorem removeClient_ensures {sys : SystemId} (hheld : .dispatcher sys ∉ held) (client : Addr) :
    (MessageDispatcher.removeClient sys client).Ensures I held
      (fun _ w' => w' = w.updateClients sys (·.erase client)) w :=
  .withLock hheld (by simp)

/-- A handle is destroyed, if there is one. -/
def World.drop (w : World R) : Option MessageDispatcherClient → World R
  | none => w
  | some handle => w.updateClients handle.dispatcher (·.erase handle.client)

/-- The destructor of a session comes to its handle. -/
def World.unregister (w : World R) (a : Addr) : World R :=
  match (w.session a).messageDispatcherClient with
  | none => w
  | some handle => (w.record (.unregistering (w.serial a))).drop handle

/-- The state after the deletion of the session at `a`. -/
def World.deleteSession (w : World R) (a : Addr) : World R :=
  (((w.record (.destructing (w.serial a))).unregister a).free a).record (.destructed a (w.serial a))

@[simp] theorem heap_drop {h : Option MessageDispatcherClient} : (w.drop h).heap = w.heap := by
  cases h <;> rfl

@[simp] theorem activeSessions_drop {h : Option MessageDispatcherClient} :
    (w.drop h).activeSessions = w.activeSessions := by
  cases h <;> rfl

@[simp] theorem allocated_drop {h : Option MessageDispatcherClient} :
    (w.drop h).allocated = w.allocated := by
  cases h <;> rfl

@[simp] theorem journal_drop {h : Option MessageDispatcherClient} :
    (w.drop h).journal = w.journal := by
  cases h <;> rfl

theorem unregister_eq (a : Addr) :
    w.unregister a = { w with
      clients := (w.drop (w.session a).messageDispatcherClient).clients
      journal := ((w.session a).messageDispatcherClient.elim [] fun _ => [.unregistering (w.serial a)]) ++
        w.journal } := by
  unfold World.unregister
  cases (w.session a).messageDispatcherClient <;> rfl

/-- What is gone after a deletion: the object, and its membership of the dispatcher. -/
theorem deleteSession_eq (a : Addr) :
    w.deleteSession a = { w with
      heap := w.heap.erase a
      clients := (w.drop (w.session a).messageDispatcherClient).clients
      journal := .destructed a (w.serial a) ::
        ((w.session a).messageDispatcherClient.elim [] fun _ => [.unregistering (w.serial a)]) ++
        .destructing (w.serial a) :: w.journal } := by
  rw [World.deleteSession, unregister_eq]
  have hd : (w.record (.destructing (w.serial a))).session a = w.session a := rfl
  have hs : (w.record (.destructing (w.serial a))).serial a = w.serial a := rfl
  rw [hd, hs]
  cases (w.session a).messageDispatcherClient <;> rfl

/-- `w'` is `w` but for the members of the session at `a` that are destroyed. -/
structure World.Marked (a : Addr) (w w' : World R) : Prop where
  others : w'.heap.erase a = w.heap.erase a
  object : w'.heap[a]?.map (fun o => (o.serial, o.session)) =
    w.heap[a]?.map fun o => (o.serial, o.session)
  rest : w' = { w with heap := w'.heap }

theorem World.Marked.refl (a : Addr) (w : World R) : World.Marked a w w := ⟨rfl, rfl, rfl⟩

theorem World.Marked.session {a : Addr} {w w' : World R} (h : World.Marked a w w') :
    w'.session a = w.session a := by
  have := h.object
  unfold World.session
  cases hw : w.heap[a]? <;> cases hw' : w'.heap[a]? <;> simp_all

theorem World.Marked.serial {a : Addr} {w w' : World R} (h : World.Marked a w w') :
    w'.serial a = w.serial a := by
  have := h.object
  unfold World.serial
  cases hw : w.heap[a]? <;> cases hw' : w'.heap[a]? <;> simp_all

theorem World.Marked.mark {a : Addr} {w w' : World R} (h : World.Marked a w w') (m : Member) :
    World.Marked a w (w'.markDestroyed a m) where
  others := by
    rw [← h.others]
    ext b o
    by_cases hb : a = b <;>
      simp [World.markDestroyed, Std.ExtTreeMap.getElem?_erase, Std.ExtTreeMap.getElem?_modify, hb]
  object := by
    rw [← h.object, heap_markDestroyed, if_pos rfl, Option.map_map]
    rfl
  rest := by rw [h.rest]; rfl

/-- The handle's removal does not look at what is destroyed. -/
theorem World.Marked.unregister {a : Addr} {w w' : World R} (h : World.Marked a w w') :
    World.Marked a (w.unregister a) (w'.unregister a) := by
  unfold World.unregister
  rw [h.session]
  cases (w.session a).messageDispatcherClient with
  | none => exact h
  | some handle =>
    refine ⟨h.others, h.object, ?_⟩
    dsimp only
    rw [h.serial, h.rest]
    rfl

theorem World.Marked.free {a : Addr} {w w' : World R} (h : World.Marked a w w') :
    w'.free a = w.free a := by
  have := h.others
  rw [h.rest]
  simp [World.free, this]

/-- No dispatcher that is locked has a handle of the session. -/
def World.FreeHandle (w : World R) (held : List Mutex) (a : Addr) : Prop :=
  ∀ handle, (w.session a).messageDispatcherClient = some handle → .dispatcher handle.dispatcher ∉ held

theorem World.freeHandle_nil (w : World R) (a : Addr) : w.FreeHandle [] a := fun _ _ => List.not_mem_nil

theorem destroyHandle_ensures {a : Addr} (hheld : w.FreeHandle held a) :
    (destroyHandle a).Ensures I held (fun _ w' => w' = w.unregister a) w := by
  simp only [destroyHandle, update_bind, ensures_act, World.unregister]
  cases hs : (w.session a).messageDispatcherClient with
  | none => simp
  | some handle => exact removeClient_ensures (hheld handle hs) _

/-- The handle is among the members of this list once, if at all. -/
theorem destroyMembers_ensures {a : Addr} {l : List Member}
    (hheld : .messageDispatcherClient ∈ l → w.FreeHandle held a) (hl : l.Nodup) :
    (l.forM (destroyMember a)).Ensures I held (fun _ => World.Marked a
      (if .messageDispatcherClient ∈ l then w.unregister a else w)) w := by
  refine (Ensures.forM (J := fun rest => World.Marked a
    (if .messageDispatcherClient ∈ l ∧ .messageDispatcherClient ∉ rest then w.unregister a else w))
    (fun m rest w' hsuf hw' => ?_) ?_).mono fun _ w' hw' => by simpa using hw'
  · have hnot : m ∉ rest := (List.nodup_cons.mp (hsuf.sublist.nodup hl)).1
    have hmem : m ∈ l := hsuf.subset (by simp)
    by_cases hm : m = .messageDispatcherClient
    · subst hm
      rw [if_neg (by simp)] at hw'
      rw [if_pos ⟨hmem, hnot⟩]
      simp only [destroyMember, if_true]
      have hfree : w'.FreeHandle held a := fun handle hs => hheld hmem handle (hw'.session ▸ hs)
      refine .bind ((destroyHandle_ensures hfree).mono fun _ w'' hw'' => ?_)
      simpa [hw''] using hw'.unregister.mark _
    · have hne : Member.messageDispatcherClient ≠ m := Ne.symm hm
      simp only [List.mem_cons, hne, false_or] at hw'
      simpa [destroyMember, hm] using hw'.mark m
  · simpa using World.Marked.refl a w

theorem delete_ensures {a : Addr} (hheld : w.FreeHandle held a) :
    (delete a).Ensures I held (fun _ w' => w' = w.deleteSession a) w := by
  simp only [delete, note, modify_bind, ensures_act]
  refine .bind ((destroyMembers_ensures (w := w.record (.destructing (w.serial a))) (fun _ => hheld)
    (by decide)).mono fun _ w' hw' => ?_)
  rw [if_pos (by decide)] at hw'
  have hs := hw'.serial
  have hserial : ((w.record (.destructing (w.serial a))).unregister a).serial a = w.serial a := by
    unfold World.unregister
    split <;> rfl
  simp [World.deleteSession, hw'.free, hs, hserial]

/-- The state after a remove. -/
def World.remove (w : World R) (a : Addr) : World R :=
  match w.activeSessions[a]? with
  | none => w
  | some count =>
    let w := w.updateActiveSessions (·.insert a (count - 1))
    if count - 1 = 0 then (w.deleteSession a).updateActiveSessions (·.erase a) else w

theorem remove_ensures (hreg : .activeSessions ∉ held) {a : Addr}
    (hheld : w.activeSessions[a]? = some 1 → w.FreeHandle held a) :
    (ActiveSessions.remove (some a)).Ensures I held (fun _ w' => w' = w.remove a) w := by
  refine .withLock hreg ?_
  simp only [read_bind, ensures_act, id, World.remove]
  cases hcount : w.activeSessions[a]? with
  | none => simp
  | some count =>
    simp only [modify_bind, ensures_act]
    split_ifs with hz
    · refine .bind ((delete_ensures fun handle hs => ?_).mono fun _ w' hw' => ?_)
      · have hlast : count = 1 := by grind
        exact fun hmem => hheld (hlast ▸ hcount) handle hs (by simpa using hmem)
      simp [hw']
    · simp

end RialtoOcdm
