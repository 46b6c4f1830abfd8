import Mathlib.Order.BooleanAlgebra.Set
import RialtoOcdm.Sequential.Clients

/-! `opencdm_construct_session` is all or nothing. Whatever the backend answers, a call
that fails leaves the registry, the dispatchers and the key sessions that are open in
Rialto as they were, and a call that works adds one of each. -/

namespace RialtoOcdm

open Concurrency Prog OpenCDMSessionPrivate Rialto

variable {R : Type}

/-- The key sessions that are open in Rialto, by the instance and the id. A key session
that is created gets a new id, which is not the one that stands for none, and one that is
open can be closed. -/
structure OpensSessions [MediaKeys R] (opened : R → Set (ℕ × Int32)) : Prop where
  created : ∀ i sessionType isLDL (r : R),
    (MediaKeys.call i (.createKeySession sessionType isLDL) r).1.ok = true →
    ∃ id, (MediaKeys.call i (.createKeySession sessionType isLDL) r).1.out = some id ∧
      id ≠ kInvalidSessionId ∧ (i, id) ∉ opened r ∧
      opened (MediaKeys.call i (.createKeySession sessionType isLDL) r).2 = insert (i, id) (opened r)
  notCreated : ∀ i sessionType isLDL (r : R),
    (MediaKeys.call i (.createKeySession sessionType isLDL) r).1.ok = false →
    opened (MediaKeys.call i (.createKeySession sessionType isLDL) r).2 = opened r
  closed : ∀ i id (r : R), (i, id) ∈ opened r →
    (MediaKeys.call i (.closeKeySession id) r).1.ok = true ∧
    opened (MediaKeys.call i (.closeKeySession id) r).2 = opened r \ {(i, id)}
  kept : ∀ i (call : MediaKeysCall) (r : R), call.KeepsSessions →
    opened (MediaKeys.call i call r).2 = opened r

/-! ### Requests -/

/-- The registry, the dispatchers, the backends and the open key sessions are as they
were, and so are the sessions but for what messages and requests may change. -/
structure Mild (opened : R → Set (ℕ × Int32)) (w w' : World R) : Prop where
  activeSessions : w'.activeSessions = w.activeSessions
  clients : w'.clients = w.clients
  backend : w'.backend = w.backend
  opened : opened w'.rialto = opened w.rialto
  frame : ∀ a : Addr, w'.heap[a]?.map Object.frame = w.heap[a]?.map Object.frame

variable {opened : R → Set (ℕ × Int32)} {w w' w'' : World R} {a : Addr}

theorem Mild.refl (w : World R) : Mild opened w w := ⟨rfl, rfl, rfl, rfl, fun _ => rfl⟩

theorem Mild.trans (h : Mild opened w w') (h' : Mild opened w' w'') : Mild opened w w'' :=
  ⟨h'.activeSessions.trans h.activeSessions, h'.clients.trans h.clients, h'.backend.trans h.backend,
    h'.opened.trans h.opened, fun a => (h'.frame a).trans (h.frame a)⟩

/-- The session is there, with the same frame. -/
theorem Mild.forth (h : Mild opened w w') {o : Object} (ho : w.heap[a]? = some o) :
    ∃ o', w'.heap[a]? = some o' ∧ o'.frame = o.frame := by
  have hf := h.frame a
  rwa [ho, Option.map_some, Option.map_eq_some_iff] at hf

theorem Mild.assign (w : World R) (a : Addr) (id : String) :
    Mild opened w ((w.use a .cdmKeySessionId).updateSession a ({ · with cdmKeySessionId := id })) := by
  have hq : Quiet ∅ w ((w.use a .cdmKeySessionId).updateSession a ({ · with cdmKeySessionId := id })) :=
    (Quiet.use a _).trans (.updateSession (fun _ => rfl) fun _ _ => rfl)
  exact ⟨rfl, rfl, rfl, rfl, hq.frame⟩

variable [MediaKeys R]

theorem mild_ask (hR : OpensSessions opened) (w : World R) (sys : SystemId) {call : MediaKeysCall}
    (hc : call.KeepsSessions) {store : ℕ → Answer call → World R → World R}
    (hs : ∀ i answer w, Mild opened w (store i answer w)) :
    Mild opened w (w.ask sys call store).2 :=
  World.ask_snd (p := Mild opened w) ⟨rfl, rfl, rfl, rfl, fun _ => rfl⟩ fun i => by
    have hforward : Mild opened w ((w.setRialto (MediaKeys.call i call w.rialto).2).record
        (.forwarded sys i call)) := ⟨rfl, rfl, rfl, hR.kept i call w.rialto hc, fun _ => rfl⟩
    exact hforward.trans (hs i _ _)

theorem mild_tolerant (hR : OpensSessions opened) : Tolerant (Mild (R := R) opened) :=
  ⟨.refl, fun _ _ _ => .trans, fun _ _ _ => ⟨rfl, rfl, rfl, rfl, fun _ => rfl⟩,
    fun w sys _ hc => mild_ask hR w sys hc fun _ _ => .refl⟩

theorem getCdmKeySessionId_mild (hR : OpensSessions opened) (sys : SystemId) (id : Int32) (a : Addr) :
    Does [] (Mild opened) (CdmBackend.getCdmKeySessionId sys id a : Code R Bool) := by
  refine (mild_tolerant hR).bind (fun I w => .withLock (by simp) (ensures_update.mpr ?_)) fun _ =>
    (mild_tolerant hR).ret _
  apply mild_ask hR w sys (by trivial)
  intro i answer w
  unfold CdmBackend.storeCdmKeySessionId
  cases answer.out with
  | none => exact .refl w
  | some id => exact .assign w a id

theorem initializeCdmKeySessionId_mild (hR : OpensSessions opened) (a : Addr) (cdm : SystemId) :
    Does [] (Mild opened) (initializeCdmKeySessionId a cdm : Code R Unit) := by
  have hT := mild_tolerant hR
  have hdefault : Does [] (Mild opened) (writeMember a .cdmKeySessionId
      ({ · with cdmKeySessionId := kDefaultSessionId }) : Code R Unit) := fun _ w =>
    ensures_modify.mpr (.assign w a _)
  apply hT.bind (hT.readMember a _ _)
  intro id
  split_ifs
  · refine hT.bind (hT.readMember a _ _) fun id => hT.bind (getCdmKeySessionId_mild hR cdm id a) fun ok => ?_
    dsimp only
    split_ifs
    · exact hT.ret _
    · exact hdefault
  · exact hdefault

theorem generateRequest_mild (hR : OpensSessions opened) (a : Addr) (initDataType : String)
    (initData : Bytes) : Does [] (Mild opened) (generateRequest a initDataType initData : Code R Bool) := by
  have hT := mild_tolerant hR
  apply hT.onKeySessionWhere a (hT.ret _)
  intro cdm id
  apply hT.bind (hT.orLastDrmError (by simp) a (hT.pass_ok (by simp) (by trivial)))
  intro ok
  cases ok with
  | true => exact hT.bind (initializeCdmKeySessionId_mild hR a cdm) fun _ => hT.ret _
  | false => exact hT.ret _

/-! ### Key sessions -/

omit [MediaKeys R] in
theorem storeKeySessionId_fields (a : Addr) {sessionType : KeySessionType} {isLDL : Bool} (i : ℕ)
    (answer : Answer (.createKeySession sessionType isLDL)) (w : World R) :
    (CdmBackend.storeKeySessionId a sessionType isLDL i answer w).activeSessions = w.activeSessions ∧
    (CdmBackend.storeKeySessionId a sessionType isLDL i answer w).clients = w.clients ∧
    (CdmBackend.storeKeySessionId a sessionType isLDL i answer w).backend = w.backend ∧
    (CdmBackend.storeKeySessionId a sessionType isLDL i answer w).rialto = w.rialto := by
  unfold CdmBackend.storeKeySessionId
  cases answer.out <;> dsimp only <;> split_ifs <;> exact ⟨rfl, rfl, rfl, rfl⟩

/-- Asking for a key session opens one, or none. -/
theorem askKeySession_opened (hR : OpensSessions opened) (w : World R) (sys : SystemId) (a : Addr)
    (sessionType : KeySessionType) (isLDL : Bool) :
    (w.askKeySession sys a sessionType isLDL).2.activeSessions = w.activeSessions ∧
    (w.askKeySession sys a sessionType isLDL).2.clients = w.clients ∧
    (w.askKeySession sys a sessionType isLDL).2.backend = w.backend ∧
    if (w.askKeySession sys a sessionType isLDL).1.ok then
      ∃ i id, (w.backend sys).mediaKeys = some i ∧
        (w.askKeySession sys a sessionType isLDL).1.out = some id ∧ id ≠ kInvalidSessionId ∧
        (i, id) ∉ opened w.rialto ∧
        opened (w.askKeySession sys a sessionType isLDL).2.rialto = insert (i, id) (opened w.rialto)
    else opened (w.askKeySession sys a sessionType isLDL).2.rialto = opened w.rialto := by
  unfold World.askKeySession World.ask
  cases hi : (w.backend sys).mediaKeys with
  | none => exact ⟨rfl, rfl, rfl, rfl⟩
  | some i =>
    obtain ⟨h₁, h₂, h₃, h₄⟩ := storeKeySessionId_fields a i
      (MediaKeys.call i (.createKeySession sessionType isLDL) w.rialto).1
      ((w.setRialto (MediaKeys.call i (.createKeySession sessionType isLDL) w.rialto).2).record
        (.forwarded sys i (.createKeySession sessionType isLDL)))
    dsimp only
    rw [h₁, h₂, h₃, h₄]
    refine ⟨rfl, rfl, rfl, ?_⟩
    split_ifs with hok
    · obtain ⟨id, hout, hid, hnew, hopened⟩ := hR.created i sessionType isLDL w.rialto hok
      exact ⟨i, id, rfl, hout, hid, hnew, hopened⟩
    · exact hR.notCreated i sessionType isLDL w.rialto (by simpa using hok)

/-- Closing the session that has an open key session closes that one. -/
theorem close_opened (hR : OpensSessions opened) {sys : SystemId} {i : ℕ}
    (hsys : (w.session a).cdmBackend = some sys) (hi : (w.backend sys).mediaKeys = some i)
    (hid : (w.session a).rialtoSessionId ≠ kInvalidSessionId)
    (hopen : (i, (w.session a).rialtoSessionId) ∈ opened w.rialto) :
    ∃ w₁ : World R, (w.close a).2 = w₁.leave a ∧ Still w w₁ ∧
      opened w₁.rialto = opened w.rialto \ {(i, (w.session a).rialtoSessionId)} := by
  obtain ⟨hok, hclosed⟩ := hR.closed i _ _ hopen
  have hid : -1 ≠ (w.session a).rialtoSessionId := Ne.symm hid
  refine ⟨(w.ask sys (.closeKeySession (w.session a).rialtoSessionId) fun _ _ w => w).2, ?_,
    .ask w sys _, ?_⟩
  · simp only [World.close, hsys, if_pos hid]
    simp only [World.ask, hi, hok, if_true]
  · simp only [World.ask, hi]
    exact hclosed

/-! ### The new session -/

omit [MediaKeys R] in
/-- A new session that is removed again is gone from the registry, and from the
dispatcher it has a handle of. -/
theorem remove_new {w₀ : World R} (ha : a ∉ w₀.activeSessions)
    (hw : w.activeSessions = w₀.activeSessions.insert a 1) :
    (w.remove a).activeSessions = w₀.activeSessions ∧
    (w.remove a).clients = (w.drop (w.session a).messageDispatcherClient).clients ∧
    (w.remove a).rialto = w.rialto := by
  have hcount : w.activeSessions[a]? = some 1 := by
    simp [hw]
  have hnone : w₀.activeSessions[a]? = none := by simpa using ha
  have hlast : (1 : Int32) - 1 = 0 := rfl
  have hdrop : ((w.updateActiveSessions (·.insert a (1 - 1))).drop
      (w.session a).messageDispatcherClient).clients =
      (w.drop (w.session a).messageDispatcherClient).clients := by
    cases (w.session a).messageDispatcherClient <;> rfl
  simp only [World.remove, hcount, deleteSession_eq, if_pos hlast]
  refine ⟨Std.ExtTreeMap.ext_getElem? fun b => ?_, hdrop, rfl⟩
  simp only [World.updateActiveSessions_activeSessions, hw,
    Std.ExtTreeMap.getElem?_erase, Std.ExtTreeMap.getElem?_insert,
    Std.compare_eq_iff_eq]
  by_cases hb : a = b
  · subst hb
    simp [hnone]
  · simp [hb]

omit [MediaKeys R] in
/-- A client that was added to a dispatcher and leaves it. -/
theorem drop_inserted {w₀ : World R} {sys : SystemId} (ha : a ∉ w₀.clients sys)
    (hw : w.clients = (w₀.updateClients sys (·.insert a)).clients) :
    (w.drop (some ⟨sys, a⟩)).clients = w₀.clients := by
  funext s
  simp only [World.drop, World.updateClients_clients, hw]
  by_cases hs : s = sys
  · subst hs
    simp only [Function.update_self]
    apply Std.ExtTreeSet.ext_mem
    intro b
    simp only [Std.ExtTreeSet.mem_erase, Std.ExtTreeSet.mem_insert, Std.compare_eq_iff_eq, ne_eq]
    constructor
    · rintro ⟨hne, he | hb⟩
      · exact absurd he hne
      · exact hb
    · intro hb
      exact ⟨fun he => ha (he ▸ hb), .inr hb⟩
  · simp [hs]

/-- All or nothing, for a system. -/
structure AllOrNothing (opened : R → Set (ℕ × Int32)) (sys : SystemId) (w : World R)
    (r : OpenCDMError × Option Addr) (w' : World R) : Prop where
  nothing : r.1 ≠ .none → r.2 = none ∧ w'.activeSessions = w.activeSessions ∧
    w'.clients = w.clients ∧ opened w'.rialto = opened w.rialto
  all : r.1 = .none → ∃ (a : Addr) (o : Object), r.2 = some a ∧ a ∉ w.heap ∧ a ∉ w.activeSessions ∧
    w'.heap[a]? = some o ∧ w'.activeSessions = w.activeSessions.insert a 1 ∧
    if isPlayreadyKeysystem (w.backend sys).keySystem then
      w'.clients = w.clients ∧ w'.rialto = w.rialto ∧
        ∃ n callbacks context, w'.journal = .constructed a n (some sys) callbacks context :: w.journal
    else
      w'.clients = Function.update w.clients sys ((w.clients sys).insert a) ∧
        ∃ i, (i, o.session.rialtoSessionId) ∉ opened w.rialto ∧
          opened w'.rialto = insert (i, o.session.rialtoSessionId) (opened w.rialto)

omit [MediaKeys R] in
theorem AllOrNothing.failed {sys : SystemId} (h₁ : w'.activeSessions = w.activeSessions)
    (h₂ : w'.clients = w.clients) (h₃ : opened w'.rialto = opened w.rialto) :
    AllOrNothing opened sys w (.fail, none) w' :=
  ⟨fun _ => ⟨rfl, h₁, h₂, h₃⟩, fun h => by cases h⟩

/-- A new session in `w'` that was none in `w` has the key session it asked for. -/
structure Joined (opened : R → Set (ℕ × Int32)) (sys : SystemId) (a : Addr) (i : ℕ) (w w' : World R)
    (o : Object) : Prop where
  object : w'.heap[a]? = some o
  destroyed : o.destroyed = []
  cdmBackend : o.session.cdmBackend = some sys
  handle : o.session.messageDispatcherClient = some ⟨sys, a⟩
  valid : o.session.rialtoSessionId ≠ kInvalidSessionId
  new : (i, o.session.rialtoSessionId) ∉ opened w.rialto
  opened : opened w'.rialto = insert (i, o.session.rialtoSessionId) (opened w.rialto)
  mediaKeys : (w'.backend sys).mediaKeys = some i
  activeSessions : w'.activeSessions = w.activeSessions.insert a 1
  clients : w'.clients = (w.updateClients sys (·.insert a)).clients

omit [MediaKeys R] in
theorem Joined.mild {sys : SystemId} {i : ℕ} {o : Object} (h : Joined opened sys a i w w' o)
    (hm : Mild opened w' w'') : ∃ o', Joined opened sys a i w w'' o' := by
  obtain ⟨o', ho', hf⟩ := hm.forth h.object
  obtain ⟨-, hdestroyed, -, -, -, hhandle, -, hid⟩ := Object.frame_eq hf
  have hcdm : o'.session.cdmBackend = o.session.cdmBackend := congrArg (·.2.1.cdmBackend) hf
  refine ⟨o', ho', hdestroyed.trans h.destroyed, hcdm.trans h.cdmBackend, hhandle.trans h.handle,
    hid ▸ h.valid, hid ▸ h.new, ?_, ?_, hm.activeSessions.trans h.activeSessions,
    hm.clients.trans h.clients⟩
  · rw [hm.opened, h.opened, hid]
  · rw [hm.backend, h.mediaKeys]

section

variable {I : World R → Prop} {sys : SystemId} {i : ℕ} {o : Object} {w₀ : World R}

omit [MediaKeys R] in
theorem leave_fields (w : World R) (a : Addr) :
    (w.leave a).clients = (w.drop (w.session a).messageDispatcherClient).clients ∧
    (w.leave a).rialto = w.rialto := by
  unfold World.leave
  cases (w.session a).messageDispatcherClient <;> exact ⟨rfl, rfl⟩

omit [MediaKeys R] in
/-- The new session is given up. -/
theorem abandon_ensures (ha : a ∉ w₀.activeSessions)
    (hactive : w.activeSessions = w₀.activeSessions.insert a 1)
    (hclients : (w.drop (w.session a).messageDispatcherClient).clients = w₀.clients)
    (hopened : opened w.rialto = opened w₀.rialto) :
    (do ActiveSessions.remove (some a); return (.fail, none) : Code R (OpenCDMError × Option Addr)).Ensures
      I [] (AllOrNothing opened sys w₀) w := by
  refine .bind ((remove_ensures (by simp) fun _ => w.freeHandle_nil a).mono fun _ w' hw' => ensures_ret.mpr ?_)
  obtain ⟨h₁, h₂, h₃⟩ := remove_new ha hactive
  rw [hw']
  exact .failed h₁ (h₂.trans hclients) (by rw [h₃, hopened])

/-- No request was generated for it, so it closes its key session first. -/
theorem close_ensures (hR : OpensSessions opened) (ha : a ∉ w₀.activeSessions)
    (hclient : a ∉ w₀.clients sys) (h : Joined opened sys a i w₀ w o) :
    (do let _ ← opencdmSessionClose (some a)
        ActiveSessions.remove (some a)
        return (.fail, none) : Code R (OpenCDMError × Option Addr)).Ensures I []
      (AllOrNothing opened sys w₀) w := by
  have hs : w.session a = o.session := World.session_of h.object
  refine .bind (.bind ((closeSession_ensures h.object h.destroyed).mono fun ok w' hw' => ?_))
  obtain ⟨w₁, hleave, hstill, hopened⟩ := close_opened hR (w := w) (a := a) (i := i)
    (hs ▸ h.cdmBackend) h.mediaKeys (hs ▸ h.valid)
    (by rw [hs, h.opened]; exact Set.mem_insert _ _)
  obtain rfl : w' = w₁.leave a := (congrArg Prod.snd hw').trans hleave
  refine ensures_ret.mpr (abandon_ensures ha ?_ ?_ ?_)
  · simp only [World.leave, World.updateSession_activeSessions, World.record_activeSessions,
      activeSessions_drop, hstill.activeSessions, h.activeSessions]
  · have hhandle : ((w₁.leave a).session a).messageDispatcherClient = none := by
      have ho : w₁.heap[a]? = some o := hstill.heap ▸ h.object
      simp [World.leave, World.session, ho]
    have hclients : w₁.clients = (w₀.updateClients sys (·.insert a)).clients :=
      hstill.clients.trans h.clients
    rw [hhandle, World.drop, (leave_fields w₁ a).1, hstill.session, hs, h.handle]
    exact drop_inserted hclient hclients
  · rw [(leave_fields w₁ a).2, hopened, h.opened, hs]
    exact Set.insert_sdiff_self_of_notMem h.new

end

/-- What is registered, or a client of a dispatcher, is a session that is there. -/
structure Accounted (w : World R) : Prop where
  registered : ∀ a ∈ w.activeSessions, a ∈ w.heap
  clients : ∀ sys, ∀ a ∈ w.clients sys, a ∈ w.heap

theorem Reachable.accounted {x : Run (World R) Mutex Condition Reply} (hx : Reachable x) :
    Accounted x.shared :=
  ⟨fun a => (hx.consistent.registered a).mp, hx.consistent.clients⟩

/-- What the new session is like before it asks for a key session. -/
structure Made (sys : SystemId) (a : Addr) (w w' : World R) (o : Object) : Prop where
  object : w'.heap[a]? = some o
  destroyed : o.destroyed = []
  cdmBackend : o.session.cdmBackend = some sys
  messageDispatcher : o.session.messageDispatcher = some sys
  handle : o.session.messageDispatcherClient = none
  initialized : o.session.isInitialized = false
  activeSessions : w'.activeSessions = w.activeSessions.insert a 1
  clients : w'.clients = w.clients
  rialto : w'.rialto = w.rialto

/-- It gets its key session and becomes a client, or nothing is left but the object. -/
theorem initialize_new {I : World R → Prop} (hR : OpensSessions opened) {w₀ : World R}
    {sys : SystemId} {o : Object} (h : Made sys a w₀ w o) :
    (initializeSession a false).Ensures I [] (fun ok w' =>
      if ok then ∃ i o, Joined opened sys a i w₀ w' o
      else w'.activeSessions = w₀.activeSessions.insert a 1 ∧
        (w'.drop (w'.session a).messageDispatcherClient).clients = w₀.clients ∧
        opened w'.rialto = opened w₀.rialto) w := by
  obtain ⟨hactive, hclients, hbackend, hopened⟩ :=
    askKeySession_opened hR w sys a o.session.sessionType false
  have hheap := askKeySession_heap h.object sys o.session.sessionType false
  refine (initializeSession_ensures (mild_tolerant hR) (by simp) h.object h.destroyed h.cdmBackend
    h.messageDispatcher (fun _ => h.handle) (by simp)).mono fun ok w' hw' => ?_
  rw [h.initialized] at hw'
  obtain ⟨hok, hw'⟩ := hw'
  rw [← hok] at hopened
  cases ok with
  | false =>
    obtain ⟨o', ho', hf⟩ := Mild.forth hw' hheap
    obtain ⟨-, -, -, -, -, hhandle, -, -⟩ := Object.frame_eq hf
    refine ⟨hw'.activeSessions.trans (hactive.trans h.activeSessions), ?_,
      hw'.opened.trans (hopened.trans (congrArg opened h.rialto))⟩
    rw [World.session_of ho', hhandle, h.handle]
    exact hw'.clients.trans (hclients.trans h.clients)
  | true =>
    obtain ⟨i, id, hi, hout, hid, hnew, hopened⟩ := hopened
    rw [hout] at hheap
    rw [if_pos rfl] at hw'
    refine ⟨i, { o with session := { o.session with
      rialtoSessionId := id, messageDispatcherClient := some ⟨sys, a⟩, isInitialized := true } },
      ?_, h.destroyed, h.cdmBackend, rfl, hid, h.rialto ▸ hnew, ?_, ?_, ?_, ?_⟩
    · rw [hw']
      simp [World.join, hheap]
    · rw [hw', ← h.rialto]
      exact hopened
    · rw [hw']
      exact (congrFun hbackend sys).symm ▸ hi
    · rw [hw']
      exact hactive.trans h.activeSessions
    · rw [hw']
      exact congrArg (fun c => Function.update c sys ((c sys).insert a)) (hclients.trans h.clients)

theorem constructSession_ensures {I : World R → Prop} (hR : OpensSessions opened) (h : Accounted w)
    (hint : Addr) (sys : SystemId) (licenseType : LicenseType) (initDataType : String)
    (initData : Bytes) (callbacks : Option OpenCDMSessionCallbacks) (userData : Addr) :
    (opencdmConstructSession hint (some sys) licenseType initDataType initData callbacks
      userData).Ensures I [] (AllOrNothing opened sys w) w := by
  have hnot := w.address_not_mem hint
  have hreg : w.address hint ∉ w.activeSessions := fun hmem => hnot (h.registered _ hmem)
  have hclient : w.address hint ∉ w.clients sys := fun hmem => hnot (h.clients sys _ hmem)
  have hinsert : w.activeSessions.insertIfNew (w.address hint) 1 =
      w.activeSessions.insert (w.address hint) 1 := by
    apply Std.ExtTreeMap.ext_getElem?
    intro b
    simp only [Std.ExtTreeMap.getElem?_insertIfNew, Std.ExtTreeMap.getElem?_insert]
    split_ifs <;> simp_all
  refine .bind ((create_ensures (by simp) hint _ _ _ _ _ _ _).mono fun a w₁ hw₁ => ?_)
  generalize hs : construct (some sys) (some sys) licenseType callbacks userData initDataType initData = s at hw₁
  obtain ⟨ha, he⟩ := Prod.mk.inj hw₁
  subst ha
  generalize w.address hint = a at *
  have ho₁ : w₁.heap[a]? = some ⟨w.allocated + 1, s, []⟩ := by rw [he]; simp
  have hactive : w₁.activeSessions = w.activeSessions.insert a 1 := by rw [he]; exact hinsert
  have hbackend : w₁.backend = w.backend := by rw [he]; rfl
  refine .bind (ensures_read.mpr ?_)
  rw [hbackend]
  by_cases hplayready : isPlayreadyKeysystem (w.backend sys).keySystem = true
  · -- no key session is asked for
    rw [if_pos hplayready]
    refine ensures_ret.mpr ⟨fun hne => absurd rfl hne, fun _ =>
      ⟨a, _, rfl, hnot, hreg, ho₁, hactive, ?_⟩⟩
    rw [if_pos hplayready, he]
    exact ⟨rfl, rfl, _, _, _, by rw [← hs]; rfl⟩
  rw [if_neg hplayready]
  have hmade : Made sys a w w₁ ⟨w.allocated + 1, s, []⟩ := by
    refine ⟨ho₁, rfl, ?_, ?_, ?_, ?_, hactive, ?_, ?_⟩
    · rw [← hs]; rfl
    · rw [← hs]; rfl
    · rw [← hs]; rfl
    · rw [← hs]; rfl
    · rw [he]; rfl
    · rw [he]; rfl
  refine .bind ((initialize_new hR hmade).mono fun ok w₂ hw₂ => ?_)
  cases ok with
  | false =>
    obtain ⟨hactive₂, hclients₂, hopened₂⟩ := hw₂
    exact abandon_ensures hreg hactive₂ hclients₂ hopened₂
  | true =>
    obtain ⟨i, o₂, hj⟩ := hw₂
    refine .bind ((generateRequest_mild hR a _ _ I w₂).mono fun ok w₃ hw₃ => ?_)
    obtain ⟨o₃, hj⟩ := hj.mild hw₃
    cases ok with
    | false => exact close_ensures hR hreg hclient hj
    | true =>
      refine ensures_ret.mpr ⟨fun hne => absurd rfl hne, fun _ =>
        ⟨a, o₃, rfl, hnot, hreg, hj.object, hj.activeSessions, ?_⟩⟩
      rw [if_neg hplayready]
      exact ⟨hj.clients, i, hj.new, hj.opened⟩

/-- From every state in which the sessions that are registered or clients are there, the
call returns, and is all or nothing. -/
theorem construct_all_or_nothing (hR : OpensSessions opened) (h : Accounted w) (hint : Addr)
    (sys : SystemId) (licenseType : LicenseType) (initDataType : String) (initData : Bytes)
    (callbacks : Option OpenCDMSessionCallbacks) (userData : Addr) :
    ∃ r w', (opencdmConstructSession hint (some sys) licenseType initDataType initData callbacks
      userData).exec [] w = .done r w' ∧ AllOrNothing opened sys w r w' :=
  (constructSession_ensures hR h hint sys licenseType initDataType initData callbacks userData).returns

/-- A Rialto with one key session, of the id 7, that generates requests for data. -/
abbrev Single := Option ℕ

namespace Single

def answer (i : ℕ) : (call : MediaKeysCall) → Single → Answer call × Single
  | .createKeySession .., none => (⟨true, some (7 : Int32)⟩, some i)
  | .createKeySession .., some j => (⟨false, none⟩, some j)
  | .closeKeySession id, r =>
    if r = some i ∧ id = 7 then (⟨true, none⟩, none) else (⟨false, none⟩, r)
  | .generateRequest _ _ initData, r => (⟨!initData.isEmpty, none⟩, r)
  | _, r => (⟨true, none⟩, r)

instance : MediaKeys Single where
  createMediaKeys _ r := (true, r)
  call := answer

def keySessions (r : Single) : Set (ℕ × Int32) := {p | r = some p.1 ∧ p.2 = 7}

theorem opensSessions : OpensSessions keySessions where
  created i sessionType isLDL r hok := by
    cases r with
    | none =>
      refine ⟨(7 : Int32), rfl, (by decide : (7 : Int32) ≠ -1), by simp [keySessions], ?_⟩
      ext ⟨j, id⟩
      simp [MediaKeys.call, answer, keySessions, eq_comm, Prod.ext_iff]
    | some j => cases hok
  notCreated i sessionType isLDL r hok := by
    cases r with
    | none => cases hok
    | some j => rfl
  closed i id r hopen := by
    obtain ⟨rfl, rfl⟩ : r = some i ∧ id = 7 := hopen
    refine ⟨by simp [MediaKeys.call, answer], ?_⟩
    ext ⟨j, id⟩
    simp [MediaKeys.call, answer, keySessions, eq_comm, Prod.ext_iff]
  kept i call r hkeeps := by
    cases call with
    | createKeySession sessionType isLDL => exact hkeeps.elim
    | closeKeySession id => exact hkeeps.elim
    | _ => rfl

end Single

/-- The application runs, and there is no session. -/
theorem vacant_runs : (Run.callAll entry [.initializeBackend 0 .running]
    (World.start (none : Single) (fun _ => "widevine") fun _ => true)).isSome = true := by decide

def vacant : Run (World Single) Mutex Condition Reply := ⟨(Run.callAll entry _ _).get vacant_runs, []⟩

/-- A session has the one key session. -/
theorem single_runs : (Run.callAll entry [.initializeBackend 0 .running,
    .constructSession 7 (some 0) .temporary "cenc" [1] none 5]
    (World.start (none : Single) (fun _ => "widevine") fun _ => true)).isSome = true := by decide

def single : Run (World Single) Mutex Condition Reply := ⟨(Run.callAll entry _ _).get single_runs, []⟩

/-- The first session is made, with a key session of its own, and no second one is. -/
theorem construct_all_or_nothing_sample :
    (∃ w', (opencdmConstructSession 7 (some 0) .temporary "cenc" [1] none 5).exec [] vacant.shared =
        .done (.none, some 7) w' ∧ w'.activeSessions = vacant.shared.activeSessions.insert 7 1 ∧
      w'.clients = Function.update vacant.shared.clients 0 ((vacant.shared.clients 0).insert 7) ∧
      ∃ keySession, keySession ∉ Single.keySessions vacant.shared.rialto ∧
        Single.keySessions w'.rialto = insert keySession (Single.keySessions vacant.shared.rialto)) ∧
    ∃ w', (opencdmConstructSession 9 (some 0) .temporary "cenc" [1] none 5).exec [] single.shared =
        .done (.fail, none) w' ∧ w'.activeSessions = single.shared.activeSessions ∧
      w'.clients = single.shared.clients ∧
      Single.keySessions w'.rialto = Single.keySessions single.shared.rialto := by
  have hvacant : Reachable vacant := ⟨_, _, _, Run.reaches_of_callAll (Option.some_get vacant_runs).symm⟩
  have hsingle : Reachable single := ⟨_, _, _, Run.reaches_of_callAll (Option.some_get single_runs).symm⟩
  constructor
  · obtain ⟨r, w', he, hr⟩ := construct_all_or_nothing Single.opensSessions hvacant.accounted 7 0 .temporary
      "cenc" [1] none 5
    obtain ⟨w'', he'⟩ : ∃ w'', (opencdmConstructSession 7 (some 0) .temporary "cenc" [1] none 5).exec []
        vacant.shared = .done (.none, some 7) w'' := ⟨_, rfl⟩
    obtain ⟨rfl, rfl⟩ : r = (.none, some 7) ∧ w' = w'' := by simpa using he.symm.trans he'
    obtain ⟨a, o, ha, -, -, -, hactive, hclients, i, hnew, hopened⟩ := hr.all rfl
    obtain rfl : 7 = a := Option.some.inj ha
    exact ⟨w', he, hactive, hclients, _, hnew, hopened⟩
  · obtain ⟨r, w', he, hr⟩ := construct_all_or_nothing Single.opensSessions hsingle.accounted 9 0 .temporary
      "cenc" [1] none 5
    obtain ⟨w'', he'⟩ : ∃ w'', (opencdmConstructSession 9 (some 0) .temporary "cenc" [1] none 5).exec []
        single.shared = .done (.fail, none) w'' := ⟨_, rfl⟩
    obtain ⟨rfl, rfl⟩ : r = (.fail, none) ∧ w' = w'' := by simpa using he.symm.trans he'
    obtain ⟨-, h₁, h₂, h₃⟩ := hr.nothing (by decide)
    exact ⟨w', he, h₁, h₂, h₃⟩

end RialtoOcdm
