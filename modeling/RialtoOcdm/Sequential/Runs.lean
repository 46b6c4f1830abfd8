import RialtoOcdm.Concurrency.Sequential
import RialtoOcdm.Sequential.Delivery
import RialtoOcdm.Sequential.Still

/-! Every call keeps the sessions consistent when it runs alone, and so does every
sequential run. A call may wait for a challenge; whatever happens before it goes on
keeps them consistent too. -/

namespace RialtoOcdm

open Concurrency Prog OpenCDMSessionPrivate Rialto

variable {R : Type} {α β : Type}

/-- The code keeps the sessions consistent. -/
def Orderly (p : Code R α) : Prop := ∀ w, Consistent w → p.Ensures Consistent [] (fun _ => Consistent) w

theorem Orderly.bind {p : Code R α} {g : α → Code R β} (hp : Orderly p) (hg : ∀ a, Orderly (g a)) :
    Orderly (p >>= g) := fun w h => .bind ((hp w h).mono fun a w' h' => hg a w' h')

theorem Orderly.ret (a : α) : Orderly (.ret a : Code R α) := fun _ h => ensures_ret.mpr h

theorem Hushed.orderly {p : Code R α} (hp : Hushed [] p) : Orderly p := fun w h =>
  (hp Consistent w h.sane).mono fun _ _ hq => h.quiet hq

theorem create_orderly (hint : Addr) (cdm messageDispatcher : Option SystemId)
    (sessionType : LicenseType) (callbacks : Option OpenCDMSessionCallbacks) (context : Addr)
    (initDataType : String) (initData : Bytes) :
    Orderly (ActiveSessions.create hint cdm messageDispatcher sessionType callbacks context
      initDataType initData : Code R Addr) := fun w h =>
  (create_ensures (by simp) hint cdm messageDispatcher sessionType callbacks context initDataType
    initData).mono fun r w' hr => by
      rw [show w' = _ from congrArg Prod.snd hr]
      exact h.create hint rfl rfl rfl

theorem remove_orderly (session : Option Addr) :
    Orderly (ActiveSessions.remove session : Code R Unit) := by
  intro w h
  cases session with
  | none => exact .withLock (by simp) (by simpa [read_bind] using h)
  | some a =>
    refine (remove_ensures (by simp) fun _ => w.freeHandle_nil a).mono fun _ w' hw' => ?_
    rw [hw', World.remove]
    cases hc : w.activeSessions[a]? with
    | none => exact h
    | some count =>
      have hmem : a ∈ w.activeSessions := World.mem_of_count hc
      obtain ⟨o, ho⟩ := World.object_of_mem ((h.registered a).mp hmem)
      dsimp only
      split_ifs
      · exact h.delete ho (count - 1)
      · exact h.quiet (.insertCount hmem)

theorem deliver_orderly (sys : SystemId) (message : Message) (lookups : Addr → Callback → List Bytes) :
    Orderly (MessageDispatcher.deliver (mediaKeysClient (lookUp lookups)) sys message : Code R Unit) :=
  fun _ h => (deliver_ensures h fun a c => lookUp_hushed (by simp) lookups a c).mono fun _ _ h' => h'.1

section Sessions

variable [MediaKeys R]

/-- The backend is asked for a key session for the session at `a`. -/
abbrev World.askKeySession (w : World R) (sys : SystemId) (a : Addr) (sessionType : KeySessionType)
    (isLDL : Bool) : Answer (.createKeySession sessionType isLDL) × World R :=
  w.ask sys (.createKeySession sessionType isLDL) (CdmBackend.storeKeySessionId a sessionType isLDL)

theorem createKeySession_ensures {I : World R → Prop} {held : List Mutex} {w : World R} {sys : SystemId}
    (hheld : .cdmBackend sys ∉ held) (sessionType : KeySessionType) (isLDL : Bool) (a : Addr) :
    (CdmBackend.createKeySession sys sessionType isLDL a).Ensures I held (fun ok w' =>
      ok = (w.askKeySession sys a sessionType isLDL).1.ok ∧
      w' = (w.askKeySession sys a sessionType isLDL).2) w :=
  .withLock hheld (.bind (ensures_awaitFor.mpr (by simp)))

omit [MediaKeys R] in
/-- The answer is stored in a session that has no key session. -/
theorem storeKeySessionId_outcome {w : World R} {a : Addr} {o : Object} (h : Consistent w)
    (ho : w.heap[a]? = some o) (hinit : o.session.isInitialized = false) {sessionType : KeySessionType}
    {isLDL : Bool} (i : ℕ) (answer : Answer (.createKeySession sessionType isLDL)) :
    if answer.ok then ∃ w₁ o₁, Consistent w₁ ∧ w₁.heap[a]? = some o₁ ∧
        o₁.session.isInitialized = false ∧ o₁.session.messageDispatcher = o.session.messageDispatcher ∧
        CdmBackend.storeKeySessionId a sessionType isLDL i answer w =
          w₁.record (.keySessionCreated o₁.serial i o₁.session.rialtoSessionId)
      else Consistent (CdmBackend.storeKeySessionId a sessionType isLDL i answer w) := by
  unfold CdmBackend.storeKeySessionId
  cases answer.out with
  | none =>
    dsimp only
    split_ifs
    · exact ⟨w, o, h, ho, hinit, rfl, by rw [World.serial_of ho, World.session_of ho]⟩
    · exact h
  | some id =>
    have ho' : (w.updateSession a ({ · with rialtoSessionId := id })).heap[a]? =
        some { o with session := { o.session with rialtoSessionId := id } } := by simp [ho]
    rw [World.use_live ho (h.object a o ho).destroyed]
    dsimp only
    split_ifs
    · exact ⟨_, _, h.assign ho hinit id, ho', hinit, rfl,
        by rw [World.serial_of ho', World.session_of ho']⟩
    · exact h.assign ho hinit id

/-- A key session is made for a session that has none, or it stays without one. -/
theorem askKeySession_outcome {w : World R} {a : Addr} {o : Object}
    (h : Consistent w) (ho : w.heap[a]? = some o) (hinit : o.session.isInitialized = false)
    (sys : SystemId) (sessionType : KeySessionType) (isLDL : Bool) :
    if (w.askKeySession sys a sessionType isLDL).1.ok then ∃ i w₁ o₁, Consistent w₁ ∧
        w₁.heap[a]? = some o₁ ∧ o₁.session.isInitialized = false ∧
        o₁.session.messageDispatcher = o.session.messageDispatcher ∧
        (w.askKeySession sys a sessionType isLDL).2 =
          w₁.record (.keySessionCreated o₁.serial i o₁.session.rialtoSessionId)
      else Consistent (w.askKeySession sys a sessionType isLDL).2 := by
  unfold World.askKeySession World.ask
  cases (w.backend sys).mediaKeys with
  | none => exact h.quiet (.record rfl (by simp))
  | some i =>
    have hout := storeKeySessionId_outcome (h.quiet ((Quiet.setRialto
      (MediaKeys.call i (.createKeySession sessionType isLDL) w.rialto).2).trans
      (.record (e := .forwarded sys i (.createKeySession sessionType isLDL)) rfl (by simp)))) ho hinit i
      (MediaKeys.call i (.createKeySession sessionType isLDL) w.rialto).1
    dsimp only
    split_ifs at hout with hok
    · rw [if_pos hok]
      exact ⟨i, hout⟩
    · rw [if_neg hok]
      exact hout

omit [MediaKeys R] in
theorem heap_storeKeySessionId {w : World R} {a : Addr} {o : Object} (ho : w.heap[a]? = some o)
    {sessionType : KeySessionType} {isLDL : Bool} (i : ℕ)
    (answer : Answer (.createKeySession sessionType isLDL)) :
    (CdmBackend.storeKeySessionId a sessionType isLDL i answer w).heap[a]? = some { o with
      session := { o.session with rialtoSessionId := answer.out.getD o.session.rialtoSessionId } } := by
  unfold CdmBackend.storeKeySessionId
  cases answer.out with
  | none =>
    dsimp only
    split_ifs <;> exact ho
  | some id =>
    dsimp only
    split_ifs <;> simp [ho]

/-- The session has the id that the backend wrote, or the one it had. -/
theorem askKeySession_heap {w : World R} {a : Addr} {o : Object} (ho : w.heap[a]? = some o)
    (sys : SystemId) (sessionType : KeySessionType) (isLDL : Bool) :
    (w.askKeySession sys a sessionType isLDL).2.heap[a]? = some { o with session := { o.session with
      rialtoSessionId := (w.askKeySession sys a sessionType isLDL).1.out.getD
        o.session.rialtoSessionId } } := by
  unfold World.askKeySession World.ask
  cases (w.backend sys).mediaKeys with
  | none => exact ho
  | some i =>
    have ho' : ((w.setRialto (MediaKeys.call i (.createKeySession sessionType isLDL) w.rialto).2).record
      (.forwarded sys i (.createKeySession sessionType isLDL))).heap[a]? = some o := ho
    exact heap_storeKeySessionId ho' i _

omit [MediaKeys R] in
theorem assignClient_ensures {I : World R → Prop} {held : List Mutex} {w : World R} {a : Addr} {o : Object}
    (ho : w.heap[a]? = some o) (hd : o.destroyed = []) (hheld : w.FreeHandle held a)
    (handle : Option MessageDispatcherClient) : (assignClient a handle).Ensures I held (fun _ w' =>
      w' = (w.updateSession a ({ · with messageDispatcherClient := handle })).drop
        o.session.messageDispatcherClient) w := by
  simp only [assignClient, update_bind, ensures_act, World.use_live ho hd, World.session_of ho]
  cases hold : o.session.messageDispatcherClient with
  | none => simp [World.drop]
  | some old => exact removeClient_ensures (hheld old ((World.session_of ho).symm ▸ hold)) _

omit [MediaKeys R] in
theorem writeMember_ensures {I : World R → Prop} {w : World R} {a : Addr} {o : Object}
    {held : List Mutex} (ho : w.heap[a]? = some o) (hd : o.destroyed = []) (m : Member)
    (f : Session → Session) :
    (writeMember a m f).Ensures I held (fun _ w' => w' = w.updateSession a f) w := by
  simp [writeMember, World.use_live ho hd]

/-- `initialize` with a backend and a dispatcher: it asks for a key session the first
time, and the session becomes a client when it gets one. When it gets none the last
error of Rialto is asked for. With a key session it locks the dispatcher. -/
theorem initializeSession_ensures {T : World R → World R → Prop} (hT : Tolerant T)
    {I : World R → Prop} {held : List Mutex} (hheld : ∀ sys, .cdmBackend sys ∉ held) {w : World R}
    {a : Addr} {o : Object} (ho : w.heap[a]? = some o) (hd : o.destroyed = []) {cdm sys : SystemId}
    (hcdm : o.session.cdmBackend = some cdm) (hsys : o.session.messageDispatcher = some sys)
    (hno : o.session.isInitialized = false → o.session.messageDispatcherClient = none) {isLDL : Bool}
    (hfree : o.session.isInitialized = false →
      (w.askKeySession cdm a o.session.sessionType isLDL).1.ok = true → .dispatcher sys ∉ held) :
    (initializeSession a isLDL).Ensures I held (fun ok w' =>
      if o.session.isInitialized then ok = true ∧ w' = w
      else ok = (w.askKeySession cdm a o.session.sessionType isLDL).1.ok ∧
        if ok then w' = (w.askKeySession cdm a o.session.sessionType isLDL).2.join a sys
        else T (w.askKeySession cdm a o.session.sessionType isLDL).2 w') w := by
  rw [initializeSession, ensures_readMember ho hd, hcdm]
  dsimp only
  rw [ensures_readMember ho hd, hsys]
  dsimp only
  rw [ensures_readMember ho hd]
  cases hinit : o.session.isInitialized with
  | true => simp
  | false =>
    rw [if_neg (by simp), ensures_readMember ho hd]
    refine .bind (.bind ((createKeySession_ensures (hheld cdm) o.session.sessionType isLDL a).mono
      fun ok w₁ ⟨hok, hw₁⟩ => ?_))
    cases ok with
    | false =>
      refine .bind ((hT.getLastDrmError hheld a I w₁).mono fun _ w' hw' => ?_)
      exact ensures_ret.mpr (ensures_ret.mpr ⟨hok, hw₁ ▸ hw'⟩)
    | true =>
      have ho₁ := askKeySession_heap ho cdm o.session.sessionType isLDL
      rw [← hw₁] at ho₁
      generalize (w.askKeySession cdm a o.session.sessionType isLDL).1.out.getD
        o.session.rialtoSessionId = id at ho₁
      have hdisp := hfree hinit hok.symm
      refine ensures_ret.mpr (.bind (.bind ((addClient_ensures hdisp a).mono fun _ w₂ hw₂ => ?_)))
      have ho₂ : w₂.heap[a]? = some { o with session := { o.session with rialtoSessionId := id } } := by
        rw [hw₂]; exact ho₁
      have hfree₂ : w₂.FreeHandle held a := fun handle hs => by
        rw [World.session_of ho₂] at hs
        exact absurd ((hno hinit).symm.trans hs) (by simp)
      refine ensures_ret.mpr (.bind ((assignClient_ensures ho₂ hd hfree₂ _).mono fun _ w₃ hw₃ => ?_))
      have ho₃ : w₃.heap[a]? = some { o with session := { o.session with
          rialtoSessionId := id, messageDispatcherClient := some ⟨sys, a⟩ } } := by
        rw [hw₃, heap_drop, World.heap_updateSession, if_pos rfl, ho₂]
        rfl
      refine .bind ((writeMember_ensures ho₃ hd _ _).mono fun _ w₄ hw₄ => ensures_ret.mpr ⟨hok, ?_⟩)
      dsimp only at hw₃
      rw [hw₄, hw₃, hno hinit, hw₂, hw₁]
      rfl

omit [MediaKeys R] in
/-- A session that was not initialized has no handle. -/
theorem Consistent.handle_eq_none {w : World R} (h : Consistent w) {a : Addr} {o : Object}
    (ho : w.heap[a]? = some o) (hinit : o.session.isInitialized = false) :
    o.session.messageDispatcherClient = none := by
  cases (h.object a o ho).registered with
  | no handle listening => exact handle
  | yes sys dispatcher handle initialized listening => simp [hinit] at initialized

theorem initializeSession_orderly (a : Addr) (isLDL : Bool) :
    Orderly (initializeSession a isLDL : Code R Bool) := by
  intro w h
  by_cases ha : a ∈ w.heap
  · obtain ⟨o, ho⟩ := World.object_of_mem ha
    have hd := (h.object a o ho).destroyed
    cases hcdm : o.session.cdmBackend with
    | none =>
      rw [initializeSession, ensures_readMember ho hd, hcdm]
      exact ensures_ret.mpr h
    | some cdm =>
      cases hsys : o.session.messageDispatcher with
      | none =>
        rw [initializeSession, ensures_readMember ho hd, hcdm]
        dsimp only
        rw [ensures_readMember ho hd, hsys]
        exact ensures_ret.mpr h
      | some sys =>
        refine (initializeSession_ensures still_tolerant (by simp) ho hd hcdm hsys (h.handle_eq_none ho)
          (by simp)).mono
          fun ok w' hw' => ?_
        cases hinit : o.session.isInitialized with
        | true =>
          rw [hinit] at hw'
          rw [hw'.2]
          exact h
        | false =>
          rw [hinit] at hw'
          obtain ⟨hok, hw'⟩ := hw'
          have hout := askKeySession_outcome h ho hinit cdm o.session.sessionType isLDL
          rw [← hok] at hout
          cases ok with
          | false => exact hout.quiet hw'.quiet
          | true =>
            obtain ⟨i, w₁, o₁, h₁, ho₁, hinit₁, hsys₁, he⟩ := hout
            rw [if_pos rfl, he] at hw'
            rw [hw']
            exact h₁.join ho₁ hinit₁ (hsys₁.trans hsys) i
  · simp only [initializeSession, readMember, act_bind, ret_bind, ensures_act, session_of_not_mem ha,
      Session.null]
    exact ensures_ret.mpr (h.quiet (.use _ _))

theorem pass_ensures {I : World R → Prop} {held : List Mutex} {w : World R} {sys : SystemId}
    (hheld : .cdmBackend sys ∉ held) (call : MediaKeysCall) :
    (CdmBackend.pass sys call).Ensures I held (fun r w' => (r, w') = w.ask sys call fun _ _ w => w) w :=
  .withLock hheld (ensures_update.mpr rfl)

/-- What `closeSession` answers, and the state after it. -/
def World.close (w : World R) (a : Addr) : Bool × World R :=
  match (w.session a).cdmBackend with
  | none => (false, w)
  | some cdm =>
    if -1 ≠ (w.session a).rialtoSessionId then
      let passed := w.ask cdm (.closeKeySession (w.session a).rialtoSessionId) fun _ _ w => w
      if passed.1.ok then (true, passed.2.leave a) else (false, passed.2)
    else (false, w)

theorem closeSession_ensures {I : World R → Prop} {w : World R} {a : Addr} {o : Object}
    (ho : w.heap[a]? = some o) (hd : o.destroyed = []) :
    (closeSession a).Ensures I [] (fun ok w' => (ok, w') = w.close a) w := by
  rw [closeSession, onKeySession, onKeySessionWhere, ensures_readMember ho hd, World.close,
    World.session_of ho]
  cases o.session.cdmBackend with
  | none => simp
  | some cdm =>
    dsimp only
    rw [pure_eq, ret_bind, if_pos rfl, ensures_readMember ho hd]
    by_cases hid : -1 ≠ o.session.rialtoSessionId
    · rw [if_pos hid, if_pos hid, ensures_readMember ho hd]
      refine .bind (.bind ((pass_ensures (by simp) _).mono fun answer w₁ hw₁ => ensures_ret.mpr ?_))
      have hs := Still.ask w cdm (.closeKeySession o.session.rialtoSessionId)
      rw [← hw₁] at hs ⊢
      dsimp only at hs ⊢
      cases answer.ok with
      | false => exact ensures_ret.mpr rfl
      | true =>
        have ho₁ : w₁.heap[a]? = some o := hs.heap ▸ ho
        refine .bind (ensures_modify.mpr ?_)
        refine .bind ((assignClient_ensures (w := w₁.record (.keySessionClosed (w₁.serial a))) ho₁ hd
          (World.freeHandle_nil _ a) none).mono fun _ w₂ hw₂ => ?_)
        have ho₂ : w₂.heap[a]? = some { o with session :=
            { o.session with messageDispatcherClient := none } } := by
          rw [hw₂, heap_drop, World.heap_updateSession, if_pos rfl, World.record_heap, ho₁]
          rfl
        refine .bind (ensures_modify.mpr ?_)
        rw [World.use_live ho₂ hd]
        refine .bind ((writeMember_ensures (o := { o with session := { o.session with
          messageDispatcherClient := none, challengeData := [] } }) (by simp [ho₂]) hd _ _).mono
          fun _ w₃ hw₃ => ensures_ret.mpr ?_)
        have hserial : w₂.serial a = w₁.serial a := by rw [World.serial_of ho₂, World.serial_of ho₁]
        rw [hw₃, hserial, hw₂, ← World.session_of ho₁]
        rfl
    · rw [if_neg hid, if_neg hid]
      exact ensures_ret.mpr rfl

/-- Closing fails and leaves the library as it is, or the session leaves. -/
theorem World.close_cases (w : World R) (a : Addr) :
    (w.close a).1 = false ∧ Still w (w.close a).2 ∨
    (w.close a).1 = true ∧ ∃ w₁, Still w w₁ ∧ (w.close a).2 = w₁.leave a := by
  unfold World.close
  split
  · exact .inl ⟨rfl, .refl w⟩
  · next cdm _ =>
    have hs := Still.ask w cdm (.closeKeySession (w.session a).rialtoSessionId)
    dsimp only
    split_ifs
    · exact .inr ⟨rfl, _, hs, rfl⟩
    · exact .inl ⟨rfl, hs⟩
    · exact .inl ⟨rfl, .refl w⟩

theorem closeSession_orderly (a : Addr) : Orderly (closeSession a : Code R Bool) := by
  intro w h
  by_cases ha : a ∈ w.heap
  · obtain ⟨o, ho⟩ := World.object_of_mem ha
    apply (closeSession_ensures ho (h.object a o ho).destroyed).mono
    intro ok w' hw'
    rw [show w' = (w.close a).2 from congrArg Prod.snd hw']
    rcases w.close_cases a with ⟨-, hs⟩ | ⟨-, w₁, hs, he⟩
    · exact h.quiet hs.quiet
    · rw [he]
      exact (h.quiet hs.quiet).leave (hs.heap ▸ ho)
  · simp only [closeSession, onKeySession, onKeySessionWhere, readMember, act_bind, ret_bind,
      ensures_act, session_of_not_mem ha, Session.null]
    exact ensures_ret.mpr (h.quiet (.use _ _))

/-- A session that closes its key session does so in the story if and only if the answer is true. -/
theorem Consistent.closes {w : World R} (h : Consistent w) {a : Addr} {o : Object} (ho : w.heap[a]? = some o) :
    ∃ ok w', (closeSession a).exec [] w = .done ok w' ∧ Consistent w' ∧
      story w'.journal = if ok then .closed o.serial :: story w.journal else story w.journal := by
  have hclose : (closeSession a).Ensures (fun _ => False) [] (fun ok w' => Consistent w' ∧
      story w'.journal = if ok then .closed o.serial :: story w.journal else story w.journal) w := by
    apply (closeSession_ensures ho (h.object a o ho).destroyed).mono
    intro ok w' hw'
    obtain ⟨rfl, rfl⟩ : ok = (w.close a).1 ∧ w' = (w.close a).2 := Prod.ext_iff.mp hw'
    rcases w.close_cases a with ⟨hok, hs⟩ | ⟨hok, w₁, hs, he⟩
    · rw [hok]
      exact ⟨h.quiet hs.quiet, hs.quiet.story⟩
    · rw [hok, he, ← hs.quiet.story]
      have ho₁ : w₁.heap[a]? = some o := hs.heap ▸ ho
      refine ⟨(h.quiet hs.quiet).leave ho₁, ?_⟩
      rw [World.leave_journal ho₁, story_cons_of_none rfl, story_cons rfl]
      rfl
  exact hclose.returns

theorem getChallengeData_orderly (a : Addr) :
    Orderly (getChallengeData a : Code R (Option Bytes)) := by
  apply (requestChallenge_hushed (by simp) a).orderly.bind
  intro ok
  cases ok with
  | false => exact .ret _
  | true =>
    refine Orderly.bind (fun w h => ?_) fun _ => .ret _
    refine .bind (ensures_modify.mpr (.withLock (by simp) (.bind (ensures_modify.mpr ?_))))
    have h' := h.quiet ((Quiet.use a .mutex).trans (.use a .challengeCv))
    exact .bind (.await h' fun w h _ => ensures_act.mpr (ensures_ret.mpr (h.quiet (.use _ _))))

/-! ### The interface -/

omit [MediaKeys R] in
/-- A function that passes on to a session which is not null. -/
theorem onSession_orderly (session : Option Addr) (null : OpenCDMError) {op : Addr → Code R Bool}
    (hop : ∀ a, Orderly (op a)) : Orderly (onSession session null op) := by
  cases session with
  | none => exact .ret _
  | some a => exact (hop a).bind fun _ => .ret _

omit [MediaKeys R] in
/-- An operation that does no more than ask the backend. -/
theorem operation_orderly (a : Addr) {p : SystemId → Int32 → Code R Bool}
    (hp : ∀ cdm id, Hushed [] (p cdm id)) : Orderly (onKeySession a p) :=
  (onKeySession_hushed a hp).orderly

theorem onLicense_orderly (session : Option Addr) (license : Option Bytes) :
    Orderly (onLicense session license : Code R OpenCDMError) := by
  unfold onLicense
  split
  · exact .ret _
  · exact .ret _
  · split_ifs
    · exact .ret _
    · exact .bind (operation_orderly _ fun cdm id => orLastDrmError_hushed (by simp) _
        (ok_hushed (pass_hushed (by simp) _))) fun _ => .ret _

theorem Operation.orderly (session : Option Addr) (op : Operation) :
    Orderly (op.code session : Code R OpenCDMError) := by
  cases op with
  | close => exact onSession_orderly session _ closeSession_orderly
  | cleanDecryptContext => exact onSession_orderly session _ closeSession_orderly
  | load =>
    exact onSession_orderly session _ fun a => operation_orderly a fun cdm id =>
      orLastDrmError_hushed (by simp) a (ok_hushed (pass_hushed (by simp) _))
  | remove =>
    exact onSession_orderly session _ fun a => operation_orderly a fun cdm id =>
      ok_hushed (pass_hushed (by simp) _)
  | setDrmHeader drmHeader =>
    exact onSession_orderly session _ fun a => operation_orderly a fun cdm id =>
      ok_hushed (pass_hushed (by simp) _)
  | update keyMessage => exact onLicense_orderly session keyMessage
  | storeLicenseData licenseData => exact onLicense_orderly session licenseData
  | selectKeyId keyId =>
    simp only [code, opencdmSessionSelectKeyId]
    split
    · next a key =>
      have hselect : Hushed [] (OpenCDMSessionPrivate.selectKeyId a key : Code R Bool) :=
        .bind (writeMember_hushed (fun _ => rfl) fun _ => rfl) fun _ => .ret _
      split_ifs
      · exact .ret _
      · exact hselect.orderly.bind fun _ => .ret _
    · exact .ret _
  | systemError =>
    cases session with
    | none => exact .ret _
    | some a => exact (getLastDrmError_hushed (by simp) a).orderly.bind fun _ => .ret _
  | cancelChallengeData => exact .ret _

theorem constructSession_orderly (hint : Addr) (system : Option SystemId) (licenseType : LicenseType)
    (initDataType : String) (initData : Bytes) (callbacks : Option OpenCDMSessionCallbacks)
    (userData : Addr) : Orderly (opencdmConstructSession hint system licenseType initDataType initData
      callbacks userData : Code R _) := by
  cases system with
  | none => exact .ret _
  | some sys =>
    refine (create_orderly _ _ _ _ _ _ _ _).bind fun a => Hushed.read.orderly.bind fun w => ?_
    split_ifs
    · exact .ret _
    · apply (initializeSession_orderly a false).bind
      intro ok
      split_ifs
      · exact (remove_orderly (some a)).bind fun _ => .ret _
      · apply (generateRequest_hushed (by simp) a _ _).orderly.bind
        intro ok
        split_ifs
        · exact (onSession_orderly (some a) _ closeSession_orderly).bind fun _ =>
            (remove_orderly (some a)).bind fun _ => .ret _
        · exact .ret _

/-- Every call keeps the sessions consistent. -/
theorem entry_orderly (c : Call) : Orderly (entry c : Code R Reply) := by
  cases c with
  | constructSession hint system licenseType initDataType initData callbacks userData =>
    exact (constructSession_orderly hint system licenseType initDataType initData callbacks
      userData).bind fun _ => .ret _
  | destructSession session =>
    exact ((remove_orderly session).bind fun _ => .ret _).bind fun _ => .ret _
  | operation session op => exact (op.orderly session).bind fun _ => .ret _
  | getChallengeData session challenge challengeSize isLDL =>
    refine Orderly.bind ?_ fun _ => .ret _
    cases session with
    | none => exact .ret _
    | some a =>
      cases challengeSize with
      | false => exact .ret _
      | true =>
        apply (initializeSession_orderly a _).bind
        intro ok
        cases ok with
        | false => exact .ret _
        | true =>
          apply (getChallengeData_orderly a).bind
          intro read
          cases read <;> exact .ret _
  | hasKeyId session keyId =>
    refine Orderly.bind ?_ fun _ => .ret _
    cases session with
    | none => exact .ret _
    | some a =>
      refine (operation_orderly a fun cdm id => ok_hushed (pass_hushed (by simp) _)).bind fun ok => ?_
      split_ifs <;> exact .ret _
  | sessionStatus session keyId =>
    refine Orderly.bind ?_ fun _ => .ret _
    unfold opencdmSessionStatus
    split
    · split_ifs
      · exact (status_hushed _ _).orderly
      · exact .ret _
    · exact .ret _
  | sessionId session =>
    refine Orderly.bind ?_ fun _ => .ret _
    cases session with
    | none => exact .ret _
    | some a => exact (getSessionId_hushed a).orderly.bind fun _ => .ret _
  | getSession keyId => exact (get_hushed (by simp) keyId).orderly.bind fun _ => .ret _
  | create hint cdm messageDispatcher sessionType callbacks context initDataType initData =>
    exact (create_orderly _ _ _ _ _ _ _ _).bind fun _ => .ret _
  | initializeSession session isLDL => exact (initializeSession_orderly session isLDL).bind fun _ => .ret _
  | generateRequest session initDataType initData =>
    exact (generateRequest_hushed (by simp) session _ _).orderly.bind fun _ => .ret _
  | initializeBackend sys initialState =>
    exact (initializeBackend_hushed sys initialState).orderly.bind fun _ => .ret _
  | notifyApplicationState sys state =>
    exact (notifyApplicationState_hushed sys state).orderly.bind fun _ => .ret _
  | deliver sys message lookups => exact (deliver_orderly sys message lookups).bind fun _ => .ret _

/-- What a process that uses the library comes to, one call after the other. -/
def Reachable (x : Run (World R) Mutex Condition Reply) : Prop :=
  ∃ (rialto : R) (keySystem : SystemId → String) (mediaKeysFactory : SystemId → Bool),
    Relation.ReflTransGen (Run.Step entry) ⟨.start rialto keySystem mediaKeysFactory, []⟩ x

omit [MediaKeys R] in
theorem Consistent.start (rialto : R) (keySystem : SystemId → String)
    (mediaKeysFactory : SystemId → Bool) :
    Consistent (World.start rialto keySystem mediaKeysFactory) where
  object a o ho := by simp [World.start] at ho
  callbacks n := rfl
  clients sys a ha := by simp [World.start] at ha
  registered a := by simp [World.start]
  serial a o ho := by simp [World.start] at ho
  distinct a b o o' ho := by simp [World.start] at ho
  gone n _ := ⟨rfl, Nat.zero_le _⟩
  fresh n _ := rfl

/-- The invariant of sequential runs. -/
theorem Reachable.consistent {x : Run (World R) Mutex Condition Reply} (hx : Reachable x) :
    Consistent x.shared := by
  obtain ⟨rialto, keySystem, mediaKeysFactory, hr⟩ := hx
  have hstart : Run.Keeps (Consistent (R := R)) (⟨.start rialto keySystem mediaKeysFactory, []⟩ :
      Run (World R) Mutex Condition Reply) := ⟨.start _ _ _, by simp⟩
  exact (hstart.reaches (fun c w h => entry_orderly c w h) hr).shared

end Sessions

end RialtoOcdm
