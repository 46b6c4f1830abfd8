import RialtoOcdm.Sequential.Clients

/-! Operations that fail. They change nothing of the library, with one exception: the
backend is handed a reference to the key session id of the session that is initialized,
and may have written to it when it reports that it failed. -/

namespace RialtoOcdm

open Concurrency Prog OpenCDMSessionPrivate Rialto

variable {R : Type} [MediaKeys R] {I : World R → Prop} {w : World R} {a : Addr} {o : Object}

/-- The operations of a session that may fail, with both overloads of `initialize`. -/
inductive SessionOperation
  | initializeSession (isLDL : Bool)
  | generateRequest (initDataType : String) (initData : Bytes)
  | loadSession
  | updateSession (license : Bytes)
  | getChallengeData
  | setDrmHeader (drmHeader : Bytes)
  | closeSession
  | removeSession

namespace SessionOperation

def code (a : Addr) : SessionOperation → Code R Bool
  | initializeSession isLDL => OpenCDMSessionPrivate.initializeSession a isLDL
  | generateRequest initDataType initData =>
    OpenCDMSessionPrivate.generateRequest a initDataType initData
  | loadSession => OpenCDMSessionPrivate.loadSession a
  | updateSession license => OpenCDMSessionPrivate.updateSession a license
  | getChallengeData => do return (← OpenCDMSessionPrivate.getChallengeData a).isSome
  | setDrmHeader drmHeader => OpenCDMSessionPrivate.setDrmHeader a drmHeader
  | closeSession => OpenCDMSessionPrivate.closeSession a
  | removeSession => OpenCDMSessionPrivate.removeSession a

/-- The session asks for its first key session, and the backend gives it none but
another id. -/
def Overwrites (w : World R) (s : Session) : SessionOperation → Prop
  | initializeSession isLDL => s.isInitialized = false ∧ s.messageDispatcher ≠ none ∧
    ∃ cdm mediaKeys id, s.cdmBackend = some cdm ∧ (w.backend cdm).mediaKeys = some mediaKeys ∧
      (MediaKeys.call mediaKeys (.createKeySession s.sessionType isLDL) w.rialto).1 =
        ⟨false, some id⟩ ∧ id ≠ s.rialtoSessionId
  | _ => False

end SessionOperation

/-! ### `initialize` -/

omit [MediaKeys R] in
/-- Writing the id that is there already. -/
theorem updateSession_eq_self (ho : w.heap[a]? = some o) {f : Session → Session}
    (hf : f o.session = o.session) : w.updateSession a f = w := by
  have hheap : (w.updateSession a f).heap = w.heap := by
    apply Std.ExtTreeMap.ext_getElem?
    intro b
    rw [World.heap_updateSession]
    split_ifs with hb
    · rw [← hb, ho, Option.map_some, hf]
    · rfl
  exact World.mk.injEq .. |>.mpr ⟨rfl, rfl, rfl, rfl, rfl, hheap, rfl, rfl⟩

/-- The backend fails, and what it wrote is no other id. -/
theorem askKeySession_still (ho : w.heap[a]? = some o) (hd : o.destroyed = []) (sys : SystemId)
    (sessionType : KeySessionType) (isLDL : Bool)
    (hok : (w.askKeySession sys a sessionType isLDL).1.ok = false)
    (hid : ∀ mediaKeys id, (w.backend sys).mediaKeys = some mediaKeys →
      (MediaKeys.call mediaKeys (.createKeySession sessionType isLDL) w.rialto).1 = ⟨false, some id⟩ →
      id = o.session.rialtoSessionId) : Still w (w.askKeySession sys a sessionType isLDL).2 := by
  unfold World.askKeySession World.ask at hok ⊢
  cases hi : (w.backend sys).mediaKeys with
  | none => exact ⟨.record rfl (by simp), rfl⟩
  | some i =>
    rw [hi] at hok
    have hid := hid i
    dsimp only at hok ⊢
    generalize MediaKeys.call i (.createKeySession sessionType isLDL) w.rialto = r at hok hid ⊢
    obtain ⟨⟨ok, out⟩, rialto⟩ := r
    dsimp only at hok
    subst hok
    have hq : Still w ((w.setRialto rialto).record (.forwarded sys i (.createKeySession sessionType isLDL))) :=
      ⟨(Quiet.setRialto _).trans (.record rfl (by simp)), rfl⟩
    cases out with
    | none => exact hq
    | some id =>
      simp only [CdmBackend.storeKeySessionId, Bool.false_eq_true, if_false]
      obtain rfl := hid id hi rfl
      rw [World.use_live (w := (w.setRialto rialto).record _) ho hd,
        updateSession_eq_self (w := (w.setRialto rialto).record _) ho rfl]
      exact hq

theorem initializeSession_failure (h : Consistent w) (ho : w.heap[a]? = some o) {isLDL : Bool}
    (hno : ¬ (SessionOperation.initializeSession isLDL).Overwrites w o.session) :
    (initializeSession a isLDL).Ensures I [] (fun ok w' => ok = false → Still w w') w := by
  have hd := (h.object a o ho).destroyed
  cases hcdm : o.session.cdmBackend with
  | none =>
    rw [initializeSession, ensures_readMember ho hd, hcdm]
    exact ensures_ret.mpr fun _ => .refl w
  | some cdm =>
    cases hsys : o.session.messageDispatcher with
    | none =>
      rw [initializeSession, ensures_readMember ho hd, hcdm]
      dsimp only
      rw [ensures_readMember ho hd, hsys]
      exact ensures_ret.mpr fun _ => .refl w
    | some sys =>
      refine (initializeSession_ensures still_tolerant (by simp) ho hd hcdm hsys
        (h.handle_eq_none ho) (by simp)).mono
        fun ok w' hw' hok => ?_
      subst hok
      cases hinit : o.session.isInitialized with
      | true => simp [hinit] at hw'
      | false =>
        rw [hinit] at hw'
        obtain ⟨hok, hw'⟩ := hw'
        refine (askKeySession_still ho hd cdm _ isLDL hok.symm fun i id hi he => ?_).trans hw'
        by_contra hne
        exact hno ⟨hinit, by simp [hsys], cdm, i, id, hcdm, hi, he, hne⟩

theorem initializeSession_overwrites (h : Consistent w) (ho : w.heap[a]? = some o) {isLDL : Bool}
    (hover : (SessionOperation.initializeSession isLDL).Overwrites w o.session) :
    (initializeSession a isLDL).Ensures I []
      (fun _ w' => (w'.session a).rialtoSessionId ≠ o.session.rialtoSessionId) w := by
  obtain ⟨hinit, hsys, cdm, i, id, hcdm, hi, he, hne⟩ := hover
  obtain ⟨sys, hsys⟩ := Option.ne_none_iff_exists'.mp hsys
  have hd := (h.object a o ho).destroyed
  have hask : (w.askKeySession cdm a o.session.sessionType isLDL).1 = ⟨false, some id⟩ := by
    rw [World.askKeySession, World.ask, hi]
    exact he
  refine (initializeSession_ensures still_tolerant (by simp) ho hd hcdm hsys
        (h.handle_eq_none ho) (by simp)).mono
    fun ok w' hw' => ?_
  rw [hinit, hask] at hw'
  obtain ⟨rfl, hw'⟩ := hw'
  have ho' := askKeySession_heap ho cdm o.session.sessionType isLDL
  rw [hask] at ho'
  rw [hw'.session, World.session_of ho']
  exact hne

/-! ### All operations -/

theorem request_stillOnFailure (cdm : SystemId) (id : Int32) (initDataType : InitDataType)
    (initData : Bytes) : StillOnFailure (request a cdm id initDataType initData : Code R Bool) := by
  intro I w hs
  refine .bind (.bind ((still_tolerant.pass_ok (by simp) (by trivial) I w).mono fun ok w' h => ?_))
  cases ok with
  | true =>
    -- the request was generated, and nothing that follows fails
    refine ensures_ret.mpr (.bind ?_)
    apply (initializeCdmKeySessionId_hushed (by simp) a cdm I w' (h.quiet.sane hs)).mono
    intro _ _ _
    exact ensures_ret.mpr (by simp)
  | false =>
    refine .bind ((still_tolerant.getLastDrmError (by simp) a I w').mono fun _ w'' h' => ?_)
    exact ensures_ret.mpr (ensures_ret.mpr fun _ => h.trans h')

theorem requestChallenge_stillOnFailure : StillOnFailure (requestChallenge a : Code R Bool) := by
  have hT := still_tolerant (R := R)
  refine onKeySessionWhere_stillOnFailure a (hT.bind (hT.readMember a _ _) fun _ => hT.ret _)
    fun cdm id => ?_
  exact (hT.readMember a _ _).then fun _ => (hT.readMember a _ _).then fun _ =>
    request_stillOnFailure cdm id _ _

theorem closeSession_stillOnFailure (h : Consistent w) (ho : w.heap[a]? = some o) :
    (closeSession a).Ensures I [] (fun ok w' => ok = false → Still w w') w := by
  apply (closeSession_ensures ho (h.object a o ho).destroyed).mono
  intro ok w' hw' hok
  rcases w.close_cases a with ⟨-, hs⟩ | ⟨htrue, -⟩
  · rw [← hw'] at hs
    exact hs
  · rw [← hw'] at htrue
    cases hok.symm.trans htrue

/-- The one failure that changes something is that of an `initialize` whose call of the
backend wrote another id. -/
theorem SessionOperation.failure {op : SessionOperation} (h : Consistent w) (ho : w.heap[a]? = some o)
    (hno : ¬ op.Overwrites w o.session) :
    (op.code a).Ensures (fun _ => True) [] (fun ok w' => ok = false → Still w w') w := by
  have hT := still_tolerant (R := R)
  cases op with
  | initializeSession isLDL => exact initializeSession_failure h ho hno
  | generateRequest initDataType initData =>
    exact onKeySessionWhere_stillOnFailure a (hT.ret _) (fun cdm id => request_stillOnFailure cdm id _ _)
      _ w h.sane
  | loadSession =>
    exact (operation_still a fun cdm id => hT.orLastDrmError (by simp) a
      (hT.pass_ok (by simp) (by trivial))).onFailure _ w h.sane
  | updateSession license =>
    exact (operation_still a fun cdm id => hT.orLastDrmError (by simp) a
      (hT.pass_ok (by simp) (by trivial))).onFailure _ w h.sane
  | getChallengeData =>
    refine .bind (.bind ((requestChallenge_stillOnFailure _ w h.sane).mono fun ok w' hw' => ?_))
    cases ok with
    | false => exact ensures_ret.mpr (ensures_ret.mpr fun _ => hw' rfl)
    | true =>
      -- it waits, and whatever has happened then, a challenge is answered
      refine .bind (.bind (ensures_modify.mpr (.withLock (by simp) (.bind (ensures_modify.mpr ?_)))))
      exact .bind (.await trivial fun w _ _ => ensures_act.mpr (ensures_ret.mpr (by simp)))
  | setDrmHeader drmHeader =>
    exact (operation_still a fun cdm id => hT.pass_ok (by simp) (by trivial)).onFailure _ w h.sane
  | closeSession => exact closeSession_stillOnFailure h ho
  | removeSession =>
    exact (operation_still a fun cdm id => hT.pass_ok (by simp) (by trivial)).onFailure _ w h.sane

/-- What an operation leaves alone: the session and its place in the dispatchers. -/
def Unchanged (a : Addr) (w w' : World R) : Prop :=
  w'.session a = w.session a ∧ ∀ sys, a ∈ w'.clients sys ↔ a ∈ w.clients sys

/-- In every state of a sequential run an operation that fails leaves the session and its
place in the dispatchers as they were, and with them everything else in the library, if
and only if it is not an `initialize` for which the backend wrote another id before it
reported that it failed. -/
theorem failure_unchanged_iff {x : Run (World R) Mutex Condition Reply} (hx : Reachable x)
    (ho : x.shared.heap[a]? = some o) {op : SessionOperation} {w' : World R}
    (hf : (op.code a).exec [] x.shared = .done false w') :
    (Unchanged a x.shared w' ↔ ¬ op.Overwrites x.shared o.session) ∧
    (¬ op.Overwrites x.shared o.session →
      w' = { x.shared with rialto := w'.rialto, journal := w'.journal }) := by
  have hstill : ¬ op.Overwrites x.shared o.session → Still x.shared w' := fun hno =>
    (op.failure hx.consistent ho hno).done hf rfl
  refine ⟨⟨fun ⟨hsame, _⟩ hover => ?_, fun hno => ?_⟩, fun hno => (hstill hno).eq⟩
  · cases op with
    | initializeSession isLDL =>
      have hne : (w'.session a).rialtoSessionId ≠ o.session.rialtoSessionId :=
        (initializeSession_overwrites (I := fun _ => True) hx.consistent ho hover).done hf
      rw [hsame, World.session_of ho] at hne
      exact hne rfl
    | _ => exact hover
  · exact ⟨(hstill hno).session a, fun sys => by rw [(hstill hno).clients]⟩

/-- A Rialto that writes the id 7 to its argument and then reports that it failed. -/
inductive Careless
  | mk

instance : MediaKeys Careless where
  createMediaKeys _ r := (true, r)
  call _ call r := (⟨false, call.granted⟩, r)

/-- A session is made, and asks for no key session yet. -/
def carelessCalls : List Call :=
  [.initializeBackend 0 .running, .create 7 (some 0) (some 0) .temporary none 0 "cenc" []]

theorem careless_runs : (Run.callAll entry carelessCalls
    (World.start Careless.mk (fun _ => "widevine") fun _ => true)).isSome = true := by decide

def careless : Run (World Careless) Mutex Condition Reply :=
  ⟨(Run.callAll entry carelessCalls _).get careless_runs, []⟩

/-- The session has asked for a key session and got an id only. -/
theorem refused_runs : (Run.callAll entry (carelessCalls ++ [.initializeSession 7 false])
    (World.start Careless.mk (fun _ => "widevine") fun _ => true)).isSome = true := by decide

def refused : Run (World Careless) Mutex Condition Reply :=
  ⟨(Run.callAll entry (carelessCalls ++ [.initializeSession 7 false]) _).get refused_runs, []⟩

/-- The backend is asked to take a license and refuses, and then another time for a key session,
when the id that it writes is the one that is there. Both leave the session as it is. -/
theorem failure_unchanged_iff_sample :
    (∃ w', ((SessionOperation.updateSession [1]).code 7).exec [] refused.shared = .done false w' ∧
      .forwarded 0 0 (.updateSession 7 [1]) ∈ w'.journal ∧ Unchanged 7 refused.shared w') ∧
    ∃ w', ((SessionOperation.initializeSession false).code 7).exec [] refused.shared = .done false w' ∧
      Unchanged 7 refused.shared w' := by
  have hx : Reachable refused := ⟨_, _, _, Run.reaches_of_callAll (Option.some_get refused_runs).symm⟩
  obtain ⟨o, ho, hid⟩ : ∃ o, refused.shared.heap[7]? = some o ∧ o.session.rialtoSessionId = 7 := ⟨_, rfl, rfl⟩
  obtain ⟨w₁, hf₁, hforwarded⟩ : ∃ w', ((SessionOperation.updateSession [1]).code 7).exec [] refused.shared =
      .done false w' ∧ .forwarded 0 0 (.updateSession 7 [1]) ∈ w'.journal := ⟨_, rfl, by decide⟩
  obtain ⟨w₂, hf₂⟩ : ∃ w', ((SessionOperation.initializeSession false).code 7).exec [] refused.shared =
      .done false w' := ⟨_, rfl⟩
  refine ⟨⟨w₁, hf₁, hforwarded, (failure_unchanged_iff hx ho hf₁).1.mpr id⟩, w₂, hf₂,
    (failure_unchanged_iff hx ho hf₂).1.mpr ?_⟩
  rintro ⟨-, -, cdm, mediaKeys, id, -, -, hanswer, hne⟩
  rw [hid] at hne
  cases hanswer
  exact hne rfl

/-- A session that could not be initialized has the id of no key session. -/
theorem failure_changes_id :
    ¬ ∀ (x : Run (World Careless) Mutex Condition Reply) (a : Addr) (o : Object)
        (op : SessionOperation) (w' : World Careless), Reachable x → x.shared.heap[a]? = some o →
      (op.code a).exec [] x.shared = .done false w' → Unchanged a x.shared w' := by
  intro h
  have hx : Reachable careless := ⟨_, _, _, Run.reaches_of_callAll (Option.some_get careless_runs).symm⟩
  obtain ⟨o, ho⟩ : ∃ o, careless.shared.heap[7]? = some o := Option.isSome_iff_exists.mp (by decide)
  obtain ⟨w', hf, hid'⟩ : ∃ w', ((SessionOperation.initializeSession false).code 7).exec []
      careless.shared = .done false w' ∧ (w'.session 7).rialtoSessionId = 7 := ⟨_, rfl, by decide⟩
  have hid : (careless.shared.session 7).rialtoSessionId = -1 := by decide
  rw [(h _ 7 o _ w' hx ho hf).1, hid] at hid'
  exact absurd hid' (by decide)

end RialtoOcdm
