import RialtoOcdm.Library.Calls
import RialtoOcdm.Sequential.Registry
import RialtoOcdm.Sequential.Story
import Mathlib.Data.Set.Basic

/-! Quiet code: most of the library changes nothing that the messages of a session
depend on. It is in the story of the process no more than in its dispatchers, its
registry and its sessions, but for some members that are nobody else's business. -/

namespace RialtoOcdm

open Concurrency Prog OpenCDMSessionPrivate Rialto

variable {R : Type}

/-- What of a session stays as it is while it gets messages. -/
def Session.frame (s : Session) : Session :=
  { s with cdmKeySessionId := "", playreadyKeyId := [], challengeData := [], keyStatuses := ∅ }

/-- What a session is told by messages. -/
def Session.data (s : Session) : Bytes × Std.ExtTreeMap Bytes Rialto.KeyStatus :=
  (s.challengeData, s.keyStatuses)

def Object.frame (o : Object) : ℕ × Session × List Member := (o.serial, o.session.frame, o.destroyed)

/-- Nothing but the data and the callbacks of the sessions in `S` may be new in `w'`. -/
structure Quiet (S : Set Addr) (w w' : World R) : Prop where
  frame : ∀ a : Addr, w'.heap[a]?.map Object.frame = w.heap[a]?.map Object.frame
  data : ∀ a : Addr, a ∉ S → w'.heap[a]?.map (·.session.data) = w.heap[a]?.map (·.session.data)
  clients : w'.clients = w.clients
  registered : ∀ a, a ∈ w'.activeSessions ↔ a ∈ w.activeSessions
  allocated : w'.allocated = w.allocated
  story : story w'.journal = story w.journal
  callbacks : ∀ n, (∀ (a : Addr) o, a ∈ S → w.heap[a]? = some o → o.serial ≠ n) →
    callbacksOf n w'.journal = callbacksOf n w.journal

namespace Quiet

variable {S : Set Addr} {w w' w'' : World R}

theorem refl (S : Set Addr) (w : World R) : Quiet S w w :=
  ⟨fun _ => rfl, fun _ _ => rfl, rfl, fun _ => Iff.rfl, rfl, rfl, fun _ _ => rfl⟩

/-- The object that was there before, or will be there after. -/
theorem back (h : Quiet S w w') {a : Addr} {o' : Object} (ho : w'.heap[a]? = some o') :
    ∃ o, w.heap[a]? = some o ∧ o'.frame = o.frame ∧
      (a ∉ S → o'.session.data = o.session.data) := by
  have hf := h.frame a
  rw [ho, Option.map_some, eq_comm, Option.map_eq_some_iff] at hf
  obtain ⟨o, hw, he⟩ := hf
  refine ⟨o, hw, he.symm, fun hS => ?_⟩
  have hd := h.data a hS
  rwa [ho, hw, Option.map_some, Option.map_some, Option.some.injEq] at hd

theorem forth (h : Quiet S w w') {a : Addr} {o : Object} (ho : w.heap[a]? = some o) :
    ∃ o', w'.heap[a]? = some o' ∧ o'.frame = o.frame ∧
      (a ∉ S → o'.session.data = o.session.data) := by
  have hf := h.frame a
  rw [ho, Option.map_some, Option.map_eq_some_iff] at hf
  obtain ⟨o', hw, he⟩ := hf
  refine ⟨o', hw, he, fun hS => ?_⟩
  have hd := h.data a hS
  rwa [ho, hw, Option.map_some, Option.map_some, Option.some.injEq] at hd

theorem trans (h : Quiet S w w') (h' : Quiet S w' w'') : Quiet S w w'' where
  frame a := (h'.frame a).trans (h.frame a)
  data a hS := (h'.data a hS).trans (h.data a hS)
  clients := h'.clients.trans h.clients
  registered a := (h'.registered a).trans (h.registered a)
  allocated := h'.allocated.trans h.allocated
  story := h'.story.trans h.story
  callbacks n hn := by
    refine (h'.callbacks n fun a o ha ho => ?_).trans (h.callbacks n hn)
    obtain ⟨o₀, ho₀, hf, -⟩ := h.back ho
    rw [show o.serial = o₀.serial from congrArg Prod.fst hf]
    exact hn a o₀ ha ho₀

theorem mono {T : Set Addr} (hST : S ⊆ T) (h : Quiet S w w') : Quiet T w w' :=
  ⟨h.frame, fun a ha => h.data a fun hS => ha (hST hS), h.clients, h.registered, h.allocated, h.story,
    fun n hn => h.callbacks n fun a o ha => hn a o (hST ha)⟩

theorem mem_heap (h : Quiet S w w') (a : Addr) : a ∈ w'.heap ↔ a ∈ w.heap := by
  have := congrArg Option.isSome (h.frame a)
  rw [Option.isSome_map, Option.isSome_map] at this
  rw [Std.ExtTreeMap.mem_iff_isSome_getElem?, Std.ExtTreeMap.mem_iff_isSome_getElem?, this]

/-! ### Updates -/

/-- Events that are not in the story and no callbacks. -/
theorem of_journal {e : Event} (he : e.happening = none) (hc : ∀ n c, e ≠ .callback n c) :
    Quiet S w { w with journal := e :: w.journal } := by
  refine ⟨fun _ => rfl, fun _ _ => rfl, rfl, fun _ => Iff.rfl, rfl, story_cons_of_none he, fun n _ => ?_⟩
  unfold callbacksOf
  cases e with
  | callback n c => exact absurd rfl (hc n c)
  | _ => rfl

theorem record {e : Event} (he : e.happening = none) (hc : ∀ n c, e ≠ .callback n c) :
    Quiet S w (w.record e) := of_journal he hc

theorem use (a : Addr) (m : Member) : Quiet S w (w.use a m) := by
  unfold World.use
  split_ifs
  · exact refl S w
  · exact of_journal rfl (by simp)

theorem updateBackend (sys : SystemId) (f : CdmBackend → CdmBackend) :
    Quiet S w (w.updateBackend sys f) :=
  ⟨fun _ => rfl, fun _ _ => rfl, rfl, fun _ => Iff.rfl, rfl, rfl, fun _ _ => rfl⟩

theorem setRialto (r : R) : Quiet S w (w.setRialto r) :=
  ⟨fun _ => rfl, fun _ _ => rfl, rfl, fun _ => Iff.rfl, rfl, rfl, fun _ _ => rfl⟩

/-- A change of a session that is none to the others. -/
theorem updateSession {a : Addr} {f : Session → Session} (hf : ∀ s, (f s).frame = s.frame)
    (hd : a ∉ S → ∀ s, (f s).data = s.data) : Quiet S w (w.updateSession a f) := by
  refine ⟨fun b => ?_, fun b hb => ?_, rfl, fun _ => Iff.rfl, rfl, rfl, fun _ _ => rfl⟩
  · rw [World.heap_updateSession]
    split_ifs with hab
    · subst hab
      rw [Option.map_map]
      congr 1
      funext o
      simp [Object.frame, hf]
    · rfl
  · rw [World.heap_updateSession]
    split_ifs with hab
    · subst hab
      rw [Option.map_map]
      congr 1
      funext o
      exact hd hb o.session
    · rfl

/-- A count of the registry changes. -/
theorem insertCount {a : Addr} {n : Int32} (ha : a ∈ w.activeSessions) :
    Quiet S w (w.updateActiveSessions (·.insert a n)) := by
  refine ⟨fun _ => rfl, fun _ _ => rfl, rfl, fun b => ?_, rfl, rfl, fun _ _ => rfl⟩
  simp only [World.updateActiveSessions_activeSessions, Std.ExtTreeMap.mem_insert,
    Std.compare_eq_iff_eq, or_iff_right_iff_imp]
  rintro rfl
  exact ha

end Quiet

/-! ### Quiet programs -/

/-- What a look-up relies on. -/
structure World.Sane (w : World R) : Prop where
  intact : w.Intact
  registered : ∀ a, a ∈ w.activeSessions ↔ a ∈ w.heap

theorem Quiet.sane {S : Set Addr} {w w' : World R} (h : Quiet S w w') (hs : w.Sane) : w'.Sane where
  intact a o' ho' := by
    obtain ⟨o, ho, hf, -⟩ := h.back ho'
    have hd : o'.destroyed = o.destroyed := congrArg (·.2.2) hf
    rw [hd]
    exact hs.intact a o ho
  registered a := by rw [h.registered, hs.registered, h.mem_heap]

/-- The code is quiet, from any sane state. -/
def Hushed (held : List Mutex) {α : Type} (p : Code R α) : Prop :=
  ∀ (I : World R → Prop) w, w.Sane → p.Ensures I held (fun _ w' => Quiet ∅ w w') w

namespace Hushed

variable {α β : Type} {held : List Mutex}

theorem ret (a : α) : Hushed held (.ret a : Code R α) := fun _ w _ => ensures_ret.mpr (.refl ∅ w)

theorem act {f : World R → World R} {k : World R → Code R α} (hf : ∀ w : World R, w.Sane → Quiet ∅ w (f w))
    (hk : ∀ w, Hushed held (k w)) : Hushed held (.act f k) := fun I w hs =>
  ensures_act.mpr (((hk w) I (f w) ((hf w hs).sane hs)).mono fun _ _ h => (hf w hs).trans h)

theorem bind {p : Code R α} {g : α → Code R β} (hp : Hushed held p) (hg : ∀ a, Hushed held (g a)) :
    Hushed held (p >>= g) := fun I w hs => .bind ((hp I w hs).mono fun a w' h =>
  ((hg a) I w' (h.sane hs)).mono fun _ _ h' => h.trans h')

theorem withLock {m : Mutex} {p : Code R α} (hm : m ∉ held) (hp : Hushed (m :: held) p) :
    Hushed held (.withLock m p) := fun I w hs => .withLock hm (hp I w hs)

theorem modify {f : World R → World R} (hf : ∀ w : World R, Quiet ∅ w (f w)) :
    Hushed held (.modify f : Code R Unit) := act (fun w _ => hf w) fun _ => ret ()

theorem read : Hushed held (.read : Code R (World R)) := act (fun w _ => .refl ∅ w) fun _ => ret _

theorem update {f : World R → β × World R} (hf : ∀ w : World R, Quiet ∅ w (f w).2) :
    Hushed held (.update f : Code R β) := act (fun w _ => hf w) fun _ => ret _

theorem signal (c : Condition) : Hushed held (.signal c : Code R Unit) := fun _ w _ =>
  ensures_signal.mpr (.refl ∅ w)

theorem forM {l : List β} {f : β → Code R PUnit} (hf : ∀ b, Hushed held (f b)) :
    Hushed held (l.forM f) := by
  induction l with
  | nil => exact ret _
  | cons b l ih => exact bind (hf b) fun _ => ih

end Hushed

section Functions

variable {held : List Mutex}

theorem readMember_hushed {β : Type} (a : Addr) (m : Member) (f : Session → β) :
    Hushed held (readMember a m f : Code R β) := .act (fun _ _ => .use a m) fun _ => .ret _

theorem writeMember_hushed {a : Addr} {m : Member} {f : Session → Session}
    (hf : ∀ s, (f s).frame = s.frame) (hd : ∀ s, (f s).data = s.data) :
    Hushed held (writeMember a m f : Code R Unit) :=
  .modify fun _ => (Quiet.use a m).trans (.updateSession hf fun _ => hd)

theorem status_hushed (a : Addr) (key : Bytes) : Hushed held (status a key : Code R KeyStatus) := by
  refine .bind (readMember_hushed _ _ _) fun keyStatuses => ?_
  split <;> exact .ret _

theorem getSessionId_hushed (a : Addr) : Hushed held (getSessionId a : Code R String) :=
  readMember_hushed _ _ _

theorem get_hushed (hheld : .activeSessions ∉ held) (key : Bytes) :
    Hushed held (ActiveSessions.get key : Code R (Option Addr)) := by
  intro I w hs
  refine (get_ensures hs.intact (fun a => (hs.registered a).mp) hheld key).mono fun r w' hr => ?_
  unfold World.get at hr
  split at hr
  · next session count hfind =>
    cases hr
    refine .insertCount (Std.ExtTreeMap.mem_iff_isSome_getElem?.mpr ?_)
    rw [Std.ExtTreeMap.mem_toList_iff_getElem?_eq_some.mp (List.mem_of_find?_eq_some hfind)]
    rfl
  · cases hr
    exact .refl ∅ w

theorem lookUp_hushed (hheld : .activeSessions ∉ held) (lookups : Addr → Callback → List Bytes)
    (a : Addr) (callback : Callback) : Hushed held (lookUp lookups a callback : Code R Unit) :=
  .forM fun key => .bind (get_hushed hheld key) fun _ => .ret _

variable [MediaKeys R]

/-- The answer to a call may be stored in a way that nobody notices. -/
theorem ask_quiet {S : Set Addr} {sys : SystemId} {call : MediaKeysCall}
    {store : ℕ → Answer call → World R → World R} (hstore : ∀ i answer w, Quiet S w (store i answer w))
    (w : World R) : Quiet S w (w.ask sys call store).2 := by
  unfold World.ask
  split
  · exact .record rfl (by simp)
  · exact ((Quiet.setRialto _).trans (.record rfl (by simp))).trans (hstore _ _ _)

theorem forward_hushed {sys : SystemId} {call : MediaKeysCall}
    {store : ℕ → Answer call → World R → World R} (hheld : .cdmBackend sys ∉ held)
    (hstore : ∀ i answer w, Quiet ∅ w (store i answer w)) :
    Hushed held (CdmBackend.forward sys call store) :=
  .withLock hheld (.act (fun w _ => ask_quiet hstore w) fun _ => .ret _)

theorem pass_hushed {sys : SystemId} (hheld : .cdmBackend sys ∉ held) (call : MediaKeysCall) :
    Hushed held (CdmBackend.pass sys call : Code R _) :=
  forward_hushed hheld fun _ _ w => .refl ∅ w

omit [MediaKeys R] in
/-- An operation of the backend that only says whether its call worked. -/
theorem ok_hushed {call : MediaKeysCall} {p : Code R (Answer call)} (hp : Hushed held p) :
    Hushed held (do return (← p).ok) := .bind hp fun _ => .ret _

theorem getCdmKeySessionId_hushed {sys : SystemId} (hheld : .cdmBackend sys ∉ held) (id : Int32)
    (a : Addr) : Hushed held (CdmBackend.getCdmKeySessionId sys id a : Code R Bool) := by
  refine ok_hushed (forward_hushed hheld fun i answer w => ?_)
  unfold CdmBackend.storeCdmKeySessionId
  cases answer.out with
  | none => exact .refl ∅ w
  | some id => exact (Quiet.use _ _).trans (.updateSession (fun _ => rfl) fun _ _ => rfl)

theorem getLastDrmError_hushed (hheld : ∀ sys, .cdmBackend sys ∉ held) (a : Addr) :
    Hushed held (getLastDrmError a : Code R UInt32) := by
  refine .bind (readMember_hushed _ _ _) fun cdm => ?_
  cases cdm with
  | none => exact .ret _
  | some cdm =>
    exact .bind (readMember_hushed _ _ _) fun id => .bind (pass_hushed (hheld cdm) _) fun _ => .ret _

theorem orLastDrmError_hushed (hheld : ∀ sys, .cdmBackend sys ∉ held) (a : Addr) {p : Code R Bool}
    (hp : Hushed held p) : Hushed held (orLastDrmError a p) := by
  refine .bind hp fun ok => ?_
  cases ok with
  | true => exact .ret _
  | false => exact .bind (getLastDrmError_hushed hheld a) fun _ => .ret _

omit [MediaKeys R] in
theorem onKeySessionWhere_hushed (a : Addr) {guard : Code R Bool}
    {p : SystemId → Int32 → Code R Bool} (hguard : Hushed held guard)
    (hp : ∀ cdm id, Hushed held (p cdm id)) : Hushed held (onKeySessionWhere a guard p) := by
  refine .bind (readMember_hushed _ _ _) fun cdm => ?_
  cases cdm with
  | none => exact .ret _
  | some cdm =>
    refine .bind hguard fun ok => ?_
    cases ok with
    | false => exact .ret _
    | true =>
      refine .bind (readMember_hushed _ _ _) fun id => ?_
      split_ifs
      · exact .bind (readMember_hushed _ _ _) fun id => hp cdm id
      · exact .ret _

omit [MediaKeys R] in
theorem onKeySession_hushed (a : Addr) {p : SystemId → Int32 → Code R Bool}
    (hp : ∀ cdm id, Hushed held (p cdm id)) : Hushed held (onKeySession a p) :=
  onKeySessionWhere_hushed a (.ret _) hp

theorem initializeCdmKeySessionId_hushed (hheld : ∀ sys, .cdmBackend sys ∉ held) (a : Addr)
    (cdm : SystemId) : Hushed held (initializeCdmKeySessionId a cdm : Code R Unit) := by
  have hlast : Hushed held (writeMember a .cdmKeySessionId
      ({ · with cdmKeySessionId := kDefaultSessionId }) : Code R Unit) :=
    writeMember_hushed (fun _ => rfl) fun _ => rfl
  refine .bind (readMember_hushed _ _ _) fun id => ?_
  split_ifs
  · refine .bind (readMember_hushed _ _ _) fun id => ?_
    refine .bind (getCdmKeySessionId_hushed (hheld cdm) id a) fun result => ?_
    dsimp only
    split_ifs
    · exact .ret _
    · exact hlast
  · exact hlast

theorem request_hushed (hheld : ∀ sys, .cdmBackend sys ∉ held) (a : Addr) (cdm : SystemId)
    (id : Int32) (initDataType : InitDataType) (initData : Bytes) :
    Hushed held (request a cdm id initDataType initData : Code R Bool) := by
  refine .bind (orLastDrmError_hushed hheld a (ok_hushed (pass_hushed (hheld cdm) _))) fun ok => ?_
  cases ok with
  | true => exact .bind (initializeCdmKeySessionId_hushed hheld a cdm) fun _ => .ret _
  | false => exact .ret _

theorem generateRequest_hushed (hheld : ∀ sys, .cdmBackend sys ∉ held) (a : Addr)
    (initDataType : String) (initData : Bytes) :
    Hushed held (generateRequest a initDataType initData : Code R Bool) :=
  onKeySessionWhere_hushed a (.ret _) fun cdm id => request_hushed hheld a cdm id _ _

theorem requestChallenge_hushed (hheld : ∀ sys, .cdmBackend sys ∉ held) (a : Addr) :
    Hushed held (requestChallenge a : Code R Bool) :=
  onKeySessionWhere_hushed a (.bind (readMember_hushed _ _ _) fun _ => .ret _) fun cdm id =>
    .bind (readMember_hushed _ _ _) fun _ => .bind (readMember_hushed _ _ _) fun _ =>
      request_hushed hheld a cdm id _ _

omit [MediaKeys R] in
theorem assignMediaKeys_quiet {S : Set Addr} {w : World R} (sys : SystemId) (made : Bool) :
    Quiet S w (w.assignMediaKeys sys made) := by
  unfold World.assignMediaKeys
  split_ifs
  · exact ((Quiet.updateBackend sys _).trans (.record rfl (by simp))).trans
      ⟨fun _ => rfl, fun _ _ => rfl, rfl, fun _ => Iff.rfl, rfl, rfl, fun _ _ => rfl⟩
  · exact (Quiet.updateBackend sys _).trans (.record rfl (by simp))

theorem createMediaKeys_hushed (sys : SystemId) :
    Hushed held (CdmBackend.createMediaKeys sys : Code R Bool) := by
  refine .bind .read fun w => ?_
  split_ifs
  · exact .update fun w => (Quiet.setRialto
      (MediaKeys.createMediaKeys (w.backend sys).keySystem w.rialto).2).trans (assignMediaKeys_quiet _ _)
  · exact .bind (.modify fun _ => .record rfl (by simp)) fun _ => .ret _

omit [MediaKeys R] in
theorem setAppState_hushed (sys : SystemId) (state : ApplicationState) :
    Hushed held (CdmBackend.setAppState sys state : Code R Unit) :=
  .modify fun _ => .updateBackend sys _

theorem notifyApplicationState_hushed (sys : SystemId) (state : ApplicationState) :
    Hushed [] (CdmBackend.notifyApplicationState sys state : Code R Unit) := by
  refine .withLock (by simp) (.bind (.update fun w => .record rfl (by simp)) fun appState => ?_)
  split_ifs
  · exact .ret _
  · refine .bind (createMediaKeys_hushed sys) fun made => ?_
    split_ifs
    · exact .bind (setAppState_hushed sys state) fun _ => .signal _
    · exact .ret _
  · exact .bind (.modify fun _ => .updateBackend sys _) fun _ => setAppState_hushed sys state

theorem initializeBackend_hushed (sys : SystemId) (initialState : ApplicationState) :
    Hushed [] (CdmBackend.initializeBackend sys initialState : Code R Bool) := by
  refine .withLock (by simp) (.bind (.update fun w => .record rfl (by simp)) fun appState => ?_)
  split_ifs
  · exact .ret _
  · refine .bind (createMediaKeys_hushed sys) fun made => ?_
    split_ifs
    · exact .bind (setAppState_hushed sys initialState) fun _ => .ret _
    · exact .ret _
  · exact .bind (setAppState_hushed sys initialState) fun _ => .ret _

end Functions

end RialtoOcdm
