import RialtoOcdm.Interleaved.Acts

/-! The code of a session keeps to its acts: under every discipline it is safe in any
interleaving. An operation knows that a key session id was granted before it passes
it on, and for which backend. -/

namespace RialtoOcdm

open Concurrency Prog Protocol Rialto OpenCDMSessionPrivate

variable {R κ : Type} [MediaKeys R] {P : Protocol (World R) Mutex κ} {k : κ} {ρ : Rules R}
  {held : List Mutex} {C : World R → Prop} {α β : Type}

/-- A context that the acts keep but for those that change clients. -/
structure Inside (P : Protocol (World R) Mutex κ) (ρ : Rules R) (held : List Mutex)
    (C : World R → Prop) : Prop where
  keeps : P.Keeps held C
  same : ∀ held' w w', Act ρ held' w w' → w'.clients = w.clients → C w → C w'

/-- A routine that needs no context. -/
abbrev Plain (P : Protocol (World R) Mutex κ) (k : κ) (held : List Mutex) (p : Code R α) : Prop :=
  P.Routine (fun _ => True) k held p

/-- No mutex of the library is held. -/
def Outside (held : List Mutex) : Prop := ∀ l ∈ held, l.rank = 0

theorem inside_true : Inside P ρ held fun _ => True := ⟨keeps_true, fun _ _ _ _ _ _ => trivial⟩

theorem Inside.cons {m : Mutex} (hC : Inside P ρ held C) : Inside P ρ (m :: held) C :=
  ⟨hC.keeps.cons, hC.same⟩

theorem Inside.assume {F : World R → Prop} (hC : Inside P ρ held C) : Inside (P.assume F) ρ held C :=
  ⟨hC.keeps.assume, hC.same⟩

section

omit [MediaKeys R]

theorem outside_nil : Outside [] := fun _ h => by cases h

theorem Outside.lt (hheld : Outside held) {m : Mutex} (hm : 0 < m.rank) :
    ∀ l ∈ held, l.rank < m.rank := fun l hl => by rw [hheld l hl]; exact hm

theorem Outside.lt_two (hheld : Outside held) : ∀ l ∈ held, l.rank < 2 :=
  hheld.lt (m := .activeSessions) Nat.two_pos

theorem Plain.ret (a : α) : Plain P k held (.ret a : Code R α) := Routine.ret keeps_true a

/-- An operation of the backend that only says whether its call worked. -/
theorem ok_routine {call : MediaKeysCall} {p : Code R (Answer call)} (hC : P.Keeps held C)
    (hp : P.Routine C k held p) : P.Routine C k held (do return (← p).ok) :=
  .bind hp fun _ => Routine.ret hC _


end

namespace Discipline

/-! ### Acts and scopes -/

theorem update (D : Discipline P k ρ) (hC : Inside P ρ held C) {f : World R → α × World R}
    (h : ∀ w, P.inv w → C w → Act ρ held w (f w).2) (hf : ∀ w, (f w).2.clients = w.clients) :
    P.Routine C k held (.update f : Code R α) := .update hC.keeps fun w hi hc =>
  have ha := D.act held w _ hi (h w hi hc)
  ⟨ha.1, ha.2, hC.same held w _ (h w hi hc) (hf w) hc⟩

theorem modify (D : Discipline P k ρ) (hC : Inside P ρ held C) {f : World R → World R}
    (h : ∀ w, P.inv w → C w → Act ρ held w (f w)) (hf : ∀ w, (f w).clients = w.clients) :
    P.Routine C k held (.modify f : Code R Unit) :=
  D.update (f := fun w => ((), f w)) hC h hf

theorem read (D : Discipline P k ρ) (hC : Inside P ρ held C) :
    P.Routine C k held (.read : Code R (World R)) :=
  D.update (f := fun w => (w, w)) hC (fun w _ _ => .read w) fun _ => rfl

/-- An act where there is no context. -/
theorem act_plain (D : Discipline P k ρ) {f : World R → α × World R}
    (h : ∀ w, P.inv w → Act ρ held w (f w).2) : Plain P k held (.update f : Code R α) :=
  .update keeps_true fun w hi _ =>
    have ha := D.act held w _ hi (h w hi)
    ⟨ha.1, ha.2, trivial⟩

theorem modify_plain (D : Discipline P k ρ) {f : World R → World R}
    (h : ∀ w, P.inv w → Act ρ held w (f w)) : Plain P k held (.modify f : Code R Unit) :=
  D.act_plain (f := fun w => ((), f w)) h

/-- What is known after an act. -/
theorem act_yields (D : Discipline P k ρ) {f : World R → α × World R} {Q : α → World R → Prop}
    (hQ : ∀ a, P.Lasting (Q a)) (h : ∀ w, P.inv w → Act ρ held w (f w).2 ∧ Q (f w).1 (f w).2) :
    P.Yields (fun _ => True) k held (.update f : Code R α) Q :=
  .update keeps_true hQ fun w hi _ =>
    have ha := D.act held w _ hi (h w hi).1
    ⟨ha.1, ha.2, trivial, (h w hi).2⟩

/-- What is read is known. -/
theorem readMember_yields (D : Discipline P k ρ) (hC : Inside P ρ held C) {a : Addr} {m : Member}
    (ho : P.Always (ρ.own a)) {f : Session → β} {Q : β → World R → Prop} (hQ : ∀ b, P.Lasting (Q b))
    (h : ∀ w, P.inv w → Q (f (w.session a)) w) :
    P.Yields C k held (readMember a m f : Code R β) Q := by
  refine Yields.update (f := fun w => (f (w.session a), w.use a m)) hC.keeps hQ fun w hi hc => ?_
  have ha : Act ρ held w (w.use a m) := .use w a m (.inl (ho w hi))
  obtain ⟨hm, hi'⟩ := D.act held w _ hi ha
  exact ⟨hm, hi', hC.same held w _ ha rfl hc, hQ _ k held w _ hi hm (h w hi)⟩

theorem readMember (D : Discipline P k ρ) (hC : Inside P ρ held C) {a : Addr} {m : Member}
    (hu : ∀ w, P.inv w → C w → Uses ρ held w a) (f : Session → β) :
    P.Routine C k held (readMember a m f : Code R β) :=
  D.update (f := fun w => (f (w.session a), w.use a m)) hC (fun w hi hc => .use w a m (hu w hi hc))
    fun _ => rfl

/-- The call reads a member of a session that it is about. -/
theorem readOwn (D : Discipline P k ρ) (hC : Inside P ρ held C) {a : Addr} {m : Member}
    (ho : P.Always (ρ.own a)) (f : Session → β) :
    P.Routine C k held (RialtoOcdm.readMember a m f : Code R β) :=
  D.readMember hC (fun w hi _ => .inl (ho w hi)) f

/-- The backend of the session is read, and is one that some session has. -/
theorem readBackend (D : Discipline P k ρ) (hC : Inside P ρ held C) {a : Addr} (ho : P.Always (ρ.own a))
    {g : Option SystemId → Code R β} (hnone : P.Routine C k held (g none))
    (hsome : ∀ cdm, ρ.backend cdm → P.Routine C k held (g (some cdm))) :
    P.Routine C k held (RialtoOcdm.readMember a .cdmBackend (·.cdmBackend) >>= g) := by
  have hlasting : ∀ cdm : Option SystemId, P.Lasting fun _ => ∀ sys, cdm = some sys → ρ.backend sys :=
    fun _ _ _ _ _ _ _ h => h
  have hread := D.readMember_yields (m := .cdmBackend) hC ho hlasting fun w hi sys => D.backend w a sys hi
  refine fun w hi hc => .bind hi ((hread w hi hc).mono ?_ hi)
  rintro cdm _ w' hi' ⟨rfl, hc', hb⟩
  cases cdm with
  | none => exact hnone w' hi' hc'
  | some cdm => exact hsome cdm (hb cdm rfl) w' hi' hc'

theorem withLock_yields (D : Discipline P k ρ) (hC : Inside P ρ held C) {m : Mutex} (hm : 0 < m.rank)
    (hheld : ∀ l ∈ held, l.rank < m.rank) {p : Code R α} {Q : α → World R → Prop}
    (hQ : ∀ a, P.Lasting (Q a)) (hp : P.Yields C k (m :: held) p Q) :
    P.Yields C k held (.withLock m p) Q :=
  .withLock hC.keeps hQ (fun w _ _ => D.request held m w (.inl hheld))
    (fun w => D.free m w (by rintro a rfl; simp [Mutex.rank] at hm)) hp

theorem withLock (D : Discipline P k ρ) (hC : Inside P ρ held C) {m : Mutex} (hm : 0 < m.rank)
    (hheld : ∀ l ∈ held, l.rank < m.rank) {p : Code R α} (hp : P.Routine C k (m :: held) p) :
    P.Routine C k held (.withLock m p) :=
  D.withLock_yields hC hm hheld (fun _ => lasting_true) hp

/-! ### Calls of the backend -/

theorem forward (D : Discipline P k ρ) (hC : Inside P ρ held C) (hheld : ∀ l ∈ held, l.rank < 2)
    {sys : SystemId} {call : MediaKeysCall} {store : ℕ → Answer call → World R → World R}
    (h : ∀ w, P.inv w → Act ρ (.cdmBackend sys :: held) w (w.ask sys call store).2)
    (hf : ∀ w : World R, (w.ask sys call store).2.clients = w.clients) :
    P.Routine C k held (CdmBackend.forward sys call store) :=
  D.withLock (m := .cdmBackend sys) hC Nat.two_pos hheld (D.update hC.cons (fun w hi _ => h w hi) hf)

theorem pass (D : Discipline P k ρ) (hC : Inside P ρ held C) (hheld : ∀ l ∈ held, l.rank < 2) {a : Addr}
    (ho : P.Always (ρ.own a)) {sys : SystemId} (hb : ρ.backend sys) (call : MediaKeysCall)
    (hg : ∀ id, call.actsOn = some id → P.Always (ρ.granted a id)) :
    P.Routine C k held (CdmBackend.pass sys call : Code R _) :=
  D.forward hC hheld (fun w hi => .pass w sys call a hb (ho w hi) fun id hid => hg id hid w hi) fun w =>
    World.ask_snd (p := fun w' => w'.clients = w.clients) rfl fun _ => rfl

/-- A call on a key session whose id is known to be granted. -/
theorem passOn (D : Discipline P k ρ) (hC : Inside P ρ held C) (hheld : ∀ l ∈ held, l.rank < 2)
    {a : Addr} (ho : P.Always (ρ.own a)) {id : Int32} (hg : P.Always (ρ.granted a id))
    {sys : SystemId} (hb : ρ.backend sys) {call : MediaKeysCall} (hid : call.actsOn = some id) :
    P.Routine C k held (CdmBackend.pass sys call : Code R _) :=
  D.pass hC hheld ho hb call fun id' hid' => by
    rw [hid, Option.some.injEq] at hid'
    exact hid' ▸ hg

theorem getLastDrmError (D : Discipline P k ρ) (hheld : Outside held) {a : Addr}
    (ho : P.Always (ρ.own a)) : Plain P k held (getLastDrmError a : Code R UInt32) := by
  refine D.readBackend inside_true ho (Plain.ret _) fun cdm hb => ?_
  exact .bind (D.readOwn inside_true ho _) fun id =>
    .bind (D.pass inside_true hheld.lt_two ho hb _ (by simp [MediaKeysCall.actsOn])) fun _ => Plain.ret _

theorem orLastDrmError (D : Discipline P k ρ) (hheld : Outside held) {a : Addr}
    (ho : P.Always (ρ.own a)) {p : Code R Bool} (hp : Plain P k held p) :
    Plain P k held (orLastDrmError a p) := by
  refine .bind hp fun ok => ?_
  cases ok with
  | true => exact Plain.ret _
  | false => exact .bind (D.getLastDrmError hheld ho) fun _ => Plain.ret _

/-! ### Operations -/

/-- An operation on the key session starts when an id is known to be granted. -/
theorem onKeySessionWhere (D : Discipline P k ρ) (hC : Inside P ρ held C) {a : Addr}
    (ho : P.Always (ρ.own a)) {guard : Code R Bool} {p : SystemId → Int32 → Code R Bool}
    (hguard : P.Routine C k held guard)
    (hp : ∀ cdm id P', ρ.backend cdm → Discipline P' k ρ → Inside P' ρ held C →
      (∀ w, P'.inv w → P.inv w ∧ ρ.granted a id w) → P'.Routine C k held (p cdm id)) :
    P.Routine C k held (onKeySessionWhere a guard p) := by
  refine D.readBackend hC ho (Routine.ret hC.keeps _) fun cdm hb => ?_
  refine .bind hguard fun ok => ?_
  cases ok with
  | false => exact Routine.ret hC.keeps _
  | true =>
    have hopened : ∀ id : Int32, P.Lasting fun w => -1 ≠ id → ρ.opened a w :=
      fun id c held w w' hi hm h hid => D.opened_lasting a c held w w' hi hm (h hid)
    refine .of_yields (D.readMember_yields hC ho hopened fun w hi => D.opened w a hi) hopened fun id => ?_
    have D₁ := D.assume (hopened id)
    split_ifs with hid
    · -- the id is read once more, and may have changed
      refine .of_yields (D₁.readMember_yields hC.assume ho.assume (fun id => D₁.granted_lasting a id)
        fun w hi => D.granted w a hi.1 (hi.2 hid)) (fun id => D₁.granted_lasting a id) fun id => ?_
      exact hp cdm id _ hb (D₁.assume (D₁.granted_lasting a id)) hC.assume.assume fun w hi =>
        ⟨hi.1.1, hi.2⟩
    · exact Routine.ret hC.assume.keeps _

theorem onKeySession (D : Discipline P k ρ) (hC : Inside P ρ held C) {a : Addr}
    (ho : P.Always (ρ.own a)) {p : SystemId → Int32 → Code R Bool}
    (hp : ∀ cdm id P', ρ.backend cdm → Discipline P' k ρ → Inside P' ρ held C →
      (∀ w, P'.inv w → P.inv w ∧ ρ.granted a id w) → P'.Routine C k held (p cdm id)) :
    P.Routine C k held (onKeySession a p) :=
  D.onKeySessionWhere hC ho (Routine.ret hC.keeps _) hp

/-- An operation that passes one call on. -/
theorem operation (D : Discipline P k ρ) (hheld : Outside held) {a : Addr} (ho : P.Always (ρ.own a))
    {call : Int32 → MediaKeysCall} (hid : ∀ id, (call id).actsOn = some id) :
    Plain P k held (OpenCDMSessionPrivate.onKeySession a fun cdm id => do
      return (← CdmBackend.pass cdm (call id)).ok) :=
  D.onKeySession inside_true ho fun _ id _ hb D' _ h =>
    ok_routine keeps_true
      (D'.passOn inside_true hheld.lt_two (fun w hi => ho w (h w hi).1) (fun w hi => (h w hi).2) hb (hid id))

/-- The same, and a failure is logged. -/
theorem loggedOperation (D : Discipline P k ρ) (hheld : Outside held) {a : Addr}
    (ho : P.Always (ρ.own a)) {call : Int32 → MediaKeysCall} (hid : ∀ id, (call id).actsOn = some id) :
    Plain P k held (OpenCDMSessionPrivate.onKeySession a fun cdm id =>
      OpenCDMSessionPrivate.orLastDrmError a do return (← CdmBackend.pass cdm (call id)).ok) :=
  D.onKeySession inside_true ho fun _ id _ hb D' _ h =>
    have ho' := fun w hi => ho w (h w hi).1
    D'.orLastDrmError hheld ho' (ok_routine keeps_true
      (D'.passOn inside_true hheld.lt_two ho' (fun w hi => (h w hi).2) hb (hid id)))

theorem writeOwn (D : Discipline P k ρ) {a : Addr} {m : Member} {f : Session → Session}
    (h : ∀ w, P.inv w → Act ρ held w ((w.use a m).updateSession a f)) :
    Plain P k held (writeMember a m f : Code R Unit) := D.modify_plain h

theorem initializeCdmKeySessionId (D : Discipline P k ρ) (hheld : Outside held) {a : Addr}
    (ho : P.Always (ρ.own a)) {cdm : SystemId} (hb : ρ.backend cdm) :
    Plain P k held (initializeCdmKeySessionId a cdm : Code R Unit) := by
  have hopened : ∀ id : Int32, P.Lasting fun w => -1 ≠ id → ρ.opened a w :=
    fun id c held w w' hi hm h hid => D.opened_lasting a c held w w' hi hm (h hid)
  refine .of_yields (D.readMember_yields inside_true ho hopened fun w hi => D.opened w a hi) hopened fun id => ?_
  have D₁ := D.assume (hopened id)
  -- what is done with the answer, whatever is known then
  have hwrite : ∀ P', Discipline P' k ρ → (∀ w, P'.inv w → P.inv w) → ∀ ok : Bool, Plain P' k held
      (if ok = true then pure () else writeMember a .cdmKeySessionId
        ({ · with cdmKeySessionId := kDefaultSessionId }) : Code R Unit) := fun P' D' h ok => by
    split_ifs
    · exact Plain.ret _
    · exact D'.writeOwn fun w hi => .setCdmKeySessionId w a _ (ho w (h w hi))
  dsimp only
  split_ifs with hid
  · have hg := fun id => D₁.granted_lasting a id
    refine .of_yields (D₁.readMember_yields inside_true ho.assume hg fun w hi => D.granted w a hi.1 (hi.2 hid)) hg
      fun id => ?_
    have D₂ := D₁.assume (hg id)
    refine .bind (.bind (D₂.forward inside_true hheld.lt_two (fun w hi => ?_) fun w => ?_) fun _ =>
      Plain.ret _) (hwrite _ D₂ fun w hi => hi.1.1)
    · exact .getCdmKeySessionId w cdm id a hb (ho w hi.1.1) hi.2
    · refine World.ask_snd (p := fun w' => w'.clients = w.clients) rfl fun _ => ?_
      unfold CdmBackend.storeCdmKeySessionId
      split <;> rfl
  · exact .bind (Plain.ret _) (hwrite _ D₁ fun w hi => hi.1)

theorem request_plain (D : Discipline P k ρ) (hheld : Outside held) {a : Addr} (ho : P.Always (ρ.own a))
    {id : Int32} (hg : P.Always (ρ.granted a id)) {cdm : SystemId} (hb : ρ.backend cdm)
    (initDataType : InitDataType) (initData : Bytes) :
    Plain P k held (OpenCDMSessionPrivate.request a cdm id initDataType initData : Code R Bool) := by
  refine .bind (D.orLastDrmError hheld ho (ok_routine keeps_true
    (D.passOn inside_true hheld.lt_two ho hg hb rfl))) fun ok => ?_
  cases ok with
  | true => exact .bind (D.initializeCdmKeySessionId hheld ho hb) fun _ => Plain.ret _
  | false => exact Plain.ret _

theorem generateRequest (D : Discipline P k ρ) (hheld : Outside held) {a : Addr}
    (ho : P.Always (ρ.own a)) (initDataType : String) (initData : Bytes) :
    Plain P k held (generateRequest a initDataType initData : Code R Bool) :=
  D.onKeySessionWhere inside_true ho (Plain.ret _) fun _ _ _ hb D' _ h =>
    D'.request_plain hheld (fun w hi => ho w (h w hi).1) (fun w hi => (h w hi).2) hb _ initData

theorem selectKeyId (D : Discipline P k ρ) {a : Addr} (ho : P.Always (ρ.own a)) (keyId : Bytes) :
    Plain P k held (selectKeyId a keyId : Code R Bool) :=
  .bind (D.writeOwn fun w hi => .setPlayreadyKeyId w a keyId (ho w hi)) fun _ => Plain.ret _

/-! ### The key session -/

theorem addClient (D : Discipline P k ρ) (hheld : Outside held) {a : Addr} (hj : P.Always (ρ.join a))
    (sys : SystemId) : Plain P k held (MessageDispatcher.addClient sys a : Code R Unit) :=
  D.withLock (m := .dispatcher sys) inside_true Nat.one_pos (hheld.lt Nat.one_pos)
    (D.modify_plain fun w hi => .insertClient w sys a List.mem_cons_self (hj w hi))

/-- The handle is destroyed where the lock of the dispatcher may be asked for. -/
theorem destroyClient (D : Discipline P k ρ) (handle : MessageDispatcherClient)
    (hr : P.Always (Ordered held (.dispatcher handle.dispatcher))) :
    Plain P k held (MessageDispatcher.destroyClient handle : Code R Unit) :=
  .withLock keeps_true (fun w hi _ => D.request held _ w (hr w hi))
    (fun w => D.free _ w (by simp))
    (D.modify_plain fun w _ => .eraseClient w _ _ List.mem_cons_self)

theorem assignClient (D : Discipline P k ρ) (hheld : Outside held) {a : Addr}
    {handle : Option MessageDispatcherClient} (h : ∀ w, P.inv w → Act ρ held w
      ((w.use a .messageDispatcherClient).updateSession a ({ · with messageDispatcherClient := handle }))) :
    Plain P k held (assignClient a handle : Code R Unit) := by
  refine .bind (D.act_plain h) fun old => ?_
  cases old with
  | none => exact Plain.ret _
  | some old => exact D.destroyClient old fun w _ => .inl (hheld.lt Nat.one_pos)

theorem closeSession (D : Discipline P k ρ) (hheld : Outside held) {a : Addr}
    (ho : P.Always (ρ.own a)) (hl : P.Always (ρ.leave a)) :
    Plain P k held (closeSession a : Code R Bool) := by
  apply D.onKeySession inside_true ho
  intro cdm id P' hb D' _ h
  have hl' : P'.Always (ρ.leave a) := fun w hi => hl w (h w hi).1
  refine .bind (ok_routine keeps_true (D'.passOn inside_true hheld.lt_two (fun w hi => ho w (h w hi).1)
    (fun w hi => (h w hi).2) hb rfl)) fun ok => ?_
  cases ok with
  | false => exact Plain.ret _
  | true =>
    refine .bind (D'.modify_plain fun w hi => .closed w a (hl' w hi)) fun _ => ?_
    refine .bind (D'.assignClient hheld fun w hi => .clearHandle w a (hl' w hi)) fun _ => ?_
    refine .bind (D'.modify_plain fun w hi => .clearChallenge w a (hl' w hi)) fun _ => ?_
    exact .bind (D'.writeOwn fun w hi => .clearKeyStatuses w a (hl' w hi)) fun _ => Plain.ret _

theorem createKeySession (D : Discipline P k ρ) (hheld : Outside held) {a : Addr}
    (hj : P.Always (ρ.join a)) {cdm : SystemId} (hb : ρ.backend cdm) (sessionType : KeySessionType)
    (isLDL : Bool) : Plain P k held (CdmBackend.createKeySession cdm sessionType isLDL a : Code R Bool) := by
  have hlock : ∀ w, P.inv w → True → P.request k held (.cdmBackend cdm) w := fun w _ _ =>
    D.request held _ w (.inl (hheld.lt Nat.two_pos))
  have hfree : ∀ w, P.inv w → P.free (.cdmBackend cdm) w := fun w => D.free _ w (by simp)
  refine .withLock keeps_true hlock hfree ?_
  refine .bind (.wait keeps_true hlock hfree _ true _) fun _ => ?_
  exact .bind (D.act_plain fun w hi => .createKeySession w cdm sessionType isLDL a hb (hj w hi)) fun _ =>
    Plain.ret _

/-- A session without a key session gets one and becomes a client. -/
theorem initializeSession (D : Discipline P k ρ) (hheld : Outside held) {a : Addr}
    (ho : P.Always (ρ.own a))
    (hj : ∀ w, P.inv w → (w.session a).isInitialized = false → ρ.join a w) (isLDL : Bool) :
    Plain P k held (initializeSession a isLDL : Code R Bool) := by
  refine D.readBackend inside_true ho (Plain.ret _) fun cdm hcdm => ?_
  refine .bind (D.readOwn inside_true ho _) fun sys => ?_
  cases sys with
  | none => exact Plain.ret _
  | some sys =>
    have hjoin : ∀ initialized, P.Lasting fun w => initialized = false → ρ.join a w :=
      fun b c held w w' hi hm h hb => D.join_lasting a c held w w' hi hm (h hb)
    refine .of_yields (D.readMember_yields inside_true ho hjoin hj) hjoin fun initialized => ?_
    have D₁ := D.assume (hjoin initialized)
    cases initialized with
    | true => exact Plain.ret _
    | false =>
      have hj₁ : (P.assume fun w => false = false → ρ.join a w).Always (ρ.join a) :=
        fun w hi => hi.2 rfl
      refine .bind (D₁.readOwn inside_true ho.assume _) fun sessionType => ?_
      refine .bind (D₁.orLastDrmError hheld ho.assume
        (D₁.createKeySession hheld hj₁ hcdm sessionType isLDL)) fun ok => ?_
      cases ok with
      | false => exact Plain.ret _
      | true =>
        refine .bind (.bind (D₁.addClient hheld hj₁ sys) fun _ => Plain.ret _) fun client => ?_
        refine .bind (D₁.assignClient hheld fun w hi => .setHandle w a client (hj₁ w hi)) fun _ => ?_
        exact .bind (D₁.writeOwn fun w hi => .setInitialized w a (hj₁ w hi)) fun _ => Plain.ret _

/-! ### The challenge -/

theorem waitForChallenge (D : Discipline P k ρ) (hheld : Outside held) {a : Addr}
    (ho : P.Always (ρ.own a)) : Plain P k held (waitForChallenge a : Code R Bytes) := by
  have hlock : ∀ w, P.inv w → True → P.request k held (.session a) w := fun w _ _ =>
    D.request held _ w (.inl (hheld.lt Nat.two_pos))
  have hfree : ∀ w, P.inv w → P.free (.session a) w := fun w => D.free _ w (by simp)
  refine .bind (D.modify_plain fun w hi => .use w a .mutex (.inl (ho w hi))) fun _ => ?_
  refine .withLock keeps_true hlock hfree ?_
  refine .bind (D.modify_plain fun w hi => .use w a .challengeCv (.inl (ho w hi))) fun _ => ?_
  exact .bind (.wait keeps_true hlock hfree _ false _) fun _ => D.readOwn inside_true ho _

theorem requestChallenge (D : Discipline P k ρ) (hheld : Outside held) {a : Addr}
    (ho : P.Always (ρ.own a)) : Plain P k held (requestChallenge a : Code R Bool) := by
  refine D.onKeySessionWhere inside_true ho (.bind (D.readOwn inside_true ho _) fun _ => Plain.ret _)
    fun cdm id P' hb D' _ h => ?_
  have ho' : P'.Always (ρ.own a) := fun w hi => ho w (h w hi).1
  exact .bind (D'.readOwn inside_true ho' _) fun initDataType =>
    .bind (D'.readOwn inside_true ho' _) fun initData =>
      D'.request_plain hheld ho' (fun w hi => (h w hi).2) hb initDataType initData

theorem getChallengeData (D : Discipline P k ρ) (hheld : Outside held) {a : Addr}
    (ho : P.Always (ρ.own a)) : Plain P k held (getChallengeData a : Code R (Option Bytes)) := by
  refine .bind (D.requestChallenge hheld ho) fun ok => ?_
  cases ok with
  | false => exact Plain.ret _
  | true => exact .bind (D.waitForChallenge hheld ho) fun _ => Plain.ret _

end Discipline

end RialtoOcdm
