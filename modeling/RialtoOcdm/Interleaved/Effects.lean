import RialtoOcdm.Interleaved.Acts

/-! What an act does: what it tells the journal, and what becomes of the clients of a
dispatcher and of an object. Every invariant of interleaved runs is derived from
these. -/

namespace RialtoOcdm

open Concurrency Rialto OpenCDMSessionPrivate

variable {R : Type} {ρ : Rules R} {held : List Mutex} {w w' : World R}

/-! ### Events -/

/-- The instance is that of the backend, which some session has. -/
def Current (ρ : Rules R) (w : World R) (sys : SystemId) (i : ℕ) : Prop :=
  ρ.backend sys ∧ (w.backend sys).mediaKeys = some i

/-- Why an event is there. -/
def Explained (ρ : Rules R) (held : List Mutex) (w : World R) : Event → Prop
  | .forwarded sys i call => Current ρ w sys i ∧
    ∀ id, call.actsOn = some id → ∃ a, ρ.own a w ∧ ρ.granted a id w
  | .constructed a n .. => a ∉ w.heap ∧ n = w.allocated + 1
  | .keySessionCreated n i _ => (∃ a, ρ.join a w ∧ n = w.serial a) ∧ ∃ sys, Current ρ w sys i
  | .keySessionClosed n | .challengeCleared n => ∃ a, ρ.leave a w ∧ n = w.serial a
  | .challenge n _ | .callback n _ => ∃ a, Delivers held w a ∧ n = w.serial a
  | .unregistering n => ∃ a, ρ.delete a w ∧ n = w.serial a
  | .destructed a n => ρ.delete a w ∧ n = w.serial a
  | .misused a m => w.has a m = false ∧ (Uses ρ held w a ∨ ρ.join a w ∨ ρ.leave a w)
  | _ => True

/-- The journal grows by events that are explained. -/
def Explains (ρ : Rules R) (held : List Mutex) (w w' : World R) : Prop :=
  ∃ new, w'.journal = new ++ w.journal ∧ ∀ e ∈ new, Explained ρ held w e

theorem Explains.suffix (h : Explains ρ held w w') : w.journal <:+ w'.journal := by
  obtain ⟨new, hj, -⟩ := h
  exact ⟨new, hj.symm⟩

theorem Explains.same (h : w'.journal = w.journal) : Explains ρ held w w' := ⟨[], h, by simp⟩

theorem Explains.record {e : Event} (h : Explains ρ held w w') (he : Explained ρ held w e) :
    Explains ρ held w (w'.record e) := by
  obtain ⟨new, hj, hnew⟩ := h
  exact ⟨e :: new, by simp [hj], List.forall_mem_cons.mpr ⟨he, hnew⟩⟩

theorem Explains.one {e : Event} (h : w'.journal = e :: w.journal) (he : Explained ρ held w e) :
    Explains ρ held w w' := ⟨[e], h, by simpa using he⟩

/-- A use of a member, and what does not show in the journal. -/
theorem Explains.use {w₁ : World R} (h : Explains ρ held w w₁) (hheap : w₁.heap = w.heap) {a : Addr}
    {m : Member} (hj : w'.journal = (w₁.use a m).journal)
    (hu : Uses ρ held w a ∨ ρ.join a w ∨ ρ.leave a w) : Explains ρ held w w' := by
  obtain ⟨new, hj₁, hnew⟩ := h
  rw [World.use_journal] at hj
  split_ifs at hj with hm
  · exact ⟨new, hj.trans hj₁, hnew⟩
  · have he : Explained ρ held w (.misused a m) :=
      ⟨by simpa [World.has, hheap] using hm, hu⟩
    exact ⟨.misused a m :: new, by simp [hj, hj₁], List.forall_mem_cons.mpr ⟨he, hnew⟩⟩

variable [MediaKeys R]

theorem Act.explains (h : Act ρ held w w') : Explains ρ held w w' := by
  cases h with
  | read => exact .same rfl
  | use a m h => exact .use (.same rfl) rfl rfl (.inl h)
  | updateBackend => exact .same rfl
  | createMediaKeys sys =>
    simp only [World.createMediaKeys, World.assignMediaKeys]
    split_ifs
    · exact .one rfl trivial
    · exact .one rfl trivial
  | mediaKeysFailed => exact .one rfl trivial
  | notified => exact .one rfl trivial
  | initialized => exact .one rfl trivial
  | pass sys call a hb ho hg =>
    exact World.ask_cases (p := Explains ρ held w) (.one rfl trivial) fun i hi =>
      .one rfl ⟨⟨hb, hi⟩, fun id hid => ⟨a, ho, hg id hid⟩⟩
  | getCdmKeySessionId sys id a hb ho hg =>
    apply World.ask_cases (p := Explains ρ held w) (.one rfl trivial)
    intro i hi
    have hf : Explains ρ held w ((w.setRialto (MediaKeys.call i (.getCdmKeySessionId id) w.rialto).2).record
        (.forwarded sys i (.getCdmKeySessionId id))) :=
      .one rfl ⟨⟨hb, hi⟩, by rintro _ ⟨⟩; exact ⟨a, ho, hg⟩⟩
    unfold CdmBackend.storeCdmKeySessionId
    split
    · exact hf
    · exact .use hf rfl rfl (.inl (.inl ho))
  | createKeySession sys sessionType isLDL a hb hj =>
    apply World.ask_cases (p := Explains ρ held w) (.one rfl trivial)
    intro i hi
    have hf : Explains ρ held w ((w.setRialto (MediaKeys.call i (.createKeySession sessionType isLDL)
        w.rialto).2).record (.forwarded sys i (.createKeySession sessionType isLDL))) :=
      .one rfl ⟨⟨hb, hi⟩, by rintro _ ⟨⟩⟩
    unfold CdmBackend.storeKeySessionId
    dsimp only
    split_ifs
    · refine .record ?_ ⟨⟨a, hj, ?_⟩, sys, hb, hi⟩
      · split
        · exact hf
        · exact .use hf rfl rfl (.inr (.inl hj))
      · split
        · rfl
        · exact World.serial_updateSession
    · split
      · exact hf
      · exact .use hf rfl rfl (.inr (.inl hj))
  | insertClient => exact .same rfl
  | setHandle a handle hj => exact .use (.same rfl) rfl rfl (.inr (.inl hj))
  | setInitialized a hj => exact .use (.same rfl) rfl rfl (.inr (.inl hj))
  | setCdmKeySessionId a id ho => exact .use (.same rfl) rfl rfl (.inl (.inl ho))
  | setPlayreadyKeyId a keyId ho => exact .use (.same rfl) rfl rfl (.inl (.inl ho))
  | closed a hl => exact .one rfl ⟨a, hl, rfl⟩
  | clearHandle a hl => exact .use (.same rfl) rfl rfl (.inr (.inr hl))
  | eraseClient => exact .same rfl
  | clearChallenge a hl =>
    exact .record (.use (m := .challengeData) (.same rfl) rfl rfl (.inr (.inr hl))) ⟨a, hl, rfl⟩
  | clearKeyStatuses a hl => exact .use (.same rfl) rfl rfl (.inr (.inr hl))
  | message => exact .one rfl trivial
  | challenge a challenge hd =>
    exact .record (.use (m := .challengeData) (.same rfl) rfl rfl (.inl (.inr (.inl hd)))) ⟨a, hd, rfl⟩
  | keyStatus a keyStatus hd => exact .use (.same rfl) rfl rfl (.inl (.inr (.inl hd)))
  | callback a callback hd => exact .one rfl ⟨a, hd, rfl⟩
  | allocate a ha => exact .one rfl ⟨ha, rfl⟩
  | count => exact .same rfl
  | destructing => exact .one rfl trivial
  | unregistering a hd => exact .one rfl ⟨a, hd, rfl⟩
  | markDestroyed => exact .same rfl
  | free a hd => exact .one rfl ⟨hd, rfl⟩

/-! ### Instances -/

/-- No instance is made. -/
structure MakesNone (w w' : World R) : Prop where
  mediaKeys : ∀ sys, (w'.backend sys).mediaKeys = (w.backend sys).mediaKeys ∨
    (w'.backend sys).mediaKeys = none
  journal : ∃ new, w'.journal = new ++ w.journal ∧ ∀ sys i, .mediaKeysCreated sys i ∉ new

namespace MakesNone

omit [MediaKeys R]

theorem same (hbackend : w'.backend = w.backend) (hj : w'.journal = w.journal) : MakesNone w w' :=
  ⟨fun sys => .inl (by rw [hbackend]), [], hj, by simp⟩

theorem one {e : Event} (hbackend : w'.backend = w.backend) (hj : w'.journal = e :: w.journal)
    (he : ∀ sys i, .mediaKeysCreated sys i ≠ e) : MakesNone w w' :=
  ⟨fun sys => .inl (by rw [hbackend]), [e], hj, fun sys i => by simpa using he sys i⟩

theorem record (h : MakesNone w w') {e : Event} (he : ∀ sys i, .mediaKeysCreated sys i ≠ e) :
    MakesNone w (w'.record e) := by
  obtain ⟨new, hj, hnew⟩ := h.journal
  exact ⟨h.mediaKeys, e :: new, congrArg (e :: ·) hj, fun sys i => by simp [he, hnew]⟩

theorem use (h : MakesNone w w') (a : Addr) (m : Member) : MakesNone w (w'.use a m) := by
  by_cases hm : w'.has a m
  · obtain ⟨new, hj, hnew⟩ := h.journal
    exact ⟨h.mediaKeys, new, by simp [hm, hj], hnew⟩
  · obtain ⟨new, hj, hnew⟩ := h.journal
    exact ⟨h.mediaKeys, .misused a m :: new, by simp [hm, hj], fun sys i => by simp [hnew]⟩

theorem updateSession (h : MakesNone w w') (a : Addr) (f : Session → Session) :
    MakesNone w (w'.updateSession a f) := ⟨h.mediaKeys, h.journal⟩

end MakesNone

theorem Act.makesNone_or (h : Act ρ held w w') :
    MakesNone w w' ∨ ∃ sys, w' = (w.createMediaKeys sys).2 := by
  have hsame : MakesNone w w := .same rfl rfl
  cases h with
  | createMediaKeys sys => exact .inr ⟨sys, rfl⟩
  | use a m => exact .inl (hsame.use a m)
  | updateBackend sys f hf =>
    refine .inl ⟨fun sys' => ?_, [], rfl, by simp⟩
    by_cases hs : sys' = sys
    · subst hs
      simpa using hf (w.backend sys')
    · simp [hs]
  | pass =>
    exact .inl (World.ask_snd (p := MakesNone w) (hsame.record (by simp)) fun i => .one rfl rfl (by simp))
  | getCdmKeySessionId sys id a =>
    refine .inl (World.ask_snd (p := MakesNone w) (hsame.record (by simp)) fun i => ?_)
    have hf : MakesNone w ((w.setRialto (MediaKeys.call i (.getCdmKeySessionId id) w.rialto).2).record
        (.forwarded sys i (.getCdmKeySessionId id))) := .one rfl rfl (by simp)
    unfold CdmBackend.storeCdmKeySessionId
    split
    · exact hf
    · exact (hf.use _ _).updateSession _ _
  | createKeySession sys sessionType isLDL a =>
    refine .inl (World.ask_snd (p := MakesNone w) (hsame.record (by simp)) fun i => ?_)
    have hf : MakesNone w ((w.setRialto (MediaKeys.call i (.createKeySession sessionType isLDL)
        w.rialto).2).record (.forwarded sys i (.createKeySession sessionType isLDL))) :=
      .one rfl rfl (by simp)
    unfold CdmBackend.storeKeySessionId
    dsimp only
    split_ifs <;> split
    · exact hf.record (by simp)
    · exact ((hf.use _ _).updateSession _ _).record (by simp)
    · exact hf
    · exact (hf.use _ _).updateSession _ _
  | mediaKeysFailed | notified | initialized | closed | message | callback | destructing | unregistering =>
    exact .inl (hsame.record (by simp))
  | setHandle | setInitialized | setCdmKeySessionId | setPlayreadyKeyId | clearHandle | clearKeyStatuses
  | keyStatus =>
    exact .inl ((hsame.use _ _).updateSession _ _)
  | clearChallenge | challenge =>
    exact .inl (((hsame.use _ _).updateSession _ _).record (by simp))
  | allocate | free => exact .inl (.one rfl rfl (by simp))
  | read | insertClient | eraseClient | count | markDestroyed => exact .inl (.same rfl rfl)

/-! ### Clients -/

/-- Clients change only under the lock of their dispatcher. -/
theorem Act.clients (h : Act ρ held w w') (sys : SystemId) :
    w'.clients sys = w.clients sys ∨ .dispatcher sys ∈ held ∧ ∃ a,
      ρ.join a w ∧ w'.clients sys = (w.clients sys).insert a ∨
      w'.clients sys = (w.clients sys).erase a := by
  cases h with
  | createMediaKeys =>
    simp only [World.createMediaKeys, World.assignMediaKeys]
    split_ifs <;> exact .inl rfl
  | pass => exact .inl (World.ask_snd (p := fun w' => w'.clients sys = w.clients sys) rfl fun _ => rfl)
  | getCdmKeySessionId =>
    refine .inl (World.ask_snd (p := fun w' => w'.clients sys = w.clients sys) rfl fun _ => ?_)
    unfold CdmBackend.storeCdmKeySessionId
    split <;> rfl
  | createKeySession =>
    refine .inl (World.ask_snd (p := fun w' => w'.clients sys = w.clients sys) rfl fun _ => ?_)
    unfold CdmBackend.storeKeySessionId
    dsimp only
    split_ifs <;> split <;> rfl
  | insertClient sys' a hd hj =>
    by_cases hs : sys = sys'
    · subst hs
      exact .inr ⟨hd, a, .inl ⟨hj, by simp⟩⟩
    · exact .inl (by simp [hs])
  | eraseClient sys' a hd =>
    by_cases hs : sys = sys'
    · subst hs
      exact .inr ⟨hd, a, .inr (by simp)⟩
    · exact .inl (by simp [hs])
  | _ => exact .inl rfl

theorem Act.clients_of_not_mem (h : Act ρ held w w') {sys : SystemId} (hsys : .dispatcher sys ∉ held) :
    w'.clients sys = w.clients sys :=
  (h.clients sys).resolve_right fun hr => hsys hr.1

/-! ### Objects -/

/-- What becomes of a session that is not deleted. -/
inductive Altered (ρ : Rules R) (held : List Mutex) (w : World R) (a : Addr) (s : Session) :
    Session → Prop
  | own (id : String) (keyId : Bytes) :
      Altered ρ held w a s { s with cdmKeySessionId := id, playreadyKeyId := keyId }
  | joined (h : ρ.join a w) (id : Int32) (handle : Option MessageDispatcherClient) (initialized : Bool) :
      Altered ρ held w a s { s with
        rialtoSessionId := id, messageDispatcherClient := handle, isInitialized := initialized }
  | left (h : ρ.leave a w) (handle : Option MessageDispatcherClient) (challenge : Bytes)
      (keyStatuses : Std.ExtTreeMap Bytes Rialto.KeyStatus)
      (hc : challenge = s.challengeData ∨ challenge = [])
      (hk : keyStatuses = s.keyStatuses ∨ keyStatuses = ∅) :
      Altered ρ held w a s { s with
        messageDispatcherClient := handle, challengeData := challenge, keyStatuses := keyStatuses }
  | delivered (h : Delivers held w a) (challenge : Bytes)
      (keyStatuses : Std.ExtTreeMap Bytes Rialto.KeyStatus) :
      Altered ρ held w a s { s with challengeData := challenge, keyStatuses := keyStatuses }

/-- The object at an address is altered. -/
def AlteredAt (ρ : Rules R) (held : List Mutex) (w w' : World R) (a : Addr) (o : Object) : Prop :=
  ∃ s, w'.heap[a]? = some { o with session := s } ∧ Altered ρ held w a o.session s

section

omit [MediaKeys R]

variable {a b : Addr} {o : Object}

theorem AlteredAt.same (ho : w.heap[a]? = some o) (hheap : w'.heap = w.heap) :
    AlteredAt ρ held w w' a o :=
  ⟨o.session, by rw [hheap, ho], .own o.session.cdmKeySessionId o.session.playreadyKeyId⟩

theorem AlteredAt.update (ho : w.heap[a]? = some o) {w₁ : World R} (h₁ : w₁.heap = w.heap)
    {f : Session → Session} (hf : b = a → Altered ρ held w a o.session (f o.session)) :
    AlteredAt ρ held w (w₁.updateSession b f) a o := by
  by_cases hb : b = a
  · exact ⟨f o.session, by simp [h₁, hb, ho], hf hb⟩
  · refine ⟨o.session, ?_, .own o.session.cdmKeySessionId o.session.playreadyKeyId⟩
    simp [h₁, hb, ho]

theorem AlteredAt.record (h : AlteredAt ρ held w w' a o) (e : Event) :
    AlteredAt ρ held w (w'.record e) a o := h

end

theorem Act.object (h : Act ρ held w w') {a : Addr} {o : Object} (ho : w.heap[a]? = some o) :
    AlteredAt ρ held w w' a o ∨ ρ.delete a w ∧ ((∃ m, w'.heap[a]? =
      some { o with destroyed := m :: o.destroyed }) ∨
      w'.heap[a]? = none ∧ .destructed a o.serial ∈ w'.journal) := by
  cases h with
  | createMediaKeys =>
    simp only [World.createMediaKeys, World.assignMediaKeys]
    split_ifs <;> exact .inl (.same ho rfl)
  | pass =>
    exact .inl (World.ask_snd (p := fun w' => AlteredAt ρ held w w' a o) (.same ho rfl) fun _ =>
      .same ho rfl)
  | getCdmKeySessionId sys id b =>
    refine .inl (World.ask_snd (p := fun w' => AlteredAt ρ held w w' a o) (.same ho rfl) fun _ => ?_)
    unfold CdmBackend.storeCdmKeySessionId
    split
    · exact .same ho rfl
    · exact .update (b := b) ho (by rfl) fun _ => .own _ _
  | createKeySession sys sessionType isLDL b hb hj =>
    refine .inl (World.ask_snd (p := fun w' => AlteredAt ρ held w w' a o) (.same ho rfl) fun _ => ?_)
    have hstored : ∀ id, b = a →
        Altered ρ held w a o.session { o.session with rialtoSessionId := id } := by
      rintro id rfl
      exact .joined hj id _ _
    unfold CdmBackend.storeKeySessionId
    dsimp only
    split_ifs <;> split
    · exact .same ho rfl
    · exact .record (.update (b := b) ho (by rfl) (hstored _)) _
    · exact .same ho rfl
    · exact .update (b := b) ho (by rfl) (hstored _)
  | setHandle b handle hj =>
    exact .inl (.update ho (by rfl) (by rintro rfl; exact .joined hj _ _ _))
  | setInitialized b hj =>
    exact .inl (.update ho (by rfl) (by rintro rfl; exact .joined hj _ _ _))
  | setCdmKeySessionId b id =>
    exact .inl (.update ho (by rfl) fun _ => .own _ _)
  | setPlayreadyKeyId b keyId =>
    exact .inl (.update ho (by rfl) fun _ => .own _ _)
  | clearHandle b hl =>
    exact .inl (.update ho (by rfl) (by rintro rfl; exact .left hl _ _ _ (.inl rfl) (.inl rfl)))
  | clearChallenge b hl =>
    exact .inl (.record (.update ho (by rfl) (by rintro rfl; exact .left hl _ _ _ (.inr rfl) (.inl rfl))) _)
  | clearKeyStatuses b hl =>
    exact .inl (.update ho (by rfl) (by rintro rfl; exact .left hl _ _ _ (.inl rfl) (.inr rfl)))
  | challenge b challenge hd =>
    exact .inl (.record (.update ho (by rfl) (by rintro rfl; exact .delivered hd _ _)) _)
  | keyStatus b keyStatus hd =>
    exact .inl (.update ho (by rfl) (by rintro rfl; exact .delivered hd _ _))
  | allocate b hb =>
    have hab : b ≠ a := by
      rintro rfl
      simp [Std.ExtTreeMap.mem_iff_isSome_getElem?, ho] at hb
    exact .inl ⟨o.session, by simp [hab, ho],
      .own o.session.cdmKeySessionId o.session.playreadyKeyId⟩
  | markDestroyed b m hd =>
    by_cases hb : b = a
    · subst hb
      exact .inr ⟨hd, .inl ⟨m, by simp [ho]⟩⟩
    · exact .inl ⟨o.session, by simp [hb, ho],
        .own o.session.cdmKeySessionId o.session.playreadyKeyId⟩
  | free b hd =>
    by_cases hb : b = a
    · subst hb
      exact .inr ⟨hd, .inr ⟨by simp, by simp [World.serial_of ho]⟩⟩
    · exact .inl ⟨o.session, by simp [hb, ho],
        .own o.session.cdmKeySessionId o.session.playreadyKeyId⟩
  | use b m => exact .inl (.same ho (World.use_heap ..))
  | _ => exact .inl (.same ho rfl)

/-- If there is an object at an address now and there was none, it is numbered next, and
its backend is one that sessions have. -/
def MadeNext (ρ : Rules R) (w w' : World R) (a : Addr) : Prop :=
  w.heap[a]? = none → ∀ o, w'.heap[a]? = some o → o.serial = w.allocated + 1 ∧
    ∀ sys, o.session.cdmBackend = some sys → ρ.backend sys

section

omit [MediaKeys R]

variable {a b : Addr}

theorem MadeNext.same (hheap : w'.heap = w.heap) : MadeNext ρ w w' a := fun hno o ho => by
  rw [hheap, hno] at ho
  cases ho

theorem MadeNext.update {w₁ : World R} (h₁ : w₁.heap = w.heap) {f : Session → Session} :
    MadeNext ρ w (w₁.updateSession b f) a := fun hno o ho => by
  rw [World.heap_updateSession, h₁] at ho
  split_ifs at ho with hb
  · rw [hb, hno] at ho
    cases ho
  · rw [hno] at ho
    cases ho

theorem MadeNext.record (h : MadeNext ρ w w' a) (e : Event) : MadeNext ρ w (w'.record e) a := h

end

theorem Act.madeNext (h : Act ρ held w w') (a : Addr) : MadeNext ρ w w' a := by
  cases h with
  | createMediaKeys =>
    simp only [World.createMediaKeys, World.assignMediaKeys]
    split_ifs <;> exact .same rfl
  | pass => exact World.ask_snd (p := fun w' => MadeNext ρ w w' a) (.same rfl) fun _ => .same rfl
  | getCdmKeySessionId =>
    refine World.ask_snd (p := fun w' => MadeNext ρ w w' a) (.same rfl) fun _ => ?_
    unfold CdmBackend.storeCdmKeySessionId
    split
    · exact .same rfl
    · exact .update (by rfl)
  | createKeySession =>
    refine World.ask_snd (p := fun w' => MadeNext ρ w w' a) (.same rfl) fun _ => ?_
    unfold CdmBackend.storeKeySessionId
    dsimp only
    split_ifs <;> split
    · exact .same rfl
    · exact .record (.update (by rfl)) _
    · exact .same rfl
    · exact .update (by rfl)
  | setHandle => exact .update (by rfl)
  | setInitialized => exact .update (by rfl)
  | setCdmKeySessionId => exact .update (by rfl)
  | setPlayreadyKeyId => exact .update (by rfl)
  | clearHandle => exact .update (by rfl)
  | clearChallenge => exact .record (.update (by rfl)) _
  | clearKeyStatuses => exact .update (by rfl)
  | challenge => exact .record (.update (by rfl)) _
  | keyStatus => exact .update (by rfl)
  | allocate b _ cdm _ hb =>
    intro hno o ho
    rw [World.heap_allocate] at ho
    split_ifs at ho
    · cases ho
      exact ⟨rfl, hb⟩
    · rw [hno] at ho
      cases ho
  | markDestroyed b =>
    intro hno o ho
    rw [World.heap_markDestroyed] at ho
    split_ifs at ho with hb
    · simp [hb, hno] at ho
    · rw [hno] at ho
      cases ho
  | free b =>
    intro hno o ho
    change (w.free b).heap[a]? = some o at ho
    rw [World.heap_free] at ho
    split_ifs at ho
    rw [hno] at ho
    cases ho
  | use b m => exact .same (World.use_heap ..)
  | _ => exact .same rfl

end RialtoOcdm
