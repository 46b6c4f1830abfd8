import RialtoOcdm.Interleaved.Lifetimes
import RialtoOcdm.Interleaved.Numbering
import RialtoOcdm.Interleaved.Progress
import RialtoOcdm.Sequential.Clients

/-! The silence of a closed session. The closing gives up the handle, which waits for a
delivery that is under way, before it clears the data, and a session that has been
initialized never joins its dispatcher again. So once it is closed nothing reaches it. -/

namespace RialtoOcdm

open Concurrency Prog Protocol OpenCDMSessionPrivate

variable {R ι : Type}

section

variable (x : Addr) (n : ℕ)

/-- Session `n` was constructed. While it is in memory it is at `x`, and initialized. -/
structure Known (w : World R) : Prop where
  pos : 0 < n
  le : n ≤ w.allocated
  here : ∀ (a : Addr) (o : Object), w.heap[a]? = some o → o.serial = n →
    a = x ∧ o.session.isInitialized = true

/-- `A` holds of session `n`, if it is in memory. -/
def At (A : World R → Session → Prop) (w : World R) : Prop :=
  ∀ o : Object, w.heap[x]? = some o → o.serial = n → A w o.session

/-- What a step does to the session at `x`, which was `s` and is `s'`. It joins no dispatcher,
and its data changes in deliveries, or is cleared. -/
structure Stays (held : List Mutex) (w w' : World R) (s s' : Session) : Prop where
  clients : ∀ sys, x ∈ w'.clients sys → x ∈ w.clients sys
  challenge : s'.challengeData = s.challengeData ∨ s'.challengeData = [] ∨ Delivers held w x
  keyStatuses : s'.keyStatuses = s.keyStatuses ∨ s'.keyStatuses = ∅ ∨ Delivers held w x

/-- What every step does. -/
structure Rests (held : List Mutex) (w w' : World R) : Prop where
  known : Known x n w'
  journal : w.journal <:+ w'.journal
  clients : ∀ sys, .dispatcher sys ∉ held → w'.clients sys = w.clients sys
  serial : ∀ a, w'.serial a = n → w.serial a = n
  stays : ∀ o' : Object, w'.heap[x]? = some o' → o'.serial = n → ∃ o : Object,
    w.heap[x]? = some o ∧ o.serial = n ∧ Stays x held w w' o.session o'.session
  callbacks : callbacksOf n w'.journal = callbacksOf n w.journal ∨
    ∃ o : Object, w.heap[x]? = some o ∧ o.serial = n ∧ Delivers held w x

/-- The handle changes only in turn. -/
structure Turns (held : List Mutex) (w w' : World R) : Prop extends Rests x n held w w' where
  handle : .turn x ∉ held → ∀ o o' : Object, w.heap[x]? = some o → w'.heap[x]? = some o' → o'.serial = n →
    o'.session.messageDispatcherClient = o.session.messageDispatcherClient

/-- The session does not join its dispatcher. -/
def restRules : Rules R where
  own _ _ := True
  join a w := w.serial a ≠ n
  leave _ _ := True
  delete _ _ := True
  opened _ _ := True
  granted _ _ _ := True
  backend _ := True

/-- The session neither joins nor leaves its dispatcher. -/
def turnRules : Rules R := { restRules n with leave := fun a w => w.serial a ≠ n }

end

variable {x : Addr} {n : ℕ} {w w' : World R} {held : List Mutex}

theorem Known.object_of_serial (h : Known x n w) {a : Addr} (ha : w.serial a = n) :
    ∃ o : Object, w.heap[a]? = some o ∧ o.serial = n := by
  cases ho : w.heap[a]? with
  | none => exact absurd ha (by simpa [World.serial, ho] using h.pos.ne)
  | some o => exact ⟨o, rfl, (World.serial_of ho).symm.trans ha⟩

/-- A session that is initialized does not join its dispatcher. -/
theorem Known.join (h : Known x n w) {a : Addr} (hinit : (w.session a).isInitialized = false) :
    w.serial a ≠ n := fun hserial => by
  obtain ⟨o, ho, hs⟩ := h.object_of_serial hserial
  rw [World.session_of ho, (h.here a o ho hs).2] at hinit
  cases hinit

theorem At.rests {A B : World R → Session → Prop} (h : At x n A w) (ht : Rests x n held w w')
    (hAB : ∀ s s', Stays x held w w' s s' → A w s → B w' s') : At x n B w' := fun o' ho' hs' => by
  obtain ⟨o, ho, hs, hstays⟩ := ht.stays o' ho' hs'
  exact hAB _ _ hstays (h o ho hs)

/-- Callbacks are invoked in deliveries only. -/
theorem callbacks_of_explains {ρ : Rules R} (hi : Known x n w) (he : Explains ρ held w w') :
    callbacksOf n w'.journal = callbacksOf n w.journal ∨
      ∃ o : Object, w.heap[x]? = some o ∧ o.serial = n ∧ Delivers held w x := by
  obtain ⟨new, hj, hnew⟩ := he
  by_cases hc : ∃ c, .callback n c ∈ new
  · obtain ⟨c, hc⟩ := hc
    obtain ⟨a, hd, hserial⟩ := hnew _ hc
    obtain ⟨o, ho, hs⟩ := hi.object_of_serial hserial.symm
    obtain ⟨rfl, -⟩ := hi.here a o ho hs
    exact .inr ⟨o, ho, hs, hd⟩
  · left
    have hnil : callbacksOf n new = [] := by
      apply List.filterMap_eq_nil_iff.mpr
      intro e he
      split
      · next m c =>
        rw [if_neg]
        rintro rfl
        exact hc ⟨c, he⟩
      · rfl
    rw [hj, callbacksOf, List.filterMap_append]
    change callbacksOf n new ++ callbacksOf n w.journal = _
    rw [hnil, List.nil_append]

variable [MediaKeys R]

section

variable {ρ : Rules R} (hjoin : ∀ a w, ρ.join a w → w.serial a ≠ n)

include hjoin

/-- Where the session comes from under the rules. -/
theorem object_of_act (hi : Known x n w) (ha : Act ρ held w w') {a : Addr} {o' : Object}
    (ho' : w'.heap[a]? = some o') (hs' : o'.serial = n) : ∃ o : Object, w.heap[a]? = some o ∧
      o.serial = n ∧ o'.session.isInitialized = o.session.isInitialized ∧
      (o'.session.messageDispatcherClient = o.session.messageDispatcherClient ∨ ρ.leave a w) ∧
      (o'.session.challengeData = o.session.challengeData ∨ o'.session.challengeData = [] ∨
        Delivers held w a) ∧
      (o'.session.keyStatuses = o.session.keyStatuses ∨ o'.session.keyStatuses = ∅ ∨
        Delivers held w a) := by
  cases ho : w.heap[a]? with
  | none =>
    have := (ha.madeNext a ho o' ho').1
    have := hi.le
    omega
  | some o =>
    refine ⟨o, rfl, ?_⟩
    rcases ha.object ho with ⟨s, hs, halt⟩ | ⟨-, ⟨m, hm⟩ | ⟨hnone, -⟩⟩
    · obtain rfl := Option.some.inj (hs.symm.trans ho')
      cases halt with
      | own id keyId => exact ⟨hs', rfl, .inl rfl, .inl rfl, .inl rfl⟩
      | joined h => exact absurd ((World.serial_of ho).trans hs') (hjoin a w h)
      | left h handle challenge keyStatuses hc hk =>
        exact ⟨hs', rfl, .inr h, hc.imp_right .inl, hk.imp_right .inl⟩
      | delivered hd => exact ⟨hs', rfl, .inl rfl, .inr (.inr hd), .inr (.inr hd)⟩
    · obtain rfl := Option.some.inj (hm.symm.trans ho')
      exact ⟨hs', rfl, .inl rfl, .inl rfl, .inl rfl⟩
    · rw [hnone] at ho'
      cases ho'

/-- The session does not become a client. -/
theorem clients_of_act (ha : Act ρ held w w') (hx : w.serial x = n) {sys : SystemId}
    (hmem : x ∈ w'.clients sys) : x ∈ w.clients sys := by
  rcases ha.clients sys with he | ⟨-, b, ⟨hb, he⟩ | he⟩
  · rwa [he] at hmem
  · rw [he] at hmem
    have hmem : b = x ∨ x ∈ w.clients sys := by simpa using hmem
    exact hmem.resolve_left fun he => hjoin b w hb (he ▸ hx)
  · rw [he] at hmem
    exact Std.ExtTreeSet.mem_of_mem_erase hmem

/-- The step lemma. -/
theorem rests_of_act (hi : Known x n w) (ha : Act ρ held w w') : Rests x n held w w' := by
  have hall : w.allocated ≤ w'.allocated := by
    rcases ha.numbers with h | h
    · exact h.2.ge
    · rw [h.2]
      exact Nat.le_succ _
  have hknown : Known x n w' := by
    refine ⟨hi.pos, hi.le.trans hall, fun a o' ho' hs' => ?_⟩
    obtain ⟨o, ho, hs, hinit, -⟩ := object_of_act hjoin hi ha ho' hs'
    exact (hi.here a o ho hs).imp_right hinit.trans
  refine ⟨hknown, ha.explains.suffix, fun sys => ha.clients_of_not_mem,
    fun a hs' => ?_, fun o' ho' hs' => ?_, callbacks_of_explains hi ha.explains⟩
  · obtain ⟨o', ho', hs'⟩ := hknown.object_of_serial hs'
    obtain ⟨o, ho, hs, -⟩ := object_of_act hjoin hi ha ho' hs'
    exact (World.serial_of ho).trans hs
  · obtain ⟨o, ho, hs, -, -, hchallenge, hkeyStatuses⟩ := object_of_act hjoin hi ha ho' hs'
    exact ⟨o, ho, hs, fun sys => clients_of_act hjoin ha ((World.serial_of ho).trans hs), hchallenge,
      hkeyStatuses⟩

end

/-- While a closing is not in its turn the handle stays. -/
theorem turns_of_act (hi : Known x n w) (ha : Act (turnRules n) held w w') : Turns x n held w w' where
  toRests := rests_of_act (fun _ _ h => h) hi ha
  handle _ o o' ho ho' hs' := by
    obtain ⟨o₁, ho₁, hs, -, hhandle, -⟩ := object_of_act (fun _ _ h => h) hi ha ho' hs'
    obtain rfl := Option.some.inj (ho.symm.trans ho₁)
    exact hhandle.resolve_right (not_not_intro ((World.serial_of ho).trans hs))

/-! ### The discipline -/

variable (x n) in
/-- The handle is that of a client while no closing is under way. -/
def Settled (w : World R) : Prop :=
  Known x n w ∧ At x n (fun w s => ∀ sys, x ∈ w.clients sys →
    s.messageDispatcherClient = some ⟨sys, x⟩) w

variable (x n) in
/-- The closings of the session at `x` take turns. -/
def turns : Protocol (World R) Mutex Call where
  inv := Known x n
  free m w := m = .turn x → Settled x n w
  may _ := Turns x n
  request _ _ _ _ := True

omit [MediaKeys R] in
theorem Settled.turns (h : Settled x n w) (hx : .turn x ∉ held) (ht : Turns x n held w w') :
    Settled x n w' :=
  ⟨ht.known, fun o' ho' hs' sys hmem => by
    obtain ⟨o, ho, hs, hstays⟩ := ht.stays o' ho' hs'
    rw [ht.handle hx o o' ho ho' hs']
    exact h.2 o ho hs sys (hstays.clients sys hmem)⟩

theorem turnDiscipline (k : Call) : Discipline (turns (R := R) x n) k (turnRules n) where
  act _ _ _ hi ha := have hm := turns_of_act hi ha; ⟨hm, hm.known⟩
  journal _ _ _ _ hm := hm.journal
  clients _ _ _ _ sys hm := hm.clients sys
  request _ _ _ _ := trivial
  free _ _ hm _ he := absurd he (hm x)
  own_lasting _ := lasting_true
  join_lasting a _ _ _ _ _ hm := mt (hm.serial a)
  leave_lasting a _ _ _ _ _ hm := mt (hm.serial a)
  delete_lasting _ := lasting_true
  opened_lasting _ := lasting_true
  granted_lasting _ _ := lasting_true
  opened _ _ _ _ := trivial
  granted _ _ _ _ := trivial
  backend _ _ _ _ _ := trivial
  delete _ _ _ := trivial

theorem inside_settled (ht : .turn x ∈ held) :
    Inside (turns (R := R) x n) (turnRules n) held (Settled x n) where
  keeps w w' hi hr := by
    refine hr.stable (fun c held' w w' hd _ hm hs => ?_) hi
    exact hs.turns (fun hmem => hd ht hmem) hm
  same held' w w' ha hc h := by
    refine ⟨(turns_of_act h.1 ha).known, fun o' ho' hs' sys hmem => ?_⟩
    obtain ⟨o, ho, hs, -, hhandle, -⟩ := object_of_act (fun _ _ h => h) h.1 ha ho' hs'
    rw [hc] at hmem
    rw [hhandle.resolve_right (not_not_intro ((World.serial_of ho).trans hs))]
    exact h.2 o ho hs sys hmem

omit [MediaKeys R] in
/-- What is known of the session suffices for all calls but its closings. -/
theorem turnEntitled {c : Call} (hc : ¬ c.Closes x) :
    Entitled (turns (R := R) x n) (turnRules n) c where
  own _ _ _ _ := trivial
  join w a hi := Known.join hi
  leave a ha w hi hserial := by
    obtain ⟨o, ho, hs⟩ := Known.object_of_serial hi hserial
    exact hc ((hi.here a o ho hs).1 ▸ ha)
  new _ w a s hi ha := by
    refine ⟨trivial, fun hserial => ?_⟩
    have hnew : (w.allocate a s).serial a = w.allocated + 1 := by simp [World.serial]
    have := hi.le
    omega
  backend _ _ := trivial

/-! ### The closing -/

variable (x n) in
/-- The session is a client at most of the dispatcher of the handle that was taken. -/
def Taken (handle : Option MessageDispatcherClient) : World R → Prop :=
  At x n fun w _ => ∀ sys, x ∈ w.clients sys → handle = some ⟨sys, x⟩

variable (x n) in
/-- The session is no client any more, and `A` holds of it. -/
def Off (A : Session → Prop) : World R → Prop :=
  At x n fun w s => (∀ sys, x ∉ w.clients sys) ∧ A s

/-- What stays true where data is cleared. -/
def Clearable (A : Session → Prop) : Prop :=
  ∀ s s' : Session, (s'.challengeData = s.challengeData ∨ s'.challengeData = []) →
    (s'.keyStatuses = s.keyStatuses ∨ s'.keyStatuses = ∅) → A s → A s'

/-- No data is left. -/
def Session.Empty (s : Session) : Prop := s.challengeData = [] ∧ s.keyStatuses = ∅

theorem clearable_true : Clearable fun _ => True := fun _ _ _ _ _ => trivial

theorem clearable_challenge : Clearable fun s => s.challengeData = [] := fun _ _ hc _ h =>
  hc.elim (fun hc => hc.trans h) id

theorem clearable_empty : Clearable Session.Empty := fun _ _ hc hk h =>
  ⟨hc.elim (fun hc => hc.trans h.1) id, hk.elim (fun hk => hk.trans h.2) id⟩

omit [MediaKeys R] in
theorem taken_lasting (handle : Option MessageDispatcherClient) :
    (turns (R := R) x n).Lasting (Taken x n handle) := fun _ _ _ _ _ hm h =>
  h.rests hm.toRests fun _ _ hs hclient sys hmem => hclient sys (hs.clients sys hmem)

omit [MediaKeys R] in
/-- Nothing is delivered to a session that is no client. -/
theorem Off.rests {A : Session → Prop} (h : Off x n A w) (hA : Clearable A) (hm : Rests x n held w w') :
    Off x n A w' := by
  refine At.rests h hm fun s s' hs ⟨hnone, ha⟩ => ?_
  have hd : ¬ Delivers held w x := fun ⟨sys, _, hmem⟩ => hnone sys hmem
  exact ⟨fun sys hmem => hnone sys (hs.clients sys hmem),
    hA s s' (hs.challenge.imp_right fun h => h.resolve_right hd)
      (hs.keyStatuses.imp_right fun h => h.resolve_right hd) ha⟩

omit [MediaKeys R] in
theorem off_lasting {A : Session → Prop} (hA : Clearable A) :
    (turns (R := R) x n).Lasting (Off x n A) := fun _ _ _ _ _ hm h => h.rests hA hm.toRests

omit [MediaKeys R] in
/-- A step of a closing, which changes the session by `f`. -/
theorem turns_of_closing (w' : World R) {f : Session → Session} (hi : Known x n w) (ht : .turn x ∈ held)
    (hj : w.journal <:+ w'.journal) (hall : w'.allocated = w.allocated)
    (hheap : ∀ a : Addr, w'.heap[a]? = (w.updateSession x f).heap[a]?)
    (hclients : w'.clients = w.clients)
    (hcallbacks : callbacksOf n w'.journal = callbacksOf n w.journal)
    (hinit : ∀ s, (f s).isInitialized = s.isInitialized)
    (hchallenge : ∀ s, (f s).challengeData = s.challengeData ∨ (f s).challengeData = [])
    (hkeyStatuses : ∀ s, (f s).keyStatuses = s.keyStatuses ∨ (f s).keyStatuses = ∅) :
    Turns x n held w w' ∧ ∀ {A B : World R → Session → Prop}, At x n A w →
      (∀ s, A w s → B w' (f s)) → At x n B w' := by
  have hfrom : ∀ (a : Addr) (o' : Object), w'.heap[a]? = some o' → ∃ o : Object,
      w.heap[a]? = some o ∧ o'.serial = o.serial ∧
        o'.session.isInitialized = o.session.isInitialized ∧
        (a = x → o'.session = f o.session) := fun a o' ho' => by
    rw [hheap, World.heap_updateSession] at ho'
    split_ifs at ho' with hax
    · subst hax
      obtain ⟨o, ho, rfl⟩ := Option.map_eq_some_iff.mp ho'
      exact ⟨o, ho, rfl, hinit _, fun _ => rfl⟩
    · exact ⟨o', ho', rfl, rfl, fun h => absurd h.symm hax⟩
  have hknown : Known x n w' := ⟨hi.pos, hall ▸ hi.le, fun a o' ho' hs' => by
    obtain ⟨o, ho, hs, hinit, -⟩ := hfrom a o' ho'
    exact (hi.here a o ho (hs ▸ hs')).imp_right hinit.trans⟩
  refine ⟨⟨⟨hknown, hj, fun sys _ => by rw [hclients], fun a hserial => ?_, fun o' ho' hs' => ?_,
    .inl hcallbacks⟩, fun hnot => absurd ht hnot⟩, fun hA hAB o' ho' hs' => ?_⟩
  · obtain ⟨o', ho', hs'⟩ := hknown.object_of_serial hserial
    obtain ⟨o, ho, hs, -⟩ := hfrom a o' ho'
    exact (World.serial_of ho).trans (hs.symm.trans hs')
  · obtain ⟨o, ho, hs, -, hf⟩ := hfrom x o' ho'
    refine ⟨o, ho, hs.symm.trans hs', fun sys => by rw [hclients]; exact id, ?_, ?_⟩ <;> rw [hf rfl]
    · exact (hchallenge _).imp_right .inl
    · exact (hkeyStatuses _).imp_right .inl
  · obtain ⟨o, ho, hs, -, hf⟩ := hfrom x o' ho'
    rw [hf rfl]
    exact hAB _ (hA o ho (hs.symm.trans hs'))

omit [MediaKeys R] in
theorem use_suffix (w : World R) (a : Addr) (m : Member) : w.journal <:+ (w.use a m).journal := by
  rw [World.use_journal]
  split_ifs
  · exact List.suffix_refl _
  · exact List.suffix_cons ..

omit [MediaKeys R] in
theorem callbacksOf_use (w : World R) (a : Addr) (m : Member) :
    callbacksOf n (w.use a m).journal = callbacksOf n w.journal := by
  rw [World.use_journal]
  split_ifs <;> rfl

omit [MediaKeys R] in
theorem noteClosed_leads (k : Call) (ht : .turn x ∈ held)
    (hC : (turns (R := R) x n).Keeps held (Settled x n)) : (turns (R := R) x n).Leads
      (Settled x n) k held (note x .keySessionClosed) fun _ => Settled x n := by
  refine .modify hC hC fun w hi hs => ?_
  have hheap : ∀ a : Addr, w.heap[a]? = (w.updateSession x id).heap[a]? := fun a => by
    rw [World.heap_updateSession]
    split_ifs with hax
    · simp [hax]
    · rfl
  obtain ⟨hm, hat⟩ := turns_of_closing (w.record (.keySessionClosed (w.serial x))) hi ht
    (List.suffix_cons ..) rfl hheap rfl rfl (fun _ => rfl) (fun _ => .inl rfl) fun _ => .inl rfl
  exact ⟨hm, hm.known, hm.known, hat hs.2 fun _ => id⟩

/-- The handle is taken, and then given up. -/
theorem assignClient_leads (k : Call) (ht : .turn x ∈ held) : (turns (R := R) x n).Leads
    (Settled x n) k held (assignClient x none) fun _ => Off x n fun _ => True := by
  have hC := (inside_settled (R := R) (n := n) ht).keeps
  have hoff : (turns (R := R) x n).Keeps held (Off x n fun _ => True) :=
    (off_lasting clearable_true).keeps
  refine .bind (D := fun old => Taken x n old) (.update hC (fun old => (taken_lasting old).keeps)
    fun w hi hs => ?_) fun old => ?_
  · -- what was the handle is what a client was known to have
    obtain ⟨hm, -⟩ := turns_of_closing
      ((w.use x .messageDispatcherClient).updateSession x ({ · with messageDispatcherClient := none }))
      (f := ({ · with messageDispatcherClient := none })) hi ht (use_suffix w x _) rfl
      (fun _ => rfl) rfl (callbacksOf_use w x _) (fun _ => rfl) (fun _ => .inl rfl) fun _ => .inl rfl
    refine ⟨hm, hm.known, fun o' ho' hs' sys hmem => ?_⟩
    obtain ⟨o, ho, rfl⟩ := Option.map_eq_some_iff.mp
      ((World.heap_updateSession.trans (if_pos rfl)).symm.trans ho')
    have ho : w.heap[x]? = some o := ho
    exact (congrArg _ (World.session_of ho)).trans (hs.2 o ho hs' sys hmem)
  · cases old with
    | none =>
      refine .ret hoff fun w _ h o ho hs => ⟨fun sys hmem => ?_, trivial⟩
      cases h o ho hs sys hmem
    | some old =>
      refine .withPlainLock (m := .dispatcher old.dispatcher) (taken_lasting _).keeps (fun _ => hoff)
        (fun _ _ _ => trivial) (fun w _ => nofun) ?_
      refine .modify (taken_lasting _).keeps hoff.cons fun w hi h => ?_
      have hm : Turns x n (.dispatcher old.dispatcher :: held) w _ :=
        turns_of_act hi (.eraseClient w old.dispatcher old.client List.mem_cons_self)
      refine ⟨hm, hm.known, fun o ho hs => ⟨fun sys hmem => ?_, trivial⟩⟩
      -- it is a client only of the dispatcher that it is erased from
      have hmem' : x ∈ w.clients sys ∧ (sys = old.dispatcher → old.client ≠ x) := by
        by_cases hsys : sys = old.dispatcher
        · subst hsys
          simpa [and_comm] using hmem
        · simpa [hsys] using hmem
      obtain ⟨hclient, hother⟩ := hmem'
      cases h o ho hs sys hclient
      exact hother rfl rfl

omit [MediaKeys R] in
theorem clearChallenge_leads (k : Call) (ht : .turn x ∈ held) : (turns (R := R) x n).Leads
    (Off x n fun _ => True) k held (.modify fun w => ((w.use x .challengeData).updateSession x
      ({ · with challengeData := [] })).record (.challengeCleared (w.serial x)) : Code R Unit)
    fun _ => Off x n fun s => s.challengeData = [] := by
  refine .modify (off_lasting clearable_true).keeps (off_lasting clearable_challenge).keeps
    fun w hi hs => ?_
  obtain ⟨hm, hat⟩ := turns_of_closing (((w.use x .challengeData).updateSession x
      ({ · with challengeData := [] })).record (.challengeCleared (w.serial x)))
    (f := ({ · with challengeData := [] })) hi ht ((use_suffix w x _).trans (List.suffix_cons ..)) rfl
    (fun _ => rfl) rfl (callbacksOf_use w x _) (fun _ => rfl) (fun _ => .inr rfl) fun _ => .inl rfl
  exact ⟨hm, hm.known, hat hs fun s h => ⟨h.1, rfl⟩⟩

omit [MediaKeys R] in
theorem clearKeyStatuses_leads (k : Call) (ht : .turn x ∈ held) : (turns (R := R) x n).Leads
    (Off x n fun s => s.challengeData = []) k held
    (writeMember x .keyStatuses ({ · with keyStatuses := ∅ })) fun _ => Off x n Session.Empty := by
  refine .modify (off_lasting clearable_challenge).keeps (off_lasting clearable_empty).keeps
    fun w hi hs => ?_
  obtain ⟨hm, hat⟩ := turns_of_closing ((w.use x .keyStatuses).updateSession x
      ({ · with keyStatuses := ∅ })) (f := ({ · with keyStatuses := ∅ })) hi ht (use_suffix w x _) rfl
    (fun _ => rfl) rfl (callbacksOf_use w x _) (fun _ => rfl) (fun _ => .inl rfl) fun _ => .inr rfl
  exact ⟨hm, hm.known, hat hs fun s h => ⟨h.1, h.2, rfl⟩⟩

variable (x n) in
/-- What is known when the closing has answered. -/
def Shut (ok : Bool) (w : World R) : Prop :=
  Settled x n w ∧ (ok = true → Off x n Session.Empty w)

theorem shut_keeps (ok : Bool) (ht : .turn x ∈ held) :
    (turns (R := R) x n).Keeps held (Shut x n ok) := by
  apply (inside_settled ht).keeps.and
  intro w w' hi hr h hok
  exact (off_lasting clearable_empty).rely hi (h hok) hr

/-- A session that says it is closed is no client any more, and has no data. -/
theorem closeSession_leads (k : Call) (ht : .turn x ∈ held) (hheld : Outside held) :
    (turns (R := R) x n).Leads (Settled x n) k held (closeSession x) (Shut x n) := by
  have D : Discipline (turns (R := R) x n) k (turnRules n) := turnDiscipline k
  have hC : Inside (turns (R := R) x n) (turnRules n) held (Settled x n) := inside_settled ht
  have ho : (turns (R := R) x n).Always ((turnRules n).own x) := fun _ _ => trivial
  have hfalse : (turns (R := R) x n).Leads (Settled x n) k held (.ret false : Code R Bool)
      (Shut x n) :=
    .ret (shut_keeps false ht) fun w _ hs => ⟨hs, nofun⟩
  refine .bind (D.readOwn hC ho _).leads fun cdm => ?_
  cases cdm with
  | none => exact hfalse
  | some cdm =>
    refine .bind (Routine.ret hC.keeps _).leads fun guard => ?_
    split_ifs
    · refine .bind (D.readOwn hC ho _).leads fun id => ?_
      split_ifs
      · refine .bind (D.readOwn hC ho _).leads fun id => ?_
        refine .bind (ok_routine hC.keeps
          (D.pass hC hheld.lt_two ho trivial _ fun _ _ _ _ => trivial)).leads fun ok => ?_
        cases ok with
        | false => exact hfalse
        | true =>
          refine .bind (noteClosed_leads k ht hC.keeps) fun _ => .bind (assignClient_leads k ht) fun _ => ?_
          refine .bind (clearChallenge_leads k ht) fun _ =>
            .bind (clearKeyStatuses_leads k ht) fun _ => ?_
          refine .ret (shut_keeps true ht) fun w hi hs => ⟨⟨hi, fun o ho hs' sys hmem => ?_⟩, fun _ => hs⟩
          exact absurd hmem ((hs o ho hs').1 sys)
      · exact hfalse
    · exact hfalse

/-! ### Runs -/

/-- The session that a call closes. -/
def Call.closed : Call → Option Addr
  | .operation session .close | .operation session .cleanDecryptContext => session
  | _ => none

/-- The closings of the session at `x` come one after the other. -/
def entryInTurn (x : Addr) : Call → Code R Reply :=
  guarded (fun c => c.closed = some x) (.turn x) entry

omit [MediaKeys R] in
theorem Call.closed_eq_some {c : Call} : c.closed = some x ↔ c.Closes x := by
  cases c with
  | operation session op => cases op <;> first | exact Iff.rfl | exact ⟨nofun, False.elim⟩
  | _ => exact ⟨nofun, False.elim⟩

variable (x n) in
/-- What is known when a call has returned. -/
def Quieted (c : Call) (r : Reply) (w : World R) : Prop :=
  c.Closes x → r = .error .none → Off x n Session.Empty w

omit [MediaKeys R] in
theorem Shut.quieted {c : Call} {ok : Bool} (h : Shut x n ok w) :
    Quieted x n c (.error (errorOf ok)) w := fun _ he => by
  cases ok with
  | true => exact h.2 rfl
  | false => cases he

theorem quieted_keeps (c : Call) (r : Reply) (ht : .turn x ∈ held) :
    (turns (R := R) x n).Keeps held fun w => Quieted x n c r w ∧ Settled x n w :=
  Keeps.and (fun _ _ hi hr h hc he => (off_lasting clearable_empty).rely hi (h hc he) hr)
    (inside_settled ht).keeps

theorem entry_leads {c : Call} (hc : c.Closes x) : (turns (R := R) x n).Leads (Settled x n) c
    [.turn x] (entry c) fun r w => Quieted x n c r w ∧ Settled x n w := by
  have ht : Mutex.turn x ∈ [Mutex.turn x] := List.mem_cons_self
  have hheld : Outside [Mutex.turn x] := fun l hl => by
    rw [List.mem_singleton.mp hl]
    rfl
  -- what the interface makes of the answer
  have hreply : (turns (R := R) x n).Leads (Settled x n) c [.turn x]
      (do let e ← (do return errorOf (← closeSession x)); return .error e)
      fun r w => Quieted x n c r w ∧ Settled x n w := by
    refine .bind (D := fun e w => Quieted x n c (.error e) w ∧ Settled x n w)
      (.bind (closeSession_leads c ht hheld) fun ok => ?_) fun e => ?_
    · exact .ret (quieted_keeps c _ ht) fun w _ h => ⟨h.quieted, h.1⟩
    · exact .ret (quieted_keeps c _ ht) fun w _ h => h
  cases c with
  | operation session op =>
    cases op with
    | close =>
      obtain rfl : session = some x := hc
      exact hreply
    | cleanDecryptContext =>
      obtain rfl : session = some x := hc
      exact hreply
    | _ => exact hc.elim
  | _ => exact hc.elim

theorem turns_sound : Sound (turns (R := R) x n) (Quieted x n) (entryInTurn x) where
  free_stable c held w w' m hi hm hnot hfree he := by
    subst he
    exact (hfree rfl).turns hnot hm
  post_stable c r c' held w w' hi hm h hc hr :=
    off_lasting clearable_empty c' held w w' hi hm (h hc hr)
  entry c w hi := by
    unfold entryInTurn guarded
    split_ifs with hclosed
    · have hc := Call.closed_eq_some.mp (of_decide_eq_true hclosed)
      have hQ : ∀ r, (turns (R := R) x n).Keeps [] (Quieted x n c r) := fun r w w' hi hr h hc he =>
        (off_lasting clearable_empty).rely hi (h hc he) hr
      have hturn : (turns (R := R) x n).Leads (fun _ => True) c [] (.withLock (.turn x) (entry c))
          (Quieted x n c) := by
        refine .withLock keeps_true hQ (fun _ _ _ => trivial) (fun w hi h => ?_) fun r w w' hi hr h => ?_
        · refine (entry_leads hc w hi (h.2 rfl)).mono ?_ hi
          rintro r _ w' - ⟨rfl, hq, hs⟩
          exact ⟨rfl, hq, fun _ => hs⟩
        · obtain ⟨hq, hs⟩ := quieted_keeps c r List.mem_cons_self w w' hi hr ⟨h.1, h.2 rfl⟩
          exact ⟨hq, fun _ => hs⟩
      refine (hturn w hi trivial).mono ?_ hi
      rintro r _ w' - ⟨rfl, hq⟩
      exact ⟨rfl, hq⟩
    · have hc : ¬ c.Closes x := fun h => hclosed (decide_eq_true (Call.closed_eq_some.mpr h))
      refine ((turnDiscipline c).entry (turnEntitled hc) outside_nil w hi trivial).mono ?_ hi
      rintro r _ w' - ⟨rfl, -, -⟩
      exact ⟨rfl, fun h => absurd h hc⟩

/-! ### Without turns -/

variable (x n) in
/-- What is kept whether the closings take turns or not. -/
def resting : Protocol (World R) Mutex Call where
  inv := Known x n
  free _ _ := True
  may _ := Rests x n
  request _ _ _ _ := True

theorem restDiscipline (k : Call) : Discipline (resting (R := R) x n) k (restRules n) where
  act _ _ _ hi ha := have hm := rests_of_act (fun _ _ h => h) hi ha; ⟨hm, hm.known⟩
  journal _ _ _ _ hm := hm.journal
  clients _ _ _ _ sys hm := hm.clients sys
  request _ _ _ _ := trivial
  free _ _ _ _ := trivial
  own_lasting _ := lasting_true
  join_lasting a _ _ _ _ _ hm := mt (hm.serial a)
  leave_lasting _ := lasting_true
  delete_lasting _ := lasting_true
  opened_lasting _ := lasting_true
  granted_lasting _ _ := lasting_true
  opened _ _ _ _ := trivial
  granted _ _ _ _ := trivial
  backend _ _ _ _ _ := trivial
  delete _ _ _ := trivial

omit [MediaKeys R] in
theorem restEntitled (c : Call) : Entitled (resting (R := R) x n) (restRules n) c where
  own _ _ _ _ := trivial
  join _ _ hi := Known.join hi
  leave _ _ _ _ := trivial
  new _ _ _ _ _ _ := ⟨trivial, trivial⟩
  backend _ _ := trivial

theorem resting_sound : Sound (resting (R := R) x n) (fun _ _ _ => True) entry where
  free_stable _ _ _ _ _ _ _ _ _ := trivial
  post_stable _ _ _ _ _ _ _ _ _ := trivial
  entry c w hi := by
    refine ((restDiscipline c).entry (restEntitled c) outside_nil w hi trivial).mono ?_ hi
    rintro r _ w' - ⟨rfl, -, -⟩
    exact ⟨rfl, trivial⟩

theorem resting_sound_inTurn : Sound (resting (R := R) x n) (fun _ _ _ => True) (entryInTurn x) where
  free_stable _ _ _ _ _ _ _ _ _ := trivial
  post_stable _ _ _ _ _ _ _ _ _ := trivial
  entry c w hi := by
    have hplain : ∀ held, Outside held → Plain (resting (R := R) x n) c held (entry c : Code R Reply) :=
      fun held hheld => (restDiscipline c).entry (restEntitled c) hheld
    have hentry : Plain (resting (R := R) x n) c [] (entryInTurn x c : Code R Reply) := by
      unfold entryInTurn guarded
      split_ifs
      · refine .withLock keeps_true (fun _ _ _ => trivial) (fun _ _ => trivial) (hplain _ fun l hl => ?_)
        rw [List.mem_singleton.mp hl]
        rfl
      · exact hplain [] outside_nil
    refine (hentry w hi trivial).mono ?_ hi
    rintro r _ w' - ⟨rfl, -, -⟩
    exact ⟨rfl, trivial⟩

omit [MediaKeys R] in
theorem Rests.callbacks_of_off {A : Session → Prop} (h : Rests x n held w w') (hoff : Off x n A w) :
    callbacksOf n w'.journal = callbacksOf n w.journal := by
  apply h.callbacks.resolve_right
  rintro ⟨o, ho, hs, sys, -, hmem⟩
  exact (hoff o ho hs).1 sys hmem

theorem Reachable.lives {y : Run (World R) Mutex Condition Reply} (hy : Reachable y) :
    Lives y.shared := by
  obtain ⟨rialto, keySystem, mediaKeysFactory, hr⟩ := hy
  exact anything_sound.run (fun _ _ _ => trivial) (Lives.start rialto keySystem mediaKeysFactory) hr

/-- In a state between the calls the session is settled. -/
theorem Reachable.settled {y : Run (World R) Mutex Condition Reply} (hy : Reachable y) {o : Object}
    (ho : y.shared.heap[x]? = some o) (hinit : o.session.isInitialized = true) :
    Settled x o.serial y.shared := by
  have hcons := hy.consistent
  refine ⟨⟨(hy.lives.life x _ _ _ (life_some ho)).pos, hcons.serial x o ho, fun a o' ho' hs => ?_⟩,
    fun o' ho' _ sys hmem => ((hcons.object x o' ho').clients sys).mp hmem⟩
  obtain rfl := hcons.distinct a x o' o ho' ho hs
  obtain rfl := Option.some.inj (ho'.symm.trans ho)
  exact ⟨rfl, hinit⟩

omit [MediaKeys R] in
theorem status_exec_of_empty (h : (w.session x).keyStatuses = ∅) (key : Bytes) :
    (status x key).exec [] w = .done .internalError (w.use x .keyStatuses) := by
  simp [status, readMember, exec, h]

variable [DecidableEq ι] [Fintype ι]

/-- A closing that has worked leaves the session without a dispatcher and without data. -/
theorem off_of_closed {w : World R} (hsettled : Settled x n w)
    {cfg : Config (World R) Mutex Condition ι Call Reply}
    (hr : Reaches (entryInTurn x) (.idle w []) cfg) {c : Call} (hc : c.Closes x)
    (hret : (c, .error .none) ∈ cfg.history) : Off x n Session.Empty cfg.shared := by
  have hgood : Good (turns x n) (Quieted x n) cfg :=
    (Good.idle hsettled.1 fun _ _ => hsettled).reaches turns_sound hr
  exact hgood.returned c _ hret hc rfl

/-- Nothing reaches such a session any more. -/
theorem silent_of_off {cfg cfg' : Config (World R) Mutex Condition ι Call Reply}
    (hgood : Good (resting x n) (fun _ _ _ => True) cfg) (hoff : Off x n Session.Empty cfg.shared)
    (hr : Reaches entry cfg cfg') : callbacksOf n cfg'.shared.journal = callbacksOf n cfg.shared.journal ∧
      ∀ o' : Object, cfg'.shared.heap[x]? = some o' → o'.serial = n →
        o'.session.challengeData = [] ∧ o'.session.keyStatuses = ∅ ∧
        ∀ key, ∃ w, (status x key).exec [] cfg'.shared = .done .internalError w := by
  have hlater := hgood.keeps resting_sound (F := fun w => Off x n Session.Empty w ∧
    callbacksOf n w.journal = callbacksOf n cfg.shared.journal)
    (fun k held w w' hi hm ⟨h, hcallbacks⟩ =>
      ⟨h.rests clearable_empty hm, (hm.callbacks_of_off h).trans hcallbacks⟩) hr ⟨hoff, rfl⟩
  refine ⟨hlater.2, fun o' ho' hs' => ?_⟩
  obtain ⟨-, hchallenge, hkeyStatuses⟩ := hlater.1 o' ho' hs'
  refine ⟨hchallenge, hkeyStatuses, fun key => ⟨_, status_exec_of_empty ?_ key⟩⟩
  rw [World.session_of ho', hkeyStatuses]

/-- A closed session is silent. The session at `x` has been initialized in `y`; then calls
overlap, but for the closings of this session, and one of them has worked in `cfg`. In
every later state `cfg'` no callback of the session was invoked since, and as long as it
is in memory it has no challenge and no key statuses. -/
theorem closed_silent {y : Run (World R) Mutex Condition Reply} (hy : Reachable y) {o : Object}
    (ho : y.shared.heap[x]? = some o) (hinit : o.session.isInitialized = true)
    {cfg cfg' : Config (World R) Mutex Condition ι Call Reply}
    (hr : Reaches (entryInTurn x) (.idle y.shared []) cfg) {c : Call} (hc : c.Closes x)
    (hret : (c, .error .none) ∈ cfg.history) (hr' : Reaches entry cfg cfg') :
    callbacksOf o.serial cfg'.shared.journal = callbacksOf o.serial cfg.shared.journal ∧
      ∀ o' : Object, cfg'.shared.heap[x]? = some o' → o'.serial = o.serial →
        o'.session.challengeData = [] ∧ o'.session.keyStatuses = ∅ ∧
        ∀ key, ∃ w, (status x key).exec [] cfg'.shared = .done .internalError w := by
  have hsettled := hy.settled ho hinit
  have hgood : Good (resting x o.serial) (fun _ _ _ => True) cfg :=
    (Good.idle hsettled.1 fun _ => trivial).reaches resting_sound_inTurn hr
  exact silent_of_off hgood (off_of_closed hsettled hr hc hret) hr'

/-- Where the closings of the session do not overlap the library itself does what is said
above. -/
theorem closed_silent_of_takesTurns {y : Run (World R) Mutex Condition Reply} (hy : Reachable y) {o : Object}
    (ho : y.shared.heap[x]? = some o) (hinit : o.session.isInitialized = true)
    {cfg cfg' : Config (World R) Mutex Condition ι Call Reply}
    (hr : ReachesUnder (TakesTurns fun c => c.closed = some x) entry (.idle y.shared []) cfg) {c : Call}
    (hc : c.Closes x) (hret : (c, .error .none) ∈ cfg.history) (hr' : Reaches entry cfg cfg') :
    callbacksOf o.serial cfg'.shared.journal = callbacksOf o.serial cfg.shared.journal ∧
      ∀ o' : Object, cfg'.shared.heap[x]? = some o' → o'.serial = o.serial →
        o'.session.challengeData = [] ∧ o'.session.keyStatuses = ∅ ∧
        ∀ key, ∃ w, (status x key).exec [] cfg'.shared = .done .internalError w := by
  have hsettled := hy.settled ho hinit
  obtain ⟨z, hz, hguards⟩ := exists_guards (.turn x) (fun c => entry_avoids c x) hr
  have hoff : Off x o.serial Session.Empty z.shared :=
    off_of_closed hsettled hz hc (hguards.history ▸ hret)
  have hgood : Good (resting x o.serial) (fun _ _ _ => True) cfg :=
    (Good.idle hsettled.1 fun _ => trivial).reaches resting_sound hr.reaches
  exact silent_of_off hgood (hguards.shared ▸ hoff) hr'

/-- A key of the session at address 7 is usable. -/
def keyUsable : Call := .deliver 0 (.keyStatusesChanged 7 [([2], .usable)]) fun _ _ => []

/-- The session is closed while a message is delivered to it. -/
def closingAmid : List (Action (Fin 2) Call) :=
  made 1 keyUsable 4 ++ made 0 (.operation (some 7) .close) 9 ++
    List.replicate 7 (.run 1) ++ List.replicate 7 (.run 0)

/-- Then it is initialized again, and gets another message. -/
def closedSince : List (Action (Fin 2) Call) :=
  made 1 (.initializeSession 7 false) 4 ++ made 0 keyUsable 4

/-- The message that was being delivered is the last one that the session of the sample
heard of. -/
theorem closed_silent_sample : ∃ cfg cfg' : Config (World Compliant) Mutex Condition (Fin 2) Call Reply,
    Reaches (entryInTurn 7) (.idle sample.shared []) cfg ∧ Reaches entry cfg cfg' ∧
      callbacksOf 1 cfg.shared.journal =
        [.keysUpdated 5, .keyUpdate 5 [2] 1, .keysUpdated 5, .keyUpdate 5 [1] 1] ∧
      callbacksOf 1 cfg'.shared.journal = callbacksOf 1 cfg.shared.journal := by
  obtain ⟨o, ho, hserial, hinit⟩ : ∃ o, sample.shared.heap[7]? = some o ∧ o.serial = 1 ∧
      o.session.isInitialized = true := ⟨_, rfl, rfl, rfl⟩
  have hf : ((follow (entryInTurn 7) closingAmid (.idle sample.shared [])).bind fun cfg =>
      (follow entry closedSince cfg).map fun _ => (callbacksOf 1 cfg.shared.journal,
        cfg.history.any fun e => e.1.closed = some 7 ∧ e.2 = .error .none)) =
      some ([.keysUpdated 5, .keyUpdate 5 [2] 1, .keysUpdated 5, .keyUpdate 5 [1] 1], true) := by
    decide
  obtain ⟨cfg, hcfg, hf⟩ := Option.bind_eq_some_iff.mp hf
  obtain ⟨cfg', hcfg', he⟩ := Option.map_eq_some_iff.mp hf
  simp only [Prod.mk.injEq, List.any_eq_true, decide_eq_true_eq] at he
  obtain ⟨hcallbacks, ⟨c, r⟩, hmem, hclosed, rfl⟩ := he
  have hsilent := closed_silent sample_reachable ho hinit (reaches_of_follow hcfg)
    (Call.closed_eq_some.mp hclosed) hmem (reaches_of_follow hcfg')
  rw [hserial] at hsilent
  exact ⟨cfg, cfg', reaches_of_follow hcfg, reaches_of_follow hcfg', hcallbacks, hsilent.1⟩

end RialtoOcdm
