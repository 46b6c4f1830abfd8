import RialtoOcdm.Backend.Lifecycle
import RialtoOcdm.Concurrency.Trace
import RialtoOcdm.Interleaved.Lifetimes

/-! The ids of key sessions. A session keeps the id that it was handed out when it was
initialized, and every call it causes on a media keys instance carries that id. The
instance is the one that handed the id out, unless the backend has got another since. -/

namespace RialtoOcdm

open Concurrency Protocol Rialto

variable {R ι : Type}

/-- The event is there and was not when the journal was `past`. -/
def Since (past : List Event) (w : World R) (e : Event) : Prop :=
  ∃ new, w.journal = new ++ past ∧ e ∈ new

/-- A session at `a` was destructed meanwhile. -/
def Lost (past : List Event) (a : Addr) (w : World R) : Prop := ∃ n, Since past w (.destructed a n)

/-- The session that a call made at `past` is about: the one it was given, or one that
was constructed since, if it makes one. -/
def About (k : Call × List Event) (a : Addr) (w : World R) : Prop :=
  k.1.ActsFor a ∨ k.1.Makes ∧ ∃ n d t x, Since k.2 w (.constructed a n d t x)

/-- The instance of a backend that was made last. -/
def lastMade (sys : SystemId) (journal : List Event) : Option ℕ :=
  Lifecycle.lastCreated (stages sys journal)

/-- The id was handed out to the session at `a`. -/
def Given (a : Addr) (id : Int32) (w : World R) : Prop :=
  ∃ n x, w.life a = some (n, x) ∧ ∃ i, .keySessionCreated n i id ∈ w.journal

theorem Since.of_not_mem {past : List Event} {w w' : World R} {e : Event} (hp : past <:+ w.journal)
    (hj : w.journal <:+ w'.journal) (he : e ∈ w'.journal) (hn : e ∉ w.journal) : Since past w' e := by
  obtain ⟨new, hnew⟩ := hp
  obtain ⟨more, hmore⟩ := hj
  refine ⟨more ++ new, by rw [← hmore, ← hnew, List.append_assoc], List.mem_append_left new ?_⟩
  rw [← hmore, List.mem_append] at he
  exact he.resolve_right hn

/-! ### Instances -/

/-- The instance of the system is the one made last, and so it was whenever an id was
handed out; and every session is one of the system. -/
structure Backed (sys : SystemId) (w : World R) : Prop where
  current : ∀ i, (w.backend sys).mediaKeys = some i → lastMade sys w.journal = some i
  handed : ∀ later n j id earlier, w.journal = later ++ .keySessionCreated n j id :: earlier →
    lastMade sys earlier = some j
  session : ∀ a s, (w.session a).cdmBackend = some s → s = sys

theorem lastMade_append {sys : SystemId} {new journal : List Event}
    (h : ∀ i, .mediaKeysCreated sys i ∉ new) : lastMade sys (new ++ journal) = lastMade sys journal := by
  rw [lastMade, stages, List.filterMap_append]
  exact Lifecycle.lastCreated_append_of_not_mem fun i hi => h i (mem_stages.mp hi)

theorem lastMade_cons {sys : SystemId} {e : Event} (he : ∀ i, .mediaKeysCreated sys i ≠ e)
    (journal : List Event) : lastMade sys (e :: journal) = lastMade sys journal :=
  lastMade_append fun i hi => he i (List.mem_singleton.mp hi)

/-- What has been handed out when the journal grows by events that are explained. -/
theorem Backed.handed_append {sys : SystemId} {w : World R} (h : Backed sys w) {new : List Event}
    (hmade : ∀ i, .mediaKeysCreated sys i ∉ new)
    (hnew : ∀ n j id, .keySessionCreated n j id ∈ new → (w.backend sys).mediaKeys = some j)
    {later earlier : List Event} {n j : ℕ} {id : Int32}
    (hj : new ++ w.journal = later ++ .keySessionCreated n j id :: earlier) :
    lastMade sys earlier = some j := by
  rcases List.append_eq_append_iff.mp hj with ⟨mid, rfl, hw⟩ | ⟨mid, hn, he⟩
  · exact h.handed mid n j id earlier hw
  · cases mid with
    | nil => exact h.handed [] n j id earlier (by simpa using he.symm)
    | cons e mid =>
      rw [List.cons_append, List.cons.injEq] at he
      obtain ⟨rfl, rfl⟩ := he
      rw [lastMade_append fun i hi => hmade i (by simp [hn, hi])]
      exact h.current j (hnew n j id (by simp [hn]))

variable [MediaKeys R]

/-- The backend of a session does not change. -/
theorem Act.session_cdmBackend {ρ : Rules R} {held : List Mutex} {w w' : World R} (h : Act ρ held w w')
    {a : Addr} {s : SystemId} (hs : (w'.session a).cdmBackend = some s) :
    (w.session a).cdmBackend = some s ∨ ρ.backend s := by
  cases ho' : w'.heap[a]? with
  | none => simp [World.session, ho', Session.null] at hs
  | some o' =>
    rw [World.session_of ho'] at hs
    cases ho : w.heap[a]? with
    | none => exact .inr ((h.madeNext a ho o' ho').2 s hs)
    | some o =>
      refine .inl ?_
      rw [World.session_of ho]
      rcases h.object ho with ⟨s', hs', halt⟩ | ⟨-, ⟨m, hm⟩ | ⟨hnone, -⟩⟩
      · rw [ho', Option.some.injEq] at hs'
        subst hs'
        cases halt <;> exact hs
      · rw [ho', Option.some.injEq] at hm
        subst hm
        exact hs
      · rw [ho'] at hnone
        cases hnone

/-- An instance is made, or is not. -/
theorem Backed.createMediaKeys {sys : SystemId} {w : World R} (h : Backed sys w) (s : SystemId) :
    Backed sys (w.createMediaKeys s).2 := by
  have hhanded : ∀ e later n j id earlier, (∀ n j id, e ≠ .keySessionCreated n j id) →
      e :: w.journal = later ++ .keySessionCreated n j id :: earlier → lastMade sys earlier = some j := by
    intro e later n j id earlier he hj
    cases later with
    | nil => exact absurd (List.cons.inj hj).1 (he n j id)
    | cons _ later => exact h.handed later n j id earlier (List.cons.inj hj).2
  simp only [World.createMediaKeys, World.assignMediaKeys]
  split_ifs
  · refine ⟨fun i hi => ?_, fun later n j id earlier => hhanded _ later n j id earlier (by simp), h.session⟩
    by_cases hs : sys = s
    · subst hs
      obtain rfl : w.instances = i := by simpa using hi
      simp [lastMade, stages, Event.stage, Lifecycle.lastCreated]
    · exact (lastMade_cons (by simp [hs]) w.journal).trans (h.current i (by simpa [hs] using hi))
  · refine ⟨fun i hi => ?_, fun later n j id earlier => hhanded _ later n j id earlier (by simp), h.session⟩
    refine (lastMade_cons (by simp) w.journal).trans (h.current i ?_)
    by_cases hs : sys = s
    · subst hs
      simp at hi
    · simpa [hs] using hi

/-- The step lemma. -/
theorem Backed.act {sys : SystemId} {ρ : Rules R} (hρ : ∀ s, ρ.backend s → s = sys) {held : List Mutex}
    {w w' : World R} (h : Backed sys w) (ha : Act ρ held w w') : Backed sys w' := by
  have hsession : ∀ a s, (w'.session a).cdmBackend = some s → s = sys := fun a s hs =>
    (ha.session_cdmBackend hs).elim (h.session a s) (hρ s)
  obtain ⟨new, hj, hnew⟩ := ha.explains
  have hcreated : ∀ n j id, .keySessionCreated n j id ∈ new → (w.backend sys).mediaKeys = some j := by
    intro n j id hmem
    obtain ⟨-, s, hs, hcur⟩ := hnew _ hmem
    rwa [hρ s hs] at hcur
  rcases ha.makesNone_or with hnone | ⟨s, rfl⟩
  · obtain ⟨new', hj', hmade⟩ := hnone.journal
    obtain rfl := List.append_cancel_right (hj.symm.trans hj')
    refine ⟨fun i hi => ?_, fun later n j id earlier he => ?_, hsession⟩
    · rw [hj, lastMade_append (hmade sys)]
      apply h.current i
      rcases hnone.mediaKeys sys with hm | hm
      · rwa [hm] at hi
      · rw [hm] at hi
        cases hi
    · exact h.handed_append (hmade sys) hcreated (hj ▸ he)
  · exact h.createMediaKeys s

omit [MediaKeys R] in
theorem Backed.start (sys : SystemId) (rialto : R) (keySystem : SystemId → String)
    (mediaKeysFactory : SystemId → Bool) :
    Backed sys (World.start rialto keySystem mediaKeysFactory) where
  current i hi := by simp [World.start] at hi
  handed later n j id earlier he := by simp [World.start] at he
  session a s hs := by simp [World.session, World.start, Session.null] at hs

/-! ### The protocol -/

/-- An id is passed on only for a session that it was handed out to. -/
def keyRules (sys : SystemId) (k : Call × List Event) : Rules R where
  own := About k
  join _ _ := True
  leave _ _ := True
  delete _ _ := True
  opened a w := WritesNone R → Lost k.2 a w ∨ ∃ id, Given a id w
  granted a id w := WritesNone R → Lost k.2 a w ∨ Given a id w
  backend s := s = sys

/-- What is promised of a call. -/
def passesOn (sys : SystemId) (k : Call × List Event) (w w' : World R) : Prop :=
  ∀ new s i call id, w'.journal = new ++ w.journal → .forwarded s i call ∈ new →
    call.actsOn = some id → Current (keyRules sys k) w s i ∧
      ∃ a, (keyRules sys k).own a w ∧ (keyRules sys k).granted a id w

/-- The protocol of calls that know when they were made. -/
abbrev keySessions (sys : SystemId) : Protocol (World R) Mutex (Call × List Event) :=
  (lifetimes (passesOn sys)).assume (Backed sys)

/-- What has been so since a call was made. -/
abbrev keySessionsSince (sys : SystemId) (past : List Event) :
    Protocol (World R) Mutex (Call × List Event) :=
  (keySessions sys).assume fun w => past <:+ w.journal

variable {sys : SystemId} {w w' : World R} {k : Call × List Event} {a : Addr} {id : Int32}
  {held : List Mutex}

/-- An id that was handed out stays so, unless the session is destructed. -/
theorem Given.step {past : List Event} {c : Call × List Event}
    (hi : (keySessionsSince (R := R) sys past).inv w) (hm : (keySessionsSince sys past).may c held w w')
    (h : Given a id w) : Lost past a w' ∨ Given a id w' := by
  obtain ⟨n, x, hx, i, hmem⟩ := h
  rcases hm.kept a n x hx with ⟨y, hy⟩ | hd
  · exact .inr ⟨n, y, hy, i, hm.journal.subset hmem⟩
  · exact .inl ⟨n, .of_not_mem hi.2 hm.journal hd ((hi.1.1.life a n x.1 x.2 hx).live a)⟩

/-- An id that is not the one of a session without key session was handed out to it. -/
theorem Lives.given (h : Lives w) (hR : WritesNone R) (hid : -1 ≠ (w.session a).rialtoSessionId) :
    Given a (w.session a).rialtoSessionId w := by
  cases ho : w.heap[a]? with
  | none => exact absurd (by simp [World.session, ho, Session.null, kInvalidSessionId]) hid
  | some o =>
    have hl := h.life a _ _ _ (life_some ho)
    rw [World.session_of ho] at hid ⊢
    obtain ⟨i, hi⟩ := (hl.granted hR).resolve_left fun hno => hid hno.1.symm
    exact ⟨_, _, life_some ho, i, hi⟩

theorem Act.passesOn (h : Act (keyRules sys k) held w w') : passesOn sys k w w' := by
  intro new s i call id hj hf hid
  obtain ⟨new', hj', hnew⟩ := h.explains
  rw [List.append_cancel_right (hj.symm.trans hj')] at hf
  exact (hnew _ hf).imp_right fun h => h id hid

variable [DecidableEq ι] [Fintype ι]

end RialtoOcdm
