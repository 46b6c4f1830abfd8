import RialtoOcdm.Sequential.Quiet

/-! The invariant of sequential runs: every session in memory is in the state of the
session by itself, and it is a client of its dispatcher while that one listens. -/

namespace RialtoOcdm

open Concurrency Prog OpenCDMSessionPrivate Rialto

variable {R : Type}

/-- A session has a handle while it listens, under the key session id it has. -/
inductive Registered (a : Addr) (s : Session) (x : Alone) : Prop
  | no (handle : s.messageDispatcherClient = none) (listening : x.listening = none)
  | yes (sys : SystemId) (messageDispatcher : s.messageDispatcher = some sys)
      (handle : s.messageDispatcherClient = some ⟨sys, a⟩) (initialized : s.isInitialized = true)
      (listening : x.listening = some s.rialtoSessionId)

/-- The session at `a` is in the state of `x`. -/
structure Tracks (w : World R) (a : Addr) (o : Object) (x : Alone) : Prop where
  destroyed : o.destroyed = []
  messageDispatcher : x.messageDispatcher = o.session.messageDispatcher
  table : x.table = o.session.callbacks
  context : x.context = o.session.context
  data : (x.challenge, x.keyStatuses) = o.session.data
  registered : Registered a o.session x
  clients : ∀ sys, a ∈ w.clients sys ↔ o.session.messageDispatcherClient = some ⟨sys, a⟩
  keySessions : x.keySessions = if o.session.isInitialized then [o.session.rialtoSessionId] else []

structure Consistent (w : World R) : Prop where
  object : ∀ (a : Addr) o, w.heap[a]? = some o → Tracks w a o (w.alone o.serial)
  callbacks : ∀ n, callbacksOf n w.journal = (w.alone n).callbacks
  clients : ∀ sys, ∀ a ∈ w.clients sys, a ∈ w.heap
  registered : ∀ a, a ∈ w.activeSessions ↔ a ∈ w.heap
  serial : ∀ (a : Addr) o, w.heap[a]? = some o → o.serial ≤ w.allocated
  distinct : ∀ (a b : Addr) o o', w.heap[a]? = some o → w.heap[b]? = some o' →
    o.serial = o'.serial → a = b
  gone : ∀ n, (∀ (a : Addr) o, w.heap[a]? = some o → o.serial ≠ n) →
    (w.alone n).listening = none ∧ (w.alone n).keySessions.length ≤ 1
  fresh : ∀ n, w.allocated < n → inputs n (story w.journal) = []

variable {w w' : World R} {a : Addr} {o o' : Object} {x : Alone}

/-- What the frame of an object has in it. -/
theorem Object.frame_eq (h : o'.frame = o.frame) :
    o'.serial = o.serial ∧ o'.destroyed = o.destroyed ∧
    o'.session.messageDispatcher = o.session.messageDispatcher ∧
    o'.session.callbacks = o.session.callbacks ∧ o'.session.context = o.session.context ∧
    o'.session.messageDispatcherClient = o.session.messageDispatcherClient ∧
    o'.session.isInitialized = o.session.isInitialized ∧
    o'.session.rialtoSessionId = o.session.rialtoSessionId :=
  ⟨congrArg (·.1) h, congrArg (·.2.2) h, congrArg (·.2.1.messageDispatcher) h,
    congrArg (·.2.1.callbacks) h, congrArg (·.2.1.context) h,
    congrArg (·.2.1.messageDispatcherClient) h, congrArg (·.2.1.isInitialized) h,
    congrArg (·.2.1.rialtoSessionId) h⟩

theorem Tracks.of_frame (h : Tracks w a o x) (hc : w'.clients = w.clients) (hf : o'.frame = o.frame)
    {y : Alone} (hy : y.messageDispatcher = x.messageDispatcher ∧ y.table = x.table ∧
      y.context = x.context ∧ y.listening = x.listening ∧ y.keySessions = x.keySessions)
    (hd : (y.challenge, y.keyStatuses) = o'.session.data) : Tracks w' a o' y := by
  obtain ⟨-, hdestroyed, hdispatcher, htable, hcontext, hhandle, hinit, hid⟩ := Object.frame_eq hf
  obtain ⟨y₁, y₂, y₃, y₄, y₅⟩ := hy
  refine ⟨hdestroyed.trans h.destroyed, ?_, ?_, ?_, hd, ?_, fun sys => ?_, ?_⟩
  · rw [y₁, h.messageDispatcher, hdispatcher]
  · rw [y₂, h.table, htable]
  · rw [y₃, h.context, hcontext]
  · cases h.registered with
    | no handle listening => exact .no (hhandle.trans handle) (y₄.trans listening)
    | yes sys dispatcher handle initialized listening =>
      exact .yes sys (hdispatcher.trans dispatcher) (hhandle.trans handle) (hinit.trans initialized)
        (by rw [y₄, listening, hid])
  · rw [hc, hhandle]
    exact h.clients sys
  · rw [y₅, h.keySessions, hinit, hid]

/-- The session hears the messages for the key session it has, if it is a client. -/
theorem Tracks.hears_iff (h : Tracks w a o x) (sys : SystemId) (message : Message) :
    x.Hears sys message ↔ a ∈ w.clients sys ∧ o.session.rialtoSessionId = message.keySessionId := by
  rw [h.clients, Alone.Hears, h.messageDispatcher]
  cases h.registered with
  | no handle listening => simp [handle, listening]
  | yes sys' dispatcher handle initialized listening => simp [dispatcher, handle, listening]

namespace Consistent

theorem sane (h : Consistent w) : w.Sane := ⟨fun a o ho => (h.object a o ho).destroyed, h.registered⟩

theorem quiet (h : Consistent w) (hq : Quiet ∅ w w') : Consistent w' := by
  have halone : ∀ n, w'.alone n = w.alone n := fun n => by rw [World.alone, World.alone, hq.story]
  refine ⟨fun a o' ho' => ?_, fun n => ?_, fun sys a ha => ?_, (hq.sane h.sane).registered,
    fun a o' ho' => ?_, fun a b o o' ho ho' hs => ?_, fun n hn => ?_, fun n hn => ?_⟩
  · obtain ⟨o, ho, hf, hd⟩ := hq.back ho'
    have ht := h.object a o ho
    rw [(Object.frame_eq hf).1, halone]
    exact ht.of_frame hq.clients hf ⟨rfl, rfl, rfl, rfl, rfl⟩ (ht.data.trans (hd (Set.notMem_empty a)).symm)
  · rw [hq.callbacks n fun _ _ ha => absurd ha (Set.notMem_empty _), h.callbacks, halone]
  · rw [hq.mem_heap]
    exact h.clients sys a (hq.clients ▸ ha)
  · obtain ⟨o, ho, hf, -⟩ := hq.back ho'
    rw [(Object.frame_eq hf).1, hq.allocated]
    exact h.serial a o ho
  · obtain ⟨o₁, ho₁, hf₁, -⟩ := hq.back ho
    obtain ⟨o₂, ho₂, hf₂, -⟩ := hq.back ho'
    rw [(Object.frame_eq hf₁).1, (Object.frame_eq hf₂).1] at hs
    exact h.distinct a b o₁ o₂ ho₁ ho₂ hs
  · rw [halone]
    apply h.gone n
    intro a o ho
    obtain ⟨o', ho', hf, -⟩ := hq.forth ho
    rw [← (Object.frame_eq hf).1]
    exact hn a o' ho'
  · rw [hq.story]
    exact h.fresh n (hq.allocated ▸ hn)

/-- Between the two states only the session numbered `n` changes, which is at `a` if it
is there. -/
structure ChangesOnly (w w' : World R) (n : ℕ) (a : Addr) : Prop where
  inputs : ∀ m, m ≠ n → inputs m (story w'.journal) = inputs m (story w.journal)
  callbacks : ∀ m, callbacksOf m w'.journal = callbacksOf m w.journal
  object : ∀ (b : Addr) o, w'.heap[b]? = some o →
    b = a ∧ o.serial = n ∨ o.serial ≠ n ∧ w.heap[b]? = some o
  kept : ∀ (b : Addr) o, w.heap[b]? = some o → o.serial ≠ n → w'.heap[b]? = some o
  clients : ∀ (b : Addr) o, w.heap[b]? = some o → o.serial ≠ n →
    ∀ sys, b ∈ w'.clients sys ↔ b ∈ w.clients sys
  allocated : w.allocated ≤ w'.allocated
  serial : n ≤ w'.allocated

/-- What is left to show of the one session that changes. -/
theorem changesOnly {n : ℕ} (h : Consistent w) (hf : ChangesOnly w w' n a)
    (htable : (w'.alone n).callbacks = (w.alone n).callbacks)
    (hobject : ∀ o, w'.heap[a]? = some o → o.serial = n → Tracks w' a o (w'.alone n))
    (hclients : ∀ sys, ∀ b ∈ w'.clients sys, b ∈ w'.heap)
    (hregistered : ∀ b, b ∈ w'.activeSessions ↔ b ∈ w'.heap)
    (hgone : (∀ (b : Addr) o, w'.heap[b]? = some o → o.serial ≠ n) →
      (w'.alone n).listening = none ∧ (w'.alone n).keySessions.length ≤ 1) : Consistent w' := by
  have halone : ∀ m, m ≠ n → w'.alone m = w.alone m := fun m hm => by
    rw [World.alone, World.alone, hf.inputs m hm]
  refine ⟨fun b o ho => ?_, fun m => ?_, hclients, hregistered, fun b o ho => ?_,
    fun b c o o' ho ho' hs => ?_, fun m hm => ?_, fun m hm => ?_⟩
  · rcases hf.object b o ho with ⟨rfl, hs⟩ | ⟨hs, ho'⟩
    · exact hs ▸ hobject o ho hs
    · have ht := h.object b o ho'
      rw [halone _ hs]
      exact { ht with clients := fun sys => (hf.clients b o ho' hs sys).trans (ht.clients sys) }
  · rw [hf.callbacks, h.callbacks]
    by_cases hm : m = n
    · rw [hm, htable]
    · rw [halone m hm]
  · rcases hf.object b o ho with ⟨-, hs⟩ | ⟨-, ho'⟩
    · exact hs ▸ hf.serial
    · exact (h.serial b o ho').trans hf.allocated
  · rcases hf.object b o ho with ⟨hb, hn⟩ | ⟨hn, hb⟩ <;>
      rcases hf.object c o' ho' with ⟨hc, hn'⟩ | ⟨hn', hc⟩
    · rw [hb, hc]
    · exact absurd (hs.symm.trans hn) hn'
    · exact absurd (hs.trans hn') hn
    · exact h.distinct b c o o' hb hc hs
  · by_cases hmn : m = n
    · subst hmn
      exact hgone hm
    · rw [halone m hmn]
      apply h.gone m
      intro b o ho hs
      exact hm b o (hf.kept b o ho (hs ▸ hmn)) hs
  · have hn := hf.serial
    rw [hf.inputs m (by omega)]
    exact h.fresh m (lt_of_le_of_lt hf.allocated hm)

/-- One session changes, and with it the session by itself; the others do not notice. -/
theorem change (h : Consistent w) (ho : w.heap[a]? = some o) (ho' : w'.heap[a]? = some o')
    (hserial : o'.serial = o.serial) (hheap : ∀ b : Addr, b ≠ a → w'.heap[b]? = w.heap[b]?)
    (hclients : ∀ b sys, b ≠ a → (b ∈ w'.clients sys ↔ b ∈ w.clients sys))
    (hregistered : w'.activeSessions = w.activeSessions) (hallocated : w'.allocated = w.allocated)
    (hinputs : ∀ m, m ≠ o.serial → inputs m (story w'.journal) = inputs m (story w.journal))
    (hcallbacks : ∀ m, callbacksOf m w'.journal = callbacksOf m w.journal)
    (hself : (w'.alone o.serial).callbacks = (w.alone o.serial).callbacks)
    (ht : Tracks w' a o' (w'.alone o.serial)) : Consistent w' := by
  have hmem : ∀ b, b ∈ w'.heap ↔ b ∈ w.heap := fun b => by
    rw [Std.ExtTreeMap.mem_iff_isSome_getElem?, Std.ExtTreeMap.mem_iff_isSome_getElem?]
    by_cases hb : b = a
    · rw [hb, ho, ho']; simp
    · rw [hheap b hb]
  have hother : ∀ (b : Addr) o₁, w.heap[b]? = some o₁ → o₁.serial ≠ o.serial → b ≠ a := by
    rintro b o₁ h₁ hs rfl
    rw [ho, Option.some.injEq] at h₁
    exact hs (h₁ ▸ rfl)
  have hobject : ∀ (b : Addr) o₁, w'.heap[b]? = some o₁ →
      b = a ∧ o₁.serial = o.serial ∨ o₁.serial ≠ o.serial ∧ w.heap[b]? = some o₁ := by
    intro b o₁ h₁
    by_cases hb : b = a
    · subst hb
      rw [ho', Option.some.injEq] at h₁
      exact .inl ⟨rfl, h₁ ▸ hserial⟩
    · rw [hheap b hb] at h₁
      exact .inr ⟨fun he => hb (h.distinct b a o₁ o h₁ ho he), h₁⟩
  have hf : ChangesOnly w w' o.serial a :=
    { inputs := hinputs
      callbacks := hcallbacks
      object := hobject
      kept := fun b o₁ h₁ hs => (hheap b (hother b o₁ h₁ hs)).trans h₁
      clients := fun b o₁ h₁ hs sys => hclients b sys (hother b o₁ h₁ hs)
      allocated := hallocated.ge
      serial := hallocated ▸ h.serial a o ho }
  refine h.changesOnly hf hself (fun o₁ h₁ _ => ?_) (fun sys b hb => ?_)
    (fun b => by rw [hregistered, hmem, h.registered]) fun hnone => absurd hserial (hnone a o' ho')
  · rw [ho', Option.some.injEq] at h₁
    exact h₁ ▸ ht
  · rw [hmem]
    by_cases hba : b = a
    · rw [hba, Std.ExtTreeMap.mem_iff_isSome_getElem?, ho]; rfl
    · exact h.clients sys b ((hclients b sys hba).mp hb)

end Consistent

end RialtoOcdm
