import RialtoOcdm.Library.World

/-! What a `CdmBackend` is for: it follows the state of the application. It has an
instance exactly while the application is running; a creation that fails leaves it
in the state it was in, and the next notification of the running state tries again.
The journal of a backend is a list of stages, the last one first, and the lifecycle
accepts those lists that a backend may leave. -/

namespace RialtoOcdm

open Rialto

/-- What a stage of a backend's life can be. -/
inductive Stage
  | notified (state : ApplicationState)
  | initialized (state : ApplicationState)
  | created (mediaKeys : ℕ)
  | failed
  | forwarded (mediaKeys : ℕ) (call : MediaKeysCall)
  | refused (call : MediaKeysCall)
  deriving DecidableEq

/-- The stage that an event is for the backend of a system. -/
def Event.stage (sys : SystemId) : Event → Option Stage
  | .notified s state => if s = sys then some (.notified state) else none
  | .initialized s state => if s = sys then some (.initialized state) else none
  | .mediaKeysCreated s i => if s = sys then some (.created i) else none
  | .mediaKeysFailed s => if s = sys then some .failed else none
  | .forwarded s i call => if s = sys then some (.forwarded i call) else none
  | .refused s call => if s = sys then some (.refused call) else none
  | _ => none

/-- The event that a stage is of. -/
def Stage.event (sys : SystemId) : Stage → Event
  | .notified state => .notified sys state
  | .initialized state => .initialized sys state
  | .created i => .mediaKeysCreated sys i
  | .failed => .mediaKeysFailed sys
  | .forwarded i call => .forwarded sys i call
  | .refused call => .refused sys call

theorem Event.stage_event (sys : SystemId) (s : Stage) : (s.event sys).stage sys = some s := by
  cases s <;> exact if_pos rfl

theorem Event.event_of_stage {sys : SystemId} {s : Stage} {e : Event} (h : e.stage sys = some s) :
    s.event sys = e := by
  cases e <;> simp only [Event.stage, Option.ite_none_right_eq_some, Option.some.injEq, reduceCtorEq] at h
  all_goals
    obtain ⟨rfl, rfl⟩ := h
    rfl

def stages (sys : SystemId) (journal : List Event) : List Stage := journal.filterMap (·.stage sys)

theorem mem_stages {sys : SystemId} {s : Stage} {journal : List Event} :
    s ∈ stages sys journal ↔ s.event sys ∈ journal := by
  rw [stages, List.mem_filterMap]
  constructor
  · rintro ⟨e, he, hs⟩
    exact Event.event_of_stage hs ▸ he
  · intro he
    exact ⟨_, he, Event.stage_event sys s⟩

/-- What a backend is asked for. -/
inductive Request
  | notified (state : ApplicationState)
  | initialized (state : ApplicationState)
  | operation (call : MediaKeysCall)
  deriving DecidableEq

/-- The state that is notified. -/
def Request.notification : Request → Option ApplicationState
  | .notified state => some state
  | _ => none

/-- What a stage answers, if anything. -/
def Stage.request : Stage → Option Request
  | .notified state => some (.notified state)
  | .initialized state => some (.initialized state)
  | .forwarded _ call | .refused call => some (.operation call)
  | .created _ | .failed => none

/-- What a backend was asked for, the last request first. -/
def requests (sys : SystemId) (journal : List Event) : List Request :=
  (stages sys journal).filterMap Stage.request

theorem requests_cons {sys : SystemId} {e : Event} {s : Stage} (he : e.stage sys = some s)
    (journal : List Event) :
    requests sys (e :: journal) = s.request.toList ++ requests sys journal := by
  cases hs : s.request <;> simp [requests, stages, he, hs]

theorem requests_append_of_none {sys : SystemId} {es : List Event} (h : ∀ e ∈ es, e.stage sys = none)
    (journal : List Event) : requests sys (es ++ journal) = requests sys journal := by
  rw [requests, stages, List.filterMap_append, List.filterMap_eq_nil_iff.mpr h]
  rfl

theorem mem_requests {sys : SystemId} {r : Request} {journal : List Event} :
    r ∈ requests sys journal ↔ ∃ s : Stage, s.request = some r ∧ s.event sys ∈ journal := by
  simp only [requests, List.mem_filterMap, mem_stages]
  exact exists_congr fun s => and_comm

/-- The state of a backend, and whether it is about to ask for an instance. -/
structure Lifecycle where
  state : ApplicationState
  current : Option ℕ
  pending : Bool
  deriving DecidableEq

namespace Lifecycle

def start : Lifecycle := ⟨.unknown, none, false⟩

/-- Enter a state, or start to. -/
def enter (l : Lifecycle) (state : ApplicationState) : Lifecycle :=
  if state = .running then { l with pending := true } else ⟨state, none, false⟩

def next (l : Lifecycle) : Stage → Option Lifecycle
  | .notified state =>
    if l.pending then none else some (if state = l.state then l else l.enter state)
  | .initialized state =>
    if l.pending then none else some (if l.state = .unknown then l.enter state else l)
  | .created i => if l.pending then some ⟨.running, some i, false⟩ else none
  | .failed => if l.pending then some ⟨l.state, none, false⟩ else none
  | .forwarded i _ => if l.pending = false ∧ l.current = some i then some l else none
  | .refused _ => if l.pending = false ∧ l.current = none then some l else none

/-- Where a list of stages leads, if it is accepted. -/
def after : List Stage → Option Lifecycle
  | [] => some start
  | e :: es => (after es).bind (·.next e)

variable {l l' : Lifecycle} {e : Stage} {es : List Stage}

/-- Everything a stage can do. -/
theorem next_cases (h : l.next e = some l') :
    (∃ i, e = .created i ∧ l.pending = true ∧ l' = ⟨.running, some i, false⟩) ∨
    (e = .failed ∧ l.pending = true ∧ l' = ⟨l.state, none, false⟩) ∨
    (∃ state, (e = .notified state ∧ state ≠ l.state ∨ e = .initialized state ∧ l.state = .unknown) ∧
      l.pending = false ∧ l' = l.enter state) ∨
    ((∀ i, e ≠ .created i) ∧ e ≠ .failed ∧ (∀ state, e = .notified state → state = l.state) ∧
      (∀ state, e = .initialized state → l.state ≠ .unknown) ∧ l.pending = false ∧ l' = l) := by
  cases e with
  | notified state =>
    simp only [next, Option.ite_none_left_eq_some, Option.some.injEq, Bool.not_eq_true] at h
    obtain ⟨hp, rfl⟩ := h
    by_cases hs : state = l.state
    · exact .inr (.inr (.inr ⟨by simp, by simp, by simp [hs], by simp, hp, if_pos hs⟩))
    · exact .inr (.inr (.inl ⟨state, .inl ⟨rfl, hs⟩, hp, if_neg hs⟩))
  | initialized state =>
    simp only [next, Option.ite_none_left_eq_some, Option.some.injEq, Bool.not_eq_true] at h
    obtain ⟨hp, rfl⟩ := h
    by_cases hs : l.state = .unknown
    · exact .inr (.inr (.inl ⟨state, .inr ⟨rfl, hs⟩, hp, if_pos hs⟩))
    · exact .inr (.inr (.inr ⟨by simp, by simp, by simp, by simp [hs], hp, if_neg hs⟩))
  | created i =>
    simp only [next, Option.ite_none_right_eq_some, Option.some.injEq] at h
    exact .inl ⟨i, rfl, h.1, h.2.symm⟩
  | failed =>
    simp only [next, Option.ite_none_right_eq_some, Option.some.injEq] at h
    exact .inr (.inl ⟨rfl, h.1, h.2.symm⟩)
  | forwarded i call =>
    simp only [next, Option.ite_none_right_eq_some, Option.some.injEq] at h
    exact .inr (.inr (.inr ⟨by simp, by simp, by simp, by simp, h.1.1, h.2.symm⟩))
  | refused call =>
    simp only [next, Option.ite_none_right_eq_some, Option.some.injEq] at h
    exact .inr (.inr (.inr ⟨by simp, by simp, by simp, by simp, h.1.1, h.2.symm⟩))

theorem enter_running : l.enter .running = { l with pending := true } := if_pos rfl

theorem enter_of_ne {state : ApplicationState} (h : state ≠ .running) :
    l.enter state = ⟨state, none, false⟩ := if_neg h

/-- There is an instance exactly in the running state, which is not entered twice. -/
structure Consistent (l : Lifecycle) : Prop where
  current : l.current.isSome ↔ l.state = .running
  pending : l.pending = true → l.state ≠ .running

theorem Consistent.next (h : l.Consistent) (hn : l.next e = some l') : l'.Consistent := by
  obtain ⟨i, -, -, rfl⟩ | ⟨-, hp, rfl⟩ | ⟨state, he, -, rfl⟩ | ⟨-, -, -, -, -, rfl⟩ := next_cases hn
  · exact ⟨by simp, by simp⟩
  · exact ⟨by simp [h.pending hp], by simp⟩
  · by_cases hs : state = .running
    · subst hs
      rw [enter_running]
      refine ⟨h.current, fun _ hrun => ?_⟩
      rcases he with ⟨-, hne⟩ | ⟨-, hunknown⟩
      · exact hne hrun.symm
      · exact absurd (hunknown.symm.trans hrun) (by simp)
    · rw [enter_of_ne hs]
      exact ⟨by simp [hs], by simp⟩
  · exact h

theorem after_cons (h : after (e :: es) = some l') : ∃ l, after es = some l ∧ l.next e = some l' :=
  Option.bind_eq_some_iff.mp h

theorem consistent (h : after es = some l) : l.Consistent := by
  induction es generalizing l with
  | nil =>
    cases h
    exact ⟨by simp [start], by simp [start]⟩
  | cons e es ih =>
    obtain ⟨l₀, h₀, hn⟩ := after_cons h
    exact (ih h₀).next hn

/-- Accepted lists have accepted beginnings. -/
theorem after_append {post pre : List Stage} (h : after (post ++ pre) = some l) :
    ∃ l₀, after pre = some l₀ := by
  induction post generalizing l with
  | nil => exact ⟨l, h⟩
  | cons e post ih =>
    obtain ⟨l₀, h₀, -⟩ := after_cons h
    exact ih h₀

/-- The instance made last. -/
def lastCreated : List Stage → Option ℕ
  | [] => none
  | .created i :: _ => some i
  | _ :: es => lastCreated es

theorem lastCreated_cons_of_ne (h : ∀ i, e ≠ .created i) : lastCreated (e :: es) = lastCreated es := by
  cases e <;> first | rfl | exact absurd rfl (h _)

theorem lastCreated_append_of_not_mem {new : List Stage} (h : ∀ i, .created i ∉ new) :
    lastCreated (new ++ es) = lastCreated es := by
  induction new with
  | nil => rfl
  | cons e new ih =>
    rw [List.cons_append, lastCreated_cons_of_ne fun i he => h i (he ▸ List.mem_cons_self)]
    exact ih fun i hi => h i (List.mem_cons_of_mem e hi)

/-- The instance in use is the one made last. -/
theorem current_eq_lastCreated (h : after es = some l) {i : ℕ} (hi : l.current = some i) :
    lastCreated es = some i := by
  induction es generalizing l with
  | nil => cases h; simp [start] at hi
  | cons e es ih =>
    obtain ⟨l₀, h₀, hn⟩ := after_cons h
    obtain ⟨j, rfl, -, rfl⟩ | ⟨-, -, rfl⟩ | ⟨state, he, -, rfl⟩ | ⟨he, -, -, -, -, rfl⟩ := next_cases hn
    · exact hi
    · cases hi
    · by_cases hs : state = .running
      · rw [hs, enter_running] at hi
        rw [lastCreated_cons_of_ne (by rcases he with ⟨rfl, -⟩ | ⟨rfl, -⟩ <;> simp)]
        exact ih h₀ hi
      · rw [enter_of_ne hs] at hi
        cases hi
    · rw [lastCreated_cons_of_ne he]
      exact ih h₀ hi

/-- Without a creation a backend that is not running does not get to run. -/
theorem not_running_of_no_creation {mid pre : List Stage} (h : after (mid ++ pre) = some l')
    (hl : after pre = some l) (hnot : l.state ≠ .running) (hmid : ∀ i, .created i ∉ mid) :
    l'.state ≠ .running := by
  induction mid generalizing l' with
  | nil =>
    rw [List.nil_append, hl, Option.some.injEq] at h
    exact h ▸ hnot
  | cons e mid ih =>
    obtain ⟨l₀, h₀, hn⟩ := after_cons h
    have hprev := ih h₀ fun i hi => hmid i (by simp [hi])
    obtain ⟨j, rfl, -, -⟩ | ⟨-, -, rfl⟩ | ⟨state, he, -, rfl⟩ |
      ⟨-, -, -, -, -, rfl⟩ := next_cases hn
    · exact absurd (by simp) (hmid j)
    · exact hprev
    · by_cases hs : state = .running
      · rw [hs, enter_running]
        exact hprev
      · rw [enter_of_ne hs]
        exact hs
    · exact hprev

/-- After a notification of the running state that found another one, the next
stage is an attempt to make an instance. -/
theorem attempt_of_notified {post pre : List Stage} (h : after (post ++ .notified .running :: pre) =
    some l') (hpre : after pre = some l) (hnot : l.state ≠ .running) (hdone : l'.pending = false) :
    ∃ rest, post = rest ++ [.failed] ∨ ∃ i, post = rest ++ [.created i] := by
  -- the stages after the notification, seen from the first one of them
  induction post using List.reverseRecOn generalizing l' with
  | nil =>
    obtain ⟨l₀, h₀, hn⟩ := after_cons h
    rw [hpre, Option.some.injEq] at h₀
    subst h₀
    simp only [next, Option.ite_none_left_eq_some, Option.some.injEq, if_neg (Ne.symm hnot),
      enter_running] at hn
    rw [← hn.2] at hdone
    cases hdone
  | append_singleton rest e _ =>
    refine ⟨rest, ?_⟩
    rw [List.append_assoc, List.singleton_append] at h
    obtain ⟨l₂, h₂⟩ := after_append h
    obtain ⟨l₁, h₁, hn₂⟩ := after_cons h₂
    obtain ⟨l₀, h₀, hn₁⟩ := after_cons h₁
    rw [hpre, Option.some.injEq] at h₀
    subst h₀
    simp only [next, Option.ite_none_left_eq_some, Option.some.injEq, if_neg (Ne.symm hnot),
      enter_running] at hn₁
    have hp : l₁.pending = true := by rw [← hn₁.2]
    obtain ⟨i, rfl, -, -⟩ | ⟨rfl, -, -⟩ | ⟨state, -, hp', -⟩ |
      ⟨-, -, -, -, hp', -⟩ := next_cases hn₂
    · exact .inr ⟨i, rfl⟩
    · exact .inl rfl
    · simp [hp] at hp'
    · simp [hp] at hp'

/-- After a failure, the next notification of the running state is an attempt to make an
instance. -/
theorem attempt_after_failure {post mid pre : List Stage}
    (h : after (post ++ .notified .running :: (mid ++ .failed :: pre)) = some l)
    (hmid : ∀ i, .created i ∉ mid) (hdone : l.pending = false) :
    ∃ rest, post = rest ++ [.failed] ∨ ∃ i, post = rest ++ [.created i] := by
  obtain ⟨l₁, h₁⟩ := after_append h
  obtain ⟨l₂, h₂, -⟩ := after_cons h₁
  obtain ⟨l₃, h₃⟩ := after_append h₂
  have hnot : l₃.state ≠ .running := by
    obtain ⟨l₄, h₄, hn⟩ := after_cons h₃
    simp only [next, Option.ite_none_right_eq_some, Option.some.injEq] at hn
    rw [← hn.2]
    exact (consistent h₄).pending hn.1
  exact attempt_of_notified h h₂ (not_running_of_no_creation h₂ h₃ hnot hmid) hdone

/-! ### Agreement

When no creation fails, none of the notifications says `unknown`, and all that the
backend is initialized with is `initial`, the state is the one notified last. -/

/-- The state notified last. -/
def lastNotified : List Stage → Option ApplicationState
  | [] => none
  | .notified state :: _ => some state
  | _ :: es => lastNotified es

theorem lastNotified_eq (es : List Stage) :
    lastNotified es = (es.filterMap Stage.request).findSome? Request.notification := by
  induction es with
  | nil => rfl
  | cons e es ih => cases e <;> first | rfl | exact ih

theorem mem_of_lastNotified {state : ApplicationState} (h : lastNotified es = some state) :
    .notified state ∈ es := by
  induction es with
  | nil => cases h
  | cons e es ih =>
    cases e with
    | notified st => cases h; simp
    | _ => exact List.mem_cons_of_mem _ (ih h)

/-- The state that a backend should be in. -/
def expected (initial : ApplicationState) (es : List Stage) : ApplicationState :=
  (lastNotified es).getD (if .initialized initial ∈ es then initial else .unknown)

/-- A backend that is not on the way to the running state is where it should be. -/
theorem state_eq_expected (initial : ApplicationState) (h : after es = some l)
    (hfail : .failed ∉ es) (hunknown : .notified .unknown ∉ es)
    (hinit : ∀ state, .initialized state ∈ es → state = initial) :
    (if l.pending then .running else l.state) = expected initial es := by
  induction es generalizing l with
  | nil => cases h; rfl
  | cons e es ih =>
    obtain ⟨l₀, h₀, hn⟩ := after_cons h
    have hprev := ih h₀ (fun he => hfail (by simp [he])) (fun he => hunknown (by simp [he]))
      fun state hs => hinit state (by simp [hs])
    obtain ⟨i, rfl, hp, rfl⟩ | ⟨rfl, -, -⟩ | ⟨state, he, hp, rfl⟩ | ⟨hc, hf, hnot, hini, hp, rfl⟩ :=
      next_cases hn
    · rw [hp] at hprev
      simpa [expected, lastNotified] using hprev
    · simp at hfail
    · have hstate : (if (l₀.enter state).pending then .running else (l₀.enter state).state) = state := by
        by_cases hs : state = .running
        · rw [hs, enter_running]; rfl
        · rw [enter_of_ne hs]; rfl
      rw [hstate]
      rcases he with ⟨rfl, -⟩ | ⟨rfl, hl⟩
      · rfl
      · have hinitial := hinit state (by simp)
        subst hinitial
        -- a notification before this one would have said `unknown`
        have hnone : lastNotified es = none := by
          rw [hp, hl] at hprev
          simp only [Bool.false_eq_true, if_false, expected] at hprev
          cases hlast : lastNotified es with
          | none => rfl
          | some st =>
            rw [hlast, Option.getD_some] at hprev
            rw [← hprev] at hlast
            exact absurd (mem_of_lastNotified hlast) (fun hm => hunknown (by simp [hm]))
        simp [expected, lastNotified, hnone]
    · rw [hp] at hprev ⊢
      simp only [Bool.false_eq_true, if_false] at hprev ⊢
      cases e with
      | notified state => simp [expected, lastNotified, hnot state rfl]
      | initialized state =>
        have hinitial := hinit state (by simp)
        subst hinitial
        have hne := hini state rfl
        rw [hprev] at hne ⊢
        unfold expected at hne ⊢
        rw [show lastNotified (.initialized state :: es) = lastNotified es from rfl]
        cases hlast : lastNotified es with
        | some st => rfl
        | none =>
          rw [hlast, Option.getD_none] at hne
          split_ifs at hne with hmem
          · simp [hmem]
          · simp at hne
      | created i => exact absurd rfl (hc i)
      | failed => exact absurd rfl hf
      | forwarded i call => simpa [expected, lastNotified] using hprev
      | refused call => simpa [expected, lastNotified] using hprev

end Lifecycle

end RialtoOcdm
