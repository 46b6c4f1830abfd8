import RialtoOcdm.Interleaved.Effects
import RialtoOcdm.Interleaved.Entries

/-! The lives of sessions in any interleaving, whatever is called and even if a session
is used after it was deleted: at an address there is one session until it is
destructed, its challenge is the last one it was given unless that was cleared, and
the key session id it has is one that was handed out to it. -/

namespace RialtoOcdm

open Concurrency Protocol Rialto OpenCDMSessionPrivate

variable {R κ : Type}

/-- The session that an event of its life is about. -/
def Event.about : Event → ℕ
  | .challenge n _ | .challengeCleared n | .keySessionCreated n .. | .destructed _ n => n
  | _ => 0

/-- The challenge that session `n` has after what happened. -/
def challengeAfter (n : ℕ) : List Event → Bytes
  | [] => []
  | e :: past =>
    match e with
    | .challenge m challenge => if m = n then challenge else challengeAfter n past
    | .challengeCleared m => if m = n then [] else challengeAfter n past
    | _ => challengeAfter n past

theorem challengeAfter_cons_of_ne {n : ℕ} {e : Event} (he : e.about ≠ n)
    (past : List Event) : challengeAfter n (e :: past) = challengeAfter n past := by
  cases e <;> simp_all [challengeAfter, Event.about]

theorem challengeAfter_append {n : ℕ} {new : List Event} (hnew : ∀ e ∈ new, e.about ≠ n)
    (past : List Event) : challengeAfter n (new ++ past) = challengeAfter n past := by
  induction new with
  | nil => rfl
  | cons e new ih =>
    rw [List.cons_append, challengeAfter_cons_of_ne (hnew e List.mem_cons_self)]
    exact ih fun e he => hnew e (List.mem_cons_of_mem _ he)

theorem challengeAfter_eq_nil {n : ℕ} {past : List Event} (h : ∀ e ∈ past, e.about ≠ n) :
    challengeAfter n past = [] := by simpa [challengeAfter] using challengeAfter_append h []

/-- The number, the challenge and the key session id of the session at an address. -/
def World.life (w : World R) (a : Addr) : Option (ℕ × Bytes × Int32) :=
  w.heap[a]?.map fun o => (o.serial, o.session.challengeData, o.session.rialtoSessionId)

/-- A media keys instance hands out no id when it creates no key session. -/
def WritesNone (R : Type) [MediaKeys R] : Prop :=
  ∀ i sessionType isLDL (r : R), (MediaKeys.call i (.createKeySession sessionType isLDL) r).1.ok = false →
    (MediaKeys.call i (.createKeySession sessionType isLDL) r).1.out = none

/-- The id is the one of a session without key session, or it was handed out to `n`. -/
def Granted (n : ℕ) (id : Int32) (journal : List Event) : Prop :=
  (id = -1 ∧ ∀ i j, .keySessionCreated n i j ∉ journal) ∨ ∃ i, .keySessionCreated n i id ∈ journal

/-- What is true of a live session. -/
structure Lived [MediaKeys R] (w : World R) (n : ℕ) (challenge : Bytes) (id : Int32) : Prop where
  pos : 0 < n
  le : n ≤ w.allocated
  challenge : challenge = challengeAfter n w.journal
  live : ∀ b, .destructed b n ∉ w.journal
  granted : WritesNone R → Granted n id w.journal

structure Lives [MediaKeys R] (w : World R) : Prop where
  life : ∀ a n challenge id, w.life a = some (n, challenge, id) → Lived w n challenge id
  distinct : ∀ a b n x y, w.life a = some (n, x) → w.life b = some (n, y) → a = b
  later : ∀ n, w.allocated < n → ∀ e ∈ w.journal, e.about ≠ n

variable [MediaKeys R] {w w' : World R} {n : ℕ} {challenge : Bytes} {id : Int32}

/-- Events about others. -/
theorem Lived.frame (h : Lived w n challenge id) {new : List Event} (hj : w'.journal = new ++ w.journal)
    (hnew : ∀ e ∈ new, e.about ≠ n) (hall : w.allocated ≤ w'.allocated) : Lived w' n challenge id where
  pos := h.pos
  le := h.le.trans hall
  challenge := by rw [hj, challengeAfter_append hnew, h.challenge]
  live b hb := by
    rw [hj, List.mem_append] at hb
    exact hb.elim (fun hb => hnew _ hb rfl) (h.live b)
  granted hR := by
    refine (h.granted hR).imp (fun ⟨hid, hno⟩ => ⟨hid, fun i j hmem => ?_⟩) fun ⟨i, hi⟩ => ⟨i, ?_⟩
    · rw [hj, List.mem_append] at hmem
      exact hmem.elim (fun hmem => hnew _ hmem rfl) (hno i j)
    · rw [hj]
      exact List.mem_append_right new hi

/-- The step lemma: at one address the life changes to `x`, and all that happens is about
`s`, the session there. -/
theorem Lives.put (h : Lives w) {a : Addr} {x : Option (ℕ × Bytes × Int32)} {l : List Event} {s : ℕ}
    (hlife : ∀ b, w'.life b = if a = b then x else w.life b) (hj : w'.journal = l ++ w.journal)
    (hall : w.allocated ≤ w'.allocated) (hs : s ≤ w'.allocated)
    (hne : ∀ b m y, b ≠ a → w.life b = some (m, y) → m ≠ s)
    (hnew : ∀ e ∈ l, e.about = 0 ∨ e.about = s)
    (hx : ∀ m c id, x = some (m, c, id) → m = s ∧ Lived w' m c id) : Lives w' where
  life b m c id hb := by
    rw [hlife] at hb
    split_ifs at hb with hab
    · exact (hx m c id hb).2
    · have hl := h.life b m c id hb
      refine hl.frame hj (fun e he hm => ?_) hall
      rcases hnew e he with h₀ | h₁
      · exact hl.pos.ne' (hm.symm.trans h₀)
      · exact hne b m _ (Ne.symm hab) hb (hm.symm.trans h₁)
  distinct b b' m y y' hb hb' := by
    rw [hlife] at hb hb'
    split_ifs at hb hb' with h₁ h₂ h₂
    · exact h₁.symm.trans h₂
    · exact absurd (hx m y.1 y.2 hb).1 (hne b' m y' (Ne.symm h₂) hb')
    · exact absurd (hx m y'.1 y'.2 hb').1 (hne b m y (Ne.symm h₁) hb)
    · exact h.distinct b b' m y y' hb hb'
  later m hm e he := by
    rw [hj, List.mem_append] at he
    rcases he with he | he
    · rcases hnew e he with h₀ | h₁ <;> omega
    · exact h.later m (by omega) e he

/-! ### Idle steps -/

/-- Nothing but what the lives of sessions do not depend on. -/
structure Idle (w w' : World R) : Prop where
  life : ∀ a, w'.life a = w.life a
  allocated : w'.allocated = w.allocated
  journal : ∃ new, w'.journal = new ++ w.journal ∧ ∀ e ∈ new, e.about = 0

theorem Lives.idle (h : Lives w) (hq : Idle w w') : Lives w' := by
  obtain ⟨new, hj, hnew⟩ := hq.journal
  refine ⟨fun a n c id ha => ?_, fun a b n x y ha hb => ?_, fun n hn e he => ?_⟩
  · rw [hq.life] at ha
    have hl := h.life a n c id ha
    exact hl.frame hj (fun e he hn => hl.pos.ne' (hn.symm.trans (hnew e he))) hq.allocated.ge
  · rw [hq.life] at ha hb
    exact h.distinct a b n x y ha hb
  · rw [hq.allocated] at hn
    rw [hj, List.mem_append] at he
    rcases he with he | he
    · rw [hnew e he]; omega
    · exact h.later n hn e he

namespace Idle

omit [MediaKeys R]

variable {a : Addr}

theorem refl (w : World R) : Idle w w := ⟨fun _ => rfl, rfl, [], rfl, by simp⟩

theorem trans {w'' : World R} (h : Idle w w') (h' : Idle w' w'') : Idle w w'' where
  life a := (h'.life a).trans (h.life a)
  allocated := h'.allocated.trans h.allocated
  journal := by
    obtain ⟨new, hj, hnew⟩ := h.journal
    obtain ⟨new', hj', hnew'⟩ := h'.journal
    refine ⟨new' ++ new, by rw [hj', hj, List.append_assoc], fun e he => ?_⟩
    exact (List.mem_append.mp he).elim (hnew' e) (hnew e)

theorem setRialto (h : Idle w w') (r : R) : Idle w (w'.setRialto r) :=
  ⟨h.life, h.allocated, h.journal⟩

/-- What does not show in the objects and the journal. -/
theorem same (hheap : w'.heap = w.heap) (hall : w'.allocated = w.allocated)
    (hj : w'.journal = w.journal) : Idle w w' :=
  ⟨fun a => by rw [World.life, hheap, World.life], hall, [], hj, by simp⟩

theorem record (h : Idle w w') {e : Event} (he : e.about = 0) : Idle w (w'.record e) :=
  h.trans ⟨fun _ => rfl, rfl, [e], rfl, by simpa using he⟩

theorem use (h : Idle w w') (a : Addr) (m : Member) : Idle w (w'.use a m) := by
  refine h.trans ⟨fun _ => rfl, rfl, ?_⟩
  rw [World.use_journal]
  split_ifs
  · exact ⟨[], rfl, by simp⟩
  · exact ⟨[.misused a m], rfl, by simp [Event.about]⟩

end Idle

section

omit [MediaKeys R]

@[simp] theorem life_updateSession {a b : Addr} {f : Session → Session} :
    (w.updateSession a f).life b = if a = b then
      w.heap[a]?.map fun o => (o.serial, (f o.session).challengeData, (f o.session).rialtoSessionId)
      else w.life b := by
  unfold World.life
  rw [World.heap_updateSession]
  split_ifs
  · rw [Option.map_map]; rfl
  · rfl

@[simp] theorem life_markDestroyed {a b : Addr} {m : Member} :
    (w.markDestroyed a m).life b = w.life b := by
  unfold World.life
  rw [World.heap_markDestroyed]
  split_ifs with hab
  · subst hab
    rw [Option.map_map]
    rfl
  · rfl

@[simp] theorem life_allocate {a b : Addr} {s : Session} : (w.allocate a s).life b =
    if a = b then some (w.allocated + 1, s.challengeData, s.rialtoSessionId) else w.life b := by
  unfold World.life
  rw [World.heap_allocate]
  split_ifs <;> rfl

@[simp] theorem life_free {a b : Addr} : (w.free a).life b = if a = b then none else w.life b := by
  unfold World.life
  rw [World.heap_free]
  split_ifs <;> rfl

/-- A change of a session that is none to its life. -/
theorem Idle.updateSession (h : Idle w w') {a : Addr} {f : Session → Session}
    (hf : ∀ s, (f s).challengeData = s.challengeData ∧ (f s).rialtoSessionId = s.rialtoSessionId) :
    Idle w (w'.updateSession a f) := by
  refine h.trans ⟨fun b => ?_, rfl, [], rfl, by simp⟩
  rw [life_updateSession]
  split_ifs with hab
  · subst hab
    simp only [hf]
    rfl
  · rfl

theorem life_eq_some {a : Addr} {x : ℕ × Bytes × Int32} : w.life a = some x ↔ ∃ o,
    w.heap[a]? = some o ∧ (o.serial, o.session.challengeData, o.session.rialtoSessionId) = x := by
  rw [World.life, Option.map_eq_some_iff]

end

/-! ### Steps of a life -/

section

omit [MediaKeys R]

@[simp] theorem life_record (e : Event) (a : Addr) : (w.record e).life a = w.life a := rfl

theorem life_none {a : Addr} (ha : w.heap[a]? = none) : w.life a = none := by simp [World.life, ha]

theorem life_some {a : Addr} {o : Object} (ho : w.heap[a]? = some o) :
    w.life a = some (o.serial, o.session.challengeData, o.session.rialtoSessionId) := by
  simp [World.life, ho]

theorem serial_none {a : Addr} (ha : w.heap[a]? = none) : w.serial a = 0 := by
  simp [World.serial, ha]

end

/-- No other session has the number. -/
theorem Lives.other (h : Lives w) {a b : Addr} {o : Object} (ho : w.heap[a]? = some o) (hb : b ≠ a)
    {m : ℕ} {y : Bytes × Int32} (hm : w.life b = some (m, y)) : m ≠ o.serial := by
  rintro rfl
  exact hb (h.distinct b a _ _ _ hm (life_some ho))

/-- The session at `a` changes as the event `e` about it tells. -/
theorem Lives.retell (h : Lives w) {a : Addr} {e : Event} (hlife : ∀ b, b ≠ a → w'.life b = w.life b)
    (hall : w'.allocated = w.allocated) (hj : w'.journal = e :: w.journal)
    (he : e.about = w.serial a) (hnone : w.heap[a]? = none → w'.life a = none)
    (hsome : ∀ o, w.heap[a]? = some o → ∃ c id, w'.life a = some (o.serial, c, id) ∧
      c = challengeAfter o.serial (e :: w.journal) ∧ (∀ b, e ≠ .destructed b o.serial) ∧
      (WritesNone R → Granted o.serial id (e :: w.journal))) : Lives w' := by
  cases ho : w.heap[a]? with
  | none =>
    refine h.idle ⟨fun b => ?_, hall, [e], hj, by simpa [serial_none ho] using he⟩
    by_cases hb : b = a
    · rw [hb, hnone ho, life_none ho]
    · exact hlife b hb
  | some o =>
    obtain ⟨c, id, hx, hc, hd, hg⟩ := hsome o ho
    have hl := h.life a _ _ _ (life_some ho)
    rw [World.serial_of ho] at he
    refine h.put (a := a) (x := w'.life a) (s := o.serial) (l := [e]) (fun b => ?_) hj hall.ge
      (hall ▸ hl.le) (fun b m y hb hm => h.other ho hb hm) (by simp [he]) ?_
    · split_ifs with hb
      · rw [hb]
      · exact hlife b (Ne.symm hb)
    · rintro m c' id' hm
      rw [hx] at hm
      cases hm
      refine ⟨rfl, hl.pos, hall ▸ hl.le, hj ▸ hc, fun b hb => ?_, fun hR => hj ▸ hg hR⟩
      rw [hj, List.mem_cons] at hb
      exact hb.elim (fun hb => hd b hb.symm) (hl.live b)

theorem Granted.cons {journal : List Event} (h : Granted n id journal) {e : Event}
    (he : ∀ i j, e ≠ .keySessionCreated n i j) : Granted n id (e :: journal) := by
  refine h.imp (fun ⟨hid, hno⟩ => ⟨hid, fun i j hmem => ?_⟩) fun ⟨i, hi⟩ => ⟨i, List.mem_cons_of_mem e hi⟩
  exact (List.mem_cons.mp hmem).elim (fun h => he i j h.symm) (hno i j)

/-- A session is given a challenge, or it is cleared. -/
theorem Lives.setChallenge (h : Lives w) (a : Addr) (c : Bytes) {e : Event}
    (he : e = .challenge (w.serial a) c ∨ e = .challengeCleared (w.serial a) ∧ c = []) :
    Lives ((w.updateSession a ({ · with challengeData := c })).record e) := by
  have habout : e.about = w.serial a := by rcases he with rfl | ⟨rfl, -⟩ <;> rfl
  refine h.retell (a := a) (fun b hb => ?_) rfl rfl habout (fun ha => ?_) fun o ho => ?_
  · simp [Ne.symm hb]
  · simp [ha]
  · refine ⟨c, o.session.rialtoSessionId, by simp [ho], ?_⟩
    have hl := h.life a _ _ _ (life_some ho)
    rw [World.serial_of ho] at he
    refine ⟨?_, fun b => ?_, fun hR => (hl.granted hR).cons fun i j => ?_⟩
    · rcases he with rfl | ⟨rfl, rfl⟩ <;> simp [challengeAfter]
    · rcases he with rfl | ⟨rfl, -⟩ <;> simp
    · rcases he with rfl | ⟨rfl, -⟩ <;> simp

/-- A key session is created, with the id that the session has then. -/
theorem Lives.created (h : Lives w) {v : World R} {a : Addr} (hlife : ∀ b, b ≠ a → v.life b = w.life b)
    (hall : v.allocated = w.allocated) (hj : v.journal = w.journal)
    (hserial : v.serial a = w.serial a) (hnone : w.heap[a]? = none → v.life a = none)
    (hsome : ∀ o, w.heap[a]? = some o →
      v.life a = some (o.serial, o.session.challengeData, (v.session a).rialtoSessionId)) (i : ℕ) :
    Lives (v.record (.keySessionCreated (v.serial a) i (v.session a).rialtoSessionId)) := by
  refine h.retell hlife hall (by rw [World.record_journal, hj]) (e := .keySessionCreated (v.serial a) i
    (v.session a).rialtoSessionId) hserial hnone fun o ho => ?_
  refine ⟨_, _, hsome o ho, (h.life a _ _ _ (life_some ho)).challenge, by simp, fun _ => .inr ⟨i, ?_⟩⟩
  rw [hserial, World.serial_of ho]
  exact List.mem_cons_self

/-- An id is written though no key session is created. -/
theorem Lives.assign (h : Lives w) (a : Addr) {f : Session → Session}
    (hf : ∀ s, (f s).challengeData = s.challengeData) (hR : ¬ WritesNone R) :
    Lives (w.updateSession a f) := by
  cases ho : w.heap[a]? with
  | none =>
    refine h.idle ⟨fun b => ?_, rfl, [], rfl, by simp⟩
    by_cases hb : a = b
    · subst hb; simp [ho, life_none ho]
    · simp [hb]
  | some o =>
    have hl := h.life a _ _ _ (life_some ho)
    refine h.put (a := a) (s := o.serial) (l := []) (fun b => life_updateSession) rfl le_rfl hl.le
      (fun b m y hb hm => h.other ho hb hm) (by simp) fun m c id hx => ?_
    simp only [ho, Option.map_some, Option.some.injEq, Prod.mk.injEq, hf] at hx
    obtain ⟨rfl, rfl, rfl⟩ := hx
    exact ⟨rfl, hl.pos, hl.le, hl.challenge, hl.live, fun h => absurd h hR⟩

/-- A media keys instance answers for a key session. -/
theorem Lives.storeKeySessionId (h : Lives w) (a : Addr) {sessionType : KeySessionType} {isLDL : Bool}
    (i : ℕ) (answer : Answer (.createKeySession sessionType isLDL))
    (hR : WritesNone R → answer.ok = false → answer.out = none) :
    Lives (CdmBackend.storeKeySessionId a sessionType isLDL i answer w) := by
  unfold CdmBackend.storeKeySessionId
  cases hout : answer.out with
  | none =>
    dsimp only
    split_ifs
    · exact h.created (fun _ _ => rfl) rfl rfl rfl life_none
        (fun o ho => by rw [World.session_of ho, life_some ho]) i
    · exact h
  | some id =>
    have hu := h.idle ((Idle.refl w).use a .rialtoSessionId)
    dsimp only
    split_ifs with hok
    · refine hu.created (v := (w.use a .rialtoSessionId).updateSession a ({ · with rialtoSessionId := id }))
        (fun b hb => ?_) rfl rfl (by simp) (fun ha => ?_) (fun o ho => ?_) i
      · rw [life_updateSession, if_neg (Ne.symm hb)]
      · rw [life_updateSession, if_pos rfl, ha, Option.map_none]
      · have hx : ((w.use a .rialtoSessionId).updateSession a ({ · with rialtoSessionId := id })).heap[a]? =
            some { o with session := { o.session with rialtoSessionId := id } } := by
          rw [World.heap_updateSession, if_pos rfl, ho, Option.map_some]
        rw [life_some hx, World.session_of hx]
    · refine hu.assign a (fun _ => rfl) fun hw => ?_
      simp [hR hw (by simpa using hok)] at hout

/-! ### Every step -/

theorem Lives.act {ρ : Rules R} {held : List Mutex} (h : Lives w) (ha : Act ρ held w w') :
    Lives w' := by
  have hq := Idle.refl w
  cases ha with
  | read => exact h
  | use a m => exact h.idle (hq.use a m)
  | updateBackend => exact h.idle (.same rfl rfl rfl)
  | createMediaKeys =>
    simp only [World.createMediaKeys, World.assignMediaKeys]
    split_ifs
    · exact h.idle ⟨fun _ => rfl, rfl, [_], rfl, by simp [Event.about]⟩
    · exact h.idle ⟨fun _ => rfl, rfl, [_], rfl, by simp [Event.about]⟩
  | mediaKeysFailed => exact h.idle (hq.record rfl)
  | notified => exact h.idle (hq.record rfl)
  | initialized => exact h.idle (hq.record rfl)
  | pass sys call =>
    refine World.ask_snd (p := Lives) (h.idle (hq.record rfl)) fun i => h.idle ?_
    exact (hq.setRialto _).record rfl
  | getCdmKeySessionId sys id a =>
    refine World.ask_snd (p := Lives) (h.idle (hq.record rfl)) fun i => h.idle ?_
    have hf : Idle w ((w.setRialto (MediaKeys.call i (.getCdmKeySessionId id) w.rialto).2).record
        (.forwarded sys i (.getCdmKeySessionId id))) := (hq.setRialto _).record rfl
    unfold CdmBackend.storeCdmKeySessionId
    split
    · exact hf
    · exact (hf.use a _).updateSession fun _ => ⟨rfl, rfl⟩
  | createKeySession sys sessionType isLDL a =>
    apply World.ask_snd (p := Lives) (h.idle (hq.record rfl))
    intro i
    have hf : Lives ((w.setRialto (MediaKeys.call i (.createKeySession sessionType isLDL) w.rialto).2).record
        (.forwarded sys i (.createKeySession sessionType isLDL))) :=
      h.idle ((hq.setRialto _).record rfl)
    exact hf.storeKeySessionId a i _ fun hR => hR i sessionType isLDL w.rialto
  | insertClient => exact h.idle (.same rfl rfl rfl)
  | setHandle a => exact h.idle ((hq.use a _).updateSession fun _ => ⟨rfl, rfl⟩)
  | setInitialized a => exact h.idle ((hq.use a _).updateSession fun _ => ⟨rfl, rfl⟩)
  | setCdmKeySessionId a => exact h.idle ((hq.use a _).updateSession fun _ => ⟨rfl, rfl⟩)
  | setPlayreadyKeyId a => exact h.idle ((hq.use a _).updateSession fun _ => ⟨rfl, rfl⟩)
  | closed => exact h.idle (hq.record rfl)
  | clearHandle a => exact h.idle ((hq.use a _).updateSession fun _ => ⟨rfl, rfl⟩)
  | eraseClient => exact h.idle (.same rfl rfl rfl)
  | clearChallenge a =>
    exact (h.idle (hq.use a .challengeData)).setChallenge a [] (.inr ⟨rfl, rfl⟩)
  | clearKeyStatuses a => exact h.idle ((hq.use a _).updateSession fun _ => ⟨rfl, rfl⟩)
  | message => exact h.idle (hq.record rfl)
  | challenge a challenge =>
    exact (h.idle (hq.use a .challengeData)).setChallenge a challenge (.inl rfl)
  | keyStatus a => exact h.idle ((hq.use a _).updateSession fun _ => ⟨rfl, rfl⟩)
  | callback => exact h.idle (hq.record rfl)
  | allocate a ha cdm messageDispatcher sessionType callbacks context initDataType initData =>
    have hlater : ∀ e ∈ w.journal, e.about ≠ w.allocated + 1 := h.later _ (Nat.lt_succ_self _)
    refine h.put (a := a) (s := w.allocated + 1) (l := [_]) (fun b => life_allocate) rfl
      (Nat.le_succ _) le_rfl (fun b m y _ hm => ?_) (by simp [Event.about]) ?_
    · exact Nat.ne_of_lt (Nat.lt_succ_of_le (h.life b m _ _ hm).le)
    · rintro m c id ⟨⟩
      refine ⟨rfl, Nat.succ_pos _, le_rfl, ?_, fun b hb => ?_, fun _ => .inl ⟨rfl, fun i j hmem => ?_⟩⟩
      · exact (challengeAfter_eq_nil (by simpa [Event.about] using hlater)).symm
      · exact (List.mem_cons.mp hb).elim (by simp) fun hb => hlater _ hb rfl
      · exact (List.mem_cons.mp hmem).elim (by simp) fun hmem => hlater _ hmem rfl
  | count => exact h.idle (.same rfl rfl rfl)
  | destructing => exact h.idle (hq.record rfl)
  | unregistering => exact h.idle (hq.record rfl)
  | markDestroyed a m => exact h.idle ⟨fun _ => life_markDestroyed, rfl, [], rfl, by simp⟩
  | free a =>
    cases ho : w.heap[a]? with
    | none =>
      refine h.idle ⟨fun b => life_free.trans ?_, rfl, [_], rfl, by simp [Event.about, serial_none ho]⟩
      split_ifs with hb
      · rw [← hb, life_none ho]
      · rfl
    | some o =>
      exact h.put (a := a) (s := o.serial) (l := [_]) (fun b => life_free) rfl le_rfl
        (h.life a _ _ _ (life_some ho)).le (fun b m y hb hm => h.other ho hb hm)
        (by simp [Event.about, World.serial_of ho]) (by simp)

/-! ### The protocol -/

/-- Live sessions stay where they are until they are destructed. -/
def Kept (w w' : World R) : Prop := ∀ a n x, w.life a = some (n, x) →
  (∃ y, w'.life a = some (n, y)) ∨ .destructed a n ∈ w'.journal

theorem Act.kept {ρ : Rules R} {held : List Mutex} (h : Act ρ held w w') : Kept w w' := by
  intro a n x hx
  obtain ⟨o, ho, he⟩ := life_eq_some.mp hx
  obtain ⟨rfl, -⟩ := Prod.mk.inj he
  rcases h.object ho with ⟨s, hs, -⟩ | ⟨-, ⟨m, hm⟩ | ⟨-, hd⟩⟩
  · exact .inl ⟨_, life_some (o := { o with session := s }) hs⟩
  · exact .inl ⟨_, life_some (o := { o with destroyed := m :: o.destroyed }) hm⟩
  · exact .inr hd

/-- What every step does, and what is promised of a call besides. -/
structure Lawful (promise : κ → World R → World R → Prop) (k : κ) (held : List Mutex)
    (w w' : World R) : Prop where
  journal : w.journal <:+ w'.journal
  clients : ∀ sys, .dispatcher sys ∉ held → w'.clients sys = w.clients sys
  kept : Kept w w'
  promise : promise k w w'

/-- Mutexes are asked for in order unless a registered session was destroyed. -/
def lifetimes (promise : κ → World R → World R → Prop) : Protocol (World R) Mutex κ where
  inv := Lives
  free _ _ := True
  may := Lawful promise
  request _ held m w := Ordered held m w

section

variable {promise : κ → World R → World R → Prop} {k : κ} {ρ : Rules R} {held : List Mutex}

theorem Act.lawful (h : Act ρ held w w') (hp : promise k w w') : Lawful promise k held w w' where
  journal := h.explains.suffix
  clients _ hsys := h.clients_of_not_mem hsys
  kept := h.kept
  promise := hp

theorem Lives.start (rialto : R) (keySystem : SystemId → String) (mediaKeysFactory : SystemId → Bool) :
    Lives (World.start rialto keySystem mediaKeysFactory) where
  life a n c id h := by simp [World.life, World.start] at h
  distinct a b n x y h := by simp [World.life, World.start] at h
  later n _ e he := by simp [World.start] at he

/-- The challenge of a session is the one that the journal tells of. -/
theorem Lives.challengeData (h : Lives w) {a : Addr} (hn : w.serial a ≠ 0) :
    (w.session a).challengeData = challengeAfter (w.serial a) w.journal := by
  cases ho : w.heap[a]? with
  | none => exact absurd (serial_none ho) hn
  | some o =>
    rw [World.session_of ho, World.serial_of ho]
    exact (h.life a _ _ _ (life_some ho)).challenge

end

/-- Anything may be called at any time. -/
abbrev anything : Protocol (World R) Mutex Call := lifetimes fun _ _ _ => True

theorem anything_sound : Sound (anything (R := R)) (fun _ _ _ => True) entry :=
  openSound (fun _ _ _ _ hi ha => ⟨ha.lawful trivial, hi.act ha⟩) (fun _ _ _ _ hm => hm.journal)
    (fun _ _ _ _ sys hm => hm.clients sys) (fun _ _ _ _ h => h) fun _ _ => trivial

/-- What is known of every run. -/
theorem good_of_reaches {ι : Type} [DecidableEq ι] [Fintype ι] {rialto : R}
    {keySystem : SystemId → String} {mediaKeysFactory : SystemId → Bool}
    {cfg : Config (World R) Mutex Condition ι Call Reply}
    (hr : Reaches entry (.idle (.start rialto keySystem mediaKeysFactory) []) cfg) :
    Good anything (fun _ _ _ => True) cfg := by
  have hstart : Good anything (fun _ _ _ => True) (.idle (.start rialto keySystem mediaKeysFactory) [] :
      Config (World R) Mutex Condition ι Call Reply) := .idle (.start _ _ _) fun _ => trivial
  exact hstart.reaches anything_sound hr

omit [MediaKeys R] in
theorem life_of_serial {a : Addr} (hn : w.serial a ≠ 0) : ∃ x, w.life a = some (w.serial a, x) := by
  cases ho : w.heap[a]? with
  | none => exact absurd (serial_none ho) hn
  | some o => exact ⟨_, World.serial_of ho ▸ life_some ho⟩

omit [MediaKeys R] in
theorem serial_of_life {a : Addr} {x : Bytes × Int32} (h : w.life a = some (n, x)) : w.serial a = n := by
  obtain ⟨o, ho, he⟩ := life_eq_some.mp h
  rw [World.serial_of ho, (Prod.mk.inj he).1]

/-- A session that is there before and after is there in between. -/
theorem serial_between {ι : Type} [DecidableEq ι] [Fintype ι]
    {cfg₁ cfg₂ cfg₃ : Config (World R) Mutex Condition ι Call Reply}
    (hg : Good anything (fun _ _ _ => True) cfg₁) (h₁₂ : Reaches entry cfg₁ cfg₂)
    (h₂₃ : Reaches entry cfg₂ cfg₃) {a : Addr} (hn : n ≠ 0) (h₁ : cfg₁.shared.serial a = n)
    (h₃ : cfg₃.shared.serial a = n) : cfg₂.shared.serial a = n := by
  have hg₂ := hg.reaches anything_sound h₁₂
  obtain ⟨x, hx⟩ := life_of_serial (h₁.trans_ne hn)
  obtain ⟨z, hz⟩ := life_of_serial (h₃.trans_ne hn)
  rw [h₁] at hx
  rw [h₃] at hz
  have hgone : ∀ w : World R, .destructed a n ∈ w.journal → w.journal <:+ cfg₃.shared.journal → False :=
    fun w hd hj => (((hg₂.reaches anything_sound h₂₃).inv.life a n z.1 z.2 hz).live a) (hj.subset hd)
  have hkept : (∃ y, cfg₂.shared.life a = some (n, y)) ∨ .destructed a n ∈ cfg₂.shared.journal := by
    refine hg.keeps anything_sound (F := fun w => (∃ y, w.life a = some (n, y)) ∨ .destructed a n ∈ w.journal)
      (fun _ _ _ _ _ hm h => ?_) h₁₂ (.inl ⟨x, hx⟩)
    rcases h with ⟨y, hy⟩ | hd
    · exact hm.kept a n y hy
    · exact .inr (hm.journal.subset hd)
  have hgrow : cfg₂.shared.journal <:+ cfg₃.shared.journal :=
    hg₂.keeps anything_sound (F := fun w => cfg₂.shared.journal <:+ w.journal)
      (fun _ _ _ _ _ hm h => h.trans hm.journal) h₂₃ List.suffix_rfl
  rcases hkept with ⟨y, hy⟩ | hd
  · exact serial_of_life hy
  · exact absurd hgrow (hgone _ hd)

/-- A process in which nothing has happened yet, with a Rialto that grants everything. -/
def newProcess : Config (World Compliant) Mutex Condition (Fin 2) Call Reply :=
  .idle (.start .mk (fun _ => "") fun _ => true) []

/-- A thread makes a call and takes steps. -/
def made (t : Fin 2) (c : κ) (steps : ℕ) : List (Action (Fin 2) κ) :=
  .call t c :: List.replicate steps (.run t)

/-- The application starts to run and constructs a session at address 1. -/
def opening : List (Action (Fin 2) Call) :=
  made 0 (.notifyApplicationState 0 .running) 8 ++
  made 0 (.constructSession 1 (some 0) .temporary "cenc" [] (some ⟨true, true, true⟩) 0) 30

end RialtoOcdm
