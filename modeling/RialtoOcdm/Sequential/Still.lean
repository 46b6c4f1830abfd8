import RialtoOcdm.Sequential.Quiet

/-! Code that leaves the library as it is: nothing but Rialto and the journal changes.
Reading members and passing calls on is of this kind, and so are the operations of a
session that fail, but for the one that hands the backend a reference to its id. -/

namespace RialtoOcdm

open Concurrency Prog OpenCDMSessionPrivate Rialto

variable {R : Type}

/-- Only Rialto and the journal may be new in `w'`, and nothing of it is in the story. -/
structure Still (w w' : World R) : Prop where
  quiet : Quiet ∅ w w'
  eq : w' = { w with rialto := w'.rialto, journal := w'.journal }

namespace Still

variable {w w' w'' : World R}

theorem refl (w : World R) : Still w w := ⟨.refl ∅ w, rfl⟩

theorem trans (h : Still w w') (h' : Still w' w'') : Still w w'' := by
  refine ⟨h.quiet.trans h'.quiet, ?_⟩
  rw [h'.eq, h.eq]

theorem heap (h : Still w w') : w'.heap = w.heap := by rw [h.eq]

theorem clients (h : Still w w') : w'.clients = w.clients := by rw [h.eq]

theorem activeSessions (h : Still w w') : w'.activeSessions = w.activeSessions := by rw [h.eq]

theorem session (h : Still w w') (a : Addr) : w'.session a = w.session a := by
  rw [World.session, h.heap, World.session]

theorem use (w : World R) (a : Addr) (m : Member) : Still w (w.use a m) := ⟨.use a m, rfl⟩

theorem ask [MediaKeys R] (w : World R) (sys : SystemId) (call : MediaKeysCall) :
    Still w (w.ask sys call fun _ _ w => w).2 :=
  ⟨ask_quiet (fun _ _ w => .refl ∅ w) w, World.ask_snd
    (p := fun w' => w' = { w with rialto := w'.rialto, journal := w'.journal }) rfl fun _ => rfl⟩

end Still

/-! ### Code that makes no other difference -/

/-- The code makes no difference but one of `T`, wherever it starts with `held`. -/
def Does (held : List Mutex) (T : World R → World R → Prop) {α : Type} (p : Code R α) : Prop :=
  ∀ (I : World R → Prop) w, p.Ensures I held (fun _ w' => T w w') w

/-- The call is not one that creates or closes a key session. -/
def Rialto.MediaKeysCall.KeepsSessions : MediaKeysCall → Prop
  | .createKeySession .. | .closeKeySession _ => False
  | _ => True

/-- Members may be read, and calls that keep the key sessions passed on. -/
structure Tolerant [MediaKeys R] (T : World R → World R → Prop) : Prop where
  refl : ∀ w, T w w
  trans : ∀ w w' w'', T w w' → T w' w'' → T w w''
  use : ∀ w a m, T w (w.use a m)
  ask : ∀ w sys call, call.KeepsSessions → T w (w.ask sys call fun _ _ w => w).2

namespace Tolerant

variable [MediaKeys R] {T : World R → World R → Prop} {α β : Type} {held : List Mutex}

theorem ret (hT : Tolerant T) (a : α) : Does held T (.ret a : Code R α) := fun _ w =>
  ensures_ret.mpr (hT.refl w)

theorem bind (hT : Tolerant T) {p : Code R α} {g : α → Code R β} (hp : Does held T p)
    (hg : ∀ a, Does held T (g a)) : Does held T (p >>= g) := fun I w => .bind ((hp I w).mono fun a w' h =>
  (hg a I w').mono fun _ _ h' => hT.trans _ _ _ h h')

theorem readMember (hT : Tolerant T) (a : Addr) (m : Member) (f : Session → β) :
    Does held T (readMember a m f : Code R β) := fun _ w => ensures_act.mpr (ensures_ret.mpr (hT.use w a m))

theorem modify (hT : Tolerant T) {f : World R → World R} (hf : ∀ w, T w (f w)) :
    Does held T (.modify f : Code R Unit) := fun _ w => ensures_act.mpr (hT.ret () _ _ |>.mono fun _ _ h =>
  hT.trans _ _ _ (hf w) h)

theorem forM (hT : Tolerant T) {l : List β} {f : β → Code R PUnit} (hf : ∀ b, Does held T (f b)) :
    Does held T (l.forM f) := by
  induction l with
  | nil => exact hT.ret _
  | cons b l ih => exact hT.bind (hf b) fun _ => ih

theorem status (hT : Tolerant T) (a : Addr) (key : Bytes) :
    Does held T (status a key : Code R KeyStatus) := by
  apply hT.bind (hT.readMember a _ _)
  intro keyStatuses
  cases keyStatuses[key]? <;> exact hT.ret _

theorem pass (hT : Tolerant T) {sys : SystemId} (hheld : .cdmBackend sys ∉ held) {call : MediaKeysCall}
    (hc : call.KeepsSessions) : Does held T (CdmBackend.pass sys call : Code R _) := fun _ w =>
  .withLock hheld (ensures_update.mpr (hT.ask w sys call hc))

theorem pass_ok (hT : Tolerant T) {sys : SystemId} (hheld : .cdmBackend sys ∉ held)
    {call : MediaKeysCall} (hc : call.KeepsSessions) :
    Does held T (do return (← CdmBackend.pass sys call).ok : Code R Bool) :=
  hT.bind (hT.pass hheld hc) fun _ => hT.ret _

theorem getLastDrmError (hT : Tolerant T) (hheld : ∀ sys, .cdmBackend sys ∉ held) (a : Addr) :
    Does held T (getLastDrmError a : Code R UInt32) := by
  apply hT.bind (hT.readMember a _ _)
  intro cdm
  cases cdm with
  | none => exact hT.ret _
  | some cdm =>
    exact hT.bind (hT.readMember a _ _) fun id => hT.bind (hT.pass (hheld cdm) trivial) fun _ => hT.ret _

theorem orLastDrmError (hT : Tolerant T) (hheld : ∀ sys, .cdmBackend sys ∉ held) (a : Addr)
    {p : Code R Bool} (hp : Does held T p) : Does held T (orLastDrmError a p) := by
  apply hT.bind hp
  intro ok
  cases ok with
  | true => exact hT.ret _
  | false => exact hT.bind (hT.getLastDrmError hheld a) fun _ => hT.ret _

theorem onKeySessionWhere (hT : Tolerant T) (a : Addr) {guard : Code R Bool}
    {p : SystemId → Int32 → Code R Bool} (hguard : Does held T guard) (hp : ∀ cdm id, Does held T (p cdm id)) :
    Does held T (onKeySessionWhere a guard p) := by
  apply hT.bind (hT.readMember a _ _)
  intro cdm
  cases cdm with
  | none => exact hT.ret _
  | some cdm =>
    apply hT.bind hguard
    intro ok
    cases ok with
    | false => exact hT.ret _
    | true =>
      apply hT.bind (hT.readMember a _ _)
      intro id
      split_ifs
      · exact hT.bind (hT.readMember a _ _) fun id => hp cdm id
      · exact hT.ret _

end Tolerant

/-! ### Operations that fail -/

/-- The code leaves the library as it is unless it works. -/
def StillOnFailure (p : Code R Bool) : Prop :=
  ∀ (I : World R → Prop) w, w.Sane → p.Ensures I [] (fun ok w' => ok = false → Still w w') w

theorem Does.onFailure {p : Code R Bool} (hp : Does [] Still p) : StillOnFailure p := fun I w _ =>
  (hp I w).mono fun _ _ h _ => h

/-- What comes before does not matter if it changes nothing. -/
theorem Does.then {α : Type} {p : Code R α} {g : α → Code R Bool} (hp : Does [] Still p)
    (hg : ∀ a, StillOnFailure (g a)) : StillOnFailure (p >>= g) := fun I w hs =>
  .bind ((hp I w).mono fun a w' h => (hg a I w' (h.quiet.sane hs)).mono fun _ _ h' hok => h.trans (h' hok))

section Operations

variable [MediaKeys R]

theorem still_tolerant : Tolerant (Still (R := R)) :=
  ⟨.refl, fun _ _ _ => .trans, .use, fun w sys call _ => .ask w sys call⟩

theorem onKeySessionWhere_stillOnFailure (a : Addr) {guard : Code R Bool}
    {p : SystemId → Int32 → Code R Bool} (hguard : Does [] Still guard)
    (hp : ∀ cdm id, StillOnFailure (p cdm id)) : StillOnFailure (onKeySessionWhere a guard p) := by
  have hfalse : StillOnFailure (.ret false : Code R Bool) := (still_tolerant.ret false).onFailure
  apply (still_tolerant.readMember a _ _).then
  intro cdm
  cases cdm with
  | none => exact hfalse
  | some cdm =>
    apply hguard.then
    intro ok
    cases ok with
    | false => exact hfalse
    | true =>
      apply (still_tolerant.readMember a _ _).then
      intro id
      split_ifs
      · exact (still_tolerant.readMember a _ _).then fun id => hp cdm id
      · exact hfalse

/-- An operation that does no more than pass a call on. -/
theorem operation_still (a : Addr) {p : SystemId → Int32 → Code R Bool}
    (hp : ∀ cdm id, Does [] Still (p cdm id)) : Does [] Still (onKeySession a p) :=
  still_tolerant.onKeySessionWhere a (still_tolerant.ret true) hp

end Operations

end RialtoOcdm
