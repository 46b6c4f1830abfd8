import RialtoOcdm.Ownership.Ledger
import RialtoOcdm.Sequential.Registry
import Mathlib.Algebra.Group.Nat.Defs

/-! The registry as shared ownership. Clients create, look up and remove sessions in
any order, and keep a ledger of the references they hold; a client removes a session
only while it holds one. Every run of the registry is a run of the abstract ledger,
so what is in the registry, what is alive and what is held are the same. -/

namespace RialtoOcdm

open Concurrency Prog OpenCDMSessionPrivate Ownership

variable {R κ : Type} [DecidableEq κ]

/-- A session, and not another one that is allocated at its address later. -/
structure Ref where
  address : Addr
  serial : ℕ
  deriving DecidableEq

/-- The session is in memory. -/
def World.Alive (w : World R) (r : Ref) : Prop :=
  ∃ o, w.heap[r.address]? = some o ∧ o.serial = r.serial

/-- The sessions that were ever made. -/
def constructed (journal : List Event) : List Ref :=
  journal.filterMap fun
    | .constructed a serial _ _ _ => some ⟨a, serial⟩
    | _ => none

/-- The sessions whose destructor has run. -/
def destructed (journal : List Event) : List Ref :=
  journal.filterMap fun
    | .destructed a serial => some ⟨a, serial⟩
    | _ => none

namespace Registry

/-- The process and the ledger of its clients. -/
structure State (R κ : Type) where
  world : World R
  ledger : Ledger κ Ref

/-- What the rest of the process may do meanwhile: anything, but it leaves the
registry alone and makes and deletes no sessions. -/
structure Unrelated (w w' : World R) : Prop where
  activeSessions : w'.activeSessions = w.activeSessions
  allocated : w'.allocated = w.allocated
  objects : ∀ a : Addr, w'.heap[a]?.map (fun o => (o.serial, o.destroyed)) =
    w.heap[a]?.map fun o => (o.serial, o.destroyed)
  constructed : constructed w'.journal = constructed w.journal
  destructed : destructed w'.journal = destructed w.journal

/-- A client calls a function of the registry, or something else happens. -/
inductive Step : State R κ → State R κ → Prop
  | create {w l} (c : κ) (hint : Addr) (cdm messageDispatcher : Option SystemId)
      (sessionType : LicenseType) (callbacks : Option OpenCDMSessionCallbacks) (context : Addr)
      (initDataType : String) (initData : Bytes) {a w'}
      (h : (ActiveSessions.create hint cdm messageDispatcher sessionType callbacks context
        initDataType initData).exec [] w = .done a w') :
      Step ⟨w, l⟩ ⟨w', (c, ⟨a, w'.serial a⟩) ::ₘ l⟩
  | get {w l} (c : κ) (keyId : Bytes) {a w'}
      (h : (ActiveSessions.get keyId).exec [] w = .done (some a) w') :
      Step ⟨w, l⟩ ⟨w', (c, ⟨a, w'.serial a⟩) ::ₘ l⟩
  | getNull {w l} (keyId : Bytes) {w'} (h : (ActiveSessions.get keyId).exec [] w = .done none w') :
      Step ⟨w, l⟩ ⟨w', l⟩
  | remove {w l} (c : κ) (r : Ref) (hr : (c, r) ∈ l) {w'}
      (h : (ActiveSessions.remove (some r.address)).exec [] w = .done () w') :
      Step ⟨w, l⟩ ⟨w', l.erase (c, r)⟩
  | other {w l} {w'} (h : Unrelated w w') : Step ⟨w, l⟩ ⟨w', l⟩

/-- There are not too many references for an `int`. -/
def Bounded (l : Ledger κ Ref) : Prop := ∀ r, l.refs r < 2 ^ 31

/-- The states of all runs from the empty registry. -/
inductive Reachable : State R κ → Prop
  | start (rialto : R) (keySystem : SystemId → String) (mediaKeysFactory : SystemId → Bool) :
      Reachable ⟨.start rialto keySystem mediaKeysFactory, 0⟩
  | step {s s'} (h : Reachable s) (hs : Step s s') (hb : Bounded s'.ledger) : Reachable s'

/-! ### Counting in an `int` -/

theorem toInt_add_one {n : Int32} {k : ℕ} (h : n.toInt = k) (hk : k + 1 < 2 ^ 31) :
    (n + 1).toInt = (k + 1 : ℕ) := by
  rw [Int32.toInt_add, h, Int32.toInt_one, Int.bmod_def]
  omega

theorem toInt_sub_one {n : Int32} {k : ℕ} (h : n.toInt = (k + 1 : ℕ)) : (n - 1).toInt = k := by
  have hlt := n.toInt_lt
  rw [Int32.toInt_sub, h, Int32.toInt_one, Int.bmod_def]
  omega

theorem eq_zero_iff {n : Int32} {k : ℕ} (h : n.toInt = k) : n = 0 ↔ k = 0 := by
  rw [← Int32.toInt_inj, h, Int32.toInt_zero, Int.natCast_eq_zero]

/-! ### The registry refines the ledger -/

/-- A state of the process and the state of the ledger it stands for. -/
structure Refines (s : State R κ) (A : Ownership.State κ Ref) : Prop where
  ledger : A.ledger = s.ledger
  live : ∀ r, r ∈ A.live ↔ s.world.Alive r
  ended : A.ended = destructed s.world.journal
  made : ∀ r, r ∈ constructed s.world.journal ↔ r ∈ A.live ∨ r ∈ A.ended
  intact : s.world.Intact
  registered : ∀ a, a ∈ s.world.activeSessions ↔ a ∈ s.world.heap
  count : ∀ (a : Addr) n o, s.world.activeSessions[a]? = some n → s.world.heap[a]? = some o →
    n.toInt = s.ledger.refs ⟨a, o.serial⟩
  serial : ∀ (a : Addr) o, s.world.heap[a]? = some o → o.serial ≤ s.world.allocated
  past : ∀ r ∈ A.ended, r.serial ≤ s.world.allocated

section Refinement

variable {w w' : World R} {l : Ledger κ Ref} {A : Ownership.State κ Ref}

/-- A deletion runs the destructor once. -/
theorem destructed_deleteSession (a : Addr) :
    destructed (w.deleteSession a).journal = ⟨a, w.serial a⟩ :: destructed w.journal := by
  rw [deleteSession_eq]
  cases (w.session a).messageDispatcherClient <;> rfl

theorem constructed_deleteSession (a : Addr) :
    constructed (w.deleteSession a).journal = constructed w.journal := by
  rw [deleteSession_eq]
  cases (w.session a).messageDispatcherClient <;> rfl

omit [DecidableEq κ] in
/-- A session is held if and only if it is in memory. -/
theorem Refines.alive_iff (h : Refines ⟨w, l⟩ A) (hA : Sound A) (r : Ref) :
    w.Alive r ↔ 0 < l.refs r := by
  rw [← h.live, hA.held, h.ledger]

/-- The state after the creation of a session at `a`. -/
theorem Refines.create (h : Refines ⟨w, l⟩ A) (hA : Sound A) {a : Addr} (ha : a ∉ w.heap) (c : κ)
    (s : Session) :
    ∃ A', Ownership.Step A A' ∧
      Refines ⟨(w.allocate a s).updateActiveSessions (·.insertIfNew a 1),
        (c, ⟨a, w.allocated + 1⟩) ::ₘ l⟩ A' := by
  have hreg : a ∉ w.activeSessions := fun hm => ha ((h.registered a).mp hm)
  have hnone : w.heap[a]? = none := by simpa using ha
  -- the address may have been used before, but not the number
  have hnew : ∀ b, ¬ w.Alive ⟨b, w.allocated + 1⟩ := by
    rintro b ⟨o, ho, hs⟩
    have := h.serial b o ho
    simp only at hs this
    omega
  refine ⟨_, .create c ⟨a, w.allocated + 1⟩ (fun hm => hnew a ((h.live _).mp hm)) (fun hm => ?_), ?_⟩
  · exact absurd (h.past _ hm) (Nat.not_succ_le_self _)
  refine ⟨by rw [h.ledger], fun r => ?_, ?_, fun r => ?_, fun b o ho => ?_, fun b => ?_,
    fun b n o hn ho => ?_, fun b o ho => ?_, fun r hr => ?_⟩
  · rw [Set.mem_insert_iff, h.live]
    simp only [World.Alive, World.updateActiveSessions_heap, World.heap_allocate]
    by_cases hb : a = r.address
    · subst hb
      simp only [hnone, if_true, reduceCtorEq, false_and, exists_false, or_false]
      refine ⟨fun he => ⟨_, rfl, by rw [he]⟩, ?_⟩
      rintro ⟨o, ho, hs⟩
      cases ho
      cases r
      simp_all
    · have hne : r ≠ ⟨a, w.allocated + 1⟩ := fun he => hb (by rw [he])
      simp [hb, hne]
  · simpa [destructed] using h.ended
  · have := h.made r
    simp only [constructed, World.updateActiveSessions_journal, World.allocate_journal,
      List.filterMap_cons, List.mem_cons, Set.mem_insert_iff, or_assoc] at this ⊢
    rw [this]
  · simp only [World.updateActiveSessions_heap, World.heap_allocate] at ho
    split_ifs at ho with hb
    · cases ho; rfl
    · exact h.intact b o ho
  · simp [World.allocate, Std.ExtTreeMap.mem_insertIfNew, h.registered]
  · simp only [World.updateActiveSessions_heap, World.heap_allocate] at ho
    simp only [World.updateActiveSessions_activeSessions, World.allocate_activeSessions,
      Std.ExtTreeMap.getElem?_insertIfNew, Std.compare_eq_iff_eq] at hn
    rw [Ledger.refs_cons]
    by_cases hb : a = b
    · subst hb
      have hzero : l.refs ⟨a, w.allocated + 1⟩ = 0 := by
        have := (h.alive_iff hA ⟨a, w.allocated + 1⟩).not.mp (hnew a)
        omega
      simp only [if_true, hreg, not_false_eq_true, and_self, Option.some.injEq] at hn ho
      subst hn ho
      simp [hzero]
    · simp only [hb, false_and, if_false] at hn ho
      simpa [hb] using h.count b n o hn ho
  · simp only [World.updateActiveSessions_heap, World.heap_allocate] at ho
    split_ifs at ho with hb
    · cases ho; simp
    · have := h.serial b o ho
      simp only [World.updateActiveSessions_allocated, World.allocate_allocated] at this ⊢
      omega
  · have := h.past r hr
    simp only [World.updateActiveSessions_allocated, World.allocate_allocated] at this ⊢
    omega

/-- The state after one more reference to a session of the registry. -/
theorem Refines.share (h : Refines ⟨w, l⟩ A) {a : Addr} {n : Int32}
    (hn : w.activeSessions[a]? = some n) (c : κ)
    (hb : Bounded ((c, ⟨a, w.serial a⟩) ::ₘ l)) :
    ∃ A', Ownership.Step A A' ∧ Refines ⟨w.updateActiveSessions (·.insert a (n + 1)),
      (c, ⟨a, w.serial a⟩) ::ₘ l⟩ A' := by
  obtain ⟨o, ho⟩ := World.object_of_mem ((h.registered a).mp (World.mem_of_count hn))
  rw [World.serial_of ho] at hb ⊢
  refine ⟨_, .share c ⟨a, o.serial⟩ ((h.live _).mpr ⟨o, ho, rfl⟩), ?_⟩
  refine ⟨by rw [h.ledger], h.live, h.ended, h.made, h.intact, fun b => ?_,
    fun b m o' hm ho' => ?_, h.serial, h.past⟩
  · by_cases hba : a = b
    · subst hba
      simp [Std.ExtTreeMap.mem_insert, World.mem_of_object ho]
    · simp [Std.ExtTreeMap.mem_insert, hba, h.registered]
  · simp only [World.updateActiveSessions_activeSessions, Std.ExtTreeMap.getElem?_insert,
      Std.compare_eq_iff_eq] at hm
    rw [Ledger.refs_cons]
    split_ifs at hm with hba
    · subst hba
      cases hm
      rw [World.updateActiveSessions_heap, ho, Option.some.injEq] at ho'
      subst ho'
      have hlt := hb ⟨a, o.serial⟩
      rw [Ledger.refs_cons, if_pos rfl] at hlt
      rw [if_pos rfl]
      exact toInt_add_one (h.count a n o hn ho) hlt
    · rw [if_neg (fun he => hba (congrArg Ref.address he))]
      exact h.count b m o' hm ho'

/-- The state after a client gave back one of several references. -/
theorem Refines.give (h : Refines ⟨w, l⟩ A) {c : κ} {r : Ref} (hr : (c, r) ∈ l)
    (hmore : 1 < l.refs r) {n : Int32} (hn : w.activeSessions[r.address]? = some n) {o : Object}
    (ho : w.heap[r.address]? = some o) (hs : o.serial = r.serial) :
    ∃ A', Ownership.Step A A' ∧ Refines ⟨w.updateActiveSessions (·.insert r.address (n - 1)),
      l.erase (c, r)⟩ A' := by
  refine ⟨_, .give c r (by rwa [h.ledger]) (by rwa [h.ledger]), ?_⟩
  refine ⟨by rw [h.ledger], h.live, h.ended, h.made, h.intact, fun b => ?_,
    fun b m o' hm ho' => ?_, h.serial, h.past⟩
  · by_cases hb : r.address = b
    · subst hb
      simp [Std.ExtTreeMap.mem_insert, World.mem_of_object ho]
    · simp [Std.ExtTreeMap.mem_insert, hb, h.registered]
  · simp only [World.updateActiveSessions_activeSessions, Std.ExtTreeMap.getElem?_insert,
      Std.compare_eq_iff_eq] at hm
    have he := Ledger.refs_erase (r := ⟨b, o'.serial⟩) hr
    split_ifs at hm with hb
    · subst hb
      cases hm
      rw [World.updateActiveSessions_heap, ho, Option.some.injEq] at ho'
      subst ho'
      rw [if_pos (by cases r; simp_all)] at he
      exact toInt_sub_one (by rw [he]; exact h.count _ n o hn ho)
    · rw [if_neg (fun he => hb (congrArg Ref.address he))] at he
      have hc := h.count b m o' hm ho'
      rw [← he, Nat.add_zero] at hc
      exact hc

/-- The state after a client gave back the last reference. -/
theorem Refines.last (h : Refines ⟨w, l⟩ A) {c : κ} {r : Ref} (hr : (c, r) ∈ l)
    (hlast : l.refs r = 1) (n : Int32) {o : Object}
    (ho : w.heap[r.address]? = some o) (hs : o.serial = r.serial) :
    ∃ A', Ownership.Step A A' ∧ Refines ⟨((w.updateActiveSessions (·.insert r.address n)).deleteSession
      r.address).updateActiveSessions (·.erase r.address), l.erase (c, r)⟩ A' := by
  refine ⟨_, .last c r (by rwa [h.ledger]) (by rwa [h.ledger]), ?_⟩
  have hj := destructed_deleteSession (w := w.updateActiveSessions (·.insert r.address n)) r.address
  have hc := constructed_deleteSession (w := w.updateActiveSessions (·.insert r.address n)) r.address
  simp only [deleteSession_eq, World.updateActiveSessions] at hj hc ⊢
  have hser : w.serial r.address = r.serial := by rw [World.serial_of ho, hs]
  have herase : ∀ (b : Addr) o', (w.heap.erase r.address)[b]? = some o' →
      r.address ≠ b ∧ w.heap[b]? = some o' := by
    intro b o' hb
    simpa [Std.ExtTreeMap.getElem?_erase] using hb
  refine ⟨by rw [h.ledger], fun r' => ?_, ?_, fun r' => ?_, fun b o' ho' => ?_, fun b => ?_,
    fun b m o' hm ho' => ?_, fun b o' ho' => ?_, fun r' hr' => ?_⟩
  · rw [Set.mem_sdiff, h.live, Set.mem_singleton_iff]
    constructor
    · rintro ⟨⟨o', ho', hs'⟩, hne⟩
      refine ⟨o', ?_, hs'⟩
      by_cases hb : r.address = r'.address
      · rw [← hb, ho, Option.some.injEq] at ho'
        subst ho'
        cases r; cases r'
        simp_all
      · simpa [Std.ExtTreeMap.getElem?_erase, hb] using ho'
    · rintro ⟨o', ho', hs'⟩
      obtain ⟨hb, ho'⟩ := herase _ _ ho'
      exact ⟨⟨o', ho', hs'⟩, fun he => hb (by rw [he])⟩
  · rw [h.ended, hj]
    refine congrArg (fun r => ((r :: destructed w.journal : List Ref) : Multiset Ref)) ?_
    cases r
    simp only [Ref.mk.injEq, true_and]
    exact hser.symm
  · have hlive := (h.live r).mpr ⟨o, ho, hs⟩
    rw [hc, h.made, Set.mem_sdiff, Set.mem_singleton_iff, Multiset.mem_cons]
    by_cases hr' : r' = r
    · simp [hr', hlive]
    · simp [hr']
  · exact h.intact b o' (herase b o' ho').2
  · simp [Std.ExtTreeMap.mem_erase, Std.ExtTreeMap.mem_insert, h.registered]
    tauto
  · obtain ⟨hb, ho'⟩ := herase b o' ho'
    have he := Ledger.refs_erase (r := ⟨b, o'.serial⟩) hr
    rw [if_neg (fun he => hb (congrArg Ref.address he)), Nat.add_zero] at he
    rw [he]
    refine h.count b m o' ?_ ho'
    simpa [Std.ExtTreeMap.getElem?_erase, Std.ExtTreeMap.getElem?_insert, hb] using hm
  · exact h.serial b o' (herase b o' ho').2
  · rcases Multiset.mem_cons.mp hr' with rfl | hr'
    · rw [← hs]
      exact h.serial _ o ho
    · exact h.past r' hr'

omit [DecidableEq κ] in
/-- What the rest of the process does concerns the registry's sessions only inside. -/
theorem Refines.other (h : Refines ⟨w, l⟩ A) (hu : Unrelated w w') : Refines ⟨w', l⟩ A := by
  have hback : ∀ (a : Addr) o', w'.heap[a]? = some o' →
      ∃ o, w.heap[a]? = some o ∧ o.serial = o'.serial ∧ o.destroyed = o'.destroyed := by
    intro a o' ho'
    have := hu.objects a
    rw [ho', Option.map_some, eq_comm, Option.map_eq_some_iff] at this
    obtain ⟨o, ho, he⟩ := this
    exact ⟨o, ho, (Prod.mk.inj he).1, (Prod.mk.inj he).2⟩
  have hiff : ∀ a : Addr, w'.heap[a]?.isSome = w.heap[a]?.isSome := by
    intro a
    simpa using congrArg Option.isSome (hu.objects a)
  refine ⟨h.ledger, fun r => ?_, by rw [h.ended, hu.destructed], fun r => by rw [hu.constructed, h.made],
    fun a o' ho' => ?_, fun a => ?_, fun a n o' hn ho' => ?_, fun a o' ho' => ?_,
    fun r hr => hu.allocated ▸ h.past r hr⟩
  · rw [h.live]
    constructor
    · rintro ⟨o, ho, hs⟩
      obtain ⟨o', ho'⟩ := Option.isSome_iff_exists.mp ((hiff r.address).trans (by simp [ho]))
      obtain ⟨o₁, ho₁, hs₁, -⟩ := hback _ _ ho'
      rw [ho, Option.some.injEq] at ho₁
      exact ⟨o', ho', by rw [← hs₁, ← ho₁, hs]⟩
    · rintro ⟨o', ho', hs'⟩
      obtain ⟨o, ho, hs, -⟩ := hback _ _ ho'
      exact ⟨o, ho, hs.trans hs'⟩
  · obtain ⟨o, ho, -, hd⟩ := hback a o' ho'
    rw [← hd]
    exact h.intact a o ho
  · rw [hu.activeSessions, h.registered, Std.ExtTreeMap.mem_iff_isSome_getElem?,
      Std.ExtTreeMap.mem_iff_isSome_getElem?, hiff]
  · obtain ⟨o, ho, hs, -⟩ := hback a o' ho'
    rw [← hs]
    exact h.count a n o (hu.activeSessions ▸ hn) ho
  · obtain ⟨o, ho, hs, -⟩ := hback a o' ho'
    rw [← hs, hu.allocated]
    exact h.serial a o ho

/-- A found session is in the registry. -/
theorem activeSessions_of_find {key : Bytes} {a : Addr} {n : Int32}
    (h : w.activeSessions.toList.find? (w.answers key) = some (a, n)) :
    w.activeSessions[a]? = some n :=
  Std.ExtTreeMap.mem_toList_iff_getElem?_eq_some.mp (List.mem_of_find?_eq_some h)

/-- The step lemma: what a client or the rest of the process does is a step of the
ledger, or none. -/
theorem Refines.step {s s' : State R κ} (h : Refines s A) (hA : Sound A) (hs : Step s s')
    (hb : Bounded s'.ledger) : ∃ A', Relation.ReflTransGen Ownership.Step A A' ∧ Refines s' A' := by
  cases hs with
  | @create w l c hint cdm messageDispatcher sessionType callbacks context initDataType initData a w'
      he =>
    have hw := (create_ensures (I := fun _ => True) (by simp) hint cdm messageDispatcher sessionType
      callbacks context initDataType initData).done he
    obtain ⟨rfl, rfl⟩ := Prod.mk.inj hw
    have hser := World.serial_of (w := ((w.allocate (w.address hint) (construct cdm messageDispatcher
      sessionType callbacks context initDataType initData)).updateActiveSessions
      (·.insertIfNew (w.address hint) 1))) (a := w.address hint) (World.heap_allocate.trans (if_pos rfl))
    obtain ⟨A', hstep, hr⟩ := h.create hA (w.address_not_mem hint) c (construct cdm messageDispatcher
      sessionType callbacks context initDataType initData)
    rw [hser]
    exact ⟨A', .single hstep, hr⟩
  | @get w l c keyId a w' he =>
    have hw := (get_ensures (I := fun _ => True) h.intact (fun a => (h.registered a).mp) (by simp)
      keyId).done he
    unfold World.get at hw
    split at hw
    · next session count hfind =>
      obtain ⟨ha, rfl⟩ := Prod.mk.inj hw
      cases ha
      obtain ⟨A', hstep, hr⟩ := h.share (activeSessions_of_find hfind) c hb
      exact ⟨A', .single hstep, hr⟩
    · cases hw
  | @getNull w l keyId w' he =>
    have hw := (get_ensures (I := fun _ => True) h.intact (fun a => (h.registered a).mp) (by simp)
      keyId).done he
    unfold World.get at hw
    split at hw
    · cases hw
    · cases hw
      exact ⟨A, .refl, h⟩
  | @remove w l c r hr w' he =>
    have hw := (remove_ensures (I := fun _ => True) (by simp) (fun _ => World.freeHandle_nil _ r.address)).done he
    have hpos := Ledger.refs_pos_of_mem hr
    obtain ⟨o, ho, hso⟩ := (h.alive_iff hA r).mpr hpos
    obtain ⟨n, hn⟩ := World.count_of_mem ((h.registered r.address).mpr (World.mem_of_object ho))
    have hcount := h.count _ n o hn ho
    rw [World.remove, hn] at hw
    have href : (⟨r.address, o.serial⟩ : Ref) = r := by rw [hso]
    simp only [href] at hcount
    obtain ⟨k, hk⟩ := Nat.exists_eq_add_of_lt hpos
    rw [Nat.zero_add] at hk
    have hsub := toInt_sub_one (hk ▸ hcount)
    simp only [eq_zero_iff hsub] at hw
    split_ifs at hw with hz
    · rw [hw]
      obtain ⟨A', hstep, hr⟩ := h.last hr (by omega) (n - 1) ho hso
      exact ⟨A', .single hstep, hr⟩
    · rw [hw]
      obtain ⟨A', hstep, hr⟩ := h.give hr (by omega) hn ho hso
      exact ⟨A', .single hstep, hr⟩
  | other hu => exact ⟨A, .refl, h.other hu⟩

omit [DecidableEq κ] in
theorem Refines.start (rialto : R) (keySystem : SystemId → String)
    (mediaKeysFactory : SystemId → Bool) :
    Refines (κ := κ) ⟨.start rialto keySystem mediaKeysFactory, 0⟩ ⟨∅, 0, 0⟩ where
  ledger := rfl
  live r := by simp [World.Alive, World.start]
  ended := rfl
  made r := by simp [constructed, World.start]
  intact a o ho := by simp [World.start] at ho
  registered a := by simp [World.start]
  count a n o hn := by simp [World.start] at hn
  serial a o ho := by simp [World.start] at ho
  past r hr := by simp at hr

/-- The run lemma: every run of the registry is one of the ledger. -/
theorem Reachable.refines {s : State R κ} (h : Reachable s) :
    ∃ A, Relation.ReflTransGen Ownership.Step ⟨∅, 0, 0⟩ A ∧ Refines s A := by
  induction h with
  | start rialto keySystem mediaKeysFactory => exact ⟨_, .refl, .start _ _ _⟩
  | step _ hs hb ih =>
    obtain ⟨A, hA, hr⟩ := ih
    obtain ⟨A', hA', hr'⟩ := hr.step (.reaches hA) hs hb
    exact ⟨A', hA.trans hA', hr'⟩

/-- In every reachable state the registry has the sessions that are alive, each with
the number of references its clients hold, and look-ups find no others. The
destructor of a session has run once if nobody holds it any more, else not at all. -/
theorem registry_counts_references {s : State R κ} (h : Reachable s) :
    (∀ a, a ∈ s.world.activeSessions ↔ ∃ o, s.world.heap[a]? = some o) ∧
    (∀ (a : Addr) n o, s.world.activeSessions[a]? = some n → s.world.heap[a]? = some o →
      n.toInt = s.ledger.refs ⟨a, o.serial⟩ ∧ 1 ≤ n.toInt) ∧
    (∀ r, s.world.Alive r ↔ ∃ c, (c, r) ∈ s.ledger) ∧
    (∀ r ∈ constructed s.world.journal,
      (destructed s.world.journal).count r = if 0 < s.ledger.refs r then 0 else 1) ∧
    (∀ keyId a w', (ActiveSessions.get keyId).exec [] s.world = .done (some a) w' →
      ∃ o, s.world.heap[a]? = some o) := by
  obtain ⟨A, hreach, hr⟩ := h.refines
  have hA := Sound.reaches hreach
  refine ⟨fun a => ?_, fun a n o hn ho => ?_, fun r => ?_, fun r hmade => ?_, fun key a w' he => ?_⟩
  · rw [hr.registered]
    exact ⟨World.object_of_mem, fun ⟨o, ho⟩ => World.mem_of_object ho⟩
  · have hc := hr.count a n o hn ho
    have hpos := (hr.alive_iff hA ⟨a, o.serial⟩).mp ⟨o, ho, rfl⟩
    exact ⟨hc, by omega⟩
  · rw [hr.alive_iff hA, Ledger.refs_pos]
  · have hcount : (destructed s.world.journal).count r = A.ended.count r := by
      rw [hr.ended, Multiset.coe_count]
    have hlive : r ∈ A.live ↔ 0 < s.ledger.refs r := (hr.live r).trans (hr.alive_iff hA r)
    rw [hcount]
    split_ifs with hl
    · exact Multiset.count_eq_zero.mpr (hA.notEnded r (hlive.mpr hl))
    · exact Multiset.count_eq_one_of_mem hA.once
        (((hr.made r).mp hmade).resolve_left fun hm => hl (hlive.mp hm))
  · have hw := (get_ensures (I := fun _ => True) hr.intact (fun a => (hr.registered a).mp) (by simp)
      key).done he
    unfold World.get at hw
    split at hw
    · next session count hfind =>
      cases hw
      exact World.object_of_mem ((hr.registered _).mp (World.mem_of_count (activeSessions_of_find hfind)))
    · cases hw

end Refinement

omit [DecidableEq κ] in
theorem bounded_of_card {l : Ledger κ Ref} (h : l.card < 2 ^ 31) : Bounded l := fun _ =>
  lt_of_le_of_lt (Multiset.countP_le_card _ l) h

/-- The process after client 3 has made a session. -/
def created : State Unit ℕ :=
  ⟨((World.start () (fun _ => "widevine") fun _ => true).create 7
    (construct (some 0) (some 0) .temporary none 0 "cenc" [])).2, {(3, ⟨7, 1⟩)}⟩

/-- The session is told the status of a key, and client 5 looks the key up. -/
def told : State Unit ℕ :=
  ⟨created.world.updateSession 7 fun s => { s with keyStatuses := s.keyStatuses.insert [1] .usable },
    created.ledger⟩

def shared : State Unit ℕ := ⟨(told.world.get [1]).2, (5, ⟨7, 1⟩) ::ₘ told.ledger⟩

/-- Client 3 removes the session, then client 5 does, and then it makes another one. -/
def kept : State Unit ℕ := ⟨shared.world.remove 7, shared.ledger.erase (3, ⟨7, 1⟩)⟩

def ended : State Unit ℕ := ⟨kept.world.remove 7, kept.ledger.erase (5, ⟨7, 1⟩)⟩

def reused : State Unit ℕ :=
  ⟨(ended.world.create 7 (construct (some 0) (some 0) .temporary none 0 "cenc" [])).2,
    (5, ⟨7, 2⟩) ::ₘ ended.ledger⟩

theorem told_unrelated : Unrelated created.world told.world where
  activeSessions := rfl
  allocated := rfl
  objects a := by
    simp only [told, World.heap_updateSession]
    split_ifs with ha
    · rw [← ha, Option.map_map]
      rfl
    · rfl
  constructed := rfl
  destructed := rfl

theorem shared_reachable : Reachable shared := by
  have hcreated : Reachable created :=
    .step (.start () (fun _ => "widevine") fun _ => true)
      (.create 3 7 (some 0) (some 0) .temporary none 0 "cenc" [] rfl) (bounded_of_card (by decide))
  have htold : Reachable told := .step hcreated (.other told_unrelated) (bounded_of_card (by decide))
  exact .step htold (.get 5 [1] rfl) (bounded_of_card (by decide))

theorem kept_reachable : Reachable kept :=
  .step shared_reachable (.remove 3 ⟨7, 1⟩ (by decide) rfl) (bounded_of_card (by decide))

theorem reused_reachable : Reachable reused := by
  have hended : Reachable ended :=
    .step kept_reachable (.remove 5 ⟨7, 1⟩ (by decide) rfl) (bounded_of_card (by decide))
  exact .step hended (.create 5 7 (some 0) (some 0) .temporary none 0 "cenc" [] rfl)
    (bounded_of_card (by decide))

/-- A session that two clients have is alive when one of them has removed it. When both have, it
is not, and it has been destructed once, though there is another one at its address. -/
theorem registry_counts_references_reused :
    (kept.world.Alive ⟨7, 1⟩ ∧ (destructed kept.world.journal).count ⟨7, 1⟩ = 0) ∧
    ¬ reused.world.Alive ⟨7, 1⟩ ∧ (destructed reused.world.journal).count ⟨7, 1⟩ = 1 ∧
    reused.world.Alive ⟨7, 2⟩ := by
  obtain ⟨-, -, hkept, honce, -⟩ := registry_counts_references kept_reachable
  obtain ⟨-, -, hreused, honce', -⟩ := registry_counts_references reused_reachable
  refine ⟨⟨(hkept _).mpr ⟨5, by decide⟩, (honce ⟨7, 1⟩ (by decide)).trans (by decide)⟩, fun halive => ?_,
    (honce' ⟨7, 1⟩ (by decide)).trans (by decide), (hreused _).mpr ⟨5, by decide⟩⟩
  obtain ⟨c, hc⟩ := (hreused _).mp halive
  have hledger : reused.ledger = {(5, ⟨7, 2⟩)} := by decide
  rw [hledger, Multiset.mem_singleton] at hc
  cases hc

end Registry

end RialtoOcdm
