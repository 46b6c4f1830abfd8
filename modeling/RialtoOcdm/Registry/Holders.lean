import RialtoOcdm.Registry.Calls
import Mathlib.Algebra.GroupWithZero.Nat

/-! The sessions of a process whose threads call the library in any order. A client gets
references with the answers of its calls, and destructs a session only while it holds one.
Then a session that somebody holds is in memory with all its members, whatever the other
threads are about, no destructor runs twice, and in the end nothing is left that nobody
holds. -/

namespace RialtoOcdm.Registry

open Concurrency Ownership

variable {R ι : Type} [Fintype ι]

/-- How many references to sessions at `a` calls have handed over. -/
def received (history : List (Call × Reply)) (a : Addr) : ℕ :=
  (history.map fun e => (given e.1 e.2).count a).sum

/-- How many of them clients have given back. -/
def returned (history : List (Call × Reply)) (a : Addr) : ℕ :=
  (history.map fun e => (taken e.1).count a).sum

/-- How many they are giving back. -/
def returning (cfg : Config (World R) Mutex Condition ι Call Reply) (a : Addr) : ℕ :=
  Finset.univ.sum fun t => (cfg.thread t).elim 0 fun th => (taken th.call).count a

/-- Somebody has a reference to the session at `a`, and is not about to give it back. -/
def Held (cfg : Config (World R) Mutex Condition ι Call Reply) (a : Addr) : Prop :=
  returned cfg.history a + returning cfg a < received cfg.history a

instance (cfg : Config (World R) Mutex Condition ι Call Reply) (a : Addr) : Decidable (Held cfg a) :=
  inferInstanceAs (Decidable (_ < _))

/-- Clients destruct sessions that they hold, and the counts are not at the end of `int`. -/
structure Honest (cfg : Config (World R) Mutex Condition ι Call Reply) (b : Action ι Call) : Prop where
  bounded : ∀ e ∈ cfg.shared.activeSessions.toList, e.2.toInt + 1 < 2 ^ 31
  held : ∀ t a, b = .call t (.destructSession (some a)) → Held cfg a

/-! ### The books -/

/-- The references that there are, and those that clients have and that threads have in their
calls. Only an application that keeps what it looks up can have more. -/
structure Balanced (x : Sharing ι Call Reply Sessions (Multiset Addr)) : Prop where
  sound : Sound x.resource
  owed : ∀ a, returned x.history a + x.total (fun c _ => (taken c).count a) ≤ received x.history a
  covered : ∀ a, received x.history a + x.total (fun _ g => g.count a) ≤
    refsAt x.resource a + (returned x.history a + x.total fun c _ => (taken c).count a)
  exact : (∀ e ∈ x.history, ¬ LooksUp e.1) → (∀ t c g, x.thread t = some (c, g) → ¬ LooksUp c) → ∀ a,
    refsAt x.resource a + (returned x.history a + x.total fun c _ => (taken c).count a) ≤
      received x.history a + x.total fun _ g => g.count a

section Balanced

variable {x : Sharing ι Call Reply Sessions (Multiset Addr)}

theorem Balanced.idle : Balanced (.idle ⟨∅, 0, 0⟩ : Sharing ι Call Reply Sessions (Multiset Addr)) where
  sound := .empty
  owed a := by simp [Sharing.idle, Sharing.total, returned, received]
  covered a := by simp [Sharing.idle, Sharing.total, returned, received]
  exact _ _ a := by simp [Sharing.idle, Sharing.total, returned, received, refsAt]

/-- Only a destruction gives a reference back. -/
theorem taken_pos {c : Call} {a : Addr} (h : 0 < (taken c).count a) :
    c = .destructSession (some a) ∧ (taken c).count a = 1 := by
  unfold taken at h ⊢
  split at h
  · rw [Multiset.count_singleton] at h ⊢
    split_ifs at h ⊢ with ha
    · subst ha
      exact ⟨rfl, rfl⟩
    · exact absurd h (lt_irrefl 0)
  · simp at h

variable [DecidableEq ι] {t : ι} {c : Call} {g : Multiset Addr}

theorem Balanced.call (h : Balanced x) (ht : x.thread t = none)
    (hheld : ∀ a, c = .destructSession (some a) → returned x.history a +
      x.total (fun c _ => (taken c).count a) < received x.history a) :
    Balanced (x.call t c (taken c)) where
  sound := h.sound
  owed a := by
    have howed := h.owed a
    rw [Sharing.total_call _ ht]
    by_cases hpos : 0 < (taken c).count a
    · obtain ⟨hc, hone⟩ := taken_pos hpos
      have := hheld a hc
      rw [hone]
      exact this
    · rw [Nat.eq_zero_of_not_pos hpos]
      exact howed
  covered a := by
    have hcovered := h.covered a
    rw [Sharing.total_call _ ht, Sharing.total_call _ ht]
    simp only [Sharing.call_history, Sharing.call_resource]
    omega
  exact hhist hthreads a := by
    have hexact := h.exact hhist (fun u c' g' hu => hthreads u c' g' ?_) a
    · rw [Sharing.total_call _ ht, Sharing.total_call _ ht]
      simp only [Sharing.call_history, Sharing.call_resource]
      omega
    · rw [Sharing.call_thread, Function.update_of_ne, hu]
      rintro rfl
      rw [ht] at hu
      cases hu

theorem Balanced.effect (h : Balanced x) (ht : x.thread t = some (c, g)) {A : Sessions}
    {g' : Multiset Addr} (he : Effect x.resource g A g') : Balanced (x.effect t c A g') := by
  have htaken : ∀ a, (x.effect t c A g').total (fun c _ => (taken c).count a) =
      x.total fun c _ => (taken c).count a := by
    intro a
    have := Sharing.total_effect (fun c _ => (taken c).count a) ht A g'
    omega
  have hrefs : ∀ a, refsAt A a + g.count a = refsAt x.resource a + g'.count a := by
    intro a
    cases he with
    | take b hs hrefs =>
      rw [hrefs a, Multiset.count_cons]
      simp only [eq_comm (a := a)]
      omega
    | @give b hb hs hrefs =>
      have hcons := congrArg (Multiset.count a) (Multiset.cons_erase hb)
      rw [Multiset.count_cons] at hcons
      simp only [eq_comm (a := a)] at hcons
      have := hrefs a
      omega
  have hthreads : ∀ a, (x.effect t c A g').total (fun _ g => g.count a) + g.count a =
      x.total (fun _ g => g.count a) + g'.count a := fun a => Sharing.total_effect _ ht A g'
  refine ⟨?_, fun a => ?_, fun a => ?_, fun hhist hlooks a => ?_⟩
  · cases he with
    | take b hs => exact h.sound.step hs
    | give hb hs => exact h.sound.step hs
  · rw [htaken]
    exact h.owed a
  · have := h.covered a
    have := hrefs a
    have := hthreads a
    rw [htaken]
    simp only [Sharing.effect_history, Sharing.effect_resource]
    omega
  · have := h.exact hhist (fun u c' g'' hu => ?_) a
    · have := hrefs a
      have := hthreads a
      rw [htaken]
      simp only [Sharing.effect_history, Sharing.effect_resource]
      omega
    · by_cases hut : u = t
      · subst hut
        rw [ht] at hu
        cases hu
        exact hlooks u c g' (Function.update_self ..)
      · exact hlooks u c' g'' (by rw [Sharing.effect_thread, Function.update_of_ne hut, hu])

theorem Balanced.ret (h : Balanced x) (ht : x.thread t = some (c, g)) {r : Reply}
    (hle : given c r ≤ g) (hsame : ¬ LooksUp c → g = given c r) : Balanced (x.ret t c r) := by
  have htaken : ∀ a, (x.ret t c r).total (fun c _ => (taken c).count a) + (taken c).count a =
      x.total fun c _ => (taken c).count a := fun a => Sharing.total_ret _ ht r
  have hthreads : ∀ a, (x.ret t c r).total (fun _ g => g.count a) + g.count a =
      x.total fun _ g => g.count a := fun a => Sharing.total_ret _ ht r
  have hreceived : ∀ a, received (x.ret t c r).history a = (given c r).count a + received x.history a :=
    fun a => rfl
  have hreturned : ∀ a, returned (x.ret t c r).history a = (taken c).count a + returned x.history a :=
    fun a => rfl
  refine ⟨h.sound, fun a => ?_, fun a => ?_, fun hhist hlooks a => ?_⟩
  · have := h.owed a
    have := htaken a
    rw [hreceived, hreturned]
    omega
  · have := h.covered a
    have := htaken a
    have := hthreads a
    have := Multiset.count_le_of_le a hle
    rw [hreceived, hreturned, Sharing.ret_resource]
    omega
  · obtain ⟨hc, hhist⟩ := List.forall_mem_cons.mp hhist
    have := h.exact hhist (fun u c' g' hu => ?_) a
    · have := htaken a
      have := hthreads a
      have := congrArg (Multiset.count a) (hsame hc)
      rw [hreceived, hreturned, Sharing.ret_resource]
      omega
    · by_cases hut : u = t
      · subst hut
        rw [ht] at hu
        cases hu
        exact hc
      · exact hlooks u c' g' (by rw [Sharing.ret_thread, Function.update_of_ne hut, hu])

/-- What one thread has is some of what there is. -/
theorem Balanced.count_le (h : Balanced x) (ht : x.thread t = some (c, g)) (a : Addr) :
    received x.history a + g.count a ≤
      refsAt x.resource a + (returned x.history a + x.total fun c _ => (taken c).count a) := by
  have := h.covered a
  have := Sharing.le_total (fun _ g => g.count a) ht
  omega

end Balanced

/-! ### All interleavings -/

/-- What is true of the sessions of a process. When no call is at work the books are closed. -/
structure Kept (cfg : Config (World R) Mutex Condition ι Call Reply) : Prop where
  whole : ∀ a, Held cfg a → ∃ o, cfg.shared.heap[a]? = some o ∧ o.destroyed = [] ∧
    ⟨a, o.serial⟩ ∉ destructed cfg.shared.journal
  once : (destructed cfg.shared.journal).Nodup
  registered : cfg.owner .activeSessions = none →
    ∀ a, a ∈ cfg.shared.activeSessions ↔ a ∈ cfg.shared.heap
  counted : cfg.owner .activeSessions = none → ∀ (a : Addr) n, cfg.shared.activeSessions[a]? = some n →
    received cfg.history a ≤ n.toInt + returned cfg.history a + returning cfg a
  made : cfg.owner .activeSessions = none →
    ∀ r ∈ constructed cfg.shared.journal, cfg.shared.Alive r ∨ r ∈ destructed cfg.shared.journal
  settled : (∀ t, cfg.thread t = none) → (∀ e ∈ cfg.history, ¬ LooksUp e.1) →
    (∀ a, a ∈ cfg.shared.heap ↔ returned cfg.history a < received cfg.history a) ∧
    ∀ (a : Addr) n, cfg.shared.activeSessions[a]? = some n →
      n.toInt + returned cfg.history a = received cfg.history a

section Runs

variable {careful : Prop} {cfg : Config (World R) Mutex Condition ι Call Reply}
  {x : Sharing ι Call Reply Sessions (Multiset Addr)}

theorem returning_eq (h : (registry R careful).Simulates .activeSessions cfg x) (a : Addr) :
    returning cfg a = x.total fun c _ => (taken c).count a := by
  apply Finset.sum_congr rfl
  intro t _
  cases ht : cfg.thread t with
  | none =>
    rw [h.absent t ht]
    rfl
  | some th =>
    obtain ⟨g, hg, -⟩ := h.threads t th ht
    rw [hg]
    rfl

/-- A session with references is whole, unless whoever is at work on the registry is about to
give back all of them. -/
theorem Balanced.whole (hx : Balanced x) (h : (registry R careful).Simulates .activeSessions cfg x)
    {a : Addr} (hpos : 0 < refsAt x.resource a)
    (hmore : ∀ t c g, cfg.owner .activeSessions = some t → x.thread t = some (c, g) →
      g.count a < refsAt x.resource a) :
    ∃ o, cfg.shared.heap[a]? = some o ∧ o.destroyed = [] ∧
      ⟨a, o.serial⟩ ∉ destructed cfg.shared.journal := by
  rcases h.state with hrel | ⟨t, c, g, hown, ht, hd⟩
  · have hrefines : Refines ⟨cfg.shared, x.resource.ledger⟩ x.resource := hrel
    obtain ⟨o, ho⟩ := hrefines.mem_heap_of_refsAt hx.sound hpos
    exact ⟨o, ho, hrefines.intact a o ho,
      hrefines.notDestructed hx.sound ((hrefines.live _).mpr ⟨o, ho, rfl⟩)⟩
  · have hcount := hmore t c g hown ht
    obtain ⟨⟨⟨⟩, r⟩, he, rfl⟩ := Multiset.countP_pos.mp hpos
    have hlive : r ∈ x.resource.live := (hx.sound.held r).mpr (Ledger.refs_pos_of_mem he)
    have hleft : ¬ (r.address ∈ g ∧ refsAt x.resource r.address = 1) := by
      rintro ⟨hmem, hone⟩
      have := Multiset.count_pos.mpr hmem
      simp only at hcount
      omega
    obtain ⟨⟨o, ho, hs, hdestroyed⟩, hnot⟩ := hd.whole r hlive hleft
    exact ⟨o, ho, hdestroyed, by rwa [hs]⟩

variable [DecidableEq ι]

/-- A call of a client that destructs what it holds. -/
theorem Balanced.call_honest (hx : Balanced x)
    (h : (registry R careful).Simulates .activeSessions cfg x) {t : ι} {c : Call}
    (hb : Honest cfg (.call t c)) (ht : x.thread t = none) : Balanced (x.call t c (taken c)) := by
  apply hx.call ht
  intro a hc
  have hheld := hb.held t a (by rw [hc])
  rwa [Held, returning_eq h, ← h.history] at hheld

theorem Balanced.goes {y : Sharing ι Call Reply Sessions (Multiset Addr)} (hx : Balanced x)
    (h : Sharing.Goes (registry R careful) x y) : Balanced y := by
  cases h with
  | effect ht he => exact hx.effect ht he
  | ret ht hf => exact hx.ret ht hf.1 hf.2

/-- What a critical section relies on is true. -/
theorem Balanced.pre (hx : Balanced x) (hbounded : ∀ e ∈ cfg.shared.activeSessions.toList,
    e.2.toInt + 1 < 2 ^ 31) (h : Refines ⟨cfg.shared, x.resource.ledger⟩ x.resource) {t : ι} {c : Call}
    {g : Multiset Addr} (ht : x.thread t = some (c, g)) : Pre x.resource g := by
  refine ⟨hx.sound, ?_, fun a => ?_⟩
  · rintro ⟨a, serial⟩
    rcases Nat.eq_zero_or_pos (x.resource.ledger.refs ⟨a, serial⟩) with hzero | hpos
    · rw [hzero]
      decide
    · obtain ⟨o, ho, rfl⟩ := (h.alive_iff hx.sound _).mpr hpos
      obtain ⟨n, hn⟩ := World.count_of_mem ((h.registered a).mpr (World.mem_of_object ho))
      have hcount := h.count a n o hn ho
      have hmax := hbounded _ (Std.ExtTreeMap.mem_toList_iff_getElem?_eq_some.mpr hn)
      simp only at hcount hmax
      omega
  · have := hx.count_le ht a
    have := hx.owed a
    omega

theorem balanced_keeps : (registry R False).Keeps .activeSessions (Honest (ι := ι)) Balanced where
  call _ _ _ _ hsim hx hb ht := hx.call_honest hsim hb ht
  goes _ _ hx hgoes := hx.goes hgoes
  pre _ _ _ _ _ _ hx hb hrel ht := hx.pre hb.bounded hrel ht
  known _ _ _ _ _ _ _ _ _ _ _ := False.elim

/-- A session that is held is whole. -/
theorem Balanced.whole_of_held (hx : Balanced x)
    (h : (registry R careful).Simulates .activeSessions cfg x) {a : Addr}
    (ha : returned x.history a + x.total (fun c _ => (taken c).count a) < received x.history a) :
    ∃ o, cfg.shared.heap[a]? = some o ∧ o.destroyed = [] ∧
      ⟨a, o.serial⟩ ∉ destructed cfg.shared.journal := by
  refine hx.whole h ?_ fun t c g _ ht => ?_
  · have := hx.covered a
    omega
  · have := hx.count_le ht a
    omega

theorem Kept.of_simulates (h : (registry R careful).Simulates .activeSessions cfg x) (hx : Balanced x) :
    Kept cfg where
  whole a ha := by
    rw [Held, returning_eq h, ← h.history] at ha
    exact hx.whole_of_held h ha
  once := by
    rcases h.state with hrel | ⟨t, c, g, -, ht, hd⟩
    · exact Refines.nodup hrel hx.sound
    · exact hd.once
  registered hfree := (h.free hfree).registered
  counted hfree a n hn := by
    have hrefines : Refines ⟨cfg.shared, x.resource.ledger⟩ x.resource := h.free hfree
    obtain ⟨o, ho⟩ := World.object_of_mem ((hrefines.registered a).mp (World.mem_of_count hn))
    have hcount := hrefines.count a n o hn ho
    have hcovered := hx.covered a
    rw [returning_eq h, hcount, ← h.history]
    rw [hrefines.refsAt_eq hx.sound ho] at hcovered
    simp only
    omega
  made hfree r hr := by
    have hrefines : Refines ⟨cfg.shared, x.resource.ledger⟩ x.resource := h.free hfree
    apply ((hrefines.made r).mp hr).imp (hrefines.live r).mp
    intro hended
    rwa [hrefines.ended, Multiset.mem_coe] at hended
  settled hidle hlooks := by
    have hfree : cfg.owner .activeSessions = none := by
      apply Option.eq_none_iff_forall_ne_some.mpr
      intro t ht
      obtain ⟨th, hth⟩ := h.owned t ht
      rw [hidle t] at hth
      cases hth
    have hrefines : Refines ⟨cfg.shared, x.resource.ledger⟩ x.resource := h.free hfree
    have hnone : ∀ t, x.thread t = none := fun t => h.absent t (hidle t)
    have hzero : ∀ f, x.total f = 0 := fun f => Finset.sum_eq_zero fun t _ => by rw [hnone]; rfl
    -- all references are with the clients
    have hrefs : ∀ a, refsAt x.resource a + returned cfg.history a = received cfg.history a := by
      intro a
      have hcovered := hx.covered a
      have hexact := hx.exact (h.history ▸ hlooks) (fun t c g ht => by rw [hnone] at ht; cases ht) a
      rw [hzero, hzero, h.history] at hcovered hexact
      omega
    refine ⟨fun a => ⟨fun ha => ?_, fun ha => ?_⟩, fun a n hn => ?_⟩
    · obtain ⟨o, ho⟩ := World.object_of_mem ha
      have hpos := (hrefines.alive_iff hx.sound ⟨a, o.serial⟩).mp ⟨o, ho, rfl⟩
      have := hrefs a
      rw [hrefines.refsAt_eq hx.sound ho] at this
      omega
    · have := hrefs a
      obtain ⟨o, ho⟩ := hrefines.mem_heap_of_refsAt hx.sound (a := a) (by omega)
      exact World.mem_of_object ho
    · obtain ⟨o, ho⟩ := World.object_of_mem ((hrefines.registered a).mp (World.mem_of_count hn))
      have hcount := hrefines.count a n o hn ho
      have := hrefs a
      rw [hrefines.refsAt_eq hx.sound ho] at this
      rw [hcount]
      simp only
      omega

/-- In every interleaving of calls of clients that destruct what they hold. -/
theorem sessions_live_while_held [MediaKeys R] {rialto : R} {keySystem : SystemId → String}
    {mediaKeysFactory : SystemId → Bool}
    (h : ReachesUnder Honest entry (.idle (.start rialto keySystem mediaKeysFactory) []) cfg) :
    Kept cfg := by
  have hrefines : (registry R False).rel (.start rialto keySystem mediaKeysFactory) ⟨∅, 0, 0⟩ :=
    Refines.start rialto keySystem mediaKeysFactory
  have hstart : (registry R False).Simulates Mutex.activeSessions (.idle _ [] :
    Config (World R) Mutex Condition ι Call Reply) (.idle _) := .idle hrefines
  obtain ⟨x, -, hx, hsim⟩ := hstart.reaches entry_serves balanced_keeps .idle h
  exact .of_simulates hsim hx

end Runs

/-- Two threads make a session each, and one destructs its own. -/
def parting : List (Action (Fin 2) Call) :=
  .call 0 (.create 7 none none .temporary none 0 "cenc" []) :: List.replicate 5 (.run 0) ++
  .call 1 (.create 9 none none .temporary none 0 "cenc" []) :: List.replicate 5 (.run 1) ++
  .call 0 (.destructSession (some 7)) :: List.replicate 14 (.run 0)

def partingStart : Config (World Compliant) Mutex Condition (Fin 2) Call Reply :=
  .idle (.start .mk (fun _ => "widevine") fun _ => true) []

/-- `Honest` can be computed. -/
def honestly (cfg : Config (World Compliant) Mutex Condition (Fin 2) Call Reply)
    (b : Action (Fin 2) Call) : Bool :=
  (cfg.shared.activeSessions.toList.all fun e => decide (e.2.toInt + 1 < 2 ^ 31)) &&
    match b with
    | .call _ (.destructSession (some a)) => decide (Held cfg a)
    | _ => true

theorem honest_of_honestly {cfg : Config (World Compliant) Mutex Condition (Fin 2) Call Reply}
    {b : Action (Fin 2) Call} (h : honestly cfg b = true) : Honest cfg b := by
  obtain ⟨hall, hheld⟩ := Bool.and_eq_true_iff.mp h
  refine ⟨fun e he => of_decide_eq_true (List.all_eq_true.mp hall e he), ?_⟩
  rintro t a rfl
  exact of_decide_eq_true hheld

/-- While one session is being destroyed the other one is whole. -/
theorem sessions_live_while_held_parting :
    ∃ cfg, ReachesUnder Honest entry partingStart cfg ∧
      (∃ o, cfg.shared.heap[(7 : Addr)]? = some o ∧ o.destroyed ≠ []) ∧
      ∃ o, cfg.shared.heap[(9 : Addr)]? = some o ∧ o.destroyed = [] := by
  have hf : (followUnder honestly entry parting partingStart).map (fun cfg =>
      ((cfg.shared.heap[(7 : Addr)]?).map fun o => o.destroyed.isEmpty, decide (Held cfg 9))) =
        some (some false, true) := by
    decide
  obtain ⟨cfg, hcfg, he⟩ := Option.map_eq_some_iff.mp hf
  obtain ⟨hdying, hheld⟩ := Prod.mk.inj he
  have hr := reachesUnder_of_followUnder (fun _ _ _ => honest_of_honestly) hcfg
  obtain ⟨o, ho, hwhole, -⟩ := (sessions_live_while_held hr).whole 9 (of_decide_eq_true hheld)
  obtain ⟨o', ho', hd⟩ := Option.map_eq_some_iff.mp hdying
  exact ⟨cfg, hr, ⟨o', ho', by simpa using hd⟩, o, ho, hwhole⟩

end RialtoOcdm.Registry
