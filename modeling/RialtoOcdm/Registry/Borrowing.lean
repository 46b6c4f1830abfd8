import RialtoOcdm.Registry.Holders

/-! Clients that call about a session only while they hold a reference to it, and that keep
one as long as somebody is in such a call. Then no operation and no look-up uses a member of
a session that is not there, whatever else is done to the sessions meanwhile. -/

namespace RialtoOcdm.Registry

open Concurrency

variable {R ι : Type} [Fintype ι]

/-- Some thread is in a call about the session at `a`. -/
def Used (cfg : Config (World R) Mutex Condition ι Call Reply) (a : Addr) : Prop :=
  ∃ t th, cfg.thread t = some th ∧ th.call.ActsFor a

structure Careful (cfg : Config (World R) Mutex Condition ι Call Reply) (b : Action ι Call) : Prop extends
    Honest cfg b where
  keeps : ∀ t a, b = .call t (.destructSession (some a)) → Used cfg a →
    returned cfg.history a + returning cfg a + 1 < received cfg.history a
  uses : ∀ t c a, b = .call t c → c.ActsFor a → Held cfg a

/-- The session that a call is about is held by somebody. -/
structure Borrowed (x : Sharing ι Call Reply Sessions (Multiset Addr)) : Prop extends Balanced x where
  borrowed : ∀ t c g a, x.thread t = some (c, g) → c.ActsFor a →
    returned x.history a + x.total (fun c _ => (taken c).count a) < received x.history a

section Runs

variable {cfg cfg' : Config (World R) Mutex Condition ι Call Reply}
  {x : Sharing ι Call Reply Sessions (Multiset Addr)} [DecidableEq ι] {t : ι} {c : Call}
  {g : Multiset Addr}

theorem Borrowed.call (hx : Borrowed x) (h : (registry R True).Simulates .activeSessions cfg x)
    (hb : Careful cfg (.call t c)) (ht : x.thread t = none) : Borrowed (x.call t c (taken c)) where
  toBalanced := hx.toBalanced.call_honest h hb.toHonest ht
  borrowed u d g' a hu ha := by
    rw [Sharing.call_thread] at hu
    rw [Sharing.total_call _ ht]
    by_cases hut : u = t
    · subst hut
      rw [Function.update_self] at hu
      cases hu
      have hheld := hb.uses u c a rfl ha
      rw [Held, returning_eq h, ← h.history] at hheld
      have hnone : (taken c).count a = 0 := by
        apply Nat.eq_zero_of_not_pos
        intro hpos
        obtain ⟨rfl, -⟩ := taken_pos hpos
        exact ha
      rwa [hnone]
    · rw [Function.update_of_ne hut] at hu
      have hborrowed := hx.borrowed u d g' a hu ha
      by_cases hpos : 0 < (taken c).count a
      · obtain ⟨hc, hone⟩ := taken_pos hpos
        obtain ⟨tu, htu, hcall⟩ : ∃ tu, cfg.thread u = some tu ∧ tu.call = d := by
          cases htu : cfg.thread u with
          | none =>
            rw [h.absent u htu] at hu
            cases hu
          | some tu =>
            obtain ⟨g'', hg'', -⟩ := h.threads u tu htu
            rw [hu] at hg''
            cases hg''
            exact ⟨tu, rfl, rfl⟩
        have hkeeps := hb.keeps t a (by rw [hc]) ⟨u, tu, htu, hcall ▸ ha⟩
        rw [returning_eq h, ← h.history] at hkeeps
        rw [hone]
        exact hkeeps
      · rw [Nat.eq_zero_of_not_pos hpos]
        exact hborrowed

theorem Borrowed.goes {y : Sharing ι Call Reply Sessions (Multiset Addr)} (hx : Borrowed x)
    (h : Sharing.Goes (registry R True) x y) : Borrowed y where
  toBalanced := hx.toBalanced.goes h
  borrowed u d g' a hu ha := by
    cases h with
    | @effect t c g A g'' ht he =>
      have htaken := Sharing.total_effect (fun c _ => (taken c).count a) ht A g''
      obtain ⟨g₀, hu₀⟩ : ∃ g₀, x.thread u = some (d, g₀) := by
        by_cases hut : u = t
        · subst hut
          rw [Sharing.effect_thread, Function.update_self] at hu
          cases hu
          exact ⟨g, ht⟩
        · rw [Sharing.effect_thread, Function.update_of_ne hut] at hu
          exact ⟨g', hu⟩
      have hborrowed := hx.borrowed u d g₀ a hu₀ ha
      rw [Sharing.effect_history]
      omega
    | @ret t c g r ht hf =>
      have htaken := Sharing.total_ret (fun c _ => (taken c).count a) ht r
      have hne : u ≠ t := by
        rintro rfl
        rw [Sharing.ret_thread, Function.update_self] at hu
        cases hu
      rw [Sharing.ret_thread, Function.update_of_ne hne] at hu
      have hborrowed := hx.borrowed u d g' a hu ha
      have hreceived : received (x.ret t c r).history a =
        (given c r).count a + received x.history a := rfl
      have hreturned : returned (x.ret t c r).history a = (taken c).count a + returned x.history a := rfl
      rw [hreceived, hreturned]
      omega

/-- What a thread may use is whole. -/
theorem Borrowed.known (hx : Borrowed x) (h : (registry R True).Simulates .activeSessions cfg x)
    (ht : x.thread t = some (c, g)) (hown : cfg.owner .activeSessions ≠ some t) {a : Addr}
    (ha : a ∈ g ∨ c.ActsFor a) : ∃ o, cfg.shared.heap[a]? = some o ∧ o.destroyed = [] ∧
      ⟨a, o.serial⟩ ∉ destructed cfg.shared.journal := by
  rcases ha with ha | ha
  · -- it has a reference of its own, beside those that another thread has
    have hcount := Multiset.count_pos.mpr ha
    have hcovered := hx.covered a
    have howed := hx.owed a
    refine hx.whole h ?_ fun u d g' hu hg' => ?_
    · have := Sharing.le_total (fun _ g => g.count a) ht
      omega
    · have hut : u ≠ t := by
        rintro rfl
        exact hown hu
      have := Sharing.add_le_total (fun _ g => g.count a) ht hg' hut
      omega
  · exact hx.whole_of_held h (hx.borrowed t c g a ht ha)

theorem borrowed_keeps : (registry R True).Keeps .activeSessions (Careful (ι := ι)) Borrowed where
  call _ _ _ _ hsim hx hb ht := hx.call hsim hb ht
  goes _ _ hx hgoes := hx.goes hgoes
  pre _ _ _ _ _ _ hx hb hrel ht := hx.pre hb.bounded hrel ht
  known _ _ _ _ _ _ hsim hx _ ht hown _ a ha m := by
    obtain ⟨o, ho, hd, -⟩ := hx.known hsim ht hown ha
    simp [World.has, ho, hd]

/-- In every interleaving of calls of careful clients the session that a call is about is
whole, and only message handlers ever use a member that is not there. -/
theorem members_used_while_whole [MediaKeys R] {rialto : R} {keySystem : SystemId → String}
    {mediaKeysFactory : SystemId → Bool}
    (h : ReachesUnder Careful entry (.idle (.start rialto keySystem mediaKeysFactory) []) cfg) :
    (∀ a, Used cfg a → ∃ o, cfg.shared.heap[a]? = some o ∧ o.destroyed = [] ∧
      ⟨a, o.serial⟩ ∉ destructed cfg.shared.journal) ∧
    ∀ b, Careful cfg b → perform entry cfg b = some cfg' → NoMisuse cfg.shared cfg'.shared ∨
      ∃ t th, b = .run t ∧ cfg.thread t = some th ∧ Handles th.call := by
  have hrefines : (registry R True).rel (.start rialto keySystem mediaKeysFactory) ⟨∅, 0, 0⟩ :=
    Refines.start rialto keySystem mediaKeysFactory
  have hstart : (registry R True).Simulates Mutex.activeSessions (.idle _ [] :
    Config (World R) Mutex Condition ι Call Reply) (.idle _) := .idle hrefines
  have hidle : Borrowed (.idle ⟨∅, 0, 0⟩ : Sharing ι Call Reply Sessions (Multiset Addr)) :=
    ⟨.idle, fun t c g a ht => by cases ht⟩
  obtain ⟨x, -, hx, hsim⟩ := hstart.reaches entry_serves borrowed_keeps hidle h
  refine ⟨?_, fun b hb hp => ?_⟩
  · rintro a ⟨t, th, ht, ha⟩
    obtain ⟨g, hg, -⟩ := hsim.threads t th ht
    exact hx.whole_of_held hsim (hx.borrowed t th.call g a hg ha)
  · rcases hsim.does borrowed_keeps hx hb hp with hsame | ⟨t, th, hrun, ht, hdoes⟩
    · exact .inl (.same (congrArg World.journal hsame))
    · by_cases hc : Handles th.call
      · exact .inr ⟨t, th, hrun, ht, hc⟩
      · exact .inl (hdoes trivial hc)

end Runs

/-- While its session is destroyed by the one thread, the other asks for the id of its own. -/
def asking : List (Action (Fin 2) Call) := parting ++ [.call 1 (.sessionId (some 9))]

/-- A condition for calls as in `asking` to be careful. -/
def carefully (cfg : Config (World Compliant) Mutex Condition (Fin 2) Call Reply)
    (b : Action (Fin 2) Call) : Bool :=
  honestly cfg b && match b with
    | .call _ (.destructSession (some _)) => decide (∀ t, (cfg.thread t).isNone = true)
    | .call _ (.sessionId (some a)) => decide (Held cfg a)
    | .call _ (.create ..) => true
    | .call .. => false
    | _ => true

theorem careful_of_carefully {cfg : Config (World Compliant) Mutex Condition (Fin 2) Call Reply}
    {b : Action (Fin 2) Call} (h : carefully cfg b = true) : Careful cfg b := by
  obtain ⟨hhonest, hcareful⟩ := Bool.and_eq_true_iff.mp h
  refine ⟨honest_of_honestly hhonest, ?_, ?_⟩
  · rintro t a rfl ⟨u, th, hu, -⟩
    have hnone := of_decide_eq_true hcareful u
    rw [hu] at hnone
    cases hnone
  · rintro t c a rfl ha
    cases c with
    | sessionId session =>
      obtain rfl : session = some a := ha
      exact of_decide_eq_true hcareful
    | create | destructSession => exact ha.elim
    | _ => cases hcareful

/-- `Handles`, as a test. -/
def delivers : Call → Bool
  | .deliver .. => true
  | _ => false

theorem delivers_of_handles {c : Call} (h : Handles c) : delivers c = true := by
  cases c with
  | deliver => rfl
  | _ => exact h.elim

theorem members_used_while_whole_asking :
    ∃ cfg cfg', ReachesUnder Careful entry partingStart cfg ∧ perform entry cfg (.run 1) = some cfg' ∧
      (∃ o, cfg.shared.heap[(7 : Addr)]? = some o ∧ o.destroyed ≠ []) ∧
      NoMisuse cfg.shared cfg'.shared := by
  have hf : (followUnder carefully entry asking partingStart).bind (fun cfg =>
      (perform entry cfg (.run 1)).map fun _ => (carefully cfg (.run 1),
        (cfg.shared.heap[(7 : Addr)]?).map fun o => o.destroyed.isEmpty,
        (cfg.thread 1).map fun th => delivers th.call)) = some (true, some false, some false) := by
    decide
  obtain ⟨cfg, hcfg, hf⟩ := Option.bind_eq_some_iff.mp hf
  obtain ⟨cfg', hp, he⟩ := Option.map_eq_some_iff.mp hf
  simp only [Prod.mk.injEq] at he
  obtain ⟨hcareful, hdying, hcall⟩ := he
  have hr := reachesUnder_of_followUnder (fun _ _ _ => careful_of_carefully) hcfg
  obtain ⟨o, ho, hd⟩ := Option.map_eq_some_iff.mp hdying
  refine ⟨cfg, cfg', hr, hp, ⟨o, ho, by simpa using hd⟩, ?_⟩
  apply ((members_used_while_whole hr).2 _ (careful_of_carefully hcareful) hp).resolve_right
  rintro ⟨t, th, ⟨⟩, ht, hhandles⟩
  rw [ht, Option.map_some, Option.some.injEq, delivers_of_handles hhandles] at hcall
  cases hcall

end RialtoOcdm.Registry
