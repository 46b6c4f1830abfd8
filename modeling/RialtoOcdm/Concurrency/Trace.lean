import RialtoOcdm.Concurrency.Machine

/-! One call along a run: when it is made, what it looks at, and what it returns. A run
can also be told as one of calls that know of what state they were made in. -/

namespace Concurrency

variable {σ μ χ ι κ ρ α β τ : Type}

/-! ### The code of a thread -/

namespace Prog

/-- The code goes on without a look at the state. -/
inductive Skips : Prog σ μ χ α → Prog σ μ χ α → Prop
  | refl (p) : Skips p p
  | lock (m k) : Skips (.lock m k) k
  | unlock (m k) : Skips (.unlock m k) k
  | goOn (c m timed ready k) : Skips (.wait c m timed ready k) k
  | relock (c m timed ready k) : Skips (.wait c m timed ready k) (.lock m (.wait c m timed ready k))
  | timeout (c m timed ready k) : Skips (.wait c m timed ready k) (.lock m k)
  | notifyOne (c k) : Skips (.notifyOne c k) k

/-- Whatever the program returns satisfies `J`. -/
def Returns (J : α → Prop) : Prog σ μ χ α → Prop
  | ret a => J a
  | act _ k => ∀ s, (k s).Returns J
  | lock _ k => k.Returns J
  | unlock _ k => k.Returns J
  | wait _ _ _ _ k => k.Returns J
  | notifyOne _ k => k.Returns J

/-- Before the program returns what satisfies `Q`, it takes the step `f`, and `J` tells
what it returns from the state in which it took it. -/
def Consults (f : σ → σ) (J : σ → α → Prop) (Q : α → Prop) : Prog σ μ χ α → Prop
  | ret a => ¬ Q a
  | act g k => g = f ∧ (∀ s, (k s).Returns (J s)) ∨ ∀ s, (k s).Consults f J Q
  | lock _ k => k.Consults f J Q
  | unlock _ k => k.Consults f J Q
  | wait _ _ _ _ k => k.Consults f J Q
  | notifyOne _ k => k.Consults f J Q

variable {f : σ → σ} {J : σ → α → Prop} {J' : σ → β → Prop} {Q : α → Prop} {Q' : β → Prop}
  {p p' : Prog σ μ χ α} {g : α → Prog σ μ χ β}

theorem Returns.bind {K : α → Prop} {K' : β → Prop} (hp : p.Returns K)
    (hg : ∀ a, K a → (g a).Returns K') : (p >>= g).Returns K' := by
  induction p with
  | ret a => exact hg a hp
  | act f k ih => exact fun s => ih s (hp s)
  | lock m k ih => exact ih hp
  | unlock m k ih => exact ih hp
  | wait c m timed ready k ih => exact ih hp
  | notifyOne c k ih => exact ih hp

/-- The first part takes the step, where it matters. -/
theorem Consults.bind (hp : p.Consults f J Q) (hno : ∀ a, ¬ Q a → (g a).Consults f J' Q')
    (hg : ∀ s a, J s a → (g a).Returns (J' s)) : (p >>= g).Consults f J' Q' := by
  induction p with
  | ret a => exact hno a hp
  | act g k ih =>
    exact hp.imp (fun ⟨he, hk⟩ => ⟨he, fun s => (hk s).bind (hg s)⟩) fun hk s => ih s (hk s)
  | lock m k ih => exact ih hp
  | unlock m k ih => exact ih hp
  | wait c m timed ready k ih => exact ih hp
  | notifyOne c k ih => exact ih hp

/-- The last part takes the step. -/
theorem consults_bind (p : Prog σ μ χ α) (hg : ∀ a, (g a).Consults f J' Q') :
    (p >>= g).Consults f J' Q' := by
  induction p with
  | ret a => exact hg a
  | act f k ih => exact .inr ih
  | lock m k ih => exact ih
  | unlock m k ih => exact ih
  | wait c m timed ready k ih => exact ih
  | notifyOne c k ih => exact ih

theorem Returns.skips {K : α → Prop} (h : p.Returns K) (hs : p.Skips p') : p'.Returns K := by
  cases hs <;> exact h

theorem Consults.skips (h : p.Consults f J Q) (hs : p.Skips p') : p'.Consults f J Q := by
  cases hs <;> exact h

end Prog

section Thread

variable [DecidableEq ι] [DecidableEq μ] [DecidableEq χ] {entry : κ → Prog σ μ χ ρ}
  {cfg cfg' : Config σ μ χ ι κ ρ}

omit [DecidableEq χ] [DecidableEq μ] in
theorem Thread.wake_skips (th : Thread σ μ χ κ ρ) : th.code.Skips th.wake.code := by
  unfold Thread.wake
  split
  · next hcode =>
    rw [hcode]
    exact .relock ..
  · exact .refl _

omit [DecidableEq χ] [DecidableEq μ] in
/-- One thread goes on without a look at the state. -/
theorem Thread.exists_skips {thread : ι → Option (Thread σ μ χ κ ρ)} {t u : ι}
    {th' tu tu' : Thread σ μ χ κ ρ} (ht' : Function.update thread u (some tu') t = some th')
    (hu : thread u = some tu) (hcall : tu'.call = tu.call) (hskips : tu.code.Skips tu'.code) :
    ∃ th, thread t = some th ∧ th'.call = th.call ∧ th.code.Skips th'.code := by
  rcases Config.update_eq_some ht' with ⟨rfl, he⟩ | ⟨-, ht⟩
  · cases he
    exact ⟨tu, hu, hcall, hskips⟩
  · exact ⟨th', ht, rfl, .refl _⟩

/-- Where a thread comes from: it was called, it went on without a look at the state, or
it took a step. -/
theorem Moves.thread_cases {a : Action ι κ} (hm : Moves entry cfg a cfg') {t : ι} {th' : Thread σ μ χ κ ρ}
    (ht' : cfg'.thread t = some th') :
    (cfg.thread t = none ∧ a = .call t th'.call ∧ th'.code = entry th'.call) ∨
    (∃ th, cfg.thread t = some th ∧ th'.call = th.call ∧ th.code.Skips th'.code) ∨
    ∃ th f k, cfg.thread t = some th ∧ th'.call = th.call ∧ a = .run t ∧ th.code = .act f k ∧
      th'.code = k cfg.shared := by
  cases hm with
  | call u c hu =>
    rcases Config.update_eq_some ht' with ⟨rfl, he⟩ | ⟨-, ht⟩
    · cases he
      exact .inl ⟨hu, rfl, rfl⟩
    · exact .inr (.inl ⟨th', ht, rfl, .refl _⟩)
  | ret hu hb hcode => exact .inr (.inl ⟨th', Config.thread_of_remove ht', rfl, .refl _⟩)
  | @act u tu f k hu hb hcode =>
    rcases Config.update_eq_some ht' with ⟨rfl, he⟩ | ⟨-, ht⟩
    · cases he
      exact .inr (.inr ⟨tu, f, k, hu, rfl, rfl, hcode, rfl⟩)
    · exact .inr (.inl ⟨th', ht, rfl, .refl _⟩)
  | lock hu hb hcode => exact .inr (.inl (Thread.exists_skips ht' hu rfl (hcode ▸ .lock ..)))
  | unlock hu hb hcode => exact .inr (.inl (Thread.exists_skips ht' hu rfl (hcode ▸ .unlock ..)))
  | goOn hu hb hcode => exact .inr (.inl (Thread.exists_skips ht' hu rfl (hcode ▸ .goOn ..)))
  | block hu => exact .inr (.inl (Thread.exists_skips ht' hu rfl (.refl _)))
  | notifyNobody hu hb hcode =>
    exact .inr (.inl (Thread.exists_skips ht' hu rfl (hcode ▸ .notifyOne ..)))
  | @notify u v tu tv c k hu hb hcode hv =>
    rcases Config.update_eq_some ht' with ⟨rfl, he⟩ | ⟨-, ht⟩
    · cases he
      exact .inr (.inl ⟨tv, hv, tv.wake_call, tv.wake_skips⟩)
    · exact .inr (.inl (Thread.exists_skips ht hu rfl (hcode ▸ .notifyOne ..)))
  | @wake u tu hu =>
    exact .inr (.inl (Thread.exists_skips ht' hu tu.wake_call tu.wake_skips))
  | timeout hu hb hcode => exact .inr (.inl (Thread.exists_skips ht' hu rfl (hcode ▸ .timeout ..)))

/-! ### A call along a run -/

variable [Fintype ι] {run : ℕ → Config σ μ χ ι κ ρ} {t : ι} {c : κ} {i j : ℕ}

/-- Thread `t` makes the call `c` right after moment `i`, and is in it up to moment `j`. -/
structure InCall (run : ℕ → Config σ μ χ ι κ ρ) (t : ι) (c : κ) (i j : ℕ) : Prop where
  idle : (run i).thread t = none
  lt : i < j
  busy : ∀ n, i < n → n ≤ j → ∃ th, (run n).thread t = some th ∧ th.call = c

/-- At moment `n` thread `t` takes the step `f`. -/
def Takes (entry : κ → Prog σ μ χ ρ) (run : ℕ → Config σ μ χ ι κ ρ) (t : ι) (f : σ → σ) (n : ℕ) : Prop :=
  ∃ th k, (run n).thread t = some th ∧ th.code = .act f k ∧ perform entry (run n) (.run t) = some (run (n + 1))

omit [DecidableEq ι] [DecidableEq μ] [DecidableEq χ] [Fintype ι] in
theorem InCall.before (h : InCall run t c i (j + 1)) {th : Thread σ μ χ κ ρ}
    (ht : (run j).thread t = some th) : InCall run t c i j := by
  have hij : i ≠ j := by
    rintro rfl
    rw [h.idle] at ht
    cases ht
  have := h.lt
  exact ⟨h.idle, by omega, fun n hn hnj => h.busy n hn (by omega)⟩

omit [DecidableEq ι] [DecidableEq μ] [DecidableEq χ] [Fintype ι] in
theorem InCall.eq_of_idle (h : InCall run t c i (j + 1)) (hj : (run j).thread t = none) : i = j := by
  by_contra hij
  have := h.lt
  obtain ⟨th, hth, -⟩ := h.busy j (by omega) (by omega)
  rw [hj] at hth
  cases hth

/-- What a call consults it has looked at when it returns. The induction is on the time:
either the look is still ahead, or what is returned depends on it. -/
theorem InCall.consults (hrun : IsRun entry run) (h : InCall run t c i j) {f : σ → σ}
    {J : σ → ρ → Prop} {Q : ρ → Prop} (hc : (entry c).Consults f J Q) {th : Thread σ μ χ κ ρ}
    (ht : (run j).thread t = some th) : th.code.Consults f J Q ∨
      ∃ n, i < n ∧ n < j ∧ Takes entry run t f n ∧ th.code.Returns (J (run n).shared) := by
  induction j generalizing th with
  | zero => exact absurd h.lt (Nat.not_lt_zero i)
  | succ j ih =>
    obtain ⟨th', ht', hcall⟩ := h.busy (j + 1) h.lt le_rfl
    cases ht.symm.trans ht'
    have hold : ∀ tp, (run j).thread t = some tp → tp.code.Consults f J Q ∨
        ∃ n, i < n ∧ n < j ∧ Takes entry run t f n ∧ tp.code.Returns (J (run n).shared) :=
      fun tp htp => ih (h.before htp) htp
    rcases hrun j with he | ⟨a, ha⟩
    · rw [he] at ht
      exact (hold th ht).imp_right fun ⟨n, hi, hj, hr⟩ => ⟨n, hi, hj.trans (Nat.lt_succ_self j), hr⟩
    · rcases (moves_of_perform ha).thread_cases ht with ⟨-, -, hcode⟩ | ⟨tp, htp, -, hs⟩ |
        ⟨tp, g, k, htp, -, rfl, hcode, hk⟩
      · rw [hcode, hcall]
        exact .inl hc
      · refine (hold tp htp).imp (·.skips hs) fun ⟨n, hi, hj, htakes, hr⟩ => ?_
        exact ⟨n, hi, hj.trans (Nat.lt_succ_self j), htakes, hr.skips hs⟩
      · rw [hk]
        have hp := hold tp htp
        rw [hcode] at hp
        rcases hp with (⟨rfl, hr⟩ | hlater) | ⟨n, hi, hj, htakes, hr⟩
        · exact .inr ⟨j, (h.before htp).lt, Nat.lt_succ_self j, ⟨tp, k, htp, hcode, ha⟩, hr _⟩
        · exact .inl (hlater _)
        · exact .inr ⟨n, hi, hj.trans (Nat.lt_succ_self j), htakes, hr _⟩

/-- A call that is about to return what it had to look at the state for. -/
theorem InCall.exists_takes (hrun : IsRun entry run) (h : InCall run t c i j) {f : σ → σ}
    {J : σ → ρ → Prop} {Q : ρ → Prop} (hc : (entry c).Consults f J Q) {th : Thread σ μ χ κ ρ}
    (ht : (run j).thread t = some th) {r : ρ} (hcode : th.code = .ret r) (hQ : Q r) :
    ∃ n, i < n ∧ n < j ∧ Takes entry run t f n ∧ J (run n).shared r := by
  have := h.consults hrun hc ht
  rw [hcode] at this
  exact this.resolve_left (not_not_intro hQ)

/-! ### A call along a schedule -/

/-- The actions of a schedule, one after the other. -/
def Follows (entry : κ → Prog σ μ χ ρ) (as : List (Action ι κ)) (run : ℕ → Config σ μ χ ι κ ρ) : Prop :=
  ∀ n a, as[n]? = some a → perform entry (run n) a = some (run (n + 1))

/-- A schedule that can be followed is the beginning of a run. -/
theorem exists_run_of_follow {as : List (Action ι κ)} (h : follow entry as cfg = some cfg') :
    ∃ run, IsRun entry run ∧ Follows entry as run ∧ ∀ n, follow entry (as.take n) cfg = some (run n) := by
  induction as generalizing cfg with
  | nil => exact ⟨fun _ => cfg, fun _ => .inl rfl, fun n a ha => by simp at ha, fun n => by simp [follow]⟩
  | cons a as ih =>
    obtain ⟨mid, ha, hf⟩ := Option.bind_eq_some_iff.mp h
    obtain ⟨run, hrun, hfollows, htake⟩ := ih hf
    have hmid : run 0 = mid := by simpa [follow] using (htake 0).symm
    have hfirst : perform entry cfg a = some (run 0) := hmid ▸ ha
    refine ⟨fun k => k.casesOn cfg run, fun k => ?_, fun k b hb => ?_, fun k => ?_⟩
    · cases k with
      | zero => exact .inr ⟨a, hfirst⟩
      | succ k => exact hrun k
    · cases k with
      | zero =>
        cases hb
        exact hfirst
      | succ k => exact hfollows k b (by simpa using hb)
    · cases k with
      | zero => rfl
      | succ k => simpa [follow, ha] using htake k

/-- The call that the action makes. -/
def Action.called : Action ι κ → Option κ
  | .call _ c => some c
  | _ => none

/-- A call that the schedule makes is still going on when no other call was made. The
induction goes backwards in time: only a call makes a thread. -/
theorem Follows.inCall {as : List (Action ι κ)} (h : Follows entry as run)
    (hcall : as[i]? = some (.call t c)) (hlt : i < j) (hlen : j ≤ as.length)
    (hno : ((as.take j).drop (i + 1)).all (·.called.isNone) = true)
    (hj : ((run j).thread t).isSome = true) : InCall run t c i j := by
  obtain ⟨th, hth⟩ := Option.isSome_iff_exists.mp hj
  have hmoves : ∀ {n a}, as[n]? = some a → Moves entry (run n) a (run (n + 1)) := fun ha =>
    moves_of_perform (h _ _ ha)
  have hback : ∀ n, i < n → n ≤ j → ∃ tn, (run n).thread t = some tn ∧ tn.call = th.call := by
    intro n hin hnj
    induction hnj using Nat.decreasingInduction with
    | self => exact ⟨th, hth, rfl⟩
    | of_succ n hnj ih =>
      obtain ⟨tn, htn, hcalln⟩ := ih (by omega)
      have ha : as[n]? = some as[n] := List.getElem?_eq_getElem (by omega)
      have hmem : as[n] ∈ (as.take j).drop (i + 1) := by
        refine List.mem_iff_getElem?.mpr ⟨n - (i + 1), ?_⟩
        rw [List.getElem?_drop, Nat.add_sub_cancel' hin, List.getElem?_take_of_lt (by omega), ha]
      rcases (hmoves ha).thread_cases htn with ⟨-, hcall', -⟩ | ⟨tp, htp, hc, -⟩ | ⟨tp, f, k, htp, hc, -⟩
      · have := List.all_eq_true.mp hno _ hmem
        rw [hcall'] at this
        cases this
      · exact ⟨tp, htp, hc.symm.trans hcalln⟩
      · exact ⟨tp, htp, hc.symm.trans hcalln⟩
  obtain ⟨ti, hti, hci⟩ := hback (i + 1) (Nat.lt_succ_self i) hlt
  have hfirst : (run i).thread t = none ∧ ti.call = c := by
    have hm := hmoves hcall
    generalize run (i + 1) = next at hm hti
    cases hm with
    | call u d hu =>
      rw [Config.put_self, Option.some.injEq] at hti
      exact ⟨hu, by rw [← hti]⟩
  exact ⟨hfirst.1, hlt, fun n hin hnj => (hback n hin hnj).imp fun tn ⟨htn, hc⟩ =>
    ⟨htn, hc.trans (hci.symm.trans hfirst.2)⟩⟩

/-! ### Calls that know when they were made -/

section Recall

variable {κ' : Type} {φ : κ' → κ} {x : Config σ μ χ ι κ' ρ}

def Thread.mapCall (φ : κ' → κ) (th : Thread σ μ χ κ' ρ) : Thread σ μ χ κ ρ :=
  ⟨φ th.call, th.code, th.held, th.blocked⟩

/-- The same with other names for the calls. -/
def Config.mapCall (φ : κ' → κ) (x : Config σ μ χ ι κ' ρ) : Config σ μ χ ι κ ρ :=
  ⟨x.shared, x.owner, fun t => (x.thread t).map (·.mapCall φ), x.history.map (Prod.map φ id)⟩

omit [DecidableEq ι] [DecidableEq μ] [DecidableEq χ] [Fintype ι] in
theorem Thread.mapCall_mk (c : κ') (code : Prog σ μ χ ρ) (held : List μ) (blocked : Bool) :
    Thread.mapCall φ ⟨c, code, held, blocked⟩ = ⟨φ c, code, held, blocked⟩ := rfl

omit [DecidableEq μ] [DecidableEq χ] [Fintype ι] in
theorem map_update {α β : Type} {thread : ι → Option α} {f : α → β} {o : Option α} :
    (fun u => (Function.update thread t o u).map f) =
      Function.update (fun u => (thread u).map f) t (o.map f) :=
  funext fun u => by simp only [Function.update_apply]; split_ifs <;> rfl

omit [DecidableEq μ] [Fintype ι] [DecidableEq ι] in
@[simp] theorem Thread.waitsOn_mapCall (th : Thread σ μ χ κ' ρ) (c : χ) :
    (th.mapCall φ).waitsOn c = th.waitsOn c := rfl

omit [DecidableEq μ] [DecidableEq χ] [Fintype ι] [DecidableEq ι] in
theorem Thread.wake_mapCall (th : Thread σ μ χ κ' ρ) : (th.mapCall φ).wake = th.wake.mapCall φ := by
  obtain ⟨c, code, held, blocked⟩ := th
  cases code <;> rfl

omit [DecidableEq μ] [DecidableEq χ] [Fintype ι] in
theorem Config.mapCall_put (th : Thread σ μ χ κ' ρ) :
    (x.put t th).mapCall φ = (x.mapCall φ).put t (th.mapCall φ) := by
  simp [Config.mapCall, Config.put, map_update]

theorem runThread_mapCall (th : Thread σ μ χ κ' ρ) :
    runThread (x.mapCall φ) t (th.mapCall φ) = (runThread x t th).map (·.mapCall φ) := by
  obtain ⟨c, code, held, blocked⟩ := th
  cases code with
  | ret r => simp [runThread, Thread.mapCall, Config.mapCall, map_update]
  | act f k => simp [runThread, Thread.mapCall, Config.mapCall, Config.put, map_update]
  | lock m k =>
    by_cases hm : x.owner m = none <;>
      simp [runThread, Thread.mapCall, Config.mapCall, Config.put, map_update, hm]
  | unlock m k =>
    by_cases hm : x.owner m = some t <;>
      simp [runThread, Thread.mapCall, Config.mapCall, Config.put, map_update, hm]
  | wait d m timed ready k =>
    by_cases hr : ready x.shared = true <;> by_cases hm : x.owner m = some t <;>
      simp [runThread, Thread.mapCall, Config.mapCall, Config.put, map_update, hr, hm]
  | notifyOne d k =>
    have hn : (∀ u, ((x.mapCall φ).thread u).all (!·.waitsOn d)) ↔ ∀ u, (x.thread u).all (!·.waitsOn d) := by
      simp [Config.mapCall, Option.all_map]
    by_cases h : ∀ u, (x.thread u).all (!·.waitsOn d)
    · simp only [runThread, Thread.mapCall, if_pos h, if_pos (hn.mpr h)]
      simp [Config.mapCall, Config.put, map_update, Thread.mapCall]
    · simp only [runThread, Thread.mapCall, if_neg h, if_neg (mt hn.mp h), Option.map_none]

theorem perform_run_mapCall (entry' : κ' → Prog σ μ χ ρ) (u : ι) : perform entry (x.mapCall φ) (.run u) =
    (perform entry' x (.run u)).map (·.mapCall φ) := by
  cases hu : x.thread u with
  | none => simp [perform, hu, Config.mapCall]
  | some th =>
    have hu' : (x.mapCall φ).thread u = some (th.mapCall φ) := by simp [Config.mapCall, hu]
    simp only [perform, hu, hu', runThread_mapCall]
    cases hb : th.blocked <;> simp [Thread.mapCall, hb]

/-- Only calls depend on what the entries are. -/
theorem perform_mapCall (entry' : κ' → Prog σ μ χ ρ) {a : Action ι κ} (ha : ∀ u d, a ≠ .call u d) :
    ∃ a' : Action ι κ', (∀ u d, a' ≠ .call u d) ∧
      perform entry (x.mapCall φ) a = (perform entry' x a').map (·.mapCall φ) := by
  cases a with
  | call u d => exact absurd rfl (ha u d)
  | run u => exact ⟨.run u, by simp, perform_run_mapCall entry' u⟩
  | notify u v =>
    refine ⟨.notify u v, by simp, ?_⟩
    cases hu : x.thread u with
    | none => simp [perform, hu, Config.mapCall]
    | some th =>
      cases hv : x.thread v with
      | none => simp [perform, hu, hv, Config.mapCall]
      | some tv =>
        have hu' : (x.mapCall φ).thread u = some (th.mapCall φ) := by simp [Config.mapCall, hu]
        have hv' : (x.mapCall φ).thread v = some (tv.mapCall φ) := by simp [Config.mapCall, hv]
        obtain ⟨c, code, held, blocked⟩ := th
        simp only [perform, hu, hv, hu', hv']
        cases code with
        | notifyOne d k =>
          cases hw : tv.waitsOn d <;> cases blocked <;>
            simp [Thread.mapCall_mk, hw, Config.mapCall_put, Thread.wake_mapCall]
        | _ => rfl
  | wake u =>
    refine ⟨.wake u, by simp, ?_⟩
    cases hu : x.thread u with
    | none => simp [perform, hu, Config.mapCall]
    | some th =>
      have hu' : (x.mapCall φ).thread u = some (th.mapCall φ) := by simp [Config.mapCall, hu]
      simp only [perform, hu, hu', Thread.wake_mapCall]
      cases hb : th.blocked <;> simp [Thread.mapCall, hb, Config.mapCall_put]
  | timeout u =>
    refine ⟨.timeout u, by simp, ?_⟩
    cases hu : x.thread u with
    | none => simp [perform, hu, Config.mapCall]
    | some th =>
      have hu' : (x.mapCall φ).thread u = some (th.mapCall φ) := by simp [Config.mapCall, hu]
      obtain ⟨c, code, held, blocked⟩ := th
      simp only [perform, hu, hu']
      cases code with
      | wait d m timed ready k =>
        cases timed <;> cases blocked <;> simp [Thread.mapCall, Config.mapCall_put]
      | _ => rfl

end Recall

section Annotated

variable {τ : Type} {ok : κ × τ → σ → Bool} {r₀ : ρ} {note : σ → τ} {s : σ}

/-- A call with a note goes ahead when the note is right. -/
def annotated (entry : κ → Prog σ μ χ ρ) (ok : κ × τ → σ → Bool) (r₀ : ρ) (k : κ × τ) : Prog σ μ χ ρ :=
  .act id fun s => if ok k s then entry k.1 else .ret r₀

/-- The calls of a run can have taken note of the state in which they were made. -/
structure Annotates (run : ℕ → Config σ μ χ ι κ ρ) (note : σ → τ) (n : ℕ)
    (x : Config σ μ χ ι (κ × τ) ρ) : Prop where
  mapCall : x.mapCall Prod.fst = run n
  call : ∀ t c i, InCall run t c i n → ∃ th, x.thread t = some th ∧ th.call = (c, note (run i).shared)

omit [Fintype ι] in
theorem Moves.call_eq {a : Action ι κ} (hm : Moves entry cfg a cfg') (ha : ∀ u d, a ≠ .call u d) {t : ι}
    {th th' : Thread σ μ χ κ ρ} (ht : cfg.thread t = some th) (ht' : cfg'.thread t = some th') :
    th'.call = th.call := by
  rcases hm.thread_cases ht' with ⟨-, rfl, -⟩ | ⟨tp, htp, hcall, -⟩ | ⟨tp, f, k, htp, hcall, -⟩
  · exact absurd rfl (ha t _)
  · rw [hcall, Option.some.inj (ht.symm.trans htp)]
  · rw [hcall, Option.some.inj (ht.symm.trans htp)]

/-- A call is noted as it is made. -/
theorem annotated_call {x : Config σ μ χ ι (κ × τ) ρ} {u : ι} {d : κ} (hu : x.thread u = none)
    (hok : ok (d, note x.shared) x.shared = true) :
    Reaches (annotated entry ok r₀) x (x.put u ⟨(d, note x.shared), entry d, [], false⟩) := by
  refine .tail (.single ⟨.call u (d, note x.shared), by simp only [perform, hu]; rfl⟩) ⟨.run u, ?_⟩
  simp [perform, runThread, annotated, hok, Config.put]

/-- A call is made, with a note of the state. -/
theorem Annotates.called {n : ℕ} {x : Config σ μ χ ι (κ × τ) ρ} (h : Annotates run note n x) {u : ι} {d : κ}
    (hok : ∀ s, ok (d, note s) s = true) (hu : (run n).thread u = none)
    (hnext : run (n + 1) = (run n).put u ⟨d, entry d, [], false⟩) :
    ∃ x', Reaches (annotated entry ok r₀) x x' ∧ Annotates run note (n + 1) x' := by
  have hshared : x.shared = (run n).shared := congrArg Config.shared h.mapCall
  have hux : x.thread u = none := by
    rw [← h.mapCall] at hu
    exact Option.map_eq_none_iff.mp hu
  refine ⟨_, annotated_call hux (hok x.shared), ?_, fun t c i hin => ?_⟩
  · rw [Config.mapCall_put, h.mapCall, hnext, Thread.mapCall_mk]
  · by_cases htu : t = u
    · subst htu
      obtain rfl := hin.eq_of_idle hu
      obtain ⟨th, hth, rfl⟩ := hin.busy (i + 1) (Nat.lt_succ_self i) le_rfl
      rw [hnext, Config.put_self, Option.some.injEq] at hth
      exact ⟨_, Config.put_self .., by rw [← hth, ← hshared]⟩
    · obtain ⟨th, hth, -⟩ := hin.busy (n + 1) hin.lt le_rfl
      rw [hnext, Config.put_of_ne _ _ htu] at hth
      rw [Config.put_of_ne _ _ htu]
      exact h.call t c i (hin.before hth)

/-- A thread goes on in a call, which keeps its note. -/
theorem Annotates.goes {n : ℕ} {x : Config σ μ χ ι (κ × τ) ρ} (h : Annotates run note n x) {a : Action ι κ}
    (hcall : ∀ u d, a ≠ .call u d) (ha : perform entry (run n) a = some (run (n + 1))) :
    ∃ x', Reaches (annotated entry ok r₀) x x' ∧ Annotates run note (n + 1) x' := by
  obtain ⟨a', ha', hperform⟩ := perform_mapCall (annotated entry ok r₀) hcall
  rw [h.mapCall, ha] at hperform
  obtain ⟨x', hx', hmap⟩ := Option.map_eq_some_iff.mp hperform.symm
  refine ⟨x', .single ⟨a', hx'⟩, hmap, fun t c i hin => ?_⟩
  obtain ⟨th, hth, -⟩ := hin.busy (n + 1) hin.lt le_rfl
  obtain ⟨tp, htp⟩ : ∃ tp, (run n).thread t = some tp := by
    rcases (moves_of_perform ha).thread_cases hth with ⟨-, rfl, -⟩ | ⟨tp, htp, -⟩ | ⟨tp, f, k, htp, -⟩
    · exact absurd rfl (hcall _ _)
    · exact ⟨tp, htp⟩
    · exact ⟨tp, htp⟩
  obtain ⟨tx, htx, htc⟩ := h.call t c i (hin.before htp)
  rw [← hmap] at hth
  obtain ⟨tx', htx', -⟩ := Option.map_eq_some_iff.mp hth
  exact ⟨tx', htx', ((moves_of_perform hx').call_eq ha' htx htx').trans htc⟩

/-- The step lemma. -/
theorem Annotates.step (hok : ∀ n t th, (run n).thread t = some th → ∀ s, ok (th.call, note s) s = true)
    {n : ℕ} {x : Config σ μ χ ι (κ × τ) ρ} (h : Annotates run note n x)
    (hs : Step entry (run n) (run (n + 1))) :
    ∃ x', Reaches (annotated entry ok r₀) x x' ∧ Annotates run note (n + 1) x' := by
  obtain ⟨a, ha⟩ := hs
  by_cases hcall : ∃ u d, a = .call u d
  · obtain ⟨u, d, rfl⟩ := hcall
    obtain ⟨hu, hnext⟩ : (run n).thread u = none ∧ run (n + 1) = (run n).put u ⟨d, entry d, [], false⟩ := by
      have hm := moves_of_perform ha
      generalize run (n + 1) = next at hm
      cases hm with
      | call u d hu => exact ⟨hu, rfl⟩
    refine h.called (fun s => ?_) hu hnext
    exact hok (n + 1) u ⟨d, entry d, [], false⟩ (by rw [hnext, Config.put_self]) s
  · exact h.goes (fun u d he => hcall ⟨u, d, he⟩) ha

end Annotated

end Thread

end Concurrency
