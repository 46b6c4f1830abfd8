import RialtoOcdm.Concurrency.LockOrder
import Mathlib.Data.DFinsupp.WellFounded
import Mathlib.Data.Prod.Lex
import Mathlib.Data.Set.Finite.Lemmas
import Mathlib.Order.PiLex
import Mathlib.SetTheory.Ordinal.Family

/-! Calls that come to an end. Without new calls, and with no wake-up but by a signal, no
threads go on for ever. Where their code gives back what it takes, holds nothing else while
it waits, and asks for mutexes in the order of their ranks, they never block each other
for good: once nothing can happen each of them has returned or waits for a signal with no
limit of time. -/

namespace Concurrency

variable {σ μ χ ι κ ρ α β : Type}

/-- How code uses mutexes and condition variables: what it asks for while it holds others,
and what it waits for, for how long and with which test. -/
structure Usage (σ μ χ : Type) where
  asks : List μ → μ → Prop
  waits : χ → Bool → (σ → Bool) → Prop

namespace Prog

/-- The program, holding `held`, uses no more than that, and then `Q` holds of what it
returns and holds. -/
def Abides (U : Usage σ μ χ) : Prog σ μ χ α → (α → List μ → Prop) → List μ → Prop
  | ret a, Q, held => Q a held
  | act _ k, Q, held => ∀ s, (k s).Abides U Q held
  | lock m k, Q, held => U.asks held m ∧ k.Abides U Q (m :: held)
  | unlock m k, Q, held => ∃ rest, held = m :: rest ∧ k.Abides U Q rest
  | wait c m timed ready k, Q, held =>
    held = [m] ∧ U.asks [] m ∧ U.waits c timed ready ∧ k.Abides U Q held
  | notifyOne _ k, Q, held => k.Abides U Q held

/-- It gives back the mutexes it takes. -/
def Decent (U : Usage σ μ χ) (held : List μ) (p : Prog σ μ χ α) : Prop :=
  p.Abides U (fun _ held' => held' = held) held

variable {U : Usage σ μ χ} {p : Prog σ μ χ α} {Q Q' : α → List μ → Prop} {held : List μ} {m : μ}

theorem Abides.mono (h : p.Abides U Q held) (hQ : ∀ a held, Q a held → Q' a held) :
    p.Abides U Q' held := by
  induction p generalizing held with
  | ret a => exact hQ a held h
  | act f k ih =>
    intro s
    exact ih s (h s)
  | lock m k ih => exact ⟨h.1, ih h.2⟩
  | unlock m k ih =>
    obtain ⟨rest, he, hk⟩ := h
    exact ⟨rest, he, ih hk⟩
  | wait c m timed ready k ih =>
    obtain ⟨he, hm, hw, hk⟩ := h
    exact ⟨he, hm, hw, ih hk⟩
  | notifyOne c k ih => exact ih h

/-- Sequencing. -/
theorem Abides.bind {g : α → Prog σ μ χ β} {Q : β → List μ → Prop}
    (h : p.Abides U (fun a held => (g a).Abides U Q held) held) : (p >>= g).Abides U Q held := by
  induction p generalizing held with
  | ret a => exact h
  | act f k ih =>
    intro s
    exact ih s (h s)
  | lock m k ih => exact ⟨h.1, ih h.2⟩
  | unlock m k ih =>
    obtain ⟨rest, he, hk⟩ := h
    exact ⟨rest, he, ih hk⟩
  | wait c m timed ready k ih =>
    obtain ⟨he, hm, hw, hk⟩ := h
    exact ⟨he, hm, hw, ih hk⟩
  | notifyOne c k ih => exact ih h

namespace Decent

theorem ret (a : α) : (ret a : Prog σ μ χ α).Decent U held := rfl

theorem bind {g : α → Prog σ μ χ β} (hp : p.Decent U held) (hg : ∀ a, (g a).Decent U held) :
    (p >>= g).Decent U held :=
  Abides.bind (hp.mono fun a held' (he : held' = held) => by rw [he]; exact hg a)

theorem act {f : σ → σ} {k : σ → Prog σ μ χ α} (hk : ∀ s, (k s).Decent U held) :
    (act f k).Decent U held := hk

theorem update {f : σ → β × σ} : (update f : Prog σ μ χ β).Decent U held := fun _ => rfl

theorem modify {f : σ → σ} : (modify f : Prog σ μ χ Unit).Decent U held := fun _ => rfl

theorem read : (read : Prog σ μ χ σ).Decent U held := fun _ => rfl

theorem signal {c : χ} : (signal c : Prog σ μ χ Unit).Decent U held := rfl

theorem withLock (hm : U.asks held m) (hp : p.Decent U (m :: held)) : (withLock m p).Decent U held :=
  ⟨hm, Abides.bind (hp.mono fun _ _ he => ⟨held, he, rfl⟩)⟩

theorem forM {l : List β} {f : β → Prog σ μ χ PUnit} (hf : ∀ b, (f b).Decent U held) :
    (l.forM f).Decent U held := by
  induction l with
  | nil => exact ret _
  | cons b l ih => exact (hf b).bind fun _ => ih

/-- A wait, timed or not. -/
theorem wait {c : χ} {timed : Bool} {ready : σ → Bool} (hm : U.asks [] m) (hw : U.waits c timed ready) :
    (.wait c m timed ready (.ret ()) : Prog σ μ χ Unit).Decent U [m] := ⟨rfl, hm, hw, rfl⟩

end Decent

end Prog

/-! ### Threads -/

/-- What is known of a thread. A blocked one holds nothing and gets its mutex back. -/
def Thread.Abides (U : κ → Usage σ μ χ) (th : Thread σ μ χ κ ρ) : Prop :=
  if th.blocked then th.held = [] ∧ ∃ c m timed ready k, th.code = .wait c m timed ready k ∧
    th.code.Abides (U th.call) (fun _ held => held = []) [m]
  else th.code.Abides (U th.call) (fun _ held => held = []) th.held

theorem Thread.abides_of_running {U : κ → Usage σ μ χ} {th : Thread σ μ χ κ ρ} (hb : th.blocked = false) :
    th.Abides U ↔ th.code.Abides (U th.call) (fun _ held => held = []) th.held := by
  simp [Thread.Abides, hb]

/-- A thread that runs goes on. -/
theorem Thread.abides_of_code {U : κ → Usage σ μ χ} {th : Thread σ μ χ κ ρ} (hb : th.blocked = false)
    {code : Prog σ μ χ ρ} {held : List μ} (h : code.Abides (U th.call) (fun _ held => held = []) held) :
    Thread.Abides U { th with code := code, held := held } := by
  simpa [Thread.Abides, hb] using h

/-- The invariant of the machine. -/
structure Orderly (U : κ → Usage σ μ χ) (cfg : Config σ μ χ ι κ ρ) : Prop where
  owner : ∀ m t, cfg.owner m = some t ↔ ∃ th, cfg.thread t = some th ∧ m ∈ th.held
  nodup : ∀ t th, cfg.thread t = some th → th.held.Nodup
  code : ∀ t th, cfg.thread t = some th → th.Abides U

variable {U : κ → Usage σ μ χ} {entry : κ → Prog σ μ χ ρ} {cfg cfg' : Config σ μ χ ι κ ρ}
  {th th' : Thread σ μ χ κ ρ} {t : ι}

theorem Orderly.idle (s : σ) : Orderly U (.idle s [] : Config σ μ χ ι κ ρ) where
  owner m t := by simp [Config.idle]
  nodup t th ht := by cases ht
  code t th ht := by cases ht

theorem Orderly.running (h : Orderly U cfg) (ht : cfg.thread t = some th) (hb : th.blocked = false)
    {p : Prog σ μ χ ρ} (hcode : th.code = p) :
    p.Abides (U th.call) (fun _ held => held = []) th.held :=
  hcode ▸ (Thread.abides_of_running hb).mp (h.code t th ht)

section Steps

variable [DecidableEq ι]

/-- Thread `t` goes on as `x`, and the mutexes go with it. -/
theorem Orderly.update (h : Orderly U cfg) {x : Option (Thread σ μ χ κ ρ)}
    (hx : cfg'.thread = Function.update cfg.thread t x)
    (hothers : ∀ m u, u ≠ t → (cfg'.owner m = some u ↔ cfg.owner m = some u))
    (hself : ∀ m, cfg'.owner m = some t ↔ ∃ th, x = some th ∧ m ∈ th.held)
    (hn : ∀ th, x = some th → th.held.Nodup) (hcode : ∀ th, x = some th → th.Abides U) :
    Orderly U cfg' where
  owner m u := by
    by_cases hu : u = t
    · subst hu
      rw [hx, Function.update_self]
      exact hself m
    · rw [hothers m u hu, hx, Function.update_of_ne hu]
      exact h.owner m u
  nodup u tu hu := by
    rw [hx] at hu
    rcases Config.update_eq_some hu with ⟨-, he⟩ | ⟨-, hu⟩
    · exact hn tu he
    · exact h.nodup u tu hu
  code u tu hu := by
    rw [hx] at hu
    rcases Config.update_eq_some hu with ⟨-, he⟩ | ⟨-, hu⟩
    · exact hcode tu he
    · exact h.code u tu hu

/-- A thread goes on with what it holds. -/
theorem Orderly.put (h : Orderly U cfg) (ht : cfg.thread t = some th) (hheld : th'.held = th.held)
    (hcode : th'.Abides U) : Orderly U (cfg.put t th') := by
  refine h.update (x := some th') rfl (fun _ _ _ => Iff.rfl) (fun m => ?_) ?_ ?_
  · simp [h.owner, ht, hheld]
  · rintro _ ⟨⟩
    exact hheld ▸ h.nodup t th ht
  · rintro _ ⟨⟩
    exact hcode

variable [DecidableEq μ] {m : μ}

/-- A thread takes a free mutex. -/
theorem Orderly.take (h : Orderly U cfg) (ht : cfg.thread t = some th) (hm : cfg.owner m = none)
    (hheld : th'.held = m :: th.held) (hcode : th'.Abides U) :
    Orderly U { cfg.put t th' with owner := Function.update cfg.owner m (some t) } := by
  have hnone : ∀ u, cfg.owner m ≠ some u := by simp [hm]
  refine h.update (x := some th') rfl (fun m' u hu => ?_) (fun m' => ?_) ?_ ?_
  · by_cases he : m' = m
    · subst he
      simp [hnone, Ne.symm hu]
    · simp [he]
  · by_cases he : m' = m
    · subst he
      simp [hheld]
    · simp [he, h.owner, ht, hheld]
  · rintro _ ⟨⟩
    rw [hheld, List.nodup_cons]
    exact ⟨fun hmem => hnone t ((h.owner m t).mpr ⟨th, ht, hmem⟩), h.nodup t th ht⟩
  · rintro _ ⟨⟩
    exact hcode

/-- A thread gives up the mutex it took last. -/
theorem Orderly.give (h : Orderly U cfg) (ht : cfg.thread t = some th) (hheld : th.held = m :: th'.held)
    (hcode : th'.Abides U) :
    Orderly U { cfg.put t th' with owner := Function.update cfg.owner m none } := by
  have hn := h.nodup t th ht
  rw [hheld, List.nodup_cons] at hn
  have hown : cfg.owner m = some t := (h.owner m t).mpr ⟨th, ht, by simp [hheld]⟩
  refine h.update (x := some th') rfl (fun m' u hu => ?_) (fun m' => ?_) ?_ ?_
  · by_cases he : m' = m
    · subst he
      simp [hown, Ne.symm hu]
    · simp [he]
  · by_cases he : m' = m
    · subst he
      simp [hn.1]
    · simp [he, h.owner, ht, hheld]
  · rintro _ ⟨⟩
    exact hn.2
  · rintro _ ⟨⟩
    exact hcode

omit [DecidableEq μ] in
theorem Orderly.wake (h : Orderly U cfg) (ht : cfg.thread t = some th) (hb : th.blocked = true) :
    Orderly U (cfg.put t th.wake) := by
  have hc := h.code t th ht
  rw [Thread.Abides, if_pos hb] at hc
  obtain ⟨hheld, c, m, timed, ready, k, hcode, hk⟩ := hc
  apply h.put ht (by simp [Thread.wake, hcode])
  rw [Thread.abides_of_running (by simp [Thread.wake, hcode])]
  rw [hcode] at hk
  simpa [Thread.wake, hcode, hheld] using ⟨hk.2.1, hk⟩

/-- The step lemma. -/
theorem Orderly.step [DecidableEq χ] (hentry : ∀ c, (entry c).Decent (U c) []) (h : Orderly U cfg)
    {a : Action ι κ} (hm : Moves entry cfg a cfg') : Orderly U cfg' := by
  cases hm with
  | call t c ht =>
    refine h.update (t := t) (x := some ⟨c, entry c, [], false⟩) rfl (fun _ _ _ => Iff.rfl) (fun m => ?_) ?_ ?_
    · simp [h.owner, ht]
    · rintro _ ⟨⟩
      exact List.nodup_nil
    · rintro _ ⟨⟩
      exact (Thread.abides_of_running rfl).mpr (hentry c)
  | @ret t th r ht hb hcode =>
    have hheld : th.held = [] := h.running ht hb hcode
    refine h.update (t := t) (x := none) rfl (fun _ _ _ => Iff.rfl) (fun m => ?_) (by nofun) (by nofun)
    simp [h.owner, ht, hheld]
  | @act t th f k ht hb hcode =>
    have hput : Orderly U (cfg.put t { th with code := k cfg.shared }) :=
      h.put ht rfl (Thread.abides_of_code hb (h.running ht hb hcode cfg.shared))
    exact ⟨hput.owner, hput.nodup, hput.code⟩
  | lock ht hb hcode hm =>
    exact h.take ht hm rfl (Thread.abides_of_code hb (h.running ht hb hcode).2)
  | @unlock t th m k ht hb hcode hm =>
    obtain ⟨rest, hheld, hk⟩ := h.running ht hb hcode
    refine h.give ht (by simp [hheld]) (Thread.abides_of_code hb ?_)
    simpa [hheld] using hk
  | goOn ht hb hcode hr =>
    obtain ⟨-, -, -, hk⟩ := h.running ht hb hcode
    exact h.put ht rfl (Thread.abides_of_code hb hk)
  | @block t th c m timed ready k ht hb hcode hr hm =>
    have hw := h.running ht hb hcode
    have hheld := hw.1
    apply h.give ht (by simp [hheld])
    rw [Thread.Abides, if_pos rfl]
    exact ⟨by simp [hheld], c, m, timed, ready, k, hcode, by rw [hcode]; exact hheld ▸ hw⟩
  | notifyNobody ht hb hcode hn =>
    have hk := h.running ht hb hcode
    exact h.put ht rfl (Thread.abides_of_code hb hk)
  | @notify t u th tu c k ht hb hcode hu hw =>
    have hk := h.running ht hb hcode
    have hput : Orderly U (cfg.put t { th with code := k }) :=
      h.put ht rfl (Thread.abides_of_code hb hk)
    refine hput.wake ?_ (Thread.blocked_of_waitsOn hw).1
    rw [Config.put_of_ne _ _ (Thread.ne_of_waitsOn ht hb hu hw)]
    exact hu
  | wake ht hb => exact h.wake ht hb
  | @timeout t th c m ready k ht hb hcode =>
    have hc := h.code t th ht
    rw [Thread.Abides, if_pos hb] at hc
    obtain ⟨hheld, c', m', timed', ready', k', hcode', hk⟩ := hc
    rw [hcode] at hcode' hk
    cases hcode'
    refine h.put ht rfl ((Thread.abides_of_running rfl).mpr ?_)
    rw [hheld]
    exact ⟨hk.2.1, hk.2.2.2⟩

end Steps

/-! ### How far a thread has to go -/

section Load

/-- How much code is left. To ask for a mutex counts for nothing, so that a thread that is
woken has no more to do than before. -/
noncomputable def Prog.height : Prog σ μ χ α → Ordinal.{0}
  | .ret _ => 0
  | .act _ k => ⨆ s, Order.succ (k s).height
  | .lock _ k => k.height
  | .unlock _ k => Order.succ k.height
  | .wait _ _ _ _ k => Order.succ k.height
  | .notifyOne _ k => Order.succ k.height

/-- How many mutexes the program asks for before it does something else. -/
def Prog.requests : Prog σ μ χ α → ℕ
  | .lock _ k => k.requests + 1
  | .wait .. => 1
  | _ => 0

theorem Prog.height_lt_act {f : σ → σ} {k : σ → Prog σ μ χ α} (s : σ) :
    (k s).height < (Prog.act f k).height :=
  (Order.lt_succ _).trans_le (Ordinal.le_iSup (fun s => Order.succ (k s).height) s)

/-- Nothing, where there is no thread. -/
noncomputable def heightOf (x : Option (Thread σ μ χ κ ρ)) : WithBot Ordinal.{0} :=
  x.elim ⊥ fun th => (th.code.height : WithBot Ordinal.{0})

def requestsOf (x : Option (Thread σ μ χ κ ρ)) : ℕ :=
  x.elim 0 fun th => if th.blocked then 0 else th.code.requests

/-- What the threads have to do. It is less in the one case if some thread has less code
left, in the other if some thread has less to ask for. -/
noncomputable def Config.load (cfg : Config σ μ χ ι κ ρ) : (ι → WithBot Ordinal.{0}) ×ₗ (ι → ℕ) :=
  toLex (fun t => heightOf (cfg.thread t), fun t => requestsOf (cfg.thread t))

theorem Config.load_lt (hothers : ∀ u, u ≠ t → heightOf (cfg'.thread u) = heightOf (cfg.thread u))
    (hself : heightOf (cfg'.thread t) < heightOf (cfg.thread t)) : cfg'.load < cfg.load := by
  refine Prod.Lex.toLex_lt_toLex.mpr (.inl (Pi.lt_def.mpr ⟨fun u => ?_, t, hself⟩))
  by_cases hu : u = t
  · subst hu
    exact hself.le
  · exact (hothers u hu).le

theorem Config.load_lt_of_requests (hheight : ∀ u, heightOf (cfg'.thread u) = heightOf (cfg.thread u))
    (hothers : ∀ u, u ≠ t → requestsOf (cfg'.thread u) = requestsOf (cfg.thread u))
    (hself : requestsOf (cfg'.thread t) < requestsOf (cfg.thread t)) : cfg'.load < cfg.load := by
  refine Prod.Lex.toLex_lt_toLex.mpr (.inr ⟨funext hheight, Pi.lt_def.mpr ⟨fun u => ?_, t, hself⟩⟩)
  by_cases hu : u = t
  · subst hu
    exact hself.le
  · exact (hothers u hu).le

variable [DecidableEq ι]

/-- A thread that has less code left, or returns. -/
theorem Config.load_lt_of_update {x : Option (Thread σ μ χ κ ρ)} (ht : cfg.thread t = some th)
    (hx : cfg'.thread = Function.update cfg.thread t x)
    (hlt : ∀ th', x = some th' → th'.code.height < th.code.height) : cfg'.load < cfg.load := by
  refine Config.load_lt (t := t) (fun u hu => by rw [hx, Function.update_of_ne hu]) ?_
  rw [hx, Function.update_self, ht]
  cases x with
  | none => exact WithBot.bot_lt_coe _
  | some th' => exact WithBot.coe_lt_coe.mpr (hlt th' rfl)

/-- A thread that asks for less. -/
theorem Config.load_lt_of_asks (ht : cfg.thread t = some th)
    (hx : cfg'.thread = Function.update cfg.thread t (some th')) (hheight : th'.code.height = th.code.height)
    (hlt : requestsOf (some th') < requestsOf (some th)) : cfg'.load < cfg.load := by
  refine Config.load_lt_of_requests (t := t) (fun u => ?_)
    (fun u hu => by rw [hx, Function.update_of_ne hu]) (by rwa [hx, Function.update_self, ht])
  by_cases hu : u = t
  · subst hu
    rw [hx, Function.update_self, ht]
    exact congrArg WithBot.some hheight
  · rw [hx, Function.update_of_ne hu]

theorem Thread.heightOf_wake (th : Thread σ μ χ κ ρ) : heightOf (some th.wake) = heightOf (some th) := by
  unfold Thread.wake
  split
  · next hcode => simp [heightOf, Prog.height]
  · rfl

end Load

/-! ### Going on -/

/-- The action is no new call, and no wake-up without a signal. -/
def Action.Due : Action ι κ → Prop
  | .call .. => False
  | .wake _ => False
  | _ => True

instance : (a : Action ι κ) → Decidable a.Due
  | .call .. => inferInstanceAs (Decidable False)
  | .run _ => inferInstanceAs (Decidable True)
  | .notify .. => inferInstanceAs (Decidable True)
  | .wake _ => inferInstanceAs (Decidable False)
  | .timeout _ => inferInstanceAs (Decidable True)

section GoingOn

variable [DecidableEq ι] [DecidableEq μ] [DecidableEq χ]

/-- Whatever is due leaves the threads less to do. -/
theorem Config.load_lt_of_moves {a : Action ι κ} (ha : a.Due) (hm : Moves entry cfg a cfg') :
    cfg'.load < cfg.load := by
  cases hm with
  | call t c ht => exact ha.elim
  | wake ht hb => exact ha.elim
  | ret ht hb hcode => exact Config.load_lt_of_update ht rfl (by simp)
  | act ht hb hcode =>
    apply Config.load_lt_of_update ht rfl
    rintro _ ⟨⟩
    rw [hcode]
    exact Prog.height_lt_act cfg.shared
  | lock ht hb hcode hm =>
    apply Config.load_lt_of_asks ht rfl (by simp [hcode, Prog.height])
    simp [requestsOf, hb, hcode, Prog.requests]
  | block ht hb hcode hr hm =>
    exact Config.load_lt_of_asks ht rfl (by simp [hcode]) (by simp [requestsOf, hb, hcode, Prog.requests])
  | unlock ht hb hcode hm | goOn ht hb hcode hr | notifyNobody ht hb hcode hn | timeout ht hb hcode =>
    apply Config.load_lt_of_update ht rfl
    rintro _ ⟨⟩
    rw [hcode]
    exact Order.lt_succ _
  | @notify t u th tu c k ht hb hcode hu hw =>
    -- one that waits is woken, which leaves that one as much to do as before
    have hut : u ≠ t := Thread.ne_of_waitsOn ht hb hu hw
    refine Config.load_lt (t := t) (fun v hv => ?_) ?_
    · by_cases hvu : v = u
      · subst hvu
        rw [Config.put_self, Thread.heightOf_wake, hu]
      · rw [Config.put_of_ne _ _ hvu, Config.put_of_ne _ _ hv]
    · rw [Config.put_of_ne _ _ hut.symm, Config.put_self, ht]
      apply WithBot.coe_lt_coe.mpr
      rw [hcode]
      exact Order.lt_succ _

variable [Fintype ι]

/-- One step that is due. -/
def Proceeds (entry : κ → Prog σ μ χ ρ) (cfg cfg' : Config σ μ χ ι κ ρ) : Prop :=
  ∃ a : Action ι κ, a.Due ∧ perform entry cfg a = some cfg'

/-- Any number of them. -/
def GoesOn (entry : κ → Prog σ μ χ ρ) : Config σ μ χ ι κ ρ → Config σ μ χ ι κ ρ → Prop :=
  Relation.ReflTransGen (Proceeds entry)

/-- Nothing is due. -/
def AtRest (entry : κ → Prog σ μ χ ρ) (cfg : Config σ μ χ ι κ ρ) : Prop :=
  ∀ a : Action ι κ, a.Due → perform entry cfg a = none

instance (cfg : Config σ μ χ ι κ ρ) : Decidable (AtRest entry cfg) :=
  decidable_of_iff (∀ t, (perform entry cfg (.run t)).isNone ∧ (perform entry cfg (.timeout t)).isNone ∧
    ∀ u, (perform entry cfg (.notify t u)).isNone) <| by
  simp only [Option.isNone_iff_eq_none, AtRest]
  constructor
  · rintro h (⟨⟩ | t | ⟨t, u⟩ | ⟨⟩ | t) ha
    · exact ha.elim
    · exact (h t).1
    · exact (h t).2.2 u
    · exact ha.elim
    · exact (h t).2.1
  · intro h t
    exact ⟨h (.run t) trivial, h (.timeout t) trivial, fun u => h (.notify t u) trivial⟩

/-- Nothing goes on for ever. -/
theorem not_proceeds_forever (run : ℕ → Config σ μ χ ι κ ρ) :
    ¬ ∀ n, Proceeds entry (run n) (run (n + 1)) := by
  intro h
  refine not_strictAnti_of_wellFoundedLT (fun n => (run n).load) (strictAnti_nat_of_succ_lt fun n => ?_)
  obtain ⟨a, ha, hp⟩ := h n
  exact Config.load_lt_of_moves ha (moves_of_perform hp)

omit [Fintype ι] in
/-- The calls that threads are in are those they were in. -/
theorem call_of_moves {a : Action ι κ} (ha : a.Due) (hm : Moves entry cfg a cfg')
    {u : ι} {tu : Thread σ μ χ κ ρ} (hu : cfg'.thread u = some tu) :
    ∃ th, cfg.thread u = some th ∧ th.call = tu.call := by
  have hput : ∀ {t : ι} {th th' : Thread σ μ χ κ ρ}, cfg.thread t = some th →
      Function.update cfg.thread t (some th') u = some tu → th'.call = th.call →
      ∃ th, cfg.thread u = some th ∧ th.call = tu.call := by
    intro t th th' ht hu hcall
    rcases Config.update_eq_some hu with ⟨rfl, he⟩ | ⟨-, hu⟩
    · cases he
      exact ⟨th, ht, hcall.symm⟩
    · exact ⟨tu, hu, rfl⟩
  cases hm with
  | call t c ht => exact ha.elim
  | wake ht hb => exact ha.elim
  | ret ht hb hcode => exact ⟨tu, Config.thread_of_remove hu, rfl⟩
  | act ht | lock ht | unlock ht | goOn ht | block ht | notifyNobody ht | timeout ht =>
    exact hput ht hu rfl
  | @notify t v th tv c k ht hb hcode hv hw =>
    rcases Config.update_eq_some hu with ⟨rfl, he⟩ | ⟨-, hu⟩
    · cases he
      exact ⟨tv, hv, tv.wake_call.symm⟩
    · exact hput ht hu rfl

/-- The run lemma. -/
theorem Orderly.reaches (hentry : ∀ c, (entry c).Decent (U c) []) (h : Orderly U cfg)
    (hr : Reaches entry cfg cfg') : Orderly U cfg' := by
  induction hr with
  | refl => exact h
  | tail _ hstep ih =>
    obtain ⟨a, hp⟩ := hstep
    exact ih.step hentry (moves_of_perform hp)

theorem GoesOn.reaches (hr : GoesOn entry cfg cfg') : Reaches entry cfg cfg' :=
  Relation.ReflTransGen.mono (fun _ _ ⟨a, _, hp⟩ => ⟨a, hp⟩) _ _ hr

theorem goesOn_of_follow {as : List (Action ι κ)} (has : ∀ a ∈ as, a.Due)
    (h : follow entry as cfg = some cfg') : GoesOn entry cfg cfg' := by
  induction as generalizing cfg with
  | nil => cases h; exact .refl
  | cons a as ih =>
    obtain ⟨mid, hp, hf⟩ := Option.bind_eq_some_iff.mp h
    exact .head ⟨a, has a List.mem_cons_self, hp⟩ (ih (fun b hb => has b (List.mem_cons_of_mem a hb)) hf)

theorem GoesOn.call (hr : GoesOn entry cfg cfg') {u : ι} {tu : Thread σ μ χ κ ρ}
    (hu : cfg'.thread u = some tu) : ∃ th, cfg.thread u = some th ∧ th.call = tu.call := by
  induction hr generalizing tu with
  | refl => exact ⟨tu, hu, rfl⟩
  | tail _ hstep ih =>
    obtain ⟨a, ha, hp⟩ := hstep
    obtain ⟨tv, hv, hc⟩ := call_of_moves ha (moves_of_perform hp) hu
    obtain ⟨th, ht, hc'⟩ := ih hv
    exact ⟨th, ht, hc'.trans hc⟩

theorem AtRest.not_runs (h : AtRest entry cfg) (ht : cfg.thread t = some th) (hb : th.blocked = false) :
    runThread cfg t th = none := by
  simpa [perform, ht, hb] using h (.run t) trivial

/-- A thread that is not blocked, where nothing is due, wants a mutex that is taken. -/
theorem Orderly.wants (h : Orderly U cfg) (hrest : AtRest entry cfg) (ht : cfg.thread t = some th)
    (hb : th.blocked = false) : ∃ m u, th.wanted = some m ∧ cfg.owner m = some u := by
  have hrun := hrest.not_runs ht hb
  cases hcode : th.code with
  | ret r => simp [runThread, hcode] at hrun
  | act f k => simp [runThread, hcode] at hrun
  | lock m k =>
    cases hm : cfg.owner m with
    | some u => exact ⟨m, u, by simp [Thread.wanted, hcode, hb], hm⟩
    | none => simp [runThread, hcode, hm] at hrun
  | unlock m k =>
    obtain ⟨rest, hheld, -⟩ := h.running ht hb hcode
    have hm : cfg.owner m = some t := (h.owner m t).mpr ⟨th, ht, by simp [hheld]⟩
    simp [runThread, hcode, hm] at hrun
  | wait c m timed ready k =>
    obtain ⟨hheld, -⟩ := h.running ht hb hcode
    have hm : cfg.owner m = some t := (h.owner m t).mpr ⟨th, ht, by simp [hheld]⟩
    cases hr : ready cfg.shared <;> simp [runThread, hcode, hr, hm] at hrun
  | notifyOne c k =>
    -- somebody waits, who could be woken
    have hn : ¬ ∀ u, (cfg.thread u).all (!·.waitsOn c) := fun hn => by simp [runThread, hcode, hn] at hrun
    obtain ⟨u, tu, hu, hw⟩ : ∃ u tu, cfg.thread u = some tu ∧ tu.waitsOn c = true := by
      simpa [Option.all_eq_true] using hn
    have hnotify := hrest (.notify t u) trivial
    simp [perform, ht, hu, hcode, hb, hw] at hnotify

omit [Fintype ι] [DecidableEq ι] [DecidableEq μ] [DecidableEq χ] in
theorem Orderly.blocked (h : Orderly U cfg) (ht : cfg.thread t = some th) (hb : th.blocked = true) :
    th.held = [] ∧ ∃ c m timed ready k, th.code = .wait c m timed ready k ∧
      (U th.call).waits c timed ready := by
  have hc := h.code t th ht
  rw [Thread.Abides, if_pos hb] at hc
  obtain ⟨hheld, c, m, timed, ready, k, hcode, hk⟩ := hc
  rw [hcode] at hk
  exact ⟨hheld, c, m, timed, ready, k, hcode, hk.2.2.1⟩

/-- If the calls that threads are in ask for mutexes in the order of their ranks, then all
are blocked where nothing is due: of those who are not, the one whose mutex ranks highest
would find it free. -/
theorem Orderly.all_blocked (h : Orderly U cfg) (rank : μ → ℕ)
    (hrank : ∀ t th, cfg.thread t = some th → ∀ held m, (U th.call).asks held m →
      ∀ l ∈ held, rank l < rank m) (hrest : AtRest entry cfg) (ht : cfg.thread t = some th) :
    th.blocked = true := by
  by_contra hb
  let wants (t : ι) : ℕ := ((cfg.thread t).bind Thread.wanted).elim 0 rank
  obtain ⟨u, ⟨tu, hu, hbu⟩, hmax⟩ := Set.exists_max_image
    {t | ∃ th, cfg.thread t = some th ∧ th.blocked = false} wants (Set.toFinite _) ⟨t, th, ht, by simpa using hb⟩
  obtain ⟨m, v, hm, hown⟩ := h.wants hrest hu hbu
  obtain ⟨tv, hv, hmv⟩ := (h.owner m v).mp hown
  have hbv : tv.blocked = false := by
    by_contra hbv
    rw [(h.blocked hv (by simpa using hbv)).1] at hmv
    cases hmv
  obtain ⟨m', v', hm', -⟩ := h.wants hrest hv hbv
  -- the owner asks for a mutex of a higher rank
  obtain ⟨-, k, hk⟩ := Thread.wants_of_wanted hm'
  have hlt := hrank v tv hv tv.held m' (h.running hv hbv hk).1 m hmv
  have hle : wants v ≤ wants u := hmax v ⟨tv, hv, hbv⟩
  simp only [wants, hv, hu, Option.bind_some, hm, hm', Option.elim_some] at hle
  omega

/-- So each of them waits with no limit of time. -/
theorem Orderly.waits (h : Orderly U cfg) (rank : μ → ℕ)
    (hrank : ∀ t th, cfg.thread t = some th → ∀ held m, (U th.call).asks held m →
      ∀ l ∈ held, rank l < rank m) (hrest : AtRest entry cfg) (ht : cfg.thread t = some th) :
    ∃ c ready, th.waitsOn c = true ∧ (U th.call).waits c false ready := by
  have hb := h.all_blocked rank hrank hrest ht
  obtain ⟨-, c, m, timed, ready, k, hcode, hwaits⟩ := h.blocked ht hb
  cases timed with
  | false => exact ⟨c, ready, by simp [Thread.waitsOn, hcode, hb], hwaits⟩
  | true =>
    have htimeout := hrest (.timeout t) trivial
    simp [perform, ht, hcode, hb] at htimeout

omit [Fintype ι] [DecidableEq ι] [DecidableEq μ] [DecidableEq χ] in
/-- No mutex is taken then. -/
theorem Orderly.owner_eq_none (h : Orderly U cfg) (hall : ∀ t th, cfg.thread t = some th → th.blocked = true)
    (m : μ) : cfg.owner m = none := by
  apply Option.eq_none_iff_forall_ne_some.mpr
  intro u hu
  obtain ⟨tu, htu, hmem⟩ := (h.owner m u).mp hu
  rw [(h.blocked htu (hall u tu htu)).1] at hmem
  cases hmem

end GoingOn

end Concurrency
