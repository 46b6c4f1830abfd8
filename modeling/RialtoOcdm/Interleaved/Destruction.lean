import RialtoOcdm.Interleaved.Effects
import RialtoOcdm.Interleaved.Entries
import RialtoOcdm.Sequential.Usability

/-! The destruction of sessions while messages are delivered. A session leaves its
dispatcher with its handle, which is destroyed after the members that the handlers of
messages use; only a session without a handle is no client when it is destroyed. -/

namespace RialtoOcdm

open Concurrency Protocol

variable {R ι : Type}

/-- Calls that use no session but in messages, look-ups and destructors. -/
def Call.Ends : Call → Prop
  | .destructSession _ | .getSession _ | .deliver .. | .initializeBackend ..
  | .notifyApplicationState .. => True
  | _ => False

/-- A session that had a handle in `w₀` is destroyed. -/
def Broken (w₀ w : World R) : Prop :=
  ∃ (a : Addr) (o : Object), w₀.heap[a]? = some o ∧ o.session.messageDispatcherClient ≠ none ∧
    .destructing o.serial ∈ w.journal

/-- The clients are clients in `w₀`, and whole as long as no session with a handle is
destroyed. -/
structure Whole (w₀ w : World R) : Prop where
  clients : ∀ sys, ∀ a ∈ w.clients sys, a ∈ w₀.clients sys
  object : ∀ sys, ∀ a ∈ w₀.clients sys, Broken w₀ w ∨ ∃ o₀ o : Object, w₀.heap[a]? = some o₀ ∧
    w.heap[a]? = some o ∧ o.serial = o₀.serial ∧ o.destroyed = []

variable {w₀ w w' : World R}

theorem Broken.mono (h : Broken w₀ w) (hj : w.journal <:+ w'.journal) : Broken w₀ w' := by
  obtain ⟨a, o, ho, hhandle, he⟩ := h
  exact ⟨a, o, ho, hhandle, hj.subset he⟩

theorem Consistent.whole (h : Consistent w₀) : Whole w₀ w₀ where
  clients _ _ := id
  object sys a ha := by
    obtain ⟨o, ho⟩ := World.object_of_mem (h.clients sys a ha)
    exact .inr ⟨o, o, ho, ho, rfl, (h.object a o ho).destroyed⟩

/-- No session is used, and those that are destroyed are no clients. -/
def endRules (w₀ : World R) : Rules R where
  own _ _ := False
  join _ _ := False
  leave _ _ := False
  delete a w := Broken w₀ w ∨ ∀ sys, a ∉ w₀.clients sys
  opened _ _ := True
  granted _ _ _ := True
  backend _ := True

variable [MediaKeys R]

theorem Whole.act {held : List Mutex} (h : Whole w₀ w) (ha : Act (endRules w₀) held w w') :
    Whole w₀ w' := by
  have hj := ha.explains.suffix
  refine ⟨fun sys a hmem => h.clients sys a ?_, fun sys a hmem => ?_⟩
  · rcases ha.clients sys with he | ⟨-, b, ⟨hjoin, -⟩ | he⟩
    · rwa [he] at hmem
    · exact hjoin.elim
    · rw [he] at hmem
      exact Std.ExtTreeSet.mem_of_mem_erase hmem
  · rcases h.object sys a hmem with hb | ⟨o₀, o, ho₀, ho, hserial, hdestroyed⟩
    · exact .inl (hb.mono hj)
    · rcases ha.object ho with ⟨s, hs, -⟩ | ⟨hb | hno, -⟩
      · exact .inr ⟨o₀, _, ho₀, hs, hserial, hdestroyed⟩
      · exact .inl (hb.mono hj)
      · exact absurd hmem (hno sys)

/-- Every step keeps to the rules. -/
def endings (κ : Type) (w₀ : World R) : Protocol (World R) Mutex κ where
  inv := Whole w₀
  free _ _ := True
  may _ held w w' := (∀ sys, .dispatcher sys ∉ held → w'.clients sys = w.clients sys) ∧
    Explains (endRules w₀) held w w'
  request _ _ _ _ := True

variable {κ : Type}

omit [MediaKeys R] in
/-- What the destructor of a session starts with allows the rest of it. -/
theorem Whole.delete (hw₀ : Consistent w₀) (h : Whole w₀ w) (a : Addr) :
    (endRules w₀).delete a (w.record (.destructing (w.serial a))) := by
  by_cases hclient : ∃ sys, a ∈ w₀.clients sys
  · obtain ⟨sys, hsys⟩ := hclient
    refine .inl ?_
    rcases h.object sys a hsys with hb | ⟨o₀, o, ho₀, ho, hserial, -⟩
    · exact hb.mono ⟨[_], rfl⟩
    · have hhandle := ((hw₀.object a o₀ ho₀).clients sys).mp hsys
      refine ⟨a, o₀, ho₀, by simp [hhandle], ?_⟩
      rw [World.serial_of ho, hserial]
      exact List.mem_cons_self
  · exact .inr fun sys hsys => hclient ⟨sys, hsys⟩

theorem endDiscipline (hw₀ : Consistent w₀) (k : κ) :
    Discipline (endings κ w₀) k (endRules w₀) where
  act _ _ _ hi ha := ⟨⟨fun _ => ha.clients_of_not_mem, ha.explains⟩, hi.act ha⟩
  journal _ _ _ _ hm := hm.2.suffix
  clients _ _ _ _ sys hm := hm.1 sys
  request _ _ _ _ := trivial
  free _ _ _ _ := trivial
  own_lasting _ _ _ _ _ _ _ := id
  join_lasting _ _ _ _ _ _ _ := id
  leave_lasting _ _ _ _ _ _ _ := id
  delete_lasting _ _ _ _ _ _ hm := Or.imp_left fun hb => hb.mono hm.2.suffix
  opened_lasting _ := lasting_true
  granted_lasting _ _ := lasting_true
  opened _ _ _ _ := trivial
  granted _ _ _ _ := trivial
  backend _ _ _ _ _ := trivial
  delete _ a hi := hi.delete hw₀ a

/-- The calls that are made while sessions are destroyed. -/
abbrev Ending : Type := {c : Call // c.Ends}

theorem endings_sound (hw₀ : Consistent w₀) :
    Sound (endings Ending w₀) (fun _ _ _ => True) fun c : Ending => (entry c.1 : Code R Reply) where
  free_stable _ _ _ _ _ _ _ _ _ := trivial
  post_stable _ _ _ _ _ _ _ _ _ := trivial
  entry c w hi := by
    have D : Discipline (endings Ending w₀) c (endRules w₀) := endDiscipline hw₀ c
    have hplain : Plain (endings Ending w₀) c [] (entry c.1 : Code R Reply) := by
      obtain ⟨c, hc⟩ := c
      cases c with
      | destructSession session =>
        exact .bind (.bind (D.remove outside_nil session) fun _ => Plain.ret _) fun _ => Plain.ret _
      | getSession keyId =>
        exact .bind (D.getSession inside_true outside_nil.lt_two keyId) fun _ => Plain.ret _
      | deliver sys message lookups =>
        exact .bind (D.deliver outside_nil sys message lookups) fun _ => Plain.ret _
      | initializeBackend sys state =>
        exact .bind (D.initializeBackend outside_nil sys state) fun _ => Plain.ret _
      | notifyApplicationState sys state =>
        exact .bind (D.notifyApplicationState outside_nil sys state) fun _ => Plain.ret _
      | _ => exact hc.elim
    refine (hplain w hi trivial).mono ?_ hi
    rintro r _ w' - ⟨rfl, -, -⟩
    exact ⟨rfl, trivial⟩

/-! ### The handlers of messages -/

variable [DecidableEq ι] [Fintype ι]

/-- All clients of the dispatchers are whole, and no thread that runs uses a member
that is not there; look-ups in the registry apart. -/
structure HandlersSafe (cfg : Config (World R) Mutex Condition ι Ending Reply) : Prop where
  clients : ∀ sys, ∀ a ∈ cfg.shared.clients sys,
    ∃ o, cfg.shared.heap[a]? = some o ∧ o.destroyed = []
  members : ∀ t th cfg', cfg.thread t = some th → .activeSessions ∉ th.held →
    perform (fun c : Ending => entry c.1) cfg (.run t) = some cfg' →
    ∀ a m, .misused a m ∈ cfg'.shared.journal → .misused a m ∈ cfg.shared.journal

/-- The handlers of messages are safe in every run in which no session is destroyed that
had a handle before. -/
theorem handlersSafe {x : Run (World R) Mutex Condition Reply} (hx : Reachable x)
    {cfg : Config (World R) Mutex Condition ι Ending Reply}
    (hr : Reaches (fun c => entry c.1) (.idle x.shared []) cfg)
    (h : ¬ Broken x.shared cfg.shared) : HandlersSafe cfg := by
  have hw₀ := hx.consistent
  have hS := endings_sound hw₀
  have hstart : Good (endings Ending x.shared) (fun _ _ _ => True)
      (.idle x.shared [] : Config (World R) Mutex Condition ι Ending Reply) :=
    .idle hw₀.whole fun _ => trivial
  have hg := hstart.reaches hS hr
  have hwhole : ∀ sys, ∀ a ∈ cfg.shared.clients sys,
      ∃ o, cfg.shared.heap[a]? = some o ∧ o.destroyed = [] := by
    intro sys a ha
    obtain ⟨_, o, -, ho, -, hd⟩ := (hg.inv.object sys a (hg.inv.clients sys a ha)).resolve_left h
    exact ⟨o, ho, hd⟩
  refine ⟨hwhole, fun t th cfg' ht hheld hp a m hm => ?_⟩
  obtain ⟨th', ht', he | ⟨-, new, hj, hnew⟩⟩ := hg.run hS hp
  · rwa [he] at hm
  · rw [ht, Option.some.injEq] at ht'
    subst ht'
    rw [hj] at hm
    apply (List.mem_append.mp hm).resolve_left
    intro hm
    -- whoever uses the member delivers to the session, so it is there
    obtain ⟨hno, (hown | ⟨sys, -, hclient⟩ | hlooks) | hjoin | hleave⟩ := hnew _ hm
    · exact hown
    · obtain ⟨o, ho, hd⟩ := hwhole sys a hclient
      simp [World.has, ho, hd] at hno
    · exact hheld hlooks
    · exact hjoin
    · exact hleave

/-- One thread destroys the session at 7, and as soon as the first of its members is gone
another one delivers a message. -/
def destroying (steps : ℕ) : List (Action (Fin 2) Ending) :=
  .call 0 ⟨.destructSession (some 7), trivial⟩ :: List.replicate 5 (.run 0) ++
  .call 1 ⟨.deliver 0 (.keyStatusesChanged 7 [([1], .usable)]) fun _ _ => [], trivial⟩ ::
    List.replicate steps (.run 1)

/-- The session was closed before. -/
theorem handlersSafe_closed : ∃ cfg : Config (World Compliant) Mutex Condition (Fin 2) Ending Reply,
    follow (fun c : Ending => entry c.1) (destroying 4) (.idle closedSample.shared []) = some cfg ∧
      HandlersSafe cfg := by
  have hf : (follow (fun c : Ending => entry c.1) (destroying 4)
      (.idle closedSample.shared [])).map (fun cfg => cfg.shared.journal.all fun
        | .destructing n => n == 1
        | _ => true) = some true := by decide
  have hs : (closedSample.shared.heap[7]?).map (fun o =>
      (o.serial, o.session.messageDispatcherClient)) = some (1, none) := by decide
  obtain ⟨cfg, hcfg, hj⟩ := Option.map_eq_some_iff.mp hf
  obtain ⟨o, ho, he⟩ := Option.map_eq_some_iff.mp hs
  obtain ⟨hserial, hhandle⟩ := Prod.mk.inj he
  have hx : Reachable closedSample := ⟨_, _, _, Run.reaches_of_callAll (Option.some_get closed_runs).symm⟩
  refine ⟨cfg, hcfg, handlersSafe hx (reaches_of_follow hcfg) ?_⟩
  rintro ⟨a, o', ho', hhandle', hd⟩
  have hserial' : o'.serial = 1 := by simpa using List.all_eq_true.mp hj _ hd
  obtain rfl := hx.consistent.distinct a 7 o' o ho' ho (hserial'.trans hserial.symm)
  rw [ho, Option.some.injEq] at ho'
  exact hhandle' (ho' ▸ hhandle)

/-- The session has a handle: it is still a client, and its handler uses the member. -/
theorem handler_misuses :
    ¬ ∀ (x : Run (World Compliant) Mutex Condition Reply)
        (cfg : Config (World Compliant) Mutex Condition (Fin 2) Ending Reply), Reachable x →
      Reaches (fun c => entry c.1) (.idle x.shared []) cfg → HandlersSafe cfg := by
  intro h
  have hf : ((follow (fun c : Ending => entry c.1) (destroying 4) (.idle sample.shared [])).bind
      fun cfg => (perform (fun c : Ending => entry c.1) cfg (.run 1)).bind fun cfg' =>
        (cfg.thread 1).map fun th => (decide (.activeSessions ∈ th.held),
          decide (.misused 7 .keyStatuses ∈ cfg.shared.journal),
          decide (.misused 7 .keyStatuses ∈ cfg'.shared.journal))) = some (false, false, true) := by
    decide
  obtain ⟨cfg, hcfg, hf⟩ := Option.bind_eq_some_iff.mp hf
  obtain ⟨cfg', hp, hf⟩ := Option.bind_eq_some_iff.mp hf
  obtain ⟨th, ht, he⟩ := Option.map_eq_some_iff.mp hf
  simp only [Prod.mk.injEq, decide_eq_false_iff_not, decide_eq_true_eq] at he
  obtain ⟨hheld, hbefore, hafter⟩ := he
  have hsafe := h sample cfg sample_reachable (reaches_of_follow hcfg)
  exact hbefore (hsafe.members 1 th cfg' ht hheld hp 7 _ hafter)

end RialtoOcdm
