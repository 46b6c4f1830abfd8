import RialtoOcdm.Concurrency.Linearizable
import RialtoOcdm.Dispatcher.Handles

/-! A dispatcher among threads that make handles, destroy them and deliver messages. All
of a delivery is one critical section, in which the clients run. So a client hears what is
delivered while it has a handle, and all clients hear it in the same order. -/

namespace RialtoOcdm.MessageDispatcher

open Concurrency Prog Rialto

variable {R : Type}

/-- What threads do with a dispatcher. -/
inductive Call
  | create (client : Addr)
  | destroy (client : Addr)
  | deliver (message : Message)

def entry (client : MediaKeysClient R) (sys : SystemId) : Call → Code R Unit
  | .create a => do
    let _ ← createClient sys a
  | .destroy a => destroyClient ⟨sys, a⟩
  | .deliver message => deliver client sys message

/-- The clients' code takes no mutex for good, and does not call the dispatcher. -/
structure Callable (client : MediaKeysClient R) (sys : SystemId) : Prop where
  onLicenseRequest : ∀ a id message url,
    (client.onLicenseRequest a id message url).Within [.dispatcher sys]
  onLicenseRenewal : ∀ a id message, (client.onLicenseRenewal a id message).Within [.dispatcher sys]
  onKeyStatusesChanged : ∀ a id keyStatuses,
    (client.onKeyStatusesChanged a id keyStatuses).Within [.dispatcher sys]

theorem forEachClient_monitor {sys : SystemId} {message : Message} {call : Addr → Code R Unit}
    (hcall : ∀ a, (call a).Within [.dispatcher sys]) :
    (forEachClient sys message call).Monitor (.dispatcher sys) :=
  .withLock (.bind (.update (by simp)) fun clients => .forM fun a _ => hcall a)

theorem entry_monitor {client : MediaKeysClient R} {sys : SystemId} (hclient : Callable client sys)
    (c : Call) : (entry client sys c).Monitor (.dispatcher sys) := by
  cases c with
  | create a => exact (Monitor.withLock (.modify (by simp))).answer fun _ => ()
  | destroy a => exact .withLock (.modify (by simp))
  | deliver message =>
    cases message with
    | licenseRequest id message url => exact forEachClient_monitor fun a => hclient.onLicenseRequest a _ _ _
    | licenseRenewal id message => exact forEachClient_monitor fun a => hclient.onLicenseRenewal a _ _
    | keyStatusesChanged id keyStatuses =>
      exact forEachClient_monitor fun a => hclient.onKeyStatusesChanged a _ _

theorem listener_callable (sys : SystemId) : Callable listener sys where
  onLicenseRequest _ _ _ _ := .modify (by simp)
  onLicenseRenewal _ _ _ := .modify (by simp)
  onKeyStatusesChanged _ _ _ := .modify (by simp)

/-! ### What is heard -/

/-- Of what was done with handles of the client the last thing was to make one. What was
done last is in front. -/
def Registered (client : Addr) : List (Call × Unit) → Prop
  | [] => False
  | (.create a, _) :: order => client = a ∨ Registered client order
  | (.destroy a, _) :: order => client ≠ a ∧ Registered client order
  | (.deliver _, _) :: order => Registered client order

instance decidableRegistered (client : Addr) : (order : List (Call × Unit)) →
    Decidable (Registered client order)
  | [] => inferInstanceAs (Decidable False)
  | (.create a, _) :: order =>
    have := decidableRegistered client order
    inferInstanceAs (Decidable (client = a ∨ Registered client order))
  | (.destroy a, _) :: order =>
    have := decidableRegistered client order
    inferInstanceAs (Decidable (client ≠ a ∧ Registered client order))
  | (.deliver _, _) :: order => decidableRegistered client order

/-- The messages that are delivered while the client is registered, in order. -/
def heard (client : Addr) : List (Call × Unit) → List Message
  | [] => []
  | (.deliver message, _) :: order =>
    if Registered client order then heard client order ++ [message] else heard client order
  | (.create _, _) :: order => heard client order
  | (.destroy _, _) :: order => heard client order

/-- What one client was told. -/
def toldTo (client : Addr) (told : Told) : List Message :=
  told.filterMap fun e => if e.1 = client then some e.2 else none

/-- A client in the set is told once. -/
theorem toldTo_map {clients : List Addr} (hnodup : clients.Nodup) (client : Addr) (message : Message) :
    toldTo client (clients.map fun a => (a, message)) = if client ∈ clients then [message] else [] := by
  induction clients with
  | nil => rfl
  | cons a clients ih =>
    obtain ⟨hnot, hnodup⟩ := List.nodup_cons.mp hnodup
    have ih := ih hnodup
    simp only [toldTo] at ih
    by_cases ha : a = client
    · subst ha
      simp [toldTo, ih, hnot]
    · simp [toldTo, ih, ha, Ne.symm ha]

/-- The state that is left by calls one at a time. -/
theorem heard_of_replay {keySystem : SystemId → String} {mediaKeysFactory : SystemId → Bool}
    {sys : SystemId} {order : List (Call × Unit)} {w : World Told}
    (h : Replay (entry listener sys) (.start [] keySystem mediaKeysFactory)
      order w) (client : Addr) :
    (client ∈ w.clients sys ↔ Registered client order) ∧
      toldTo client w.rialto = heard client order := by
  induction order generalizing w with
  | nil =>
    obtain rfl := h
    simp [World.start, Registered, heard, toldTo]
  | cons e order ih =>
    obtain ⟨c, r⟩ := e
    obtain ⟨w', hreplay, he⟩ := h
    obtain ⟨hclients, htold⟩ := ih hreplay
    cases c with
    | create a =>
      obtain ⟨-, rfl⟩ := Outcome.done.inj he.symm
      simpa [Registered, heard, Std.ExtTreeSet.mem_insert, eq_comm (a := a), hclients] using htold
    | destroy a =>
      obtain ⟨-, rfl⟩ := Outcome.done.inj he.symm
      simpa [Registered, heard, Std.ExtTreeSet.mem_erase, eq_comm (a := a), hclients] using htold
    | deliver message =>
      have htells : (MessageDispatcher.deliver listener sys message).Ensures (fun _ => False) []
          (fun _ w => w.clients = w'.clients ∧ w.rialto =
            w'.rialto ++ (w'.clients sys).toList.map fun client => (client, message)) w' := by
        cases message <;> exact forEachClient_tells
      obtain ⟨hsame, hrialto⟩ := htells.done he
      have hnodup : (w'.clients sys).toList.Nodup :=
        Std.ExtTreeSet.distinct_toList.imp fun hne he => hne (Std.compare_eq_iff_eq.mpr he)
      refine ⟨by rw [hsame, hclients, Registered], ?_⟩
      rw [hrialto, toldTo, List.filterMap_append]
      change toldTo client w'.rialto ++ toldTo client _ = _
      rw [toldTo_map hnodup, htold, heard]
      simp only [Std.ExtTreeSet.mem_toList, hclients]
      split_ifs <;> simp

/-! ### All interleavings -/

variable {ι : Type} [DecidableEq ι] [Fintype ι] {keySystem : SystemId → String}
  {mediaKeysFactory : SystemId → Bool} {sys : SystemId}

/-- The order of the calls explains what they did. While nobody is at work the clients are
those whose handles were made and not destroyed last, and each has heard what was delivered
while it was one. -/
structure HeardInOrder (sys : SystemId) (w : World Told)
    (cfg : Config (World Told) Mutex Condition ι Call Unit) (order : List (Call × Unit)) : Prop where
  explains : Explains (entry listener sys) (.dispatcher sys) w cfg order
  clients : cfg.owner (.dispatcher sys) = none →
    ∀ client, client ∈ cfg.shared.clients sys ↔ Registered client order
  heard : cfg.owner (.dispatcher sys) = none →
    ∀ client, toldTo client cfg.shared.rialto = heard client order

omit [DecidableEq ι] [Fintype ι] in
theorem HeardInOrder.of_explains {cfg : Config (World Told) Mutex Condition ι Call Unit}
    {order : List (Call × Unit)} (h : Explains (entry listener sys) (.dispatcher sys)
      (.start [] keySystem mediaKeysFactory) cfg order) :
    HeardInOrder sys (.start [] keySystem mediaKeysFactory) cfg order := by
  obtain ⟨w, hreplay, hw⟩ := h.replay
  refine ⟨h, fun hfree client => ?_, fun hfree client => ?_⟩
  · rw [hw hfree]
    exact (heard_of_replay hreplay client).1
  · rw [hw hfree]
    exact (heard_of_replay hreplay client).2

/-- Threads make handles of a dispatcher, destroy them and deliver messages. Along every run
one order of all that grows. Whatever is called takes its place in it before it returns, and
each client hears exactly the messages that come in this order while it is registered, once
each. -/
theorem clients_hear_in_order (sys : SystemId) (keySystem : SystemId → String)
    (mediaKeysFactory : SystemId → Bool) {run : ℕ → Config (World Told) Mutex Condition ι Call Unit}
    (hrun : IsRun (entry listener sys) run)
    (hstart : run 0 = .idle (.start [] keySystem mediaKeysFactory) []) :
    ∃ order : ℕ → List (Call × Unit),
      (∀ n, HeardInOrder sys (.start [] keySystem mediaKeysFactory) (run n) (order n)) ∧
        ∀ n, order n <:+ order (n + 1) := by
  obtain ⟨order, hexplains, hgrows⟩ :=
    linearizable_of_monitor (entry_monitor (listener_callable sys)) hrun hstart
  exact ⟨order, fun n => .of_explains (hexplains n), hgrows⟩

/-- Thread 0 makes a handle for client 7 while thread 1 delivers a message. Then the handle is
destroyed, and there is another message. -/
def arrival : List (Action (Fin 2) Call) :=
  [.call 0 (.create 7), .call 1 (.deliver (.licenseRenewal 1 [2]))] ++
    List.replicate 4 (.run 0) ++ List.replicate 5 (.run 1) ++
  .call 0 (.destroy 7) :: List.replicate 4 (.run 0) ++
  .call 1 (.deliver (.licenseRenewal 1 [3])) :: List.replicate 4 (.run 1)

def arrivalStart : Config (World Told) Mutex Condition (Fin 2) Call Unit :=
  .idle (.start [] (fun _ => "widevine") fun _ => true) []

/-- The handle is made first, so the client hears the first message, and only that. -/
theorem clients_hear_in_order_arrival :
    ∃ (run : ℕ → Config (World Told) Mutex Condition (Fin 2) Call Unit) (n : ℕ),
      follow (entry listener 0) arrival arrivalStart = some (run n) ∧
      ∃ order : ℕ → List (Call × Unit), heard 7 (order n) = [.licenseRenewal 1 [2]] ∧
        (∀ k, HeardInOrder 0 (.start [] (fun _ => "widevine") fun _ => true) (run k) (order k)) ∧
          ∀ k, order k <:+ order (k + 1) := by
  have hf : (follow (entry listener 0) arrival arrivalStart).map (fun cfg =>
      (cfg.owner (.dispatcher 0), toldTo 7 cfg.shared.rialto)) =
      some (none, [.licenseRenewal 1 [2]]) := by decide
  obtain ⟨cfg, hcfg, he⟩ := Option.map_eq_some_iff.mp hf
  rw [Prod.mk.injEq] at he
  obtain ⟨hfree, htold⟩ := he
  obtain ⟨run, hrun, hstart, n, rfl⟩ := (reaches_of_follow hcfg).exists_run
  obtain ⟨order, hheard, hgrows⟩ :=
    clients_hear_in_order 0 (fun _ => "widevine") (fun _ => true) hrun hstart
  exact ⟨run, n, hcfg, order, ((hheard n).heard hfree 7).symm.trans htold, hheard, hgrows⟩

end RialtoOcdm.MessageDispatcher
