import RialtoOcdm.Library.MessageDispatcher
import Mathlib.Data.List.Count

/-! The handles of a dispatcher. A handle adds its client when it is made and removes it
when it is destroyed, and the dispatcher keeps a set. So a client with two handles is
removed by the first one that is destroyed, and hears nothing though it has another. -/

namespace RialtoOcdm.MessageDispatcher

open Concurrency Prog Rialto

/-- What the clients were told, in order. -/
abbrev Told := List (Addr × Message)

/-- Clients that write down what they are told, in the place of Rialto's state. -/
def tell (client : Addr) (message : Message) : Code Told Unit :=
  .modify fun w => { w with rialto := w.rialto ++ [(client, message)] }

def listener : MediaKeysClient Told where
  onLicenseRequest client keySessionId licenseRequestMessage url :=
    tell client (.licenseRequest keySessionId licenseRequestMessage url)
  onLicenseRenewal client keySessionId licenseRenewalMessage :=
    tell client (.licenseRenewal keySessionId licenseRenewalMessage)
  onKeyStatusesChanged client keySessionId keyStatuses :=
    tell client (.keyStatusesChanged keySessionId keyStatuses)

/-- A process, and the handles that are alive in it. -/
structure Holding where
  world : World Told
  handles : List MessageDispatcherClient

/-- What is done with the dispatchers. -/
inductive Use
  | create (sys : SystemId) (client : Addr)
  | destroy (handle : MessageDispatcherClient)
  | deliver (sys : SystemId) (message : Message)

/-- A handle is destroyed once. Two handles of one client are as good as each other. -/
def Use.perform (x : Holding) : Use → Option Holding
  | .create sys client =>
    match (createClient sys client).exec [] x.world with
    | .done handle w => some ⟨w, handle :: x.handles⟩
    | _ => none
  | .destroy handle =>
    if handle ∈ x.handles then
      match (destroyClient handle).exec [] x.world with
      | .done _ w => some ⟨w, x.handles.erase handle⟩
      | _ => none
    else none
  | .deliver sys message =>
    match (MessageDispatcher.deliver listener sys message).exec [] x.world with
    | .done _ w => some ⟨w, x.handles⟩
    | _ => none

/-- The last thing that was done with a handle of this client was to make it. The use made
last is in front. -/
def LastMade (handle : MessageDispatcherClient) : List Use → Prop
  | [] => False
  | .create sys client :: uses => handle = ⟨sys, client⟩ ∨ LastMade handle uses
  | .destroy other :: uses => handle ≠ other ∧ LastMade handle uses
  | .deliver .. :: uses => LastMade handle uses

/-- What the uses come to, from dispatchers without clients. -/
inductive Reached (keySystem : SystemId → String) (mediaKeysFactory : SystemId → Bool) :
    List Use → Holding → Prop
  | start : Reached keySystem mediaKeysFactory [] ⟨.start [] keySystem mediaKeysFactory, []⟩
  | use {uses x y} (use : Use) (h : Reached keySystem mediaKeysFactory uses x)
      (hp : use.perform x = some y) : Reached keySystem mediaKeysFactory (use :: uses) y

variable {keySystem : SystemId → String} {mediaKeysFactory : SystemId → Bool} {uses : List Use}
  {x y : Holding} {sys : SystemId} {client : Addr} {handle : MessageDispatcherClient} {message : Message}

/-! ### What a use does -/

theorem perform_create (h : (Use.create sys client).perform x = some y) :
    y = ⟨x.world.updateClients sys (·.insert client), ⟨sys, client⟩ :: x.handles⟩ :=
  (Option.some.inj h).symm

theorem perform_destroy (h : (Use.destroy handle).perform x = some y) : handle ∈ x.handles ∧
    y = ⟨x.world.updateClients handle.dispatcher (·.erase handle.client), x.handles.erase handle⟩ := by
  simp only [Use.perform, Option.ite_none_right_eq_some] at h
  exact ⟨h.1, (Option.some.inj h.2).symm⟩

theorem forEachClient_tells {I : World Told → Prop} {w : World Told} :
    (forEachClient sys message fun client => tell client message).Ensures I [] (fun _ w' =>
      w'.clients = w.clients ∧
        w'.rialto = w.rialto ++ (w.clients sys).toList.map fun client => (client, message)) w := by
  refine .withLock (by simp) (.bind (ensures_update.mpr ?_))
  refine (Ensures.forM (J := fun rest w' => w'.clients = w.clients ∧
    w'.rialto ++ rest.map (fun client => (client, message)) =
      w.rialto ++ (w.clients sys).toList.map fun client => (client, message)) ?_ ⟨rfl, rfl⟩).mono ?_
  · rintro client rest w' - ⟨hclients, hrialto⟩
    refine ensures_modify.mpr ⟨hclients, ?_⟩
    simp only [← hrialto, List.map_cons, List.append_assoc, List.singleton_append]
  · rintro _ w' ⟨hclients, hrialto⟩
    exact ⟨hclients, by simpa using hrialto⟩

/-- Every client in the set is told, once. -/
theorem perform_deliver (x : Holding) (sys : SystemId) (message : Message) : ∃ w : World Told,
    (Use.deliver sys message).perform x = some ⟨w, x.handles⟩ ∧ w.clients = x.world.clients ∧
      w.rialto = x.world.rialto ++ (x.world.clients sys).toList.map fun client => (client, message) := by
  have htells : (MessageDispatcher.deliver listener sys message).Ensures (fun _ => False) [] (fun _ w =>
      w.clients = x.world.clients ∧ w.rialto =
        x.world.rialto ++ (x.world.clients sys).toList.map fun client => (client, message)) x.world := by
    cases message <;> exact forEachClient_tells
  obtain ⟨_, w, he, hclients, hrialto⟩ := htells.returns
  exact ⟨w, by rw [Use.perform, he], hclients, hrialto⟩

/-! ### The set and the handles -/

/-- The clients in the set are those whose last handle was made last. -/
theorem Reached.mem_clients_iff (h : Reached keySystem mediaKeysFactory uses x) (sys : SystemId)
    (client : Addr) : client ∈ x.world.clients sys ↔ LastMade ⟨sys, client⟩ uses := by
  induction h with
  | start => simp [World.start, LastMade]
  | use use h hp ih =>
    cases use with
    | create sys' client' =>
      rw [perform_create hp, LastMade, ← ih, MessageDispatcherClient.mk.injEq]
      by_cases hs : sys = sys'
      · subst hs
        simp [Std.ExtTreeSet.mem_insert, eq_comm (a := client)]
      · simp [hs]
    | destroy handle =>
      obtain ⟨sys', client'⟩ := handle
      rw [(perform_destroy hp).2, LastMade, ← ih, ne_eq, MessageDispatcherClient.mk.injEq]
      by_cases hs : sys = sys'
      · subst hs
        simp [Std.ExtTreeSet.mem_erase, eq_comm (a := client)]
      · simp [hs]
    | deliver sys' message =>
      obtain ⟨w, hw, hclients, -⟩ := perform_deliver _ sys' message
      rw [hp, Option.some.injEq] at hw
      rw [hw, hclients]
      exact ih

/-- A handle that was made last is alive. -/
theorem Reached.mem_handles (h : Reached keySystem mediaKeysFactory uses x)
    (hmade : LastMade handle uses) : handle ∈ x.handles := by
  induction h with
  | start => exact hmade.elim
  | use use h hp ih =>
    cases use with
    | create sys' client' =>
      rw [perform_create hp]
      exact hmade.elim (fun he => he ▸ List.mem_cons_self) fun hmade => List.mem_cons_of_mem _ (ih hmade)
    | destroy other =>
      rw [(perform_destroy hp).2]
      exact (List.mem_erase_of_ne hmade.1).mpr (ih hmade.2)
    | deliver sys' message =>
      obtain ⟨w, hw, -⟩ := perform_deliver _ sys' message
      rw [hp, Option.some.injEq] at hw
      exact hw ▸ ih hmade

/-- The message goes to this client once if it has a handle, and not at all if it has none. -/
def Forwards (x : Holding) (sys : SystemId) (message : Message) (client : Addr) : Prop :=
  ∃ y told, (Use.deliver sys message).perform x = some y ∧ y.world.rialto = x.world.rialto ++ told ∧
    ∀ m, told.count (client, m) = if m = message ∧ ⟨sys, client⟩ ∈ x.handles then 1 else 0

/-- How often a client is told a message. -/
theorem count_told (clients : List Addr) (hnodup : clients.Nodup) (client : Addr) (message m : Message) :
    (clients.map fun client => (client, message)).count (client, m) =
      if m = message ∧ client ∈ clients then 1 else 0 := by
  by_cases hm : m = message
  · subst hm
    have hinjective : Function.Injective fun client : Addr => (client, m) := fun _ _ he => (Prod.mk.inj he).1
    rw [List.count_map_of_injective _ _ hinjective, hnodup.count]
    simp only [true_and]
  · rw [if_neg fun h => hm h.1, List.count_eq_zero]
    simp [Ne.symm hm]

/-- After any uses of the dispatchers, in any order: a message goes once to a client with a
handle, and not at all to one with none, if and only if no handle of a client that has one
was destroyed since its last one was made. -/
theorem forwards_iff (h : Reached keySystem mediaKeysFactory uses x) (sys : SystemId)
    (message : Message) (client : Addr) : Forwards x sys message client ↔
      (⟨sys, client⟩ ∈ x.handles → LastMade ⟨sys, client⟩ uses) := by
  obtain ⟨w, hw, -, hrialto⟩ := perform_deliver x sys message
  have hnodup : (x.world.clients sys).toList.Nodup :=
    Std.ExtTreeSet.distinct_toList.imp fun hne he => hne (Std.compare_eq_iff_eq.mpr he)
  have hcount : ∀ m, ((x.world.clients sys).toList.map fun client => (client, message)).count
      (client, m) = if m = message ∧ client ∈ x.world.clients sys then 1 else 0 := fun m => by
    simp only [count_told _ hnodup, Std.ExtTreeSet.mem_toList]
  constructor
  · rintro ⟨y, told, hy, htold, hforwards⟩ hclient
    obtain rfl : y = ⟨w, x.handles⟩ := Option.some.inj (hy.symm.trans hw)
    obtain rfl := List.append_cancel_left (htold.symm.trans hrialto)
    have htwo := (hcount message).symm.trans (hforwards message)
    by_contra hnot
    rw [if_neg fun hin => hnot ((h.mem_clients_iff sys client).mp hin.2), if_pos ⟨rfl, hclient⟩] at htwo
    cases htwo
  · intro hlast
    refine ⟨_, _, hw, hrialto, fun m => ?_⟩
    have hiff : client ∈ x.world.clients sys ↔ ⟨sys, client⟩ ∈ x.handles :=
      ⟨fun hin => h.mem_handles ((h.mem_clients_iff sys client).mp hin),
        fun hin => (h.mem_clients_iff sys client).mpr (hlast hin)⟩
    simp only [hcount, hiff]

/-- A handle is destroyed, then another one is made. -/
theorem forwards_iff_remade : ∃ x, Reached (fun _ => "widevine") (fun _ => true)
    [.create 0 7, .destroy ⟨0, 7⟩, .create 0 7] x ∧ Forwards x 0 (.licenseRenewal 1 [2]) 7 := by
  have h : Reached (fun _ => "widevine") (fun _ => true) [.create 0 7, .destroy ⟨0, 7⟩, .create 0 7] _ :=
    ((Reached.start.use (.create 0 7) rfl).use (.destroy ⟨0, 7⟩) rfl).use (.create 0 7) rfl
  exact ⟨_, h, (forwards_iff h 0 _ 7).mpr fun _ => .inl rfl⟩

/-- A handle is replaced by another one for the same client: the new one is made, then the
old one is destroyed, and the client hears nothing. -/
theorem replaced_unheard : ¬ ∀ uses x, Reached (fun _ => "widevine") (fun _ => true) uses x →
    ∀ sys message client, Forwards x sys message client := by
  intro h
  have hr : Reached (fun _ => "widevine") (fun _ => true) [.destroy ⟨0, 7⟩, .create 0 7, .create 0 7] _ :=
    ((Reached.start.use (.create 0 7) rfl).use (.create 0 7) rfl).use (.destroy ⟨0, 7⟩) rfl
  obtain ⟨y, told, hy, htold, hforwards⟩ := h _ _ hr 0 (.licenseRenewal 1 [2]) 7
  obtain ⟨w, hw, -, hrialto⟩ := perform_deliver _ 0 (.licenseRenewal 1 [2])
  obtain rfl := Option.some.inj (hy.symm.trans hw)
  have hcount := hforwards (.licenseRenewal 1 [2])
  obtain rfl := List.append_cancel_left (htold.symm.trans hrialto)
  rw [if_pos ⟨rfl, by decide⟩, List.count_eq_zero.mpr (by simp)] at hcount
  cases hcount

end RialtoOcdm.MessageDispatcher
