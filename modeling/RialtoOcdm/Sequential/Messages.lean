import RialtoOcdm.Sequential.Clients

/-! Broadcasting is as good as sending to one. Whatever happens to the other sessions
and wherever they are in memory, a session is told by messages what it would be told
if it were alone with the messages for its own key session. -/

namespace RialtoOcdm

open Concurrency Rialto OpenCDMSessionPrivate

variable {R : Type}

/-- Each client of the dispatcher has a key session id of its own. -/
def World.DistinctIds (w : World R) (sys : SystemId) : Prop :=
  ∀ (a b : Addr) o o', a ∈ w.clients sys → b ∈ w.clients sys → w.heap[a]? = some o →
    w.heap[b]? = some o' → o.session.rialtoSessionId = o'.session.rialtoSessionId → a = b

/-- Whose message it is. -/
theorem Consistent.hears {w : World R} (h : Consistent w) {sys : SystemId} {message : Message} {n : ℕ}
    (hx : (w.alone n).Hears sys message) : ∃ (a : Addr) (o : Object), w.heap[a]? = some o ∧
      o.serial = n ∧ a ∈ w.clients sys ∧ o.session.rialtoSessionId = message.keySessionId := by
  by_cases hlive : ∃ (a : Addr) (o : Object), w.heap[a]? = some o ∧ o.serial = n
  · obtain ⟨a, o, ho, rfl⟩ := hlive
    exact ⟨a, o, ho, rfl, ((h.object a o ho).hears_iff sys message).mp hx⟩
  · have hl := (h.gone n fun a o ho hs => hlive ⟨a, o, ho, hs⟩).1
    exact absurd hx.2 (by simp [hl])

/-- Where the ids are distinct, a message is an input of one session at most. -/
theorem Consistent.eq_of_inputs_ne {w : World R} (h : Consistent w) {sys : SystemId}
    (hd : w.DistinctIds sys) {message : Message} {n m : ℕ}
    (hn : inputs n (.delivered sys message :: story w.journal) ≠ inputs n (story w.journal))
    (hm : inputs m (.delivered sys message :: story w.journal) ≠ inputs m (story w.journal)) : n = m := by
  have hears : ∀ n, inputs n (.delivered sys message :: story w.journal) ≠ inputs n (story w.journal) →
      (w.alone n).Hears sys message :=
    fun n hn => by_contra fun hx => hn (inputs_delivered_of_not_hears hx)
  obtain ⟨a, o, ho, rfl, ha, hid⟩ := h.hears (hears n hn)
  obtain ⟨b, o', ho', rfl, hb, hid'⟩ := h.hears (hears m hm)
  have hab := hd a b o o' ha hb ho ho' (hid.trans hid'.symm)
  subst hab
  rw [ho, Option.some.injEq] at ho'
  rw [ho']

/-- What a session has been told is what it would have been told alone. -/
theorem Consistent.told_alone {w : World R} (h : Consistent w) {a : Addr} {o : Object}
    (ho : w.heap[a]? = some o) :
    o.session.challengeData = (alone (inputs o.serial (story w.journal))).challenge ∧
      o.session.keyStatuses = (alone (inputs o.serial (story w.journal))).keyStatuses := by
  have hdata := (h.object a o ho).data
  exact ⟨(congrArg Prod.fst hdata).symm, (congrArg Prod.snd hdata).symm⟩

theorem Consistent.inputs_delivered {w : World R} (h : Consistent w) {a : Addr} {o : Object}
    (ho : w.heap[a]? = some o) (sys : SystemId) (message : Message) :
    inputs o.serial (.delivered sys message :: story w.journal) =
      if a ∈ w.clients sys ∧ o.session.rialtoSessionId = message.keySessionId then
        .received message :: inputs o.serial (story w.journal)
      else inputs o.serial (story w.journal) := by
  have hx := (h.object a o ho).hears_iff sys message
  rw [World.alone] at hx
  simp only [inputs, Alone.input, hx]
  split_ifs <;> rfl

variable [MediaKeys R]

/-- In every state of a sequential run:

* the challenge, the key statuses and the callbacks of a session are those of the
  session by itself, run on its own inputs;
* a message that is delivered becomes part of the story, once; it is an input of the
  sessions that are clients under the key session id of the message and of no others,
  so of one at most if the ids of the clients are distinct;
* two sessions with the same inputs, be they in the same process or not, with others
  or alone, and at whatever addresses, have been told the same;
* the close of a session becomes part of the story if and only if it is answered with
  true. -/
theorem told_as_if_alone {x : Run (World R) Mutex Condition Reply} (hx : Reachable x) :
    (∀ (a : Addr) o, x.shared.heap[a]? = some o →
      o.session.challengeData = (alone (inputs o.serial (story x.shared.journal))).challenge ∧
      o.session.keyStatuses = (alone (inputs o.serial (story x.shared.journal))).keyStatuses) ∧
    (∀ n, callbacksOf n x.shared.journal = (alone (inputs n (story x.shared.journal))).callbacks) ∧
    (∀ sys message lookups, ∃ w',
      (MessageDispatcher.deliver (mediaKeysClient (lookUp lookups)) sys message).exec [] x.shared =
        .done () w' ∧ Consistent w' ∧
        story w'.journal = .delivered sys message :: story x.shared.journal) ∧
    (∀ (a : Addr) o, x.shared.heap[a]? = some o → ∀ sys message,
      inputs o.serial (.delivered sys message :: story x.shared.journal) =
        if a ∈ x.shared.clients sys ∧ o.session.rialtoSessionId = message.keySessionId then
          .received message :: inputs o.serial (story x.shared.journal)
        else inputs o.serial (story x.shared.journal)) ∧
    (∀ sys, x.shared.DistinctIds sys → ∀ message n m,
      inputs n (.delivered sys message :: story x.shared.journal) ≠ inputs n (story x.shared.journal) →
      inputs m (.delivered sys message :: story x.shared.journal) ≠ inputs m (story x.shared.journal) →
      n = m) ∧
    (∀ y : Run (World R) Mutex Condition Reply, Reachable y → ∀ n m,
      inputs n (story x.shared.journal) = inputs m (story y.shared.journal) →
        callbacksOf n x.shared.journal = callbacksOf m y.shared.journal ∧
        ∀ (a b : Addr) o o', x.shared.heap[a]? = some o → y.shared.heap[b]? = some o' →
          o.serial = n → o'.serial = m → o.session.challengeData = o'.session.challengeData ∧
            o.session.keyStatuses = o'.session.keyStatuses) ∧
    (∀ (a : Addr) o, x.shared.heap[a]? = some o →
      ∃ ok w', (closeSession a).exec [] x.shared = .done ok w' ∧ Consistent w' ∧
        story w'.journal = if ok then .closed o.serial :: story x.shared.journal else story x.shared.journal) := by
  have h := hx.consistent
  refine ⟨fun a o ho => h.told_alone ho, h.callbacks, fun sys message lookups => ?_,
    fun a o ho => h.inputs_delivered ho, fun sys hd message n m hn hm => h.eq_of_inputs_ne hd hn hm,
    fun y hy n m he => ⟨?_, fun a b o o' ho ho' hs hs' => ?_⟩, fun a o ho => h.closes ho⟩
  · have hdeliver : (MessageDispatcher.deliver (mediaKeysClient (lookUp lookups)) sys message).Ensures
        (fun _ => False) [] (fun _ w' => Consistent w' ∧
          story w'.journal = .delivered sys message :: story x.shared.journal) x.shared :=
      deliver_ensures h fun a c => lookUp_hushed (by simp) lookups a c
    obtain ⟨_, w', he, hw'⟩ := hdeliver.returns
    exact ⟨w', he, hw'⟩
  · rw [h.callbacks n, hy.consistent.callbacks m, World.alone, he, World.alone]
  · subst hs hs'
    obtain ⟨hc, hk⟩ := h.told_alone ho
    obtain ⟨hc', hk'⟩ := hy.consistent.told_alone ho'
    rw [hc, hk, hc', hk', he]
    exact ⟨rfl, rfl⟩

/-- Each of two sessions has made the callbacks for the status it was told, and the first one
has made none since it was closed. -/
theorem told_as_if_alone_sample :
    callbacksOf 1 two.shared.journal = [.keysUpdated 5, .keyUpdate 5 [1] 1] ∧
    callbacksOf 2 two.shared.journal = [.keysUpdated 6, .keyUpdate 6 [1] 1] := by
  obtain ⟨-, hcallbacks, -⟩ := told_as_if_alone two_reachable
  exact ⟨(hcallbacks 1).trans (by decide), (hcallbacks 2).trans (by decide)⟩

end RialtoOcdm
