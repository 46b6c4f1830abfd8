import RialtoOcdm.Sequential.Registration
import Mathlib.Data.Set.Insert

/-! A message goes to all clients of a dispatcher, one after the other, and sessions
stay consistent: in the loop those whose turn is over have received it as the session
by itself has, if it is theirs, and the others are as they were. -/

namespace RialtoOcdm

open Concurrency Prog OpenCDMSessionPrivate Rialto

variable {R : Type} {I : World R → Prop} {w w' : World R} {a : Addr} {x : Alone}
  {app : Application R} {sys : SystemId} {held : List Mutex}

/-! ### One client -/

/-- The session at `a` has been told what `x` has. -/
structure Told (a : Addr) (x : Alone) (w : World R) (o : Object) : Prop where
  object : w.heap[a]? = some o
  destroyed : o.destroyed = []
  table : x.table = o.session.callbacks
  context : x.context = o.session.context
  data : (x.challenge, x.keyStatuses) = o.session.data
  callbacks : callbacksOf o.serial w.journal = x.callbacks

/-- The session at `a` goes on to be told what `x` has, and nothing else happens. -/
def Tells (a : Addr) (x : Alone) (w w' : World R) : Prop := Quiet {a} w w' ∧ ∃ o, Told a x w' o

theorem Told.quiet {o : Object} (h : Told a x w o) (hq : Quiet ∅ w w') : ∃ o, Told a x w' o := by
  obtain ⟨o', ho', hf, hd⟩ := hq.forth h.object
  obtain ⟨hserial, hdestroyed, -, htable, hcontext, -⟩ := Object.frame_eq hf
  refine ⟨o', ho', hdestroyed.trans h.destroyed, h.table.trans htable.symm,
    h.context.trans hcontext.symm, h.data.trans (hd (Set.notMem_empty a)).symm, ?_⟩
  rw [hserial, hq.callbacks _ fun _ _ ha => absurd ha (Set.notMem_empty _), h.callbacks]

theorem Tells.trans {x y : Alone} {w'' : World R} (h : Tells a x w w') (h' : Tells a y w' w'') :
    Tells a y w w'' := ⟨h.1.trans h'.1, h'.2⟩

/-- A callback is made, and the application does what it does. -/
theorem invoke_ensures (happ : ∀ a c, Hushed held (app a c)) {o : Object} (hs : w.Sane)
    (h : Told a x w o) (callback : Callback) :
    (invoke app a callback).Ensures I held
      (fun _ => Tells a { x with callbacks := callback :: x.callbacks } w) w := by
  have hj : callbacksOf o.serial (.callback (w.serial a) callback :: w.journal) =
      callback :: callbacksOf o.serial w.journal := by
    simp [callbacksOf, World.serial_of h.object]
  have hq : Quiet {a} w (w.record (.callback (w.serial a) callback)) := by
    refine ⟨fun _ => rfl, fun _ _ => rfl, rfl, fun _ => Iff.rfl, rfl, story_cons_of_none rfl, fun n hn => ?_⟩
    have hne := hn a o rfl h.object
    simp [callbacksOf, World.serial_of h.object, hne]
  refine .bind (ensures_modify.mpr ((happ a callback I _ (hq.sane hs)).mono fun _ w' hw' => ?_))
  refine ⟨hq.trans (hw'.mono (Set.empty_subset _)), Told.quiet (o := o) ?_ hw'⟩
  exact ⟨h.object, h.destroyed, h.table, h.context, h.data, hj.trans (by rw [h.callbacks])⟩

theorem updateChallenge_ensures (hheld : .session a ∉ held) {o : Object} (h : Told a x w o)
    (challenge : Bytes) : (updateChallenge a challenge).Ensures I held
      (fun _ => Tells a { x with challenge := challenge } w) w := by
  have huse := World.use_live h.object h.destroyed
  have hset : (w.updateSession a ({ · with challengeData := challenge })).heap[a]? =
      some { o with session := { o.session with challengeData := challenge } } := by simp [h.object]
  have huse' := World.use_live (w := (w.updateSession a
    ({ · with challengeData := challenge })).record (.challenge (w.serial a) challenge)) hset h.destroyed
  simp only [updateChallenge, locked, modify_bind, ensures_act, huse]
  refine .withLock hheld ?_
  simp only [ensures_act, huse, huse', ensures_signal]
  have hq : Quiet {a} w (w.updateSession a ({ · with challengeData := challenge })) :=
    .updateSession (fun _ => rfl) fun ha => absurd (Set.mem_singleton a) ha
  have hk : x.keyStatuses = o.session.keyStatuses := congrArg Prod.snd h.data
  exact ⟨hq.trans (.record rfl (by simp)), _, hset, h.destroyed, h.table, h.context, Prod.ext rfl hk,
    h.callbacks⟩

/-- A license message for the session. -/
theorem onLicenseMessage_ensures (hheld : .session a ∉ held) (happ : ∀ a c, Hushed held (app a c))
    {o : Object} (hs : w.Sane) (h : Told a x w o) (message : Bytes) (url : String) :
    (onLicenseMessage app a o.session.rialtoSessionId message url).Ensures I held
      (fun _ => Tells a (x.receiveLicense message url) w) w := by
  rw [onLicenseMessage, ensures_readMember h.object h.destroyed, if_pos rfl]
  refine .bind ((updateChallenge_ensures hheld h message).mono fun _ w' hw' => ?_)
  obtain ⟨o', h'⟩ := hw'.2
  have hs' := hw'.1.sane hs
  rw [ensures_readMember h'.object h'.destroyed, ← h'.table]
  unfold Alone.receiveLicense
  dsimp only
  split_ifs
  · rw [ensures_readMember h'.object h'.destroyed, ← h'.context]
    exact (invoke_ensures happ hs' h' _).mono fun _ _ => hw'.trans
  · exact ensures_ret.mpr hw'

theorem onKeyStatus_ensures (happ : ∀ a c, Hushed held (app a c)) {o : Object} (hs : w.Sane)
    (h : Told a x w o) (keyStatus : Bytes × Rialto.KeyStatus) :
    (onKeyStatus app a keyStatus).Ensures I held (fun _ => Tells a (x.receiveStatus keyStatus) w) w := by
  have hset : Tells a { x with keyStatuses := x.keyStatuses.insert keyStatus.1 keyStatus.2 } w
      (w.updateSession a fun s => { s with keyStatuses := s.keyStatuses.insert keyStatus.1 keyStatus.2 }) := by
    have hc : x.challenge = o.session.challengeData := congrArg Prod.fst h.data
    have hk : x.keyStatuses = o.session.keyStatuses := congrArg Prod.snd h.data
    refine ⟨.updateSession (fun _ => rfl) fun ha => absurd (Set.mem_singleton a) ha,
      { o with session := { o.session with
          keyStatuses := o.session.keyStatuses.insert keyStatus.1 keyStatus.2 } }, by simp [h.object],
      h.destroyed, h.table, h.context, Prod.ext hc ?_, h.callbacks⟩
    rw [hk]
    rfl
  simp only [onKeyStatus, writeMember, modify_bind, ensures_act, World.use_live h.object h.destroyed]
  obtain ⟨o', h'⟩ := hset.2
  rw [ensures_readMember h'.object h'.destroyed, ← h'.context]
  exact (invoke_ensures happ (hset.1.sane hs) h' _).mono fun _ _ => hset.trans

/-- The pairs of a key-status message, in their order. -/
theorem onKeyStatuses_ensures (happ : ∀ a c, Hushed held (app a c))
    (keyStatuses : List (Bytes × Rialto.KeyStatus)) {o : Object} (hs : w.Sane) (h : Told a x w o) :
    (keyStatuses.forM (onKeyStatus app a)).Ensures I held
      (fun _ => Tells a (keyStatuses.foldl Alone.receiveStatus x) w) w := by
  induction keyStatuses generalizing w x o with
  | nil => exact ensures_ret.mpr ⟨.refl _ w, o, h⟩
  | cons keyStatus rest ih =>
    refine .bind ((onKeyStatus_ensures happ hs h keyStatus).mono fun _ w' hw' => ?_)
    obtain ⟨o', h'⟩ := hw'.2
    exact (ih (hw'.1.sane hs) h').mono fun _ _ => hw'.trans

theorem Alone.foldl_receiveStatus (keyStatuses : List (Bytes × Rialto.KeyStatus)) (x : Alone) :
    (keyStatuses.foldl receiveStatus x).table = x.table ∧
    (keyStatuses.foldl receiveStatus x).context = x.context ∧
    (keyStatuses.foldl receiveStatus x).messageDispatcher = x.messageDispatcher ∧
    (keyStatuses.foldl receiveStatus x).listening = x.listening ∧
    (keyStatuses.foldl receiveStatus x).keySessions = x.keySessions := by
  induction keyStatuses generalizing x with
  | nil => exact ⟨rfl, rfl, rfl, rfl, rfl⟩
  | cons keyStatus rest ih => exact ih (x.receiveStatus keyStatus)

theorem onKeyStatusesChanged_ensures (happ : ∀ a c, Hushed held (app a c)) {o : Object}
    (hs : w.Sane) (h : Told a x w o) (keyStatuses : List (Bytes × Rialto.KeyStatus)) :
    (onKeyStatusesChanged app a o.session.rialtoSessionId keyStatuses).Ensures I held
      (fun _ => Tells a (x.receive (.keyStatusesChanged o.session.rialtoSessionId keyStatuses)) w) w := by
  rw [onKeyStatusesChanged, ensures_readMember h.object h.destroyed, if_pos rfl,
    ensures_readMember h.object h.destroyed, ← h.table, Alone.receive]
  have hsame : Tells a x w w := ⟨.refl _ w, o, h⟩
  by_cases hupdate : x.table.any (·.keyUpdate) = true
  · rw [if_pos hupdate, if_pos hupdate]
    refine .bind ((onKeyStatuses_ensures happ keyStatuses hs h).mono fun _ w' hw' => ?_)
    have htable := (Alone.foldl_receiveStatus keyStatuses x).1
    obtain ⟨o', h'⟩ := hw'.2
    generalize keyStatuses.foldl Alone.receiveStatus x = y at hw' h' htable
    unfold Alone.receiveEnd
    rw [← htable]
    split_ifs
    · rw [ensures_readMember h'.object h'.destroyed, ← h'.context]
      exact (invoke_ensures happ (hw'.1.sane hs) h' _).mono fun _ _ => hw'.trans
    · exact ensures_ret.mpr hw'
  · rw [if_neg hupdate, if_neg hupdate]
    exact ensures_ret.mpr hsame

/-- What the handler of a message does, whether the message is for this session or not. -/
theorem onMessage_ensures (hheld : .session a ∉ held) (happ : ∀ a c, Hushed held (app a c))
    {o : Object} (hs : w.Sane) (h : Told a x w o) (message : Message) :
    (onMessage app a message).Ensures I held (fun _ => Tells a
      (if o.session.rialtoSessionId = message.keySessionId then x.receive message else x) w) w := by
  by_cases hid : o.session.rialtoSessionId = message.keySessionId
  · rw [if_pos hid]
    cases message with
    | licenseRequest id message url =>
      cases hid
      exact onLicenseMessage_ensures hheld happ hs h message url
    | licenseRenewal id message =>
      cases hid
      exact onLicenseMessage_ensures hheld happ hs h message ""
    | keyStatusesChanged id keyStatuses =>
      cases hid
      exact onKeyStatusesChanged_ensures happ hs h keyStatuses
  · rw [if_neg hid]
    have hsame : Tells a x w w := ⟨.refl _ w, o, h⟩
    cases message with
    | licenseRequest id message url =>
      have hne : id ≠ o.session.rialtoSessionId := Ne.symm hid
      rw [onMessage, onLicenseRequest, onLicenseMessage, ensures_readMember h.object h.destroyed,
        if_neg hne]
      exact ensures_ret.mpr hsame
    | licenseRenewal id message =>
      have hne : id ≠ o.session.rialtoSessionId := Ne.symm hid
      rw [onMessage, onLicenseRenewal, onLicenseMessage, ensures_readMember h.object h.destroyed,
        if_neg hne]
      exact ensures_ret.mpr hsame
    | keyStatusesChanged id keyStatuses =>
      have hne : id ≠ o.session.rialtoSessionId := Ne.symm hid
      rw [onMessage, onKeyStatusesChanged, ensures_readMember h.object h.destroyed, if_neg hne]
      exact ensures_ret.mpr hsame

/-! ### All clients -/

theorem World.alone_delivered {message : Message}
    (hs : story w'.journal = .delivered sys message :: story w.journal) (n : ℕ) :
    w'.alone n = if (w.alone n).Hears sys message then (w.alone n).receive message else w.alone n := by
  unfold World.alone
  rw [hs, inputs, Alone.input]
  split_ifs <;> rfl

/-- A message concerns only what a session is told. -/
theorem Alone.receive_frame (x : Alone) (message : Message) :
    (x.receive message).messageDispatcher = x.messageDispatcher ∧
    (x.receive message).table = x.table ∧ (x.receive message).context = x.context ∧
    (x.receive message).listening = x.listening ∧ (x.receive message).keySessions = x.keySessions := by
  cases message with
  | licenseRequest id message url => exact ⟨rfl, rfl, rfl, rfl, rfl⟩
  | licenseRenewal id message => exact ⟨rfl, rfl, rfl, rfl, rfl⟩
  | keyStatusesChanged id keyStatuses =>
    obtain ⟨h₁, h₂, h₃, h₄, h₅⟩ := Alone.foldl_receiveStatus keyStatuses x
    simp only [receive]
    split_ifs
    · exact ⟨h₃, h₁, h₂, h₄, h₅⟩
    · exact ⟨rfl, rfl, rfl, rfl, rfl⟩

/-- From `w`, in which the message is in the journal, to `w'`, in which all but the
clients in `rest` have had their turn. -/
structure Delivered (w : World R) (rest : List Addr) (w' : World R) : Prop where
  quiet : Quiet {a | a ∉ rest} w w'
  told : ∀ (a : Addr) o, a ∉ rest → w'.heap[a]? = some o →
    ((w.alone o.serial).challenge, (w.alone o.serial).keyStatuses) = o.session.data ∧
      callbacksOf o.serial w'.journal = (w.alone o.serial).callbacks

variable {message : Message}

/-- Those who are not clients do not hear the message. -/
theorem Consistent.delivered_start (h : Consistent w) {clients : List Addr}
    (hclients : ∀ a, a ∈ clients ↔ a ∈ w.clients sys) :
    Delivered (w.record (.message sys message)) clients (w.record (.message sys message)) := by
  refine ⟨.refl _ _, fun a o ha ho => ?_⟩
  have ht := h.object a o ho
  rw [World.alone_delivered (w := w) (story_cons rfl),
    if_neg fun hx => ha ((hclients a).mpr ((ht.hears_iff sys message).mp hx).1)]
  exact ⟨ht.data, h.callbacks o.serial⟩

/-- The turn of a client. -/
theorem Consistent.delivered_step (h : Consistent w) (hheld : ∀ a, .session a ∉ held)
    (happ : ∀ a c, Hushed held (app a c)) {b : Addr} {rest : List Addr} (hb : b ∈ w.clients sys)
    (hrest : b ∉ rest) (hw' : Delivered (w.record (.message sys message)) (b :: rest) w') :
    (onMessage app b message).Ensures I held
      (fun _ => Delivered (w.record (.message sys message)) rest) w' := by
  have hsane : (w.record (.message sys message)).Sane := ⟨h.sane.intact, h.sane.registered⟩
  obtain ⟨o, ho⟩ := World.object_of_mem (h.clients sys b hb)
  obtain ⟨o', ho', hf, hd⟩ := hw'.quiet.forth ho
  obtain ⟨hserial, hdestroyed, -, htable, hcontext, -, -, hid⟩ := Object.frame_eq hf
  have ht := h.object b o ho
  -- it is as it was before the message
  have htold : Told b (w.alone o.serial) w' o' := by
    refine ⟨ho', hdestroyed.trans ht.destroyed, ht.table.trans htable.symm,
      ht.context.trans hcontext.symm, ht.data.trans (hd (by simp)).symm, ?_⟩
    rw [hserial, hw'.quiet.callbacks]
    · exact h.callbacks o.serial
    · intro a o₁ ha ho₁ hs
      exact ha (by rw [h.distinct a b o₁ o ho₁ ho hs]; simp)
  have hx : (w.record (.message sys message)).alone o.serial =
      if o'.session.rialtoSessionId = message.keySessionId then (w.alone o.serial).receive message
      else w.alone o.serial := by
    rw [World.alone_delivered (w := w) (story_cons rfl), hid]
    simp only [ht.hears_iff, hb, true_and]
  refine (onMessage_ensures (hheld b) happ (hw'.quiet.sane hsane) htold message).mono
    fun _ w'' ⟨hq, o'', h''⟩ => ?_
  rw [← hx] at h''
  refine ⟨(hw'.quiet.mono fun a ha => ?_).trans (hq.mono ?_), fun a o₁ ha ho₁ => ?_⟩
  · exact fun hmem => ha (List.mem_cons_of_mem _ hmem)
  · exact Set.singleton_subset_iff.mpr hrest
  · by_cases hab : a = b
    · subst hab
      have hserial'' : o''.serial = o.serial := by
        obtain ⟨o₂, ho₂, hf₂, -⟩ := hq.back h''.object
        rw [ho', Option.some.injEq] at ho₂
        rw [(Object.frame_eq hf₂).1, ← ho₂, hserial]
      rw [h''.object, Option.some.injEq] at ho₁
      subst ho₁
      have hcallbacks := h''.callbacks
      rw [hserial''] at hcallbacks ⊢
      exact ⟨h''.data, hcallbacks⟩
    · obtain ⟨o₂, ho₂, hf₂, hd₂⟩ := hq.back ho₁
      obtain ⟨hdata, hcallbacks⟩ := hw'.told a o₂ (by simp [hab, ha]) ho₂
      rw [(Object.frame_eq hf₂).1, hd₂ hab, hq.callbacks]
      · exact ⟨hdata, hcallbacks⟩
      · rintro c o₃ rfl ho₃ hs
        rw [ho', Option.some.injEq] at ho₃
        obtain ⟨o₄, ho₄, hf₄, -⟩ := hw'.quiet.back ho₂
        rw [← ho₃, hserial, (Object.frame_eq hf₄).1] at hs
        exact hab (h.distinct a c o₄ o ho₄ ho hs.symm)

/-- All have had their turn. -/
theorem Consistent.delivered_end (h : Consistent w)
    (hw' : Delivered (w.record (.message sys message)) [] w') : Consistent w' := by
  have hq := hw'.quiet
  have hsane : (w.record (.message sys message)).Sane := ⟨h.sane.intact, h.sane.registered⟩
  have halone : ∀ n, w'.alone n =
      if (w.alone n).Hears sys message then (w.alone n).receive message else w.alone n :=
    World.alone_delivered (hq.story.trans (story_cons rfl))
  have hsame : ∀ n, w'.alone n = (w.record (.message sys message)).alone n := fun n => by
    rw [World.alone, World.alone, hq.story]
  have hquiet : ∀ n, (w.alone n).listening = none → w'.alone n = w.alone n := fun n hn => by
    rw [halone, if_neg fun hx => by simp [hx.2] at hn]
  refine ⟨fun a o' ho' => ?_, fun n => ?_, fun sys' a ha => ?_, (hq.sane hsane).registered,
    fun a o' ho' => ?_, fun a b o o' ho ho' hs => ?_, fun n hn => ?_, fun n hn => ?_⟩
  · obtain ⟨o, ho, hf, -⟩ := hq.back ho'
    have hs := (Object.frame_eq hf).1
    have hd := (hw'.told a o' (by simp) ho').1
    rw [← hsame] at hd
    refine (h.object a o ho).of_frame hq.clients hf ?_ hd
    rw [hs, halone]
    split_ifs
    · exact Alone.receive_frame _ message
    · exact ⟨rfl, rfl, rfl, rfl, rfl⟩
  · by_cases hlive : ∃ (a : Addr) (o : Object), w'.heap[a]? = some o ∧ o.serial = n
    · obtain ⟨a, o, ho, rfl⟩ := hlive
      rw [(hw'.told a o (by simp) ho).2, hsame]
    · have hn : ∀ (a : Addr) o, w.heap[a]? = some o → o.serial ≠ n := fun a o ho hs => by
        obtain ⟨o', ho', hf, -⟩ := hq.forth ho
        exact hlive ⟨a, o', ho', (Object.frame_eq hf).1.trans hs⟩
      rw [hquiet n (h.gone n hn).1, hq.callbacks n fun a o _ ho => hn a o ho]
      exact h.callbacks n
  · rw [hq.mem_heap]
    exact h.clients sys' a (hq.clients ▸ ha)
  · obtain ⟨o, ho, hf, -⟩ := hq.back ho'
    rw [(Object.frame_eq hf).1, hq.allocated]
    exact h.serial a o ho
  · obtain ⟨o₁, ho₁, hf₁, -⟩ := hq.back ho
    obtain ⟨o₂, ho₂, hf₂, -⟩ := hq.back ho'
    rw [(Object.frame_eq hf₁).1, (Object.frame_eq hf₂).1] at hs
    exact h.distinct a b o₁ o₂ ho₁ ho₂ hs
  · have hn' : ∀ (a : Addr) o, w.heap[a]? = some o → o.serial ≠ n := fun a o ho => by
      obtain ⟨o', ho', hf, -⟩ := hq.forth ho
      rw [← (Object.frame_eq hf).1]
      exact hn a o' ho'
    rw [hquiet n (h.gone n hn').1]
    exact h.gone n hn'
  · have hfresh := h.fresh n (hq.allocated ▸ hn)
    have hstory : story (w.record (.message sys message)).journal = .delivered sys message ::
      story w.journal := story_cons rfl
    rw [hq.story, hstory, inputs_delivered_of_not_hears, hfresh]
    rw [hfresh]
    simp [alone, Alone.blank, Alone.Hears]

/-- Delivering a message. -/
theorem deliver_ensures (h : Consistent w) (happ : ∀ a c, Hushed [.dispatcher sys] (app a c)) :
    (MessageDispatcher.deliver (mediaKeysClient app) sys message).Ensures I [] (fun _ w' =>
      Consistent w' ∧ story w'.journal = .delivered sys message :: story w.journal) w := by
  rw [deliver_eq]
  refine .withLock (by simp) ?_
  rw [update_bind, ensures_act]
  have hnodup : (w.clients sys).toList.Nodup :=
    Std.ExtTreeSet.distinct_toList.imp fun hne he => hne (Std.compare_eq_iff_eq.mpr he)
  refine (Ensures.forM (J := Delivered (w.record (.message sys message)))
    (fun b rest w' hsuf hw' => ?_) (h.delivered_start (by simp))).mono fun _ _ hw' =>
      ⟨h.delivered_end hw', hw'.quiet.story.trans (story_cons rfl)⟩
  have hb : b ∈ (w.clients sys).toList := hsuf.subset (by simp)
  exact h.delivered_step (by simp) happ (by simpa using hb)
    (List.nodup_cons.mp (hsuf.sublist.nodup hnodup)).1 hw'

end RialtoOcdm
