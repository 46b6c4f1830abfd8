import RialtoOcdm.Concurrency.Resource
import RialtoOcdm.Interleaved.Acts
import RialtoOcdm.Registry.References

/-! The registry as a resource of threads that call the library. Its mutex guards the
counts and the deletion of sessions; meanwhile other threads do with the sessions what
they like, but make and delete none. A thread in a call has the references that it was
called with, or that it was given and will give away. -/

namespace RialtoOcdm.Registry

open Concurrency Prog OpenCDMSessionPrivate Ownership

variable {R : Type}

/-- The sessions, and how many references there are to each. Who has them does not matter
here. -/
abbrev Sessions := Ownership.State Unit Ref

/-- The references to sessions at an address. -/
def refsAt (A : Sessions) (a : Addr) : ℕ := A.ledger.countP fun e => e.2.address = a

/-- A reference more, or one that is given back. -/
inductive Effect (A : Sessions) (g : Multiset Addr) : Sessions → Multiset Addr → Prop
  | take {A' : Sessions} (a : Addr) (hs : Ownership.Step A A')
      (hrefs : ∀ b, refsAt A' b = refsAt A b + if a = b then 1 else 0) : Effect A g A' (a ::ₘ g)
  | give {A' : Sessions} {a : Addr} (ha : a ∈ g) (hs : Ownership.Step A A')
      (hrefs : ∀ b, refsAt A' b + (if a = b then 1 else 0) = refsAt A b) : Effect A g A' (g.erase a)

/-- The reference that a call hands over to its caller. -/
def given : Call → Reply → Multiset Addr
  | .constructSession .., .constructed _ (some a) => {a}
  | .getSession _, .session (some a) => {a}
  | .create .., .session (some a) => {a}
  | _, _ => 0

/-- The reference that a caller hands over. -/
def taken : Call → Multiset Addr
  | .destructSession (some a) => {a}
  | _ => 0

/-- The application looks sessions up when it is called back. It keeps what it finds. -/
def LooksUp : Call → Prop
  | .deliver _ _ lookups => ∃ a callback, lookups a callback ≠ []
  | _ => False

/-- The session is in memory and nothing of it is destroyed. -/
def Whole (w : World R) (r : Ref) : Prop :=
  ∃ o, w.heap[r.address]? = some o ∧ o.serial = r.serial ∧ o.destroyed = []

/-- What is true while a critical section is at work that has `g`: a session is whole unless
the only reference to it is about to be given back. -/
structure During (A : Sessions) (g : Multiset Addr) (w : World R) : Prop where
  whole : ∀ r ∈ A.live, ¬ (r.address ∈ g ∧ refsAt A r.address = 1) →
    Whole w r ∧ r ∉ destructed w.journal
  once : (destructed w.journal).Nodup

/-- What a critical section may rely on. -/
structure Pre (A : Sessions) (g : Multiset Addr) : Prop where
  sound : Sound A
  bounded : ∀ r, A.ledger.refs r + 1 < 2 ^ 31
  held : ∀ a, g.count a ≤ refsAt A a

theorem Unrelated.refl (w : World R) : Unrelated w w := ⟨rfl, rfl, fun _ => rfl, rfl, rfl⟩

theorem Unrelated.trans {w₁ w₂ w₃ : World R} (h : Unrelated w₁ w₂) (h' : Unrelated w₂ w₃) :
    Unrelated w₁ w₃ where
  activeSessions := h'.activeSessions.trans h.activeSessions
  allocated := h'.allocated.trans h.allocated
  objects a := (h'.objects a).trans (h.objects a)
  constructed := h'.constructed.trans h.constructed
  destructed := h'.destructed.trans h.destructed

/-- No member is used that is not there. -/
def NoMisuse (w w' : World R) : Prop :=
  ∀ a m, .misused a m ∈ w'.journal → .misused a m ∈ w.journal

/-- The call has sessions handle a message. -/
def Handles : Call → Prop
  | .deliver .. => True
  | _ => False

/-- The registry, as a resource. If clients are `careful`, a call that is about a session
finds it whole. -/
def registry (R : Type) (careful : Prop) : Resource (World R) Call Reply Sessions (Multiset Addr) where
  start := taken
  effect _ := Effect
  finish c r g := given c r ≤ g ∧ (¬ LooksUp c → g = given c r)
  pre _ := Pre
  rel w A := Refines ⟨w, A.ledger⟩ A
  during _ := During
  known c g w := careful → ∀ a, a ∈ g ∨ c.ActsFor a → ∀ m, w.has a m = true
  does c w w' := careful → ¬ Handles c → NoMisuse w w'
  env := Unrelated
  env_refl := Unrelated.refl
  env_trans := Unrelated.trans
  rel_env h hu := h.other hu

/-! ### What is known of the sessions -/

section Known

variable {A : Sessions} {g : Multiset Addr} {w w' : World R} {a : Addr} {o : Object}

theorem During.rely (h : During A g w) (hu : Unrelated w w') : During A g w' where
  whole r hr hne := by
    obtain ⟨⟨o, ho, hs, hd⟩, hnot⟩ := h.whole r hr hne
    have he := hu.objects r.address
    rw [ho, Option.map_some, Option.map_eq_some_iff] at he
    obtain ⟨o', ho', he⟩ := he
    obtain ⟨hserial, hdestroyed⟩ := Prod.mk.inj he
    exact ⟨⟨o', ho', hserial.trans hs, hdestroyed.trans hd⟩, by rwa [hu.destructed]⟩
  once := by rw [hu.destructed]; exact h.once

/-- A critical section is at its end, after what others did. -/
theorem Refines.settle {l : Ledger Unit Ref} (h : Refines ⟨w, l⟩ A) (hu : Unrelated w w') :
    Refines ⟨w', A.ledger⟩ A := h.ledger ▸ h.other hu

theorem Refines.nodup {l : Ledger Unit Ref} (h : Refines ⟨w, l⟩ A) (hA : Sound A) :
    (destructed w.journal).Nodup := by
  have hn := hA.once
  rwa [h.ended, Multiset.coe_nodup] at hn

theorem Refines.notDestructed {l : Ledger Unit Ref} (h : Refines ⟨w, l⟩ A) (hA : Sound A) {r : Ref}
    (hr : r ∈ A.live) : r ∉ destructed w.journal := by
  have hn := hA.notEnded r hr
  rwa [h.ended, Multiset.mem_coe] at hn

theorem Refines.whole {l : Ledger Unit Ref} (h : Refines ⟨w, l⟩ A) {r : Ref} (hr : r ∈ A.live) :
    Whole w r := by
  obtain ⟨o, ho, hs⟩ := (h.live r).mp hr
  exact ⟨o, ho, hs, h.intact _ o ho⟩

theorem Refines.during {l : Ledger Unit Ref} (h : Refines ⟨w, l⟩ A) (hA : Sound A) : During A g w :=
  ⟨fun _ hr _ => ⟨h.whole hr, h.notDestructed hA hr⟩, h.nodup hA⟩

/-- All references to sessions at an address are to the one that is there now. -/
theorem Refines.refsAt_eq (h : Refines ⟨w, A.ledger⟩ A) (hA : Sound A) (ho : w.heap[a]? = some o) :
    refsAt A a = A.ledger.refs ⟨a, o.serial⟩ := by
  refine Multiset.countP_congr rfl fun e he => propext ?_
  obtain ⟨o', ho', hs⟩ := (h.alive_iff hA e.2).mpr (Ledger.refs_pos.mpr ⟨e.1, he⟩)
  constructor
  · rintro rfl
    rw [ho, Option.some.injEq] at ho'
    subst ho'
    cases e
    simp_all
  · intro he
    rw [he]

theorem Refines.mem_heap_of_refsAt (h : Refines ⟨w, A.ledger⟩ A) (hA : Sound A)
    (hpos : 0 < refsAt A a) : ∃ o, w.heap[a]? = some o := by
  obtain ⟨e, he, rfl⟩ := Multiset.countP_pos.mp hpos
  obtain ⟨o, ho, -⟩ := (h.alive_iff hA e.2).mpr (Ledger.refs_pos.mpr ⟨e.1, he⟩)
  exact ⟨o, ho⟩

theorem refsAt_cons {A' : Sessions} {r : Ref} (h : A'.ledger = ((), r) ::ₘ A.ledger) (b : Addr) :
    refsAt A' b = refsAt A b + if r.address = b then 1 else 0 := by
  rw [refsAt, h]
  exact Multiset.countP_cons _ _ _

theorem refsAt_erase {A' : Sessions} {r : Ref} (hr : ((), r) ∈ A.ledger)
    (h : A'.ledger = A.ledger.erase ((), r)) (b : Addr) :
    refsAt A' b + (if r.address = b then 1 else 0) = refsAt A b := by
  have he : A.ledger = ((), r) ::ₘ A'.ledger := by rw [h, Multiset.cons_erase hr]
  exact (refsAt_cons he b).symm

end Known

/-- A new session changes nothing for those that there are. -/
theorem During.allocate {A : Sessions} {g : Multiset Addr} {w : World R} {a : Addr} (h : During A g w)
    (ha : a ∉ w.heap) (s : Session) : During A g (w.allocate a s) where
  whole r hr hne := by
    obtain ⟨⟨o, ho, hs⟩, hnot⟩ := h.whole r hr hne
    refine ⟨⟨o, ?_, hs⟩, by simpa [destructed] using hnot⟩
    rw [World.heap_allocate, if_neg, ho]
    rintro rfl
    exact ha (World.mem_of_object ho)
  once := by simpa [destructed] using h.once

theorem During.updateActiveSessions {A : Sessions} {g : Multiset Addr} {w : World R} (h : During A g w)
    (f : Std.ExtTreeMap Addr Int32 → Std.ExtTreeMap Addr Int32) :
    During A g (w.updateActiveSessions f) := ⟨h.whole, h.once⟩

/-! ### What others do and what is done commute -/

section Commute

variable {w w' : World R}

theorem Unrelated.updateActiveSessions (h : Unrelated w w')
    (f : Std.ExtTreeMap Addr Int32 → Std.ExtTreeMap Addr Int32) :
    Unrelated (w.updateActiveSessions f) (w'.updateActiveSessions f) where
  activeSessions := by simp [h.activeSessions]
  allocated := h.allocated
  objects := h.objects
  constructed := h.constructed
  destructed := h.destructed

theorem Unrelated.record (w : World R) {e : Event} (hc : RialtoOcdm.constructed [e] = [])
    (hd : RialtoOcdm.destructed [e] = []) : Unrelated w (w.record e) where
  activeSessions := rfl
  allocated := rfl
  objects _ := rfl
  constructed := by
    have happend : RialtoOcdm.constructed (e :: w.journal) = RialtoOcdm.constructed [e] ++
      RialtoOcdm.constructed w.journal := List.filterMap_append (l := [e])
    rw [World.record_journal, happend, hc, List.nil_append]
  destructed := by
    have happend : RialtoOcdm.destructed (e :: w.journal) = RialtoOcdm.destructed [e] ++
      RialtoOcdm.destructed w.journal := List.filterMap_append (l := [e])
    rw [World.record_journal, happend, hd, List.nil_append]

theorem NoMisuse.same (h : w'.journal = w.journal) : NoMisuse w w' := fun _ _ hm => h ▸ hm

theorem NoMisuse.record (w : World R) {e : Event} (he : ∀ a m, e ≠ .misused a m) :
    NoMisuse w (w.record e) := fun a m hm =>
  (List.mem_cons.mp hm).resolve_left fun h => he a m h.symm

theorem Unrelated.use (w : World R) (a : Addr) (m : Member) : Unrelated w (w.use a m) := by
  by_cases h : w.has a m = true
  · rw [World.use_of_has h]
    exact .refl w
  · have hr : w.use a m = w.record (.misused a m) := by simp [World.use, World.record, h]
    exact hr ▸ .record w rfl rfl

theorem Unrelated.updateSession (w : World R) (a : Addr) (f : Session → Session) :
    Unrelated w (w.updateSession a f) where
  activeSessions := rfl
  allocated := rfl
  objects b := by
    rw [World.heap_updateSession]
    split_ifs with hab
    · subst hab
      cases w.heap[a]? <;> rfl
    · rfl
  constructed := rfl
  destructed := rfl

theorem Unrelated.updateClients (w : World R) (sys : SystemId)
    (f : Std.ExtTreeSet Addr → Std.ExtTreeSet Addr) : Unrelated w (w.updateClients sys f) :=
  ⟨rfl, rfl, fun _ => rfl, rfl, rfl⟩

end Commute

variable {careful : Prop} {c : Call} {g : Multiset Addr}

/-- The session that was made is the thread's. -/
theorem create_serves (hint : Addr) (cdm messageDispatcher : Option SystemId)
    (sessionType : LicenseType) (callbacks : Option OpenCDMSessionCallbacks) (context : Addr)
    (initDataType : String) (initData : Bytes) :
    (ActiveSessions.create hint cdm messageDispatcher sessionType callbacks context initDataType
      initData : Code R Addr).Serves (registry R careful) .activeSessions c
      (fun a g' z => z = none ∧ g' = a ::ₘ g) g none := by
  refine ⟨fun hne => absurd rfl hne, fun _ A w hpre hrel => Serves.bind ?_⟩
  intro w₁ hu₁
  have h₁ : Refines ⟨w₁, A.ledger⟩ A := hrel.other hu₁
  refine ⟨h₁.during hpre.sound, fun _ _ => .record w₁ (by nofun), ?_⟩
  have ha := w₁.address_not_mem hint
  intro w₂ hu₂
  have hd₂ : During A g w₂ := ((h₁.during hpre.sound).allocate ha _).rely hu₂
  refine ⟨hd₂, fun _ _ => .same rfl, fun w₃ hu₃ => ?_⟩
  refine ⟨(hd₂.updateActiveSessions _).rely hu₃, fun hne => absurd rfl hne, fun _ => ?_⟩
  obtain ⟨A', hstep, hr⟩ := h₁.create hpre.sound ha () (construct cdm messageDispatcher sessionType
    callbacks context initDataType initData)
  exact ⟨A', _, .inr (.take _ hstep (refsAt_cons hr.ledger)),
    hr.settle ((Unrelated.updateActiveSessions hu₂ _).trans hu₃), rfl, rfl⟩

theorem status_idles (a : Addr) (key : Bytes) : (status a key : Code R KeyStatus).Idles
    (registry R careful) .activeSessions c (fun w => ∀ m, w.has a m = true) fun _ => True := by
  refine .bind (F := fun _ => True) (.act (fun w hw => ?_) fun w => .ret trivial) fun keyStatuses _ => ?_
  · rw [World.use_of_has (hw .keyStatuses)]
    exact ⟨.refl w, fun _ _ => .same rfl⟩
  · split <;> exact .ret trivial

/-- What is found is one of those looked at. -/
theorem findSession_idles (keyId : Bytes) (entries : List (Addr × Int32)) :
    (ActiveSessions.findSession keyId entries : Code R _).Idles (registry R careful) .activeSessions c
      (fun w => ∀ e ∈ entries, ∀ m, w.has e.1 m = true) fun r => ∀ e, r = some e → e ∈ entries := by
  induction entries with
  | nil => exact .ret (by nofun)
  | cons e rest ih =>
    refine .bind ((status_idles e.1 keyId).weaken fun w hw => hw e List.mem_cons_self) fun found _ => ?_
    split_ifs
    · refine .ret ?_
      rintro _ ⟨⟩
      exact List.mem_cons_self
    · refine (ih.mono fun r hr e' he' => List.mem_cons_of_mem e (hr e' he')).weaken fun w hw e' he' => ?_
      exact hw e' (List.mem_cons_of_mem e he')

theorem get_serves (keyId : Bytes) : (ActiveSessions.get keyId : Code R _).Serves (registry R careful)
    .activeSessions c (fun r g' z => z = none ∧ g' = r.elim g (· ::ₘ g)) g none := by
  refine ⟨fun hne => absurd rfl hne, fun _ A w hpre hrel => Serves.bind ?_⟩
  intro w₁ hu₁
  have h₁ : Refines ⟨w₁, A.ledger⟩ A := hrel.other hu₁
  refine ⟨h₁.during hpre.sound, fun _ _ => .same rfl, ?_⟩
  change Serves _ _ _ (ActiveSessions.findSession keyId w₁.activeSessions.toList >>= _) _ _ _
  refine Serves.bind ((findSession_idles keyId _ A g w₁ fun w₂ hu₂ => ?_).mono ?_)
  · refine ⟨(h₁.during hpre.sound).rely hu₂, fun e he m => ?_⟩
    have h₂ : Refines ⟨w₂, A.ledger⟩ A := h₁.other hu₂
    have hmem := World.mem_of_count (Std.ExtTreeMap.mem_toList_iff_getElem?_eq_some.mp he)
    exact h₂.intact.has ((h₂.registered e.1).mp (hu₂.activeSessions ▸ hmem)) m
  rintro r g' _ ⟨rfl, hr, w₂, rfl, hu₂⟩
  cases r with
  | none =>
    intro w₃ hu₃
    have h₃ : Refines ⟨w₃, A.ledger⟩ A := h₁.other (hu₂.trans hu₃)
    exact ⟨h₃.during hpre.sound, fun hne => absurd rfl hne, fun _ =>
      ⟨A, g', .inl ⟨rfl, rfl⟩, h₃, rfl, rfl⟩⟩
  | some e =>
    obtain ⟨a, n⟩ := e
    have hn : w₁.activeSessions[a]? = some n :=
      Std.ExtTreeMap.mem_toList_iff_getElem?_eq_some.mp (hr _ rfl)
    intro w₃ hu₃
    have hu : Unrelated w₁ w₃ := hu₂.trans hu₃
    have h₃ : Refines ⟨w₃, A.ledger⟩ A := h₁.other hu
    have hd₃ : During A g' w₃ := h₃.during hpre.sound
    refine ⟨hd₃, fun _ _ => .same rfl, fun w₄ hu₄ => ?_⟩
    refine ⟨(hd₃.updateActiveSessions _).rely hu₄, fun hne => absurd rfl hne, fun _ => ?_⟩
    have hbounded : Bounded (((), ⟨a, w₃.serial a⟩) ::ₘ A.ledger) := fun r => by
      have hb := hpre.bounded r
      rw [Ledger.refs_cons]
      split_ifs <;> omega
    obtain ⟨A', hstep, hr'⟩ := h₃.share (hu.activeSessions ▸ hn) () hbounded
    exact ⟨A', _, .inr (.take a hstep (refsAt_cons hr'.ledger)), hr'.settle hu₄, rfl, rfl⟩

/-! ### Deleting a session -/

/-- Nothing has changed since the state `w` but what others may do, and that members of the
session at `a` were destroyed. -/
structure Dying (a : Addr) (w w' : World R) : Prop where
  activeSessions : w'.activeSessions = w.activeSessions
  allocated : w'.allocated = w.allocated
  serial : w'.heap[a]?.map Object.serial = w.heap[a]?.map Object.serial
  others : ∀ b : Addr, b ≠ a → w'.heap[b]?.map (fun o => (o.serial, o.destroyed)) =
    w.heap[b]?.map fun o => (o.serial, o.destroyed)
  constructed : constructed w'.journal = constructed w.journal
  destructed : destructed w'.journal = destructed w.journal

section Dying

variable {A : Sessions} {a : Addr} {w w' w'' : World R}

theorem Dying.refl (a : Addr) (w : World R) : Dying a w w := ⟨rfl, rfl, rfl, fun _ _ => rfl, rfl, rfl⟩

theorem Dying.rely (h : Dying a w w') (hu : Unrelated w' w'') : Dying a w w'' where
  activeSessions := hu.activeSessions.trans h.activeSessions
  allocated := hu.allocated.trans h.allocated
  serial := by
    have hs := congrArg (Option.map Prod.fst) (hu.objects a)
    rw [Option.map_map, Option.map_map] at hs
    exact Eq.trans hs h.serial
  others b hb := (hu.objects b).trans (h.others b hb)
  constructed := hu.constructed.trans h.constructed
  destructed := hu.destructed.trans h.destructed

theorem Dying.mark (h : Dying a w w') (m : Member) : Dying a w (w'.markDestroyed a m) where
  activeSessions := h.activeSessions
  allocated := h.allocated
  serial := by
    rw [World.heap_markDestroyed, if_pos rfl, Option.map_map]
    exact h.serial
  others b hb := by
    rw [World.heap_markDestroyed, if_neg (Ne.symm hb)]
    exact h.others b hb
  constructed := h.constructed
  destructed := h.destructed

/-- The session that dies is the one whose last reference is about to be given back. -/
theorem During.dying (hd : During A g w) (hlast : a ∈ g ∧ refsAt A a = 1) (h : Dying a w w') :
    During A g w' where
  whole r hr hne := by
    have hra : r.address ≠ a := fun he => hne (he ▸ hlast)
    obtain ⟨⟨o, ho, hs, hwhole⟩, hnot⟩ := hd.whole r hr hne
    have he := h.others r.address hra
    rw [ho, Option.map_some, Option.map_eq_some_iff] at he
    obtain ⟨o', ho', he⟩ := he
    obtain ⟨hserial, hdestroyed⟩ := Prod.mk.inj he
    exact ⟨⟨o', ho', hserial.trans hs, hdestroyed.trans hwhole⟩, by rwa [h.destructed]⟩
  once := by rw [h.destructed]; exact hd.once

/-- Then it is gone. -/
theorem During.free (hd : During A g w) (hlast : a ∈ g ∧ refsAt A a = 1)
    (hnot : ⟨a, w.serial a⟩ ∉ destructed w.journal) :
    During A g ((w.free a).record (.destructed a (w.serial a))) where
  whole r hr hne := by
    have hra : r.address ≠ a := fun he => hne (he ▸ hlast)
    obtain ⟨⟨o, ho, hs⟩, hmem⟩ := hd.whole r hr hne
    refine ⟨⟨o, ?_, hs⟩, ?_⟩
    · rw [World.record_heap, World.heap_free, if_neg (Ne.symm hra), ho]
    · refine List.not_mem_cons_of_ne_of_not_mem ?_ hmem
      rintro rfl
      exact hra rfl
  once := List.nodup_cons.mpr ⟨hnot, hd.once⟩

theorem Dying.serial_eq (h : Dying a w w') : w'.serial a = w.serial a := by
  have hs := h.serial
  unfold World.serial
  cases hw : w.heap[a]? <;> cases hw' : w'.heap[a]? <;> simp_all

/-- What is left is what is left by a deletion at once. -/
theorem Dying.free (h : Dying a w w') :
    Unrelated (w.deleteSession a) ((w'.free a).record (.destructed a (w'.serial a))) := by
  refine ⟨?_, ?_, fun b => ?_, ?_, ?_⟩
  · rw [deleteSession_eq]
    exact h.activeSessions
  · rw [deleteSession_eq]
    exact h.allocated
  · rw [deleteSession_eq, World.record_heap, World.heap_free]
    simp only [Std.ExtTreeMap.getElem?_erase, Std.compare_eq_iff_eq]
    split_ifs with hab
    · rfl
    · exact h.others b (Ne.symm hab)
  · rw [constructed_deleteSession]
    exact h.constructed
  · rw [destructed_deleteSession, ← h.serial_eq, ← h.destructed]
    rfl

end Dying

theorem destroyHandle_idles (a : Addr) :
    (destroyHandle a : Code R Unit).Idles (registry R careful) .activeSessions c (fun _ => True)
      fun _ => True := by
  refine .bind (F := fun _ => True) (.act (fun w _ => ?_) fun w => .ret trivial) fun handle _ => ?_
  · dsimp only
    split_ifs
    · exact ⟨.record w rfl rfl, fun _ _ => .record w (by nofun)⟩
    · exact ⟨.refl w, fun _ _ => .same rfl⟩
  · cases handle with
    | none => exact .ret trivial
    | some handle =>
      exact .withLock (by simp) (.act (fun w _ => ⟨.updateClients w _ _, fun _ _ => .same rfl⟩)
        fun w => .ret trivial)

section Remove

variable {A : Sessions} {a : Addr} {w : World R}

theorem destroyMember_serves (hd : During A g w) (hlast : a ∈ g ∧ refsAt A a = 1) (m : Member)
    {w₁ : World R} (h : Dying a w w₁) :
    (destroyMember a m : Code R PUnit).Serves (registry R careful) .activeSessions c
      (fun _ g' z => g' = g ∧ ∃ w', z = some (A, w') ∧ Dying a w w') g (some (A, w₁)) := by
  have hmark : ∀ w₂, Dying a w w₂ → (.modify (·.markDestroyed a m) : Code R Unit).Serves (registry R careful)
      .activeSessions c (fun _ g' z => g' = g ∧ ∃ w', z = some (A, w') ∧ Dying a w w') g
        (some (A, w₂)) := fun w₂ h₂ w₃ hu₃ =>
    ⟨hd.dying hlast (h₂.rely hu₃), fun _ _ => .same rfl, rfl, _, rfl, (h₂.rely hu₃).mark m⟩
  unfold OpenCDMSessionPrivate.destroyMember
  split_ifs
  · refine Serves.bind ((destroyHandle_idles a A g w₁ fun w₂ hu₂ =>
      ⟨hd.dying hlast (h.rely hu₂), trivial⟩).mono ?_)
    rintro _ _ _ ⟨rfl, -, w₂, rfl, hu₂⟩
    exact hmark w₂ (h.rely hu₂)
  · exact hmark w₁ h

/-- A deletion among other threads comes to what it would come to alone. -/
theorem delete_serves (hd : During A g w) (hlast : a ∈ g ∧ refsAt A a = 1)
    (hnot : ⟨a, w.serial a⟩ ∉ destructed w.journal) :
    (delete a : Code R Unit).Serves (registry R careful) .activeSessions c (fun _ g' z => g' = g ∧
      ∃ w', z = some (A, w') ∧ During A g w' ∧ Unrelated (w.deleteSession a) w') g (some (A, w)) := by
  intro w₁ hu₁
  refine ⟨hd.rely hu₁, fun _ _ => .record w₁ (by nofun), ?_⟩
  change Serves _ _ _ (Member.all.reverse.forM (destroyMember a) >>= _) _ _ _
  refine Serves.bind ((Serves.forM (I := Dying a w) (fun m _ w₂ h₂ =>
    destroyMember_serves hd hlast m h₂) ?_).mono ?_)
  · exact (Dying.refl a w).rely (hu₁.trans (.record w₁ rfl rfl))
  · rintro _ _ _ ⟨rfl, w₂, rfl, h₂⟩ w₃ hu₃
    have h₃ := h₂.rely hu₃
    have hd₃ := hd.dying hlast h₃
    refine ⟨hd₃, fun _ _ => .record (w₃.free a) (by nofun), rfl, _, rfl, hd₃.free hlast ?_, h₃.free⟩
    rw [h₃.serial_eq, h₃.destructed]
    exact hnot

/-- Behind a count there is one session, with as many references. -/
theorem Refines.found {n : Int32} (h : Refines ⟨w, A.ledger⟩ A) (hA : Sound A) (hpos : 0 < refsAt A a)
    (hn : w.activeSessions[a]? = some n) :
    ∃ o, w.heap[a]? = some o ∧ ((), ⟨a, o.serial⟩) ∈ A.ledger ∧
      n.toInt = A.ledger.refs ⟨a, o.serial⟩ := by
  obtain ⟨o, ho⟩ := h.mem_heap_of_refsAt hA hpos
  rw [h.refsAt_eq hA ho] at hpos
  obtain ⟨⟨⟩, hmem⟩ := Ledger.refs_pos.mp hpos
  exact ⟨o, ho, hmem, h.count a n o hn ho⟩

/-- The session goes with its last reference. -/
theorem remove_last (ha : a ∈ g) (hA : Sound A) (h : Refines ⟨w, A.ledger⟩ A) {o : Object}
    (ho : w.heap[a]? = some o) (hmem : ((), ⟨a, o.serial⟩) ∈ A.ledger)
    (hone : A.ledger.refs ⟨a, o.serial⟩ = 1) (n : Int32) :
    (do OpenCDMSessionPrivate.delete a
        .modify (·.updateActiveSessions (·.erase a)) : Code R Unit).Serves (registry R careful)
      .activeSessions c (fun _ g' z => g' = g ∧ ∃ w', z = some (A, w') ∧ During A g w' ∧
        ∀ w'', Unrelated w' w'' → ∃ A', Effect A g A' (g.erase a) ∧ Refines ⟨w'', A'.ledger⟩ A')
      g (some (A, w.updateActiveSessions (·.insert a n))) := by
  have hlive : ⟨a, o.serial⟩ ∈ A.live := (h.live _).mpr ⟨o, ho, rfl⟩
  have hnot := h.notDestructed hA hlive
  rw [← World.serial_of ho] at hnot
  have hlast : a ∈ g ∧ refsAt A a = 1 := ⟨ha, (h.refsAt_eq hA ho).trans hone⟩
  refine Serves.bind ((delete_serves ((h.during hA).updateActiveSessions _) hlast hnot).mono ?_)
  rintro _ _ _ ⟨rfl, w₁, rfl, hd₁, hu₁⟩ w₂ hu₂
  refine ⟨hd₁.rely hu₂, fun _ _ => .same rfl, rfl, _, rfl, (hd₁.rely hu₂).updateActiveSessions _,
    fun w₃ hu₃ => ?_⟩
  obtain ⟨A', hstep, hr⟩ := h.last hmem hone n ho rfl
  exact ⟨A', .give ha hstep (refsAt_erase hmem hr.ledger),
    hr.settle (((hu₁.trans hu₂).updateActiveSessions _).trans hu₃)⟩

/-- Whoever gives a reference back has it no more. -/
theorem remove_serves (ha : a ∈ g) : (ActiveSessions.remove (some a) : Code R Unit).Serves
    (registry R careful) .activeSessions c (fun _ g' z => z = none ∧ g' = g.erase a) g none := by
  refine ⟨fun hne => absurd rfl hne, fun _ A w hpre hrel => Serves.bind ?_⟩
  intro w₁ hu₁
  have h₁ : Refines ⟨w₁, A.ledger⟩ A := hrel.other hu₁
  refine ⟨h₁.during hpre.sound, fun _ _ => .same rfl, ?_⟩
  have hpos : 0 < refsAt A a := (Multiset.count_pos.mpr ha).trans_le (hpre.held a)
  obtain ⟨o₁, ho₁⟩ := h₁.mem_heap_of_refsAt hpre.sound hpos
  obtain ⟨n, hn⟩ := World.count_of_mem ((h₁.registered a).mpr (World.mem_of_object ho₁))
  dsimp only
  rw [bind_ret_code, hn]
  intro w₂ hu₂
  have h₂ : Refines ⟨w₂, A.ledger⟩ A := h₁.other hu₂
  have hd₂ : During A g w₂ := h₂.during hpre.sound
  rw [← show w₂.activeSessions = w₁.activeSessions from hu₂.activeSessions] at hn
  obtain ⟨o, ho, hmem, hcount⟩ := h₂.found hpre.sound hpos hn
  obtain ⟨k, hk⟩ := Nat.exists_eq_add_of_lt (Ledger.refs_pos_of_mem hmem)
  rw [Nat.zero_add] at hk
  have hz := eq_zero_iff (toInt_sub_one (hk ▸ hcount))
  refine ⟨hd₂, fun _ _ => .same rfl, ?_⟩
  split_ifs with hzero
  · have hone : A.ledger.refs ⟨a, o.serial⟩ = 1 := by rw [hk, hz.mp hzero]
    apply (remove_last ha hpre.sound h₂ ho hmem hone _).mono
    rintro _ _ _ ⟨rfl, w₃, rfl, hd₃, hlast⟩ w₄ hu₄
    obtain ⟨A', heffect, hr⟩ := hlast w₄ hu₄
    exact ⟨hd₃.rely hu₄, fun hne => absurd rfl hne, fun _ => ⟨A', _, .inr heffect, hr, rfl, rfl⟩⟩
  · have hmore : 1 < A.ledger.refs ⟨a, o.serial⟩ := by
      have := hz.not.mp hzero
      omega
    intro w₃ hu₃
    obtain ⟨A', hstep, hr⟩ := h₂.give hmem hmore hn ho rfl
    exact ⟨(hd₂.updateActiveSessions _).rely hu₃, fun hne => absurd rfl hne, fun _ =>
      ⟨A', _, .inr (.give ha hstep (refsAt_erase hmem hr.ledger)), hr.settle hu₃, rfl, rfl⟩⟩

/-- A null pointer stands for no session. -/
theorem remove_null : (ActiveSessions.remove none : Code R Unit).Serves (registry R careful) .activeSessions c
    (fun _ g' z => z = none ∧ g' = g) g none := by
  refine ⟨fun hne => absurd rfl hne, fun _ A w hpre hrel w₁ hu₁ => ?_⟩
  have h₁ : Refines ⟨w₁, A.ledger⟩ A := hrel.other hu₁
  refine ⟨h₁.during hpre.sound, fun _ _ => .same rfl, fun w₂ hu₂ => ?_⟩
  have h₂ : Refines ⟨w₂, A.ledger⟩ A := h₁.other hu₂
  exact ⟨h₂.during hpre.sound, fun hne => absurd rfl hne, fun _ =>
    ⟨A, g, .inl ⟨rfl, rfl⟩, h₂, rfl, rfl⟩⟩

end Remove

end RialtoOcdm.Registry
