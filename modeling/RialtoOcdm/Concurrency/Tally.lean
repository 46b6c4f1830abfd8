import RialtoOcdm.Concurrency.Machine
import Mathlib.Data.List.Perm.Basic

/-! Calls that leave a note each. The state has a list of notes, the last one in front, and
every call adds its own in one of its steps. Then the notes are those of the calls that
have returned and of some that are under way, each once; and where the calls of a kind are
all made by one thread, their notes are in the order of the calls. -/

namespace Concurrency

variable {σ μ χ ι κ ρ ν α β : Type}

namespace Prog

/-- From a place where the note `n` was taken if `b`, the program comes to its end with it
taken if `b'`; it takes no other note. -/
def Notes (noted : σ → List ν) (n : ν) : Prog σ μ χ α → Bool → Bool → Prop
  | ret _, b, b' => b = b'
  | act f k, b, b' => ∀ s, noted (f s) = noted s ∧ (k s).Notes noted n b b' ∨
    b = false ∧ noted (f s) = n :: noted s ∧ (k s).Notes noted n true b'
  | lock _ k, b, b' => k.Notes noted n b b'
  | unlock _ k, b, b' => k.Notes noted n b b'
  | wait _ _ _ _ k, b, b' => k.Notes noted n b b'
  | notifyOne _ k, b, b' => k.Notes noted n b b'

section Notes

variable {noted : σ → List ν} {n : ν} {b b' b'' : Bool} {p : Prog σ μ χ α}

theorem Notes.bind {g : α → Prog σ μ χ β} (h : p.Notes noted n b b')
    (hg : ∀ a, (g a).Notes noted n b' b'') : (p >>= g).Notes noted n b b'' := by
  induction p generalizing b with
  | ret a =>
    obtain rfl : b = b' := h
    exact hg a
  | act f k ih =>
    exact fun s => (h s).imp (fun ⟨he, hk⟩ => ⟨he, ih s hk⟩) fun ⟨hb, he, hk⟩ => ⟨hb, he, ih s hk⟩
  | lock m k ih => exact ih h
  | unlock m k ih => exact ih h
  | wait c m timed ready k ih => exact ih h
  | notifyOne c k ih => exact ih h

theorem Notes.withLock {m : μ} (h : p.Notes noted n b b') :
    (Prog.withLock m p).Notes noted n b b' := h.bind fun _ => rfl

/-- A step that takes no note. -/
theorem Notes.skip {f : σ → σ} {k : σ → Prog σ μ χ α} (hf : ∀ s, noted (f s) = noted s)
    (hk : ∀ s, (k s).Notes noted n b b') : (act f k).Notes noted n b b' := fun s => .inl ⟨hf s, hk s⟩

/-- The step that takes the note. -/
theorem Notes.take {f : σ → σ} {k : σ → Prog σ μ χ α} (hf : ∀ s, noted (f s) = n :: noted s)
    (hk : ∀ s, (k s).Notes noted n true b') : (act f k).Notes noted n false b' :=
  fun s => .inr ⟨rfl, hf s, hk s⟩

end Notes

end Prog

section Tally

variable (noted : σ → List ν) (note : κ → ν)

/-- The notes are those of the calls that have returned and of `pending` ones, with all that
are about to return. -/
structure Tally (cfg : Config σ μ χ ι κ ρ) (pending : List (ι × κ)) : Prop where
  nodup : (pending.map Prod.fst).Nodup
  calls : ∀ t c, (t, c) ∈ pending → ∃ th, cfg.thread t = some th ∧ th.call = c
  about : ∀ t th r, cfg.thread t = some th → th.code = .ret r → (t, th.call) ∈ pending
  perm : (noted cfg.shared).Perm (pending.map (note ·.2) ++ cfg.history.map (note ·.1))

/-- The same, with what is known of the code that is left and of the kind of notes that at
most one thread takes. -/
structure Tallied (kind : ν → Bool) (t₀ : Option ι) (cfg : Config σ μ χ ι κ ρ) (pending : List (ι × κ)) :
    Prop where
  nodup : (pending.map Prod.fst).Nodup
  calls : ∀ t c, (t, c) ∈ pending → ∃ th, cfg.thread t = some th ∧ th.call = c
  code : ∀ t th, cfg.thread t = some th → ∃ b : Bool, (b = true ↔ (t, th.call) ∈ pending) ∧
    th.code.Notes noted (note th.call) b true
  perm : (noted cfg.shared).Perm (pending.map (note ·.2) ++ cfg.history.map (note ·.1))
  own : ∀ t th, cfg.thread t = some th → kind (note th.call) = true → some t = t₀
  order : (noted cfg.shared).filter kind =
    (pending.map (note ·.2) ++ cfg.history.map (note ·.1)).filter kind

variable {noted note} {kind : ν → Bool} {t₀ : Option ι} {cfg cfg' : Config σ μ χ ι κ ρ}
  {pending : List (ι × κ)}

theorem Tallied.tally (h : Tallied noted note kind t₀ cfg pending) : Tally noted note cfg pending where
  nodup := h.nodup
  calls := h.calls
  about t th r ht hr := by
    obtain ⟨b, hb, hn⟩ := h.code t th ht
    rw [hr] at hn
    exact hb.mp hn
  perm := h.perm

theorem Tallied.idle {s : σ} (hs : noted s = []) :
    Tallied noted note kind t₀ (.idle s [] : Config σ μ χ ι κ ρ) [] where
  nodup := .nil
  calls := by simp
  code := by simp [Config.idle]
  perm := by simp [Config.idle, hs]
  own := by simp [Config.idle]
  order := by simp [Config.idle, hs]

/-- A thread is in one call only. -/
theorem Tallied.call_eq (h : Tallied noted note kind t₀ cfg pending) {t : ι} {th : Thread σ μ χ κ ρ}
    (ht : cfg.thread t = some th) {c : κ} (hc : (t, c) ∈ pending) : c = th.call := by
  obtain ⟨th', ht', rfl⟩ := h.calls t c hc
  obtain rfl := Option.some.inj (ht.symm.trans ht')
  rfl

/-- While a call of the kind is under way there is no other one of that kind. -/
theorem Tallied.kind_eq_false (h : Tallied noted note kind t₀ cfg pending) {t u : ι}
    {th : Thread σ μ χ κ ρ} (ht : cfg.thread t = some th) (hk : kind (note th.call) = true) {c : κ}
    (hu : (u, c) ∈ pending) (hne : u ≠ t) : kind (note c) = false := by
  obtain ⟨tu, htu, rfl⟩ := h.calls u c hu
  by_contra hkind
  rw [Bool.not_eq_false] at hkind
  exact hne (Option.some.inj ((h.own u tu htu hkind).trans (h.own t th ht hk).symm))

theorem filter_notes_eq_nil {l : List (ι × κ)} (hl : ∀ t c, (t, c) ∈ l → kind (note c) = false) :
    (l.map (note ·.2)).filter kind = [] := by
  apply List.filter_eq_nil_iff.mpr
  intro n hn
  obtain ⟨⟨t, c⟩, hmem, rfl⟩ := List.mem_map.mp hn
  simp [hl t c hmem]

/-- Where no call of the kind is under way, the notes of the kind are those of the calls that
have returned. -/
theorem Tallied.order_of_not (h : Tallied noted note kind t₀ cfg pending)
    (hnot : ∀ t th, t₀ = some t → cfg.thread t = some th → kind (note th.call) = false) :
    (noted cfg.shared).filter kind = (cfg.history.map (note ·.1)).filter kind := by
  have hnil : (pending.map (note ·.2)).filter kind = [] := filter_notes_eq_nil fun t c hmem => by
    obtain ⟨th, ht, rfl⟩ := h.calls t c hmem
    by_contra hk
    rw [Bool.not_eq_false] at hk
    rw [hnot t th (h.own t th ht hk).symm ht] at hk
    cases hk
  rw [h.order, List.filter_append, hnil, List.nil_append]

variable [DecidableEq ι]

/-- Thread `t` goes on in its call and takes no note. -/
theorem Tallied.stay (h : Tallied noted note kind t₀ cfg pending) {t : ι} {th th' : Thread σ μ χ κ ρ}
    (ht : cfg.thread t = some th)
    (hthread : cfg'.thread = Function.update cfg.thread t (some th')) (hcall : th'.call = th.call)
    (hhistory : cfg'.history = cfg.history) (hshared : noted cfg'.shared = noted cfg.shared)
    (hcode : ∀ b : Bool, (b = true ↔ (t, th.call) ∈ pending) →
      th.code.Notes noted (note th.call) b true → th'.code.Notes noted (note th.call) b true) :
    Tallied noted note kind t₀ cfg' pending where
  nodup := h.nodup
  calls u c hu := by
    rw [hthread]
    by_cases hut : u = t
    · subst hut
      exact ⟨th', Function.update_self .., hcall.trans (h.call_eq ht hu).symm⟩
    · rw [Function.update_of_ne hut]
      exact h.calls u c hu
  code u tu hu := by
    rw [hthread] at hu
    rcases Config.update_eq_some hu with ⟨rfl, he⟩ | ⟨-, hu⟩
    · obtain rfl := Option.some.inj he
      obtain ⟨b, hb, hn⟩ := h.code u th ht
      rw [hcall]
      exact ⟨b, hb, hcode b hb hn⟩
    · exact h.code u tu hu
  perm := by rw [hshared, hhistory]; exact h.perm
  own u tu hu hk := by
    rw [hthread] at hu
    rcases Config.update_eq_some hu with ⟨rfl, he⟩ | ⟨-, hu⟩
    · obtain rfl := Option.some.inj he
      exact h.own u th ht (hcall ▸ hk)
    · exact h.own u tu hu hk
  order := by rw [hshared, hhistory]; exact h.order

/-- Thread `t` takes the note of its call. -/
theorem Tallied.take (h : Tallied noted note kind t₀ cfg pending) {t : ι} {th th' : Thread σ μ χ κ ρ}
    (ht : cfg.thread t = some th)
    (hthread : cfg'.thread = Function.update cfg.thread t (some th')) (hcall : th'.call = th.call)
    (hhistory : cfg'.history = cfg.history) (hnot : (t, th.call) ∉ pending)
    (hshared : noted cfg'.shared = note th.call :: noted cfg.shared)
    (hcode : th'.code.Notes noted (note th.call) true true) :
    Tallied noted note kind t₀ cfg' ((t, th.call) :: pending) where
  nodup := by
    refine List.nodup_cons.mpr ⟨fun hmem => hnot ?_, h.nodup⟩
    obtain ⟨⟨u, c⟩, hu, rfl⟩ := List.mem_map.mp hmem
    rwa [← h.call_eq ht hu]
  calls u c hu := by
    rw [hthread]
    by_cases hut : u = t
    · subst hut
      refine ⟨th', Function.update_self .., hcall.trans ?_⟩
      rcases List.mem_cons.mp hu with he | hu
      · exact (Prod.mk.inj he).2.symm
      · exact (h.call_eq ht hu).symm
    · rw [Function.update_of_ne hut]
      refine h.calls u c ((List.mem_cons.mp hu).resolve_left ?_)
      exact fun he => hut (Prod.mk.inj he).1
  code u tu hu := by
    rw [hthread] at hu
    rcases Config.update_eq_some hu with ⟨rfl, he⟩ | ⟨hut, hu⟩
    · obtain rfl := Option.some.inj he
      rw [hcall]
      exact ⟨true, by simp, hcode⟩
    · obtain ⟨b, hb, hn⟩ := h.code u tu hu
      exact ⟨b, hb.trans (by simp [hut]), hn⟩
  perm := by
    rw [hshared, hhistory]
    exact h.perm.cons _
  own u tu hu hk := by
    rw [hthread] at hu
    rcases Config.update_eq_some hu with ⟨rfl, he⟩ | ⟨-, hu⟩
    · obtain rfl := Option.some.inj he
      exact h.own u th ht (hcall ▸ hk)
    · exact h.own u tu hu hk
  order := by
    rw [hshared, hhistory, List.map_cons, List.cons_append, List.filter_cons, List.filter_cons, h.order]

/-- Thread `t` calls. -/
theorem Tallied.call (h : Tallied noted note kind t₀ cfg pending) {t : ι} (ht : cfg.thread t = none)
    {c : κ} {p : Prog σ μ χ ρ} (hp : p.Notes noted (note c) false true)
    (hk : kind (note c) = true → some t = t₀) :
    Tallied noted note kind t₀ (cfg.put t ⟨c, p, [], false⟩) pending where
  nodup := h.nodup
  calls u d hu := by
    obtain ⟨tu, htu, hd⟩ := h.calls u d hu
    refine ⟨tu, ?_, hd⟩
    rw [Config.put_of_ne]
    · exact htu
    · rintro rfl
      simp [ht] at htu
  code u tu hu := by
    rcases Config.update_eq_some hu with ⟨rfl, he⟩ | ⟨-, hu⟩
    · obtain rfl := Option.some.inj he
      refine ⟨false, ?_, hp⟩
      simp only [Bool.false_eq_true, false_iff]
      intro hmem
      obtain ⟨tu, htu, -⟩ := h.calls u _ hmem
      simp [ht] at htu
    · exact h.code u tu hu
  perm := h.perm
  own u tu hu hkind := by
    rcases Config.update_eq_some hu with ⟨rfl, he⟩ | ⟨-, hu⟩
    · obtain rfl := Option.some.inj he
      exact hk hkind
    · exact h.own u tu hu hkind
  order := h.order

/-- The call of thread `t` returns. -/
theorem Tallied.ret (h : Tallied noted note kind t₀ cfg pending) {t : ι} {th : Thread σ μ χ κ ρ}
    (ht : cfg.thread t = some th) {r : ρ} (hcode : th.code = .ret r) : ∃ pending',
      Tallied noted note kind t₀ { cfg with
        thread := Function.update cfg.thread t none, history := (th.call, r) :: cfg.history } pending' := by
  have hmem : (t, th.call) ∈ pending := h.tally.about t th r ht hcode
  obtain ⟨pre, post, rfl⟩ := List.append_of_mem hmem
  have hnodup := h.nodup
  rw [List.map_append, List.map_cons, List.nodup_middle, List.nodup_cons, ← List.map_append] at hnodup
  have hpre : ∀ c, (t, c) ∉ pre ++ post := fun c hc => hnodup.1 (List.mem_map.mpr ⟨(t, c), hc, rfl⟩)
  refine ⟨pre ++ post, hnodup.2, fun u c hu => ?_, fun u tu hu => ?_, ?_, fun u tu hu hk => ?_, ?_⟩
  · obtain ⟨tu, htu, hc⟩ := h.calls u c (by rw [List.mem_append, List.mem_cons] at *; tauto)
    refine ⟨tu, ?_, hc⟩
    dsimp only
    rw [Function.update_of_ne]
    · exact htu
    · rintro rfl
      exact hpre c hu
  · rcases Config.update_eq_some hu with ⟨-, he⟩ | ⟨hut, hu⟩
    · cases he
    · obtain ⟨b, hb, hn⟩ := h.code u tu hu
      exact ⟨b, hb.trans (by simp [hut]), hn⟩
  · apply h.perm.trans
    simp only [List.map_append, List.map_cons, List.append_assoc, List.cons_append]
    apply List.Perm.append_left
    exact List.perm_middle.symm
  · rcases Config.update_eq_some hu with ⟨-, he⟩ | ⟨-, hu⟩
    · cases he
    · exact h.own u tu hu hk
  · dsimp only
    rw [h.order]
    simp only [List.map_append, List.map_cons, List.filter_append, List.filter_cons]
    by_cases hk : kind (note th.call) = true
    · have hother : ∀ u c, (u, c) ∈ pre ++ post → kind (note c) = false := fun u c hu =>
        h.kind_eq_false ht hk (by rw [List.mem_append, List.mem_cons] at *; tauto) fun hut =>
          hpre c (hut ▸ hu)
      rw [filter_notes_eq_nil fun u c hu => hother u c (List.mem_append_left _ hu),
        filter_notes_eq_nil fun u c hu => hother u c (List.mem_append_right _ hu), if_pos hk, if_pos hk]
      rfl
    · rw [if_neg hk, if_neg hk]

variable [Fintype ι] [DecidableEq μ] [DecidableEq χ] {entry : κ → Prog σ μ χ ρ}

omit [DecidableEq ι] [Fintype ι] [DecidableEq μ] [DecidableEq χ] in
theorem notes_wake {th : Thread σ μ χ κ ρ} {n : ν} {b b' : Bool} (h : th.code.Notes noted n b b') :
    th.wake.code.Notes noted n b b' := by
  unfold Thread.wake
  split
  · exact h
  · exact h

omit [Fintype ι] in
/-- The step lemma. -/
theorem Tallied.moves (h : Tallied noted note kind t₀ cfg pending)
    (hentry : ∀ c, (entry c).Notes noted (note c) false true) {a : Action ι κ}
    (hm : Moves entry cfg a cfg') (ha : ∀ t c, a = .call t c → kind (note c) = true → some t = t₀) :
    ∃ pending', Tallied noted note kind t₀ cfg' pending' := by
  have goOn : ∀ {cfg cfg' : Config σ μ χ ι κ ρ} {t : ι} {th th' : Thread σ μ χ κ ρ},
      Tallied noted note kind t₀ cfg pending → cfg.thread t = some th →
      cfg'.thread = Function.update cfg.thread t (some th') → th'.call = th.call →
      cfg'.history = cfg.history →
      cfg'.shared = cfg.shared → (∀ b, th.code.Notes noted (note th.call) b true →
        th'.code.Notes noted (note th.call) b true) → Tallied noted note kind t₀ cfg' pending :=
    fun h ht hthread hcall hhistory hshared hcode =>
      h.stay ht hthread hcall hhistory (congrArg noted hshared) fun b _ => hcode b
  cases hm with
  | call t c ht => exact ⟨pending, h.call ht (hentry c) (ha t c rfl)⟩
  | ret ht hb hcode => exact h.ret ht hcode
  | @act t th f k ht hb hcode =>
    obtain ⟨b, hmem, hn⟩ := h.code t th ht
    rw [hcode] at hn
    rcases hn cfg.shared with ⟨he, hk⟩ | ⟨rfl, he, hk⟩
    · refine ⟨pending, h.stay ht rfl rfl rfl he fun b' hmem' _ => ?_⟩
      obtain rfl : b = b' := Bool.eq_iff_iff.mpr (hmem.trans hmem'.symm)
      exact hk
    · exact ⟨_, h.take ht rfl rfl rfl (by simpa using hmem) he hk⟩
  | lock ht hb hcode hm =>
    exact ⟨pending, goOn h ht rfl rfl rfl rfl fun b hn => by rw [hcode] at hn; exact hn⟩
  | unlock ht hb hcode hm =>
    exact ⟨pending, goOn h ht rfl rfl rfl rfl fun b hn => by rw [hcode] at hn; exact hn⟩
  | goOn ht hb hcode hr =>
    exact ⟨pending, goOn h ht rfl rfl rfl rfl fun b hn => by rw [hcode] at hn; exact hn⟩
  | block ht hb hcode hr hm => exact ⟨pending, goOn h ht rfl rfl rfl rfl fun b hn => hn⟩
  | notifyNobody ht hb hcode hn =>
    exact ⟨pending, goOn h ht rfl rfl rfl rfl fun b hn => by rw [hcode] at hn; exact hn⟩
  | @notify t u th tu c k ht hb hcode hu hw =>
    have hput : Tallied noted note kind t₀ (cfg.put t { th with code := k }) pending :=
      goOn h ht rfl rfl rfl rfl fun b hn => by rw [hcode] at hn; exact hn
    have hu' : (cfg.put t { th with code := k }).thread u = some tu := by
      rw [Config.put_of_ne _ _ (Thread.ne_of_waitsOn ht hb hu hw)]
      exact hu
    exact ⟨pending, goOn hput hu' rfl tu.wake_call rfl rfl fun b => notes_wake⟩
  | wake ht hb => exact ⟨pending, goOn h ht rfl (Thread.wake_call _) rfl rfl fun b => notes_wake⟩
  | timeout ht hb hcode =>
    exact ⟨pending, goOn h ht rfl rfl rfl rfl fun b hn => by rw [hcode] at hn; exact hn⟩

/-- The run lemma, for runs in which notes of the kind are taken by thread `t₀` only. -/
theorem Tallied.reaches {K : Config σ μ χ ι κ ρ → Action ι κ → Prop}
    (h : Tallied noted note kind t₀ cfg pending)
    (hentry : ∀ c, (entry c).Notes noted (note c) false true)
    (hK : ∀ cfg t c, K cfg (.call t c) → kind (note c) = true → some t = t₀)
    (hr : ReachesUnder K entry cfg cfg') : ∃ pending', Tallied noted note kind t₀ cfg' pending' := by
  induction hr with
  | refl => exact ⟨pending, h⟩
  | tail _ hstep ih =>
    obtain ⟨pending', h'⟩ := ih
    obtain ⟨a, ha, hp⟩ := hstep
    exact h'.moves hentry (moves_of_perform hp) fun t c he => hK _ t c (he ▸ ha)

variable (noted note)

/-- In every run the notes are those of the calls. -/
theorem tally_of_reaches {s : σ} (hs : noted s = [])
    (hentry : ∀ c, (entry c).Notes noted (note c) false true)
    (hr : Reaches entry (.idle s []) cfg) : ∃ pending, Tally noted note cfg pending := by
  have hidle : Tallied noted note (fun _ => false) none (.idle s [] : Config σ μ χ ι κ ρ) [] :=
    .idle hs
  obtain ⟨pending, h⟩ := hidle.reaches hentry (fun _ _ _ _ h => nomatch h) hr.under
  exact ⟨pending, h.tally⟩

/-- Where only thread `t₀` makes calls of the kind and it is in none, the notes of the kind
are those of the calls that have returned, in their order. -/
theorem notes_in_order (kind : ν → Bool) (t₀ : ι) {K : Config σ μ χ ι κ ρ → Action ι κ → Prop} {s : σ}
    (hs : noted s = []) (hentry : ∀ c, (entry c).Notes noted (note c) false true)
    (hK : ∀ cfg t c, K cfg (.call t c) → kind (note c) = true → t = t₀)
    (hr : ReachesUnder K entry (.idle s []) cfg)
    (hnot : ∀ th, cfg.thread t₀ = some th → kind (note th.call) = false) :
    (noted cfg.shared).filter kind = (cfg.history.map (note ·.1)).filter kind := by
  have hidle : Tallied noted note kind (some t₀) (.idle s [] : Config σ μ χ ι κ ρ) [] := .idle hs
  obtain ⟨pending, h⟩ := hidle.reaches hentry
    (fun cfg t c hc hk => congrArg some (hK cfg t c hc hk)) hr
  apply h.order_of_not
  rintro _ th ⟨⟩ ht
  exact hnot th ht

end Tally

end Concurrency
