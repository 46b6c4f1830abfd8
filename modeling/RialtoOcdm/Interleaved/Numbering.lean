import RialtoOcdm.Concurrency.Alone
import RialtoOcdm.Interleaved.Effects
import RialtoOcdm.Interleaved.Entries
import RialtoOcdm.Sequential.Runs

/-! Sessions are numbered in the order of their construction, whatever is called and
however calls overlap. So a session is constructed once, with one table of callbacks. -/

namespace RialtoOcdm

open Concurrency Protocol Rialto

variable {R : Type}

/-- The numbers of the sessions that a story constructs. -/
def numbers (hs : List Happening) : List ℕ :=
  hs.filterMap fun
    | .constructed n .. => some n
    | _ => none

/-- No session has the number of an earlier one, and none a number that is not allocated. -/
structure Numbered (w : World R) : Prop where
  nodup : (numbers (story w.journal)).Nodup
  le : ∀ n ∈ numbers (story w.journal), n ≤ w.allocated

/-- No session is constructed. -/
def SameNumbers (w w' : World R) : Prop :=
  numbers (story w'.journal) = numbers (story w.journal) ∧ w'.allocated = w.allocated

variable {ρ : Rules R} {held : List Mutex} {w w' : World R}

theorem SameNumbers.record (h : SameNumbers w w') {e : Event} (he : numbers e.happening.toList = []) :
    SameNumbers w (w'.record e) := by
  refine ⟨h.1 ▸ ?_, h.2⟩
  cases hh : e.happening with
  | none => rw [World.record_journal, story_cons_of_none hh]
  | some x =>
    rw [hh] at he
    rw [World.record_journal, story_cons hh, ← List.singleton_append, numbers, List.filterMap_append]
    exact congrArg (· ++ _) he

theorem SameNumbers.use (h : SameNumbers w w') {w₁ : World R} {a : Addr} {m : Member}
    (hj : w₁.journal = (w'.use a m).journal) (hall : w₁.allocated = w'.allocated) : SameNumbers w w₁ := by
  rw [World.use_journal] at hj
  split_ifs at hj
  · exact ⟨hj ▸ h.1, hall.trans h.2⟩
  · obtain ⟨h₁, h₂⟩ := h.record (e := .misused a m) rfl
    exact ⟨hj ▸ h₁, hall.trans h₂⟩

variable [MediaKeys R]

/-- What a step does to the numbers. -/
theorem Act.numbers (h : Act ρ held w w') : SameNumbers w w' ∨
    numbers (story w'.journal) = (w.allocated + 1) :: numbers (story w.journal) ∧
      w'.allocated = w.allocated + 1 := by
  have hrefl : SameNumbers w w := ⟨rfl, rfl⟩
  have hforward : ∀ (r : R) sys i call, SameNumbers w ((w.setRialto r).record (.forwarded sys i call)) :=
    fun r sys i call => SameNumbers.record (show SameNumbers w (w.setRialto r) from ⟨rfl, rfl⟩) rfl
  cases h with
  | read => exact .inl hrefl
  | use a m => exact .inl (hrefl.use rfl rfl)
  | createMediaKeys sys =>
    simp only [World.createMediaKeys, World.assignMediaKeys]
    split_ifs <;> exact .inl ⟨rfl, rfl⟩
  | pass sys call =>
    exact .inl (World.ask_snd (p := SameNumbers w) (hrefl.record rfl) fun i => hforward _ sys i _)
  | getCdmKeySessionId sys id a =>
    refine .inl (World.ask_snd (p := SameNumbers w) (hrefl.record rfl) fun i => ?_)
    unfold CdmBackend.storeCdmKeySessionId
    split
    · exact hforward _ sys i _
    · exact (hforward _ sys i _).use rfl rfl
  | createKeySession sys sessionType isLDL a =>
    refine .inl (World.ask_snd (p := SameNumbers w) (hrefl.record rfl) fun i => ?_)
    unfold CdmBackend.storeKeySessionId
    dsimp only
    split_ifs
    · refine SameNumbers.record ?_ rfl
      split
      · exact hforward _ sys i _
      · exact (hforward _ sys i _).use rfl rfl
    · split
      · exact hforward _ sys i _
      · exact (hforward _ sys i _).use rfl rfl
  | setHandle => exact .inl (hrefl.use rfl rfl)
  | setInitialized => exact .inl (hrefl.use rfl rfl)
  | setCdmKeySessionId => exact .inl (hrefl.use rfl rfl)
  | setPlayreadyKeyId => exact .inl (hrefl.use rfl rfl)
  | clearHandle => exact .inl (hrefl.use rfl rfl)
  | clearChallenge a =>
    exact .inl (SameNumbers.record (hrefl.use (m := .challengeData) rfl rfl) rfl)
  | clearKeyStatuses => exact .inl (hrefl.use rfl rfl)
  | challenge a challenge =>
    exact .inl (SameNumbers.record (hrefl.use (m := .challengeData) rfl rfl) rfl)
  | keyStatus => exact .inl (hrefl.use rfl rfl)
  | allocate a ha => exact .inr ⟨rfl, rfl⟩
  | _ => exact .inl ⟨rfl, rfl⟩

theorem Numbered.act (h : Numbered w) (ha : Act ρ held w w') : Numbered w' := by
  rcases ha.numbers with ⟨hn, hall⟩ | ⟨hn, hall⟩
  · exact ⟨hn ▸ h.nodup, fun n hmem => hall ▸ h.le n (hn ▸ hmem)⟩
  · refine ⟨hn ▸ List.nodup_cons.mpr ⟨fun hmem => ?_, h.nodup⟩, fun n hmem => ?_⟩
    · exact absurd (h.le _ hmem) (by omega)
    · rw [hn, List.mem_cons] at hmem
      rcases hmem with rfl | hmem
      · exact hall.ge
      · exact (h.le n hmem).trans (by omega)

/-- All is allowed under the rules of the mutexes. -/
def numbering : Protocol (World R) Mutex Call where
  inv := Numbered
  free _ _ := True
  may _ held w w' := w.journal <:+ w'.journal ∧
    ∀ sys, .dispatcher sys ∉ held → w'.clients sys = w.clients sys
  request _ _ _ _ := True

theorem numbering_sound : Sound (numbering (R := R)) (fun _ _ _ => True) entry :=
  openSound (fun _ _ _ _ hi ha => ⟨⟨ha.explains.suffix, fun _ => ha.clients_of_not_mem⟩, hi.act ha⟩)
    (fun _ _ _ _ hm => hm.1) (fun _ _ _ _ sys hm => hm.2 sys) (fun _ _ _ _ _ => trivial) fun _ _ => trivial

theorem Reachable.numbered {x : Run (World R) Mutex Condition Reply} (hx : Reachable x) :
    Numbered x.shared := by
  obtain ⟨rialto, keySystem, mediaKeysFactory, hr⟩ := hx
  have hstart : Numbered (World.start rialto keySystem mediaKeysFactory) :=
    ⟨List.nodup_nil, fun n hn => absurd hn List.not_mem_nil⟩
  exact numbering_sound.run (fun _ _ _ => trivial) hstart hr

end RialtoOcdm
