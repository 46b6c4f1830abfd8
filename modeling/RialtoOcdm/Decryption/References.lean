import RialtoOcdm.Concurrency.Lending
import RialtoOcdm.Decryption.Memory

/-! The references of buffers that are decrypted. Whatever the threads of an application do
with buffers, as long as they have a reference to each that they use, none is used after its
end, the counts are the references that there are, and when all have been given back nothing
is left, unless buffers hold one another in a circle. -/

namespace RialtoOcdm.Pointers

open Concurrency Ownership Prog

section Owning

variable {σ S : Type} [GstStructure S] [GStreamer σ S] {own : Multiset Addr} {b : Addr}

/-! ### Operations -/

namespace CountsReferences

variable (h : CountsReferences σ)

include h

theorem owns_allocate {size : ℕ} : (update (GStreamer.gstBufferNewAllocate size) : Code σ Addr).Owns
    Exactly (fun b own' => own' = b ::ₘ own) own := by
  intro m rest hm
  refine ⟨_ ::ₘ own, ?_, rfl⟩
  rw [Multiset.cons_add]
  exact h.allocate size hm

theorem owns_fill {src : Bytes} (hb : b ∈ own) : (modify (GStreamer.gstBufferFill b src) : Code σ Unit).Owns
    Exactly (fun _ own' => own' = own) own :=
  fun _ _ hm => ⟨own, h.fill src hm (Multiset.mem_add.mpr (.inl hb)), rfl⟩

theorem owns_ref (hb : b ∈ own) : (modify (GStreamer.gstBufferRef b) : Code σ Unit).Owns
    Exactly (fun _ own' => own' = b ::ₘ own) own := by
  intro m rest hm
  refine ⟨b ::ₘ own, ?_, rfl⟩
  rw [Multiset.cons_add]
  exact h.ref hm (Multiset.mem_add.mpr (.inl hb))

theorem owns_unref : (modify (GStreamer.gstBufferUnref b) : Code σ Unit).Owns
    Exactly (fun _ own' => own' = own) (b ::ₘ own) := by
  intro m rest hm
  rw [Multiset.cons_add] at hm
  exact ⟨own, h.unref hm, rfl⟩

theorem owns_size {b : Option Addr} (hb : ∀ x ∈ b.toList, x ∈ own) :
    (update (GStreamer.gstBufferGetSize b) : Code σ ℕ).Owns Exactly (fun _ own' => own' = own) own :=
  fun _ _ hm => ⟨own, h.getSize hm fun x hx => Multiset.mem_add.mpr (.inl (hb x hx)), rfl⟩

theorem owns_new {name : String} {fields : List (String × GValue)}
    (hfields : ∀ field ∈ fields, ∀ b ∈ field.2.pointers, b ∈ own) :
    (update (GStreamer.gstStructureNew name fields) : Code σ S).Owns Exactly
      (fun s own' => own' = GstStructure.pointers s + own) own := by
  intro m rest hm
  refine ⟨_, ?_, rfl⟩
  rw [add_assoc]
  exact h.structureNew name hm fun field hf b hb => Multiset.mem_add.mpr (.inl (hfields field hf b hb))

/-- A structure that has a field set still has its references, and those are all. -/
theorem owns_set {s : S} {field : String} {value : GValue} (hv : ∀ b ∈ value.pointers, b ∈ own) :
    (update (GStreamer.gstStructureSet s field value) : Code σ S).Owns Exactly
      (fun s own' => own' = GstStructure.pointers s + own) (GstStructure.pointers s + own) := by
  intro m rest hm
  refine ⟨_, ?_, rfl⟩
  rw [add_assoc] at hm ⊢
  exact h.structureSet field hm fun b hb => Multiset.mem_add.mpr (.inl (hv b hb))

theorem owns_protectionMeta (hb : b ∈ own) :
    (update (GStreamer.gstBufferGetProtectionMeta b) : Code σ (Option S)).Owns Exactly
      (fun _ own' => own' = own) own :=
  fun _ _ hm => ⟨own, (h.getProtectionMeta hm (Multiset.mem_add.mpr (.inl hb))).1, rfl⟩

/-- The copy of a structure has references of its own. -/
theorem owns_copy (hb : b ∈ own) : (copyProtectionMeta b : Code σ (Option S)).Owns Exactly
    (fun s own' => own' = (s.elim [] GstStructure.pointers : List Addr) + own) own := by
  intro m rest hm
  obtain ⟨hexact, hlive⟩ := h.getProtectionMeta hm (Multiset.mem_add.mpr (.inl hb))
  rcases hget : (GStreamer.gstBufferGetProtectionMeta b m : Option S × σ) with ⟨_ | s, m'⟩
  · rw [hget] at hexact
    refine ⟨own, ?_, ?_⟩
    · simpa [copyProtectionMeta, hget] using hexact
    · simp [hget, Owns]
  · rw [hget] at hexact hlive
    have hcopy := h.structureCopy hexact (hlive s rfl)
    refine ⟨GstStructure.pointers (GStreamer.gstStructureCopy s m').1 + own, ?_, ?_⟩
    · rw [add_assoc]
      simpa [copyProtectionMeta, hget] using hcopy
    · simp [hget, Owns]

theorem owns_protect {info : S} (hb : b ∈ own) :
    (modify (GStreamer.gstBufferAddProtectionMeta b info) : Code σ Unit).Owns Exactly
      (fun _ own' => own' = own) (GstStructure.pointers info + own) := by
  intro m rest hm
  rw [add_assoc] at hm
  exact ⟨own, h.addProtectionMeta hm (Multiset.mem_add.mpr (.inl hb)), rfl⟩

/-- Metadata takes over the references of a structure, and will give them back. -/
theorem owns_rialto {info : S} (hb : b ∈ own) : (rialtoMseAddProtectionMetadata b info : Code σ Unit).Owns
    Exactly (fun _ own' => own' = own) (GstStructure.pointers info + own) := by
  intro m rest hm
  rw [add_assoc] at hm
  exact ⟨own, h.addMeta hm (Multiset.mem_add.mpr (.inl hb)), rfl⟩

end CountsReferences

/-! ### Sessions -/

variable {info : S} {buffer : Addr}

variable (own info) in
/-- What is done to a structure that has its references, `own` aside. -/
abbrev Edits (p : Code σ S) : Prop :=
  p.Owns Exactly (fun s own' => own' = GstStructure.pointers s + own) (GstStructure.pointers info + own)

namespace Session

variable (h : CountsReferences σ) {session : Session}

include h

theorem owns_newKey : (session.newKey : Code σ Addr).Owns Exactly (fun b own' => own' = b ::ₘ own) own := by
  refine Owns.bind (h.owns_allocate.mono ?_)
  rintro key _ rfl
  refine Owns.bind ((h.owns_fill (Multiset.mem_cons_self _ _)).mono ?_)
  rintro _ _ rfl
  exact rfl

theorem owns_keyToApply {keyID : Option Addr} (hkey : ∀ x ∈ keyID.toList, x ∈ own) :
    (session.keyToApply keyID : Code σ _).Owns Exactly (fun r own' => (∀ x ∈ r.1.toList, x ∈ own') ∧
      own' = (if r.2 then r.1.toList else [] : List Addr) + own) own := by
  cases keyID with
  | none => exact ⟨hkey, (zero_add _).symm⟩
  | some keyID =>
    refine Owns.bind ((h.owns_size hkey).mono ?_)
    rintro size _ rfl
    split_ifs
    · refine Owns.bind ((owns_newKey h).mono ?_)
      rintro key _ rfl
      exact ⟨by simp, rfl⟩
    · exact ⟨hkey, (zero_add _).symm⟩

theorem edits_setUint {field : String} {value : Option UInt32} :
    Edits own info (setUint info field value : Code σ S) := by
  cases value with
  | none => exact rfl
  | some n => exact h.owns_set (by simp [GValue.pointers])

theorem edits_copyCipherMode {protection : S} :
    Edits own info (copyCipherMode info protection : Code σ S) := by
  unfold copyCipherMode
  split
  · exact rfl
  · refine Owns.bind ((h.owns_set (by simp [GValue.pointers])).mono ?_)
    rintro info _ rfl
    refine Owns.bind ((edits_setUint h).mono ?_)
    rintro info _ rfl
    exact edits_setUint h

/-- A call that is given arguments gives back the references that it takes. -/
theorem owns_addProtectionMetaOf {subSample iv keyID : Option Addr} {subSampleCount initWithLast15 : UInt32}
    (hbuffer : buffer ∈ own) (hsubSample : ∀ x ∈ subSample.toList, x ∈ own)
    (hiv : ∀ x ∈ iv.toList, x ∈ own) (hkey : ∀ x ∈ keyID.toList, x ∈ own) :
    (session.addProtectionMetaOf buffer subSample subSampleCount iv keyID initWithLast15 : Code σ Unit).Owns
      Exactly (fun _ own' => own' = own) own := by
  refine Owns.bind ((owns_keyToApply h hkey).mono ?_)
  rintro ⟨key, shouldReleaseKey⟩ own' ⟨hkey', hown'⟩
  have hmore : ∀ x ∈ own, x ∈ own' := by
    rw [hown']
    exact fun x hx => Multiset.mem_add.mpr (.inr hx)
  refine Owns.bind ((h.owns_size fun x hx => hmore x (hiv x hx)).mono ?_)
  rintro ivSize own' rfl
  refine Owns.bind ((h.owns_new ?_).mono ?_)
  · simp only [List.forall_mem_cons, GValue.pointers, List.not_mem_nil, false_imp_iff, implies_true,
      and_true, true_and]
    exact ⟨hkey', fun x hx => hmore x (hiv x hx), fun x hx => hmore x (hsubSample x hx)⟩
  rintro info _ rfl
  refine Owns.bind ((h.owns_protectionMeta (Multiset.mem_add.mpr (.inr (hmore _ hbuffer)))).mono ?_)
  rintro protectionMeta _ rfl
  have hcopy : Edits own' info (protectionMeta.elim (pure info) (copyCipherMode info) : Code σ S) := by
    cases protectionMeta with
    | none => exact rfl
    | some protection => exact edits_copyCipherMode h
  refine Owns.bind (hcopy.mono ?_)
  rintro info _ rfl
  refine Owns.bind ((h.owns_rialto (hmore _ hbuffer)).mono ?_)
  rintro _ own' rfl
  subst hown'
  cases shouldReleaseKey with
  | false => exact zero_add own
  | true =>
    cases key with
    | none => exact zero_add own
    | some key =>
      refine Owns.bind (h.owns_unref.mono ?_)
      rintro _ _ rfl
      exact rfl

theorem edits_setUnlessTyped {field : String} {value : GValue} (hv : value.pointers = []) :
    Edits own info (setUnlessTyped info field value : Code σ S) := by
  unfold setUnlessTyped
  split_ifs
  · exact rfl
  · exact h.owns_set (by simp [hv])

theorem edits_setIvSize : Edits own info (setIvSize info : Code σ S) := by
  unfold setIvSize
  split_ifs
  · refine Owns.bind ((h.owns_size fun x hx => Multiset.mem_add.mpr (.inl (h.getBuffer hx))).mono ?_)
    rintro size _ rfl
    exact h.owns_set (by simp [GValue.pointers])
  · exact rfl

theorem edits_setKeyId : Edits own info (session.setKeyId info : Code σ S) := by
  unfold setKeyId
  split_ifs
  · exact rfl
  · refine Owns.bind ((owns_newKey h).mono ?_)
    rintro keyID _ rfl
    rw [← Multiset.add_cons]
    refine Owns.bind ((h.owns_set (by simp [GValue.pointers])).mono ?_)
    rintro info _ rfl
    rw [Multiset.add_cons]
    refine Owns.bind (h.owns_unref.mono ?_)
    rintro _ _ rfl
    exact rfl

/-- So does one that is given a buffer with protection metadata. -/
theorem owns_addProtectionMeta (hbuffer : buffer ∈ own) :
    (session.addProtectionMeta buffer : Code σ Bool).Owns Exactly (fun _ own' => own' = own) own := by
  refine Owns.bind ((h.owns_copy hbuffer).mono ?_)
  rintro (_ | info) _ rfl
  · exact zero_add own
  · refine Owns.bind ((h.owns_set (by simp [GValue.pointers])).mono ?_)
    rintro info _ rfl
    refine Owns.bind ((edits_setUnlessTyped h rfl).mono ?_)
    rintro info _ rfl
    refine Owns.bind ((edits_setIvSize h).mono ?_)
    rintro info _ rfl
    refine Owns.bind ((edits_setUnlessTyped h rfl).mono ?_)
    rintro info _ rfl
    refine Owns.bind ((edits_setKeyId h).mono ?_)
    rintro info _ rfl
    refine Owns.bind ((h.owns_rialto hbuffer).mono ?_)
    rintro _ _ rfl
    exact rfl

end Session

/-! ### Calls -/

/-- The buffers that a call is given. -/
def Call.uses : Call → List Addr
  | .newBuffer _ => []
  | .ref buffer => [buffer]
  | .unref buffer => [buffer]
  | .protect buffer _ fields => buffer :: fields.flatMap (·.2.pointers)
  | .decrypt _ buffer subSample _ iv keyID _ =>
    buffer :: (subSample.toList ++ iv.toList ++ keyID.toList)
  | .decryptBuffer _ buffer => [buffer]

variable (σ) in
/-- A call is lent a reference to each buffer that it is given. It gives them back, and if it
is to, it makes one reference more or one less. -/
def lending : Lending σ Call Reply (Multiset Addr) where
  holds := Exactly
  start c := c.uses.dedup
  finish c r := match c, r with
    | .newBuffer _, .created buffer => {buffer}
    | .ref buffer, _ => {buffer, buffer}
    | .unref _, _ => 0
    | c, _ => c.uses.dedup

theorem entry_owns (h : CountsReferences σ) (c : Call) : (entry c).Owns (lending σ).holds
    (fun r own' => own' = (lending σ).finish c r) ((lending σ).start c) := by
  have huses : ∀ x ∈ c.uses, x ∈ (lending σ).start c := fun x hx => by simpa [lending] using hx
  cases c with
  | newBuffer bytes =>
    refine Owns.bind (h.owns_allocate.mono ?_)
    rintro buffer _ rfl
    refine Owns.bind ((h.owns_fill (Multiset.mem_cons_self _ _)).mono ?_)
    rintro _ _ rfl
    exact rfl
  | ref buffer =>
    refine Owns.bind ((h.owns_ref (huses buffer List.mem_cons_self)).mono ?_)
    rintro _ _ rfl
    exact rfl
  | unref buffer =>
    have hstart : (lending σ).start (.unref buffer) = buffer ::ₘ 0 := rfl
    rw [hstart]
    refine Owns.bind (h.owns_unref.mono ?_)
    rintro _ _ rfl
    exact rfl
  | protect buffer name fields =>
    have hfields : ∀ field ∈ fields, ∀ b ∈ field.2.pointers,
        b ∈ (lending σ).start (.protect buffer name fields) := fun field hf b hb =>
      huses b (List.mem_cons_of_mem _ (List.mem_flatMap.mpr ⟨field, hf, hb⟩))
    refine Owns.bind ((h.owns_new hfields).mono ?_)
    rintro info _ rfl
    refine Owns.bind ((h.owns_protect (huses buffer List.mem_cons_self)).mono ?_)
    rintro _ _ rfl
    exact rfl
  | decrypt session buffer subSample subSampleCount iv keyID initWithLast15 =>
    cases session with
    | none => exact rfl
    | some session =>
      refine Owns.bind (Owns.bind ((Session.owns_addProtectionMetaOf h (huses buffer List.mem_cons_self)
        (fun x hx => huses x ?_) (fun x hx => huses x ?_) fun x hx => huses x ?_).mono ?_))
      · simp [Call.uses, hx]
      · simp [Call.uses, hx]
      · simp [Call.uses, hx]
      · rintro _ _ rfl
        exact rfl
  | decryptBuffer session buffer =>
    cases session with
    | none => exact rfl
    | some session =>
      refine Owns.bind (Owns.bind ((Session.owns_addProtectionMeta h
        (huses buffer List.mem_cons_self)).mono ?_))
      rintro _ _ rfl
      exact rfl

/-! ### All interleavings -/

section Runs

variable {ι : Type} [Fintype ι] [DecidableEq ι]

/-- If GStreamer counts references, then whatever threads do with buffers that they have
references to, no buffer is used after its end, and those that clients and metadata have
references to are alive. When no call is under way, the counts are the references of the two,
and a buffer that is alive is held by clients, by way of metadata, unless it is held by buffers
that hold one another in a circle. -/
theorem buffers_counted (h : CountsReferences σ) {m₀ : σ} (hm₀ : Exactly m₀ 0)
    {cfg : Config σ Empty Empty ι Call Reply}
    (hr : ReachesUnder (lending σ).Covered entry (.idle m₀ []) cfg) :
    (GStreamer.heap cfg.shared).misused = false ∧
    (∀ b ∈ (GStreamer.heap cfg.shared).live, ∀ x ∈ ((GStreamer.heap cfg.shared).value b).pointers,
      x ∈ (GStreamer.heap cfg.shared).live) ∧
    ∃ clients, (lending σ).Have cfg clients ∧ (∀ b ∈ clients, b ∈ (GStreamer.heap cfg.shared).live) ∧
      ((∀ t, cfg.thread t = none) →
        (∀ b ∈ (GStreamer.heap cfg.shared).live, (GStreamer.heap cfg.shared).count b =
          ((GStreamer.heap cfg.shared).refs GstBuffer.pointers clients).count b) ∧
        ∀ b ∈ (GStreamer.heap cfg.shared).live,
          ∃ x, (x ∈ clients ∨ (GStreamer.heap cfg.shared).OnCircle GstBuffer.pointers x) ∧
            Relation.ReflTransGen ((GStreamer.heap cfg.shared).Holds GstBuffer.pointers) x b) := by
  obtain ⟨clients, own, hshared⟩ :=
    (Lending.Shared.start (L := lending σ) (ι := ι) hm₀).reaches (entry_owns h) hr
  have hexact : Exactly cfg.shared (clients + ∑ t, own t) := hshared.state
  refine ⟨hexact.sound, fun b hb x hx => hexact.live_holds hb hx, clients, hshared.clients,
    fun b hb => hexact.live (Multiset.mem_add.mpr (.inl hb)), fun hidle => ?_⟩
  have hnone : ∑ t, own t = 0 := Finset.sum_eq_zero fun t _ => hshared.idle t (hidle t)
  rw [hnone, add_zero] at hexact
  refine ⟨fun b hb => ?_, fun b hb => hexact.reached hb⟩
  rw [hexact.counted, if_pos hb]

end Runs

end Owning

/-- Nothing is in memory. -/
def nothing : Memory := .empty ⟨[], [], []⟩

/-- A condition for what clients lend to be theirs. -/
def coveredBy (cfg : Config Memory Empty Empty (Fin 2) Call Reply) : Action (Fin 2) Call → Bool
  | .call _ c => decide ((lending Memory).start c + (lending Memory).lent cfg ≤ (lending Memory).given cfg)
  | _ => true

theorem covered_of_coveredBy {cfg : Config Memory Empty Empty (Fin 2) Call Reply}
    {b : Action (Fin 2) Call} (h : coveredBy cfg b = true) : (lending Memory).Covered cfg b := by
  rintro t c rfl
  obtain ⟨m, hm⟩ := Multiset.le_iff_exists_add.mp (of_decide_eq_true h)
  refine ⟨m, ?_⟩
  rw [Lending.Have, hm, add_comm m, add_right_comm]

/-- Two threads decrypt a sample each at the same time, with one key id, which is empty, so
that a selected one is attached. Then the key id, the initialisation vector and the first
sample are given back. -/
def decrypting : List (Action (Fin 2) Call) :=
  let run (t : Fin 2) (n : ℕ) : List (Action (Fin 2) Call) := .replicate n (.run t)
  [.call 0 (.newBuffer [1, 2])] ++ run 0 3 ++ [.call 0 (.newBuffer [])] ++ run 0 3 ++
  [.call 0 (.newBuffer [5])] ++ run 0 3 ++ [.call 1 (.newBuffer [8])] ++ run 1 3 ++
  [.call 0 (.ref 2)] ++ run 0 2 ++
  [.call 0 (.decrypt (some ⟨[7, 7], 3⟩) 1 none 0 (some 3) (some 2) 0),
    .call 1 (.decrypt (some ⟨[7, 7], 3⟩) 4 none 0 none (some 2) 0)] ++
  run 0 4 ++ run 1 4 ++ run 0 5 ++ run 1 5 ++
  [.call 0 (.unref 2)] ++ run 0 2 ++ [.call 1 (.unref 2)] ++ run 1 2 ++
  [.call 1 (.unref 3)] ++ run 1 2 ++ [.call 0 (.unref 1)] ++ run 0 2

theorem buffers_counted_decrypting :
    ∃ cfg : Config Memory Empty Empty (Fin 2) Call Reply,
      ReachesUnder (lending Memory).Covered entry (.idle nothing []) cfg ∧
      (cfg.shared.live = {4, 6} ∧ cfg.shared.misused = false) ∧
      ∃ clients, (lending Memory).Have cfg clients ∧ (∀ b ∈ clients, b ∈ cfg.shared.live) ∧
        ∀ b ∈ cfg.shared.live, cfg.shared.count b = (cfg.shared.refs GstBuffer.pointers clients).count b := by
  have hf : (followUnder coveredBy entry decrypting (.idle nothing [])).map
      (fun cfg => decide (cfg.shared.live = {4, 6} ∧ ∀ t, cfg.thread t = none)) = some true := by decide
  obtain ⟨cfg, hcfg, hlive⟩ := Option.map_eq_some_iff.mp hf
  have hr := reachesUnder_of_followUnder (fun _ _ _ => covered_of_coveredBy) hcfg
  obtain ⟨hleft, hidle⟩ := of_decide_eq_true hlive
  obtain ⟨hsound, -, clients, hclients, hheld, hcounts⟩ := buffers_counted counts_references (.empty _) hr
  exact ⟨cfg, hr, ⟨hleft, hsound⟩, clients, hclients, hheld, (hcounts hidle).1⟩

end RialtoOcdm.Pointers
