import RialtoOcdm.Decryption.References

/-! What is read of buffers that are decrypted. A structure with pointers stands for one with
the bytes of the buffers, and an operation on the one is the operation on the other. So
decryption attaches the record that is known from contents alone, and it leaves all other
buffers that are reached as they were. -/

namespace RialtoOcdm.Pointers

open Concurrency Ownership Prog

section Alone

variable {σ S : Type} [GstStructure S] [GStreamer σ S]

/-! ### Contents -/

/-- The bytes of the buffers in memory. -/
def bytes (m : σ) (b : Addr) : Bytes := ((GStreamer.heap m).value b).bytes

/-- A buffer as it is known from its metadata. -/
def GstBuffer.content (read : Addr → Bytes) (buffer : GstBuffer S) : RialtoOcdm.GstBuffer where
  protectionMeta := buffer.protectionMeta.map (GstStructure.content read)
  rialtoProtection := buffer.rialtoProtection.filterMap fun emeta => emeta.info.map (GstStructure.content read)

def contents (m : σ) (b : Addr) : RialtoOcdm.GstBuffer := ((GStreamer.heap m).value b).content (bytes m)

/-- What is reached from the references `out`, in metadata of metadata if need be. -/
abbrev Reached (m : σ) (out : Multiset Addr) : Addr → Prop :=
  (GStreamer.heap m).Reached GstBuffer.pointers out

theorem GstBuffer.content_attached {read : Addr → Bytes} {buffer : GstBuffer S} {info : S} :
    ({ buffer with rialtoProtection := buffer.rialtoProtection ++ [⟨some info⟩] } : GstBuffer S).content read =
      (buffer.content read).addProtectionMetadata (GstStructure.content read info) := by
  simp [content, protectionMeta, RialtoOcdm.GstBuffer.addProtectionMetadata]

omit [GstStructure S] in
theorem Reads.bytes {m m' : σ} {b : Addr} (h : Reads m m' (GStreamer.heap m).value)
    (hb : b ∈ (GStreamer.heap m').live) : bytes m' b = bytes m b := congrArg GstBuffer.bytes (h b hb).2

namespace KeepsContents

variable (hk : KeepsContents σ) {read read' : Addr → Bytes}

include hk

theorem buffer_congr {buffer : GstBuffer S} (h : ∀ b ∈ buffer.pointers, read' b = read b) :
    buffer.content read' = buffer.content read := by
  have hmeta : buffer.protectionMeta.map (GstStructure.content read') =
      buffer.protectionMeta.map (GstStructure.content read) :=
    Option.map_congr fun s hs => hk.content_congr fun b hb => h b (GstBuffer.pointers_protectionMeta hs hb)
  have hrialto : ∀ emeta ∈ buffer.rialtoProtection,
      emeta.info.map (GstStructure.content read') = emeta.info.map (GstStructure.content read) := by
    intro emeta hemeta
    refine Option.map_congr fun s hs => hk.content_congr fun b hb => h b ?_
    refine List.mem_append_right _ (List.mem_flatMap.mpr ⟨emeta, hemeta, ?_⟩)
    rw [rialtoEmeProtectionMetadataFree, show emeta.info = some s from hs]
    exact hb
  unfold GstBuffer.content
  rw [hmeta, List.filterMap_congr hrialto]

theorem content_reads {m m' : σ} {s : S} (h : Reads m m' (GStreamer.heap m).value)
    (hs : ∀ b ∈ GstStructure.pointers s, b ∈ (GStreamer.heap m').live) :
    GstStructure.content (bytes m') s = GstStructure.content (bytes m) s :=
  hk.content_congr fun b hb => h.bytes (hs b hb)

end KeepsContents

/-! ### Running alone -/

/-- A call under way, in which the buffers of `k` were found: it has references `more` than the
others have, and what they reach is as it was. -/
structure Over (k : Heap Addr (GstBuffer S)) (out more : Multiset Addr) (m : σ) : Prop where
  exact : Exactly m (more + out)
  reads : ∀ b, k.Reached GstBuffer.pointers out b → (GStreamer.heap m).value b = k.value b

variable {k : Heap Addr (GstBuffer S)} {out more more' : Multiset Addr} {m m' : σ} {b : Addr}

theorem Over.refl (hm : Exactly m (more + out)) : Over (GStreamer.heap m) out more m := ⟨hm, fun _ _ => rfl⟩

theorem Over.live (ho : Over k out more m) (hb : k.Reached GstBuffer.pointers out b ∨ b ∈ more) :
    b ∈ (GStreamer.heap m).live := by
  rcases hb with hb | hb
  · refine ho.exact.live_of_reached (Multiset.le_add_left _ _) (fun y _ hy => ?_) hb
    rw [ho.reads y hy]
    exact List.Subset.refl _
  · exact ho.exact.live (Multiset.mem_add.mpr (.inl hb))

/-- The step lemma: what is alive still has kept its value. -/
theorem Over.goes (ho : Over k out more m) (hm' : Exactly m' (more' + out))
    (hvalue : ∀ b ∈ (GStreamer.heap m').live, b ∈ (GStreamer.heap m).live →
      (GStreamer.heap m').value b = (GStreamer.heap m).value b) : Over k out more' m' := by
  have hkept : ∀ b ∈ (GStreamer.heap m').live, k.Reached GstBuffer.pointers out b →
      (GStreamer.heap m').value b = k.value b := fun b hb hr =>
    (hvalue b hb (ho.live (.inl hr))).trans (ho.reads b hr)
  refine ⟨hm', fun b hb => hkept b (hm'.live_of_reached (Multiset.le_add_left _ _) (fun y hy hr => ?_) hb) hb⟩
  rw [hkept y hy hr]
  exact List.Subset.refl _

theorem Over.reads_goes (ho : Over k out more m) (hm' : Exactly m' (more' + out))
    (h : Reads m m' (GStreamer.heap m).value) : Over k out more' m' :=
  ho.goes hm' fun b hb _ => (h b hb).2

section Operations

variable (hc : CountsReferences σ) (hk : KeepsContents σ)

include hc hk

theorem Over.unref (ho : Over k out (b ::ₘ more) m) :
    (modify (GStreamer.gstBufferUnref b) : Code σ Unit).Ensures (fun _ => False) []
      (fun _ m' => Over k out more m' ∧ Reads m m' (GStreamer.heap m).value) m := by
  have hm := ho.exact
  rw [Multiset.cons_add] at hm
  exact ensures_modify.mpr ⟨ho.reads_goes (hc.unref hm) (hk.unref hm), hk.unref hm⟩

theorem Over.size {b : Option Addr} (ho : Over k out more m) (hb : ∀ x ∈ b.toList, x ∈ more + out) :
    (update (GStreamer.gstBufferGetSize b) : Code σ ℕ).Ensures (fun _ => False) []
      (fun n m' => n = ((b.map (bytes m)).getD []).length ∧ Over k out more m' ∧
        Reads m m' (GStreamer.heap m).value) m := by
  obtain ⟨hsize, hreads⟩ := hk.getSize ho.exact hb
  refine ensures_update.mpr ⟨hsize.trans ?_, ho.reads_goes (hc.getSize ho.exact hb) hreads, hreads⟩
  cases b <;> rfl

theorem Over.set {s : S} {field : String} {value : GValue} (ho : Over k out (GstStructure.pointers s + more) m)
    (hv : ∀ b ∈ value.pointers, b ∈ more + out) :
    (update (GStreamer.gstStructureSet s field value) : Code σ S).Ensures (fun _ => False) []
      (fun s' m' => (Over k out (GstStructure.pointers s' + more) m' ∧ GstStructure.content (bytes m') s' =
        (GstStructure.content (bytes m) s).set field (value.content (bytes m))) ∧
        Reads m m' (GStreamer.heap m).value) m := by
  have hm := ho.exact
  rw [add_assoc] at hm
  have hm' := hc.structureSet field hm hv
  obtain ⟨hcontent, hreads⟩ := hk.structureSet field hm hv
  refine ensures_update.mpr ⟨⟨ho.reads_goes (by rwa [add_assoc]) hreads, ?_⟩, hreads⟩
  rw [hk.content_reads hreads fun b hb => hm'.live (Multiset.mem_add.mpr (.inl hb)), hcontent]

theorem Over.new {name : String} {fields : List (String × GValue)} (ho : Over k out more m)
    (hfields : ∀ field ∈ fields, ∀ b ∈ field.2.pointers, b ∈ more + out) :
    (update (GStreamer.gstStructureNew name fields) : Code σ S).Ensures (fun _ => False) [] (fun s m' =>
      Over k out (GstStructure.pointers s + more) m' ∧ GstStructure.content (bytes m') s =
        RialtoOcdm.GstStructure.new name (fields.map fun field => (field.1, field.2.content (bytes m)))) m := by
  have hm' := hc.structureNew name ho.exact hfields
  obtain ⟨hcontent, hreads⟩ := hk.structureNew name ho.exact hfields
  refine ensures_update.mpr ⟨ho.reads_goes (by rwa [add_assoc]) hreads, ?_⟩
  rw [hk.content_reads hreads fun b hb => hm'.live (Multiset.mem_add.mpr (.inl hb)), hcontent]

theorem Over.protectionMeta (ho : Over k out more m) (hb : b ∈ more + out) :
    (update (GStreamer.gstBufferGetProtectionMeta b) : Code σ (Option S)).Ensures (fun _ => False) []
      (fun s m' => s = ((GStreamer.heap m).value b).protectionMeta ∧ Over k out more m' ∧
        Reads m m' (GStreamer.heap m).value) m := by
  obtain ⟨hmeta, hreads⟩ := hk.getProtectionMeta ho.exact hb
  exact ensures_update.mpr ⟨hmeta, ho.reads_goes (hc.getProtectionMeta ho.exact hb).1 hreads, hreads⟩

/-- A buffer that is new in `m₁` is filled. -/
theorem Over.fillNew {m₁ : σ} {src : Bytes} (ho : Over k out more m) (hm₁ : Exactly m₁ (b ::ₘ (more + out)))
    (hfresh : b ∉ (GStreamer.heap m).live) (hsize : ((GStreamer.heap m₁).value b).bytes.length = src.length)
    (hothers : ∀ x ∈ (GStreamer.heap m₁).live, x ∈ (GStreamer.heap m).live →
      (GStreamer.heap m₁).value x = (GStreamer.heap m).value x) :
    (modify (GStreamer.gstBufferFill b src) : Code σ Unit).Ensures (fun _ => False) []
      (fun _ m' => Over k out (b ::ₘ more) m' ∧ bytes m' b = src ∧ ∀ x ∈ (GStreamer.heap m').live,
        x ∈ (GStreamer.heap m).live → (GStreamer.heap m').value x = (GStreamer.heap m).value x) m₁ := by
  have hm' := hc.fill src hm₁ (Multiset.mem_cons_self _ _)
  have hreads := hk.fill hm₁ (Multiset.mem_cons_self _ _) hsize.symm
  have hvalue : ∀ x ∈ (GStreamer.heap (GStreamer.gstBufferFill b src m₁)).live, x ∈ (GStreamer.heap m).live →
      (GStreamer.heap (GStreamer.gstBufferFill b src m₁)).value x = (GStreamer.heap m).value x := by
    intro x hx hxm
    obtain ⟨hlive, hfill⟩ := hreads x hx
    rw [hfill, Function.update_of_ne (ne_of_mem_of_not_mem hxm hfresh), hothers x hlive hxm]
  refine ensures_modify.mpr ⟨ho.goes (by rwa [Multiset.cons_add]) hvalue, ?_, hvalue⟩
  rw [bytes, (hreads b (hm'.live (Multiset.mem_cons_self _ _))).2, Function.update_self]

/-- A new buffer for a key id. -/
theorem Over.newKey {session : Session} (ho : Over k out more m) :
    (session.newKey : Code σ Addr).Ensures (fun _ => False) [] (fun key m' => Over k out (key ::ₘ more) m' ∧
      bytes m' key = session.playreadyKeyId ∧ ∀ b ∈ (GStreamer.heap m').live, b ∈ (GStreamer.heap m).live →
        (GStreamer.heap m').value b = (GStreamer.heap m).value b) m := by
  obtain ⟨hfresh, hsize, hothers⟩ := hk.allocate session.playreadyKeyId.length ho.exact
  have hm₁ := hc.allocate session.playreadyKeyId.length ho.exact
  refine Ensures.bind (ensures_update.mpr (Ensures.bind ((ho.fillNew hc hk hm₁ hfresh hsize hothers).mono ?_)))
  exact fun _ _ h => ensures_ret.mpr h

end Operations

/-- An operation on a structure with pointers is one on its content. -/
def Carries (k : Heap Addr (GstBuffer S)) (out more : Multiset Addr) (f : S → Code σ S)
    (F : RialtoOcdm.GstStructure → RialtoOcdm.GstStructure) : Prop :=
  ∀ s m, Over k out (GstStructure.pointers s + more) m → (f s).Ensures (fun _ => False) [] (fun s' m' =>
    Over k out (GstStructure.pointers s' + more) m' ∧
      GstStructure.content (bytes m') s' = F (GstStructure.content (bytes m) s)) m

namespace Carries

variable {f g : S → Code σ S} {F G : RialtoOcdm.GstStructure → RialtoOcdm.GstStructure}

theorem bind (hf : Carries k out more f F) (hg : Carries k out more g G) :
    Carries k out more (fun s => f s >>= g) fun c => G (F c) := by
  intro s m ho
  refine Ensures.bind ((hf s m ho).mono ?_)
  rintro s₁ m₁ ⟨ho₁, hc₁⟩
  have hrest := hg s₁ m₁ ho₁
  rwa [hc₁] at hrest

theorem pure : Carries k out more (fun s => (ret s : Code σ S)) fun c => c :=
  fun _ _ ho => ensures_ret.mpr ⟨ho, rfl⟩

variable (hc : CountsReferences σ) (hk : KeepsContents σ)

include hc hk

theorem set {field : String} {value : GValue} {x : RialtoOcdm.GValue} (hv : value.pointers = [])
    (hx : ∀ read, value.content read = x) : Carries k out more
      (fun s => (update (GStreamer.gstStructureSet s field value) : Code σ S)) (·.set field x) := by
  intro s m ho
  apply (ho.set hc hk (by simp [hv])).mono
  rintro s' m' ⟨⟨ho', hcontent⟩, -⟩
  exact ⟨ho', by rw [hcontent, hx]⟩

theorem setUint {field : String} {value : Option UInt32} :
    Carries k out more (fun s => (Session.setUint s field value : Code σ S))
      fun c => value.elim c fun n => c.set field (.uint n) := by
  cases value with
  | none => exact pure
  | some n => exact set hc hk rfl fun _ => rfl

theorem copyCipherMode {protection : S} {read : Addr → Bytes} :
    Carries k out more (fun s => (Session.copyCipherMode s protection : Code σ S))
      (OpenCDMSessionPrivate.copyCipherMode · (GstStructure.content read protection)) := by
  unfold Session.copyCipherMode OpenCDMSessionPrivate.copyCipherMode
  rw [← hk.getString, ← hk.getUint, ← hk.getUint]
  cases GstStructure.getString protection "cipher-mode" with
  | none => exact pure
  | some cipherMode => exact (set hc hk rfl fun _ => rfl).bind ((setUint hc hk).bind (setUint hc hk))

theorem copyMeta {protection : Option S} (read : Addr → Bytes) : Carries k out more
      (fun s => (protection.elim (ret s) (Session.copyCipherMode s) : Code σ S)) fun c =>
        (protection.map (GstStructure.content read)).elim c (OpenCDMSessionPrivate.copyCipherMode c) := by
  cases protection with
  | none => exact pure
  | some protection => exact copyCipherMode hc hk

theorem setUnlessTyped {field : String} {value : GValue} {x : RialtoOcdm.GValue} (hv : value.pointers = [])
    (htype : value.type = x.type) (hx : ∀ read, value.content read = x) : Carries k out more
      (fun s => (Session.setUnlessTyped s field value : Code σ S))
      (OpenCDMSessionPrivate.setUnlessTyped · field x) := by
  intro s m ho
  dsimp only [Session.setUnlessTyped, OpenCDMSessionPrivate.setUnlessTyped]
  rw [hk.hasFieldTyped s field value.type (bytes m), htype]
  split_ifs
  · exact pure s m ho
  · exact set hc hk hv hx s m ho

theorem setIvSize : Carries k out more (fun s => (Session.setIvSize s : Code σ S)) fun c =>
    if c.hasFieldTyped "iv" .buffer then OpenCDMSessionPrivate.setUnlessTyped c "iv_size"
      (.uint (RialtoOcdm.gstBufferGetSize (c.getBuffer "iv"))) else c := by
  intro s m ho
  simp only [Session.setIvSize, OpenCDMSessionPrivate.setUnlessTyped, RialtoOcdm.GValue.type,
    hk.hasFieldTyped s _ _ (bytes m), ← hk.getBuffer s _ (bytes m)]
  generalize hcontent : GstStructure.content (bytes m) s = c
  by_cases hiv : c.hasFieldTyped "iv" .buffer = true
  · by_cases hsize : c.hasFieldTyped "iv_size" .uint = true
    · rw [if_neg (by simp [hsize]), if_pos hiv, if_pos hsize]
      exact ensures_ret.mpr ⟨ho, hcontent⟩
    · rw [if_pos ⟨hiv, hsize⟩, if_pos hiv, if_neg hsize]
      refine Ensures.bind ((ho.size hc hk fun b hb => ?_).mono ?_)
      · exact Multiset.mem_add.mpr (.inl (Multiset.mem_add.mpr (.inl (hc.getBuffer hb))))
      rintro _ m₁ ⟨rfl, ho₁, hreads₁⟩
      have hcontent₁ : GstStructure.content (bytes m₁) s = c := by
        rw [hk.content_reads hreads₁ fun b hb => ho₁.live (.inr (Multiset.mem_add.mpr (.inl hb))), hcontent]
      rw [← hcontent₁]
      exact set hc hk rfl (fun _ => rfl) s m₁ ho₁
  · rw [if_neg (by simp [hiv]), if_neg hiv]
    exact ensures_ret.mpr ⟨ho, hcontent⟩

theorem setKeyId {session : Session} : Carries k out more (fun s => (session.setKeyId s : Code σ S)) fun c =>
    if session.playreadyKeyId.isEmpty then c else c.set "kid" (.buffer (some session.playreadyKeyId)) := by
  intro s m ho
  simp only [Session.setKeyId, List.isEmpty_iff]
  split_ifs with hkey
  · exact pure s m ho
  · refine Ensures.bind ((ho.newKey hc hk).mono ?_)
    rintro key m₁ ⟨ho₁, hbytes₁, hvalue₁⟩
    have hcontent₁ : GstStructure.content (bytes m₁) s = GstStructure.content (bytes m) s := by
      refine hk.content_congr fun b hb => congrArg GstBuffer.bytes (hvalue₁ b ?_ ?_)
      · exact ho₁.live (.inr (Multiset.mem_cons_of_mem (Multiset.mem_add.mpr (.inl hb))))
      · exact ho.live (.inr (Multiset.mem_add.mpr (.inl hb)))
    rw [← Multiset.add_cons] at ho₁
    refine Ensures.bind ((ho₁.set hc hk fun b hb => ?_).mono ?_)
    · obtain rfl : b = key := by simpa [GValue.pointers] using hb
      exact Multiset.mem_add.mpr (.inl (Multiset.mem_cons_self _ _))
    rintro s' m₂ ⟨⟨ho₂, hcontent₂⟩, -⟩
    rw [Multiset.add_cons] at ho₂
    refine Ensures.bind ((ho₂.unref hc hk).mono ?_)
    rintro _ m₃ ⟨ho₃, hreads₃⟩
    refine ensures_ret.mpr ⟨ho₃, ?_⟩
    rw [hk.content_reads hreads₃ fun b hb => ho₃.live (.inr (Multiset.mem_add.mpr (.inl hb))), hcontent₂,
      hcontent₁, GValue.content, Option.map_some, hbytes₁]

end Carries

/-! ### Attaching -/

/-- Decryption of a buffer leaves all else that is reached as it was. -/
structure Leaves (m : σ) (out : Multiset Addr) (buffer : Addr) (m' : σ) : Prop where
  exact : Exactly m' out
  live : ∀ b, Reached m out b → b ∈ (GStreamer.heap m').live
  bytes : ∀ b, Reached m out b → bytes m' b = bytes m b
  others : ∀ b, Reached m out b → b ≠ buffer → contents m' b = contents m b

variable {buffer : Addr} {info : S}

/-- The values after a record has been attached to a buffer. -/
def attached (m : σ) (buffer : Addr) (info : S) : Addr → GstBuffer S :=
  Function.update (GStreamer.heap m).value buffer { (GStreamer.heap m).value buffer with
    rialtoProtection := ((GStreamer.heap m).value buffer).rialtoProtection ++ [⟨some info⟩] }

omit [GstStructure S] in
theorem attached_bytes : (attached m buffer info b).bytes = bytes m b := by
  by_cases hb : b = buffer
  · subst hb
    simp [attached, bytes]
  · simp [attached, bytes, hb]

theorem pointers_attached :
    ((GStreamer.heap m).value b).pointers ⊆ (attached m buffer info b).pointers := by
  by_cases hb : b = buffer
  · subst hb
    intro x hx
    rw [attached, Function.update_self, ← Multiset.mem_coe, GstBuffer.pointers_rialtoProtection]
    exact Multiset.mem_add.mpr (.inr hx)
  · rw [attached, Function.update_of_ne hb]
    exact List.Subset.refl _

/-- What was reached still is when something has been attached. -/
theorem Over.reached_attached {m₁ m₂ : σ} (ho : Over (GStreamer.heap m) out more m₁)
    (hm₂ : Exactly m₂ (more' + out)) (hreads : Reads m₁ m₂ (attached m₁ buffer info))
    (hb : Reached m out b) : Reached m₂ out b := by
  induction hb with
  | here hy => exact .here hy
  | @there y z hy hz ih =>
    have hlive : y ∈ (GStreamer.heap m₂).live :=
      hm₂.live_of_reached (Multiset.le_add_left _ _) (fun _ _ _ => List.Subset.refl _) ih
    refine .there ih ?_
    rw [(hreads y hlive).2]
    apply pointers_attached
    rwa [ho.reads y hy]

section Attaching

variable (hc : CountsReferences σ) (hk : KeepsContents σ)

include hc hk

/-- A record is attached, and then a call gives the rest back. -/
theorem Over.attach (ho : Over (GStreamer.heap m) out (GstStructure.pointers info + more) m')
    (hbuffer : buffer ∈ out) : (rialtoMseAddProtectionMetadata buffer info : Code σ Unit).Ensures
      (fun _ => False) [] (fun _ m₂ => Over (GStreamer.heap m₂) out more m₂ ∧
        ∀ m₃, Over (GStreamer.heap m₂) out 0 m₃ → Leaves m out buffer m₃ ∧ contents m₃ buffer =
          (contents m buffer).addProtectionMetadata (GstStructure.content (Pointers.bytes m') info)) m' := by
  have hm' := ho.exact
  rw [add_assoc] at hm'
  have hown : buffer ∈ more + out := Multiset.mem_add.mpr (.inr hbuffer)
  have hm₂ : Exactly (GStreamer.gstBufferAddMeta buffer ⟨some info⟩ m') (more + out) := hc.addMeta hm' hown
  have hreads : Reads m' _ (attached m' buffer info) := hk.addMeta hm' hown
  apply ensures_modify.mpr
  generalize GStreamer.gstBufferAddMeta buffer ⟨some info⟩ m' = m₂ at hm₂ hreads
  refine ⟨.refl hm₂, fun m₃ ho₃ => ?_⟩
  -- what is reached in `m₂` is in `m₃` as it was attached
  have hvalue : ∀ b, Reached m₂ out b → (GStreamer.heap m₃).value b = attached m' buffer info b := fun b hb =>
    (ho₃.reads b hb).trans (hreads b ((Over.refl hm₂).live (.inl hb))).2
  have hbytes : ∀ b, Reached m₂ out b → Pointers.bytes m₃ b = Pointers.bytes m' b := fun b hb => by
    rw [Pointers.bytes, hvalue b hb, attached_bytes]
  have hreached : ∀ b, Reached m out b → Reached m₂ out b := fun b => ho.reached_attached hm₂ hreads
  have hfound : ∀ b, Reached m out b → Pointers.bytes m₃ b = Pointers.bytes m b := fun b hb => by
    rw [hbytes b (hreached b hb), Pointers.bytes, ho.reads b hb]
    rfl
  have hread : ∀ b, Reached m out b → ((GStreamer.heap m).value b).content (Pointers.bytes m₃) =
      contents m b := fun b hb => hk.buffer_congr fun x hx => hfound x (.there hb hx)
  refine ⟨⟨by simpa using ho₃.exact, fun b hb => ho₃.live (.inl (hreached b hb)), hfound, fun b hb hne => ?_⟩, ?_⟩
  · rw [contents, hvalue b (hreached b hb), attached, Function.update_of_ne hne, ho.reads b hb, hread b hb]
  · have hbuffer₂ : Reached m₂ out buffer := .here hbuffer
    have hinfo : GstStructure.content (Pointers.bytes m₃) info =
        GstStructure.content (Pointers.bytes m') info := by
      refine hk.content_congr fun b hb => hbytes b (.there hbuffer₂ ?_)
      rw [(hreads buffer ((Over.refl hm₂).live (.inl hbuffer₂))).2, attached, Function.update_self,
        ← Multiset.mem_coe, GstBuffer.pointers_rialtoProtection]
      exact Multiset.mem_add.mpr (.inl hb)
    rw [contents, hvalue buffer hbuffer₂, attached, Function.update_self, GstBuffer.content_attached,
      ho.reads buffer (.here hbuffer), hread buffer (.here hbuffer), hinfo]

end Attaching

/-! ### Decryption -/

/-- The key id that is applied. -/
def appliedKey (session : Session) (keyID : Option Bytes) : Option Bytes :=
  if keyID = some [] ∧ session.playreadyKeyId ≠ [] then some session.playreadyKeyId else keyID

/-- The record that is made of arguments. -/
def recordOf (session : Session) (buffer : RialtoOcdm.GstBuffer) (subSample : Option Bytes)
    (subSampleCount : UInt32) (iv keyID : Option Bytes) (initWithLast15 : UInt32) : RialtoOcdm.GstStructure :=
  let info := RialtoOcdm.GstStructure.new "application/x-cenc" [("encrypted", .boolean true),
    ("mks_id", .int session.rialtoSessionId), ("kid", .buffer (appliedKey session keyID)),
    ("iv_size", .uint (RialtoOcdm.gstBufferGetSize iv)), ("iv", .buffer iv),
    ("subsample_count", .uint subSampleCount), ("subsamples", .buffer subSample),
    ("encryption_scheme", .uint 0), ("init_with_last_15", .uint initWithLast15)]
  buffer.protectionMeta.elim info (OpenCDMSessionPrivate.copyCipherMode info)

/-- The record that is made of protection metadata. -/
def recordFrom (session : Session) (protection : RialtoOcdm.GstStructure) : RialtoOcdm.GstStructure :=
  let info := protection.set "mks_id" (.int session.rialtoSessionId)
  let info := OpenCDMSessionPrivate.setUnlessTyped info "encrypted" (.boolean true)
  let info := if info.hasFieldTyped "iv" .buffer then OpenCDMSessionPrivate.setUnlessTyped info "iv_size"
      (.uint (RialtoOcdm.gstBufferGetSize (info.getBuffer "iv")))
    else info
  let info := OpenCDMSessionPrivate.setUnlessTyped info "encryption_scheme" (.uint 0)
  if session.playreadyKeyId.isEmpty then info else info.set "kid" (.buffer (some session.playreadyKeyId))

variable {session : Session} {subSample iv keyID : Option Addr} {subSampleCount initWithLast15 : UInt32}

section Decryption

variable (hc : CountsReferences σ) (hk : KeepsContents σ)

include hc hk

theorem keyToApply_over (hm : Exactly m out) (hkey : ∀ x ∈ keyID.toList, x ∈ out) :
    (session.keyToApply keyID : Code σ _).Ensures (fun _ => False) [] (fun r m' =>
      Over (GStreamer.heap m) out (if r.2 then r.1.toList else [] : List Addr) m' ∧
      (∀ x ∈ r.1.toList, x ∈ ((if r.2 then r.1.toList else [] : List Addr) : Multiset Addr) + out) ∧
      r.1.map (bytes m') = appliedKey session (keyID.map (bytes m))) m := by
  have hover : Over (GStreamer.heap m) out 0 m := .refl (by simpa using hm)
  have hheld : ∀ x ∈ keyID.toList, x ∈ (0 : Multiset Addr) + out := fun x hx =>
    Multiset.mem_add.mpr (.inr (hkey x hx))
  cases keyID with
  | none => exact ensures_ret.mpr ⟨hover, hheld, by simp [appliedKey]⟩
  | some keyID =>
    refine Ensures.bind ((hover.size hc hk hheld).mono ?_)
    rintro size m₁ ⟨rfl, ho₁, hreads₁⟩
    have hbytes₁ : bytes m₁ keyID = bytes m keyID :=
      hreads₁.bytes (ho₁.live (.inl (.here (hkey keyID (by simp)))))
    by_cases hselected : bytes m keyID = [] ∧ session.playreadyKeyId ≠ []
    · rw [if_pos (by simpa using hselected)]
      refine Ensures.bind ((ho₁.newKey hc hk).mono ?_)
      rintro key m₂ ⟨ho₂, hbytes₂, -⟩
      exact ensures_ret.mpr ⟨by simpa using ho₂, by simp, by simp [appliedKey, hbytes₂, hselected]⟩
    · rw [if_neg (by simpa using hselected)]
      exact ensures_ret.mpr ⟨ho₁, hheld, by simp [appliedKey, hbytes₁, hselected]⟩

theorem addProtectionMetaOf_leaves (hm : Exactly m out) (hbuffer : buffer ∈ out)
    (hsubSample : ∀ x ∈ subSample.toList, x ∈ out) (hiv : ∀ x ∈ iv.toList, x ∈ out)
    (hkey : ∀ x ∈ keyID.toList, x ∈ out) :
    (session.addProtectionMetaOf buffer subSample subSampleCount iv keyID initWithLast15 : Code σ Unit).Ensures
      (fun _ => False) [] (fun _ m' => Leaves m out buffer m' ∧ contents m' buffer =
        (contents m buffer).addProtectionMetadata (recordOf session (contents m buffer)
          (subSample.map (bytes m)) subSampleCount (iv.map (bytes m)) (keyID.map (bytes m))
          initWithLast15)) m := by
  refine Ensures.bind ((keyToApply_over hc hk hm hkey).mono ?_)
  rintro ⟨key, shouldReleaseKey⟩ m₁ ⟨ho₁, hheld, happlied⟩
  dsimp only at ho₁ hheld happlied
  generalize hmore : (if shouldReleaseKey then key.toList else []) = more at ho₁ hheld
  have hout : ∀ x ∈ out, x ∈ (more : Multiset Addr) + out := fun x hx => Multiset.mem_add.mpr (.inr hx)
  refine Ensures.bind ((ho₁.size hc hk fun x hx => hout x (hiv x hx)).mono ?_)
  rintro size m₂ ⟨rfl, ho₂, hreads₂⟩
  have hread : ∀ b : Option Addr, (∀ x ∈ b.toList, x ∈ out) → b.map (bytes m₁) = b.map (bytes m) ∧
      b.map (bytes m₂) = b.map (bytes m) := by
    refine fun b hb => ⟨Option.map_congr fun x hx => ?_, Option.map_congr fun x hx => ?_⟩
    · exact congrArg GstBuffer.bytes (ho₁.reads x (.here (hb x (by simp [hx]))))
    · exact congrArg GstBuffer.bytes (ho₂.reads x (.here (hb x (by simp [hx]))))
  have hkey₂ : key.map (bytes m₂) = key.map (bytes m₁) := Option.map_congr fun x hx =>
    hreads₂.bytes (ho₂.exact.live (hheld x (by simp [hx])))
  refine Ensures.bind ((ho₂.new hc hk ?_).mono ?_)
  · simp only [List.forall_mem_cons, GValue.pointers, List.not_mem_nil, false_imp_iff, implies_true,
      and_true, true_and]
    exact ⟨hheld, fun x hx => hout x (hiv x hx), fun x hx => hout x (hsubSample x hx)⟩
  rintro info m₃ ⟨ho₃, hcontent₃⟩
  refine Ensures.bind ((ho₃.protectionMeta hc hk (Multiset.mem_add.mpr (.inr hbuffer))).mono ?_)
  rintro protectionMeta m₄ ⟨rfl, ho₄, hreads₄⟩
  rw [ho₃.reads buffer (.here hbuffer)]
  have hcontent₄ : GstStructure.content (bytes m₄) info = GstStructure.content (bytes m₃) info :=
    hk.content_reads hreads₄ fun b hb => ho₄.live (.inr (Multiset.mem_add.mpr (.inl hb)))
  refine Ensures.bind ((Carries.copyMeta hc hk (bytes m) info m₄ ho₄).mono ?_)
  rintro info' m₅ ⟨ho₅, hcontent₅⟩
  refine Ensures.bind ((ho₅.attach hc hk hbuffer).mono ?_)
  rintro _ m₆ ⟨ho₆, hleaves⟩
  have hrecord : GstStructure.content (bytes m₅) info' = recordOf session (contents m buffer)
      (subSample.map (bytes m)) subSampleCount (iv.map (bytes m)) (keyID.map (bytes m)) initWithLast15 := by
    rw [hcontent₅, hcontent₄, hcontent₃]
    simp only [recordOf, List.map_cons, List.map_nil, GValue.content, hkey₂, happlied, (hread iv hiv).1,
      (hread iv hiv).2, (hread subSample hsubSample).2]
    rfl
  rw [hrecord] at hleaves
  subst hmore
  cases shouldReleaseKey with
  | false => exact ensures_ret.mpr (hleaves m₆ ho₆)
  | true =>
    cases key with
    | none => exact ensures_ret.mpr (hleaves m₆ ho₆)
    | some key =>
      have hlast : Over (GStreamer.heap m₆) out (key ::ₘ 0) m₆ := ho₆
      refine Ensures.bind ((hlast.unref hc hk).mono ?_)
      exact fun _ m₇ ho₇ => ensures_ret.mpr (hleaves m₇ ho₇.1)

theorem copy_over (hm : Exactly m out) (hbuffer : buffer ∈ out) :
    (copyProtectionMeta buffer : Code σ (Option S)).Ensures (fun _ => False) [] (fun s m' =>
      Over (GStreamer.heap m) out (s.elim [] GstStructure.pointers : List Addr) m' ∧
      s.map (GstStructure.content (bytes m')) = (contents m buffer).protectionMeta) m := by
  have hover : Over (GStreamer.heap m) out 0 m := .refl (by simpa using hm)
  obtain ⟨hexact, hlive⟩ := hc.getProtectionMeta hm hbuffer
  obtain ⟨hmeta, hreads⟩ := hk.getProtectionMeta hm hbuffer
  apply ensures_update.mpr
  rw [contents, GstBuffer.content, ← hmeta]
  rcases hget : (GStreamer.gstBufferGetProtectionMeta buffer m : Option S × σ) with ⟨_ | s, m₁⟩
  · rw [hget] at hexact hreads
    exact ⟨hover.reads_goes (by simpa using hexact) hreads, rfl⟩
  · rw [hget] at hexact hlive hreads
    have ho₁ : Over (GStreamer.heap m) out 0 m₁ := hover.reads_goes (by simpa using hexact) hreads
    have hcopy := hc.structureCopy hexact (hlive s rfl)
    obtain ⟨hcontent, hreads'⟩ := hk.structureCopy hexact (hlive s rfl)
    refine ⟨ho₁.reads_goes hcopy hreads', congrArg some ?_⟩
    dsimp only
    rw [hk.content_reads hreads' fun b hb => hcopy.live (Multiset.mem_add.mpr (.inl hb)), hcontent,
      hk.content_reads hreads (hlive s rfl)]

theorem addProtectionMeta_leaves (hm : Exactly m out) (hbuffer : buffer ∈ out) :
    (session.addProtectionMeta buffer : Code σ Bool).Ensures (fun _ => False) [] (fun r m' =>
      Leaves m out buffer m' ∧ r = (contents m buffer).protectionMeta.isSome ∧ contents m' buffer =
        (contents m buffer).protectionMeta.elim (contents m buffer) fun protection =>
          (contents m buffer).addProtectionMetadata (recordFrom session protection)) m := by
  refine Ensures.bind ((copy_over hc hk hm hbuffer).mono ?_)
  rintro s m₁ ⟨ho, hmeta⟩
  rw [← hmeta]
  cases s with
  | none =>
    have hfound : ∀ b, Reached m out b → bytes m₁ b = bytes m b := fun b hb =>
      congrArg GstBuffer.bytes (ho.reads b hb)
    have hcontents : ∀ b, Reached m out b → contents m₁ b = contents m b := fun b hb => by
      rw [contents, ho.reads b hb]
      exact hk.buffer_congr fun x hx => hfound x (.there hb hx)
    exact ensures_ret.mpr ⟨⟨by simpa using ho.exact, fun b hb => ho.live (.inl hb), hfound,
      fun b hb _ => hcontents b hb⟩, rfl, hcontents buffer (.here hbuffer)⟩
  | some info =>
    have ho₁ : Over (GStreamer.heap m) out (GstStructure.pointers info + 0) m₁ := by simpa using ho
    refine Ensures.bind ((Carries.set hc hk rfl (fun _ => rfl) info m₁ ho₁).mono ?_)
    rintro info₂ m₂ ⟨ho₂, hc₂⟩
    refine Ensures.bind ((Carries.setUnlessTyped hc hk rfl rfl (fun _ => rfl) info₂ m₂ ho₂).mono ?_)
    rintro info₃ m₃ ⟨ho₃, hc₃⟩
    refine Ensures.bind ((Carries.setIvSize hc hk info₃ m₃ ho₃).mono ?_)
    rintro info₄ m₄ ⟨ho₄, hc₄⟩
    refine Ensures.bind ((Carries.setUnlessTyped hc hk rfl rfl (fun _ => rfl) info₄ m₄ ho₄).mono ?_)
    rintro info₅ m₅ ⟨ho₅, hc₅⟩
    refine Ensures.bind ((Carries.setKeyId hc hk info₅ m₅ ho₅).mono ?_)
    rintro info₆ m₆ ⟨ho₆, hc₆⟩
    refine Ensures.bind ((ho₆.attach hc hk hbuffer).mono ?_)
    rintro _ m₇ ⟨ho₇, hleaves⟩
    obtain ⟨hleft, hcontents⟩ := hleaves m₇ ho₇
    refine ensures_ret.mpr ⟨hleft, rfl, ?_⟩
    rw [hcontents, hc₆, hc₅, hc₄, hc₃, hc₂]
    rfl

end Decryption

end Alone

/-! ### By contents -/

/-- What decryption reads of a session that is there. -/
def sessionOf (o : Object) : Session := ⟨o.session.playreadyKeyId, o.session.rialtoSessionId⟩

section Known

variable {R : Type} {I : World R → Prop} {w : World R} {a : Addr} {o : Object} (known : RialtoOcdm.GstBuffer)

theorem known_decryptEx (subSample iv keyID : Option Bytes) (subSampleCount initWithLast15 : UInt32)
    (ho : w.heap[a]? = some o) (hd : o.destroyed = []) :
    (RialtoOcdm.opencdmGstreamerSessionDecryptEx (some a) known subSample subSampleCount iv keyID
      initWithLast15).Ensures I [] (fun r w' => r = (.none, known.addProtectionMetadata (recordOf (sessionOf o)
        known subSample subSampleCount iv keyID initWithLast15)) ∧ w' = w) w := by
  have hkey : (OpenCDMSessionPrivate.keyToApply a keyID).Ensures I []
      (fun r w' => r = appliedKey (sessionOf o) keyID ∧ w' = w) w := by
    unfold OpenCDMSessionPrivate.keyToApply appliedKey
    by_cases hempty : keyID = some []
    · rw [if_pos hempty, ensures_readMember ho hd]
      refine ensures_ret.mpr ⟨?_, rfl⟩
      cases hselected : o.session.playreadyKeyId <;> simp [hempty, sessionOf, hselected]
    · rw [if_neg hempty]
      exact ensures_ret.mpr ⟨by simp [hempty], rfl⟩
  refine .bind (.bind (hkey.mono ?_))
  rintro _ _ ⟨rfl, rfl⟩
  rw [ensures_readMember ho hd]
  exact ensures_ret.mpr (ensures_ret.mpr ⟨rfl, rfl⟩)

theorem known_decryptBuffer (ho : w.heap[a]? = some o) (hd : o.destroyed = []) :
    (RialtoOcdm.opencdmGstreamerSessionDecryptBuffer (some a) known).Ensures I [] (fun r w' =>
      r = (if known.protectionMeta.isSome then .none else .fail,
        known.protectionMeta.elim known fun protection =>
          known.addProtectionMetadata (recordFrom (sessionOf o) protection)) ∧ w' = w) w := by
  unfold RialtoOcdm.opencdmGstreamerSessionDecryptBuffer OpenCDMSessionPrivate.addProtectionMeta
  cases hmeta : known.protectionMeta with
  | none => exact .bind (ensures_ret.mpr (ensures_ret.mpr ⟨rfl, rfl⟩))
  | some protection =>
    refine .bind ?_
    dsimp only
    rw [ensures_readMember ho hd, ensures_readMember ho hd]
    exact ensures_ret.mpr (ensures_ret.mpr ⟨rfl, rfl⟩)

end Known

/-! ### The two levels -/

section Levels

variable {σ S : Type} [GstStructure S] [GStreamer σ S] {m : σ} {out : Multiset Addr} {buffer : Addr}
  {subSample iv keyID : Option Addr} {subSampleCount initWithLast15 : UInt32} {R : Type} {w : World R}
  {a : Addr} {o : Object}

/-- If GStreamer counts references and keeps contents, then with references to the buffers that
it is given a call does to memory what is known from their contents: it answers the same, and
afterwards the buffer reads the same. All other buffers that are reached from references are
alive, with the bytes and the records that they had, and the counts are exact for the references
that there were. -/
theorem decryption_refines (hc : CountsReferences σ) (hk : KeepsContents σ) (hm : Exactly m out)
    (hbuffer : buffer ∈ out) (hsubSample : ∀ x ∈ subSample.toList, x ∈ out) (hiv : ∀ x ∈ iv.toList, x ∈ out)
    (hkey : ∀ x ∈ keyID.toList, x ∈ out) (ho : w.heap[a]? = some o) (hd : o.destroyed = []) :
    (∃ e m', (opencdmGstreamerSessionDecryptEx (some (sessionOf o)) buffer subSample subSampleCount iv keyID
        initWithLast15).exec [] m = .done e m' ∧ Leaves m out buffer m' ∧
      (RialtoOcdm.opencdmGstreamerSessionDecryptEx (some a) (contents m buffer) (subSample.map (bytes m))
        subSampleCount (iv.map (bytes m)) (keyID.map (bytes m)) initWithLast15).exec [] w =
          .done (e, contents m' buffer) w) ∧
    ∃ e m', (opencdmGstreamerSessionDecryptBuffer (some (sessionOf o)) buffer).exec [] m = .done e m' ∧
      Leaves m out buffer m' ∧
      (RialtoOcdm.opencdmGstreamerSessionDecryptBuffer (some a) (contents m buffer)).exec [] w =
        .done (e, contents m' buffer) w := by
  constructor
  · have hpointers : (opencdmGstreamerSessionDecryptEx (some (sessionOf o)) buffer subSample subSampleCount iv
        keyID initWithLast15).Ensures (fun _ => False) [] (fun e m' => e = .none ∧ Leaves m out buffer m' ∧
          contents m' buffer = (contents m buffer).addProtectionMetadata (recordOf (sessionOf o)
            (contents m buffer) (subSample.map (bytes m)) subSampleCount (iv.map (bytes m))
            (keyID.map (bytes m)) initWithLast15)) m :=
      .bind ((addProtectionMetaOf_leaves hc hk hm hbuffer hsubSample hiv hkey).mono
        fun _ _ h => ensures_ret.mpr ⟨rfl, h⟩)
    obtain ⟨_, m', hexec, rfl, hleaves, hcontents⟩ := hpointers.returns
    obtain ⟨_, _, hknown, rfl, rfl⟩ := (known_decryptEx (I := fun _ => False) (contents m buffer)
      (subSample.map (bytes m)) (iv.map (bytes m)) (keyID.map (bytes m)) subSampleCount initWithLast15
      ho hd).returns
    exact ⟨_, m', hexec, hleaves, hcontents ▸ hknown⟩
  · have hpointers : (opencdmGstreamerSessionDecryptBuffer (some (sessionOf o)) buffer).Ensures
        (fun _ => False) [] (fun e m' =>
          e = (if (contents m buffer).protectionMeta.isSome then .none else .fail) ∧ Leaves m out buffer m' ∧
          contents m' buffer = (contents m buffer).protectionMeta.elim (contents m buffer) fun protection =>
            (contents m buffer).addProtectionMetadata (recordFrom (sessionOf o) protection)) m :=
      .bind ((addProtectionMeta_leaves hc hk hm hbuffer).mono
        fun _ _ ⟨hleaves, hr, hcontents⟩ => ensures_ret.mpr ⟨by rw [hr], hleaves, hcontents⟩)
    obtain ⟨_, m', hexec, rfl, hleaves, hcontents⟩ := hpointers.returns
    obtain ⟨_, _, hknown, rfl, rfl⟩ := (known_decryptBuffer (I := fun _ => False) (contents m buffer)
      ho hd).returns
    exact ⟨_, m', hexec, hleaves, hcontents ▸ hknown⟩

end Levels

/-- A sample with protection metadata, and an empty key id that the metadata refers to. -/
def samples : Memory :=
  let m : Memory := (nothing.new 1 ⟨[1, 2], [], []⟩).new 2 ⟨[], [], []⟩
  let (info, m) := GStreamer.gstStructureNew "application/x-cenc" [("kid", .buffer (some 2))] m
  GStreamer.gstBufferAddProtectionMeta 1 info m

theorem samples_exact : Exactly samples {2, 1} := by
  have hsample : Exactly (nothing.new 1 ⟨[1, 2], [], []⟩ : Memory) {1} :=
    Heap.Exact.new (.empty _) (Finset.notMem_empty 1)
  have hkey : Exactly ((nothing.new 1 ⟨[1, 2], [], []⟩).new 2 ⟨[], [], []⟩ : Memory) {2, 1} :=
    Heap.Exact.new hsample (by decide)
  have hfields : ∀ field ∈ [("kid", GValue.buffer (some 2))], ∀ b ∈ field.2.pointers,
      b ∈ ({2, 1} : Multiset Addr) := by simp [GValue.pointers]
  exact counts_references.addProtectionMeta
    (counts_references.structureNew "application/x-cenc" hkey hfields) (by decide)

/-- A session with a key id selected, and a sample whose key id is empty. -/
theorem decryption_refines_samples : ∃ o : Object,
    (∃ (e : OpenCDMError) (m' : Memory), (opencdmGstreamerSessionDecryptEx (some (sessionOf o)) 1 none 0 none
        (some 2) 0).exec [] samples = .done e m' ∧ Leaves samples {2, 1} 1 m' ∧
      (RialtoOcdm.opencdmGstreamerSessionDecryptEx (some 7) (contents samples 1) none 0 none (some []) 0).exec []
        selected.shared = .done (e, contents m' 1) selected.shared) ∧
    ∃ (e : OpenCDMError) (m' : Memory),
      (opencdmGstreamerSessionDecryptBuffer (some (sessionOf o)) 1).exec [] samples = .done e m' ∧
      Leaves samples {2, 1} 1 m' ∧
      (RialtoOcdm.opencdmGstreamerSessionDecryptBuffer (some 7) (contents samples 1)).exec []
        selected.shared = .done (e, contents m' 1) selected.shared := by
  obtain ⟨o, ho, hd⟩ : ∃ o, selected.shared.heap[(7 : Addr)]? = some o ∧ o.destroyed = [] := ⟨_, rfl, rfl⟩
  exact ⟨o, @decryption_refines Memory Fields _ _ samples {2, 1} 1 none none (some 2) 0 0 _ selected.shared 7 o
    counts_references keeps_contents samples_exact (by decide) (by decide) (by decide) (by decide) ho hd⟩

end RialtoOcdm.Pointers
