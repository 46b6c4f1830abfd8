import RialtoOcdm.Decryption.ProtectionMeta
import RialtoOcdm.Library.GStreamer
import Mathlib.Data.Finset.Lattice.Fold
import Mathlib.Data.List.AList
import Mathlib.Order.Lattice.Nat

/-! What decryption relies on of GStreamer: which references an operation takes and gives, and
what can be read of buffers and structures afterwards. Each is told of an operation that is
used as it is to be, with the counts right and references to the buffers that it is given.
There is a memory in which all of it is so. -/

namespace RialtoOcdm.Pointers

open Ownership

/-! ### Assumptions -/

section Assumptions

variable {σ S : Type} [GstStructure S] [GStreamer σ S]

/-- The counts are the references that there are: `out` and those of structures in metadata. -/
abbrev Exactly (m : σ) (out : Multiset Addr) : Prop := (GStreamer.heap m).Exact GstBuffer.pointers out

variable (σ) in
/-- The counts stay right. A new buffer and a new structure have references that are the
caller's, as have a structure that is set and a copy, and metadata takes over those of the
structure that is put into it. Metadata is freed by its own function. -/
structure CountsReferences : Prop where
  allocate {m : σ} {own} (size) : Exactly m own →
    Exactly (GStreamer.gstBufferNewAllocate size m).2 ((GStreamer.gstBufferNewAllocate size m).1 ::ₘ own)
  fill {m : σ} {own b} (src) : Exactly m own → b ∈ own → Exactly (GStreamer.gstBufferFill b src m) own
  ref {m : σ} {own b} : Exactly m own → b ∈ own → Exactly (GStreamer.gstBufferRef b m) (b ::ₘ own)
  unref {m : σ} {own b} : Exactly m (b ::ₘ own) → Exactly (GStreamer.gstBufferUnref b m) own
  getSize {m : σ} {own b} : Exactly m own → (∀ x ∈ b.toList, x ∈ own) →
    Exactly (GStreamer.gstBufferGetSize b m).2 own
  structureNew {m : σ} {own} (name) {fields} : Exactly m own →
    (∀ field ∈ fields, ∀ b ∈ field.2.pointers, b ∈ own) →
    Exactly (GStreamer.gstStructureNew name fields m).2
      (GstStructure.pointers (GStreamer.gstStructureNew name fields m).1 + own)
  structureSet {m : σ} {own} {s : S} (field) {value} : Exactly m (GstStructure.pointers s + own) →
    (∀ b ∈ value.pointers, b ∈ own) →
    Exactly (GStreamer.gstStructureSet s field value m).2
      (GstStructure.pointers (GStreamer.gstStructureSet s field value m).1 + own)
  structureCopy {m : σ} {own} {s : S} : Exactly m own →
    (∀ b ∈ GstStructure.pointers s, b ∈ (GStreamer.heap m).live) →
    Exactly (GStreamer.gstStructureCopy s m).2
      (GstStructure.pointers (GStreamer.gstStructureCopy s m).1 + own)
  getProtectionMeta {m : σ} {own b} : Exactly m own → b ∈ own →
    Exactly (GStreamer.gstBufferGetProtectionMeta b m).2 own ∧
    ∀ s ∈ (GStreamer.gstBufferGetProtectionMeta b m).1, ∀ x ∈ GstStructure.pointers s,
      x ∈ (GStreamer.heap (GStreamer.gstBufferGetProtectionMeta b m).2).live
  addProtectionMeta {m : σ} {own b} {info : S} : Exactly m (GstStructure.pointers info + own) → b ∈ own →
    Exactly (GStreamer.gstBufferAddProtectionMeta b info m) own
  addMeta {m : σ} {own b} {emeta : GstRialtoProtectionMetadata S} :
    Exactly m (((rialtoEmeProtectionMetadataFree emeta).1.elim [] GstStructure.pointers : List Addr) + own) →
    b ∈ own → Exactly (GStreamer.gstBufferAddMeta b emeta m) own
  getBuffer {s : S} {field b} : b ∈ (GstStructure.getBuffer s field).toList → b ∈ GstStructure.pointers s

/-- What is alive in `m'` has been so in `m`, and reads as `value` tells. -/
def Reads (m m' : σ) (value : Addr → GstBuffer S) : Prop :=
  ∀ b ∈ (GStreamer.heap m').live, b ∈ (GStreamer.heap m).live ∧ (GStreamer.heap m').value b = value b

variable (σ) in
/-- Structures are finite maps from the names of fields to values, and nothing else changes
what can be read of a buffer than what is to. -/
structure KeepsContents : Prop where
  allocate {m : σ} {own} (size) : Exactly m own →
    (GStreamer.gstBufferNewAllocate size m).1 ∉ (GStreamer.heap m).live ∧
    ((GStreamer.heap (GStreamer.gstBufferNewAllocate size m).2).value
      (GStreamer.gstBufferNewAllocate size m).1).bytes.length = size ∧
    ∀ b ∈ (GStreamer.heap (GStreamer.gstBufferNewAllocate size m).2).live, b ∈ (GStreamer.heap m).live →
      (GStreamer.heap (GStreamer.gstBufferNewAllocate size m).2).value b = (GStreamer.heap m).value b
  fill {m : σ} {own b src} : Exactly m own → b ∈ own →
    src.length = ((GStreamer.heap m).value b).bytes.length →
    Reads m (GStreamer.gstBufferFill b src m) (Function.update (GStreamer.heap m).value b
      { (GStreamer.heap m).value b with bytes := src })
  unref {m : σ} {own b} : Exactly m (b ::ₘ own) →
    Reads m (GStreamer.gstBufferUnref b m) (GStreamer.heap m).value
  getSize {m : σ} {own b} : Exactly m own → (∀ x ∈ b.toList, x ∈ own) →
    (GStreamer.gstBufferGetSize b m).1 = b.elim 0 (fun b => ((GStreamer.heap m).value b).bytes.length) ∧
    Reads m (GStreamer.gstBufferGetSize b m).2 (GStreamer.heap m).value
  structureNew {m : σ} {own} (name) {fields} : Exactly m own →
    (∀ field ∈ fields, ∀ b ∈ field.2.pointers, b ∈ own) →
    (∀ read, GstStructure.content read (GStreamer.gstStructureNew name fields m).1 =
      RialtoOcdm.GstStructure.new name (fields.map fun field => (field.1, field.2.content read))) ∧
    Reads m (GStreamer.gstStructureNew name fields m).2 (GStreamer.heap m).value
  structureSet {m : σ} {own} {s : S} (field) {value} : Exactly m (GstStructure.pointers s + own) →
    (∀ b ∈ value.pointers, b ∈ own) →
    (∀ read, GstStructure.content read (GStreamer.gstStructureSet s field value m).1 =
      (GstStructure.content read s).set field (value.content read)) ∧
    Reads m (GStreamer.gstStructureSet s field value m).2 (GStreamer.heap m).value
  structureCopy {m : σ} {own} {s : S} : Exactly m own →
    (∀ b ∈ GstStructure.pointers s, b ∈ (GStreamer.heap m).live) →
    (∀ read, GstStructure.content read (GStreamer.gstStructureCopy s m).1 = GstStructure.content read s) ∧
    Reads m (GStreamer.gstStructureCopy s m).2 (GStreamer.heap m).value
  getProtectionMeta {m : σ} {own b} : Exactly m own → b ∈ own →
    (GStreamer.gstBufferGetProtectionMeta b m).1 = ((GStreamer.heap m).value b).protectionMeta ∧
    Reads m (GStreamer.gstBufferGetProtectionMeta b m).2 (GStreamer.heap m).value
  addMeta {m : σ} {own b} {emeta : GstRialtoProtectionMetadata S} :
    Exactly m (((rialtoEmeProtectionMetadataFree emeta).1.elim [] GstStructure.pointers : List Addr) + own) →
    b ∈ own → Reads m (GStreamer.gstBufferAddMeta b emeta m) (Function.update (GStreamer.heap m).value b
      { (GStreamer.heap m).value b with
        rialtoProtection := ((GStreamer.heap m).value b).rialtoProtection ++ [emeta] })
  hasFieldTyped (s : S) (field type read) : GstStructure.hasFieldTyped s field type =
    (GstStructure.content read s).hasFieldTyped field type
  getString (s : S) (field read) :
    GstStructure.getString s field = (GstStructure.content read s).getString field
  getUint (s : S) (field read) :
    GstStructure.getUint s field = (GstStructure.content read s).getUint field
  getBuffer (s : S) (field read) :
    (GstStructure.getBuffer s field).map read = (GstStructure.content read s).getBuffer field
  content_congr {s : S} {read read'} : (∀ b ∈ GstStructure.pointers s, read' b = read b) →
    GstStructure.content read' s = GstStructure.content read s

end Assumptions

/-! ### A memory -/

/-- A structure with its fields. -/
structure Fields where
  name : String
  fields : AList fun _ : String => GValue

namespace Fields

def set (s : Fields) (field : String) (value : GValue) : Fields :=
  { s with fields := s.fields.insert field value }

/-- The references of a field, if there is one. -/
def held (s : Fields) (field : String) : List Addr := (s.fields.lookup field).elim [] GValue.pointers

def pointers (s : Fields) : List Addr := s.fields.entries.flatMap (·.2.pointers)

def content (read : Addr → Bytes) (s : Fields) : RialtoOcdm.GstStructure where
  name := s.name
  fields := s.fields.entries.foldr (fun field fields => fields.insert field.1 (field.2.content read)) ∅

end Fields

instance : GstStructure Fields where
  pointers := Fields.pointers
  content := Fields.content
  hasFieldTyped s field type := (s.fields.lookup field).any (·.type = type)
  getString s field := match s.fields.lookup field with
    | some (.string x) => some x
    | _ => none
  getUint s field := match s.fields.lookup field with
    | some (.uint n) => some n
    | _ => none
  getBuffer s field := match s.fields.lookup field with
    | some (.buffer b) => b
    | _ => none

abbrev Memory := Heap Addr (GstBuffer Fields)

/-- A field gets a reference to its new value before it gives the old one back. -/
def Memory.set (m : Memory) (s : Fields) (field : String) (value : GValue) : Memory :=
  (s.held field).foldl (Heap.release GstBuffer.pointers) (value.pointers.foldl Heap.retain m)

/-- New buffers have the number above all others. -/
instance : GStreamer Memory Fields where
  heap m := m
  gstBufferNewAllocate size m :=
    (m.live.sup id + 1, m.new (m.live.sup id + 1) ⟨.replicate size 0, [], []⟩)
  gstBufferFill b src m :=
    let bytes := (m.value b).bytes
    m.write b { m.value b with bytes := src.take bytes.length ++ bytes.drop src.length }
  gstBufferRef b m := m.retain b
  gstBufferUnref b m := m.release GstBuffer.pointers b
  gstBufferGetSize b m := b.elim (0, m) fun b => ((m.value b).bytes.length, m.touch b)
  gstStructureNew name fields m := fields.foldl
    (fun (s, m) field => (s.set field.1 field.2, Memory.set m s field.1 field.2)) (⟨name, ∅⟩, m)
  gstStructureSet s field value m := (s.set field value, Memory.set m s field value)
  gstStructureCopy s m := (s, (GstStructure.pointers s).foldl Heap.retain m)
  gstBufferGetProtectionMeta b m := ((m.value b).protectionMeta, m.touch b)
  gstBufferAddProtectionMeta b info m :=
    m.write b { m.value b with protection := (m.value b).protection ++ [info] }
  gstBufferAddMeta b emeta m :=
    m.write b { m.value b with rialtoProtection := (m.value b).rialtoProtection ++ [emeta] }

/-! ### Its counts -/

section Counts

variable {m : Memory} {own : Multiset Addr} {s : Fields} {field : String} {value : GValue} {b : Addr}

/-- A field that is set holds its new value, and no longer the old one. -/
theorem Fields.pointers_set : ((s.set field value).pointers : Multiset Addr) + s.held field =
    value.pointers + s.pointers := by
  have hset : (s.set field value).pointers =
      value.pointers ++ (List.kerase field s.fields.entries).flatMap (·.2.pointers) := by
    simp [pointers, set, AList.entries_insert]
  by_cases hmem : field ∈ s.fields.entries.keys
  · obtain ⟨old, before, after, -, hentries, hkerase⟩ := List.exists_of_kerase hmem
    have hold : s.fields.lookup field = some old :=
      AList.mem_lookup_iff.mpr (hentries ▸ List.mem_append_right _ List.mem_cons_self)
    rw [hset, held, hold, hkerase, pointers, hentries]
    simp only [Option.elim_some, List.flatMap_append, List.flatMap_cons, ← Multiset.coe_add]
    ac_rfl
  · have hnone : s.fields.lookup field = none := AList.lookup_eq_none.mpr hmem
    rw [hset, held, hnone, List.kerase_of_notMem_keys hmem]
    simp [pointers]

theorem GstBuffer.pointers_protection {S : Type} [GstStructure S] {buffer : GstBuffer S} {info : S} :
    (({ buffer with protection := buffer.protection ++ [info] } : GstBuffer S).pointers : Multiset Addr) =
      GstStructure.pointers info + buffer.pointers := by
  simp only [pointers, List.flatMap_append, List.flatMap_cons, List.flatMap_nil, List.append_nil,
    ← Multiset.coe_add]
  ac_rfl

theorem GstBuffer.pointers_rialtoProtection {S : Type} [GstStructure S] {buffer : GstBuffer S}
    {emeta : GstRialtoProtectionMetadata S} :
    (({ buffer with rialtoProtection := buffer.rialtoProtection ++ [emeta] } : GstBuffer S).pointers :
      Multiset Addr) =
      ((rialtoEmeProtectionMetadataFree emeta).1.elim [] GstStructure.pointers : List Addr) +
        buffer.pointers := by
  simp only [pointers, List.flatMap_append, List.flatMap_cons, List.flatMap_nil, List.append_nil,
    ← Multiset.coe_add]
  ac_rfl

theorem GstBuffer.pointers_protectionMeta {S : Type} [GstStructure S] {buffer : GstBuffer S} {s : S}
    (hs : buffer.protectionMeta = some s) {b : Addr} (hb : b ∈ GstStructure.pointers s) :
    b ∈ buffer.pointers :=
  List.mem_append_left _ (List.mem_flatMap.mpr ⟨s, List.mem_of_mem_head? hs, hb⟩)

theorem Memory.exactly_set (hm : Exactly m (s.pointers + own)) (hv : ∀ b ∈ value.pointers, b ∈ own) :
    Exactly (m.set s field value) ((s.set field value).pointers + own) := by
  have hretains := Heap.Exact.retains hm fun b hb => hm.live (Multiset.mem_add.mpr (.inr (hv b hb)))
  have hset : ((s.set field value).pointers : Multiset Addr) + s.held field = value.pointers + s.pointers :=
    Fields.pointers_set
  rw [← add_assoc, ← hset, add_comm (_ : Multiset Addr) (_ : List Addr), add_assoc] at hretains
  exact hretains.releases

theorem Memory.exactly_new {name : String} {fields : List (String × GValue)} (hm : Exactly m own)
    (hfields : ∀ field ∈ fields, ∀ b ∈ field.2.pointers, b ∈ own) :
    Exactly (GStreamer.gstStructureNew name fields m).2
      (GstStructure.pointers (GStreamer.gstStructureNew name fields m).1 + own) := by
  have hfold : ∀ (s : Fields) (m : Memory), Exactly m (s.pointers + own) →
      let (s', m') := fields.foldl
        (fun (s, m) field => (s.set field.1 field.2, Memory.set m s field.1 field.2)) (s, m)
      Exactly m' (s'.pointers + own) := by
    induction fields with
    | nil => exact fun s m hm => hm
    | cons field fields ih =>
      intro s m hm
      rw [List.forall_mem_cons] at hfields
      exact ih hfields.2 _ _ (exactly_set hm hfields.1)
  exact hfold ⟨name, ∅⟩ m (by simpa [Fields.pointers] using hm)

/-- Metadata takes over references that the caller has. -/
theorem Memory.exactly_write {buffer : GstBuffer Fields} {held : Multiset Addr} (hm : Exactly m (held + own))
    (hb : b ∈ own) (hbuffer : (buffer.pointers : Multiset Addr) = held + (m.value b).pointers) :
    Exactly (m.write b buffer) own := by
  apply Heap.Exact.write hm (hm.live (Multiset.mem_add.mpr (.inr hb)))
  rw [hbuffer]
  ac_rfl

theorem counts_references : CountsReferences Memory where
  allocate {m own} size hm := by
    have hexact : Heap.Exact GstBuffer.pointers m own := hm
    apply Heap.Exact.new (by simpa [GstBuffer.pointers] using hexact)
    intro hmem
    exact Nat.not_succ_le_self _ (Finset.le_sup (f := id) hmem)
  fill src hm hb := Heap.Exact.write hm (hm.live hb) rfl
  ref hm hb := Heap.Exact.retain hm (hm.live hb)
  unref hm := Heap.Exact.release hm
  getSize {m own b} hm hb := by
    cases b with
    | none => exact hm
    | some b => exact Heap.Exact.touch hm (hm.live (hb b (by simp)))
  structureNew _ _ hm hfields := Memory.exactly_new hm hfields
  structureSet _ _ hm hv := Memory.exactly_set hm hv
  structureCopy hm hs := Heap.Exact.retains hm hs
  getProtectionMeta {m own b} hm hb := by
    refine ⟨Heap.Exact.touch hm (hm.live hb), fun s hs x hx => ?_⟩
    rw [show GStreamer.heap (GStreamer.gstBufferGetProtectionMeta b m).2 = m.touch b from rfl,
      Heap.touch_live]
    exact hm.live_holds (hm.live hb) (GstBuffer.pointers_protectionMeta hs hx)
  addProtectionMeta hm hb := Memory.exactly_write hm hb GstBuffer.pointers_protection
  addMeta hm hb := Memory.exactly_write hm hb GstBuffer.pointers_rialtoProtection
  getBuffer {s field b} h := by
    simp only [GstStructure.getBuffer] at h
    split at h
    · next b' hb => exact List.mem_flatMap.mpr ⟨⟨field, .buffer b'⟩, AList.mem_lookup_iff.mp hb, h⟩
    · simp at h

end Counts

/-! ### What it reads as -/

section Contents

variable {m m' : Memory} {own : Multiset Addr} {s : Fields} {field name : String} {value : GValue} {b : Addr}
  {read read' : Addr → Bytes}

theorem GValue.content_type : (value.content read).type = value.type := by
  cases value <;> rfl

theorem GValue.content_congr (h : ∀ b ∈ value.pointers, read' b = read b) :
    value.content read' = value.content read := by
  cases value with
  | buffer b =>
    cases b with
    | none => rfl
    | some b => simp [content, h b (by simp [pointers])]
  | _ => rfl

namespace Fields

@[simp] theorem getElem?_content :
    (s.content read).fields[name]? = (s.fields.lookup name).map (GValue.content read) := by
  have hfold : ∀ l : List (Sigma fun _ : String => GValue), (l.foldr (fun field fields =>
      fields.insert field.1 (field.2.content read)) (∅ : Std.ExtTreeMap String RialtoOcdm.GValue))[name]? =
        (l.dlookup name).map (GValue.content read) := by
    intro l
    induction l with
    | nil => simp
    | cons field l ih =>
      obtain ⟨field, value⟩ := field
      rw [List.foldr_cons, Std.ExtTreeMap.getElem?_insert]
      by_cases hname : field = name
      · subst hname
        simp
      · rw [if_neg (by simpa using hname), ih, List.dlookup_cons_ne _ _ (Ne.symm hname)]
  exact hfold s.fields.entries

theorem ext_fields {x y : RialtoOcdm.GstStructure} (hname : x.name = y.name)
    (hfields : ∀ name : String, x.fields[name]? = y.fields[name]?) : x = y := by
  cases x
  cases y
  exact RialtoOcdm.GstStructure.mk.injEq .. |>.mpr ⟨hname, Std.ExtTreeMap.ext_getElem? hfields⟩

theorem content_set : (s.set field value).content read = (s.content read).set field (value.content read) := by
  refine ext_fields rfl fun name => ?_
  rw [getElem?_content, getElem?_set, getElem?_content, set]
  by_cases hname : name = field
  · subst hname
    simp
  · rw [if_neg hname, AList.lookup_insert_ne hname]

theorem content_congr (h : ∀ b ∈ s.pointers, read' b = read b) : s.content read' = s.content read := by
  refine ext_fields rfl fun name => ?_
  rw [getElem?_content, getElem?_content]
  cases hlookup : s.fields.lookup name with
  | none => rfl
  | some value =>
    refine congrArg some (GValue.content_congr fun b hb => h b ?_)
    exact List.mem_flatMap.mpr ⟨⟨name, value⟩, AList.mem_lookup_iff.mp hlookup, hb⟩

end Fields

theorem Memory.reads_write {buffer : GstBuffer Fields} :
    Reads m (m.write b buffer) (Function.update m.value b buffer) :=
  fun _ hx => ⟨(Heap.touch_live (r := b)).subset hx, rfl⟩

/-- What is alive still was so, and values are as they were. -/
theorem Memory.reads_of_subset (hlive : m'.live ⊆ m.live) (hvalue : m'.value = m.value) :
    Reads m m' m.value := fun _ hx => ⟨hlive hx, congrFun hvalue _⟩

theorem Memory.reads_touch : Reads m (m.touch b) m.value :=
  reads_of_subset Heap.touch_live.subset Heap.touch_value

theorem Memory.set_subset : (m.set s field value).live ⊆ m.live ∧ (m.set s field value).value = m.value := by
  obtain ⟨hlive, hvalue⟩ := Heap.foldl_retain (h := m) (l := value.pointers)
  obtain ⟨hlive', hvalue'⟩ : (m.set s field value).live ⊆ (value.pointers.foldl Heap.retain m).live ∧
      (m.set s field value).value = (value.pointers.foldl Heap.retain m).value := Heap.foldl_release
  exact ⟨hlive'.trans hlive.subset, hvalue'.trans hvalue⟩

theorem Memory.new_reads {fields : List (String × GValue)} :
    (∀ read, GstStructure.content read (GStreamer.gstStructureNew name fields m).1 =
      RialtoOcdm.GstStructure.new name (fields.map fun field => (field.1, field.2.content read))) ∧
    Reads m (GStreamer.gstStructureNew name fields m).2 m.value := by
  have hfold : ∀ (s : Fields) (m : Memory),
      let r : Fields × Memory := fields.foldl
        (fun (s, m) field => (s.set field.1 field.2, Memory.set m s field.1 field.2)) (s, m)
      (∀ read, r.1.content read = (fields.map fun field => (field.1, field.2.content read)).foldl
        (fun s field => s.set field.1 field.2) (s.content read)) ∧ r.2.live ⊆ m.live ∧ r.2.value = m.value := by
    induction fields with
    | nil => exact fun s m => ⟨fun _ => rfl, Finset.Subset.refl _, rfl⟩
    | cons field fields ih =>
      intro s m
      obtain ⟨hcontent, hlive, hvalue⟩ := ih (s.set field.1 field.2) (Memory.set m s field.1 field.2)
      obtain ⟨hlive', hvalue'⟩ : (m.set s field.1 field.2).live ⊆ m.live ∧
          (m.set s field.1 field.2).value = m.value := set_subset
      simp only [Fields.content_set] at hcontent
      exact ⟨hcontent, hlive.trans hlive', hvalue.trans hvalue'⟩
  obtain ⟨hcontent, hlive, hvalue⟩ := hfold ⟨name, ∅⟩ m
  exact ⟨hcontent, reads_of_subset hlive hvalue⟩

theorem keeps_contents : KeepsContents Memory where
  allocate {m own} size hm := by
    have hfresh : m.live.sup id + 1 ∉ m.live := fun hmem =>
      Nat.not_succ_le_self _ (Finset.le_sup (f := id) hmem)
    refine ⟨hfresh, ?_, fun b _ hb => Function.update_of_ne (ne_of_mem_of_not_mem hb hfresh) ..⟩
    simp [GStreamer.heap, GStreamer.gstBufferNewAllocate, Heap.new]
  fill {m own b src} hm hb hsize := by
    have hsize' : src.length = (m.value b).bytes.length := hsize
    have htake : src.take (m.value b).bytes.length = src := List.take_of_length_le hsize'.le
    have hfill : GStreamer.gstBufferFill b src m = m.write b { m.value b with bytes := src } := by
      simp [GStreamer.gstBufferFill, htake, hsize']
    rw [hfill]
    exact Memory.reads_write
  unref {m own b} hm := Memory.reads_of_subset Heap.unref_subset Heap.unref_value
  getSize {m own b} hm hb := by
    cases b with
    | none => exact ⟨rfl, Memory.reads_of_subset (Finset.Subset.refl _) rfl⟩
    | some b => exact ⟨rfl, Memory.reads_touch⟩
  structureNew _ _ _ _ := Memory.new_reads
  structureSet _ _ _ _ :=
    ⟨fun _ => Fields.content_set, Memory.reads_of_subset Memory.set_subset.1 Memory.set_subset.2⟩
  structureCopy _ _ :=
    ⟨fun _ => rfl, Memory.reads_of_subset Heap.foldl_retain.1.subset Heap.foldl_retain.2⟩
  getProtectionMeta _ _ := ⟨rfl, Memory.reads_touch⟩
  addMeta _ _ := Memory.reads_write
  hasFieldTyped s field type read := by
    simp only [GstStructure.hasFieldTyped, RialtoOcdm.GstStructure.hasFieldTyped, GstStructure.content,
      Fields.getElem?_content]
    cases s.fields.lookup field <;> simp [GValue.content_type]
  getString s field read := by
    simp only [GstStructure.getString, RialtoOcdm.GstStructure.getString, GstStructure.content,
      Fields.getElem?_content]
    rcases s.fields.lookup field with _ | _ | _ | _ | _ | _ | _ <;> rfl
  getUint s field read := by
    simp only [GstStructure.getUint, RialtoOcdm.GstStructure.getUint, GstStructure.content,
      Fields.getElem?_content]
    rcases s.fields.lookup field with _ | _ | _ | _ | _ | _ | _ <;> rfl
  getBuffer s field read := by
    simp only [GstStructure.getBuffer, RialtoOcdm.GstStructure.getBuffer, GstStructure.content,
      Fields.getElem?_content]
    rcases s.fields.lookup field with _ | _ | _ | _ | _ | _ | _ <;> rfl
  content_congr h := Fields.content_congr h

end Contents

end RialtoOcdm.Pointers
