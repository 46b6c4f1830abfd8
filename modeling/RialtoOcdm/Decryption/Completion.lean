import RialtoOcdm.Decryption.ProtectionMeta
import Mathlib.Algebra.Group.Nat.Defs

/-! What `addProtectionMeta` makes of protection metadata, whatever fields it has. The
record it attaches is complete, keeps what was well-typed, and is not changed when it is
completed again. The size of the IV is cut off to 32 bits. -/

namespace RialtoOcdm

open Concurrency Prog OpenCDMSessionPrivate

namespace GstStructure

variable {s s' : GstStructure} {field name : String} {value : GValue} {type : GType}

theorem hasFieldTyped_iff : s.hasFieldTyped field type = true ↔
    ∃ value, s.fields[field]? = some value ∧ value.type = type := by
  simp [hasFieldTyped, Option.any_eq_true]

/-- Where the values of a type are those that `make` makes. -/
theorem hasFieldTyped_iff_make {α : Type} (make : α → GValue)
    (hmake : ∀ value : GValue, value.type = type ↔ ∃ a, make a = value) :
    s.hasFieldTyped field type = true ↔ ∃ a, s.fields[field]? = some (make a) := by
  rw [hasFieldTyped_iff]
  constructor
  · rintro ⟨value, h, ht⟩
    obtain ⟨a, rfl⟩ := (hmake value).mp ht
    exact ⟨a, h⟩
  · rintro ⟨a, h⟩
    exact ⟨_, h, (hmake _).mpr ⟨a, rfl⟩⟩

theorem hasFieldTyped_boolean : s.hasFieldTyped field .boolean = true ↔
    ∃ b, s.fields[field]? = some (.boolean b) :=
  hasFieldTyped_iff_make .boolean fun value => by cases value <;> simp [GValue.type]

theorem hasFieldTyped_uint : s.hasFieldTyped field .uint = true ↔
    ∃ n, s.fields[field]? = some (.uint n) :=
  hasFieldTyped_iff_make .uint fun value => by cases value <;> simp [GValue.type]

theorem hasFieldTyped_buffer : s.hasFieldTyped field .buffer = true ↔
    ∃ b, s.fields[field]? = some (.buffer b) :=
  hasFieldTyped_iff_make .buffer fun value => by cases value <;> simp [GValue.type]

/-- Whether there is a field of a type depends on the field only. -/
theorem hasFieldTyped_congr (h : s'.fields[field]? = s.fields[field]?) (type : GType) :
    s'.hasFieldTyped field type = s.hasFieldTyped field type := by
  rw [hasFieldTyped, hasFieldTyped, h]

/-- Setting a field to what it is. -/
theorem set_of_getElem? (h : s.fields[field]? = some value) : s.set field value = s := by
  have hfields : s.fields.insert field value = s.fields := by
    apply Std.ExtTreeMap.ext_getElem?
    intro name
    rw [Std.ExtTreeMap.getElem?_insert]
    split_ifs with hname
    · rw [← Std.compare_eq_iff_eq.mp hname, h]
    · rfl
  rw [set, hfields]

end GstStructure

/-! ### The completion -/

variable {s : GstStructure} {field name : String} {value : GValue}

theorem getElem?_setUnlessTyped_of_ne (h : name ≠ field) :
    (setUnlessTyped s field value).fields[name]? = s.fields[name]? := by
  unfold setUnlessTyped
  split_ifs
  · rfl
  · rw [getElem?_set, if_neg h]

/-- A patch leaves a field of its type. -/
theorem hasFieldTyped_setUnlessTyped : (setUnlessTyped s field value).hasFieldTyped field value.type = true := by
  unfold setUnlessTyped
  split_ifs with h
  · exact h
  · rw [GstStructure.hasFieldTyped_iff]
    exact ⟨value, by rw [getElem?_set, if_pos rfl], rfl⟩

theorem setUnlessTyped_of_typed (h : s.hasFieldTyped field value.type = true) :
    setUnlessTyped s field value = s := if_pos h

theorem getElem?_setUnlessTyped_congr {s' : GstStructure} (h : s'.fields[field]? = s.fields[field]?) :
    (setUnlessTyped s' field value).fields[field]? = (setUnlessTyped s field value).fields[field]? := by
  unfold setUnlessTyped
  rw [GstStructure.hasFieldTyped_congr h]
  split_ifs
  · exact h
  · simp

section

variable (id : Int32) (playreadyKeyId : Bytes) (info : GstStructure)

/-- The patches of `addProtectionMeta`, one after the other. -/
def patchIvSize : GstStructure :=
  if info.hasFieldTyped "iv" .buffer then
    setUnlessTyped info "iv_size" (.uint (gstBufferGetSize (info.getBuffer "iv")))
  else info

def patchKid : GstStructure :=
  if playreadyKeyId.isEmpty then info else info.set "kid" (.buffer (some playreadyKeyId))

def complete : GstStructure :=
  patchKid playreadyKeyId (setUnlessTyped (patchIvSize
    (setUnlessTyped (info.set "mks_id" (.int id)) "encrypted" (.boolean true)))
    "encryption_scheme" (.uint 0))

end

variable {id : Int32} {playreadyKeyId : Bytes} {info r : GstStructure}

theorem getElem?_patchIvSize_of_ne (h : name ≠ "iv_size") :
    (patchIvSize info).fields[name]? = info.fields[name]? := by
  unfold patchIvSize
  split_ifs
  · exact getElem?_setUnlessTyped_of_ne h
  · rfl

theorem getElem?_patchIvSize_congr (hiv : r.fields["iv"]? = info.fields["iv"]?)
    (hsize : r.fields["iv_size"]? = info.fields["iv_size"]?) :
    (patchIvSize r).fields["iv_size"]? = (patchIvSize info).fields["iv_size"]? := by
  unfold patchIvSize
  rw [GstStructure.hasFieldTyped_congr hiv, GstStructure.getBuffer, GstStructure.getBuffer, hiv]
  split_ifs
  · exact getElem?_setUnlessTyped_congr hsize
  · exact hsize

theorem getElem?_patchKid_of_ne (h : name ≠ "kid") :
    (patchKid playreadyKeyId info).fields[name]? = info.fields[name]? := by
  unfold patchKid
  split_ifs
  · rfl
  · rw [getElem?_set, if_neg h]

theorem getElem?_patchKid :
    (patchKid playreadyKeyId info).fields["kid"]? =
      if playreadyKeyId = [] then info.fields["kid"]? else some (.buffer (some playreadyKeyId)) := by
  cases playreadyKeyId <;> simp [patchKid]

/-- The patches do not get in each other's way: every field is as if its own patch were
the only one. -/
theorem getElem?_complete (name : String) : (complete id playreadyKeyId info).fields[name]? =
    if name = "mks_id" then some (.int id)
    else if name = "encrypted" then (setUnlessTyped info name (.boolean true)).fields[name]?
    else if name = "iv_size" then (patchIvSize info).fields[name]?
    else if name = "encryption_scheme" then (setUnlessTyped info name (.uint 0)).fields[name]?
    else if name = "kid" then (patchKid playreadyKeyId info).fields[name]?
    else info.fields[name]? := by
  unfold complete
  split_ifs with h₁ h₂ h₃ h₄ h₅
  · subst h₁
    simp [getElem?_patchKid_of_ne, getElem?_setUnlessTyped_of_ne, getElem?_patchIvSize_of_ne]
  · subst h₂
    rw [getElem?_patchKid_of_ne (by decide), getElem?_setUnlessTyped_of_ne (by decide),
      getElem?_patchIvSize_of_ne (by decide)]
    exact getElem?_setUnlessTyped_congr (by simp)
  · subst h₃
    rw [getElem?_patchKid_of_ne (by decide), getElem?_setUnlessTyped_of_ne (by decide)]
    exact getElem?_patchIvSize_congr (by simp [getElem?_setUnlessTyped_of_ne])
      (by simp [getElem?_setUnlessTyped_of_ne])
  · subst h₄
    rw [getElem?_patchKid_of_ne (by decide)]
    exact getElem?_setUnlessTyped_congr
      (by simp [getElem?_patchIvSize_of_ne, getElem?_setUnlessTyped_of_ne])
  · subst h₅
    simp [getElem?_patchKid, getElem?_setUnlessTyped_of_ne, getElem?_patchIvSize_of_ne]
  · simp [getElem?_patchKid_of_ne h₅, getElem?_setUnlessTyped_of_ne h₄, getElem?_patchIvSize_of_ne h₃,
      getElem?_setUnlessTyped_of_ne h₂, h₁]

/-- A record that has been completed has what the patches set. -/
structure Filled (id : Int32) (playreadyKeyId : Bytes) (r : GstStructure) : Prop where
  mksId : r.fields["mks_id"]? = some (.int id)
  encrypted : r.hasFieldTyped "encrypted" .boolean = true
  ivSize : r.hasFieldTyped "iv" .buffer = true → r.hasFieldTyped "iv_size" .uint = true
  encryptionScheme : r.hasFieldTyped "encryption_scheme" .uint = true
  kid : playreadyKeyId ≠ [] → r.fields["kid"]? = some (.buffer (some playreadyKeyId))

theorem filled_complete (id : Int32) (playreadyKeyId : Bytes) (info : GstStructure) :
    Filled id playreadyKeyId (complete id playreadyKeyId info) where
  mksId := by simp [getElem?_complete]
  encrypted := by
    rw [GstStructure.hasFieldTyped_congr (s := setUnlessTyped info "encrypted" (.boolean true))
      (by simp [getElem?_complete])]
    exact hasFieldTyped_setUnlessTyped
  ivSize hiv := by
    rw [GstStructure.hasFieldTyped_congr (s := info) (by simp [getElem?_complete])] at hiv
    rw [GstStructure.hasFieldTyped_congr (s := patchIvSize info) (by simp [getElem?_complete]),
      patchIvSize, if_pos hiv]
    exact hasFieldTyped_setUnlessTyped
  encryptionScheme := by
    rw [GstStructure.hasFieldTyped_congr (s := setUnlessTyped info "encryption_scheme" (.uint 0))
      (by simp [getElem?_complete])]
    exact hasFieldTyped_setUnlessTyped
  kid hkey := by simp [getElem?_complete, getElem?_patchKid, hkey]

/-- Nothing is left to be patched. -/
theorem Filled.complete_eq (h : Filled id playreadyKeyId r) : complete id playreadyKeyId r = r := by
  have hencrypted : setUnlessTyped r "encrypted" (.boolean true) = r :=
    setUnlessTyped_of_typed h.encrypted
  have hscheme : setUnlessTyped r "encryption_scheme" (.uint 0) = r :=
    setUnlessTyped_of_typed h.encryptionScheme
  have hiv : patchIvSize r = r := by
    unfold patchIvSize
    split_ifs with hiv
    · exact setUnlessTyped_of_typed (h.ivSize hiv)
    · rfl
  have hkid : patchKid playreadyKeyId r = r := by
    unfold patchKid
    split_ifs with hkey
    · rfl
    · exact GstStructure.set_of_getElem? (h.kid (by simpa using hkey))
  rw [complete, GstStructure.set_of_getElem? h.mksId, hencrypted, hiv, hscheme, hkid]

/-- The record has all that Rialto asks for. -/
structure Complete (session : Session) (info r : GstStructure) : Prop where
  mksId : r.fields["mks_id"]? = some (.int session.rialtoSessionId)
  encrypted : ∃ b, r.fields["encrypted"]? = some (.boolean b)
  encryptionScheme : ∃ n, r.fields["encryption_scheme"]? = some (.uint n)
  ivSize : ∀ iv, info.fields["iv"]? = some (.buffer (some iv)) →
    ∃ n, r.fields["iv_size"]? = some (.uint n) ∧
      (info.hasFieldTyped "iv_size" .uint = false → n.toNat = iv.length)
  kid : r.fields["kid"]? = if session.playreadyKeyId = [] then info.fields["kid"]?
    else some (.buffer (some session.playreadyKeyId))

/-- What was there stays, where it has the right type or is none of the patched fields. -/
structure Keeps (info r : GstStructure) : Prop where
  encrypted : ∀ b, info.fields["encrypted"]? = some (.boolean b) →
    r.fields["encrypted"]? = some (.boolean b)
  encryptionScheme : ∀ n, info.fields["encryption_scheme"]? = some (.uint n) →
    r.fields["encryption_scheme"]? = some (.uint n)
  ivSize : ∀ n, info.fields["iv_size"]? = some (.uint n) → r.fields["iv_size"]? = some (.uint n)
  others : ∀ name ∉ ["mks_id", "encrypted", "iv_size", "encryption_scheme", "kid"],
    r.fields[name]? = info.fields[name]?

theorem keeps_complete (id : Int32) (playreadyKeyId : Bytes) (info : GstStructure) :
    Keeps info (complete id playreadyKeyId info) where
  encrypted b h := by
    have htyped : setUnlessTyped info "encrypted" (.boolean true) = info :=
      setUnlessTyped_of_typed (GstStructure.hasFieldTyped_boolean.mpr ⟨b, h⟩)
    simp [getElem?_complete, htyped, h]
  encryptionScheme n h := by
    have htyped : setUnlessTyped info "encryption_scheme" (.uint 0) = info :=
      setUnlessTyped_of_typed (GstStructure.hasFieldTyped_uint.mpr ⟨n, h⟩)
    simp [getElem?_complete, htyped, h]
  ivSize n h := by
    have htyped : patchIvSize info = info := by
      unfold patchIvSize
      split_ifs
      · exact setUnlessTyped_of_typed (GstStructure.hasFieldTyped_uint.mpr ⟨n, h⟩)
      · rfl
    simp [getElem?_complete, htyped, h]
  others name hname := by
    simp only [List.mem_cons, List.not_mem_nil, or_false, not_or] at hname
    simp [getElem?_complete, hname]

/-- The size of an IV that fits in 32 bits. -/
theorem gstBufferGetSize_eq_iff {iv : Bytes} :
    (gstBufferGetSize (some iv)).toNat = iv.length ↔ iv.length < 2 ^ 32 := by
  rw [gstBufferGetSize, Option.getD_some, UInt32.toNat_ofNat']
  exact ⟨fun h => h ▸ Nat.mod_lt _ (by decide), Nat.mod_eq_of_lt⟩

/-- The size that the record has where the metadata has none. -/
theorem ivSize_complete {iv : Option Bytes} (hiv : info.fields["iv"]? = some (.buffer iv))
    (hnot : info.hasFieldTyped "iv_size" .uint = false) :
    (complete id playreadyKeyId info).fields["iv_size"]? = some (.uint (gstBufferGetSize iv)) := by
  have hbuffer : info.hasFieldTyped "iv" .buffer = true :=
    GstStructure.hasFieldTyped_buffer.mpr ⟨iv, hiv⟩
  simp [getElem?_complete, patchIvSize, hbuffer, setUnlessTyped, GValue.type, hnot,
    GstStructure.getBuffer, hiv]

/-- The record is complete unless the size of its IV is cut off. -/
theorem complete_iff (session : Session) (info : GstStructure) :
    Complete session info (complete session.rialtoSessionId session.playreadyKeyId info) ↔
      ∀ iv, info.fields["iv"]? = some (.buffer (some iv)) →
        info.hasFieldTyped "iv_size" .uint = false → iv.length < 2 ^ 32 := by
  have hfilled := filled_complete session.rialtoSessionId session.playreadyKeyId info
  constructor
  · intro h iv hiv hnot
    obtain ⟨n, hn, hlength⟩ := h.ivSize iv hiv
    rw [ivSize_complete hiv hnot, Option.some.injEq, GValue.uint.injEq] at hn
    exact gstBufferGetSize_eq_iff.mp (hn ▸ hlength hnot)
  · intro h
    refine ⟨hfilled.mksId, GstStructure.hasFieldTyped_boolean.mp hfilled.encrypted,
      GstStructure.hasFieldTyped_uint.mp hfilled.encryptionScheme, fun iv hiv => ?_, ?_⟩
    · cases hnot : info.hasFieldTyped "iv_size" .uint with
      | false => exact ⟨_, ivSize_complete hiv hnot, fun _ => gstBufferGetSize_eq_iff.mpr (h iv hiv hnot)⟩
      | true =>
        obtain ⟨n, hn⟩ := GstStructure.hasFieldTyped_uint.mp hnot
        exact ⟨n, (keeps_complete _ _ info).ivSize n hn, by simp⟩
    · simp [getElem?_complete, getElem?_patchKid]

/-! ### The code -/

variable {R : Type} {I : World R → Prop} {w : World R} {a : Addr} {o : Object} {buffer : GstBuffer}

theorem addProtectionMeta_ensures (ho : w.heap[a]? = some o) (hd : o.destroyed = [])
    (hb : buffer.protectionMeta = some info) :
    (addProtectionMeta a buffer).Ensures I [] (fun r w' => w' = w ∧ r = some
      (buffer.addProtectionMetadata (complete o.session.rialtoSessionId o.session.playreadyKeyId info))) w := by
  rw [addProtectionMeta, hb]
  dsimp only
  rw [ensures_readMember ho hd, ensures_readMember ho hd]
  exact ensures_ret.mpr ⟨rfl, rfl⟩

/-- The call attaches a record that is complete, keeps what it should and is not changed by
another call, and leaves the metadata alone. -/
structure Attaches (w : World R) (a : Addr) (session : Session) (buffer buffer' : GstBuffer)
    (info r : GstStructure) : Prop where
  returned : (addProtectionMeta a buffer).exec [] w = .done (some buffer') w
  attached : buffer'.rialtoProtection = buffer.rialtoProtection ++ [r]
  untouched : buffer'.protectionMeta = buffer.protectionMeta
  complete : Complete session info r
  keeps : Keeps info r
  again : ∀ other : GstBuffer, other.protectionMeta = some r →
    (addProtectionMeta a other).exec [] w = .done (some (other.addProtectionMetadata r)) w

theorem addProtectionMeta_exec (ho : w.heap[a]? = some o) (hd : o.destroyed = [])
    (hb : buffer.protectionMeta = some info) : (addProtectionMeta a buffer).exec [] w = .done (some
      (buffer.addProtectionMetadata (complete o.session.rialtoSessionId o.session.playreadyKeyId info))) w := by
  obtain ⟨_, _, he, rfl, rfl⟩ := (addProtectionMeta_ensures (I := fun _ => False) ho hd hb).returns
  exact he

theorem attaches_iff (ho : w.heap[a]? = some o) (hd : o.destroyed = [])
    (hb : buffer.protectionMeta = some info) : (∃ buffer' r, Attaches w a o.session buffer buffer' info r) ↔
      Complete o.session info (complete o.session.rialtoSessionId o.session.playreadyKeyId info) := by
  have he := addProtectionMeta_exec ho hd hb
  constructor
  · rintro ⟨buffer', r, h⟩
    have hr := h.attached
    obtain rfl : buffer.addProtectionMetadata _ = buffer' := by simpa using he.symm.trans h.returned
    rw [GstBuffer.addProtectionMetadata, List.append_cancel_left_eq, List.cons.injEq] at hr
    exact hr.1 ▸ h.complete
  · intro h
    refine ⟨_, _, he, rfl, rfl, h, keeps_complete _ _ info, fun other hother => ?_⟩
    rw [addProtectionMeta_exec ho hd hother, (filled_complete _ _ info).complete_eq]

/-- For every session that is there and every buffer with protection metadata, of any
fields: the call does all that if and only if the size of the IV fits in 32 bits, where
there is an IV and no size of it yet. -/
theorem completes_iff (ho : w.heap[a]? = some o) (hd : o.destroyed = [])
    (hb : buffer.protectionMeta = some info) : (∃ buffer' r, Attaches w a o.session buffer buffer' info r) ↔
      ∀ iv, info.fields["iv"]? = some (.buffer (some iv)) →
        info.hasFieldTyped "iv_size" .uint = false → iv.length < 2 ^ 32 :=
  (attaches_iff ho hd hb).trans (complete_iff o.session info)

/-- Metadata with an IV, a field of the wrong type and one the code does not know. -/
def mistyped : GstStructure := .new "application/x-cenc" [("iv", .buffer (some [2, 3])),
  ("encrypted", .string "yes"), ("rate", .other "GstFraction" [30, 1])]

theorem completes_iff_sample : ∃ o, sample.shared.heap[7]? = some o ∧
    ∃ buffer' r, Attaches sample.shared 7 o.session ⟨some mistyped, []⟩ buffer' mistyped r := by
  obtain ⟨o, ho, hd⟩ : ∃ o, sample.shared.heap[7]? = some o ∧ o.destroyed = [] := ⟨_, rfl, rfl⟩
  refine ⟨o, ho, (completes_iff ho hd rfl).mpr fun iv hiv _ => ?_⟩
  have hfield : mistyped.fields["iv"]? = some (.buffer (some [2, 3])) := by
    simp [mistyped, GstStructure.new]
  rw [hfield, Option.some.injEq, GValue.buffer.injEq, Option.some.injEq] at hiv
  rw [← hiv]
  decide

/-- The size of an IV of 2 ^ 32 bytes is taken for 0. -/
theorem completes_not : ¬ ∀ (x : Run (World Compliant) Mutex Condition Reply) (a : Addr) (o : Object)
    (buffer : GstBuffer) (info : GstStructure), Reachable x → x.shared.heap[a]? = some o →
      buffer.protectionMeta = some info → info.fields["iv"]? ≠ some (.buffer none) →
      ∃ buffer' r, Attaches x.shared a o.session buffer buffer' info r := by
  intro h
  obtain ⟨o, ho, hd⟩ : ∃ o, sample.shared.heap[7]? = some o ∧ o.destroyed = [] := ⟨_, rfl, rfl⟩
  obtain ⟨iv, hlength⟩ : ∃ iv : Bytes, iv.length = 2 ^ 32 :=
    ⟨List.replicate (2 ^ 32) 0, List.length_replicate⟩
  let info := GstStructure.new "application/x-cenc" [("iv", .buffer (some iv))]
  have hiv : info.fields["iv"]? = some (.buffer (some iv)) := by
    simp [info, GstStructure.new]
  have hnot : info.hasFieldTyped "iv_size" .uint = false := by
    simp [info, GstStructure.new, GstStructure.hasFieldTyped]
  have hattaches := h sample 7 o ⟨some info, []⟩ info sample_reachable ho rfl (by simp [hiv])
  have hfits := (complete_iff o.session info).mp ((attaches_iff ho hd rfl).mp hattaches) iv hiv hnot
  rw [hlength] at hfits
  exact lt_irrefl _ hfits

end RialtoOcdm
