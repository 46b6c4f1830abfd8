import RialtoOcdm.Library.OpenCDMAdapter
import RialtoOcdm.Sequential.Clients

/-! The two ways to have a buffer decrypted. One makes a record of its arguments, the
other one of the protection metadata of the buffer. Where both are given the same, the
records differ in two cases: when a key id is selected, and when a pattern comes
without a cipher mode. -/

namespace RialtoOcdm

open Concurrency Prog OpenCDMSessionPrivate

/-- Protection metadata of a buffer, with nothing but the fields of common encryption. -/
structure Cenc where
  name : String
  kid : Bytes
  iv : Bytes
  subsamples : Bytes
  subsampleCount : UInt32
  initWithLast15 : UInt32
  cipherMode : Option String
  cryptByteBlock : Option UInt32
  skipByteBlock : Option UInt32

namespace Cenc

/-- A field that may be missing. -/
def setOptional (s : GstStructure) (field : String) (value : Option GValue) : GstStructure :=
  value.elim s (s.set field)

def info (c : Cenc) : GstStructure :=
  setOptional (setOptional (setOptional (GstStructure.new c.name [("kid", .buffer (some c.kid)),
    ("iv", .buffer (some c.iv)), ("subsamples", .buffer (some c.subsamples)),
    ("subsample_count", .uint c.subsampleCount), ("init_with_last_15", .uint c.initWithLast15)])
    "cipher-mode" (c.cipherMode.map .string)) "crypt_byte_block" (c.cryptByteBlock.map .uint))
    "skip_byte_block" (c.skipByteBlock.map .uint)

end Cenc

/-! ### Fields -/

variable {s : GstStructure} {field name : String}

@[simp] theorem getElem?_set {value : GValue} : (s.set field value).fields[name]? =
    if name = field then some value else s.fields[name]? := by
  simp only [GstStructure.set, Std.ExtTreeMap.getElem?_insert, Std.compare_eq_iff_eq, eq_comm (a := name)]

@[simp] theorem getElem?_setOptional {value : Option GValue} :
    (Cenc.setOptional s field value).fields[name]? =
      if name = field then value.or s.fields[name]? else s.fields[name]? := by
  cases value <;> simp [Cenc.setOptional]

namespace Cenc

variable (c : Cenc) (id : Int32) (keyId : Bytes)

/-- The record that is made of the arguments. -/
def fromArguments : GstStructure :=
  let info := GstStructure.new "application/x-cenc" [("encrypted", .boolean true),
    ("mks_id", .int id), ("kid", .buffer (some (if c.kid = [] ∧ keyId ≠ [] then keyId else c.kid))),
    ("iv_size", .uint (.ofNat c.iv.length)), ("iv", .buffer (some c.iv)),
    ("subsample_count", .uint c.subsampleCount), ("subsamples", .buffer (some c.subsamples)),
    ("encryption_scheme", .uint 0), ("init_with_last_15", .uint c.initWithLast15)]
  match c.cipherMode with
  | none => info
  | some cipherMode => setOptional (setOptional (info.set "cipher-mode" (.string cipherMode))
      "crypt_byte_block" (c.cryptByteBlock.map .uint)) "skip_byte_block" (c.skipByteBlock.map .uint)

/-- The record that is made of the metadata. -/
def fromMetadata : GstStructure :=
  let info := (((c.info.set "mks_id" (.int id)).set "encrypted" (.boolean true)).set
    "iv_size" (.uint (.ofNat c.iv.length))).set "encryption_scheme" (.uint 0)
  if keyId = [] then info else info.set "kid" (.buffer (some keyId))

theorem fields_kid : (c.fromArguments id keyId).fields["kid"]? = (c.fromMetadata id keyId).fields["kid"]? ↔
    keyId = [] ∨ c.kid = [] ∨ c.kid = keyId := by
  have harguments : (c.fromArguments id keyId).fields["kid"]? =
      some (.buffer (some (if c.kid = [] ∧ keyId ≠ [] then keyId else c.kid))) := by
    cases hc : c.cipherMode <;> simp [fromArguments, hc, GstStructure.new]
  have hmetadata : (c.fromMetadata id keyId).fields["kid"]? =
      some (.buffer (some (if keyId = [] then c.kid else keyId))) := by
    unfold fromMetadata
    split_ifs <;> simp [GstStructure.new, info]
  rw [harguments, hmetadata]
  split_ifs <;> simp_all

theorem fields_crypt : (c.fromArguments id keyId).fields["crypt_byte_block"]? =
    (c.fromMetadata id keyId).fields["crypt_byte_block"]? ↔
      c.cipherMode.isSome ∨ c.cryptByteBlock = none := by
  have hmetadata : (c.fromMetadata id keyId).fields["crypt_byte_block"]? = c.cryptByteBlock.map .uint := by
    unfold fromMetadata
    split_ifs <;> simp [GstStructure.new, info]
  rw [hmetadata]
  cases hc : c.cipherMode <;> simp [fromArguments, hc, GstStructure.new, eq_comm]

theorem fields_skip : (c.fromArguments id keyId).fields["skip_byte_block"]? =
    (c.fromMetadata id keyId).fields["skip_byte_block"]? ↔
      c.cipherMode.isSome ∨ c.skipByteBlock = none := by
  have hmetadata : (c.fromMetadata id keyId).fields["skip_byte_block"]? = c.skipByteBlock.map .uint := by
    unfold fromMetadata
    split_ifs <;> simp [GstStructure.new, info]
  rw [hmetadata]
  cases hc : c.cipherMode <;> simp [fromArguments, hc, GstStructure.new, eq_comm]

/-- The two records agree on the other fields. -/
theorem fields_other {name : String} (hkid : name ≠ "kid") (hcrypt : name ≠ "crypt_byte_block")
    (hskip : name ≠ "skip_byte_block") :
    (c.fromArguments id keyId).fields[name]? = (c.fromMetadata id keyId).fields[name]? := by
  have hmetadata : (c.fromMetadata id keyId).fields[name]? =
      ((((c.info.set "mks_id" (.int id)).set "encrypted" (.boolean true)).set
    "iv_size" (.uint (.ofNat c.iv.length))).set "encryption_scheme" (.uint 0)).fields[name]? := by
    unfold fromMetadata
    split_ifs <;> simp [hkid]
  rw [hmetadata]
  by_cases hname : name ∈ ["encrypted", "mks_id", "iv_size", "iv", "subsample_count", "subsamples",
    "encryption_scheme", "init_with_last_15", "cipher-mode"]
  · simp only [List.mem_cons, List.not_mem_nil, or_false] at hname
    rcases hname with rfl | rfl | rfl | rfl | rfl | rfl | rfl | rfl | rfl <;>
      cases hc : c.cipherMode <;> simp [fromArguments, hc, info, GstStructure.new]
  · simp only [List.mem_cons, List.not_mem_nil, or_false, not_or] at hname
    cases hc : c.cipherMode <;>
      simp [fromArguments, hc, info, GstStructure.new, hname, hkid, hcrypt, hskip]

/-- The two records have the same fields but in two cases. -/
theorem fields_eq_iff : (c.fromArguments id keyId).fields = (c.fromMetadata id keyId).fields ↔
    (keyId = [] ∨ c.kid = [] ∨ c.kid = keyId) ∧
    (c.cipherMode.isSome ∨ c.cryptByteBlock = none ∧ c.skipByteBlock = none) := by
  rw [or_and_left, ← c.fields_kid id keyId, ← c.fields_crypt id keyId, ← c.fields_skip id keyId]
  refine ⟨fun h => by rw [h]; exact ⟨rfl, rfl, rfl⟩, fun ⟨hkid, hcrypt, hskip⟩ => ?_⟩
  apply Std.ExtTreeMap.ext_getElem?
  intro name
  by_cases h₁ : name = "kid"
  · rw [h₁, hkid]
  by_cases h₂ : name = "crypt_byte_block"
  · rw [h₂, hcrypt]
  by_cases h₃ : name = "skip_byte_block"
  · rw [h₃, hskip]
  exact c.fields_other id keyId h₁ h₂ h₃

/-! ### The code -/

omit c id keyId in
theorem setUnlessTyped_of_none (field : String) (h : s.fields[field]? = none) (value : GValue) :
    setUnlessTyped s field value = s.set field value := by
  simp [setUnlessTyped, GstStructure.hasFieldTyped, h]

theorem getString_info : c.info.getString "cipher-mode" = c.cipherMode := by
  cases hc : c.cipherMode <;> simp [GstStructure.getString, info, GstStructure.new, hc]

theorem getUint_crypt : c.info.getUint "crypt_byte_block" = c.cryptByteBlock := by
  cases hc : c.cryptByteBlock <;> simp [GstStructure.getUint, info, GstStructure.new, hc]

theorem getUint_skip : c.info.getUint "skip_byte_block" = c.skipByteBlock := by
  cases hc : c.skipByteBlock <;> simp [GstStructure.getUint, info, GstStructure.new, hc]

theorem hasFieldTyped_iv : ((c.info.set "mks_id" (.int id)).set "encrypted" (.boolean true)).hasFieldTyped
    "iv" .buffer = true := by
  simp [GstStructure.hasFieldTyped, info, GstStructure.new, GValue.type]

theorem getBuffer_iv : ((c.info.set "mks_id" (.int id)).set "encrypted" (.boolean true)).getBuffer "iv" =
    some c.iv := by
  simp [GstStructure.getBuffer, info, GstStructure.new]

end Cenc

variable {R : Type} {I : World R → Prop} {w : World R} {a : Addr} {o : Object} {buffer : GstBuffer} {c : Cenc}

theorem decryptEx_ensures (ho : w.heap[a]? = some o) (hd : o.destroyed = [])
    (hb : buffer.protectionMeta = some c.info) :
    (opencdmGstreamerSessionDecryptEx (some a) buffer (some c.subsamples) c.subsampleCount (some c.iv)
      (some c.kid) c.initWithLast15).Ensures I [] (fun r w' => w' = w ∧ r = (.none,
        buffer.addProtectionMetadata (c.fromArguments o.session.rialtoSessionId o.session.playreadyKeyId))) w := by
  have hkey : (keyToApply a (some c.kid)).Ensures I [] (fun r w' => w' = w ∧ r =
      some (if c.kid = [] ∧ o.session.playreadyKeyId ≠ [] then o.session.playreadyKeyId else c.kid)) w := by
    unfold keyToApply
    by_cases hk : c.kid = []
    · rw [hk, if_pos rfl, ensures_readMember ho hd]
      refine ensures_ret.mpr ⟨rfl, ?_⟩
      cases o.session.playreadyKeyId <;> simp
    · rw [if_neg (by simpa using hk)]
      exact ensures_ret.mpr ⟨rfl, by simp [hk]⟩
  refine .bind (.bind (hkey.mono fun key w₁ ⟨hw₁, hr⟩ => ?_))
  rw [hw₁, hr, ensures_readMember ho hd]
  refine ensures_ret.mpr (ensures_ret.mpr ⟨rfl, ?_⟩)
  rw [hb, Option.elim_some]
  unfold copyCipherMode Cenc.fromArguments
  rw [c.getString_info, c.getUint_crypt, c.getUint_skip]
  cases c.cipherMode with
  | none => rfl
  | some cipherMode => cases c.cryptByteBlock <;> cases c.skipByteBlock <;> rfl

theorem decryptBuffer_ensures (ho : w.heap[a]? = some o) (hd : o.destroyed = [])
    (hb : buffer.protectionMeta = some c.info) :
    (opencdmGstreamerSessionDecryptBuffer (some a) buffer).Ensures I [] (fun r w' => w' = w ∧ r = (.none,
      buffer.addProtectionMetadata (c.fromMetadata o.session.rialtoSessionId o.session.playreadyKeyId))) w := by
  refine .bind ?_
  rw [addProtectionMeta, hb]
  dsimp only
  rw [ensures_readMember ho hd, ensures_readMember ho hd]
  refine ensures_ret.mpr (ensures_ret.mpr ⟨rfl, ?_⟩)
  -- the metadata has none of the fields that are set unless they are there
  rw [Cenc.setUnlessTyped_of_none "encrypted" (by simp [Cenc.info, GstStructure.new]),
    if_pos (c.hasFieldTyped_iv _), c.getBuffer_iv,
    Cenc.setUnlessTyped_of_none "iv_size" (by simp [Cenc.info, GstStructure.new]),
    Cenc.setUnlessTyped_of_none "encryption_scheme" (by simp [Cenc.info, GstStructure.new])]
  unfold Cenc.fromMetadata
  cases o.session.playreadyKeyId <;> rfl

/-- For every session that is there, with any id and any key id selected: given the same,
both ways attach a record, and the records agree on every field if and only if no key id
is selected, or the one given is empty or the same, and there is a cipher mode or no
pattern. -/
theorem protection_agrees_iff (ho : w.heap[a]? = some o) (hd : o.destroyed = [])
    (hb : buffer.protectionMeta = some c.info) : ∃ r r' w₁ w₂,
    (opencdmGstreamerSessionDecryptEx (some a) buffer (some c.subsamples) c.subsampleCount (some c.iv)
      (some c.kid) c.initWithLast15).exec [] w = .done (.none, buffer.addProtectionMetadata r) w₁ ∧
    (opencdmGstreamerSessionDecryptBuffer (some a) buffer).exec [] w =
      .done (.none, buffer.addProtectionMetadata r') w₂ ∧
    (r.fields = r'.fields ↔
      (o.session.playreadyKeyId = [] ∨ c.kid = [] ∨ c.kid = o.session.playreadyKeyId) ∧
      (c.cipherMode.isSome ∨ c.cryptByteBlock = none ∧ c.skipByteBlock = none)) := by
  obtain ⟨_, w₁, he₁, -, rfl⟩ := (decryptEx_ensures (I := fun _ => False) ho hd hb).returns
  obtain ⟨_, w₂, he₂, -, rfl⟩ := (decryptBuffer_ensures (I := fun _ => False) ho hd hb).returns
  exact ⟨_, _, w₁, w₂, he₁, he₂, c.fields_eq_iff _ _⟩

/-- Metadata with a cipher mode and a pattern. -/
def sampleCenc : Cenc := ⟨"application/x-cenc", [1], [2, 3], [4], 1, 0, some "cbcs", some 1, some 9⟩

/-- The session of the sample has no key id selected. -/
theorem protection_agrees_iff_sample : ∃ r r' w₁ w₂,
    (opencdmGstreamerSessionDecryptEx (some 7) ⟨some sampleCenc.info, []⟩ (some [4]) 1 (some [2, 3])
      (some [1]) 0).exec [] sample.shared = .done (.none, ⟨some sampleCenc.info, [r]⟩) w₁ ∧
    (opencdmGstreamerSessionDecryptBuffer (some 7) ⟨some sampleCenc.info, []⟩).exec [] sample.shared =
      .done (.none, ⟨some sampleCenc.info, [r']⟩) w₂ ∧ r.fields = r'.fields := by
  obtain ⟨o, ho, hd, hp⟩ : ∃ o, sample.shared.heap[7]? = some o ∧ o.destroyed = [] ∧
      o.session.playreadyKeyId = [] := ⟨_, rfl, rfl, rfl⟩
  obtain ⟨r, r', w₁, w₂, he₁, he₂, hr⟩ := protection_agrees_iff (c := sampleCenc) ho hd
    (rfl : (⟨some sampleCenc.info, []⟩ : GstBuffer).protectionMeta = some sampleCenc.info)
  exact ⟨r, r', w₁, w₂, he₁, he₂, hr.mpr ⟨.inl hp, .inl rfl⟩⟩

/-- The sample, with a key id selected. -/
theorem selected_runs : (Run.callAll entry (sampleCalls ++ [.operation (some 7) (.selectKeyId (some [9]))])
    (World.start Compliant.mk (fun _ => "widevine") fun _ => true)).isSome = true := by decide

def selected : Run (World Compliant) Mutex Condition Reply := ⟨(Run.callAll entry _ _).get selected_runs, []⟩

/-- The selected key id replaces the one in the metadata, but not the one in the arguments. -/
theorem protection_differs :
    ¬ ∀ (x : Run (World Compliant) Mutex Condition Reply) (a : Addr) (o : Object) (buffer : GstBuffer)
        (c : Cenc), Reachable x → x.shared.heap[a]? = some o → buffer.protectionMeta = some c.info →
      ∃ r r' w₁ w₂,
        (opencdmGstreamerSessionDecryptEx (some a) buffer (some c.subsamples) c.subsampleCount (some c.iv)
          (some c.kid) c.initWithLast15).exec [] x.shared =
            .done (.none, buffer.addProtectionMetadata r) w₁ ∧
        (opencdmGstreamerSessionDecryptBuffer (some a) buffer).exec [] x.shared =
          .done (.none, buffer.addProtectionMetadata r') w₂ ∧ r.fields = r'.fields := by
  intro h
  have hx : Reachable selected := ⟨_, _, _, Run.reaches_of_callAll (Option.some_get selected_runs).symm⟩
  obtain ⟨o, ho, hd, hp⟩ : ∃ o, selected.shared.heap[7]? = some o ∧ o.destroyed = [] ∧
      o.session.playreadyKeyId = [9] := ⟨_, rfl, rfl, rfl⟩
  obtain ⟨r, r', w₁, w₂, he₁, he₂, hr⟩ := h _ 7 o ⟨some sampleCenc.info, []⟩ sampleCenc hx ho rfl
  have h₁ := ((decryptEx_ensures (I := fun _ => True) ho hd rfl).done he₁).2
  have h₂ := ((decryptBuffer_ensures (I := fun _ => True) ho hd rfl).done he₂).2
  simp only [GstBuffer.addProtectionMetadata, List.nil_append, Prod.mk.injEq, true_and,
    GstBuffer.mk.injEq, List.cons.injEq, and_true] at h₁ h₂
  rw [h₁, h₂, sampleCenc.fields_eq_iff, hp] at hr
  exact absurd hr.1 (by decide)

end RialtoOcdm
