import RialtoOcdm.Library.OpenCDMAdapter
import RialtoOcdm.Ownership.Counted

/-! Decryption with pointers. GStreamer is not part of the library. In its memory are buffers,
with their references counted, and its structures hold references to the buffers in their
fields. Every operation of GStreamer is one step, and the threads of a process may take theirs
in any order. -/

namespace RialtoOcdm.Pointers

open Concurrency Ownership

/-! ### Structures and buffers -/

/-- A value of a field; a buffer is a pointer that may be null. -/
inductive GValue
  | boolean (b : Bool)
  | int (i : Int32)
  | uint (n : UInt32)
  | string (s : String)
  | buffer (b : Option Addr)
  | other (type : String) (content : Bytes)

namespace GValue

def type : GValue → GType
  | boolean _ => .boolean
  | int _ => .int
  | uint _ => .uint
  | string _ => .string
  | buffer _ => .buffer
  | other type _ => .other type

/-- The buffers that a value is a reference to. -/
def pointers : GValue → List Addr
  | buffer b => b.toList
  | _ => []

def content (bytes : Addr → Bytes) : GValue → RialtoOcdm.GValue
  | boolean b => .boolean b
  | int i => .int i
  | uint n => .uint n
  | string s => .string s
  | buffer b => .buffer (b.map bytes)
  | other type content => .other type content

end GValue

/-- Structures of GStreamer. Of one that is there can be seen to which buffers it has
references, and what it reads as where the bytes of buffers are known. -/
class GstStructure (S : Type) where
  pointers : S → List Addr
  content : (Addr → Bytes) → S → RialtoOcdm.GstStructure
  hasFieldTyped : S → String → GType → Bool
  getString : S → String → Option String
  getUint : S → String → Option UInt32
  /-- The buffer of the value of a field, by `gst_structure_get_value` and `gst_value_get_buffer`. -/
  getBuffer : S → String → Option Addr

variable {S : Type} [GstStructure S]

/-- The metadata that the library adds to a buffer. -/
structure GstRialtoProtectionMetadata (S : Type) where
  info : Option S

omit [GstStructure S] in
/-- `rialto_eme_protection_metadata_init` -/
def rialtoEmeProtectionMetadataInit : GstRialtoProtectionMetadata S := ⟨none⟩

/-- `rialto_eme_protection_metadata_free`: the structure that it frees, and what it leaves. -/
def rialtoEmeProtectionMetadataFree (emeta : GstRialtoProtectionMetadata S) :
    Option S × GstRialtoProtectionMetadata S :=
  match emeta.info with
  | none => (none, emeta)
  | some info => (some info, { emeta with info := none })

/-- A buffer of bytes, with the metadata of each kind in the order in which it was added. -/
structure GstBuffer (S : Type) where
  bytes : Bytes
  protection : List S
  rialtoProtection : List (GstRialtoProtectionMetadata S)

namespace GstBuffer

/-- The references that the end of a buffer gives back. -/
def pointers (buffer : GstBuffer S) : List Addr :=
  buffer.protection.flatMap GstStructure.pointers ++ buffer.rialtoProtection.flatMap fun emeta =>
    (rialtoEmeProtectionMetadataFree emeta).1.elim [] GstStructure.pointers

/-- The metadata that `gst_buffer_get_protection_meta` finds. -/
def protectionMeta (buffer : GstBuffer S) : Option S := buffer.protection.head?

end GstBuffer

/-- GStreamer, with a memory of its own. Its operations answer and change the memory, of which
can be seen what lives, how often it is referred to, and whether anything was used after its
end. -/
class GStreamer (σ : Type) (S : outParam Type) where
  heap : σ → Heap Addr (GstBuffer S)
  gstBufferNewAllocate : ℕ → σ → Addr × σ
  /-- From the start of the buffer. -/
  gstBufferFill : Addr → Bytes → σ → σ
  gstBufferRef : Addr → σ → σ
  gstBufferUnref : Addr → σ → σ
  gstBufferGetSize : Option Addr → σ → ℕ × σ
  gstStructureNew : String → List (String × GValue) → σ → S × σ
  gstStructureSet : S → String → GValue → σ → S × σ
  gstStructureCopy : S → σ → S × σ
  gstBufferGetProtectionMeta : Addr → σ → Option S × σ
  gstBufferAddProtectionMeta : Addr → S → σ → σ
  /-- With what is put into the new metadata. -/
  gstBufferAddMeta : Addr → GstRialtoProtectionMetadata S → σ → σ

abbrev Code (σ : Type) := Prog σ Empty Empty

variable {σ : Type} [GStreamer σ S]

/-- `gst_structure_copy` of the protection metadata of a buffer, if it has any. A reference to
the buffer keeps its metadata, so that this is one step. -/
def copyProtectionMeta (buffer : Addr) : Code σ (Option S) :=
  .update fun m =>
    match GStreamer.gstBufferGetProtectionMeta buffer m with
    | (none, m) => (none, m)
    | (some protectionMeta, m) =>
      let (info, m) := GStreamer.gstStructureCopy protectionMeta m
      (some info, m)

def rialtoMseAddProtectionMetadata (buffer : Addr) (info : S) : Code σ Unit :=
  let emeta : GstRialtoProtectionMetadata S := rialtoEmeProtectionMetadataInit
  .modify (GStreamer.gstBufferAddMeta buffer { emeta with info := some info })

/-! ### Sessions -/

/-- What decryption reads of a session. -/
structure Session where
  playreadyKeyId : Bytes
  rialtoSessionId : Int32

namespace Session

/-- A buffer of its own for the selected key id. -/
def newKey (session : Session) : Code σ Addr := do
  let key ← .update (GStreamer.gstBufferNewAllocate session.playreadyKeyId.length)
  .modify (GStreamer.gstBufferFill key session.playreadyKeyId)
  return key

/-- The key id to apply, and whether it is a buffer of its own. -/
def keyToApply (session : Session) (keyID : Option Addr) : Code σ (Option Addr × Bool) :=
  match keyID with
  | none => return (none, false)
  | some keyID => do
    let size ← .update (GStreamer.gstBufferGetSize (some keyID))
    if size = 0 ∧ session.playreadyKeyId ≠ [] then
      return (some (← session.newKey), true)
    else
      return (some keyID, false)

def setUint (info : S) (field : String) (value : Option UInt32) : Code σ S :=
  value.elim (pure info) fun n => .update (GStreamer.gstStructureSet info field (.uint n))

/-- Copy the cipher mode, and with it the pattern. -/
def copyCipherMode (info protection : S) : Code σ S :=
  match GstStructure.getString protection "cipher-mode" with
  | none => return info
  | some cipherMode => do
    let info ← .update (GStreamer.gstStructureSet info "cipher-mode" (.string cipherMode))
    let info ← setUint info "crypt_byte_block" (GstStructure.getUint protection "crypt_byte_block")
    setUint info "skip_byte_block" (GstStructure.getUint protection "skip_byte_block")

/-- `addProtectionMeta`, from arguments. -/
def addProtectionMetaOf (session : Session) (buffer : Addr) (subSample : Option Addr)
    (subSampleCount : UInt32) (iv keyID : Option Addr) (initWithLast15 : UInt32) : Code σ Unit := do
  let (key, shouldReleaseKey) ← session.keyToApply keyID
  let ivSize ← .update (GStreamer.gstBufferGetSize iv)
  let info ← .update (GStreamer.gstStructureNew "application/x-cenc" [("encrypted", .boolean true),
    ("mks_id", .int session.rialtoSessionId), ("kid", .buffer key), ("iv_size", .uint (.ofNat ivSize)),
    ("iv", .buffer iv), ("subsample_count", .uint subSampleCount), ("subsamples", .buffer subSample),
    ("encryption_scheme", .uint 0), ("init_with_last_15", .uint initWithLast15)])
  let protectionMeta ← .update (GStreamer.gstBufferGetProtectionMeta buffer)
  let info ← protectionMeta.elim (pure info) (copyCipherMode info)
  rialtoMseAddProtectionMetadata buffer info
  if shouldReleaseKey then key.toList.forM fun key => .modify (GStreamer.gstBufferUnref key)

/-- Set a field unless there is one of the type. -/
def setUnlessTyped (info : S) (field : String) (value : GValue) : Code σ S :=
  if GstStructure.hasFieldTyped info field value.type then return info
  else .update (GStreamer.gstStructureSet info field value)

/-- Set the size of the initialisation vector, if there is one and its size is not set. -/
def setIvSize (info : S) : Code σ S := do
  if GstStructure.hasFieldTyped info "iv" .buffer ∧
      ¬ GstStructure.hasFieldTyped info "iv_size" .uint then
    let size ← .update (GStreamer.gstBufferGetSize (GstStructure.getBuffer info "iv"))
    .update (GStreamer.gstStructureSet info "iv_size" (.uint (.ofNat size)))
  else
    return info

/-- Set the key id to the selected one, if there is one. -/
def setKeyId (session : Session) (info : S) : Code σ S := do
  if session.playreadyKeyId = [] then
    return info
  else
    let keyID ← session.newKey
    let info ← .update (GStreamer.gstStructureSet info "kid" (.buffer (some keyID)))
    .modify (GStreamer.gstBufferUnref keyID)
    return info

/-- `addProtectionMeta`, from the protection metadata of the buffer. -/
def addProtectionMeta (session : Session) (buffer : Addr) : Code σ Bool := do
  match ← copyProtectionMeta buffer with
  | none => return false
  | some info =>
    let info ← .update (GStreamer.gstStructureSet info "mks_id" (.int session.rialtoSessionId))
    let info ← setUnlessTyped info "encrypted" (.boolean true)
    let info ← setIvSize info
    let info ← setUnlessTyped info "encryption_scheme" (.uint 0)
    let info ← session.setKeyId info
    rialtoMseAddProtectionMetadata buffer info
    return true

end Session

/-! ### Calls -/

def opencdmGstreamerSessionDecryptEx (session : Option Session) (buffer : Addr) (subSample : Option Addr)
    (subSampleCount : UInt32) (iv keyID : Option Addr) (initWithLast15 : UInt32) : Code σ OpenCDMError :=
  match session with
  | none => return .fail
  | some session => do
    session.addProtectionMetaOf buffer subSample subSampleCount iv keyID initWithLast15
    return .none

def opencdmGstreamerSessionDecryptBuffer (session : Option Session) (buffer : Addr) : Code σ OpenCDMError :=
  match session with
  | none => return .fail
  | some session => do
    return if ← session.addProtectionMeta buffer then .none else .fail

/-- What an application does with buffers, by itself and by the library. -/
inductive Call
  | newBuffer (bytes : Bytes)
  | ref (buffer : Addr)
  | unref (buffer : Addr)
  | protect (buffer : Addr) (name : String) (fields : List (String × GValue))
  | decrypt (session : Option Session) (buffer : Addr) (subSample : Option Addr)
      (subSampleCount : UInt32) (iv keyID : Option Addr) (initWithLast15 : UInt32)
  | decryptBuffer (session : Option Session) (buffer : Addr)

inductive Reply
  | done
  | created (buffer : Addr)
  | error (e : OpenCDMError)
  deriving DecidableEq

def entry : Call → Code σ Reply
  | .newBuffer bytes => do
    let buffer ← .update (GStreamer.gstBufferNewAllocate bytes.length)
    .modify (GStreamer.gstBufferFill buffer bytes)
    return .created buffer
  | .ref buffer => do
    .modify (GStreamer.gstBufferRef buffer)
    return .done
  | .unref buffer => do
    .modify (GStreamer.gstBufferUnref buffer)
    return .done
  | .protect buffer name fields => do
    let info ← .update (GStreamer.gstStructureNew name fields)
    .modify (GStreamer.gstBufferAddProtectionMeta buffer info)
    return .done
  | .decrypt session buffer subSample subSampleCount iv keyID initWithLast15 => do
    return .error (← opencdmGstreamerSessionDecryptEx session buffer subSample subSampleCount iv keyID
      initWithLast15)
  | .decryptBuffer session buffer => do
    return .error (← opencdmGstreamerSessionDecryptBuffer session buffer)

end RialtoOcdm.Pointers
