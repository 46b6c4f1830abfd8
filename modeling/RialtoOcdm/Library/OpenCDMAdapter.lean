import RialtoOcdm.Library.OpenCDMSessionPrivate

/-! Decryption, `open_cdm_adapter.cpp`: what is to be known of a buffer to decrypt it is
attached to the buffer as a record for Rialto. GStreamer's structures are finite maps
from the names of fields to typed values. -/

namespace RialtoOcdm

open Concurrency

/-! ### GStreamer -/

inductive GType
  | boolean
  | int
  | uint
  | string
  | buffer
  | other (name : String)
  deriving DecidableEq

/-- A value of a field. A buffer is a pointer that may be null, and is taken by content.
Of the other types the code knows nothing. -/
inductive GValue
  | boolean (b : Bool)
  | int (i : Int32)
  | uint (n : UInt32)
  | string (s : String)
  | buffer (b : Option Bytes)
  | other (type : String) (content : Bytes)
  deriving DecidableEq

def GValue.type : GValue → GType
  | boolean _ => .boolean
  | int _ => .int
  | uint _ => .uint
  | string _ => .string
  | buffer _ => .buffer
  | other type _ => .other type

/-- `gst_buffer_get_size`, which is 0 for a null pointer, as a `G_TYPE_UINT`. -/
def gstBufferGetSize (b : Option Bytes) : UInt32 := .ofNat (b.getD []).length

structure GstStructure where
  name : String
  fields : Std.ExtTreeMap String GValue

namespace GstStructure

def set (s : GstStructure) (field : String) (value : GValue) : GstStructure :=
  { s with fields := s.fields.insert field value }

def new (name : String) (fields : List (String × GValue)) : GstStructure :=
  fields.foldl (fun s field => s.set field.1 field.2) ⟨name, ∅⟩

def hasFieldTyped (s : GstStructure) (field : String) (type : GType) : Bool :=
  s.fields[field]?.any (·.type = type)

def getString (s : GstStructure) (field : String) : Option String :=
  match s.fields[field]? with
  | some (.string x) => some x
  | _ => none

def getUint (s : GstStructure) (field : String) : Option UInt32 :=
  match s.fields[field]? with
  | some (.uint n) => some n
  | _ => none

def getBuffer (s : GstStructure) (field : String) : Option Bytes :=
  match s.fields[field]? with
  | some (.buffer b) => b
  | _ => none

end GstStructure

/-- A buffer of media, with its protection metadata if it has any and the records that
are attached to it for Rialto. -/
structure GstBuffer where
  protectionMeta : Option GstStructure
  rialtoProtection : List GstStructure

/-- `rialto_mse_add_protection_metadata` -/
def GstBuffer.addProtectionMetadata (buffer : GstBuffer) (info : GstStructure) : GstBuffer :=
  { buffer with rialtoProtection := buffer.rialtoProtection ++ [info] }

/-! ### Sessions -/

namespace OpenCDMSessionPrivate

variable {R : Type}

/-- The key id to apply: the selected one where an empty one is given. -/
def keyToApply (a : Addr) (keyID : Option Bytes) : Code R (Option Bytes) := do
  if keyID = some [] then
    let playreadyKeyId ← readMember a .playreadyKeyId (·.playreadyKeyId)
    return if playreadyKeyId.isEmpty then keyID else some playreadyKeyId
  else
    return keyID

/-- Copy the cipher mode, and with it the pattern. -/
def copyCipherMode (info protection : GstStructure) : GstStructure :=
  match protection.getString "cipher-mode" with
  | none => info
  | some cipherMode =>
    let info := info.set "cipher-mode" (.string cipherMode)
    let info := (protection.getUint "crypt_byte_block").elim info
      fun patternCryptoBlocks => info.set "crypt_byte_block" (.uint patternCryptoBlocks)
    (protection.getUint "skip_byte_block").elim info
      fun patternClearBlocks => info.set "skip_byte_block" (.uint patternClearBlocks)

/-- `addProtectionMeta`, from arguments. -/
def addProtectionMetaOf (a : Addr) (buffer : GstBuffer) (subSample : Option Bytes)
    (subSampleCount : UInt32) (iv keyID : Option Bytes) (initWithLast15 : UInt32) :
    Code R GstBuffer := do
  let keyToApply ← keyToApply a keyID
  let id ← readMember a .rialtoSessionId (·.rialtoSessionId)
  let info := GstStructure.new "application/x-cenc" [("encrypted", .boolean true),
    ("mks_id", .int id), ("kid", .buffer keyToApply), ("iv_size", .uint (gstBufferGetSize iv)),
    ("iv", .buffer iv), ("subsample_count", .uint subSampleCount), ("subsamples", .buffer subSample),
    ("encryption_scheme", .uint 0), ("init_with_last_15", .uint initWithLast15)]
  return buffer.addProtectionMetadata (buffer.protectionMeta.elim info (copyCipherMode info))

/-- Set a field unless there is one of the type. -/
def setUnlessTyped (info : GstStructure) (field : String) (value : GValue) : GstStructure :=
  if info.hasFieldTyped field value.type then info else info.set field value

/-- `addProtectionMeta`, from the protection metadata of the buffer. -/
def addProtectionMeta (a : Addr) (buffer : GstBuffer) : Code R (Option GstBuffer) := do
  match buffer.protectionMeta with
  | none => return none
  | some protection =>
    let id ← readMember a .rialtoSessionId (·.rialtoSessionId)
    let info := protection.set "mks_id" (.int id)
    let info := setUnlessTyped info "encrypted" (.boolean true)
    let info := if info.hasFieldTyped "iv" .buffer then
        setUnlessTyped info "iv_size" (.uint (gstBufferGetSize (info.getBuffer "iv")))
      else info
    let info := setUnlessTyped info "encryption_scheme" (.uint 0)
    let playreadyKeyId ← readMember a .playreadyKeyId (·.playreadyKeyId)
    let info := if playreadyKeyId.isEmpty then info
      else info.set "kid" (.buffer (some playreadyKeyId))
    return some (buffer.addProtectionMetadata info)

end OpenCDMSessionPrivate

open OpenCDMSessionPrivate

variable {R : Type}

def opencdmGstreamerSessionDecryptEx (session : Option Addr) (buffer : GstBuffer)
    (subSample : Option Bytes) (subSampleCount : UInt32) (iv keyID : Option Bytes)
    (initWithLast15 : UInt32) : Code R (OpenCDMError × GstBuffer) :=
  match session with
  | none => return (.fail, buffer)
  | some a => do
    return (.none, ← addProtectionMetaOf a buffer subSample subSampleCount iv keyID initWithLast15)

def opencdmGstreamerSessionDecryptBuffer (session : Option Addr) (buffer : GstBuffer) :
    Code R (OpenCDMError × GstBuffer) :=
  match session with
  | none => return (.fail, buffer)
  | some a => do
    match ← addProtectionMeta a buffer with
    | none => return (.fail, buffer)
    | some buffer => return (.none, buffer)

end RialtoOcdm
