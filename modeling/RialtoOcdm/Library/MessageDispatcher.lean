import RialtoOcdm.Library.World

/-! `MessageDispatcher`: every message from Rialto goes to every client in the set,
under the lock; a client is in the set while its handle lives. -/

namespace RialtoOcdm

open Concurrency Rialto

variable {R : Type}

/-- `IMediaKeysClient`, for the client at an address. -/
structure MediaKeysClient (R : Type) where
  onLicenseRequest : Addr → Int32 → Bytes → String → Code R Unit
  onLicenseRenewal : Addr → Int32 → Bytes → Code R Unit
  onKeyStatusesChanged : Addr → Int32 → List (Bytes × Rialto.KeyStatus) → Code R Unit

namespace MessageDispatcher

def addClient (sys : SystemId) (client : Addr) : Code R Unit :=
  .withLock (.dispatcher sys) (.modify (·.updateClients sys (·.insert client)))

def removeClient (sys : SystemId) (client : Addr) : Code R Unit :=
  .withLock (.dispatcher sys) (.modify (·.updateClients sys (·.erase client)))

/-- The constructor of the handle adds the client. -/
def createClient (sys : SystemId) (client : Addr) : Code R MessageDispatcherClient := do
  addClient sys client
  return ⟨sys, client⟩

/-- The destructor of a handle. -/
def destroyClient (handle : MessageDispatcherClient) : Code R Unit :=
  removeClient handle.dispatcher handle.client

/-- Call every client, in the order of the addresses. -/
def forEachClient (sys : SystemId) (message : Message) (call : Addr → Code R Unit) : Code R Unit :=
  .withLock (.dispatcher sys) do
    let clients ← .update fun w => ((w.clients sys).toList, w.record (.message sys message))
    clients.forM call

variable (client : MediaKeysClient R)

def onLicenseRequest (sys : SystemId) (keySessionId : Int32) (licenseRequestMessage : Bytes)
    (url : String) : Code R Unit :=
  forEachClient sys (.licenseRequest keySessionId licenseRequestMessage url) fun a =>
    client.onLicenseRequest a keySessionId licenseRequestMessage url

def onLicenseRenewal (sys : SystemId) (keySessionId : Int32) (licenseRenewalMessage : Bytes) :
    Code R Unit :=
  forEachClient sys (.licenseRenewal keySessionId licenseRenewalMessage) fun a =>
    client.onLicenseRenewal a keySessionId licenseRenewalMessage

def onKeyStatusesChanged (sys : SystemId) (keySessionId : Int32)
    (keyStatuses : List (Bytes × Rialto.KeyStatus)) : Code R Unit :=
  forEachClient sys (.keyStatusesChanged keySessionId keyStatuses) fun a =>
    client.onKeyStatusesChanged a keySessionId keyStatuses

/-- Rialto delivers a message. -/
def deliver (sys : SystemId) : Message → Code R Unit
  | .licenseRequest id message url => onLicenseRequest client sys id message url
  | .licenseRenewal id message => onLicenseRenewal client sys id message
  | .keyStatusesChanged id keyStatuses => onKeyStatusesChanged client sys id keyStatuses

end MessageDispatcher

end RialtoOcdm
