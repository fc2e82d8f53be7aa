import Dmi.Lib.Proc.Atomic
import Dmi.Objects.Store

/-!
# The calls that store a pack

`UploadOne` of the native uploader and `S3PackStore.put` are programs over requests to the object
store. Both look first whether the key is taken, take an object that is their pack for a finished
upload after reading it back, and refuse any other; on a free key they put the object and look at
it again. `UploadOne` then removes the staged copy.

`perform` is the store: a request takes effect and is answered at once, or it fails, and then a
PUT or a DELETE may have taken effect all the same. `PutObject` sends a PUT again after a failure
that it may retry. Of a multipart upload only the request that completes it touches the object, so
it is a PUT here. Arguments that `put` refuses before its first request are left out.
-/

namespace Dmi.Objects

open Native (lit)
open Proc (Prog Pool Protocol Obeys)

structure StagedPack where
  packId : Bytes
  createdAtNs : UInt64
  recordCount : UInt64
  checksum : Bytes
  objectKey : Bytes
  path : Bytes
  objectBytes : UInt64

/-! ### Requests -/

/-- The answer to a request: a result, or an error with whether a cancel cut the request short. -/
inductive Reply (α : Type) where
  | ok (x : α)
  | failed (error : Bytes) (cut : Bool)

/-- The answer to one sending of a PUT. -/
inductive Sent where
  | stored
  | again
  | failed (error : Bytes) (cut : Bool)

inductive Act where
  | head (key : Bytes)
  | get (key : Bytes) (length : Nat)
  | put (key : Bytes) (o : Object)
  | delete (key : Bytes)
  | cancelled
  | backoff (attempt : Nat)
  | readFile (path : Bytes)
  | remove (staged : StagedPack)

@[reducible] def Act.Res : Act → Type
  | .head _ => Reply (Option ObjectHead)
  | .get _ _ => Reply Bytes
  | .put _ _ => Sent
  | .delete _ => Unit
  | .cancelled => Bool
  | .backoff _ => Bool
  | .readFile _ => Except Bytes Bytes
  | .remove _ => Except Bytes Unit

/-- A program over these requests. -/
abbrev Call := Prog Act Act.Res Empty

def perform (a : Act) : Call a.Res := Prog.perform a

def exhausted {α : Type} : Reply α := .failed (lit "exhausted retries without a response") false

/-- `HeadObject`. A client that makes no attempt gets no answer. -/
def headObject (attempts : Nat) (key : Bytes) : Call (Reply (Option ObjectHead)) :=
  if attempts = 0 then pure exhausted else perform (.head key)

/-- `GetRange(key, 0, length)`: nothing is requested for no bytes, and a body of another length is
refused. -/
def getRange (attempts : Nat) (key : Bytes) (length : Nat) : Call (Reply Bytes) :=
  if length = 0 then pure (.ok [])
  else if attempts = 0 then pure exhausted
  else do
    match ← perform (.get key length) with
    | .failed error cut => pure (.failed error cut)
    | .ok body =>
      if body.length ≠ length then
        pure (.failed (lit "GetObject returned " ++ toText body.length ++ lit " bytes for a " ++
          toText length ++ lit "-byte range") false)
      else pure (.ok body)

/-- `PutObject`: the PUT is sent until it is answered, or fails for good, or no attempt is left. -/
def putObject (key : Bytes) (o : Object) : Nat → Call (Reply Unit)
  | 0 => pure exhausted
  | attempts + 1 => do
    match ← perform (.put key o) with
    | .stored => pure (.ok ())
    | .failed error cut => pure (.failed error cut)
    | .again => putObject key o attempts

/-! ### `UploadOne` -/

structure UploaderConfig where
  maxAttempts : Nat
  storeId : Bytes
  /-- The attempts of one request. -/
  requestAttempts : Nat

def StagedPack.metadata (p : StagedPack) : Dict Bytes Bytes :=
  packMetadata p.packId p.checksum p.recordCount.toNat p.createdAtNs.toNat

/-- How one attempt ends. -/
inductive Attempt where
  | uploaded
  | conflict (error : Bytes)
  | corrupt (error : Bytes)
  | failed (error : Bytes) (cut : Bool)

def StagedPack.conflictText (p : StagedPack) : Bytes :=
  lit "pack conflict: the object store already holds a different object at " ++ p.objectKey ++
    lit " (its size or dmi-sha256 disagrees with the staged pack " ++ p.packId ++
    lit "). The staged pack is retained in the spool for inspection; do not overwrite the " ++
    lit "existing object."

/-- The staged copy is not needed any more. -/
def removeStaged (p : StagedPack) : Call Attempt := do
  match ← perform (.remove p) with
  | .error error => pure (.failed error false)
  | .ok () => pure .uploaded

/-- An object that carries the size and checksum of the pack is read and hashed. -/
def verifyExisting (cfg : UploaderConfig) (p : StagedPack) : Call Attempt := do
  match ← getRange cfg.requestAttempts p.objectKey p.objectBytes.toNat with
  | .failed error cut => pure (.failed error cut)
  | .ok existing =>
    if checksumOf existing ≠ p.checksum then
      pure (.failed (lit "pre-existing object failed verification") false)
    else removeStaged p

/-- The object must be there after the PUT. -/
def verifyUploaded (cfg : UploaderConfig) (p : StagedPack) : Call Attempt := do
  match ← headObject cfg.requestAttempts p.objectKey with
  | .failed error cut => pure (.failed error cut)
  | .ok none => pure (.failed (lit "uploaded object is not visible to HeadObject") false)
  | .ok (some head) =>
    if head.size ≠ p.objectBytes.toNat then
      pure (.failed (lit "uploaded object is not visible to HeadObject") false)
    else removeStaged p

/-- The staged bytes are read, hashed and put. -/
def storeStaged (cfg : UploaderConfig) (p : StagedPack) : Call Attempt := do
  match ← perform (.readFile p.path) with
  | .error error => pure (.failed error false)
  | .ok data =>
    if data.length ≠ p.objectBytes.toNat ∨ checksumOf data ≠ p.checksum then
      pure (.corrupt (lit "staged bytes do not match the staged checksum"))
    else
      match ← putObject p.objectKey ⟨data, p.metadata⟩ cfg.requestAttempts with
      | .failed error cut => pure (.failed error cut)
      | .ok () => verifyUploaded cfg p

/-- One turn of the loop, from the preflight on. -/
def uploadAttempt (cfg : UploaderConfig) (p : StagedPack) : Call Attempt := do
  match ← headObject cfg.requestAttempts p.objectKey with
  | .failed error cut => pure (.failed error cut)
  | .ok (some head) =>
    if head.size = p.objectBytes.toNat ∧
        head.metadata.get? (lit "dmi-sha256") = some p.checksum then verifyExisting cfg p
    else pure (.conflict p.conflictText)
  | .ok none => storeStaged cfg p

structure UploadResult where
  ref : Option PackRef
  attempts : Nat
  error : Bytes := []
  cancelled : Bool := false
  retryable : Bool := true

def StagedPack.ref (cfg : UploaderConfig) (p : StagedPack) : PackRef :=
  ⟨p.packId, cfg.storeId, p.objectKey, p.objectBytes.toNat, p.checksum, p.recordCount.toNat⟩

def uploadCancelled : Bytes := lit "upload cancelled; the pack stays staged"

/-- The exit that a cancel leads to. -/
def cancelledResult (attempts : Nat) (lastError : Bytes) : UploadResult where
  ref := none
  attempts := attempts
  error :=
    if lastError = [] then uploadCancelled
    else uploadCancelled ++ lit " (the attempt before failed: " ++ lastError ++ lit ")"
  cancelled := true

/-- `SleepBackoff`: whether the wait was out before a cancel. -/
def sleepBackoff (attempt : Nat) : Call Bool := perform (.backoff attempt)

def isCancelled : Call Bool := perform .cancelled

/-- The wait before every attempt but the first. -/
def waitOut (attempts : Nat) : Call Bool :=
  if attempts > 0 then sleepBackoff (attempts - 1) else pure true

/-- Whether the next attempt may start. -/
def mayStart (attempts : Nat) : Call Bool := do
  let slept ← waitOut attempts
  if slept then
    let cancelled ← isCancelled
    pure (!cancelled)
  else pure false

/-- The loop of `UploadOne` with the attempts that are left, those made, and how the last ended. -/
def uploadLoop (cfg : UploaderConfig) (p : StagedPack) :
    Nat → Nat → Bytes → Bool → Call UploadResult
  | 0, attempts, lastError, cut =>
    pure (if cut then cancelledResult attempts lastError
      else { ref := none, attempts := attempts, error := lastError })
  | left + 1, attempts, lastError, _ => do
    if ← mayStart attempts then
      match ← uploadAttempt cfg p with
      | .uploaded => pure { ref := some (p.ref cfg), attempts := attempts + 1 }
      | .conflict error =>
        pure { ref := none, attempts := attempts + 1, error := error, retryable := false }
      | .corrupt error =>
        pure { ref := none, attempts := attempts + 1, error := error, retryable := false }
      | .failed error cut => uploadLoop cfg p left (attempts + 1) error cut
    else pure (cancelledResult attempts lastError)

def uploadOne (cfg : UploaderConfig) (p : StagedPack) : Call UploadResult :=
  uploadLoop cfg p cfg.maxAttempts 0 [] false

/-! ### `S3PackStore.put` -/

/-- A pack source: what it says of itself, and the bytes that its stream gives. -/
structure PackSource where
  packId : Bytes
  createdAtNs : Nat
  recordCount : Nat
  objectBytes : Nat
  checksum : Bytes
  stream : Bytes

inductive PutError where
  | client (error : Bytes)
  | conflict
  | integrity (error : Bytes)

def PackSource.metadata (pack : PackSource) : Dict Bytes Bytes :=
  packMetadata pack.packId pack.checksum pack.recordCount pack.createdAtNs

/-- `_existing_ref`: the size and all five texts. -/
def existingRef (storeId : Bytes) (pack : PackSource) (key : Bytes) (head : ObjectHead) :
    Except PutError PackRef :=
  if head.size ≠ pack.objectBytes ∨ pack.metadata.items.any fun (name, value) =>
      head.metadata.get? name ≠ some value then .error .conflict
  else .ok ⟨pack.packId, storeId, key, pack.objectBytes, pack.checksum, pack.recordCount⟩

/-- `_verify_existing_content`. -/
def verifyExistingContent (pack : PackSource) (key : Bytes) (ref : PackRef) :
    Call (Except PutError PackRef) := do
  match ← perform (.get key pack.objectBytes) with
  | .failed error _ => pure (.error (.client error))
  | .ok body =>
    if body.length ≠ pack.objectBytes then
      pure (.error (.integrity (lit "S3 returned a short or oversized range")))
    else if checksumOf body ≠ pack.checksum then pure (.error .conflict)
    else pure (.ok ref)

/-- What was uploaded is looked at again. -/
def inspectUploaded (storeId : Bytes) (attempts : Nat) (pack : PackSource) (key : Bytes) :
    Call (Except PutError PackRef) := do
  match ← headObject attempts key with
  | .failed error _ => pure (.error (.client error))
  | .ok none => pure (.error (.integrity (lit "uploaded object is not visible to HeadObject")))
  | .ok (some head) => pure (existingRef storeId pack key head)

/-- The stream is uploaded, and deleted again if it was not what the source says. -/
def uploadStream (storeId : Bytes) (attempts : Nat) (pack : PackSource) (key : Bytes) :
    Call (Except PutError PackRef) := do
  match ← putObject key ⟨pack.stream, pack.metadata⟩ attempts with
  | .failed error _ => pure (.error (.client error))
  | .ok () =>
    if pack.stream.length ≠ pack.objectBytes ∨ checksumOf pack.stream ≠ pack.checksum then do
      perform (.delete key)
      pure (.error (.integrity (lit "uploaded bytes do not match the pack source declaration")))
    else inspectUploaded storeId attempts pack key

/-- `put`, for a source and a key that pass their checks. -/
def put (storeId : Bytes) (attempts : Nat) (pack : PackSource) (key : Bytes) :
    Call (Except PutError PackRef) := do
  match ← headObject attempts key with
  | .failed error _ => pure (.error (.client error))
  | .ok (some head) =>
    match existingRef storeId pack key head with
    | .error e => pure (.error e)
    | .ok ref => verifyExistingContent pack key ref
  | .ok none => uploadStream storeId attempts pack key

/-! ### Both kinds of call -/

inductive Task where
  | native (cfg : UploaderConfig) (p : StagedPack)
  | python (storeId : Bytes) (attempts : Nat) (pack : PackSource) (key : Bytes)

/-- The call, and the reference that it returns if it reports success. -/
def Task.body : Task → Call (Option PackRef)
  | .native cfg p => do
    let result ← uploadOne cfg p
    pure result.ref
  | .python storeId attempts pack key => do
    let result ← put storeId attempts pack key
    pure result.toOption

/-! ### The object store -/

/-- What calls did to the objects, and whether their HEAD requests found one. -/
inductive Event (ι : Type) where
  | empty (call : ι)
  | found (call : ι)
  | stored (call : ι) (o : Object)
  | deleted (call : ι)

structure World (ι : Type) where
  objects : Bytes → Option Object
  /-- The staged copy of each call. -/
  staged : ι → Option Bytes
  log : List (Event ι) := []

/-- How a request is answered. `applied`: a PUT or DELETE that fails took effect all the same. -/
inductive Choice where
  | serve
  | fail (error : Bytes) (cut applied : Bool)
  | again (applied : Bool)
  | say (answer : Bool)

variable {ι : Type} [DecidableEq ι]

def World.store (w : World ι) (call : ι) (key : Bytes) (o : Object) : World ι :=
  { w with
    objects := Function.update w.objects key (some o)
    log := w.log ++ [.stored call o] }

def World.erase (w : World ι) (call : ι) (key : Bytes) : World ι :=
  { w with
    objects := Function.update w.objects key none
    log := w.log ++ [.deleted call] }

def World.serveHead (w : World ι) (call : ι) (key : Bytes) :
    Reply (Option ObjectHead) × World ι :=
  match w.objects key with
  | some o => (.ok (some o.head), { w with log := w.log ++ [.found call] })
  | none => (.ok none, { w with log := w.log ++ [.empty call] })

/-- A range from the start of the object. -/
def World.serveRange (w : World ι) (key : Bytes) (length : Nat) : Reply Bytes :=
  match w.objects key with
  | none => .failed (lit "GetObject returned HTTP 404") false
  | some o => .ok (o.bytes.take length)

def World.serveFile (w : World ι) (call : ι) (path : Bytes) : Except Bytes Bytes :=
  match w.staged call with
  | none => .error (lit "cannot open " ++ path)
  | some data => .ok data

def World.dropStaged (w : World ι) (call : ι) : World ι :=
  { w with staged := Function.update w.staged call none }

/-- The answer to a request of a call, and the world after it. -/
def answer (call : ι) (w : World ι) : (a : Act) → Choice → Option (a.Res × World ι)
  | .head key, .serve => some (w.serveHead call key)
  | .head _, .fail error cut _ => some (.failed error cut, w)
  | .get key length, .serve => some (w.serveRange key length, w)
  | .get _ _, .fail error cut _ => some (.failed error cut, w)
  | .put key o, .serve => some (.stored, w.store call key o)
  | .put key o, .fail error cut applied =>
    some (.failed error cut, if applied then w.store call key o else w)
  | .put key o, .again applied => some (.again, if applied then w.store call key o else w)
  | .delete key, .serve => some ((), w.erase call key)
  | .delete key, .fail _ _ applied => some ((), if applied then w.erase call key else w)
  | .cancelled, .say b => some (b, w)
  | .backoff _, .say b => some (b, w)
  | .readFile path, .serve => some (w.serveFile call path, w)
  | .readFile _, .fail error _ _ => some (.error error, w)
  | .remove _, .serve => some (.ok (), w.dropStaged call)
  | .remove _, .fail error _ _ => some (.error error, w)
  | _, _ => none

end Dmi.Objects
