import SmsPlatform.Spill.Inspect
import SmsPlatform.Support.Table

/-!
# The quarantine of the spill directory

`CipherQueue`.  A file that cannot be read is moved to a slot of the quarantine, and a
manifest says why.  A slot is claimed by renaming its file, and the file goes back if it still
cannot be read.  When the quarantine is full or its files are old, those slots are dropped
whose manifest gives a reason that lets them be evicted.

A file is modelled by what its bytes are, named by a number, and by the size and time that
decide on eviction.  Every operation runs under the lock of the directory.  Failing input and
output is an argument.
-/

namespace SmsPlatform.Spill

open Support

/-! ## Files and manifests -/

/-- Source and token of a slot or of an active file. -/
abbrev SlotKey := Source × Text

inductive FileName
  | streamTmp (key : SlotKey)
  | stream (key : SlotKey)
  /-- `.stream.stream`. -/
  | legacyStream (key : SlotKey)
  | spill (key : SlotKey)
  | spillTmp (key : SlotKey)
  | cq (key : SlotKey)
  | wip (key : SlotKey)
  deriving DecidableEq

/-- The slot in which a file lies. -/
def FileName.slot? : FileName → Option SlotKey
  | .cq key => some key
  | .wip key => some key
  | _ => none

def FileName.isCq : FileName → Bool
  | .cq _ => true
  | _ => false

structure SpillFile where
  name : FileName
  /-- Which bytes these are. -/
  artifact : ℕ
  size : ℕ
  mtime : ℕ
  deriving DecidableEq

/-- The part of a manifest that is used. -/
structure Manifest where
  key : SlotKey
  reason : Reason
  isSealed : Bool
  srcName : FileName
  mtime : ℕ
  deriving DecidableEq

structure SpillDirectory where
  files : Table SpillFile.name
  manifests : Table Manifest.key

/-- The limits of the quarantine. -/
structure CipherqLimits where
  maxFiles : ℕ
  maxBytes : ℕ
  retention : ℕ
  /-- `header_only_min_age_s`. -/
  minAge : ℕ

/-- How input and output of an isolation end. -/
structure IsolateIo where
  hashed : Bool
  manifestWritten : Bool
  renamed : Bool
  sealWritten : Bool

namespace SpillDirectory

variable (d : SpillDirectory) (key : SlotKey)

def file? (name : FileName) : Option SpillFile := d.files.find? name

/-- `path.exists()`. -/
def has (name : FileName) : Bool := (d.file? name).isSome

/-- `path.unlink(missing_ok=True)`. -/
def unlink (name : FileName) : SpillDirectory :=
  { d with files := d.files.keep fun f => decide (f.name ≠ name) }

/-- `os.replace(src, dst)`. -/
def replace (src dst : FileName) : SpillDirectory :=
  match d.file? src with
  | none => d
  | some f =>
    { d with files := (d.unlink src).files.put { f with name := dst } }

/-- `write_json_atomic` of a manifest. -/
def writeManifest (m : Manifest) : SpillDirectory :=
  { d with manifests := d.manifests.put m }

def unlinkManifest : SpillDirectory :=
  { d with manifests := d.manifests.keep fun m => decide (m.key ≠ key) }

/-- `_drop_cipherq_entry_locked`. -/
def dropEntry : SpillDirectory :=
  ((d.unlink (.cq key)).unlink (.wip key)).unlinkManifest key

/-- `_seal_cipherq_manifest_locked`. -/
def sealManifest (m : Manifest) (written : Bool) (now : ℕ) : SpillDirectory :=
  if written then d.writeManifest { m with isSealed := true, mtime := now } else d

/-! ## Eviction -/

/-- The order in which entries are evicted. -/
def evictsBefore (a b : SpillFile × Manifest) : Bool :=
  decide (a.1.mtime < b.1.mtime ∨ a.1.mtime = b.1.mtime ∧
    (a.1.size < b.1.size ∨ a.1.size = b.1.size ∧
      (a.2.key.1.text < b.2.key.1.text ∨ a.2.key.1.text = b.2.key.1.text ∧ a.2.key.2 ≤ b.2.key.2)))

/-- The sealed entries whose file is not claimed. -/
def sealedEntries : List (SpillFile × Manifest) :=
  d.manifests.rows.filterMap fun m =>
    if m.isSealed then (d.file? (.cq m.key)).map fun f => (f, m) else none

/-- The loop of `enforce_cipherq_quota_locked`. -/
def evictLoop (limits : CipherqLimits) (extraFiles extraBytes : ℕ) :
    List (SpillFile × Manifest) → ℕ → ℕ → SpillDirectory → SpillDirectory
  | [], _, _, d => d
  | (f, m) :: rest, files, bytes, d =>
    if limits.maxFiles < files + extraFiles ∨ limits.maxBytes < bytes + extraBytes then
      evictLoop limits extraFiles extraBytes rest (files - 1) (bytes - f.size) (d.dropEntry m.key)
    else d

/-- `enforce_cipherq_quota_locked`. -/
def enforceQuota (limits : CipherqLimits) (extraFiles extraBytes : ℕ) : SpillDirectory :=
  let entries := d.sealedEntries
  evictLoop limits extraFiles extraBytes
    ((entries.filter fun e => e.2.reason.isEvictable).insertionSort
      (fun a b => evictsBefore a b = true))
    entries.length (entries.map fun e => e.1.size).sum d

/-- `_ensure_cipherq_capacity_locked` after the eviction. -/
def hasCapacity (limits : CipherqLimits) (size : ℕ) : Bool :=
  let stored := d.files.rows.filter fun f => f.name.slot?.isSome
  decide (stored.length + 1 ≤ limits.maxFiles ∧
    (stored.map SpillFile.size).sum + size ≤ limits.maxBytes)

/-- The time of `aged_path`. -/
def agedMtime (m : Manifest) : ℕ :=
  match d.file? (.cq m.key) with
  | some f => f.mtime
  | none => m.mtime

/-- One round of `expire_cipherq_locked`. -/
def expireEntry (limits : CipherqLimits) (now : ℕ) (d : SpillDirectory) (m : Manifest) :
    SpillDirectory :=
  if m.isSealed && m.reason.isEvictable && decide (limits.retention ≤ now - d.agedMtime m) then
    d.dropEntry m.key
  else d

/-- `expire_cipherq_locked`. -/
def expire (limits : CipherqLimits) (now : ℕ) : SpillDirectory :=
  d.manifests.rows.foldl (expireEntry limits now) d

/-! ## Isolation -/

def hasSlot : Bool := d.has (.cq key) || d.has (.wip key)

/-- `_allocate_cipherq_dest_locked`; `fresh` is what `secrets.token_hex` would yield. -/
def allocate (fresh : Text) : SlotKey :=
  if d.hasSlot key && (d.manifests.find? key).isNone then (key.1, fresh) else key

/-- `isolate_ciphertext_locked` on a slot that is in use. -/
def reisolate (path : FileName) (key : SlotKey) (io : IsolateIo) (now : ℕ) : SpillDirectory :=
  match d.manifests.find? key with
  | none => d
  | some m =>
    if decide (path = .wip key) && !d.has (.cq key) then
      if io.renamed then
        if m.isSealed then d.replace path (.cq key)
        else (d.replace path (.cq key)).sealManifest m io.sealWritten now
      else d
    else if m.isSealed then d
    else d.sealManifest m io.sealWritten now

/-- `isolate_ciphertext_locked` on a free slot, after the capacity check. -/
def isolateFresh (path : FileName) (key : SlotKey) (reason : Reason) (io : IsolateIo) (now : ℕ) :
    SpillDirectory :=
  if !io.manifestWritten then d
  else
    let pending := d.writeManifest ⟨key, reason, false, path, now⟩
    if io.renamed && pending.has path then
      (pending.replace path (.cq key)).sealManifest ⟨key, reason, false, path, now⟩ io.sealWritten
        now
    else pending

/-- `isolate_ciphertext_locked`. -/
def isolate (limits : CipherqLimits) (path : FileName) (requested : SlotKey) (fresh : Text)
    (reason : Reason) (io : IsolateIo) (now : ℕ) : SpillDirectory :=
  let key := d.allocate requested fresh
  if d.hasSlot key then d.reisolate path key io now
  else
    match d.file? path with
    | none => d
    | some f =>
      if !io.hashed then d
      else
        let evicted := d.enforceQuota limits 1 f.size
        if evicted.hasCapacity limits f.size then evicted.isolateFresh path key reason io now
        else evicted

/-- `_claim_cipherq_locked`. -/
def claim : Option SpillDirectory :=
  if d.has (.wip key) then none
  else if d.has (.cq key) then some (d.replace (.cq key) (.wip key))
  else none

/-! ## Reclaiming -/

/-- One round of `reclaim_cipherq_pending_locked`. -/
def reclaimEntry (limits : CipherqLimits) (now : ℕ) (d : SpillDirectory)
    (entry : Manifest × IsolateIo) : SpillDirectory :=
  let m := entry.1
  let io := entry.2
  match d.file? (.wip m.key), d.has (.cq m.key) with
  | some wip, false =>
    if limits.minAge ≤ now - wip.mtime ∧ io.renamed = true then
      d.replace (.wip m.key) (.cq m.key)
    else d
  | _, onDisk =>
    if m.isSealed then d
    else if onDisk then d.sealManifest m io.sealWritten now
    else if d.has m.srcName && io.renamed then
      (d.replace m.srcName (.cq m.key)).sealManifest m io.sealWritten now
    else d

/-- `reclaim_cipherq_pending_locked`. -/
def reclaimPending (limits : CipherqLimits) (now : ℕ) (io : SlotKey → IsolateIo) : SpillDirectory :=
  (d.manifests.rows.map fun m => (m, io m.key)).foldl (reclaimEntry limits now) d

/-- `reclaim_cipherq_manifest_only_locked`. -/
def reclaimManifestOnly : SpillDirectory :=
  { d with
    manifests := d.manifests.keep fun m =>
      d.hasSlot m.key || (!m.isSealed && d.has m.srcName) }

/-- `remove_stream_locked`. -/
def removeStream : SpillDirectory :=
  ((d.unlink (.streamTmp key)).unlink (.stream key)).unlink (.legacyStream key)

/-- `release_stream_activity_locked`. -/
def releaseStream : SpillDirectory :=
  d.unlink (.legacyStream key)

/-- `remove_claimed_cipherq`. -/
def removeClaimed : SpillDirectory := d.dropEntry key

end SpillDirectory

end SmsPlatform.Spill
