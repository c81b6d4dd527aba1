import SmsPlatform.Support.Framing

/-!
# Bound encryption

`encrypt_bound_bytes` and `decrypt_bound_bytes`.  The cipher itself is a parameter of
the model.  Two things may be assumed of it: that it decrypts what it has encrypted,
and, as an ideal cipher, that it decrypts nothing else.  The associated data is the
context together with the key version.
-/

namespace SmsPlatform.Spill

open Support List Option

/-! ## Contexts -/

structure EncryptionContext where
  domain : Text
  table : Text
  column : Text
  objectId : Text
  deriving DecidableEq

def isLower (c : ℕ) : Bool := decide ('a'.toNat ≤ c ∧ c ≤ 'z'.toNat)

/-- `CONTEXT_COMPONENT_PATTERN`. -/
def contextComponentOk : Text → Bool
  | [] => false
  | c :: rest =>
    isLower c && decide (rest.length ≤ 63) && rest.all (fun d => isLower d || isDigit d ||
        decide (d = '_'.toNat ∨ d = '.'.toNat ∨ d = '-'.toNat))

/-- `canonical_aad` does not raise. -/
def EncryptionContext.valid (context : EncryptionContext) : Bool :=
  contextComponentOk context.domain && contextComponentOk context.table &&
    contextComponentOk context.column && !context.objectId.isEmpty &&
    (utf8Encode context.objectId).any (fun bs => decide (bs.length ≤ 256))

variable {context : EncryptionContext}

theorem EncryptionContext.isScalar_objectId (h : context.valid = true) {c : ℕ}
    (hc : c ∈ context.objectId) : isScalar c = true := by
  rw [valid, Bool.and_eq_true, Option.any_eq_true] at h
  obtain ⟨-, bs, hbs, -⟩ := h
  exact isScalar_of_mem_utf8Encode hbs hc

/-! ## The cipher -/

def nonceSize : ℕ := 12
def tagSize : ℕ := 16
def maxKeyVersion : ℕ := 32767

/-- `BOUND_ENVELOPE_MAGIC`. -/
def boundEnvelopeMagic : Bytes := asciiBytes (lit "SME2")

structure Nonce where
  bytes : Bytes
  length_bytes : bytes.length = nonceSize

/-- The key versions of a service and what the cipher does under each of them. -/
structure Keyring where
  versions : List ℕ
  version_le : ∀ v ∈ versions, v ≤ maxKeyVersion
  encipher : ℕ → Bytes → Bytes → EncryptionContext → Bytes
  decipher : ℕ → Bytes → Bytes → EncryptionContext → Option Bytes

structure EncryptedValue where
  payload : Bytes
  keyVersion : ℕ

inductive CryptoError
  | unknownKeyVersion
  | invalidValue
  | invalidTag
  deriving DecidableEq

variable {plaintext : Bytes} {value : EncryptedValue} {keys : Keyring} {nonce : Nonce} {version : ℕ}

section

variable (keys : Keyring)

def encryptBoundBytes (version : ℕ) (nonce : Nonce) (plaintext : Bytes)
    (context : EncryptionContext) : Except CryptoError EncryptedValue :=
  if version ∈ keys.versions then
    if context.valid then
      .ok ⟨boundEnvelopeMagic ++ nonce.bytes ++ keys.encipher version nonce.bytes plaintext context,
        version⟩
    else .error .invalidValue
  else .error .unknownKeyVersion

def decryptBoundBytes (payload : Bytes) (keyVersion : ℤ) (context : EncryptionContext) :
    Except CryptoError Bytes :=
  if boundEnvelopeMagic.isPrefixOf payload then
    let encrypted := payload.drop boundEnvelopeMagic.length
    if encrypted.length < nonceSize + tagSize then .error .invalidValue
    else
      match keys.versions.find? (fun v : ℕ => decide ((v : ℤ) = keyVersion)) with
      | none => .error .unknownKeyVersion
      | some version =>
        if context.valid then
          match keys.decipher version (encrypted.take nonceSize) (encrypted.drop nonceSize)
              context with
          | some plaintext => .ok plaintext
          | none => .error .invalidTag
        else .error .invalidValue
  else .error .invalidValue

end

/-! ## Assumptions on the cipher -/

/-- One encryption that has taken place. -/
structure Encryption where
  keyVersion : ℕ
  context : EncryptionContext
  plaintext : Bytes
  payload : Bytes
  deriving DecidableEq

namespace Keyring

/-- What is decrypted was encrypted before, under the same version and context. -/
def IdealFor (keys : Keyring) (log : List Encryption) : Prop :=
  ∀ version nonce ciphertext context plaintext,
    keys.decipher version nonce ciphertext context = some plaintext →
    ∃ e ∈ log, e.keyVersion = version ∧ e.context = context ∧ e.plaintext = plaintext ∧
      e.payload = boundEnvelopeMagic ++ nonce ++ ciphertext

/-- What was encrypted is decrypted, and only a tag is added to it. -/
structure Correct (keys : Keyring) : Prop where
  decipher_encipher : ∀ version nonce plaintext context,
    keys.decipher version nonce (keys.encipher version nonce plaintext context) context =
      some plaintext
  length_encipher : ∀ version nonce plaintext context,
    (keys.encipher version nonce plaintext context).length = plaintext.length + tagSize

end Keyring

/-- A keyring that only appends a tag. -/
def Keyring.plain : Keyring where
  versions := [1]
  version_le := by simp [maxKeyVersion]
  encipher := fun _ _ plaintext _ => plaintext ++ List.replicate tagSize 0
  decipher := fun _ _ ciphertext _ => some (ciphertext.take (ciphertext.length - tagSize))

theorem Keyring.plain_correct : Keyring.plain.Correct where
  decipher_encipher := by simp [Keyring.plain]
  length_encipher := by simp [Keyring.plain]

/-- The same, but nothing is decrypted that is not in the log. -/
def Keyring.remembering (log : List Encryption) : Keyring :=
  { Keyring.plain with
    decipher := fun version nonce ciphertext context =>
      (log.find? (fun e => decide (e.keyVersion = version ∧ e.context = context ∧
        e.payload = boundEnvelopeMagic ++ nonce ++ ciphertext))).map Encryption.plaintext }

theorem Keyring.remembering_idealFor (log : List Encryption) :
    (Keyring.remembering log).IdealFor log := by
  intro version nonce ciphertext context plaintext h
  obtain ⟨e, he, rfl⟩ := map_eq_some_iff.mp h
  have hfound := find?_some he
  rw [decide_eq_true_eq] at hfound
  exact ⟨e, mem_of_find?_eq_some he, hfound.1, hfound.2.1, rfl, hfound.2.2⟩

theorem decryptBoundBytes_ideal {log : List Encryption} (hideal : keys.IdealFor log)
    {payload : Bytes} {keyVersion : ℤ}
    (h : decryptBoundBytes keys payload keyVersion context = .ok plaintext) :
    ∃ e ∈ log, (e.keyVersion : ℤ) = keyVersion ∧ e.context = context ∧
    e.plaintext = plaintext ∧ e.payload = payload := by
  unfold decryptBoundBytes at h
  dsimp only at h
  split at h
  · rename_i hmagic
    split at h
    · cases h
    split at h
    · cases h
    rename_i version hversion
    split at h
    · split at h
      · rename_i hdecipher
        cases h
        obtain ⟨e, he, hkey, hcontext, hplain, hpayload⟩ := hideal _ _ _ _ _ hdecipher
        have hfound : (version : ℤ) = keyVersion := by
          simpa using find?_some hversion
        refine ⟨e, he, ?_, hcontext, hplain, ?_⟩
        · rw [hkey, hfound]
        · rw [hpayload, append_assoc, take_append_drop]
          exact prefix_iff_eq_append.mp ( isPrefixOf_iff_prefix.mp hmagic)
      · cases h
    · cases h
  · cases h

theorem encryptBoundBytes_eq_ok
    (h : encryptBoundBytes keys version nonce plaintext context = .ok value) :
    version ∈ keys.versions ∧ context.valid = true ∧ value.keyVersion = version ∧ value.payload =
        boundEnvelopeMagic ++ nonce.bytes ++
          keys.encipher version nonce.bytes plaintext context := by
  unfold encryptBoundBytes at h
  split at h
  · rename_i hversion
    split at h
    · rename_i hvalid
      cases h
      exact ⟨hversion, hvalid, rfl, rfl⟩
    · cases h
  · cases h

/-- `DATA_FRAME_OVERHEAD_BYTES` without the length field. -/
theorem length_payload (hkeys : keys.Correct)
    (h : encryptBoundBytes keys version nonce plaintext context = .ok value) :
    value.payload.length = plaintext.length + 32 := by
  obtain ⟨-, -, -, hpayload⟩ := encryptBoundBytes_eq_ok h
  rw [hpayload, length_append, length_append, nonce.length_bytes, hkeys.length_encipher]
  have hmagic : boundEnvelopeMagic.length = 4 := rfl
  simp only [hmagic, nonceSize, tagSize]
  omega

theorem decryptBoundBytes_encrypt (hkeys : keys.Correct)
    (h : encryptBoundBytes keys version nonce plaintext context = .ok value) :
    decryptBoundBytes keys value.payload value.keyVersion context = .ok plaintext := by
  obtain ⟨hversion, hvalid, hkey, hpayload⟩ := encryptBoundBytes_eq_ok h
  have hlength := hkeys.length_encipher version nonce.bytes plaintext context
  have hfind : keys.versions.find? (fun v : ℕ => decide ((v : ℤ) = (version : ℤ))) =
    some version := by
    obtain ⟨v, hv⟩ : ∃ v, keys.versions.find? (fun v : ℕ => decide ((v : ℤ) = (version : ℤ))) =
        some v := by
      rw [← isSome_iff_exists, find?_isSome]
      exact ⟨version, hversion, by simp⟩
    have hsame : (v : ℤ) = version := by simpa using find?_some hv
    rw [hv, Int.ofNat.inj hsame]
  unfold decryptBoundBytes
  rw [hpayload, append_assoc, hkey, if_pos (by simp)]
  rw [drop_left, if_neg (by
    rw [length_append, nonce.length_bytes, hlength]
    omega), hfind]
  dsimp only
  rw [if_pos hvalid, take_left' nonce.length_bytes, drop_left' nonce.length_bytes,
    hkeys.decipher_encipher]

end SmsPlatform.Spill
