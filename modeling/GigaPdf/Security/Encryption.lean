import GigaPdf.Lib.Aead
import GigaPdf.Lib.Text
import GigaPdf.Lib.Traversal

/-!
# Documents encrypted at rest

`EncryptionService`: each document has a data encryption key (DEK) of its own, which is encrypted
with the master key. AES-256-GCM is the ideal cipher of `Aead`, so calls carry the log of what has
been sealed.
-/

namespace GigaPdf.Encryption

open Aead (Sealed opened FreshNonces)

abbrev Bytes := List UInt8

abbrev Log := List (Sealed Bytes Bytes Bytes Bytes Bytes)

def keySize : Nat := 32

def nonceSize : Nat := 12

def tagSize : Nat := 16

def encryptionVersion : Bytes := [1]

inductive Exception
  | encryptionError (message : String)
  | valueError (message : String)
  | invalidTag
deriving DecidableEq

/-- `str(e)` -/
def Exception.text : Exception → String
  | encryptionError message => message
  | valueError message => message
  | invalidTag => ""

/-! ## AESGCM -/

/-- The bytes that `AESGCM` computes from a key, a nonce, the associated data and a plaintext. The
tag is at their end. -/
structure Cipher where
  sealing : Bytes → Bytes → Bytes → Bytes → Bytes
  length_sealing (key nonce associatedData plaintext : Bytes) :
    (sealing key nonce associatedData plaintext).length = plaintext.length + tagSize

/-- `AESGCM(key)` -/
def aesgcm (key : Bytes) : Except Exception Unit :=
  if key.length ∉ [16, 24, 32] then
    .error (.valueError "AESGCM key must be 128, 192, or 256 bits.")
  else .ok ()

def checkNonce (nonce : Bytes) : Except Exception Unit :=
  if nonce.length < 8 ∨ 128 < nonce.length then
    .error (.valueError "Nonce must be between 8 and 128 bytes")
  else .ok ()

def Cipher.encrypt (cipher : Cipher) (log : Log) (key nonce data : Bytes)
    (associatedData : Option Bytes) : Except Exception (Bytes × Log) := do
  checkNonce nonce
  let ciphertext := cipher.sealing key nonce (associatedData.getD []) data
  return (ciphertext, log ++ [⟨key, nonce, associatedData.getD [], data, ciphertext⟩])

def decrypt (log : Log) (key nonce data : Bytes) (associatedData : Option Bytes) :
    Except Exception Bytes := do
  checkNonce nonce
  match opened log key nonce (associatedData.getD []) data with
  | some plaintext => return plaintext
  | none => .error .invalidTag

/-! ## The service -/

/-- `masterKey` is derived from the secret of the application. -/
structure EncryptionService where
  cipher : Cipher
  masterKey : Bytes
  masterKey_length : masterKey.length = keySize

/-- The random bytes of one `encrypt_document`. -/
structure Draw where
  dek : Bytes
  keyNonce : Bytes
  nonce : Bytes
  dek_length : dek.length = keySize
  keyNonce_length : keyNonce.length = nonceSize
  nonce_length : nonce.length = nonceSize

/-- `bytes.hex` -/
def hex (bytes : Bytes) : String :=
  String.ofList <| bytes.flatMap fun b =>
    [Nat.digitChar (b.toNat / 16), Nat.digitChar (b.toNat % 16)]

/-- The layout of an encrypted key and of an encrypted document. -/
def frame (nonce ciphertext : Bytes) : Bytes := encryptionVersion ++ nonce ++ ciphertext

/-- The nonce and the ciphertext, after the checks; `what` is in the message. -/
def unframe (what : String) (data : Bytes) : Except Exception (Bytes × Bytes) :=
  if data.length < 1 + nonceSize + tagSize then
    .error (.encryptionError s!"Invalid encrypted {what} format")
  else if data.take 1 ≠ encryptionVersion then
    .error (.encryptionError s!"Unsupported encryption version: {hex (data.take 1)}")
  else .ok ((data.drop 1).take nonceSize, data.drop (1 + nonceSize))

/-- `except Exception as e: raise EncryptionError(f"... failed: {e}")` -/
def orFailed {α : Type} (what : String) : Except Exception α → Except Exception α
  | .ok a => .ok a
  | .error e => .error (.encryptionError s!"{what} failed: {e.text}")

/-- `_create_aad` -/
def createAad (documentId userId : List Char) : Bytes :=
  Text.encode ("gigapdf:doc:".toList ++ documentId ++ ":user:".toList ++ userId)

namespace EncryptionService

variable (service : EncryptionService)

/-- `_encrypt_key` -/
def encryptKey (log : Log) (nonce key : Bytes) : Except Exception (Bytes × Log) := do
  aesgcm service.masterKey
  let (ciphertext, log) ← service.cipher.encrypt log service.masterKey nonce key none
  return (frame nonce ciphertext, log)

/-- `_decrypt_key` -/
def decryptKey (log : Log) (encryptedKey : Bytes) : Except Exception Bytes := do
  let (nonce, ciphertext) ← unframe "key" encryptedKey
  aesgcm service.masterKey
  orFailed "Key decryption" (decrypt log service.masterKey nonce ciphertext none)

def generateDocumentKey (log : Log) (draw : Draw) : Except Exception ((Bytes × Bytes) × Log) := do
  let (encryptedDek, log) ← service.encryptKey log draw.keyNonce draw.dek
  return ((draw.dek, encryptedDek), log)

/-- The encrypted document and the encrypted DEK. -/
def encryptDocument (log : Log) (draw : Draw) (documentData : Bytes)
    (documentId userId : List Char) : Except Exception ((Bytes × Bytes) × Log) :=
  orFailed "Encryption" do
    let ((dek, encryptedDek), log) ← service.generateDocumentKey log draw
    let aad := createAad documentId userId
    aesgcm dek
    let (ciphertext, log) ← service.cipher.encrypt log dek draw.nonce documentData (some aad)
    return ((frame draw.nonce ciphertext, encryptedDek), log)

def decryptDocument (log : Log) (encryptedDocument encryptedDek : Bytes)
    (documentId userId : List Char) : Except Exception Bytes :=
  orFailed "Decryption" do
    let dek ← service.decryptKey log encryptedDek
    let (nonce, ciphertext) ← unframe "document" encryptedDocument
    let aad := createAad documentId userId
    aesgcm dek
    decrypt log dek nonce ciphertext (some aad)

def rotateDocumentKey (log : Log) (draw : Draw) (encryptedDocument oldEncryptedDek : Bytes)
    (documentId userId : List Char) : Except Exception ((Bytes × Bytes) × Log) := do
  let plaintext ← service.decryptDocument log encryptedDocument oldEncryptedDek documentId userId
  service.encryptDocument log draw plaintext documentId userId

end EncryptionService

/-! ## What the functions return -/

/-- The text of a UUID. -/
def IsUuid (text : List Char) : Prop :=
  (text.splitOn '-').map List.length = [8, 4, 4, 4, 12] ∧
    text.all fun c => c == '-' || c.isDigit || "abcdefABCDEF".toList.contains c

instance (text : List Char) : Decidable (IsUuid text) := inferInstanceAs (Decidable (_ ∧ _))

/-- `EncryptionError` is raised. -/
def Raises {α : Type} (result : Except Exception α) : Prop :=
  ∃ message, result = .error (.encryptionError message)

theorem checkNonce_eq {nonce : Bytes} (length : nonce.length = nonceSize) :
    checkNonce nonce = .ok () := by
  rw [checkNonce, length]
  rfl

theorem aesgcm_eq {key : Bytes} (length : key.length = keySize) : aesgcm key = .ok () := by
  rw [aesgcm, length]
  rfl

theorem Cipher.encrypt_eq (cipher : Cipher) {log : Log} {key nonce data : Bytes}
    {associatedData : Option Bytes} (length : nonce.length = nonceSize) :
    cipher.encrypt log key nonce data associatedData =
      .ok (cipher.sealing key nonce (associatedData.getD []) data,
        log ++ [⟨key, nonce, associatedData.getD [], data,
          cipher.sealing key nonce (associatedData.getD []) data⟩]) := by
  rw [Cipher.encrypt, checkNonce_eq length]
  rfl

theorem unframe_eq_ok_iff {what : String} {data nonce ciphertext : Bytes} :
    unframe what data = .ok (nonce, ciphertext) ↔
      data = frame nonce ciphertext ∧ nonce.length = nonceSize ∧ tagSize ≤ ciphertext.length := by
  rw [unframe]
  constructor
  · intro h
    split at h
    · cases h
    next long =>
      split at h
      · cases h
      next version =>
        cases h
        rw [Nat.not_lt] at long
        refine ⟨?_, ?_, ?_⟩
        · rw [frame, ← Decidable.not_not.mp version, List.append_assoc]
          calc
            data = data.take 1 ++ data.drop 1 := (List.take_append_drop 1 data).symm
            _ = data.take 1 ++ ((data.drop 1).take nonceSize ++ (data.drop 1).drop nonceSize) := by
              rw [List.take_append_drop nonceSize (data.drop 1)]
            _ = _ := by rw [List.drop_drop]
        · rw [List.length_take, List.length_drop]
          omega
        · rw [List.length_drop]
          omega
  · rintro ⟨rfl, length, tag⟩
    have long : ¬(frame nonce ciphertext).length < 1 + nonceSize + tagSize := by
      simp only [frame, encryptionVersion, List.length_append, List.length_singleton]
      omega
    have version : ¬(frame nonce ciphertext).take 1 ≠ encryptionVersion := not_not.mpr rfl
    rw [if_neg long, if_neg version]
    simp [frame, encryptionVersion, ← length, Nat.add_comm 1]

theorem frame_inj {nonce nonce' ciphertext ciphertext' : Bytes} (length : nonce.length = nonceSize)
    (length' : nonce'.length = nonceSize) :
    frame nonce ciphertext = frame nonce' ciphertext' ↔
      nonce = nonce' ∧ ciphertext = ciphertext' := by
  rw [frame, frame, List.append_assoc, List.append_assoc, List.append_cancel_left_eq]
  constructor
  · exact fun same => List.append_inj same (length.trans length'.symm)
  · rintro ⟨rfl, rfl⟩
    rfl

theorem decrypt_eq_ok_iff {log : Log} (fresh : FreshNonces log) {key nonce data plaintext : Bytes}
    {associatedData : Option Bytes} (length : nonce.length = nonceSize) :
    decrypt log key nonce data associatedData = .ok plaintext ↔
      ⟨key, nonce, associatedData.getD [], plaintext, data⟩ ∈ log := by
  rw [decrypt, checkNonce_eq length, ← Aead.opened_eq_some_iff fresh, Traversal.bind_eq_ok_iff]
  cases opened log key nonce (associatedData.getD []) data with
  | none => simp
  | some found => simp [pure, Except.pure]

theorem orFailed_eq_ok_iff {α : Type} {what : String} {result : Except Exception α} {a : α} :
    orFailed what result = .ok a ↔ result = .ok a := by
  cases result with
  | ok b => rfl
  | error e => simp [orFailed]

theorem raises_orFailed_iff {α : Type} {what : String} {result : Except Exception α} :
    Raises (orFailed what result) ↔ ∀ a, orFailed what result ≠ .ok a := by
  cases result with
  | ok b => simp [orFailed, Raises]
  | error e => simp [orFailed, Raises]

theorem IsUuid.colon_notMem {text : List Char} (isUuid : IsUuid text) : ':' ∉ text := by
  intro mem
  have fits := List.all_eq_true.mp isUuid.2 ':' mem
  revert fits
  decide

/-- The document id ends at a colon, and everything behind it is the user id. -/
theorem createAad_inj {documentId documentId' userId userId' : List Char}
    (isUuid : IsUuid documentId) (isUuid' : IsUuid documentId') :
    createAad documentId userId = createAad documentId' userId' ↔
      documentId = documentId' ∧ userId = userId' := by
  constructor
  · intro same
    rw [createAad, createAad, Text.encode_inj] at same
    simp only [List.append_assoc, List.append_cancel_left_eq] at same
    change documentId ++ ':' :: ("user:".toList ++ userId) =
      documentId' ++ ':' :: ("user:".toList ++ userId') at same
    obtain ⟨document, user⟩ := Text.split_first same isUuid.colon_notMem isUuid'.colon_notMem
    exact ⟨document, List.append_cancel_left user⟩
  · rintro ⟨rfl, rfl⟩
    rfl

namespace EncryptionService

variable {service : EncryptionService} {log : Log}
  {document encryptedDocument encryptedDek : Bytes} {documentId userId : List Char}

theorem decryptKey_eq_ok_iff (fresh : FreshNonces log) {dek : Bytes} :
    service.decryptKey log encryptedDek = .ok dek ↔
      ∃ nonce ciphertext, encryptedDek = frame nonce ciphertext ∧ nonce.length = nonceSize ∧
        tagSize ≤ ciphertext.length ∧ ⟨service.masterKey, nonce, [], dek, ciphertext⟩ ∈ log := by
  simp only [decryptKey, Traversal.bind_eq_ok_iff, aesgcm_eq service.masterKey_length,
    orFailed_eq_ok_iff, Prod.exists, unframe_eq_ok_iff]
  constructor
  · rintro ⟨nonce, ciphertext, ⟨framed, length, tag⟩, _, _, here⟩
    exact ⟨nonce, ciphertext, framed, length, tag, (decrypt_eq_ok_iff fresh length).mp here⟩
  · rintro ⟨nonce, ciphertext, framed, length, tag, mem⟩
    exact ⟨nonce, ciphertext, ⟨framed, length, tag⟩, (), trivial,
      (decrypt_eq_ok_iff fresh length).mpr mem⟩

theorem decryptDocument_eq_ok_iff (fresh : FreshNonces log) :
    service.decryptDocument log encryptedDocument encryptedDek documentId userId = .ok document ↔
      ∃ dek nonce ciphertext, service.decryptKey log encryptedDek = .ok dek ∧
        aesgcm dek = .ok () ∧ encryptedDocument = frame nonce ciphertext ∧
        nonce.length = nonceSize ∧ tagSize ≤ ciphertext.length ∧
        ⟨dek, nonce, createAad documentId userId, document, ciphertext⟩ ∈ log := by
  simp only [decryptDocument, Traversal.bind_eq_ok_iff, orFailed_eq_ok_iff, Prod.exists,
    unframe_eq_ok_iff]
  constructor
  · rintro ⟨dek, opens, nonce, ciphertext, ⟨framed, length, tag⟩, _, key, here⟩
    exact ⟨dek, nonce, ciphertext, opens, key, framed, length, tag,
      (decrypt_eq_ok_iff fresh length).mp here⟩
  · rintro ⟨dek, nonce, ciphertext, opens, key, framed, length, tag, mem⟩
    exact ⟨dek, opens, nonce, ciphertext, ⟨framed, length, tag⟩, (), key,
      (decrypt_eq_ok_iff fresh length).mpr mem⟩

end EncryptionService

end GigaPdf.Encryption
