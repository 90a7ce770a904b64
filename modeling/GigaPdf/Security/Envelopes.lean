import GigaPdf.Security.Encryption
import Mathlib.Data.List.Nodup

/-!
# Envelopes

What `encrypt_document` and `rotate_document_key` have made in a run, and which bytes open under
which ids.
-/

namespace GigaPdf.Encryption

open Aead (Sealed FreshNonces)

/-- What went into one `encrypt_document` and what came out. -/
structure Envelope where
  draw : Draw
  document : Bytes
  documentId : List Char
  userId : List Char
  encryptedDocument : Bytes
  encryptedDek : Bytes

namespace Envelope

variable (service : EncryptionService) (e : Envelope)

def keyCall : Sealed Bytes Bytes Bytes Bytes Bytes :=
  ⟨service.masterKey, e.draw.keyNonce, [], e.draw.dek,
    service.cipher.sealing service.masterKey e.draw.keyNonce [] e.draw.dek⟩

def documentCall : Sealed Bytes Bytes Bytes Bytes Bytes :=
  let aad := createAad e.documentId e.userId
  ⟨e.draw.dek, e.draw.nonce, aad, e.document,
    service.cipher.sealing e.draw.dek e.draw.nonce aad e.document⟩

end Envelope

namespace EncryptionService

theorem encryptDocument_eq (service : EncryptionService) (log : Log) (e : Envelope) :
    service.encryptDocument log e.draw e.document e.documentId e.userId =
      .ok ((frame e.draw.nonce (e.documentCall service).ciphertext,
          frame e.draw.keyNonce (e.keyCall service).ciphertext),
        log ++ [e.keyCall service] ++ [e.documentCall service]) := by
  have wrapped : service.generateDocumentKey log e.draw =
      .ok ((e.draw.dek, frame e.draw.keyNonce (e.keyCall service).ciphertext),
        log ++ [e.keyCall service]) := by
    rw [generateDocumentKey, encryptKey, aesgcm_eq service.masterKey_length,
      Cipher.encrypt_eq _ e.draw.keyNonce_length]
    rfl
  rw [encryptDocument, wrapped, orFailed_eq_ok_iff]
  change (aesgcm e.draw.dek >>= fun _ => _) = _
  rw [aesgcm_eq e.draw.dek_length, Cipher.encrypt_eq _ e.draw.nonce_length]
  rfl

theorem encryptDocument_ok (service : EncryptionService) (log : Log) (draw : Draw)
    (document : Bytes) (documentId userId : List Char) :
    ∃ encryptedDocument encryptedDek log',
      service.encryptDocument log draw document documentId userId =
        .ok ((encryptedDocument, encryptedDek), log') :=
  ⟨_, _, _, encryptDocument_eq service log ⟨draw, document, documentId, userId, [], []⟩⟩

end EncryptionService

/-! ## Runs -/

/-- A DEK is nobody's key before, and the nonces are new. -/
structure Draw.Fresh (draw : Draw) (service : EncryptionService) (log : Log) : Prop where
  notMaster : draw.dek ≠ service.masterKey
  newKey : ∀ s ∈ log, s.key ≠ draw.dek
  apart : draw.keyNonce ≠ draw.nonce
  newKeyNonce : ∀ s ∈ log, s.nonce ≠ draw.keyNonce
  newNonce : ∀ s ∈ log, s.nonce ≠ draw.nonce

/-- The encryptions so far, and the log that they leave. Decryptions leave no trace. -/
inductive Run (service : EncryptionService) : List Envelope → Log → Prop
  | start : Run service [] []
  | encrypt {history : List Envelope} {log log' : Log} {e : Envelope} :
      Run service history log → e.draw.Fresh service log →
      service.encryptDocument log e.draw e.document e.documentId e.userId =
        .ok ((e.encryptedDocument, e.encryptedDek), log') →
      Run service (history ++ [e]) log'
  | rotate {history : List Envelope} {log log' : Log} {e : Envelope} {old oldDek : Bytes} :
      Run service history log → e.draw.Fresh service log →
      service.decryptDocument log old oldDek e.documentId e.userId = .ok e.document →
      service.rotateDocumentKey log e.draw old oldDek e.documentId e.userId =
        .ok ((e.encryptedDocument, e.encryptedDek), log') →
      Run service (history ++ [e]) log'

/-- What the log holds after a run, and how its encryptions keep apart. -/
structure Recorded (service : EncryptionService) (history : List Envelope) (log : Log) : Prop where
  logged : log = history.flatMap fun e => [e.keyCall service, e.documentCall service]
  framed : ∀ e ∈ history, e.encryptedDek = frame e.draw.keyNonce (e.keyCall service).ciphertext ∧
    e.encryptedDocument = frame e.draw.nonce (e.documentCall service).ciphertext
  notMaster : ∀ e ∈ history, e.draw.dek ≠ service.masterKey
  keys : (history.map fun e => e.draw.dek).Nodup
  nonces : FreshNonces log

namespace Recorded

variable {service : EncryptionService} {history : List Envelope} {log log' : Log} {e e' : Envelope}

theorem nil : Recorded service [] [] where
  logged := rfl
  framed := by simp
  notMaster := by simp
  keys := List.nodup_nil
  nonces := List.nodup_nil

theorem mem_log_iff (recorded : Recorded service history log)
    {s : Sealed Bytes Bytes Bytes Bytes Bytes} :
    s ∈ log ↔ ∃ e ∈ history, s = e.keyCall service ∨ s = e.documentCall service := by
  simp [recorded.logged]

theorem keyCall_mem (recorded : Recorded service history log) (mem : e ∈ history) :
    e.keyCall service ∈ log := recorded.mem_log_iff.mpr ⟨e, mem, .inl rfl⟩

theorem documentCall_mem (recorded : Recorded service history log) (mem : e ∈ history) :
    e.documentCall service ∈ log := recorded.mem_log_iff.mpr ⟨e, mem, .inr rfl⟩

/-- A DEK tells the encryption. -/
theorem eq_of_dek (recorded : Recorded service history log) (mem : e ∈ history)
    (mem' : e' ∈ history) (same : e.draw.dek = e'.draw.dek) : e = e' :=
  List.inj_on_of_nodup_map recorded.keys mem mem' same

/-- So does its encrypted DEK. -/
theorem eq_of_encryptedDek (recorded : Recorded service history log) (mem : e ∈ history)
    (mem' : e' ∈ history) (same : e.encryptedDek = e'.encryptedDek) : e = e' := by
  rw [(recorded.framed e mem).1, (recorded.framed e' mem').1,
    frame_inj e.draw.keyNonce_length e'.draw.keyNonce_length] at same
  have call : e.keyCall service = e'.keyCall service :=
    recorded.nonces.eq_of_nonce (recorded.keyCall_mem mem) (recorded.keyCall_mem mem') same.1
  exact recorded.eq_of_dek mem mem' (congrArg Sealed.plaintext call)

/-- So does its encrypted document. -/
theorem eq_of_encryptedDocument (recorded : Recorded service history log) (mem : e ∈ history)
    (mem' : e' ∈ history) (same : e.encryptedDocument = e'.encryptedDocument) : e = e' := by
  rw [(recorded.framed e mem).2, (recorded.framed e' mem').2,
    frame_inj e.draw.nonce_length e'.draw.nonce_length] at same
  have call : e.documentCall service = e'.documentCall service :=
    recorded.nonces.eq_of_nonce (recorded.documentCall_mem mem) (recorded.documentCall_mem mem')
      same.1
  exact recorded.eq_of_dek mem mem' (congrArg Sealed.key call)

theorem encrypt (recorded : Recorded service history log) (fresh : e.draw.Fresh service log)
    (done : service.encryptDocument log e.draw e.document e.documentId e.userId =
      .ok ((e.encryptedDocument, e.encryptedDek), log')) :
    Recorded service (history ++ [e]) log' := by
  rw [EncryptionService.encryptDocument_eq] at done
  simp only [Except.ok.injEq, Prod.mk.injEq] at done
  obtain ⟨⟨document, dek⟩, rfl⟩ := done
  have newKey : ∀ e' ∈ history, e'.draw.dek ≠ e.draw.dek := fun e' mem =>
    fresh.newKey _ (recorded.documentCall_mem mem)
  refine ⟨?_, ?_, ?_, ?_, ?_⟩
  · rw [List.flatMap_append, ← recorded.logged, List.append_assoc]
    rfl
  · rw [List.forall_mem_append, List.forall_mem_singleton]
    exact ⟨recorded.framed, dek.symm, document.symm⟩
  · rw [List.forall_mem_append, List.forall_mem_singleton]
    exact ⟨recorded.notMaster, fresh.notMaster⟩
  · rw [List.map_append, List.nodup_append]
    refine ⟨recorded.keys, List.nodup_singleton _, ?_⟩
    simpa using newKey
  · rw [List.append_assoc]
    have pair : FreshNonces [e.keyCall service, e.documentCall service] := by
      simpa [FreshNonces, Envelope.keyCall, Envelope.documentCall] using fresh.apart
    apply recorded.nonces.append pair
    intro s mem
    simpa using ⟨fresh.newKeyNonce s mem, fresh.newNonce s mem⟩

/-- A document opens exactly as what one encryption has sealed. -/
theorem decryptDocument_eq_ok_iff (recorded : Recorded service history log)
    {encryptedDocument encryptedDek document : Bytes} {documentId userId : List Char} :
    service.decryptDocument log encryptedDocument encryptedDek documentId userId = .ok document ↔
      ∃ e ∈ history, encryptedDocument = e.encryptedDocument ∧ encryptedDek = e.encryptedDek ∧
        createAad documentId userId = createAad e.documentId e.userId ∧ document = e.document := by
  rw [EncryptionService.decryptDocument_eq_ok_iff recorded.nonces]
  simp only [EncryptionService.decryptKey_eq_ok_iff recorded.nonces, recorded.mem_log_iff]
  constructor
  · rintro ⟨dek, nonce, ciphertext, ⟨keyNonce, keyText, rfl, _, _, e, mem, keyIs⟩, _, rfl, _, _,
      e', mem', documentIs⟩
    rcases keyIs with keyIs | keyIs
    · injection keyIs with _ nonceIs _ dekIs textIs
      rcases documentIs with documentIs | documentIs
      · injection documentIs with masterIs
        exact absurd (dekIs.symm.trans masterIs) (recorded.notMaster e mem)
      · injection documentIs with dekIs' nonceIs' aadIs plainIs textIs'
        obtain rfl := recorded.eq_of_dek mem mem' (dekIs.symm.trans dekIs')
        obtain ⟨keyFrame, documentFrame⟩ := recorded.framed e mem
        refine ⟨e, mem, ?_, ?_, aadIs, plainIs⟩
        · rw [documentFrame, nonceIs', textIs']
          rfl
        · rw [keyFrame, nonceIs, textIs]
          rfl
    · injection keyIs with masterIs
      exact absurd masterIs.symm (recorded.notMaster e mem)
  · rintro ⟨e, mem, rfl, rfl, aadIs, rfl⟩
    obtain ⟨keyFrame, documentFrame⟩ := recorded.framed e mem
    have keyTag : tagSize ≤ (e.keyCall service).ciphertext.length := by
      rw [Envelope.keyCall, service.cipher.length_sealing]
      omega
    have documentTag : tagSize ≤ (e.documentCall service).ciphertext.length := by
      rw [Envelope.documentCall, service.cipher.length_sealing]
      omega
    refine ⟨e.draw.dek, e.draw.nonce, (e.documentCall service).ciphertext,
      ⟨e.draw.keyNonce, (e.keyCall service).ciphertext, keyFrame, e.draw.keyNonce_length, keyTag,
        e, mem, .inl rfl⟩, aesgcm_eq e.draw.dek_length, documentFrame, e.draw.nonce_length,
      documentTag, e, mem, .inr ?_⟩
    rw [aadIs]
    rfl

theorem raises_iff (recorded : Recorded service history log)
    {encryptedDocument encryptedDek : Bytes} {documentId userId : List Char} :
    Raises (service.decryptDocument log encryptedDocument encryptedDek documentId userId) ↔
      ∀ e ∈ history, encryptedDocument = e.encryptedDocument → encryptedDek = e.encryptedDek →
        createAad documentId userId ≠ createAad e.documentId e.userId := by
  rw [EncryptionService.decryptDocument, raises_orFailed_iff, ← EncryptionService.decryptDocument]
  constructor
  · intro closed e mem document dek aad
    exact closed e.document
      (recorded.decryptDocument_eq_ok_iff.mpr ⟨e, mem, document, dek, aad, rfl⟩)
  · intro apart document opens
    obtain ⟨e, mem, document, dek, aad, _⟩ := recorded.decryptDocument_eq_ok_iff.mp opens
    exact apart e mem document dek aad

theorem opens (recorded : Recorded service history log) (mem : e ∈ history) :
    service.decryptDocument log e.encryptedDocument e.encryptedDek e.documentId e.userId =
      .ok e.document :=
  recorded.decryptDocument_eq_ok_iff.mpr ⟨e, mem, rfl, rfl, rfl, rfl⟩

theorem rotateDocumentKey_eq (recorded : Recorded service history log) (mem : e ∈ history)
    (draw : Draw) :
    service.rotateDocumentKey log draw e.encryptedDocument e.encryptedDek e.documentId e.userId =
      service.encryptDocument log draw e.document e.documentId e.userId := by
  rw [EncryptionService.rotateDocumentKey, recorded.opens mem]
  rfl

/-- With one DEK only the document of its own encryption can open. -/
theorem raises_of_document_ne (recorded : Recorded service history log) (mem : e ∈ history)
    {bytes : Bytes} (other : bytes ≠ e.encryptedDocument) (documentId userId : List Char) :
    Raises (service.decryptDocument log bytes e.encryptedDek documentId userId) := by
  rw [recorded.raises_iff]
  intro e' mem' document dek _
  obtain rfl := recorded.eq_of_encryptedDek mem mem' dek
  exact other document

theorem raises_of_dek_ne (recorded : Recorded service history log) (mem : e ∈ history)
    {bytes : Bytes} (other : bytes ≠ e.encryptedDek) (documentId userId : List Char) :
    Raises (service.decryptDocument log e.encryptedDocument bytes documentId userId) := by
  rw [recorded.raises_iff]
  intro e' mem' document dek _
  obtain rfl := recorded.eq_of_encryptedDocument mem mem' document
  exact other dek

end Recorded

theorem Run.recorded {service : EncryptionService} {history : List Envelope} {log : Log}
    (run : Run service history log) : Recorded service history log := by
  induction run with
  | start => exact .nil
  | encrypt _ fresh done ih => exact ih.encrypt fresh done
  | rotate _ fresh opens done ih =>
    rw [EncryptionService.rotateDocumentKey, opens] at done
    exact ih.encrypt fresh done

/-! ## Identity -/

/-- Whatever has been encrypted and rotated so far, in which order: `ids` is the binding to a
document and a user, `mixed` takes the two parts from different encryptions, and `changed` is any
other sequence of bytes in the place of a part. -/
structure OpensOnlyAsSealed (service : EncryptionService) (history : List Envelope) (log : Log) :
    Prop where
  ids : ∀ e ∈ history, ∀ documentId userId, IsUuid e.documentId → IsUuid documentId →
    if documentId = e.documentId ∧ userId = e.userId then
      service.decryptDocument log e.encryptedDocument e.encryptedDek documentId userId =
        .ok e.document
    else
      Raises (service.decryptDocument log e.encryptedDocument e.encryptedDek documentId userId)
  mixed : history.Pairwise fun e e' => ∀ documentId userId,
    Raises (service.decryptDocument log e.encryptedDocument e'.encryptedDek documentId userId) ∧
      Raises (service.decryptDocument log e'.encryptedDocument e.encryptedDek documentId userId)
  changed : ∀ e ∈ history, ∀ bytes documentId userId,
    (bytes ≠ e.encryptedDocument →
      Raises (service.decryptDocument log bytes e.encryptedDek documentId userId)) ∧
    (bytes ≠ e.encryptedDek →
      Raises (service.decryptDocument log e.encryptedDocument bytes documentId userId))
  encrypts : ∀ draw : Draw, draw.Fresh service log → ∀ document documentId userId,
    ∃ encryptedDocument encryptedDek log',
      service.encryptDocument log draw document documentId userId =
        .ok ((encryptedDocument, encryptedDek), log') ∧
      Run service (history ++ [⟨draw, document, documentId, userId, encryptedDocument,
        encryptedDek⟩]) log'
  rotates : ∀ draw : Draw, draw.Fresh service log → ∀ e ∈ history,
    ∃ newDocument newDek log',
      service.rotateDocumentKey log draw e.encryptedDocument e.encryptedDek e.documentId e.userId =
        .ok ((newDocument, newDek), log') ∧
      Run service (history ++ [⟨draw, e.document, e.documentId, e.userId, newDocument, newDek⟩])
        log' ∧
      service.decryptDocument log' newDocument newDek e.documentId e.userId = .ok e.document ∧
      ∀ documentId userId,
        Raises (service.decryptDocument log' newDocument e.encryptedDek documentId userId)

section
variable {service : EncryptionService} {history : List Envelope} {log : Log}

theorem Recorded.ids (recorded : Recorded service history log) {e : Envelope} (mem : e ∈ history)
    {documentId : List Char} (isUuid : IsUuid e.documentId) (isUuid' : IsUuid documentId)
    {userId : List Char} (other : ¬(documentId = e.documentId ∧ userId = e.userId)) :
    Raises (service.decryptDocument log e.encryptedDocument e.encryptedDek documentId userId) := by
  rw [recorded.raises_iff]
  intro e' mem' document _ aad
  obtain rfl := recorded.eq_of_encryptedDocument mem mem' document
  exact other ((createAad_inj isUuid' isUuid).mp aad)

theorem Run.opensOnlyAsSealed (run : Run service history log) :
    OpensOnlyAsSealed service history log := by
  have recorded := run.recorded
  refine ⟨?_, ?_, ?_, ?_, ?_⟩
  · intro e mem documentId userId isUuid isUuid'
    split
    next own =>
      obtain ⟨rfl, rfl⟩ := own
      exact recorded.opens mem
    next other => exact recorded.ids mem isUuid isUuid' other
  · apply (List.Nodup.of_map _ recorded.keys).pairwise_of_forall_ne
    intro e mem e' mem' apart documentId userId
    constructor
    · exact recorded.raises_of_document_ne mem'
        (fun same => apart (recorded.eq_of_encryptedDocument mem mem' same)) documentId userId
    · exact recorded.raises_of_document_ne mem
        (fun same => apart (recorded.eq_of_encryptedDocument mem' mem same).symm) documentId userId
  · intro e mem bytes documentId userId
    exact ⟨fun other => recorded.raises_of_document_ne mem other documentId userId,
      fun other => recorded.raises_of_dek_ne mem other documentId userId⟩
  · intro draw fresh document documentId userId
    obtain ⟨encryptedDocument, encryptedDek, log', done⟩ :=
      EncryptionService.encryptDocument_ok service log draw document documentId userId
    exact ⟨encryptedDocument, encryptedDek, log', done, .encrypt run fresh done⟩
  · intro draw fresh e mem
    obtain ⟨newDocument, newDek, log', done⟩ :=
      EncryptionService.encryptDocument_ok service log draw e.document e.documentId e.userId
    have rotated := (recorded.rotateDocumentKey_eq mem draw).trans done
    let new : Envelope := ⟨draw, e.document, e.documentId, e.userId, newDocument, newDek⟩
    have opens : service.decryptDocument log e.encryptedDocument e.encryptedDek new.documentId
        new.userId = .ok new.document := recorded.opens mem
    have run' : Run service (history ++ [new]) log' := .rotate run fresh opens rotated
    have newMem : new ∈ history ++ [new] := List.mem_append_right _ (List.mem_singleton_self _)
    have oldMem : e ∈ history ++ [new] := List.mem_append_left _ mem
    have apart : newDocument ≠ e.encryptedDocument := by
      intro same
      have equal : new = e := run'.recorded.eq_of_encryptedDocument newMem oldMem same
      exact fresh.newKey _ (recorded.documentCall_mem mem) (congrArg (·.draw.dek) equal.symm)
    exact ⟨newDocument, newDek, log', rotated, run', run'.recorded.opens newMem,
      run'.recorded.raises_of_document_ne oldMem apart⟩

end

/-! One document, with the bytes that AES-256-GCM gives for its key and for itself. -/

def letter : Envelope where
  draw := ⟨List.replicate 32 1, List.replicate 12 2, List.replicate 12 3, rfl, rfl, rfl⟩
  document := [37, 80, 68, 70]
  documentId := "123e4567-e89b-12d3-a456-426614174000".toList
  userId := "ana".toList
  encryptedDocument := [1] ++ List.replicate 12 3 ++
    [221, 49, 80, 220, 160, 183, 142, 22, 239, 176, 69, 85, 118, 200, 225, 44, 3, 252, 70, 42]
  encryptedDek := [1] ++ List.replicate 12 2 ++
    [69, 249, 13, 236, 57, 114, 195, 36, 133, 253, 219, 126, 171, 249, 213, 219, 235, 121, 20, 10,
      137, 40, 44, 207, 64, 0, 190, 248, 76, 251, 223, 174, 140, 109, 6, 227, 161, 200, 231, 165,
      21, 93, 79, 211, 31, 174, 68, 29]

def letterCipher : Cipher where
  sealing key nonce associatedData plaintext :=
    if key = List.replicate 32 0 ∧ nonce = List.replicate 12 2 ∧ associatedData = [] ∧
        plaintext = List.replicate 32 1 then
      letter.encryptedDek.drop 13
    else if key = List.replicate 32 1 ∧ nonce = List.replicate 12 3 ∧
        associatedData = createAad letter.documentId letter.userId ∧
        plaintext = [37, 80, 68, 70] then
      letter.encryptedDocument.drop 13
    else plaintext ++ List.replicate tagSize 0
  length_sealing key nonce associatedData plaintext := by
    split
    next sealed =>
      rw [sealed.2.2.2]
      rfl
    next =>
      split
      next sealed =>
        rw [sealed.2.2.2]
        rfl
      next => rw [List.length_append, List.length_replicate]

def letterService : EncryptionService := ⟨letterCipher, List.replicate 32 0, rfl⟩

def letterLog : Log := [letter.keyCall letterService, letter.documentCall letterService]

theorem letter_run : Run letterService [letter] letterLog := by
  have fresh : letter.draw.Fresh letterService [] :=
    ⟨by decide, by simp, by decide, by simp, by simp⟩
  have done : letterService.encryptDocument [] letter.draw letter.document letter.documentId
      letter.userId = .ok ((letter.encryptedDocument, letter.encryptedDek), letterLog) := by
    rw [EncryptionService.encryptDocument_eq]
    rfl
  exact .encrypt .start fresh done

theorem opensOnlyAsSealed_letter :
    letterService.decryptDocument letterLog letter.encryptedDocument letter.encryptedDek
        letter.documentId "ana".toList = .ok letter.document ∧
      Raises (letterService.decryptDocument letterLog letter.encryptedDocument letter.encryptedDek
        letter.documentId "eve".toList) := by
  have isUuid : IsUuid letter.documentId := by decide
  have bound := letter_run.opensOnlyAsSealed.ids letter (List.mem_singleton_self _)
    letter.documentId
  have own := bound "ana".toList isUuid isUuid
  have other := bound "eve".toList isUuid isUuid
  rw [if_pos (by decide)] at own
  rw [if_neg (by decide)] at other
  exact ⟨own, other⟩

end GigaPdf.Encryption
