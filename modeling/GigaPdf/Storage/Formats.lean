import GigaPdf.Lib.Text
import GigaPdf.Models

/-!
# Formats and object keys

The format that an upload is recorded with, and the object keys that the storage
endpoints build from it.
-/

namespace GigaPdf

abbrev Key := String

def ascii (text : String) : Bytes := text.toList.map fun c => UInt8.ofNat c.toNat

def startsWith (data signature : Bytes) : Bool := signature.isPrefixOf data

/-- `value or default` for a text column: an empty text counts as missing. -/
def orDefault (value : Option String) (default : String) : String :=
  match value with
  | some text => if text = "" then default else text
  | none => default

/-! ## Recognising a format -/

def FORMAT_SIGNATURES : List (Bytes × String × String) :=
  [(ascii "%PDF-", "pdf", "application/pdf"),
   (0x89 :: ascii "PNG" ++ [0x0D, 0x0A, 0x1A, 0x0A], "png", "image/png"),
   ([0xFF, 0xD8, 0xFF], "jpg", "image/jpeg"),
   (ascii "GIF87a", "gif", "image/gif"),
   (ascii "GIF89a", "gif", "image/gif"),
   (ascii "%!PS", "ps", "application/postscript"),
   (ascii "\x7b\\rtf", "rtf", "application/rtf")]

def ZIP_MAGIC : Bytes := ascii "PK" ++ [0x03, 0x04]

def OLE2_MAGIC : Bytes := [0xD0, 0xCF, 0x11, 0xE0, 0xA1, 0xB1, 0x1A, 0xE1]

def EXTENSION_MIME : List (String × String × String) :=
  [("pdf", "pdf", "application/pdf"),
   ("png", "png", "image/png"),
   ("jpg", "jpg", "image/jpeg"),
   ("jpeg", "jpg", "image/jpeg"),
   ("gif", "gif", "image/gif"),
   ("webp", "webp", "image/webp"),
   ("tif", "tiff", "image/tiff"),
   ("tiff", "tiff", "image/tiff"),
   ("bmp", "bmp", "image/bmp"),
   ("txt", "txt", "text/plain"),
   ("rtf", "rtf", "application/rtf"),
   ("csv", "csv", "text/csv"),
   ("doc", "doc", "application/msword"),
   ("docx", "docx",
    "application/vnd.openxmlformats-officedocument.wordprocessingml.document"),
   ("xls", "xls", "application/vnd.ms-excel"),
   ("xlsx", "xlsx", "application/vnd.openxmlformats-officedocument.spreadsheetml.sheet"),
   ("ppt", "ppt", "application/vnd.ms-powerpoint"),
   ("pptx", "pptx",
    "application/vnd.openxmlformats-officedocument.presentationml.presentation"),
   ("odt", "odt", "application/vnd.oasis.opendocument.text"),
   ("ods", "ods", "application/vnd.oasis.opendocument.spreadsheet"),
   ("odp", "odp", "application/vnd.oasis.opendocument.presentation")]

def uploadExtension (filename : Option String) : String :=
  match filename with
  | some name =>
    if '.' ∈ name.toList then
      -- `lower` beyond ASCII maps no other character to a letter of an extension of the table.
      String.ofList (Text.lower (Text.strip (Text.afterLast '.' name.toList)))
    else ""
  | none => ""

/-- `(original_format, mime_type)` of an imported file. -/
def detectUploadFormat (data : Bytes) (filename contentType : Option String) : String × String :=
  match FORMAT_SIGNATURES.find? fun s => startsWith data s.1 with
  | some (_, format, mime) => (format, mime)
  | none =>
    let extension := uploadExtension filename
    if startsWith data ZIP_MAGIC || startsWith data OLE2_MAGIC then
      match EXTENSION_MIME.lookup extension with
      | some known => known
      | none =>
        if startsWith data ZIP_MAGIC then ("zip", "application/zip")
        else ("bin", "application/x-ole-storage")
    else
      match EXTENSION_MIME.lookup extension with
      | some known => known
      | none =>
        ("bin", orDefault contentType "application/octet-stream")

/-- `(extension, content_type)` of a thumbnail, when its magic bytes are known. -/
def detectThumbnailFormat (data : Bytes) : Option (String × String) :=
  if startsWith data (0x89 :: ascii "PNG" ++ [0x0D, 0x0A, 0x1A, 0x0A]) then
    some ("png", "image/png")
  else if startsWith data [0xFF, 0xD8, 0xFF] then some ("jpg", "image/jpeg")
  else if data.length ≥ 12 ∧ data.take 4 = ascii "RIFF" ∧ (data.drop 8).take 4 = ascii "WEBP" then
    some ("webp", "image/webp")
  else none

/-- Every format token that an upload can be recorded with. -/
def SUPPORTED_FORMATS : List String :=
  ["zip", "bin"] ++ FORMAT_SIGNATURES.map (·.2.1) ++ EXTENSION_MIME.map (·.2.1)

theorem lookup_extension_supported {extension : String} {known : String × String}
    (h : EXTENSION_MIME.lookup extension = some known) : known.1 ∈ SUPPORTED_FORMATS := by
  have listed : ∀ table : List (String × String × String),
      table.lookup extension = some known → known.1 ∈ table.map (·.2.1) := by
    intro table
    induction table with
    | nil => intro h; cases h
    | cons entry rest ih =>
      intro h
      rw [List.lookup_cons] at h
      split at h
      · cases h; exact List.mem_cons_self
      · exact List.mem_cons_of_mem _ (ih h)
  exact List.mem_append_right _ (listed _ h)

theorem detectUploadFormat_supported (data : Bytes) (filename contentType : Option String) :
    (detectUploadFormat data filename contentType).1 ∈ SUPPORTED_FORMATS := by
  unfold detectUploadFormat
  cases hs : FORMAT_SIGNATURES.find? fun s => startsWith data s.1 with
  | some s =>
    have mem : s.2.1 ∈ FORMAT_SIGNATURES.map (·.2.1) :=
      List.mem_map_of_mem (List.mem_of_find?_eq_some hs)
    exact List.mem_append_left _ (List.mem_append_right _ mem)
  | none =>
    have plain : "zip" ∈ SUPPORTED_FORMATS ∧ "bin" ∈ SUPPORTED_FORMATS := by decide
    cases hl : EXTENSION_MIME.lookup (uploadExtension filename) with
    | some known =>
      simp only [hl, ite_self]
      exact lookup_extension_supported hl
    | none =>
      simp only [hl]
      split
      · split
        · exact plain.1
        · exact plain.2
      · exact plain.2

theorem supported_plain : ∀ format ∈ SUPPORTED_FORMATS,
    format ≠ "" ∧ '/' ∉ format.toList := by
  decide

/-! ## Object keys -/

/-- Object key of a document version with a file extension. -/
def versionKey (userId : String) (documentId : Uuid) (version : Nat) (extension : String) : Key :=
  s!"documents/{userId}/{documentId.text}/v{version}.{extension}"

/-- `s3_service.get_document_key`. -/
def getDocumentKey (userId : String) (documentId : Uuid) (version : Nat) : Key :=
  s!"documents/{userId}/{documentId.text}/v{version}.pdf"

def originalDocumentKey (userId : String) (documentId : Uuid) (version : Nat)
    (originalFormat : String) : Key :=
  if originalFormat = "" ∨ originalFormat = "pdf" then getDocumentKey userId documentId version
  else s!"documents/{userId}/{documentId.text}/v{version}.{originalFormat}"

def getThumbnailKey (userId : String) (documentId : Uuid) (extension : String) : Key :=
  s!"thumbnails/{userId}/{documentId.text}.{extension}"

/-- The format of a stored document; a document without one is a PDF. -/
def StoredDocument.format (d : StoredDocument) : String := orDefault d.originalFormat "pdf"

/-- The file extension that a format is stored under. -/
def storedExtension (originalFormat : String) : String :=
  if originalFormat = "" ∨ originalFormat = "pdf" then "pdf" else originalFormat

theorem getDocumentKey_eq (u : String) (d : Uuid) (n : Nat) :
    getDocumentKey u d n = versionKey u d n "pdf" := by
  have key : getDocumentKey u d n =
      "documents/" ++ u ++ "/" ++ d.text ++ "/v" ++ n.repr ++ ".pdf" := rfl
  have key' : versionKey u d n "pdf" =
      "documents/" ++ u ++ "/" ++ d.text ++ "/v" ++ n.repr ++ "." ++ "pdf" := rfl
  have dot : ".pdf" = "." ++ "pdf" := rfl
  rw [key, key', dot, ← String.append_assoc]

theorem originalDocumentKey_eq (u : String) (d : Uuid) (n : Nat) (format : String) :
    originalDocumentKey u d n format = versionKey u d n (storedExtension format) := by
  unfold originalDocumentKey storedExtension
  split
  · exact getDocumentKey_eq u d n
  · rfl

theorem toList_versionKey (u : String) (d : Uuid) (n : Nat) (extension : String) :
    (versionKey u d n extension).toList =
      (("documents/".toList ++ u.toList) ++ '/' :: d.text.toList) ++
        '/' :: ('v' :: Text.decimal n ++ '.' :: extension.toList) := by
  have slash : "/".toList = ['/'] := rfl
  have version : "/v".toList = ['/', 'v'] := rfl
  have dot : ".".toList = ['.'] := rfl
  have number : Text.decimal n = n.repr.toList := rfl
  have key : versionKey u d n extension =
      "documents/" ++ u ++ "/" ++ d.text ++ "/v" ++ n.repr ++ "." ++ extension := rfl
  rw [key, number]
  simp only [String.toList_append, slash, version, dot, List.append_assoc, List.cons_append,
    List.nil_append]

/-- A version key determines the owner, the document, the version and the extension. -/
theorem versionKey_inj {u u' : String} {d d' : Uuid} {n n' : Nat} {e e' : String}
    (he : '/' ∉ e.toList) (he' : '/' ∉ e'.toList)
    (h : versionKey u d n e = versionKey u' d' n' e') :
    u = u' ∧ d = d' ∧ n = n' ∧ e = e' := by
  have plain : ∀ {n : Nat} {e : String}, '/' ∉ e.toList →
      '/' ∉ 'v' :: Text.decimal n ++ '.' :: e.toList := by
    intro n e he
    have := Text.not_mem_decimal (c := '/') (by decide) n
    simp [he, this]
  have h := congrArg String.toList h
  rw [toList_versionKey, toList_versionKey] at h
  obtain ⟨hfolder, hfile⟩ := Text.split_last h (plain he) (plain he')
  obtain ⟨huser, hdoc⟩ := Text.split_last hfolder d.noSlash d'.noSlash
  have hfile := (List.cons.inj hfile).2
  obtain ⟨hn, hext⟩ := Text.split_first hfile (Text.not_mem_decimal (by decide) n)
    (Text.not_mem_decimal (by decide) n')
  refine ⟨String.toList_inj.mp (List.append_cancel_left huser), ?_, Text.decimal_inj hn,
    String.toList_inj.mp hext⟩
  cases d; cases d'
  cases String.toList_inj.mp hdoc
  rfl

theorem toList_thumbnailKey (u : String) (d : Uuid) (extension : String) :
    (getThumbnailKey u d extension).toList =
      ("thumbnails/".toList ++ u.toList) ++ '/' :: (d.text.toList ++ '.' :: extension.toList) := by
  have slash : "/".toList = ['/'] := rfl
  have dot : ".".toList = ['.'] := rfl
  have key : getThumbnailKey u d extension =
      "thumbnails/" ++ u ++ "/" ++ d.text ++ "." ++ extension := rfl
  rw [key]
  simp only [String.toList_append, slash, dot, List.append_assoc, List.cons_append,
    List.nil_append]

theorem versionKey_ne_thumbnailKey (u u' : String) (d d' : Uuid) (n : Nat) (e e' : String) :
    versionKey u d n e ≠ getThumbnailKey u' d' e' := by
  intro h
  have h := congrArg String.toList h
  rw [toList_versionKey, toList_thumbnailKey] at h
  have first : 'd' = 't' := (List.cons.inj h).1
  exact absurd first (by decide)

/-- An extension without the separators of a thumbnail key. -/
def plainExtension (extension : String) : Prop :=
  '/' ∉ extension.toList ∧ '.' ∉ extension.toList

theorem detectThumbnailFormat_plain {data : Bytes} {format : String × String}
    (h : detectThumbnailFormat data = some format) : plainExtension format.1 := by
  unfold detectThumbnailFormat at h
  split at h
  · cases h
    exact ⟨by decide, by decide⟩
  · split at h
    · cases h
      exact ⟨by decide, by decide⟩
    · split at h
      · cases h
        exact ⟨by decide, by decide⟩
      · cases h

/-- A thumbnail key determines the document. -/
theorem thumbnailKey_inj {u u' : String} {d d' : Uuid} {e e' : String} (he : plainExtension e)
    (he' : plainExtension e') (h : getThumbnailKey u d e = getThumbnailKey u' d' e') : d = d' := by
  have plain : ∀ {d : Uuid} {e : String}, plainExtension e →
      '/' ∉ d.text.toList ++ '.' :: e.toList := by
    intro d e he
    simp [d.noSlash, he.1]
  have h := congrArg String.toList h
  rw [toList_thumbnailKey, toList_thumbnailKey] at h
  have hfile := (Text.split_last h (plain he) (plain he')).2
  have hdoc := (Text.split_last hfile he.2 he'.2).1
  cases d; cases d'
  cases String.toList_inj.mp hdoc
  rfl

end GigaPdf
