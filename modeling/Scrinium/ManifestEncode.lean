import Scrinium.Base64
import Scrinium.JsonText
import Scrinium.ManifestCodec
import Scrinium.StoreDescriptor

/-! Encoding a manifest file (package artifact): the checks at the boundary, the header, the JSON body and the two
encrypted forms. -/
namespace Scrinium.ManifestCodec
open Domain Config JsonText Trace List Option
open Pipeline (Hasher)
open StoreDescriptor (HashRegistry)

/- The standard library for the encoder: what json.Marshal makes of a raw message and how deep it nests, a time in RFC
3339, and AES-GCM under a key of the right length. -/
structure Writer extends Library where
  compact : Bytes → Option Bytes
  nesting : Bytes → Nat
  formatTime : Instant → String
  sealBox : (dek nonce plain aad : Bytes) → Option Bytes

def maxBlobRefs : Nat := 65535
def maxHandleRefs : Nat := 65535

def invalidHandleRef (detail : String) (position : Nat) : Error :=
  .other ("scrinium: invalid handle ref: " ++ detail ++ " at position " ++ toString position)

def handleRefsFrom (seen : List String) (position : Nat) : List String → Except Error Unit
  | [] => .ok ()
  | ref::rest =>
    if ref = "" then .error (invalidHandleRef "empty ref" position)
    else if ref ∈ seen then .error (invalidHandleRef ("duplicate ref " ++ ref) position)
    else handleRefsFrom (ref::seen) (position + 1) rest

def checkHandleRefs (m : Manifest) : Except Error Unit := handleRefsFrom [] 0 m.handleRefs

def checkRefLimits (m : Manifest) : Except Error Unit :=
  if maxBlobRefs < m.blobRefs.length ∨ maxHandleRefs < m.handleRefs.length then .error (.other "scrinium: too many references")
  else checkHandleRefs m

def invalidSlot (detail : String) : Except Error Unit := .error (.other ("scrinium: invalid manifest slot: " ++ detail))
def hasIdentityMeta (m : Manifest) : Bool := m.identityMetaHash ≠ "" || m.identityNonce ≠ []

def layoutCoherent (m : Manifest) : Except Error Unit :=
  if m.layout = .inline ∧ m.blobRefs ≠ [] then invalidSlot "inline manifest carries blob_refs" else .ok ()

def Layout.text : Layout → String
  | .inline => "Inline"
  | .target => "Target"
  | .unset => ""

def validateSlot (m : Manifest) : Except Error Unit :=
  if m.isUser ∧ m.isSystem then invalidSlot ("both handle (" ++ m.artifactID ++ ") and name (" ++ quoteText m.name ++ ") are set")
  else if m.isUser then
    if !hasIdentityMeta m then invalidSlot "user artifact carries no identity-meta" else layoutCoherent m
  else if m.isSystem then
    if m.inlineBlob = [] then invalidSlot ("system artifact " ++ quoteText m.name ++ " has no inline payload")
    else if m.layout ≠ .inline then
      invalidSlot ("system artifact " ++ quoteText m.name ++ " is not inline (" ++ quoteText (Layout.text m.layout) ++ ")")
    else if hasIdentityMeta m then invalidSlot ("system artifact " ++ quoteText m.name ++ " carries identity-meta")
    else layoutCoherent m
  else if m.blobRefs = [] then invalidSlot "container has no blob_refs"
  else if m.inlineBlob ≠ [] then invalidSlot "container carries an inline blob"
  else if hasIdentityMeta m then invalidSlot "container carries identity-meta"
  else layoutCoherent m

section
variable (w : Writer)
def timeText : Option Instant → String
  | none => ""
  | some t => w.formatTime t

def stageToJSON (stage : PipelineStage) : JsonStage := ⟨stage.algorithm,stage.hash,Base64.encode stage.iv,stage.keyID⟩

def rawMessage (raw : Bytes) : Except Error Bytes :=
  if raw = [] then .ok []
  else match w.compact raw with
    | some text => .ok text
    | none => .error (.other "json: invalid raw message")

def bodyWith (m : Manifest) (ext usr : Bytes) : JsonBody :=
  { ext := ext, inlineBlob := Base64.encode m.inlineBlob, usr := usr, artifactID := m.artifactID, blobRefs := m.blobRefs
    contentHash := m.contentHash, createdAt := timeText w m.createdAt, handleRefs := m.handleRefs
    hashAlgo := m.hashAlgo, identityNonce := Base64.encode m.identityNonce, identityMetaHash := m.identityMetaHash
    blobStorage := Layout.text m.layout, originalSize := if m.originalSize = 0 then none else some m.originalSize
    pipeline := m.pipeline.map stageToJSON, retentionUntil := timeText w m.retentionUntil
    schemaVersion := schemaVersion, sessionID := m.sessionID }

def bodyOf (m : Manifest) : Except Error JsonBody := do return bodyWith w m (← rawMessage w m.ext) (← rawMessage w m.usr)
def omitEmpty (name : String) (empty : Bool) (value : Bytes) : List (String × Bytes) := if empty then [] else [(name,value)]
def omitText (name text : String) : List (String × Bytes) := omitEmpty name (text = "") (quoted text)

def stageText (stage : JsonStage) : Bytes :=
  object ([("algorithm",quoted stage.algorithm),("hash",quoted stage.hash)] ++ omitText "iv" stage.iv ++ omitText "key_id" stage.keyID)

def sysText (b : JsonBody) : Bytes :=
  object
    (omitText "artifact_id" b.artifactID ++ [("blob_refs",array (b.blobRefs.map quoted))] ++ omitText "content_hash" b.contentHash ++
      [("created_at",quoted b.createdAt)] ++ omitEmpty "handle_refs" b.handleRefs.isEmpty (array (b.handleRefs.map quoted)) ++
      omitText "hash_algo" b.hashAlgo ++ omitText "identity_meta_hash" b.identityMetaHash ++
      omitText "identity_nonce" b.identityNonce ++ [("layout_header",object [("blob_storage",quoted b.blobStorage)])] ++
      omitEmpty "original_size" b.originalSize.isNone (number (b.originalSize.getD 0)) ++
      [("pipeline",array (b.pipeline.map stageText))] ++ omitText "retention_until" b.retentionUntil ++
      [("schema_version",number b.schemaVersion),("session_id",quoted b.sessionID)])

def bodyText (b : JsonBody) : Bytes :=
  object
    (omitEmpty "ext" b.ext.isEmpty b.ext ++ omitText "inline_blob" b.inlineBlob ++ [("sys",sysText b)] ++
      omitEmpty "usr" b.usr.isEmpty b.usr)

def marshalBodyJSON (m : Manifest) : Except Error Bytes := do return bodyText (← bodyOf w m)

end

section
variable (w : Writer)
def maxKeyIDLength : Nat := 255

def encodingMagic : ManifestEncoding → Except Error Bytes
  | .json => .ok magicJSON
  | .binary => .error (.other "scrinium: unsupported manifest encoding")

def cryptoFlag : ManifestCrypto → UInt8
  | .plain => 0x00
  | .sealed => 0x01
  | .paranoid => 0x02

def writeHeader (encoding : ManifestEncoding) (crypto : ManifestCrypto) (keyID : Bytes) : Except Error Bytes := do
  let magic ← encodingMagic encoding
  if crypto = .plain then
    if keyID ≠ [] then throw (.other "artifact: KeyID set under Plain crypto") else return magic ++ [cryptoFlag crypto]
  else if maxKeyIDLength < keyID.length then throw (.other "scrinium: invalid config: KeyID too long")
  else if !w.validText keyID then throw (.other "scrinium: invalid config: KeyID is not valid UTF-8")
  else return magic ++ [cryptoFlag crypto,keyID.length.toUInt8] ++ keyID

structure Nonce where
  bytes : Bytes
  long : bytes.length = nonceLen

structure Draws where
  ext : Nonce
  usr : Nonce
  inlineBlob : Nonce
  body : Nonce

def sealBody (plain dek : Bytes) (nonce : Nonce) (aad : Bytes) : Except Error Bytes :=
  match w.sealBox dek nonce.bytes plain aad with
  | some box => .ok (nonce.bytes ++ box)
  | none => .error (.other "artifact.sealBody")

def wrapBase64AsJSONString (raw : Bytes) : Bytes := 34::((Base64.encodeChars raw).map (fun c => c.toNat.toUInt8) ++ [34])

def sealBlock (plain dek header tag : Bytes) (nonce : Nonce) : Except Error Bytes :=
  if plain = [] then .ok [] else sealBody w plain dek nonce (blockAAD header tag)

def sealField (plain dek header tag : Bytes) (nonce : Nonce) : Except Error Bytes := do
  let ct ← sealBlock w plain dek header tag nonce
  return if plain = [] then [] else wrapBase64AsJSONString ct

def encodeSealed (m : Manifest) (dek header : Bytes) (draws : Draws) : Except Error Bytes := do
  let ext ← sealField w m.ext dek header aadTagExt draws.ext
  let usr ← sealField w m.usr dek header aadTagUsr draws.usr
  let inlineBlob ← sealBlock w m.inlineBlob dek header aadTagInline draws.inlineBlob
  marshalBodyJSON w {m with ext := ext, usr := usr, inlineBlob := inlineBlob}

def encodeParanoid (m : Manifest) (dek header : Bytes) (draws : Draws) : Except Error Bytes := do
  sealBody w (← marshalBodyJSON w m) dek draws.body header

def encodeBody (m : Manifest) (crypto : ManifestCrypto) (dek header : Bytes) (draws : Draws) : Except Error Bytes :=
  match crypto with
  | .plain => marshalBodyJSON w m
  | .sealed => encodeSealed w m dek header draws
  | .paranoid => encodeParanoid w m dek header draws

def headerKey (crypto : ManifestCrypto) (keyID : Bytes) : Bytes := if crypto = .plain then [] else keyID

/- Encode and encodeEncrypted, as ComputeManifestDigest dispatches between them. -/
def encode (m : Manifest) (encoding : ManifestEncoding) (crypto : ManifestCrypto) (dek keyID : Bytes) (draws : Draws) :
    Except Error Bytes :=
  if crypto ≠ .plain ∧ dek = [] then .error (.other "artifact.encodeEncrypted: empty dek")
  else do
    checkRefLimits m
    validateSlot m
    let header ← writeHeader w encoding crypto (headerKey crypto keyID)
    return header ++ (← encodeBody w m crypto dek header draws)

def computeManifestDigest (m : Manifest) (hashAlgo : String) (registry : HashRegistry) (encoding : ManifestEncoding)
    (crypto : ManifestCrypto) (dek keyID : Bytes) (draws : Draws) : Except Error (String × Bytes × Manifest) := do
  let m := {m with hashAlgo := hashAlgo}
  let bytesEncoded ← encode w m encoding crypto dek keyID draws
  match registry hashAlgo with
  | none => throw .unsupportedAlgorithm
  | some h => return (h.hex bytesEncoded,bytesEncoded,{m with digest := h.hex bytesEncoded})

def verifyManifestDigest (digest : String) (fileBytes : Bytes) (hashAlgo : String) (registry : HashRegistry) : Except Error Unit :=
  match registry hashAlgo with
  | none => .error .unsupportedAlgorithm
  | some h => if h.hex fileBytes = digest then .ok () else .error .corruptedManifest

end

def wholeSeconds (t : Instant) : Instant := formatTime t * second
def maxNestingDepth : Nat := 10000

/- The laws taken from the standard library: texts are read as they are written, a box opens under its own key, and
json.Marshal takes nothing but space out of a raw message. -/
structure Writer.Lawful (w : Writer) : Prop where
  base64 : ∀ bytes, w.base64 (Base64.encode bytes) = some bytes
  text : ∀ bytes, w.parseText (wrapBase64AsJSONString bytes) = some (Base64.encode bytes)
  string : ∀ bytes, w.compact (wrapBase64AsJSONString bytes) = some (wrapBase64AsJSONString bytes)
  flat : ∀ bytes, w.nesting (wrapBase64AsJSONString bytes) = 0
  absent : w.nesting [] = 0
  solid : ∀ raw, w.compact raw ≠ some []
  nested : ∀ raw text, w.compact raw = some text → w.nesting text = w.nesting raw
  time : ∀ t, w.formatTime t ≠ "" ∧ w.parseTime (w.formatTime t) = if t < year10000 then some (wholeSeconds t) else none
  opens : ∀ {dek nonce plain aad box}, w.sealBox dek nonce plain aad = some box → w.openBox dek nonce box aad = some plain
  tagged : ∀ {dek nonce plain aad box}, w.sealBox dek nonce plain aad = some box → box.length = plain.length + tagLen

def Shallow (w : Writer) (ext usr : Bytes) : Prop := w.nesting ext < maxNestingDepth ∧ w.nesting usr < maxNestingDepth

/- encoding/json reads this body as it wrote it, unless it nests too deep. -/
def Reads (w : Writer) (b : JsonBody) : Prop :=
  (Shallow w b.ext b.usr → w.parseBody (bodyText b) = .ok b) ∧
    (¬ Shallow w b.ext b.usr → ∃ detail, w.parseBody (bodyText b) = .error detail)

section
variable {w : Writer} {m b}
def Dated (m : Manifest) : Prop := (∀ t, m.createdAt = some t → t < year10000) ∧ ∀ t, m.retentionUntil = some t → t < year10000

def WholeTimes (m : Manifest) : Prop :=
  (∀ t, m.createdAt = some t → t % second = 0) ∧ ∀ t, m.retentionUntil = some t → t % second = 0

theorem wholeOf {t} (whole : t % second = 0) : wholeSeconds t = t := by
  rw [wholeSeconds,formatTime,Nat.div_mul_cancel (Nat.dvd_of_mod_eq_zero whole)]

theorem optionalBase64 (lawful : w.Lawful) (message : String) (bytes : Bytes) :
    optional w.base64 [] message (Base64.encode bytes) = .ok bytes := by
  unfold optional
  split
  · next empty => rw [Base64.encodeEmpty.mp empty]
  · rw [lawful.base64]

theorem optionalTime (lawful : w.Lawful) (message : String) (time : Option Instant) :
    optional (fun text => (w.parseTime text).map some) none message (timeText w time) =
      if ∀ t, time = some t → t < year10000 then .ok (time.map wholeSeconds) else .error (.other message) := by
  cases time with
  | none => simp [optional,timeText]
  | some t =>
    obtain ⟨nonempty,parsed⟩ := lawful.time t
    simp only [optional,timeText,if_neg nonempty,parsed,some.injEq,forall_eq',map_some]
    by_cases early : t < year10000
    · simp [early]
    · simp [early]

theorem stagesBack (lawful : w.Lawful) (stages : List PipelineStage) :
    (stages.map stageToJSON).mapM (stageFromJSON w.toLibrary) = .ok stages := by
  induction stages with
  | nil => rfl
  | cons stage rest ih =>
    have back : stageFromJSON w.toLibrary (stageToJSON stage) = .ok stage := by
      simp only [stageFromJSON,stageToJSON,optionalBase64 lawful,bind,Except.bind,pure,Except.pure]
    rw [map_cons,mapM_cons,back,ih]
    rfl

theorem layoutBack (layout : Layout) : layoutOf (Layout.text layout) = layout := by cases layout <;> rfl

def carried (m : Manifest) (ext usr : Bytes) : Manifest :=
  {m with name := "", digest := "", keyID := "", ext := ext, usr := usr, createdAt := m.createdAt.map wholeSeconds
          retentionUntil := m.retentionUntil.map wholeSeconds}

theorem bodyOfOk (ok : bodyOf w m = .ok b) :
    ∃ ext usr, rawMessage w m.ext = .ok ext ∧ rawMessage w m.usr = .ok usr ∧ b = bodyWith w m ext usr := by
  obtain ⟨ext,first,rest⟩ := bindOk.mp ok
  obtain ⟨usr,second,last⟩ := bindOk.mp rest
  exact ⟨ext,usr,first,second,(Except.ok.inj last).symm⟩

variable {ext usr}

theorem unmarshalParsed (lawful : w.Lawful) (parsed : w.parseBody (bodyText (bodyWith w m ext usr)) = .ok (bodyWith w m ext usr)) :
    unmarshalBodyJSON w.toLibrary (bodyText (bodyWith w m ext usr)) =
      if ∀ t, m.createdAt = some t → t < year10000 then
        if ∀ t, m.retentionUntil = some t → t < year10000 then .ok (carried m ext usr)
        else .error (.other "artifact: retention_until")
      else .error (.other "artifact: created_at") := by
  have size : (if m.originalSize = 0 then none else some m.originalSize).getD 0 = m.originalSize := by
    split
    · next zero => rw [zero]; rfl
    · rfl
  have read : parse w.toLibrary (bodyText (bodyWith w m ext usr)) = .ok (bodyWith w m ext usr) := by rw [parse,parsed]; rfl
  rw [unmarshalBodyJSON,read]
  simp only [bodyWith,bind,Except.bind,ne_eq,not_true_eq_false,if_false,pure,Except.pure,stagesBack lawful,
    optionalBase64 lawful,optionalTime lawful,layoutBack,size]
  by_cases created : ∀ t, m.createdAt = some t → t < year10000
  · rw [if_pos created,if_pos created]
    by_cases retained : ∀ t, m.retentionUntil = some t → t < year10000
    · rw [if_pos retained,if_pos retained]
      rfl
    · rw [if_neg retained,if_neg retained]
  · rw [if_neg created,if_neg created]

theorem unmarshalBody (lawful : w.Lawful) (reads : Reads w (bodyWith w m ext usr)) :
    (Shallow w ext usr ∧ Dated m → unmarshalBodyJSON w.toLibrary (bodyText (bodyWith w m ext usr)) = .ok (carried m ext usr)) ∧
      (¬ (Shallow w ext usr ∧ Dated m) → ∃ err, unmarshalBodyJSON w.toLibrary (bodyText (bodyWith w m ext usr)) = .error err) := by
  constructor
  · rintro ⟨shallow,created,retained⟩
    rw [unmarshalParsed lawful (reads.1 shallow),if_pos created,if_pos retained]
  · intro refused
    by_cases shallow : Shallow w ext usr
    · rw [unmarshalParsed lawful (reads.1 shallow)]
      by_cases created : ∀ t, m.createdAt = some t → t < year10000
      · rw [if_pos created,if_neg fun retained => refused ⟨shallow,created,retained⟩]
        exact ⟨_,rfl⟩
      · rw [if_neg created]
        exact ⟨_,rfl⟩
    · obtain ⟨detail,failed⟩ := reads.2 shallow
      exact ⟨.other ("artifact: parse body: " ++ detail),by rw [unmarshalBodyJSON,parse,failed]; rfl⟩

end

section
variable {w encoding crypto keyID header}
def headerSize (crypto : ManifestCrypto) (keyID : Bytes) : Nat := if crypto = .plain then 5 else 6 + keyID.length

theorem flagBack (crypto : ManifestCrypto) : cryptoFromFlag (cryptoFlag crypto) = .ok crypto := by cases crypto <;> rfl

variable (ok : writeHeader w encoding crypto (headerKey crypto keyID) = .ok header)
include ok

theorem headerOk :
    (crypto = .plain ∧ header = magicJSON ++ [cryptoFlag crypto]) ∨
      (crypto ≠ .plain ∧ keyID.length ≤ maxKeyIDLength ∧ w.validText keyID = true ∧
        header = magicJSON ++ [cryptoFlag crypto,keyID.length.toUInt8] ++ keyID) := by
  unfold writeHeader headerKey at ok
  cases encoding with
  | binary => cases ok
  | json =>
    by_cases plain : crypto = .plain
    · subst plain
      simp only [encodingMagic,bind,Except.bind,if_true,ne_eq,not_true_eq_false,if_false,pure,Except.pure] at ok
      exact .inl ⟨rfl,(Except.ok.inj ok).symm⟩
    · simp only [encodingMagic,bind,Except.bind,if_neg plain] at ok
      split at ok
      · cases ok
      next short =>
      split at ok
      · cases ok
      next valid => exact .inr ⟨plain,Nat.not_lt.mp short,by simpa using valid,(Except.ok.inj ok).symm⟩

theorem headerLength : header.length = headerSize crypto keyID := by
  rcases headerOk ok with ⟨plain,rfl⟩ | ⟨secret,_,_,rfl⟩
  · rw [headerSize,if_pos plain]
    rfl
  · rw [headerSize,if_neg secret,length_append]
    simp only [magicJSON,cons_append,nil_append,length_cons,length_nil]

theorem headerBack (body : Bytes) :
    readHeader w.toLibrary (header ++ body) = .ok (⟨crypto,headerKey crypto keyID⟩,header.length) := by
  rcases headerOk ok with ⟨rfl,rfl⟩ | ⟨secret,short,valid,rfl⟩
  · simp [readHeader,magicJSON,magicEncoding,cryptoFlag,cryptoFromFlag,headerKey,bind,Except.bind]
  have length : keyID.length.toUInt8.toNat = keyID.length := by
    rw [UInt8.toNat_ofNat',Nat.mod_eq_of_lt (by unfold maxKeyIDLength at short; omega)]
  simp [readHeader,magicJSON,magicEncoding,flagBack,headerKey,secret,length,valid,bind,Except.bind]
  rw [if_neg (by omega),if_neg (by omega),if_neg (by omega)]
  congr 2
  omega

end

section
variable {w plain dek aad ct nonce candidates}
def Holds (w : Writer) (candidates : List Bytes) (dek : Bytes) : Prop :=
  ∃ before later, candidates = before ++ dek::later ∧
    ∀ other ∈ before, ∀ nonce plain aad box, w.sealBox dek nonce plain aad = some box → w.openBox other nonce box aad = none

theorem sealBodyOk (ok : sealBody w plain dek nonce aad = .ok ct) :
    ∃ box, w.sealBox dek nonce.bytes plain aad = some box ∧ ct = nonce.bytes ++ box := by
  unfold sealBody at ok
  split at ok
  · next box made => exact ⟨box,made,(Except.ok.inj ok).symm⟩
  · cases ok

theorem sealedLength (lawful : w.Lawful) (ok : sealBody w plain dek nonce aad = .ok ct) :
    ct.length = plain.length + (nonceLen + tagLen) := by
  obtain ⟨box,made,rfl⟩ := sealBodyOk ok
  rw [length_append,nonce.long,lawful.tagged made]
  omega

theorem openSealed (lawful : w.Lawful) (ok : sealBody w plain dek nonce aad = .ok ct) (key : Bytes) :
    (openBody w.toLibrary ct key aad).toOption = (w.sealBox dek nonce.bytes plain aad).bind fun box => w.openBox key nonce.bytes box aad := by
  have long := sealedLength lawful ok
  obtain ⟨box,made,rfl⟩ := sealBodyOk ok
  rw [openBody,if_neg (by omega),made,← nonce.long,take_left,drop_left]
  rw [bind_some]
  cases w.openBox key nonce.bytes box aad <;> rfl

theorem decryptSealed (lawful : w.Lawful) (holds : Holds w candidates dek) (ok : sealBody w plain dek nonce aad = .ok ct) :
    tryDecrypt w.toLibrary ct candidates aad = .ok plain := by
  obtain ⟨before,later,rfl,others⟩ := holds
  obtain ⟨box,made,_⟩ := sealBodyOk ok
  have none' : before.findSome? (fun key => (openBody w.toLibrary ct key aad).toOption) = none := by
    rw [List.findSome?_eq_none_iff]
    intro other mem
    rw [openSealed lawful ok,made]
    exact others other mem _ _ _ _ made
  have found : (openBody w.toLibrary ct dek aad).toOption = some plain := by
    rw [openSealed lawful ok,made]
    exact lawful.opens made
  rw [tryDecrypt,List.findSome?_append,none',none_or,List.findSome?_cons,found]

end

end Scrinium.ManifestCodec
