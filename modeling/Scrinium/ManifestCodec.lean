import Scrinium.Config
import Scrinium.CasRead

/-! Decoding a manifest file (package artifact): the header, the JSON body, and the two encrypted forms. -/
namespace Scrinium.ManifestCodec
open Domain Config Trace

structure JsonStage where
  algorithm : String
  hash : String
  iv : String
  keyID : String
  deriving DecidableEq

structure JsonBody where
  ext : Bytes
  inlineBlob : String
  usr : Bytes
  artifactID : String
  blobRefs : List String
  contentHash : String
  createdAt : String
  handleRefs : List String
  hashAlgo : String
  identityNonce : String
  identityMetaHash : String := ""
  blobStorage : String
  originalSize : Option Int
  pipeline : List JsonStage
  retentionUntil : String
  schemaVersion : Int
  sessionID : String
  deriving DecidableEq

/- The standard library for the decoder: parsing of bodies, JSON strings, base64 and times, the check of UTF-8, and
AES-GCM under a key. -/
structure Library where
  parseBody : Bytes → Except String JsonBody
  parseText : Bytes → Option String
  base64 : String → Option Bytes
  parseTime : String → Option Instant
  validText : Bytes → Bool
  openBox : (dek nonce box aad : Bytes) → Option Bytes

abbrev KeyProvider := Option (Bytes → Except Error (List Bytes))

structure FileHeader where
  crypto : ManifestCrypto
  keyID : Bytes
  deriving DecidableEq

def magicJSON : Bytes := [0x00,0x53,0x43,0x31]
def magicBinary : Bytes := [0x00,0x53,0x43,0x32]

def magicEncoding (magic : Bytes) : Except Error ManifestEncoding :=
  if magic = magicJSON then .ok .json
  else if magic = magicBinary then .error (.other "scrinium: unsupported manifest encoding")
  else .error (.other "artifact: unknown magic")

def cryptoFromFlag (flag : UInt8) : Except Error ManifestCrypto :=
  if flag = 0x00 then .ok .plain
  else if flag = 0x01 then .ok .sealed
  else if flag = 0x02 then .ok .paranoid
  else .error (.other "scrinium: unsupported manifest crypto")

def readHeader (lib : Library) (data : Bytes) : Except Error (FileHeader × Nat) :=
  if data.length < 5 then .error (.other "artifact: file too short")
  else do
    let _ ← magicEncoding (data.take 4)
    let crypto ← cryptoFromFlag (data.getD 4 0)
    if crypto = .plain then .ok (⟨crypto,[]⟩,5)
    else if data.length < 6 then .error (.other "artifact: file truncated before KeyID length")
    else
      let keyIDLen := (data.getD 5 0).toNat
      let headerEnd := 6 + keyIDLen
      let keyID := (data.drop 6).take keyIDLen
      if data.length < headerEnd then .error (.other "artifact: file truncated inside KeyID")
      else if lib.validText keyID then .ok (⟨crypto,keyID⟩,headerEnd)
      else .error (.other "artifact: KeyID is not valid UTF-8")

def optional {α : Type} (read : String → Option α) (absent : α) (message text : String) : Except Error α :=
  if text = "" then .ok absent
  else match read text with
    | some value => .ok value
    | none => .error (.other message)

def stageFromJSON (lib : Library) (stage : JsonStage) : Except Error PipelineStage := do
  return ⟨stage.algorithm,stage.hash,← optional lib.base64 [] "artifact: pipeline iv base64" stage.iv,stage.keyID⟩

def layoutOf (text : String) : Layout :=
  if text = "Inline" then .inline else if text = "Target" then .target else .unset

def schemaVersion : Int := 1

def parse (lib : Library) (body : Bytes) : Except Error JsonBody :=
  (lib.parseBody body).mapError fun detail => .other ("artifact: parse body: " ++ detail)

def unmarshalBodyJSON (lib : Library) (body : Bytes) : Except Error Manifest := do
  let b ← parse lib body
  if b.schemaVersion ≠ schemaVersion then throw (.other "scrinium: unsupported schema version")
  let pipeline ← b.pipeline.mapM (stageFromJSON lib)
  let nonce ← optional lib.base64 [] "artifact: identity_nonce base64" b.identityNonce
  let inlineBlob ← optional lib.base64 [] "artifact: inline_blob base64" b.inlineBlob
  let createdAt ← optional (fun text => (lib.parseTime text).map some) none "artifact: created_at" b.createdAt
  let retention ← optional (fun text => (lib.parseTime text).map some) none "artifact: retention_until" b.retentionUntil
  return { artifactID := b.artifactID, name := "", digest := "", identityNonce := nonce, sessionID := b.sessionID
           createdAt := createdAt, contentHash := b.contentHash, originalSize := b.originalSize.getD 0
           hashAlgo := b.hashAlgo, blobRefs := b.blobRefs, handleRefs := b.handleRefs
           layout := layoutOf b.blobStorage, pipeline := pipeline, inlineBlob := inlineBlob
           retentionUntil := retention, ext := b.ext, usr := b.usr, identityMetaHash := b.identityMetaHash }

def nonceLen : Nat := 12
def tagLen : Nat := 16

def openBody (lib : Library) (ciphertext dek aad : Bytes) : Except Error Bytes :=
  if ciphertext.length < nonceLen + tagLen then .error (.other "artifact.openBody: ciphertext too short")
  else match lib.openBox dek (ciphertext.take nonceLen) (ciphertext.drop nonceLen) aad with
    | some plain => .ok plain
    | none => .error (.other "scrinium: decryption failed")

def tryDecrypt (lib : Library) (ciphertext : Bytes) (candidates : List Bytes) (aad : Bytes) : Except Error Bytes :=
  match candidates.findSome? fun dek => (openBody lib ciphertext dek aad).toOption with
  | some plain => .ok plain
  | none => .error (.other "scrinium: decryption failed")

def aadTagExt : Bytes := [0x65,0x78,0x74]
def aadTagUsr : Bytes := [0x75,0x73,0x72]
def aadTagInline : Bytes := [0x69,0x6e,0x6c,0x69,0x6e,0x65,0x5f,0x62,0x6c,0x6f,0x62]
def blockAAD (header tag : Bytes) : Bytes := header ++ [0x00] ++ tag

section
variable (lib : Library) (field : Bytes) (candidates : List Bytes) (header tag : Bytes)
def openSealedField : Except Error Bytes :=
  match lib.parseText field with
  | none => .error .corruptedManifest
  | some encoded =>
    match lib.base64 encoded with
    | none => .error .corruptedManifest
    | some ciphertext => tryDecrypt lib ciphertext candidates (blockAAD header tag)

def openSealedBlock : Except Error Bytes :=
  if field = [] then .ok [] else openSealedField lib field candidates header tag

def openInlineBlob (blob : Bytes) (candidates : List Bytes) (header : Bytes) : Except Error Bytes :=
  if blob = [] then .ok [] else tryDecrypt lib blob candidates (blockAAD header aadTagInline)

def decodeSealed (body : Bytes) (candidates : List Bytes) (header : Bytes) : Except Error Manifest := do
  let m ← unmarshalBodyJSON lib body
  let ext ← openSealedBlock lib m.ext candidates header aadTagExt
  let usr ← openSealedBlock lib m.usr candidates header aadTagUsr
  let inlineBlob ← openInlineBlob lib m.inlineBlob candidates header
  return {m with ext := ext, usr := usr, inlineBlob := inlineBlob}

def decodeParanoid (body : Bytes) (candidates : List Bytes) (header : Bytes) : Except Error Manifest := do
  unmarshalBodyJSON lib (← tryDecrypt lib body candidates header)

def decodeEncryptedBody (crypto : ManifestCrypto) (body : Bytes) (candidates : List Bytes)
    (header : Bytes) : Except Error Manifest :=
  match crypto with
  | .sealed => decodeSealed lib body candidates header
  | .paranoid => decodeParanoid lib body candidates header
  | .plain => .error (.other "scrinium: unsupported manifest crypto")

def decode (data : Bytes) : Except Error Manifest :=
  if Cas.maxManifestSize < data.length then .error .manifestTooLarge
  else do
    let (header,offset) ← readHeader lib data
    if header.crypto ≠ .plain then .error (.other "scrinium: unsupported manifest crypto")
    else unmarshalBodyJSON lib (data.drop offset)

def decodeUnder (keys : KeyProvider) (header : FileHeader) (body headerBytes : Bytes) : Except Error Manifest :=
  if header.crypto = .plain then unmarshalBodyJSON lib body
  else match keys with
    | none => .error (.other "scrinium: key not found")
    | some getKeys => do
      let candidates ← getKeys header.keyID
      if candidates = [] then .error (.other "scrinium: key not found")
      else decodeEncryptedBody lib header.crypto body candidates headerBytes

def decodeEncrypted (keys : KeyProvider) (data : Bytes) : Except Error Manifest :=
  if Cas.maxManifestSize < data.length then .error .manifestTooLarge
  else do
    let (header,offset) ← readHeader lib data
    decodeUnder lib keys header (data.drop offset) (data.take offset)

end

section

def Honest {α : Type} (x : Except Error α) : Prop := x ≠ .error .corruptedManifest

variable {α β : Type} {lib}

theorem honestOther (message : String) : Honest (.error (.other message) : Except Error α) := by
  intro same
  cases same

theorem honestOk (value : α) : Honest (.ok value : Except Error α) := by
  intro same
  cases same

variable {f : α → Except Error β}

theorem honestBind {x} (first : Honest x) (rest : ∀ a, x = .ok a → Honest (f a)) : Honest (x >>= f) := by
  intro failed
  rcases bindError.mp failed with early | ⟨a,ok,late⟩
  · exact first early
  · exact rest a ok late

theorem optionalHonest (read : String → Option α) (absent : α) (message text : String) :
    Honest (optional read absent message text) := by
  unfold optional
  split
  · exact honestOk absent
  · split
    · exact honestOk _
    · exact honestOther message

theorem mapMHonest {items : List α} (each : ∀ a ∈ items, Honest (f a)) : Honest (items.mapM f) := by
  induction items with
  | nil => exact honestOk []
  | cons a rest ih =>
    rw [List.mapM_cons]
    refine honestBind (each a List.mem_cons_self) fun _ _ => honestBind (ih fun b mem => ?_) fun _ _ => honestOk _
    exact each b (List.mem_cons_of_mem a mem)

theorem unmarshalHonest (lib : Library) (body : Bytes) : Honest (unmarshalBodyJSON lib body) := by
  have parsed : Honest (parse lib body) := by
    unfold parse
    cases lib.parseBody body with
    | error detail => exact honestOther _
    | ok b => exact honestOk b
  refine honestBind parsed fun b _ => ?_
  split
  · exact honestOther _
  · refine honestBind (mapMHonest fun stage _ => honestBind (optionalHonest _ _ _ _) fun _ _ => honestOk _) fun _ _ => ?_
    refine honestBind (optionalHonest _ _ _ _) fun _ _ => honestBind (optionalHonest _ _ _ _) fun _ _ => ?_
    exact honestBind (optionalHonest _ _ _ _) fun _ _ => honestBind (optionalHonest _ _ _ _) fun _ _ => honestOk _

theorem tryDecryptHonest (lib : Library) (ciphertext : Bytes) (candidates : List Bytes) (aad : Bytes) :
    Honest (tryDecrypt lib ciphertext candidates aad) := by
  unfold tryDecrypt
  split
  · exact honestOk _
  · exact honestOther _

theorem headerHonest (lib : Library) (data : Bytes) : Honest (readHeader lib data) := by
  unfold readHeader
  split
  · exact honestOther _
  have magic : Honest (magicEncoding (data.take 4)) := by
    unfold magicEncoding
    split
    · exact honestOk _
    · split <;> exact honestOther _
  have flag : Honest (cryptoFromFlag (data.getD 4 0)) := by
    unfold cryptoFromFlag
    split
    · exact honestOk _
    split
    · exact honestOk _
    · split
      · exact honestOk _
      · exact honestOther _
  refine honestBind magic fun _ _ => honestBind flag fun crypto _ => ?_
  split
  · exact honestOk _
  split
  · exact honestOther _
  simp only
  split
  · exact honestOther _
  · split
    · exact honestOk _
    · exact honestOther _

end

section
variable {lib keys data}
def Unwrapped (lib : Library) (field : Bytes) : Prop :=
  lib.parseText field = none ∨ ∃ text, lib.parseText field = some text ∧ lib.base64 text = none

def Opens (lib : Library) (field : Bytes) (candidates : List Bytes) (header tag : Bytes) : Prop :=
  ∃ plain, openSealedBlock lib field candidates header tag = .ok plain

/-- What makes the decoder answer as if the file did not hash to its name: the key provider says so, or a block of a
Sealed body for which there are keys is not a JSON string of base64. -/
inductive Misread (lib : Library) (keys : KeyProvider) (data : Bytes) : Prop where
  | provider {header offset getKeys} (read : readHeader lib data = .ok (header,offset)) (secret : header.crypto ≠ .plain)
      (provided : keys = some getKeys) (refused : getKeys header.keyID = .error .corruptedManifest)
  | ext {header offset getKeys candidates m} (read : readHeader lib data = .ok (header,offset))
      (sealed : header.crypto = .sealed) (provided : keys = some getKeys) (found : getKeys header.keyID = .ok candidates)
      (some' : candidates ≠ []) (body : unmarshalBodyJSON lib (data.drop offset) = .ok m) (present : m.ext ≠ [])
      (bare : Unwrapped lib m.ext)
  | usr {header offset getKeys candidates m} (read : readHeader lib data = .ok (header,offset))
      (sealed : header.crypto = .sealed) (provided : keys = some getKeys) (found : getKeys header.keyID = .ok candidates)
      (some' : candidates ≠ []) (body : unmarshalBodyJSON lib (data.drop offset) = .ok m)
      (opened : Opens lib m.ext candidates (data.take offset) aadTagExt) (present : m.usr ≠ []) (bare : Unwrapped lib m.usr)

variable {candidates header}

theorem sealedBlockCorrupted {field tag} :
    openSealedBlock lib field candidates header tag = .error .corruptedManifest ↔ field ≠ [] ∧ Unwrapped lib field := by
  unfold openSealedBlock openSealedField Unwrapped
  by_cases absent : field = []
  · simp [absent]
  rw [if_neg absent]
  cases parsed : lib.parseText field with
  | none => simp [absent]
  | some text =>
    cases decoded : lib.base64 text with
    | none => simp [absent,decoded]
    | some ciphertext =>
      have honest := tryDecryptHonest lib ciphertext candidates (blockAAD header tag)
      simpa [absent,decoded] using honest.elim

theorem sealedCorrupted {body} :
    decodeSealed lib body candidates header = .error .corruptedManifest ↔
      ∃ m, unmarshalBodyJSON lib body = .ok m ∧ (m.ext ≠ [] ∧ Unwrapped lib m.ext ∨
        Opens lib m.ext candidates header aadTagExt ∧ m.usr ≠ [] ∧ Unwrapped lib m.usr) := by
  have rest : ∀ (m : Manifest) (ext usr : Bytes), Honest (do
      let inlineBlob ← openInlineBlob lib m.inlineBlob candidates header
      return {m with ext := ext, usr := usr, inlineBlob := inlineBlob}) := by
    intro m ext usr
    refine honestBind ?_ fun _ _ => honestOk _
    unfold openInlineBlob
    split
    · exact honestOk _
    · exact tryDecryptHonest lib _ _ _
  unfold decodeSealed
  rw [bindError]
  constructor
  · rintro (early | ⟨m,parsed,late⟩)
    · exact absurd early (unmarshalHonest lib body)
    refine ⟨m,parsed,?_⟩
    rcases bindError.mp late with bare | ⟨ext,opened,late⟩
    · exact .inl (sealedBlockCorrupted.mp bare)
    · rcases bindError.mp late with bare | ⟨usr,_,late⟩
      · exact .inr ⟨⟨ext,opened⟩,sealedBlockCorrupted.mp bare⟩
      · exact absurd late (rest m ext usr)
  · rintro ⟨m,parsed,bare | ⟨⟨ext,opened⟩,bare⟩⟩
    · exact .inr ⟨m,parsed,bindError.mpr (.inl (sealedBlockCorrupted.mpr bare))⟩
    · exact .inr ⟨m,parsed,bindError.mpr (.inr ⟨ext,opened,bindError.mpr (.inl (sealedBlockCorrupted.mpr bare))⟩)⟩

theorem decodeUnderSealed {header getKeys}
    (crypto : header.crypto = .sealed) (found : getKeys header.keyID = .ok candidates) (some' : candidates ≠ [])
    (body headerBytes : Bytes) :
    decodeUnder lib (some getKeys) header body headerBytes = decodeSealed lib body candidates headerBytes := by
  simp only [decodeUnder,crypto,found,bind,Except.bind,if_neg some',decodeEncryptedBody]
  rfl

/-- The decoder claims that the file is a fragment exactly where it is misread. -/
theorem decodeCorrupted : decodeEncrypted lib keys data = .error .corruptedManifest ↔
    data.length ≤ Cas.maxManifestSize ∧ Misread lib keys data := by
  unfold decodeEncrypted
  by_cases large : Cas.maxManifestSize < data.length
  · rw [if_pos large]
    refine ⟨fun same => ?_,fun both => absurd both.1 (Nat.not_le.mpr large)⟩
    cases same
  rw [if_neg large,and_iff_right (Nat.not_lt.mp large),bindError]
  constructor
  · rintro (early | ⟨⟨header,offset⟩,read,late⟩)
    · exact absurd early (headerHonest lib data)
    simp only [decodeUnder] at late
    split at late
    · exact absurd late (unmarshalHonest lib _)
    next secret =>
    split at late
    · cases late
    next getKeys =>
    rcases bindError.mp late with refused | ⟨candidates,found,late⟩
    · exact .provider read secret rfl refused
    split at late
    · cases late
    next some' =>
    cases crypto : header.crypto with
    | plain => exact absurd crypto secret
    | paranoid =>
      rw [crypto,decodeEncryptedBody,decodeParanoid] at late
      exact absurd late (honestBind (tryDecryptHonest lib _ _ _) fun _ _ => unmarshalHonest lib _)
    | sealed =>
      rw [crypto,decodeEncryptedBody] at late
      obtain ⟨m,body,⟨present,bare⟩ | ⟨opened,present,bare⟩⟩ := sealedCorrupted.mp late
      · exact .ext read crypto rfl found some' body present bare
      · exact .usr read crypto rfl found some' body opened present bare
  · intro misread
    refine .inr ?_
    cases misread with
    | provider read secret provided refused =>
      subst provided
      refine ⟨_,read,?_⟩
      simp only [decodeUnder,if_neg secret,refused,bind,Except.bind]
    | ext read crypto provided found some' body present bare =>
      subst provided
      refine ⟨_,read,(decodeUnderSealed crypto found some' _ _).trans ?_⟩
      exact sealedCorrupted.mpr ⟨_,body,.inl ⟨present,bare⟩⟩
    | usr read crypto provided found some' body opened present bare =>
      subst provided
      refine ⟨_,read,(decodeUnderSealed crypto found some' _ _).trans ?_⟩
      exact sealedCorrupted.mpr ⟨_,body,.inr ⟨opened,present,bare⟩⟩

end

end Scrinium.ManifestCodec
