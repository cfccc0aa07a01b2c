import Scrinium.ManifestEncode

/-! Encoding and decoding of manifest files, put together, in every crypto mode. -/
namespace Scrinium.ManifestCodec
open Domain Config JsonText Trace List
open Pipeline (Hasher)
open StoreDescriptor (HashRegistry)
variable {w m dek keyID header bytes plain draws crypto encoding nonce}

section

inductive Coded (w : Writer) (m : Manifest) (dek header : Bytes) (draws : Draws) : ManifestCrypto → JsonBody → Bytes → Prop where
  | plain {ext usr} (first : rawMessage w m.ext = .ok ext) (second : rawMessage w m.usr = .ok usr) :
      Coded w m dek header draws .plain (bodyWith w m ext usr) (bodyText (bodyWith w m ext usr))
  | paranoid {ext usr ct} (first : rawMessage w m.ext = .ok ext) (second : rawMessage w m.usr = .ok usr)
      (closed : sealBody w (bodyText (bodyWith w m ext usr)) dek draws.body header = .ok ct) :
      Coded w m dek header draws .paranoid (bodyWith w m ext usr) ct
  | sealed {ext usr blob} (first : sealField w m.ext dek header aadTagExt draws.ext = .ok ext)
      (second : sealField w m.usr dek header aadTagUsr draws.usr = .ok usr)
      (third : sealBlock w m.inlineBlob dek header aadTagInline draws.inlineBlob = .ok blob) :
      Coded w m dek header draws .sealed (bodyWith w {m with inlineBlob := blob} ext usr)
        (bodyText (bodyWith w {m with inlineBlob := blob} ext usr))

variable {tag field}

theorem sealFieldOk (ok : sealField w plain dek header tag nonce = .ok field) :
    (plain = [] ∧ field = []) ∨
      ∃ ct, plain ≠ [] ∧ sealBody w plain dek nonce (blockAAD header tag) = .ok ct ∧ field = wrapBase64AsJSONString ct := by
  obtain ⟨ct,closed,last⟩ := bindOk.mp ok
  cases last
  by_cases empty : plain = []
  · exact .inl ⟨empty,if_pos empty⟩
  · rw [sealBlock,if_neg empty] at closed
    exact .inr ⟨ct,empty,closed,if_neg empty⟩

theorem rawSealed (lawful : w.Lawful) (ok : sealField w plain dek header tag nonce = .ok field) :
    rawMessage w field = .ok field ∧ w.nesting field = 0 := by
  rcases sealFieldOk ok with ⟨_,rfl⟩ | ⟨ct,_,_,rfl⟩
  · exact ⟨rfl,lawful.absent⟩
  · refine ⟨?_,lawful.flat ct⟩
    rw [rawMessage,if_neg (by simp [wrapBase64AsJSONString]),lawful.string]

theorem marshalOk {body} (ok : marshalBodyJSON w m = .ok body) :
    ∃ ext usr, rawMessage w m.ext = .ok ext ∧ rawMessage w m.usr = .ok usr ∧ body = bodyText (bodyWith w m ext usr) := by
  obtain ⟨b,made,last⟩ := bindOk.mp ok
  obtain ⟨ext,usr,first,second,rfl⟩ := bodyOfOk made
  exact ⟨ext,usr,first,second,(Except.ok.inj last).symm⟩

theorem encodeOk (lawful : w.Lawful) (ok : encode w m encoding crypto dek keyID draws = .ok bytes) :
    ∃ header b body, writeHeader w encoding crypto (headerKey crypto keyID) = .ok header ∧
      Coded w m dek header draws crypto b body ∧ bytes = header ++ body := by
  unfold encode at ok
  split at ok
  · cases ok
  obtain ⟨_,_,rest⟩ := bindOk.mp ok
  obtain ⟨_,_,rest⟩ := bindOk.mp rest
  obtain ⟨header,opening,rest⟩ := bindOk.mp rest
  obtain ⟨body,coded,last⟩ := bindOk.mp rest
  cases last
  cases crypto with
  | plain =>
    obtain ⟨ext,usr,first,second,rfl⟩ := marshalOk coded
    exact ⟨header,_,_,opening,.plain first second,rfl⟩
  | paranoid =>
    obtain ⟨plain,made,closed⟩ := bindOk.mp coded
    obtain ⟨ext,usr,first,second,rfl⟩ := marshalOk made
    exact ⟨header,_,_,opening,.paranoid first second closed,rfl⟩
  | sealed =>
    obtain ⟨ext,first,rest⟩ := bindOk.mp coded
    obtain ⟨usr,second,rest⟩ := bindOk.mp rest
    obtain ⟨blob,third,made⟩ := bindOk.mp rest
    obtain ⟨ext',usr',sameExt,sameUsr,rfl⟩ := marshalOk made
    cases Except.ok.inj ((rawSealed lawful first).1.symm.trans sameExt)
    cases Except.ok.inj ((rawSealed lawful second).1.symm.trans sameUsr)
    exact ⟨header,_,_,opening,.sealed first second third,rfl⟩

end

variable {body b keys}

section
variable {candidates}
def SameJSON (w : Writer) (written read : Bytes) : Prop := read = written ∨ w.compact written = some read

theorem rawSame {raw text} (lawful : w.Lawful) (ok : rawMessage w raw = .ok text) :
    SameJSON w raw text ∧ w.nesting text = w.nesting raw := by
  unfold rawMessage at ok
  split at ok
  · next empty =>
    cases ok
    exact ⟨.inl empty.symm,by rw [empty]⟩
  split at ok
  · next compacted =>
    cases ok
    exact ⟨.inr compacted,lawful.nested _ _ compacted⟩
  · cases ok

theorem openField {tag field} (lawful : w.Lawful) (holds : Holds w candidates dek)
    (ok : sealField w plain dek header tag nonce = .ok field) :
    openSealedBlock w.toLibrary field candidates header tag = .ok plain := by
  rcases sealFieldOk ok with ⟨rfl,rfl⟩ | ⟨ct,_,closed,rfl⟩
  · rfl
  · rw [openSealedBlock,if_neg (by simp [wrapBase64AsJSONString]),openSealedField,lawful.text]
    simp only [lawful.base64]
    exact decryptSealed lawful holds closed

theorem openBlock {ct} (lawful : w.Lawful) (holds : Holds w candidates dek)
    (ok : sealBlock w plain dek header aadTagInline nonce = .ok ct) :
    openInlineBlob w.toLibrary ct candidates header = .ok plain := by
  unfold sealBlock at ok
  split at ok
  · next empty =>
    cases ok
    rw [empty]
    rfl
  · have long := sealedLength lawful ok
    have nonempty : ct ≠ [] := by
      rintro rfl
      rw [length_nil,nonceLen] at long
      omega
    rw [openInlineBlob,if_neg nonempty]
    exact decryptSealed lawful holds ok

def Flat (w : Writer) (crypto : ManifestCrypto) (m : Manifest) : Prop := crypto = .sealed ∨ Shallow w m.ext m.usr

def Provides (w : Writer) (keys : KeyProvider) (crypto : ManifestCrypto) (dek keyID : Bytes) : Prop :=
  crypto ≠ .plain → ∃ getKeys candidates, keys = some getKeys ∧ getKeys keyID = .ok candidates ∧ Holds w candidates dek

theorem decodeProvided (secret : crypto ≠ .plain) {getKeys}
    (given : keys = some getKeys) (found : getKeys keyID = .ok candidates) (holds : Holds w candidates dek) :
    decodeUnder w.toLibrary keys ⟨crypto,headerKey crypto keyID⟩ body header =
      decodeEncryptedBody w.toLibrary crypto body candidates header := by
  obtain ⟨before,later,rfl,_⟩ := holds
  simp only [decodeUnder,headerKey,if_neg secret,given,found,bind,Except.bind]
  rw [if_neg (by simp)]

theorem decodeCoded (lawful : w.Lawful) (coded : Coded w m dek header draws crypto b body) (reads : Reads w b)
    (provides : Provides w keys crypto dek keyID) :
    (Flat w crypto m ∧ Dated m → ∃ ext usr, SameJSON w m.ext ext ∧ SameJSON w m.usr usr ∧
      decodeUnder w.toLibrary keys ⟨crypto,headerKey crypto keyID⟩ body header = .ok (carried m ext usr)) ∧
    (¬ (Flat w crypto m ∧ Dated m) → ∃ err,
      decodeUnder w.toLibrary keys ⟨crypto,headerKey crypto keyID⟩ body header = .error err) := by
  cases coded with
  | @plain ext usr first second =>
    obtain ⟨sameExt,depthExt⟩ := rawSame lawful first
    obtain ⟨sameUsr,depthUsr⟩ := rawSame lawful second
    have flat : Flat w .plain m ↔ Shallow w ext usr := by simp [Flat,Shallow,depthExt,depthUsr]
    obtain ⟨back,refused⟩ := unmarshalBody lawful reads
    rw [flat]
    exact ⟨fun ok => ⟨ext,usr,sameExt,sameUsr,back ok⟩,refused⟩
  | @paranoid ext usr _ first second closed =>
    obtain ⟨sameExt,depthExt⟩ := rawSame lawful first
    obtain ⟨sameUsr,depthUsr⟩ := rawSame lawful second
    have flat : Flat w .paranoid m ↔ Shallow w ext usr := by simp [Flat,Shallow,depthExt,depthUsr]
    obtain ⟨back,refused⟩ := unmarshalBody lawful reads
    have secret : ManifestCrypto.paranoid ≠ .plain := by decide
    obtain ⟨getKeys,candidates,given,found,holds⟩ := provides secret
    rw [flat,decodeProvided secret given found holds,decodeEncryptedBody,decodeParanoid,decryptSealed lawful holds closed]
    exact ⟨fun ok => ⟨ext,usr,sameExt,sameUsr,back ok⟩,refused⟩
  | @sealed ext usr blob first second third =>
    have shallow : Shallow w ext usr := by
      rw [Shallow,(rawSealed lawful first).2,(rawSealed lawful second).2]
      decide
    have flat : Flat w .sealed m := .inl rfl
    obtain ⟨back,refused⟩ := unmarshalBody lawful reads
    have secret : ManifestCrypto.sealed ≠ .plain := by decide
    obtain ⟨getKeys,candidates,given,found,holds⟩ := provides secret
    rw [decodeProvided secret given found holds,decodeEncryptedBody,decodeSealed]
    constructor
    · rintro ⟨_,dated⟩
      refine ⟨m.ext,m.usr,.inl rfl,.inl rfl,?_⟩
      rw [back ⟨shallow,dated⟩]
      simp only [bind,Except.bind,carried,openField lawful holds first,openField lawful holds second,
        openBlock lawful holds third]
      rfl
    · intro short
      obtain ⟨err,failed⟩ := refused fun both => short ⟨flat,both.2⟩
      exact ⟨err,by rw [failed]; rfl⟩

end

def omitSize (name : String) (empty : Bool) (size : Nat) : List (String × Nat) := if empty then [] else [(name,size)]
def omitTextSize (name text : String) : List (String × Nat) := omitSize name (text = "") (quotedSize text)
def quotedBase64 (size : Nat) : Nat := 2 + Base64.size size
def numberSize (n : Int) : Nat := (toString n).length

def stageSize (stage : PipelineStage) : Nat :=
  objectSize
    ([("algorithm",quotedSize stage.algorithm),("hash",quotedSize stage.hash)] ++
      omitSize "iv" stage.iv.isEmpty (quotedBase64 stage.iv.length) ++ omitTextSize "key_id" stage.keyID)

def sysSize (w : Writer) (m : Manifest) : Nat :=
  objectSize
    (omitTextSize "artifact_id" m.artifactID ++ [("blob_refs",arraySize (m.blobRefs.map quotedSize))] ++
      omitTextSize "content_hash" m.contentHash ++ [("created_at",quotedSize (timeText w m.createdAt))] ++
      omitSize "handle_refs" m.handleRefs.isEmpty (arraySize (m.handleRefs.map quotedSize)) ++
      omitTextSize "hash_algo" m.hashAlgo ++ omitTextSize "identity_meta_hash" m.identityMetaHash ++
      omitSize "identity_nonce" m.identityNonce.isEmpty (quotedBase64 m.identityNonce.length) ++
      [("layout_header",objectSize [("blob_storage",quotedSize (Layout.text m.layout))])] ++
      omitSize "original_size" (m.originalSize = 0) (numberSize m.originalSize) ++
      [("pipeline",arraySize (m.pipeline.map stageSize))] ++ omitTextSize "retention_until" (timeText w m.retentionUntil) ++
      [("schema_version",numberSize schemaVersion),("session_id",quotedSize m.sessionID)])

def boxSize (crypto : ManifestCrypto) (size : Nat) : Nat := if crypto = .sealed then size + (nonceLen + tagLen) else size

section
variable (w : Writer) (crypto : ManifestCrypto)
def blockSize (raw : Bytes) : Nat :=
  if crypto = .sealed then quotedBase64 (raw.length + (nonceLen + tagLen)) else ((w.compact raw).getD []).length

def bodySize (m : Manifest) : Nat :=
  objectSize
    (omitSize "ext" m.ext.isEmpty (blockSize w crypto m.ext) ++
      omitSize "inline_blob" m.inlineBlob.isEmpty (quotedBase64 (boxSize crypto m.inlineBlob.length)) ++ [("sys",sysSize w m)] ++
      omitSize "usr" m.usr.isEmpty (blockSize w crypto m.usr))

def fileSize (keyID : Bytes) (m : Manifest) : Nat :=
  headerSize crypto keyID + bodySize w crypto m + if crypto = .paranoid then nonceLen + tagLen else 0

end

def lengths (fields : List (String × Bytes)) : List (String × Nat) := fields.map fun f => (f.1,f.2.length)

theorem lengthsAppend (a b : List (String × Bytes)) : lengths (a ++ b) = lengths a ++ lengths b := map_append

theorem lengthsOmit (name : String) (empty : Bool) (value : Bytes) :
    lengths (omitEmpty name empty value) = omitSize name empty value.length := by
  cases empty <;> rfl

theorem lengthsText (name text : String) : lengths (omitText name text) = omitTextSize name text := by
  rw [omitText,lengthsOmit,quotedLength]
  rfl

theorem base64Plain {bytes c} (mem : c ∈ Base64.encodeChars bytes) : escapedSize c = 1 := by
  have digits : ∀ n < 64, escapedSize (Base64.digit n) = 1 := by decide
  rcases Base64.encodeAlphabet mem with rfl | ⟨n,small,rfl⟩
  · rfl
  · exact digits n small

theorem base64Quoted (bytes : Bytes) : quotedSize (Base64.encode bytes) = quotedBase64 bytes.length := by
  have ones : (Base64.encodeChars bytes).map escapedSize = List.replicate (Base64.encodeChars bytes).length 1 :=
    eq_replicate_iff.mpr ⟨length_map _,fun n mem => by
      obtain ⟨c,here,rfl⟩ := mem_map.mp mem
      exact base64Plain here⟩
  rw [quotedSize,Base64.encode,String.toList_ofList,ones,sum_replicate_nat,Base64.encodeLength,quotedBase64,
    Nat.mul_one]

theorem lengthsBase64 (name : String) (bytes : Bytes) :
    lengths (omitText name (Base64.encode bytes)) = omitSize name bytes.isEmpty (quotedBase64 bytes.length) := by
  have empty : decide (Base64.encode bytes = "") = bytes.isEmpty := by
    rw [Bool.eq_iff_iff,decide_eq_true_iff,Base64.encodeEmpty,List.isEmpty_iff]
  rw [omitText,lengthsOmit,quotedLength,base64Quoted,empty]

theorem objectOf (fields : List (String × Bytes)) : (object fields).length = objectSize (lengths fields) := objectLength fields

theorem stageLength (stage : PipelineStage) : (stageText (stageToJSON stage)).length = stageSize stage := by
  have fixed : lengths [("algorithm",quoted stage.algorithm),("hash",quoted stage.hash)] =
      [("algorithm",quotedSize stage.algorithm),("hash",quotedSize stage.hash)] := by
    simp only [lengths,map_cons,map_nil,quotedLength]
  simp only [stageToJSON,stageText,objectOf,lengthsAppend,lengthsBase64,fixed]
  rw [lengthsText,stageSize]

theorem quotedAll (texts : List String) : (array (texts.map quoted)).length = arraySize (texts.map quotedSize) := by
  rw [arrayLength,map_map]
  congr 2
  funext text
  exact quotedLength text

theorem stagesAll (stages : List PipelineStage) :
    (array ((stages.map stageToJSON).map stageText)).length = arraySize (stages.map stageSize) := by
  rw [arrayLength,map_map,map_map]
  congr 2
  funext stage
  exact stageLength stage

theorem numberLength (n : Int) : (number n).length = numberSize n := by
  rw [number,length_map,numberSize,String.length_toList]

theorem lengthsOne (name : String) (value : Bytes) : lengths [(name,value)] = [(name,value.length)] := rfl

theorem lengthsTwo (first second : String) (value value' : Bytes) :
    lengths [(first,value),(second,value')] = [(first,value.length),(second,value'.length)] := rfl

theorem sizeOmitted (n : Int) :
    lengths (omitEmpty "original_size" (if n = 0 then none else some n).isNone
      (number ((if n = 0 then none else some n).getD 0))) = omitSize "original_size" (n = 0) (numberSize n) := by
  rw [lengthsOmit,numberLength]
  by_cases zero : n = 0
  · simp [zero,omitSize]
  · simp [zero,omitSize]

theorem sysLength (w : Writer) (m : Manifest) (ext usr : Bytes) : (sysText (bodyWith w m ext usr)).length = sysSize w m := by
  simp only [sysText,bodyWith,objectOf,lengthsAppend,lengthsBase64,sizeOmitted]
  simp only [lengthsText,lengthsOmit,lengthsOne,lengthsTwo,quotedAll,stagesAll,quotedLength,numberLength,objectOf]
  rfl

theorem bodyLength (w : Writer) (m : Manifest) (ext usr : Bytes) :
    (bodyText (bodyWith w m ext usr)).length =
      objectSize
        (omitSize "ext" ext.isEmpty ext.length ++ omitSize "inline_blob" m.inlineBlob.isEmpty (quotedBase64 m.inlineBlob.length) ++
          [("sys",sysSize w m)] ++ omitSize "usr" usr.isEmpty usr.length) := by
  rw [bodyText,objectOf,lengthsAppend,lengthsAppend,lengthsAppend,lengthsOmit,lengthsOmit,lengthsOne,sysLength]
  simp only [bodyWith,lengthsBase64]

theorem rawLength {raw text} (lawful : w.Lawful) (open' : crypto ≠ .sealed) (ok : rawMessage w raw = .ok text) (name : String) :
    omitSize name text.isEmpty text.length = omitSize name raw.isEmpty (blockSize w crypto raw) := by
  unfold rawMessage at ok
  split at ok
  · next empty =>
    cases ok
    simp [empty,omitSize]
  · next present =>
    split at ok
    · next compacted =>
      cases ok
      have solid : text ≠ [] := fun empty => lawful.solid raw (empty ▸ compacted)
      simp [solid,present,omitSize,blockSize,open',compacted]
    · cases ok

theorem fieldLength {tag field} (lawful : w.Lawful) (ok : sealField w plain dek header tag nonce = .ok field)
    (name : String) :
    omitSize name field.isEmpty field.length = omitSize name plain.isEmpty (blockSize w .sealed plain) := by
  rcases sealFieldOk ok with ⟨rfl,rfl⟩ | ⟨ct,present,closed,rfl⟩
  · rfl
  have long : (wrapBase64AsJSONString ct).length = blockSize w .sealed plain := by
    rw [blockSize,if_pos rfl,← sealedLength lawful closed,quotedBase64,← Base64.encodeLength]
    simp only [wrapBase64AsJSONString,length_cons,length_append,length_map,length_nil]
    omega
  have there : wrapBase64AsJSONString ct ≠ [] := by simp [wrapBase64AsJSONString]
  simp [omitSize,there,present,long]

theorem blobLength {ct} (lawful : w.Lawful) (ok : sealBlock w plain dek header aadTagInline nonce = .ok ct) :
    omitSize "inline_blob" ct.isEmpty (quotedBase64 ct.length) =
      omitSize "inline_blob" plain.isEmpty (quotedBase64 (boxSize .sealed plain.length)) := by
  unfold sealBlock at ok
  split at ok
  · next empty =>
    cases ok
    simp [empty,omitSize]
  · next present =>
    have long := sealedLength lawful ok
    have there : ct ≠ [] := by
      rintro rfl
      rw [length_nil,nonceLen] at long
      omega
    simp [omitSize,there,present,long,boxSize]

theorem codedLength (lawful : w.Lawful) (coded : Coded w m dek header draws crypto b body) :
    body.length = bodySize w crypto m + if crypto = .paranoid then nonceLen + tagLen else 0 := by
  cases coded with
  | plain first second =>
    have open' : ManifestCrypto.plain ≠ .sealed := by decide
    rw [bodyLength,rawLength lawful open' first,rawLength lawful open' second]
    rfl
  | paranoid first second closed =>
    have open' : ManifestCrypto.paranoid ≠ .sealed := by decide
    rw [sealedLength lawful closed,bodyLength,rawLength lawful open' first,rawLength lawful open' second]
    rfl
  | sealed first second third =>
    rw [bodyLength,fieldLength lawful first,fieldLength lawful second,blobLength lawful third]
    rfl

theorem fileLength (lawful : w.Lawful) (ok : encode w m encoding crypto dek keyID draws = .ok bytes) :
    bytes.length = fileSize w crypto keyID m := by
  obtain ⟨header,b,body,opening,coded,rfl⟩ := encodeOk lawful ok
  rw [length_append,headerLength opening,codedLength lawful coded,fileSize,Nat.add_assoc]

section
variable {sm hashAlgo digest registry}
def SameManifest (w : Writer) (m d : Manifest) : Prop :=
  d = {m with digest := d.digest, ext := d.ext, usr := d.usr} ∧ SameJSON w m.ext d.ext ∧ SameJSON w m.usr d.usr

structure RoundTrips (w : Writer) (keys : KeyProvider) (registry : HashRegistry) (m : Manifest) (bytes : Bytes) : Prop where
  decoded : ∃ d, decodeEncrypted w.toLibrary keys bytes = .ok d ∧ SameManifest w m d ∧
    d.isUser = m.isUser ∧ d.isSystem = m.isSystem ∧ d.isContainer = m.isContainer
  verifies : verifyManifestDigest m.digest bytes m.hashAlgo registry = .ok ()

/- No system artifact and no key id, times before the year 10000, open blocks that do not nest too deep, and a file within
the limit of the decoder. -/
structure Carries (w : Writer) (crypto : ManifestCrypto) (keyID : Bytes) (m : Manifest) : Prop where
  unnamed : m.name = ""
  unkeyed : m.keyID = ""
  dated : Dated m
  flat : Flat w crypto m
  fits : fileSize w crypto keyID m ≤ Cas.maxManifestSize

theorem carriedWhole (whole : WholeTimes m) (ext usr : Bytes) :
    carried m ext usr = {m with name := "", digest := "", keyID := "", ext := ext, usr := usr} := by
  have times : ∀ time : Option Instant, (∀ t, time = some t → t % second = 0) → time.map wholeSeconds = time := by
    intro time exact
    cases time with
    | none => rfl
    | some t => rw [Option.map_some,wholeOf (exact t rfl)]
  rw [carried,times _ whole.1,times _ whole.2]

theorem decodeFile (lawful : w.Lawful) (ok : encode w m encoding crypto dek keyID draws = .ok bytes)
    (provides : Provides w keys crypto dek keyID) (json : ∀ header b body, Coded w m dek header draws crypto b body → Reads w b) :
    (fileSize w crypto keyID m ≤ Cas.maxManifestSize ∧ Flat w crypto m ∧ Dated m → ∃ ext usr, SameJSON w m.ext ext ∧
      SameJSON w m.usr usr ∧ decodeEncrypted w.toLibrary keys bytes = .ok (carried m ext usr)) ∧
    (¬ (fileSize w crypto keyID m ≤ Cas.maxManifestSize ∧ Flat w crypto m ∧ Dated m) → ∃ err,
      decodeEncrypted w.toLibrary keys bytes = .error err) := by
  have long := fileLength lawful ok
  obtain ⟨header,b,body,opening,coded,rfl⟩ := encodeOk lawful ok
  obtain ⟨back,refused⟩ := decodeCoded lawful coded (json header b body coded) provides
  rw [← long,decodeEncrypted]
  by_cases fits : (header ++ body).length ≤ Cas.maxManifestSize
  · rw [if_neg (Nat.not_lt.mpr fits),headerBack opening]
    simp only [bind,Except.bind,take_left,drop_left]
    exact ⟨fun both => back both.2,fun short => refused fun both => short ⟨fits,both⟩⟩
  · rw [if_pos (Nat.not_le.mp fits)]
    exact ⟨fun both => absurd both.1 fits,fun _ => ⟨_,rfl⟩⟩

theorem digestOk (encoded : computeManifestDigest w m hashAlgo registry encoding crypto dek keyID draws = .ok (digest,bytes,sm)) :
    ∃ h, registry hashAlgo = some h ∧ encode w {m with hashAlgo := hashAlgo} encoding crypto dek keyID draws = .ok bytes ∧
      digest = h.hex bytes ∧ sm = {m with hashAlgo := hashAlgo, digest := h.hex bytes} := by
  obtain ⟨made,ok,rest⟩ := bindOk.mp encoded
  split at rest
  · cases rest
  next h known =>
    cases rest
    exact ⟨h,known,ok,rfl,rfl⟩

/-- A manifest that the encoder accepts comes back from its file exactly when it carries no name and no key id, its times
and its nesting are in range and the file is not larger than the decoder takes. -/
theorem roundTripsIff (lawful : w.Lawful) (whole : WholeTimes m)
    (encoded : computeManifestDigest w m hashAlgo registry encoding crypto dek keyID draws = .ok (digest,bytes,sm))
    (provides : Provides w keys crypto dek keyID)
    (json : ∀ header b body, Coded w {m with hashAlgo := hashAlgo} dek header draws crypto b body → Reads w b) :
    RoundTrips w keys registry sm bytes ↔ Carries w crypto keyID sm := by
  obtain ⟨h,known,ok,_,rfl⟩ := digestOk encoded
  have verifies : verifyManifestDigest (h.hex bytes) bytes hashAlgo registry = .ok () := by
    rw [verifyManifestDigest,known]
    exact if_pos rfl
  obtain ⟨back,refused⟩ := decodeFile lawful ok provides json
  constructor
  · rintro ⟨⟨d,decoded,⟨same,_⟩,_⟩,_⟩
    by_cases all : fileSize w crypto keyID {m with hashAlgo := hashAlgo} ≤ Cas.maxManifestSize ∧
        Flat w crypto {m with hashAlgo := hashAlgo} ∧ Dated {m with hashAlgo := hashAlgo}
    · obtain ⟨ext,usr,_,_,read⟩ := back all
      cases okSame read decoded
      exact ⟨(congrArg Manifest.name same).symm,(congrArg Manifest.keyID same).symm,all.2.2,all.2.1,all.1⟩
    · obtain ⟨err,failed⟩ := refused all
      rw [failed] at decoded
      cases decoded
  · rintro ⟨unnamed,unkeyed,dated,flat,fits⟩
    obtain ⟨ext,usr,sameExt,sameUsr,read⟩ := back ⟨fits,flat,dated⟩
    rw [carriedWhole (m := {m with hashAlgo := hashAlgo}) whole] at read
    have noName : m.name = "" := unnamed
    have noKey : m.keyID = "" := unkeyed
    refine ⟨⟨_,read,⟨?_,sameExt,sameUsr⟩,rfl,?_,?_⟩,verifies⟩
    · simp only [noName,noKey]
    · simp only [Manifest.isSystem,noName]
    · simp only [Manifest.isContainer,noName]

end

def systemManifest : Manifest :=
  { artifactID := "", name := "store.agent", digest := "", identityNonce := [], sessionID := "init", createdAt := some second
    contentHash := "0007", originalSize := 1, hashAlgo := "sha256", blobRefs := [], handleRefs := [], layout := .inline
    pipeline := [], inlineBlob := [7], retentionUntil := none, ext := [], usr := [] }

def userManifest : Manifest :=
  {systemManifest with artifactID := "sha256-00", name := "", identityNonce := [1,2], ext := [49], retentionUntil := some (2 * second)}

def sampleLibrary : Library where
  parseBody _ := .error "unknown document"
  parseText field := some (String.ofList ((field.drop 1).dropLast.map fun b => Char.ofNat b.toNat))
  base64 := Base64.decode
  parseTime text := if text.toList.head? = some 't' then some ((text.toList.length - 1) * second) else none
  validText _ := true
  openBox _ _ box _ := some (box.take (box.length - tagLen))

def sampleForms : Writer :=
  {sampleLibrary with
    compact := fun raw => if raw = [] then none else some raw
    nesting := fun _ => 0
    formatTime := fun t => if t < year10000 then String.ofList ('t'::List.replicate (formatTime t) 's') else "late"
    sealBox := fun _ _ plain _ => some (plain ++ List.replicate tagLen 0)}

def sampleWriting (documents : List JsonBody) : Writer :=
  {sampleForms with
    parseBody := fun bytes => match documents.find? fun b => bodyText b = bytes with
      | some b => .ok b
      | none => .error "unknown document"}

def sampleWriter : Writer := sampleWriting [bodyWith sampleForms systemManifest [] [],bodyWith sampleForms userManifest [49] []]

theorem base64Bytes {bytes c} (mem : c ∈ Base64.encodeChars bytes) : Char.ofNat c.toNat.toUInt8.toNat = c := by
  have digits : ∀ n < 64, Char.ofNat (Base64.digit n).toNat.toUInt8.toNat = Base64.digit n := by decide
  rcases Base64.encodeAlphabet mem with rfl | ⟨n,small,rfl⟩
  · rfl
  · exact digits n small

theorem sampleLawful (documents : List JsonBody) : (sampleWriting documents).Lawful where
  base64 := Base64.decodeEncode
  text bytes := by
    have back : (Base64.encodeChars bytes).map (fun c => Char.ofNat c.toNat.toUInt8.toNat) = Base64.encodeChars bytes :=
      (map_congr_left fun _ mem => base64Bytes mem).trans (map_id _)
    simp only [sampleWriting,sampleForms,sampleLibrary,wrapBase64AsJSONString,drop_succ_cons,drop_zero,
      dropLast_concat,map_map,Function.comp_def,back,Base64.encode]
  string bytes := by simp [sampleWriting,sampleForms,wrapBase64AsJSONString]
  flat _ := rfl
  absent := rfl
  solid raw := by
    by_cases empty : raw = []
    · simp [sampleWriting,sampleForms,empty]
    · simp [sampleWriting,sampleForms,empty]
  nested _ _ _ := rfl
  time t := by
    by_cases early : t < year10000
    · simp [sampleWriting,sampleForms,sampleLibrary,early,wholeSeconds,String.toList_ofList]
    · simp [sampleWriting,sampleForms,sampleLibrary,early]
  opens made := by
    cases made
    simp [sampleWriting,sampleForms,sampleLibrary]
  tagged made := by
    cases made
    rw [length_append,length_replicate]

def sampleHashes : HashRegistry := fun algo => if algo = "sha256" then some ⟨"sha256",fun b => [0,b.length.toUInt8],Pipeline.pairLong⟩ else none
def zeroNonce : Nonce := ⟨List.replicate nonceLen 0,rfl⟩
def zeroDraws : Draws := ⟨zeroNonce,zeroNonce,zeroNonce,zeroNonce⟩

def sampleFile (m : Manifest) : Except Error (String × Bytes × Manifest) :=
  computeManifestDigest sampleWriter m "sha256" sampleHashes .json .plain [] [] zeroDraws

theorem systemManifestLosesName :
    (sampleFile systemManifest).map (fun file => file.2.2.isSystem) = .ok true ∧
      (do let file ← sampleFile systemManifest
          let d ← decodeEncrypted sampleWriter.toLibrary none file.2.1
          return (d.name,d.isSystem,d.isContainer)) = .ok ("",false,true) := by
  decide +kernel

theorem userManifestReturns :
    ∃ file, sampleFile userManifest = .ok file ∧ RoundTrips sampleWriter none sampleHashes file.2.2 file.2.1 := by
  have accepted : (sampleFile userManifest).isOk = true := by decide +kernel
  cases made : sampleFile userManifest with
  | error err =>
    rw [made] at accepted
    cases accepted
  | ok file =>
    obtain ⟨digest,bytes,sm⟩ := file
    obtain ⟨h,_,_,_,rfl⟩ := digestOk made
    refine ⟨_,rfl,(roundTripsIff (sampleLawful _) ?_ made (fun secret => absurd rfl secret) fun header b body coded => ?_).mpr ?_⟩
    · exact ⟨fun t at' => (by cases at'; decide),fun t at' => (by cases at'; decide)⟩
    · cases coded with
      | plain first second =>
        cases first
        cases second
        exact ⟨fun _ => by decide +kernel,fun deep => absurd ⟨by decide,by decide⟩ deep⟩
    · refine ⟨rfl,rfl,⟨fun t at' => ?_,fun t at' => ?_⟩,.inr ?_,?_⟩
      · cases at'
        decide
      · cases at'
        decide
      · change Shallow sampleWriter userManifest.ext userManifest.usr
        exact ⟨by decide,by decide⟩
      · change fileSize sampleWriter .plain [] userManifest ≤ Cas.maxManifestSize
        decide +kernel

end Scrinium.ManifestCodec
