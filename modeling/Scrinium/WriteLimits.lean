import Scrinium.ManifestFiles
import Scrinium.ManifestRoundTrip
import Scrinium.Readback
import Scrinium.SystemNames

/-! What a write accepts, against what a load accepts. -/
namespace Scrinium.WriteLimits
open Keyed Domain Config LocalFs Layout JsonText ManifestCodec Trace StoreDescriptor Named
open SystemStore (NamedArtifact Host State Envelope PutDone)

structure Loadable (w : Writer) (crypto : ManifestCrypto) (keyID : Bytes) (m : Manifest) : Prop where
  fits : fileSize w crypto keyID m ≤ Cas.maxManifestSize
  flat : Flat w crypto m
  dated : Dated m

def JsonReads (w : Writer) (crypto : ManifestCrypto) (dek : Bytes) (draws : Draws) (m : Manifest) : Prop :=
  ∀ header b body, Coded w m dek header draws crypto b body → Reads w b

variable {w crypto dek keyID draws keys m}

section
variable {bytes}
theorem decodesIff (lawful : w.Lawful) (ok : encode w m .json crypto dek keyID draws = .ok bytes)
    (provides : Provides w keys crypto dek keyID) (json : JsonReads w crypto dek draws m) :
    (Loadable w crypto keyID m → ∃ ext usr, decodeEncrypted w.toLibrary keys bytes = .ok (carried m ext usr)) ∧
      (¬ Loadable w crypto keyID m → ∃ err, decodeEncrypted w.toLibrary keys bytes = .error err) := by
  obtain ⟨back,refused⟩ := decodeFile lawful ok provides json
  constructor
  · rintro ⟨fits,flat,dated⟩
    obtain ⟨ext,usr,_,_,read⟩ := back ⟨fits,flat,dated⟩
    exact ⟨ext,usr,read⟩
  · intro short
    exact refused fun both => short ⟨both.1,both.2.1,both.2.2⟩

end

section

structure Codes (e : Cas.Engine) (w : Writer) (keys : KeyProvider) (crypto : ManifestCrypto) (dek keyID : Bytes) (draws : Draws) : Prop where
  encode : e.encodeManifest = fun m => ManifestCodec.encode w m .json crypto dek keyID draws
  decode : e.decodeManifest = decodeEncrypted w.toLibrary keys

variable {e cfg call}

/-- An engine that writes its manifests with this codec has what `Codec` asks. -/
theorem codecOf (lawful : w.Lawful) (provides : Provides w keys crypto dek keyID) (codes : Codes e w keys crypto dek keyID draws)
    (json : ∀ m, JsonReads w crypto dek draws m) (named : ∀ contentHash nonce, e.handleOf contentHash nonce ≠ "") :
    ManifestFiles.Codec e := by
  refine ⟨fun {m raw d} encoded decoded => ?_,named⟩
  rw [codes.encode] at encoded
  rw [codes.decode] at decoded
  obtain ⟨back,refused⟩ := decodesIff lawful encoded provides (json m)
  by_cases ok : Loadable w crypto keyID m
  · obtain ⟨ext,usr,read⟩ := back ok
    exact ⟨ext,usr,okSame decoded read⟩
  · obtain ⟨err,failed⟩ := refused ok
    rw [failed] at decoded
    cases decoded

theorem assembledEncodes {blob raw} (assembled : Cas.assembleManifest e cfg call blob = .ok (m,raw)) :
    e.encodeManifest {m with digest := ""} = .ok raw ∧ m.digest = e.hasher.hex raw := by
  obtain ⟨bytes,coded,last⟩ := bindOk.mp assembled
  cases last
  exact ⟨coded,rfl⟩

/- The manifest that the configuration, the arguments of a Put and the blobs already there come to, before anything is
encoded. -/
def storeManifest (e : Cas.Engine) (cfg : Cas.StoreConfig) (s : Cas.State) (call : Cas.PutCall) : Except Error Manifest := do
  let nonce := if cfg.identityMode = .coalesced then [] else call.nonce
  let m : Manifest :=
    { artifactID := e.handleOf (e.hasher.hex call.payload) nonce, name := "", digest := "", identityNonce := nonce
      sessionID := call.sessionID, createdAt := some call.now, contentHash := e.hasher.hex call.payload
      originalSize := call.payload.length, hashAlgo := e.hasher.name, blobRefs := [], handleRefs := call.parentRefs
      layout := .inline, pipeline := [], inlineBlob := call.payload, retentionUntil := call.retentionUntil
      ext := call.ext, usr := call.usr, identityMetaHash := e.hasher.format Cas.identityMetaCanonEmpty }
  if cfg.inlineMode && call.payload.length ≤ cfg.inlineBlobLimit then return m
  else
    let (output,stages) ← Pipeline.buildPut e.hasher e.registry cfg.pipeline call.payload
    let existing ← Cas.dedupProbe e s.index m.contentHash m.originalSize (e.hasher.hex output) (cryptoIdentityOf stages)
    let ref := existing.getD (e.hasher.hex output)
    return {m with blobRefs := if ref = "" then [] else [ref], layout := .target, pipeline := stages, inlineBlob := []}

theorem materializedManifest {s s' blob raw} (done : Cas.materialize e cfg s call = (s',.ok blob))
    (assembled : Cas.assembleManifest e cfg call blob = .ok (m,raw)) : storeManifest e cfg s call = .ok {m with digest := ""} := by
  obtain ⟨bytes,_,last⟩ := bindOk.mp assembled
  cases last
  unfold Cas.materialize at done
  split at done
  · cases done
  split at done
  · next inline =>
    cases done
    simp only [storeManifest,if_pos inline]
    rfl
  next outside =>
  unfold Cas.streamToTarget at done
  split at done
  · cases done
  next output stages built =>
  simp only [Prod.mk.injEq] at done
  obtain ⟨_,mapped⟩ := done
  generalize committed : Cas.commitBlob e _ _ _ _ _ _ _ = pair at mapped
  obtain ⟨next,outcome⟩ := pair
  rcases Cas.commitBlobCases committed with (⟨_,err,rfl⟩ | ⟨existing,addr,_,rfl,hit,_⟩) | ⟨final,fs,miss,_,_,_,rfl⟩
  · cases mapped
  · cases mapped
    simp only [storeManifest,if_neg outside,built,hit,bind,Except.bind]
    rfl
  · cases mapped
    simp only [storeManifest,if_neg outside,built,miss,bind,Except.bind]
    rfl

theorem putManifest {s s'} (done : Cas.put e cfg s call = (s',.ok m)) : storeManifest e cfg s call = .ok {m with digest := ""} := by
  unfold Cas.put at done
  split at done
  · cases done
  split at done
  · cases done
  next materialized =>
  split at done
  · cases done
  next assembled =>
  split at done
  · cases done
  · cases done
    exact materializedManifest materialized assembled

theorem storeLoads {s s'} (lawful : w.Lawful) (provides : Provides w keys crypto dek keyID)
    (codes : Codes e w keys crypto dek keyID draws) (done : Cas.put e cfg s call = (s',.ok m))
    (json : JsonReads w crypto dek draws {m with digest := ""}) :
    (∃ d, Cas.loadManifestByDigest e s'.fs m.digest = .ok d) ↔ Loadable w crypto keyID {m with digest := ""} := by
  obtain ⟨c⟩ := Cas.putCommitted done
  obtain ⟨coded,digest⟩ := assembledEncodes c.assembled
  rw [codes.encode] at coded
  obtain ⟨back,refused⟩ := decodesIff lawful coded provides json
  have long : c.fileBytes.length = fileSize w crypto keyID m := fileLength lawful coded
  have found : s'.fs.lookup c.path = some ⟨c.fileBytes,call.now,call.now⟩ := by
    rw [c.fs,LocalFs.put,lookupInsert,if_pos rfl]
  have whole : Cas.verifyManifestDigest e m.digest c.fileBytes = .ok () := by
    rw [Cas.verifyManifestDigest,if_pos digest.symm]
  constructor
  · rintro ⟨d,loaded⟩
    by_contra short
    obtain ⟨err,failed⟩ := refused fun ok => short ⟨ok.fits,ok.flat,ok.dated⟩
    obtain ⟨path,here,rest⟩ := bindOk.mp loaded
    cases okSame c.file here
    obtain ⟨raw,read,rest⟩ := bindOk.mp rest
    simp only [Cas.readManifestFile,found] at read
    split at read
    · cases read
    cases read
    obtain ⟨_,_,rest⟩ := bindOk.mp rest
    obtain ⟨d',decoded,_⟩ := bindOk.mp rest
    rw [codes.decode,failed] at decoded
    cases decoded
  · intro ok
    obtain ⟨ext,usr,decoded⟩ := back ⟨ok.fits,ok.flat,ok.dated⟩
    have small : ¬ Cas.maxManifestSize < c.fileBytes.length := by
      rw [long]
      exact Nat.not_lt.mpr ok.fits
    simp only [Cas.loadManifestByDigest,Cas.readManifestFile,c.file,found,if_neg small,whole,codes.decode,decoded,bind,Except.bind]
    exact ⟨_,rfl⟩

end

variable {ε : Type}

def envelopeText (env : Envelope) : Bytes :=
  object
    ([("store_id",quoted env.storeID)] ++ omitText "inline_payload" (Base64.encode env.inlinePayload) ++
      omitText "external_payload_ref" env.externalPayloadRef)

def envelopeSize (env : Envelope) : Nat :=
  objectSize
    ([("store_id",quotedSize env.storeID)] ++
      omitSize "inline_payload" env.inlinePayload.isEmpty (quotedBase64 env.inlinePayload.length) ++
      omitTextSize "external_payload_ref" env.externalPayloadRef)

theorem envelopeLength (env : Envelope) : (envelopeText env).length = envelopeSize env := by
  rw [envelopeText,objectOf,lengthsAppend,lengthsAppend,lengthsOne,lengthsBase64,lengthsText,quotedLength]
  rfl

structure SystemCodes (x : Host) (w : Writer) (keys : KeyProvider) : Prop where
  envelope : x.marshalEnvelope = fun env => .ok (envelopeText env)
  decode : x.codec.decode = decodeEncrypted w.toLibrary keys

theorem systemLoads {x name path env now h fs file body}
    (lawful : w.Lawful) (provides : Provides w keys crypto dek keyID) (codes : SystemCodes x w keys)
    (known : x.hashes x.contentHasher = some h)
    (coded : encode w (inlineManifest h name env x.contentHasher now) .json crypto dek keyID draws = .ok body)
    (json : JsonReads w crypto dek draws (inlineManifest h name env x.contentHasher now))
    (found : fs.lookup path = some file) (same : file.data = body) :
    (∃ d, load x.codec (some x.hashes) fs path = .ok d) ↔
      Loadable w crypto keyID (inlineManifest h name env x.contentHasher now) := by
  obtain ⟨back,refused⟩ := decodesIff lawful coded provides json
  have long := fileLength lawful coded
  unfold load
  rw [found]
  simp only [same,long,codes.decode]
  by_cases ok : Loadable w crypto keyID (inlineManifest h name env x.contentHasher now)
  · obtain ⟨ext,usr,decoded⟩ := back ok
    have whole : verifyInlinePayload (some x.hashes) (carried (inlineManifest h name env x.contentHasher now) ext usr) = .ok () := by
      simp only [verifyInlinePayload,carried,inlineManifest,known,Pipeline.Hasher.hex,HexText.decodeEncode,if_true]
    rw [if_neg (Nat.not_lt.mpr ok.fits),decoded]
    simp only
    rw [if_neg (by simp [carried,inlineManifest]),whole]
    exact ⟨fun _ => ok,fun _ => ⟨_,rfl⟩⟩
  · obtain ⟨err,failed⟩ := refused ok
    refine ⟨?_,fun there => absurd there ok⟩
    rintro ⟨d,loaded⟩
    rw [failed] at loaded
    split at loaded
    · cases loaded
    · cases loaded

def systemManifest (x : Host) (a : NamedArtifact) (payload : Bytes) (h : Pipeline.Hasher) : Manifest :=
  inlineManifest h a.name (envelopeText (a.envelope x payload)) x.contentHasher a.now

structure SystemWrites (w : Writer) (crypto : ManifestCrypto) (dek keyID : Bytes) (draws : Draws) (x : Host) (σ σ' : State ε)
    (a : NamedArtifact) (body payload : Bytes) (h : Pipeline.Hasher) : Prop where
  read : a.externalRef = "" → a.payload = .ok payload
  hashed : x.hashes x.contentHasher = some h
  wrote : PutDone x σ a body σ'
  loads : JsonReads w crypto dek draws (systemManifest x a payload h) → ∀ (fs : Fs) path file, fs.lookup path = some file →
    file.data = body → ((∃ d, load x.codec (some x.hashes) fs path = .ok d) ↔
      Loadable w crypto keyID (systemManifest x a payload h))

/-- A manifest file that a Put has written is taken by its loader exactly when its size is within the limit, its times
are before the year 10000 and its open blocks do not nest too deep. -/
theorem loadsWhatFits {e : Cas.Engine} {x : Host} (lawful : w.Lawful) (provides : Provides w keys crypto dek keyID)
    (codes : Codes e w keys crypto dek keyID draws) (systemCodes : SystemCodes x w keys) :
    (∀ (cfg : Cas.StoreConfig) s call s' m, Cas.put e cfg s call = (s',.ok m) →
      ∃ plan, storeManifest e cfg s call = .ok plan ∧ (JsonReads w crypto dek draws plan →
        ((∃ d, Cas.loadManifestByDigest e s'.fs m.digest = .ok d) ↔ Loadable w crypto keyID plan))) ∧
    (∀ (σ σ' : State ε) a, SystemStore.put x σ a = (σ',.ok ()) →
      a.encode = (fun m => encode w m .json crypto dek keyID draws) →
      ∃ body payload h, SystemWrites w crypto dek keyID draws x σ σ' a body payload h) := by
  refine ⟨fun cfg s call s' m done => ⟨_,putManifest done,storeLoads lawful provides codes done⟩,fun σ σ' a done coder => ?_⟩
  obtain ⟨body,ready,wrote⟩ := SystemStore.putOk done
  obtain ⟨_,payload,env,h,read,wrapped,known,coded,_⟩ := SystemStore.preparedOk ready
  rw [systemCodes.envelope] at wrapped
  cases wrapped
  rw [coder] at coded
  exact ⟨body,payload,h,read,known,wrote,fun json fs path file found same =>
    systemLoads lawful provides systemCodes known coded json found same⟩

section

def plainHost (documents : List JsonBody) : Host where
  codec := { sampleCodec with decode := decodeEncrypted (sampleWriting documents).toLibrary none }
  hashes := sampleHashes
  contentHasher := "sha256"
  storeID := "s"
  marshalEnvelope env := .ok (envelopeText env)
  parseEnvelope _ := .error (.other "json")

def plainCell (documents : List JsonBody) (payload : Bytes) : NamedArtifact :=
  ⟨"a",.ok payload,"",some 0,fun m => encode (sampleWriting documents) m .json .plain [] [] zeroDraws,second⟩

def plainHasher : Pipeline.Hasher := ⟨"sha256",fun b => [0,b.length.toUInt8],Pipeline.pairLong⟩
def cellManifest (payload : Bytes) : Manifest := inlineManifest plainHasher "a" (envelopeText ⟨"s",payload,""⟩) "sha256" second
def cellBody (payload : Bytes) : Bytes := magicJSON ++ [0x00] ++ bodyText (bodyWith sampleForms (cellManifest payload) [] [])

theorem cellEncoded (documents : List JsonBody) (payload : Bytes) :
    encode (sampleWriting documents) (cellManifest payload) .json .plain [] [] zeroDraws = .ok (cellBody payload) := rfl

theorem cellPut (documents : List JsonBody) (payload : Bytes) :
    SystemStore.put (plainHost documents) ⟨∅,()⟩ (plainCell documents payload) =
      (⟨LocalFs.put ∅ (cellFile "a") (cellBody payload) second,()⟩,.ok ()) := by
  have valid : validateName "a" = .ok () := by decide +kernel
  have ready : SystemStore.prepare (plainHost documents) (plainCell documents payload) = .ok (cellBody payload) := by
    have named : validateName (plainCell documents payload).name = .ok () := valid
    rw [SystemStore.prepare,named]
    rfl
  have cell : cellPath (plainCell documents payload).name = .ok (cellFile "a") := by
    have named : validateName (plainCell documents payload).name = .ok () := valid
    rw [cellPath,named]
    rfl
  rw [SystemStore.put,ready]
  simp only [writeCell,cell]
  rfl

variable {payload}

theorem cellLonger (some' : payload ≠ []) : payload.length < (cellBody payload).length := by
  have inner : quotedBase64 payload.length < envelopeSize ⟨"s",payload,""⟩ :=
    memberShorter "inline_payload" (by simp [omitSize,omitTextSize,some'])
  rw [← envelopeLength] at inner
  have outer : quotedBase64 (envelopeText ⟨"s",payload,""⟩).length < bodySize (sampleWriting []) .plain (cellManifest payload) :=
    memberShorter "inline_blob" (by simp [omitSize,cellManifest,inlineManifest,boxSize,envelopeText,object])
  have whole : (cellBody payload).length = fileSize (sampleWriting []) .plain [] (cellManifest payload) :=
    fileLength (sampleLawful []) (cellEncoded [] payload)
  unfold fileSize at whole
  have grows := Base64.sizeGrows payload.length
  have grows' := Base64.sizeGrows (envelopeText ⟨"s",payload,""⟩).length
  unfold quotedBase64 at inner outer
  omega

theorem cellRefused (long : Cas.maxManifestSize ≤ payload.length) :
    load (plainHost []).codec (some (plainHost []).hashes)
      (LocalFs.put ∅ (cellFile "a") (cellBody payload) second) (cellFile "a") = .error (.failed .manifestTooLarge) := by
  have some' : payload ≠ [] := List.ne_nil_of_length_pos (Nat.lt_of_lt_of_le (by decide) long)
  have longer := cellLonger some'
  rw [load,LocalFs.put,lookupInsert,if_pos rfl]
  exact if_pos (Nat.lt_of_le_of_lt long longer)

theorem putTooLarge :
    SystemStore.put (plainHost []) ⟨∅,()⟩ (plainCell [] (List.replicate Cas.maxManifestSize 0)) =
      (⟨LocalFs.put ∅ (cellFile "a") (cellBody (List.replicate Cas.maxManifestSize 0)) second,()⟩,.ok ()) ∧
    load (plainHost []).codec (some (plainHost []).hashes)
      (LocalFs.put ∅ (cellFile "a") (cellBody (List.replicate Cas.maxManifestSize 0)) second) (cellFile "a") =
        .error (.failed .manifestTooLarge) :=
  ⟨cellPut [] _,cellRefused (List.length_replicate).ge⟩

def smallDocuments : List JsonBody := [bodyWith sampleForms (cellManifest [7]) [] []]

def plainEngine : Cas.Engine :=
  {Readback.sampleEngine with
    encodeManifest := fun m => encode (sampleWriting smallDocuments) m .json .plain [] [] zeroDraws
    decodeManifest := decodeEncrypted (sampleWriting smallDocuments).toLibrary none}

theorem smallCellReads (payload : Bytes) (h : Pipeline.Hasher) (read : (Except.ok [7] : Except Error Bytes) = .ok payload)
    (known : sampleHashes "sha256" = some h) :
    systemManifest (plainHost smallDocuments) (plainCell smallDocuments [7]) payload h = cellManifest [7] := by
  cases read
  cases known
  rfl

theorem smallCellLoads : ∃ d,
    load (plainHost smallDocuments).codec (some (plainHost smallDocuments).hashes)
      (LocalFs.put ∅ (cellFile "a") (cellBody [7]) second) (cellFile "a") = .ok d := by
  have provides : Provides (sampleWriting smallDocuments) none .plain [] [] := fun secret => absurd rfl secret
  have codes : Codes plainEngine (sampleWriting smallDocuments) none .plain [] [] zeroDraws := ⟨rfl,rfl⟩
  have systemCodes : SystemCodes (plainHost smallDocuments) (sampleWriting smallDocuments) none := ⟨rfl,rfl⟩
  obtain ⟨body,payload,h,wrote⟩ := (loadsWhatFits (sampleLawful smallDocuments) provides codes systemCodes).2 _ _ _
    (cellPut smallDocuments [7]) rfl
  have same := smallCellReads payload h (wrote.read rfl) wrote.hashed
  have loads := wrote.loads
  rw [same] at loads
  have written : body = cellBody [7] := by
    cases wrote.wrote with
    | version many _ _ _ => exact absurd rfl many
    | cell _ eq =>
      have files := congrArg (fun σ : State Unit => σ.fs.lookup (cellFile "a")) eq
      have names : cellFile (plainCell smallDocuments [7]).name = cellFile "a" := rfl
      simp only [LocalFs.put,lookupInsert,names,if_true,Option.some.injEq,File.mk.injEq] at files
      exact files.1.symm
  refine (loads ?_ _ _ ⟨cellBody [7],second,second⟩ ?_ written.symm).mpr ⟨?_,.inr ⟨by decide,by decide⟩,?_,?_⟩
  · intro header b body coded
    cases coded with
    | plain first second =>
      cases first
      cases second
      exact ⟨fun _ => by decide +kernel,fun deep => absurd ⟨by decide,by decide⟩ deep⟩
  · rw [LocalFs.put,lookupInsert,if_pos rfl]
  · decide +kernel
  · intro t at'
    cases at'
    decide
  · intro t at'
    cases at'

end

end Scrinium.WriteLimits
