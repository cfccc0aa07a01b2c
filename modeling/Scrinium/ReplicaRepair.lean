import Scrinium.StoreDescriptor

/-! What loading the descriptor makes of a damaged pair of cells. -/
namespace Scrinium.StoreDescriptor
open Keyed Domain LocalFs Pipeline Named Trace
open Cas (maxManifestSize)

def Replica.other : Replica → Replica
  | .l0 => .l1
  | .l1 => .l0

/- Of the JSON and manifest codecs, on the two cells, the descriptors that are written there and the times that are read back. -/
structure Restates (x : Codec) (h : Hasher) : Prop where
  marshals : ∀ {bytes d}, x.parse bytes = .ok d → ∃ data, x.marshalIndent d = .ok data
  parsed : ∀ {d data}, x.marshalIndent d = .ok data → x.parse data = .ok d
  encodes : ∀ (r : Replica) {d data now}, x.marshalIndent d = .ok data → now < year10000 →
    ∃ body, x.encode (inlineManifest h r.name data hashSHA256 now) = .ok body
  decoded : ∀ {r : Replica} {d data now body}, x.marshalIndent d = .ok data → now < year10000 →
    x.encode (inlineManifest h r.name data hashSHA256 now) = .ok body → body.length ≤ maxManifestSize → ∃ m, x.decode body = .ok m ∧ m.layout = .inline ∧ m.contentHash = h.hex data ∧ m.hashAlgo = hashSHA256 ∧ m.inlineBlob = data

section
variable {x} {registry : HashRegistry} {h fs fs' d} {r : Replica} {now : Instant}
def Legible (x : Codec) (fs : Fs) (r : Replica) : Prop :=
  ∃ file m, fs.lookup (cellFile r.name) = some file ∧ file.data.length ≤ maxManifestSize ∧ x.decode file.data = .ok m ∧
    m.layout = .inline

def Fits (x : Codec) (h : Hasher) (r : Replica) (d : Descriptor) (now : Instant) : Prop :=
  ∀ data body, marshal x d = .ok data → x.encode (inlineManifest h r.name data hashSHA256 now) = .ok body →
    body.length ≤ maxManifestSize

theorem verifiedAnswer (m : Manifest) :
    verifyInlinePayload (some registry) m = .ok () ∨ verifyInlinePayload (some registry) m = .error .corruptedContent := by
  unfold verifyInlinePayload
  split
  · exact .inr rfl
  dsimp only
  split
  · exact .inr rfl
  · split
    · exact .inl rfl
    · exact .inr rfl

variable {file : File} {data : Bytes}

theorem loadLegible (registry : HashRegistry) {path m} (found : fs.lookup path = some file)
    (small : file.data.length ≤ maxManifestSize) (decoded : x.decode file.data = .ok m) (inline : m.layout = .inline) :
    load x (some registry) fs path = .ok m ∨ load x (some registry) fs path = .error .corruptedContent := by
  rw [load,found]
  simp only [if_neg (Nat.not_lt.mpr small),decoded,inline,ne_eq,not_true,if_false]
  rcases verifiedAnswer m with ok | corrupted
  · exact .inl (by rw [ok]; rfl)
  · exact .inr (by rw [corrupted]; rfl)

theorem loadIllegible (registry : HashRegistry) (found : fs.lookup (cellFile r.name) = some file) (foreign : ¬ Legible x fs r) :
    ∃ err, load x (some registry) fs (cellFile r.name) = .error (.failed err) := by
  rw [load,found]
  dsimp only
  split
  · exact ⟨_,rfl⟩
  next small =>
  split
  · exact ⟨_,rfl⟩
  next m decoded =>
  split
  · exact ⟨_,rfl⟩
  next inline => exact absurd ⟨file,m,found,Nat.not_lt.mp small,decoded,not_not.mp inline⟩ foreign

theorem readIff (registry : HashRegistry) : (∃ reading, readReplica x (some registry) fs r = .ok reading) ↔
    fs.lookup (cellFile r.name) = none ∨ Legible x fs r := by
  rw [readReplica,loadReplica]
  constructor
  · rintro ⟨reading,ok⟩
    cases found : fs.lookup (cellFile r.name) with
    | none => exact .inl rfl
    | some file =>
      right
      by_contra foreign
      obtain ⟨err,failed⟩ := loadIllegible registry found foreign
      rw [failed] at ok
      cases ok
  · rintro (absent | ⟨file,m,found,small,decoded,inline⟩)
    · rw [loadAbsent.mpr absent]
      exact ⟨_,rfl⟩
    · rcases loadLegible registry found small decoded inline with ok | corrupted
      · rw [ok]
        dsimp only
        split <;> exact ⟨_,rfl⟩
      · rw [corrupted]
        exact ⟨_,rfl⟩

theorem readValid (valid : readReplica x (some registry) fs r = .ok (.valid d)) :
    validate d = .ok () ∧ ∃ bytes, x.parse bytes = .ok d := by
  unfold readReplica at valid
  split at valid
  · cases valid
  · cases valid
  · cases valid
  next m _ =>
  split at valid
  · cases valid
  next d' parsed =>
  cases valid
  obtain ⟨d'',came,rest⟩ := bindOk.mp parsed
  obtain ⟨_,checked,last⟩ := bindOk.mp rest
  cases last
  exact ⟨checked,_,came⟩

theorem marshalOk : marshal x d = .ok data ↔ validate d = .ok () ∧ x.marshalIndent d = .ok data := by
  rw [marshal,bindOk]
  constructor
  · rintro ⟨_,checked,indented⟩
    exact ⟨checked,indented⟩
  · rintro ⟨checked,indented⟩
    exact ⟨(),checked,indented⟩

section
variable (restates : Restates x h) (known : registry hashSHA256 = some h) (dated : now < year10000) (fs : Fs)
include restates known dated

theorem writtenReads {body}
    (marshalled : marshal x d = .ok data) (made : x.encode (inlineManifest h r.name data hashSHA256 now) = .ok body) :
    readReplica x (some registry) (LocalFs.put fs (cellFile r.name) body now) r =
      if body.length ≤ maxManifestSize then .ok (.valid d) else .error (.failed .manifestTooLarge) := by
  obtain ⟨checked,indented⟩ := marshalOk.mp marshalled
  have back : unmarshal x data = .ok d := by
    rw [unmarshal,restates.parsed indented]
    simp only [bind,Except.bind,checked]
    rfl
  have found : (LocalFs.put fs (cellFile r.name) body now).lookup (cellFile r.name) = some ⟨body,now,now⟩ := by
    rw [LocalFs.put,lookupInsert,if_pos rfl]
  rw [readReplica,loadReplica,load,found]
  by_cases small : body.length ≤ maxManifestSize
  · rw [if_pos small]
    obtain ⟨m,decoded,inline,hash,algo,payload⟩ := restates.decoded indented dated made small
    have verified : verifyInlinePayload (some registry) m = .ok () := by
      simp only [verifyInlinePayload,hash,algo,payload,Hasher.hex,HexText.decodeEncode,known,if_true]
    simp only [if_neg (Nat.not_lt.mpr small),decoded,inline,verified,ne_eq,not_true,if_false,bind,Except.bind,pure,
      Except.pure,payload,back]
  · rw [if_neg small]
    simp only [if_pos (Nat.not_le.mp small)]

theorem writeReplicaCellOk (r : Replica) (indented : x.marshalIndent d = .ok data) :
    ∃ body, x.encode (inlineManifest h r.name data hashSHA256 now) = .ok body ∧
      writeReplicaCell x (some registry) r.name data now fs = .ok (LocalFs.put fs (cellFile r.name) body now) := by
  obtain ⟨body,made⟩ := restates.encodes r indented dated
  refine ⟨body,made,?_⟩
  rw [writeReplicaCell,buildInlineManifest]
  simp only [known,made,Except.mapError,bind,Except.bind,writeCell,replicaPath,pure,Except.pure]

theorem writeReplicaOk (r : Replica) (came : ∃ bytes, x.parse bytes = .ok d) (checked : validate d = .ok ()) :
    ∃ data body, marshal x d = .ok data ∧ x.encode (inlineManifest h r.name data hashSHA256 now) = .ok body ∧
      writeReplica x (some registry) d r now fs = .ok (LocalFs.put fs (cellFile r.name) body now) := by
  obtain ⟨bytes,parsed⟩ := came
  obtain ⟨data,indented⟩ := restates.marshals parsed
  obtain ⟨body,made,wrote⟩ := writeReplicaCellOk restates known dated fs r indented
  refine ⟨data,body,marshalOk.mpr ⟨checked,indented⟩,made,?_⟩
  rw [writeReplica,marshalOk.mpr ⟨checked,indented⟩]
  exact wrote

end

theorem cellsApart : cellFile r.other.name ≠ cellFile r.name := by
  cases r
  · exact replicasApart.symm
  · exact replicasApart

def BothHold (x : Codec) (registry : HashRegistry) (fs : Fs) (d : Descriptor) : Prop :=
  ∀ r, readReplica x (some registry) fs r = .ok (.valid d)

theorem reconcileTakes {reading : Reading} (behind : ∀ d', reading = .valid d' → d'.sequence < d.sequence) :
    ∃ action, (match r with | .l0 => reconcile (.valid d) reading | .l1 => reconcile reading (.valid d)) = .ok (d,action) ∧
      ∀ x hashes now fs, healReplicas x hashes d now fs action = writeReplica x hashes d r.other now fs := by
  cases reading with
  | absent => cases r <;> exact ⟨_,rfl,fun _ _ _ _ => rfl⟩
  | corrupted => cases r <;> exact ⟨_,rfl,fun _ _ _ _ => rfl⟩
  | valid d' =>
    have lower := behind d' rfl
    have apart : d ≠ d' := by
      rintro rfl
      omega
    cases r
    · exact ⟨.healBothFromL0,by simp only [reconcile,if_neg apart,if_pos lower],fun _ _ _ _ => rfl⟩
    · refine ⟨.healBothFromL1,?_,fun _ _ _ _ => rfl⟩
      simp only [reconcile,if_neg apart.symm,if_neg (Nat.lt_asymm lower),if_pos lower]

theorem takesOk (valid : readReplica x (some registry) fs r = .ok (.valid d))
    (behind : ∀ d', readReplica x (some registry) fs r.other = .ok (.valid d') → d'.sequence < d.sequence) :
    loadCanonicalDescriptor x (some registry) now fs = .ok (d,fs') ↔
      (∃ reading, readReplica x (some registry) fs r.other = .ok reading) ∧
        writeReplica x (some registry) d r.other now fs = .ok fs' := by
  rw [loadedOk]
  constructor
  · rintro ⟨l0,l1,action,first,second,picked,healed⟩
    have read : ∃ reading, readReplica x (some registry) fs r.other = .ok reading := by
      cases r
      · exact ⟨l1,second⟩
      · exact ⟨l0,first⟩
    refine ⟨read,?_⟩
    obtain ⟨reading,other⟩ := read
    obtain ⟨action',taken,same⟩ := reconcileTakes (r := r) fun d' here => behind d' (other.trans (congrArg Except.ok here))
    cases r
    · cases okSame first valid
      cases okSame second other
      cases okSame picked taken
      exact (same _ _ _ _).symm.trans healed
    · cases okSame second valid
      cases okSame first other
      cases okSame picked taken
      exact (same _ _ _ _).symm.trans healed
  · rintro ⟨⟨reading,other⟩,wrote⟩
    obtain ⟨action,taken,same⟩ := reconcileTakes (r := r) fun d' here => behind d' (other.trans (congrArg Except.ok here))
    cases r
    · exact ⟨_,_,action,valid,other,taken,(same _ _ _ _).trans wrote⟩
    · exact ⟨_,_,action,other,valid,taken,(same _ _ _ _).trans wrote⟩

/-- With one valid replica and none or an older one beside it, loading returns it and leaves it in both cells exactly
when the other cell is absent or an inline manifest and the new manifest is within the limit. -/
theorem oneGoodReplica (restates : Restates x h) (known : registry hashSHA256 = some h)
    (valid : readReplica x (some registry) fs r = .ok (.valid d))
    (behind : ∀ d', readReplica x (some registry) fs r.other = .ok (.valid d') → d'.sequence < d.sequence)
    (dated : now < year10000) :
    (∃ fs', loadCanonicalDescriptor x (some registry) now fs = .ok (d,fs') ∧ BothHold x registry fs' d) ↔
      (fs.lookup (cellFile r.other.name) = none ∨ Legible x fs r.other) ∧ Fits x h r.other d now := by
  obtain ⟨checked,came⟩ := readValid valid
  obtain ⟨data,body,marshalled,made,wrote⟩ := writeReplicaOk restates known dated fs r.other came checked
  have rewritten := writtenReads restates known dated fs marshalled made
  have kept : readReplica x (some registry) (LocalFs.put fs (cellFile r.other.name) body now) r = .ok (.valid d) := by
    refine (readReplicaCongr ?_).trans valid
    rw [LocalFs.put,lookupInsert,if_neg cellsApart.symm]
  rw [← readIff registry]
  constructor
  · rintro ⟨fs',loaded,both⟩
    obtain ⟨read,healed⟩ := (takesOk valid behind).mp loaded
    cases okSame wrote healed
    refine ⟨read,fun data' body' marshalled' made' => ?_⟩
    cases okSame marshalled marshalled'
    cases okSame made made'
    by_contra large
    have holds := both r.other
    rw [rewritten,if_neg large] at holds
    cases holds
  · rintro ⟨read,fits⟩
    refine ⟨_,(takesOk valid behind).mpr ⟨read,wrote⟩,fun side => ?_⟩
    rw [if_pos (fits data body marshalled made)] at rewritten
    cases r <;> cases side
    · exact kept
    · exact rewritten
    · exact rewritten
    · exact kept

end

def sampleHasher : Hasher := ⟨"sha256",fun bytes => 0::0::bytes,Pipeline.paddedLong⟩
def sampleRegistry : HashRegistry := fun algo => if algo = hashSHA256 then some sampleHasher else none
def soundDescriptor : Descriptor := ⟨"s",1,1,[],false,none⟩

def sampleCodec : Codec where
  marshalIndent d := if d = soundDescriptor then .ok [42] else .error (.other "json")
  parse bytes := if bytes = [42] then .ok soundDescriptor else .error (.other "json")
  encode m := .ok (0xaa::m.inlineBlob)
  decode
    | 0xaa::payload => .ok (inlineManifest sampleHasher "" payload hashSHA256 0)
    | _ => .error (.other "artifact: unknown magic")

theorem sampleRestates : Restates sampleCodec sampleHasher := by
  refine ⟨fun {bytes d} parsed => ?_,fun {d data} indented => ?_,fun r {_ _ _} _ _ => ⟨_,rfl⟩,
    fun {_ _ _ _ body} _ _ made _ => ?_⟩
  · simp only [sampleCodec] at parsed
    split at parsed
    · cases parsed
      exact ⟨[42],rfl⟩
    · cases parsed
  · simp only [sampleCodec] at indented
    split at indented
    · next same =>
      cases indented
      rw [same]
      rfl
    · cases indented
  · cases made
    exact ⟨_,rfl,rfl,rfl,rfl,rfl⟩

def besides (bytes : Bytes) : Fs := LocalFs.put (LocalFs.put ∅ (cellFile name) [0xaa,42] 0) (cellFile backupName) bytes 0

theorem foreignReplicaEndsLoad :
    readReplica sampleCodec (some sampleRegistry) (besides [0x53]) .l0 = .ok (.valid soundDescriptor) ∧
      loadCanonicalDescriptor sampleCodec (some sampleRegistry) 7 (besides [0x53]) =
        .error (.halted (.failed (.other "artifact: unknown magic"))) := by
  refine ⟨?_,?_⟩ <;> decide +kernel

theorem damagedReplicaReplaced :
    ∃ fs', loadCanonicalDescriptor sampleCodec (some sampleRegistry) 7 (besides [0xaa,1]) = .ok (soundDescriptor,fs') ∧
      BothHold sampleCodec sampleRegistry fs' soundDescriptor := by
  have valid : readReplica sampleCodec (some sampleRegistry) (besides [0xaa,1]) .l0 = .ok (.valid soundDescriptor) := by
    decide +kernel
  have damaged : readReplica sampleCodec (some sampleRegistry) (besides [0xaa,1]) .l1 = .ok .corrupted := by decide +kernel
  refine (oneGoodReplica sampleRestates rfl valid (fun d' other => ?_) (by decide : 7 < year10000)).mpr ⟨.inr ⟨_,_,rfl,by decide,rfl,rfl⟩,?_⟩
  · cases damaged.symm.trans other
  · intro data body marshalled made
    cases marshalled
    cases made
    decide

end Scrinium.StoreDescriptor
