import Scrinium.ReplicaRepair
import Scrinium.SystemStore

/-! The system names as a map: a Get answers the last Put, and the walk meets every name once. -/
namespace Scrinium.SystemStore
open List hiding after
open Keyed Domain LocalFs Named Trace Function StoreDescriptor
open Cas (maxManifestSize)
variable {ε : Type}

structure Sound (x : Host) : Prop where
  identified : x.storeID ≠ ""
  parsed : ∀ {env bytes}, x.marshalEnvelope env = .ok bytes → x.parseEnvelope bytes = .ok env

/- The artifact's own manifest is read back, which takes a time the decoder parses. -/
def Encodes (x : Host) (a : NamedArtifact) : Prop :=
  ∀ {h data body}, x.hashes x.contentHasher = some h → a.encode (inlineManifest h a.name data x.contentHasher a.now) = .ok body →
    envelopeBytes x a = .ok data → body.length ≤ maxManifestSize → ∃ m, x.codec.decode body = .ok m ∧ m.layout = .inline ∧
      m.contentHash = h.hex data ∧ m.hashAlgo = x.contentHasher ∧ m.inlineBlob = data

def valueOf (r : Resolver ε) (external : ε) (a : NamedArtifact) : Except Halt Bytes :=
  if a.externalRef ≠ "" then r.openExternal external a.externalRef else a.payload.mapError .failed

def Shows (x : Host) (r : Resolver ε) (σ : State ε) (path : String) (value : Except Halt Bytes) : Prop :=
  ∃ m env, load x.codec (some x.hashes) σ.fs path = .ok m ∧ openEnvelope x m.inlineBlob = .ok env ∧
    value = resolve r σ.external env

variable {x : Host} {a : NamedArtifact} {path value body}

section
variable {r σ'} {σ : State ε}

variable {fs payload}

theorem loadCongr {fs'} (same : fs'.lookup path = fs.lookup path) :
    load x.codec (some x.hashes) fs' path = load x.codec (some x.hashes) fs path := by
  simp only [load,same]

theorem showsCongr (shows : Shows x r σ path value) (same : σ'.fs.lookup path = σ.fs.lookup path)
    (external : σ'.external = σ.external) : Shows x r σ' path value := by
  obtain ⟨m,env,loaded,opened,rfl⟩ := shows
  exact ⟨m,env,(loadCongr same).trans loaded,opened,by rw [external]⟩

theorem showsPresent (shows : Shows x r σ path value) : path ∈ σ.fs := by
  obtain ⟨m,_,loaded,_⟩ := shows
  rw [memLookupSome]
  intro absent
  rw [loadAbsent.mpr absent] at loaded
  cases loaded

def NamedArtifact.envelope (x : Host) (a : NamedArtifact) (payload : Bytes) : Envelope :=
  if a.externalRef ≠ "" then ⟨x.storeID,[],a.externalRef⟩ else ⟨x.storeID,payload,""⟩

theorem preparedOk (ok : prepare x a = .ok body) :
    validateName a.name = .ok () ∧ ∃ payload bytes h, (a.externalRef = "" → a.payload = .ok payload) ∧
      x.marshalEnvelope (a.envelope x payload) = .ok bytes ∧ x.hashes x.contentHasher = some h ∧
      a.encode (inlineManifest h a.name bytes x.contentHasher a.now) = .ok body ∧ envelopeBytes x a = .ok bytes := by
  obtain ⟨_,valid,rest⟩ := bindOk.mp ok
  obtain ⟨bytes,wrapped,built⟩ := bindOk.mp rest
  refine ⟨mapErrorOk.mp valid,?_⟩
  have made : ∃ h, x.hashes x.contentHasher = some h ∧ a.encode (inlineManifest h a.name bytes x.contentHasher a.now) = .ok body := by
    unfold buildInlineManifest at built
    dsimp only at built
    split at built
    · cases built
    next h known => exact ⟨h,known,mapErrorOk.mp built⟩
  obtain ⟨h,known,made⟩ := made
  have enveloped := mapErrorOk.mp wrapped
  have wrapped := enveloped
  unfold envelopeBytes at wrapped
  by_cases pointer : a.externalRef ≠ ""
  · rw [if_pos pointer] at wrapped
    refine ⟨[],bytes,h,fun inline => absurd inline pointer,?_,known,made,enveloped⟩
    rw [NamedArtifact.envelope,if_pos pointer]
    exact wrapped
  · rw [if_neg pointer] at wrapped
    obtain ⟨payload,read,wrapped⟩ := bindOk.mp wrapped
    refine ⟨payload,bytes,h,fun _ => read,?_,known,made,enveloped⟩
    rw [NamedArtifact.envelope,if_neg pointer]
    exact wrapped

theorem envelopeOpens (sound : Sound x) {bytes} (wrapped : x.marshalEnvelope (a.envelope x payload) = .ok bytes) :
    openEnvelope x bytes = .ok (a.envelope x payload) := by
  have owner : (a.envelope x payload).storeID = x.storeID := by
    unfold NamedArtifact.envelope
    split <;> rfl
  unfold openEnvelope
  rw [sound.parsed wrapped]
  simp only [owner,if_neg sound.identified,ne_eq,not_true,and_false,if_false]

theorem envelopeValue (external : ε) (read : a.externalRef = "" → a.payload = .ok payload) :
    resolve r external (a.envelope x payload) = valueOf r external a := by
  unfold resolve valueOf NamedArtifact.envelope
  by_cases pointer : a.externalRef ≠ ""
  · simp only [if_pos pointer]
  · simp only [if_neg pointer,ne_eq,not_true,if_false,read (not_not.mp pointer)]
    rfl

theorem preparedLoads (sound : Sound x) (ok : prepare x a = .ok body) (small : body.length ≤ maxManifestSize)
    (back : ∀ {h data}, x.hashes x.contentHasher = some h → a.encode (inlineManifest h a.name data x.contentHasher a.now) = .ok body →
      envelopeBytes x a = .ok data → ∃ m, x.codec.decode body = .ok m ∧ m.layout = .inline ∧ m.contentHash = h.hex data ∧
        m.hashAlgo = x.contentHasher ∧ m.inlineBlob = data) (found : ∃ now placed, fs.lookup path = some ⟨body,now,placed⟩) :
    ∃ m payload, load x.codec (some x.hashes) fs path = .ok m ∧
      openEnvelope x m.inlineBlob = .ok (a.envelope x payload) ∧ (a.externalRef = "" → a.payload = .ok payload) := by
  obtain ⟨now,placed,found⟩ := found
  obtain ⟨_,payload,bytes,h,read,wrapped,known,made,enveloped⟩ := preparedOk ok
  obtain ⟨m,decoded,inline,hash,algo,blob⟩ := back known made enveloped
  have verified : verifyInlinePayload (some x.hashes) m = .ok () := by
    simp only [verifyInlinePayload,hash,algo,blob,Pipeline.Hasher.hex,HexText.decodeEncode,known,if_true]
  refine ⟨m,payload,?_,?_,read⟩
  · rw [load,found]
    simp only [if_neg (Nat.not_lt.mpr small),decoded,inline,ne_eq,not_true,if_false,verified]
    rfl
  · rw [blob]
    exact envelopeOpens sound wrapped

theorem preparedShows (sound : Sound x) (encodes : Encodes x a) (ok : prepare x a = .ok body) (small : body.length ≤ maxManifestSize)
    (found : ∃ now placed, σ.fs.lookup path = some ⟨body,now,placed⟩) : Shows x r σ path (valueOf r σ.external a) := by
  obtain ⟨m,payload,loaded,opened,read⟩ := preparedLoads sound ok small (fun known made wrapped => encodes known made wrapped small) found
  exact ⟨m,a.envelope x payload,loaded,opened,(envelopeValue σ.external read).symm⟩

end

variable {name}

section
variable {r σ'} {σ : State ε}
def NoVersion (fs : Fs) (name : String) : Prop := ∀ seq < seqLimit, versionFile name seq ∉ fs

inductive Slot (x : Host) (r : Resolver ε) (σ : State ε) (name : String) : Option (Except Halt Bytes) → Prop where
  | free (noCell : cellFile name ∉ σ.fs) (noVersion : NoVersion σ.fs name) : Slot x r σ name none
  | cell {value : Except Halt Bytes} (valid : validateName name = .ok ()) (listed : listedName name = true) (noVersion : NoVersion σ.fs name)
      (shows : Shows x r σ (cellFile name) value) : Slot x r σ name (some value)
  | versions {value : Except Halt Bytes} {top : Nat} (valid : validateName name = .ok ()) (listed : listedName name = true) (noCell : cellFile name ∉ σ.fs)
      (small : top < seqLimit) (last : ∀ seq < seqLimit, versionFile name seq ∈ σ.fs → seq ≤ top)
      (shows : Shows x r σ (versionFile name top) value) : Slot x r σ name (some value)

theorem scanNone (noVersion : NoVersion σ.fs name) : scanSeqs σ.fs name = [] :=
  eq_nil_iff_forall_not_mem.mpr fun seq mem => noVersion seq (scanMem.mp mem).2.1 (scanMem.mp mem).2.2

section
variable (valid : validateName name = .ok ())
include valid
theorem pathOfCell (none' : scanSeqs σ.fs name = []) : activePath σ.fs name = .ok (cellFile name) := by
  rw [activePath,resolveActiveSeq,valid,none']
  simp only [bind,Except.bind,pure,Except.pure,activeSeq,foldl_nil,cellPath,valid]

variable {top m entry}

theorem pathOfTop (mem : top ∈ scanSeqs σ.fs name)
    (bound : ∀ seq ∈ scanSeqs σ.fs name, seq ≤ top) : activePath σ.fs name = .ok (versionFile name top) := by
  rw [activePath,resolveActiveSeq,valid]
  simp only [bind,Except.bind,pure,Except.pure,activeSeqTop ⟨bound,.inl mem⟩ mem,versionPath,valid]

theorem pathOfLast (listed : listedName name = true) (small : top < seqLimit)
    (present : versionFile name top ∈ σ.fs) (last : ∀ seq < seqLimit, versionFile name seq ∈ σ.fs → seq ≤ top) :
    activePath σ.fs name = .ok (versionFile name top) :=
  pathOfTop valid (scanMem.mpr ⟨listed,small,present⟩) fun seq found => last seq (scanMem.mp found).2.1 (scanMem.mp found).2.2

end

theorem loadActiveAt (active : activePath σ.fs name = .ok path)
    (loaded : load x.codec (some x.hashes) σ.fs path = .ok m) : loadActive x σ.fs name = .ok m := by
  rw [loadActive,active]
  exact loaded

theorem envelopeAt {env} (active : activePath σ.fs name = .ok path)
    (loaded : load x.codec (some x.hashes) σ.fs path = .ok m) (opened : openEnvelope x m.inlineBlob = .ok env) :
    loadEnvelope x σ.fs name = .ok env := by
  rw [loadEnvelope,loadActiveAt active loaded]
  show Except.mapError _ (openEnvelope x m.inlineBlob) = _
  rw [opened]
  rfl

theorem getAt (active : activePath σ.fs name = .ok path) (shows : Shows x r σ path value) : get x r σ name = value := by
  obtain ⟨m,env,loaded,opened,rfl⟩ := shows
  rw [get,envelopeAt active loaded opened]
  rfl

theorem slotPath (slot : Slot x r σ name (some value)) : ∃ path, activePath σ.fs name = .ok path ∧ Shows x r σ path value := by
  cases slot with
  | cell valid listed noVersion shows => exact ⟨_,pathOfCell valid (scanNone noVersion),shows⟩
  | versions valid listed noCell small last shows => exact ⟨_,pathOfLast valid listed small (showsPresent shows) last,shows⟩

theorem slotGet (valid : validateName name = .ok ()) (slot : Slot x r σ name entry) :
    get x r σ name = entry.getD (.error .artifactNotFound) := by
  cases entry with
  | some value =>
    obtain ⟨path,active,shows⟩ := slotPath slot
    exact getAt active shows
  | none =>
    cases slot with
    | free noCell noVersion =>
      have absent : σ.fs.lookup (cellFile name) = none := not_not.mp (mt memLookupSome.mpr noCell)
      have missing : loadActive x σ.fs name = .error .artifactNotFound := by
        rw [loadActive,pathOfCell valid (scanNone noVersion)]
        exact loadAbsent.mpr absent
      rw [get,loadEnvelope,missing]
      rfl

structure Untouched (σ σ' : State ε) (name : String) : Prop where
  cell : σ'.fs.lookup (cellFile name) = σ.fs.lookup (cellFile name)
  versions : ∀ seq, σ'.fs.lookup (versionFile name seq) = σ.fs.lookup (versionFile name seq)

theorem slotFrame (same : Untouched σ σ' name)
    (spared : ∀ path value, Shows x r σ path value → activePath σ.fs name = .ok path → σ'.fs.lookup path = σ.fs.lookup path → Shows x r σ' path value)
    (slot : Slot x r σ name entry) : Slot x r σ' name entry := by
  have files : ∀ seq, versionFile name seq ∈ σ'.fs ↔ versionFile name seq ∈ σ.fs := by
    intro seq
    rw [memLookupSome,memLookupSome,same.versions seq]
  have cells : cellFile name ∈ σ'.fs ↔ cellFile name ∈ σ.fs := by rw [memLookupSome,memLookupSome,same.cell]
  cases slot with
  | free noCell noVersion =>
    exact .free (fun mem => noCell (cells.mp mem)) fun seq small mem => noVersion seq small ((files seq).mp mem)
  | cell valid listed noVersion shows =>
    exact .cell valid listed (fun seq small mem => noVersion seq small ((files seq).mp mem))
      (spared _ _ shows (pathOfCell valid (scanNone noVersion)) same.cell)
  | @versions value top valid listed noCell small last shows =>
    exact .versions valid listed (fun mem => noCell (cells.mp mem)) small (fun seq small' mem => last seq small' ((files seq).mp mem))
      (spared _ _ shows (pathOfLast valid listed small (showsPresent shows) last) (same.versions top))

end

section
variable {r σ} {σ' : State ε}

/- A Put that gets as far as writing has a name the walk finds and a manifest within the limit; a cell is written only
where there is no version, and a version only where there is no cell and a seq left. -/
def PutGuard (x : Host) (fs : Fs) (a : NamedArtifact) : Prop :=
  ∀ body, prepare x a = .ok body → listedName a.name = true ∧ body.length ≤ maxManifestSize ∧
    (if a.keeps = 0 then NoVersion fs a.name
      else cellFile a.name ∉ fs ∧ ∀ seq < seqLimit, versionFile a.name seq ∈ fs → seq + 1 < seqLimit)

theorem putFailed {halt} (failed : put x σ a = (σ',.error halt)) : σ' = σ := by
  unfold put at failed
  split at failed
  · exact (Prod.mk.inj failed).1.symm
  split at failed
  · split at failed
    · exact (Prod.mk.inj failed).1.symm
    · cases failed
  · split at failed
    · exact (Prod.mk.inj failed).1.symm
    · cases failed

inductive PutDone (x : Host) (σ : State ε) (a : NamedArtifact) (body : Bytes) (σ' : State ε) : Prop where
  | cell (single : a.keeps = 0) (wrote : σ' = {σ with fs := LocalFs.put σ.fs (cellFile a.name) body a.now})
  | version {next : Nat} (many : a.keeps ≠ 0) (chosen : claimTarget σ.fs a.name = .ok next) (fresh : versionFile a.name next ∉ σ.fs)
      (wrote : σ' = {σ with fs := prune (LocalFs.put σ.fs (versionFile a.name next) body a.now) a.name a.keeps})

theorem putOk (done : put x σ a = (σ',.ok ())) : ∃ body, prepare x a = .ok body ∧ PutDone x σ a body σ' := by
  unfold put at done
  split at done
  · cases done
  next body ready =>
  refine ⟨body,ready,?_⟩
  obtain ⟨valid,_⟩ := preparedOk ready
  split at done
  · next single =>
    have wrote : writeCell σ.fs a.name body a.now = .ok (LocalFs.put σ.fs (cellFile a.name) body a.now) := by
      rw [writeCell,cellPath,valid]
      rfl
    rw [wrote] at done
    exact .cell single (Prod.mk.inj done).1.symm
  · next many =>
    split at done
    · cases done
    next fs claimed =>
      obtain ⟨next,chosen,fresh,rfl⟩ := claimOk claimed
      exact .version many chosen fresh (Prod.mk.inj done).1.symm

theorem putUntouched (done : PutDone x σ a body σ') (other : name ≠ a.name) : Untouched σ σ' name := by
  cases done with
  | cell single wrote =>
    subst wrote
    refine ⟨?_,fun seq => ?_⟩
    · rw [LocalFs.put,lookupInsert,if_neg fun same => other (cellFileName same)]
    · rw [LocalFs.put,lookupInsert,if_neg fun same => cellNotVersion _ _ _ same.symm]
  | @version next many chosen fresh wrote =>
    subst wrote
    refine ⟨?_,fun seq => ?_⟩
    · rw [lookupPruned _ _ fun old same => absurd same (cellNotVersion _ _ _),LocalFs.put,lookupInsert,
        if_neg (cellNotVersion _ _ _)]
    · rw [lookupPruned _ _ fun old same => absurd (versionFileName same) other,LocalFs.put,lookupInsert,
        if_neg fun same => other (versionFileName same)]

theorem putExternal (done : PutDone x σ a body σ') : σ'.external = σ.external := by
  cases done with
  | cell _ wrote => rw [wrote]
  | version _ _ _ wrote => rw [wrote]

theorem claimedLast {fs next} (keep : Nat) (body : Bytes) (now : Instant) (chosen : claimTarget fs name = .ok next) (listed : listedName name = true)
    (space : ∀ seq ∈ scanSeqs fs name, seq + 1 < seqLimit) :
    next < seqLimit ∧ (prune (LocalFs.put fs (versionFile name next) body now) name keep).lookup (versionFile name next) = some ⟨body,now,now⟩ ∧
      ∀ seq < seqLimit, versionFile name seq ∈ prune (LocalFs.put fs (versionFile name next) body now) name keep → seq ≤ next := by
  obtain ⟨top,isTop⟩ := topExists fs name
  obtain ⟨_,rfl⟩ := claimTargetOk chosen isTop
  have below : top + 1 < seqLimit := by
    rcases isTop.attained with mem | ⟨rfl,_⟩
    · exact space top mem
    · decide
  have last : ∀ seq < seqLimit, versionFile name seq ∈ LocalFs.put fs (versionFile name (top + 1)) body now → seq ≤ top + 1 := by
    intro seq small mem
    rcases (AList.mem_insert _).mp mem with same | old
    · exact Nat.le_of_eq (versionFileInjective small below same)
    · exact Nat.le_succ_of_le (isTop.bound seq (scanMem.mpr ⟨listed,small,old⟩))
  refine ⟨below,?_,fun seq small mem => last seq small (memPruned mem)⟩
  rw [lookupPruned,LocalFs.put,lookupInsert,if_pos rfl]
  intro old same newest mem
  obtain ⟨_,small,present⟩ := scanMem.mp mem
  have highest := last newest small present
  rcases Nat.lt_or_ge old seqLimit with little | large
  · exact versionFileInjective below little same ▸ highest
  · exact Nat.le_of_lt (Nat.lt_of_lt_of_le small large)

theorem slotPut (sound : Sound x) (encodes : Encodes x a) (ready : prepare x a = .ok body) (guard : PutGuard x σ.fs a)
    (done : PutDone x σ a body σ') :
    Slot x r σ' a.name (some (valueOf r σ.external a)) := by
  obtain ⟨valid,_⟩ := preparedOk ready
  obtain ⟨listed,small,room⟩ := guard body ready
  cases done with
  | cell single wrote =>
    rw [if_pos single] at room
    subst wrote
    refine .cell valid listed (fun seq below mem => ?_) (preparedShows sound encodes ready small ⟨a.now,a.now,?_⟩)
    · exact room seq below ((AList.mem_insert _).mp mem |>.resolve_left fun same => cellNotVersion _ _ _ same.symm)
    · rw [LocalFs.put,lookupInsert,if_pos rfl]
  | @version next many chosen fresh wrote =>
    rw [if_neg many] at room
    obtain ⟨noCell,space⟩ := room
    obtain ⟨below,found,last⟩ :=
      claimedLast a.keeps body a.now chosen listed fun seq mem => space seq (scanMem.mp mem).2.1 (scanMem.mp mem).2.2
    subst wrote
    refine .versions valid listed (fun mem => ?_) below last (preparedShows sound encodes ready small ⟨a.now,a.now,found⟩)
    exact noCell ((AList.mem_insert _).mp (memPruned mem) |>.resolve_left (cellNotVersion _ _ _))

end

section
variable {r σ'} {σ : State ε}
/- What is asked of a resolver, on the states it stays in: to delete a reference changes what no other one opens to, and
to fail at it not even what this one does. -/
structure Confined (r : Resolver ε) (good : ε → Prop) : Prop where
  kept : ∀ {external} ref, good external → good (r.deleteExternal external ref).1
  apart : ∀ {external ref other}, good external → other ≠ ref →
    r.openExternal (r.deleteExternal external ref).1 other = r.openExternal external other
  refused : ∀ {external ref}, good external → (r.deleteExternal external ref).2 ≠ .ok () →
    r.openExternal (r.deleteExternal external ref).1 ref = r.openExternal external ref

/- The name points to nothing that another name points to. -/
def DeleteGuard (x : Host) (fs : Fs) (name : String) : Prop :=
  ∀ own other env, loadEnvelope x fs name = .ok own → own.externalPayloadRef ≠ "" → other ≠ name →
    loadEnvelope x fs other = .ok env → env.externalPayloadRef ≠ own.externalPayloadRef

variable {good : ε → Prop}

theorem cascadeKept (confined : Confined r good) (sane : good σ.external) : good (cascade x r σ name).1 := by
  unfold cascade
  split
  · exact sane
  · split
    · exact confined.kept _ sane
    · exact sane

theorem cascadeSpares {other env} (confined : Confined r good) (sane : good σ.external) (guard : DeleteGuard x σ.fs name)
    (cond : other ≠ name ∨ (cascade x r σ name).2 ≠ .ok ()) (loaded : loadEnvelope x σ.fs other = .ok env) :
    resolve r (cascade x r σ name).1 env = resolve r σ.external env := by
  unfold cascade at cond ⊢
  cases own : loadEnvelope x σ.fs name with
  | error halt => rfl
  | ok mine =>
    simp only [own] at cond ⊢
    by_cases points : mine.externalPayloadRef ≠ ""
    · simp only [if_pos points] at cond ⊢
      unfold resolve
      split
      · by_cases shared : env.externalPayloadRef = mine.externalPayloadRef
        · have same : other = name := by
            by_contra apart
            exact guard mine other env own points apart loaded shared
          rw [shared]
          exact confined.refused sane (cond.resolve_left (not_not.mpr same))
        · exact confined.apart sane shared
      · rfl
    · simp only [if_neg points]

theorem deleteFailed {halt} (failed : delete x r σ name = (σ',.error halt)) :
    σ'.fs = σ.fs ∧ σ'.external = (cascade x r σ name).1 ∧ (validateName name = .ok () → (cascade x r σ name).2 ≠ .ok ()) := by
  unfold delete at failed
  split at failed
  · next taken =>
    obtain ⟨rfl,_⟩ := Prod.mk.inj failed
    exact ⟨rfl,by rw [taken],fun _ => by rw [taken]; simp⟩
  · next taken =>
    split at failed
    · next stopped =>
      obtain ⟨rfl,_⟩ := Prod.mk.inj failed
      refine ⟨rfl,by rw [taken],fun valid => ?_⟩
      simp only [removeAll,listVersions,removeCell,cellPath,valid,bind,Except.bind,pure,Except.pure] at stopped
      cases stopped
    · cases failed

variable {other}

theorem activeValid (active : activePath σ.fs name = .ok path) : validateName name = .ok () := by
  obtain ⟨_,resolved,_⟩ := bindOk.mp active
  obtain ⟨_,valid,_⟩ := bindOk.mp resolved
  exact valid

theorem deleteOk (done : delete x r σ name = (σ',.ok ())) :
    σ'.external = (cascade x r σ name).1 ∧ ∀ path, σ'.fs.lookup path =
      if path = cellFile name ∨ ∃ seq ∈ scanSeqs σ.fs name, path = versionFile name seq then none else σ.fs.lookup path := by
  unfold delete at done
  split at done
  · cases done
  next external taken =>
  split at done
  · cases done
  next fs removed =>
  obtain ⟨rfl,_⟩ := Prod.mk.inj done
  refine ⟨by rw [taken],fun path => ?_⟩
  obtain ⟨middle,all,rest⟩ := bindOk.mp removed
  obtain ⟨_,versions⟩ := removedAll all
  obtain ⟨cell,named,last⟩ := bindOk.mp rest
  cases cellPathOk named
  cases last
  rw [remove,lookupErase,versions path]
  by_cases single : path = cellFile name
  · simp [single]
  · simp [single]

theorem deleteUntouched (done : delete x r σ name = (σ',.ok ())) (apart : other ≠ name) : Untouched σ σ' other := by
  obtain ⟨_,files⟩ := deleteOk done
  refine ⟨?_,fun seq => ?_⟩
  · rw [files,if_neg]
    rintro (cell | ⟨seq,_,version⟩)
    · exact apart (cellFileName cell)
    · exact cellNotVersion _ _ _ version
  · rw [files,if_neg]
    rintro (cell | ⟨seq,_,version⟩)
    · exact cellNotVersion _ _ _ cell.symm
    · exact apart (versionFileName version)

theorem showsSpared {value} (confined : Confined r good) (sane : good σ.external) (guard : DeleteGuard x σ.fs name)
    (cond : other ≠ name ∨ (cascade x r σ name).2 ≠ .ok ()) (external : σ'.external = (cascade x r σ name).1)
    (shows : Shows x r σ path value) (active : activePath σ.fs other = .ok path) (same : σ'.fs.lookup path = σ.fs.lookup path) :
    Shows x r σ' path value := by
  obtain ⟨m,env,loaded,opened,rfl⟩ := shows
  exact ⟨m,env,(loadCongr same).trans loaded,opened,by
    rw [external,cascadeSpares confined sane guard cond (envelopeAt active loaded opened)]⟩

theorem slotDeleted {entry} (slot : Slot x r σ name entry) (done : delete x r σ name = (σ',.ok ())) :
    Slot x r σ' name none := by
  obtain ⟨_,files⟩ := deleteOk done
  refine .free (fun mem => ?_) (fun seq small mem => ?_)
  · rw [memLookupSome,files,if_pos (.inl rfl)] at mem
    exact mem rfl
  rw [memLookupSome,files] at mem
  split at mem
  · exact mem rfl
  next kept =>
  have there : versionFile name seq ∈ σ.fs := memLookupSome.mpr mem
  -- A name that is there is one the walk finds, so its versions were among those removed.
  cases slot with
  | free noCell noVersion => exact noVersion seq small there
  | cell valid listed noVersion shows => exact noVersion seq small there
  | versions valid listed noCell small' last shows =>
    exact kept (.inr ⟨seq,scanMem.mpr ⟨listed,small,there⟩,rfl⟩)

end

section
variable {r}
inductive Op where
  | put (a : NamedArtifact)
  | delete (name : String)

/- The store, and the map it stands for: for each name what its last Put said, if it was not deleted since. -/
structure Book (ε : Type) where
  state : State ε
  names : String → Option (Except Halt Bytes)

section
variable (x : Host) (r : Resolver ε) (b : Book ε)
def step : Op → Book ε
  | .put a =>
    match put x b.state a with
    | (σ,.ok ()) => ⟨σ,update b.names a.name (some (valueOf r b.state.external a))⟩
    | (σ,.error _) => ⟨σ,b.names⟩
  | .delete name =>
    match delete x r b.state name with
    | (σ,.ok ()) => ⟨σ,update b.names name none⟩
    | (σ,.error _) => ⟨σ,b.names⟩

def Guarded : Op → Prop
  | .put a => PutGuard x b.state.fs a
  | .delete name => DeleteGuard x b.state.fs name

def Kept : Prop := ∀ name, Slot x r b.state name (b.names name)

end

variable {b : Book ε}

theorem keptPut {a} (sound : Sound x) (encodes : Encodes x a) (kept : Kept x r b)
    (guard : PutGuard x b.state.fs a) : Kept x r (step x r b (.put a)) := by
  rw [step]
  rcases outcome : put x b.state a with ⟨σ,result⟩
  cases result with
  | error halt =>
    cases putFailed outcome
    exact kept
  | ok =>
    obtain ⟨body,ready,done⟩ := putOk outcome
    intro name
    by_cases same : name = a.name
    · subst same
      simp only [update_self]
      exact slotPut sound encodes ready guard done
    · simp only [update_of_ne same]
      refine slotFrame (putUntouched done same) (fun path value shows _ unchanged => ?_) (kept name)
      exact showsCongr shows unchanged (putExternal done)

theorem keptDelete {name} {good : ε → Prop} (confined : Confined r good) (sane : good b.state.external) (kept : Kept x r b)
    (guard : DeleteGuard x b.state.fs name) : Kept x r (step x r b (.delete name)) := by
  rw [step]
  rcases outcome : delete x r b.state name with ⟨σ,result⟩
  cases result with
  | error halt =>
    obtain ⟨files,external,refused⟩ := deleteFailed outcome
    intro other
    have same : Untouched b.state σ other := ⟨by rw [files],fun seq => by rw [files]⟩
    refine slotFrame same (fun path value shows active unchanged => ?_) (kept other)
    refine showsSpared confined sane guard ?_ external shows active unchanged
    by_cases named : other = name
    · exact .inr (refused (named ▸ activeValid active))
    · exact .inl named
  | ok =>
    obtain ⟨external,_⟩ := deleteOk outcome
    intro other
    by_cases same : other = name
    · subst same
      simp only [update_self]
      exact slotDeleted (kept other) outcome
    · simp only [update_of_ne same]
      refine slotFrame (deleteUntouched outcome same) (fun path value shows active unchanged => ?_) (kept other)
      exact showsSpared confined sane guard (.inl same) external shows active unchanged

theorem saneStep {good : ε → Prop} (confined : Confined r good) (sane : good b.state.external) (op : Op) :
    good (step x r b op).state.external := by
  cases op with
  | put a =>
    rw [step]
    rcases outcome : put x b.state a with ⟨σ,_ | _⟩
    · cases putFailed outcome
      exact sane
    · obtain ⟨_,_,done⟩ := putOk outcome
      exact putExternal done ▸ sane
  | delete name =>
    rw [step]
    rcases outcome : delete x r b.state name with ⟨σ,_ | _⟩
    · exact (deleteFailed outcome).2.1 ▸ cascadeKept confined sane
    · exact (deleteOk outcome).1 ▸ cascadeKept confined sane

theorem keptRun {ops} {good : ε → Prop} (sound : Sound x) (encodes : ∀ a, .put a ∈ ops → Encodes x a) (confined : Confined r good)
    (sane : good b.state.external) (kept : Kept x r b) (guarded : Along (step x r) (Guarded x) b ops) :
    Kept x r (after (step x r) b ops) := by
  have written : Along (step x r) (fun _ op => ∀ a, op = .put a → Encodes x a) b ops :=
    alongOfMem fun op mem a same => encodes a (same ▸ mem)
  have keep : ∀ b op, Kept x r b ∧ good b.state.external → Guarded x b op ∧ (∀ a, op = .put a → Encodes x a) →
      Kept x r (step x r b op) ∧ good (step x r b op).state.external := by
    rintro b op ⟨kept,sane⟩ ⟨guard,written⟩
    refine ⟨?_,saneStep confined sane op⟩
    cases op with
    | put a => exact keptPut sound (written a rfl) kept guard
    | delete name => exact keptDelete confined sane kept guard
  exact (invariantAfter keep ⟨kept,sane⟩ (alongAnd.mpr ⟨guarded,written⟩)).1

end

section
variable {r} {b : Book ε} {pfx}
def Clear (fs : Fs) (pfx : String) : Prop :=
  ∀ name leaf, '.' ∉ leaf.toList → fullPfx name ++ leaf ∈ fs → continues pfx (fullPfx name ++ leaf) = true → pfx.toList <+: name.toList

theorem continuesName (leaf : String) (front : pfx.toList <+: name.toList) :
    continues pfx (fullPfx name ++ leaf) = true := by
  obtain ⟨rest,joined⟩ := front
  rw [continues, isPrefixOf_iff_prefix]
  refine ⟨rest ++ '.'::leaf.toList,?_⟩
  simp [fullPfx,← joined]

def met (fs : Fs) (pfx : String) : List Active := (listActive fs pfx ++ listCells fs pfx).insertionSort byName

theorem metActive (kept : Kept x r b) (clear : Clear b.state.fs pfx) {a} (mem : a ∈ met b.state.fs pfx) :
    b.names a.name ≠ none ∧ pfx.toList <+: a.name.toList ∧ activePath b.state.fs a.name = .ok a.path ∧
      ∃ m, load x.codec (some x.hashes) b.state.fs a.path = .ok m := by
  rw [met,mem_insertionSort,mem_append] at mem
  rcases mem with version | cell
  · obtain ⟨here,highest⟩ := activeMem.mp version
    have there : versionFile a.name a.seq ∈ b.state.fs := here.version ▸ here.present
    have onward : continues pfx (versionFile a.name a.seq) = true := here.version ▸ here.continued
    have front := clear a.name (formatSeq a.seq) (seqLeaf a.seq).dotless there onward
    have slot := kept a.name
    generalize b.names a.name = entry at slot
    cases slot with
    | free noCell noVersion => exact absurd there (noVersion a.seq here.small)
    | cell valid listed noVersion shows => exact absurd there (noVersion a.seq here.small)
    | @versions value top valid listed noCell small last shows =>
      have present := showsPresent shows
      have listedTop : Listed b.state.fs pfx ⟨a.name,top,versionFile a.name top⟩ :=
        ⟨rfl,small,present,listed,continuesName _ front⟩
      have same : a.seq = top := Nat.le_antisymm (last a.seq here.small there) (highest _ listedTop rfl)
      have path : a.path = versionFile a.name top := same ▸ here.version
      obtain ⟨m,_,loaded,_⟩ := shows
      exact ⟨by simp,front,path ▸ pathOfLast valid listed small present last,m,path ▸ loaded⟩
  · obtain ⟨path,_,present,listed,continued⟩ := cellsWalked.mp cell
    have there : cellFile a.name ∈ b.state.fs := path ▸ present
    have onward : continues pfx (cellFile a.name) = true := path ▸ continued
    have front := clear a.name "cell" cellLeaf.dotless there onward
    have slot := kept a.name
    generalize b.names a.name = entry at slot
    cases slot with
    | free noCell noVersion => exact absurd there noCell
    | versions valid listed noCell small last shows => exact absurd there noCell
    | cell valid listed noVersion shows =>
      obtain ⟨m,_,loaded,_⟩ := shows
      exact ⟨by simp,front,path ▸ pathOfCell valid (scanNone noVersion),m,path ▸ loaded⟩

theorem metPresent (kept : Kept x r b) (present : b.names name ≠ none) (front : pfx.toList <+: name.toList) :
    ∃ a ∈ met b.state.fs pfx, a.name = name := by
  have slot := kept name
  generalize b.names name = entry at slot present
  cases slot with
  | free noCell noVersion => exact absurd rfl present
  | cell valid listed noVersion shows =>
    refine ⟨⟨name,0,cellFile name⟩,?_,rfl⟩
    rw [met,mem_insertionSort,mem_append]
    exact .inr (cellsWalked.mpr ⟨rfl,rfl,showsPresent shows,listed,continuesName _ front⟩)
  | @versions value top valid listed noCell small last shows =>
    refine ⟨⟨name,top,versionFile name top⟩,?_,rfl⟩
    rw [met,mem_insertionSort,mem_append]
    refine .inl (activeMem.mpr ⟨⟨rfl,small,showsPresent shows,listed,continuesName _ front⟩,fun other here same => ?_⟩)
    refine last other.seq here.small ?_
    have path := here.version
    rw [same] at path
    exact path ▸ here.present

theorem metNodup (kept : Kept x r b) : ((met b.state.fs pfx).map Active.name).Nodup := by
  have perm := (perm_insertionSort byName (listActive b.state.fs pfx ++ listCells b.state.fs pfx)).map Active.name
  refine perm.nodup_iff.mpr ?_
  rw [map_append,nodup_append]
  refine ⟨activeNodup,cellsNodup,fun name version name' cell same => ?_⟩
  subst same
  obtain ⟨a,memA,rfl⟩ := mem_map.mp version
  obtain ⟨c,memC,sameName⟩ := mem_map.mp cell
  obtain ⟨here,_⟩ := activeMem.mp memA
  obtain ⟨path,_,present,_⟩ := cellsWalked.mp memC
  -- Both a version and the cell of one name are in no slot.
  have slot := kept a.name
  rw [path,sameName] at present
  generalize b.names a.name = entry at slot
  cases slot with
  | free noCell noVersion => exact noCell present
  | versions valid listed noCell small last shows => exact noCell present
  | cell valid listed noVersion shows => exact noVersion a.seq here.small (here.version ▸ here.present)

theorem namesOfMet {files : List Active} {read : Active → Option (String × Manifest)}
    (all : ∀ a ∈ files, ∃ m, read a = some (a.name,m)) : (files.filterMap read).map Prod.fst = files.map Active.name := by
  induction files with
  | nil => rfl
  | cons a rest ih =>
    obtain ⟨m,here⟩ := all a mem_cons_self
    rw [filterMap_cons_some here,map_cons,map_cons,ih fun c mem => all c (mem_cons_of_mem a mem)]

structure Visits (x : Host) (b : Book ε) (pfx : String) (out : List (String × Manifest)) : Prop where
  ascending : (out.map Prod.fst).Pairwise (· < ·)
  names : ∀ name, name ∈ out.map Prod.fst ↔ b.names name ≠ none ∧ pfx.toList <+: name.toList
  manifests : ∀ name m, (name,m) ∈ out → loadActive x b.state.fs name = .ok m

theorem walkVisits (kept : Kept x r b) (clear : Clear b.state.fs pfx) : Visits x b pfx (walk x b.state.fs pfx) := by
  have names : (walk x b.state.fs pfx).map Prod.fst = (met b.state.fs pfx).map Active.name := by
    refine namesOfMet fun a mem => ?_
    obtain ⟨_,_,_,m,loaded⟩ := metActive kept clear mem
    exact ⟨m,by rw [loaded]⟩
  refine ⟨?_,fun name => ?_,fun name m mem => ?_⟩
  · rw [names]
    have sorted : ((met b.state.fs pfx).map Active.name).Pairwise (· ≤ ·) :=
      pairwise_map.mpr (pairwise_insertionSort byName _)
    exact (sorted.and (metNodup kept)).imp fun both => lt_of_le_of_ne both.1 both.2
  · rw [names,mem_map]
    constructor
    · rintro ⟨a,mem,rfl⟩
      obtain ⟨present,front,_⟩ := metActive kept clear mem
      exact ⟨present,front⟩
    · rintro ⟨present,front⟩
      exact metPresent kept present front
  · obtain ⟨a,here,found⟩ := mem_filterMap.mp mem
    obtain ⟨_,_,active,m',loaded⟩ := metActive kept clear here
    rw [loaded] at found
    obtain ⟨rfl,rfl⟩ := Prod.mk.inj (Option.some.inj found)
    exact loadActiveAt active loaded

end

theorem keptEmpty {x r} (external : ε) : Kept x r ⟨⟨∅,external⟩,fun _ => none⟩ :=
  fun _ => .free (by simp) fun _ _ => by simp

section

open StoreDescriptor (sampleHasher sampleRegistry hashSHA256)

def sampleHost : Host where
  codec := sampleCodec
  hashes := sampleRegistry
  contentHasher := hashSHA256
  storeID := "s"
  marshalEnvelope env :=
    if env.storeID ≠ "s" then .error (.other "json")
    else if env.externalPayloadRef = "" then .ok (0::env.inlinePayload)
    else if env.inlinePayload ≠ [] then .error (.other "json")
    else if env.externalPayloadRef = "aaaa" then .ok [1]
    else if env.externalPayloadRef = "bbbb" then .ok [2]
    else .error (.other "json")
  parseEnvelope
    | 0::payload => .ok ⟨"s",payload,""⟩
    | [1] => .ok ⟨"s",[],"aaaa"⟩
    | [2] => .ok ⟨"s",[],"bbbb"⟩
    | _ => .error (.other "json")

theorem sampleSound : Sound sampleHost := by
  refine ⟨by decide,fun {env bytes} wrapped => ?_⟩
  obtain ⟨owner,payload,ref⟩ := env
  simp only [sampleHost] at wrapped
  split at wrapped
  · cases wrapped
  next owned =>
  cases not_not.mp owned
  split at wrapped
  · next inline =>
    cases inline
    cases wrapped
    rfl
  split at wrapped
  · cases wrapped
  next empty =>
  cases not_not.mp empty
  split at wrapped
  · next first =>
    cases first
    cases wrapped
    rfl
  split at wrapped
  · next second =>
    cases second
    cases wrapped
    rfl
  · cases wrapped

def sampleResolver : Resolver (List String) where
  openExternal live ref := if ref ∈ live then .ok [9] else .error .artifactNotFound
  deleteExternal live ref := (live.erase ref,.ok ())

theorem sampleConfined : Confined sampleResolver (fun _ => True) := by
  refine ⟨fun _ _ => trivial,fun {live ref other} _ differ => ?_,fun _ short => absurd rfl short⟩
  simp only [sampleResolver,mem_erase_of_ne differ]

section
variable (name : String) (payload : Bytes) (ref : String) (keep : Option Nat)
def sampleArtifact : NamedArtifact := ⟨name,.ok payload,ref,keep,sampleCodec.encode,0⟩

theorem sampleEncodes : Encodes sampleHost (sampleArtifact name payload ref keep) := by
  intro h data body known made _ _
  cases known
  cases made
  exact ⟨_,rfl,rfl,rfl,rfl,rfl⟩

end

def emptyBook : Book (List String) := ⟨⟨∅,[]⟩,fun _ => none⟩
def cellAfterVersion : List Op := [.put (sampleArtifact "a" [1] "" none),.put (sampleArtifact "a" [2] "" (some 0))]

def cellAfterCell : List Op := [.put (sampleArtifact "a" [1] "" (some 0)),.put (sampleArtifact "a" [2] "" (some 0))]

theorem sampleRoom (fs : Fs) (noVersion : NoVersion fs "a") (byte : UInt8) : PutGuard sampleHost fs (sampleArtifact "a" [byte] "" (some 0)) := by
  intro body ready
  obtain ⟨_,payload,bytes,h,read,wrapped,_,made,_⟩ := preparedOk ready
  cases Except.ok.inj (read rfl)
  cases wrapped
  cases made
  have listed : listedName "a" = true := by decide +kernel
  exact ⟨listed,by simp [inlineManifest,NamedArtifact.envelope,sampleArtifact,maxManifestSize],noVersion⟩

end

end Scrinium.SystemStore
