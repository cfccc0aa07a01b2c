import Scrinium.Fsops
import Scrinium.Replacement
import Scrinium.ViewMoves

/-! What an edit of a file leaves in the Store and in the View. The new artifact goes in before the old one goes out, by
handle. -/
namespace Scrinium.Fsops
open List hiding after
open Domain Cas Projection Vfsmeta Readback Replacement Trace Function
open ManifestFiles Pipeline StoreRuns
open Pathx (Path validatePath ofString)

inductive Edit where
  | write (append : Bool) (touches : List Touch)
  | truncate (size : Int)
  | setattr (attrs : Attrs)
  | rename (newPath : String)
  deriving DecidableEq

def staged (o : Ops) (σ : Mounted) (path : String) : Edit → Except Fault WriteFile
  | .write append touches => openForEdit o σ path append touches
  | .truncate size => truncate o σ path size
  | .setattr attrs => setattr o σ path attrs
  | .rename newPath => do free o σ newPath; renameArtifactLocked o σ path newPath

def performEdit (o : Ops) (renameDirTree : Mounted → String → String → Mounted × Except Fault Unit) (σ : Mounted) (path : String)
    (edit : Edit) (d : Draw) : Mounted × Except Fault Unit :=
  match edit with
  | .rename newPath => rename o renameDirTree σ path newPath d
  | edit =>
    match staged o σ path edit with
    | .error fault => (σ,.error fault)
    | .ok f => close o σ f d

def Edit.target (path : String) : Edit → String
  | .rename newPath => newPath
  | _ => path

def Edit.block (path : String) (fs : FileSystem) : Edit → FileSystem
  | .setattr attrs => {setAttrs fs attrs with path := path}
  | .rename newPath => {fs with path := newPath}
  | _ => {fs with path := path}

def wrote (o : Ops) (content : Bytes) : Touch → Bytes
  | .writeAt p off =>
    if reserve o (max content.length (off + p.length)) = .ok () ∧ p ≠ [] then
      resized content off ++ p ++ content.drop (off + p.length)
    else content
  | .truncate size => if reserve o (if content.length < size then size else 0) = .ok () then resized content size else content

def Edit.bytes (o : Ops) (content : Bytes) : Edit → Bytes
  | .write _ touches => touches.foldl (wrote o) content
  | .truncate size => resized content size.toNat
  | _ => content

section
variable (o : Ops) (σ : Mounted) (path : String)
def artifactAt : Option ArtifactFacet := ((o.root σ.view).nodes (ofString path)).bind Node.artifact
def idAt : String := ((artifactAt o σ path).map ArtifactFacet.artifactID).getD ""
def blockAt : FileSystem := ((artifactAt o σ path).bind fun a => Vfsmeta.block o.json a.ext).getD .zero

end

variable {o : Ops} {σ : Mounted} {path content} {f : WriteFile} {edit m}

theorem reserveOk (size : Nat) : reserve o size = .ok () ∨ reserve o size = .error .scratchQuota := by
  unfold reserve
  split
  · exact .inr rfl
  · exact .inl rfl

theorem touchWrites (f : WriteFile) (t : Touch) : ∃ dirty, touch o f t = {f with content := wrote o f.content t, dirty := dirty} := by
  cases t with
  | writeAt p off =>
    rcases reserveOk (o := o) (max f.content.length (off + p.length)) with fits | full
    · by_cases blank : p = []
      · subst blank
        rw [length_nil,Nat.add_zero] at fits
        exact ⟨f.dirty, by simp [touch,writeAt,wrote,fits,bind,Except.bind,pure,Except.pure]⟩
      · exact ⟨true, by simp [touch,writeAt,wrote,fits,blank,bind,Except.bind,pure,Except.pure]⟩
    · exact ⟨f.dirty, by simp [touch,writeAt,wrote,full,bind,Except.bind]⟩
  | truncate size =>
    rcases reserveOk (o := o) (if f.content.length < size then size else 0) with fits | full
    · exact ⟨true, by simp [touch,WriteFile.truncate,wrote,fits,bind,Except.bind,pure,Except.pure]⟩
    · exact ⟨f.dirty, by simp [touch,WriteFile.truncate,wrote,full,bind,Except.bind]⟩

theorem touchesWrite (touches : List Touch) (f : WriteFile) :
    ∃ dirty, touches.foldl (touch o) f = {f with content := touches.foldl (wrote o) f.content, dirty := dirty} := by
  induction touches generalizing f with
  | nil => exact ⟨f.dirty,rfl⟩
  | cons t rest ih =>
    obtain ⟨dirty,once⟩ := touchWrites (o := o) f t
    obtain ⟨dirty',whole⟩ := ih {f with content := wrote o f.content t, dirty := dirty}
    exact ⟨dirty',by rw [foldl_cons,once,whole]; rfl⟩

structure FileAt (o : Ops) (σ : Mounted) (path : String) (content : Bytes) (m : Manifest) : Prop where
  open' : σ.view.closed = false
  shown : ShownAt (o.root σ.view) (ofString path) (idAt o σ path)
  got : storeGet o σ.store (idAt o σ path) = .ok m
  opened : openBlob o.engine σ.store m = .ok content

theorem loadOfGet {s id} (got : storeGet o s id = .ok m) : load o.engine s id = .ok m :=
  have ⟨_,_,loaded⟩ := bindOk.mp got
  loaded

theorem FileAt.named (file : FileAt o σ path content m) : idAt o σ path ≠ "" := by
  intro blank
  have loaded := loadOfGet file.got
  rw [blank,load,if_pos rfl] at loaded
  cases loaded

theorem lookupOk {n} : lookupInRoot o σ path = .ok n ↔ σ.view.closed = false ∧ (o.root σ.view).nodes (ofString path) = some n := by
  unfold lookupInRoot
  cases σ.view.closed with
  | true => simp
  | false => cases (o.root σ.view).nodes (ofString path) with
    | none => simp
    | some found => simp

theorem openOk : openInRoot o σ path = .ok content ↔ ∃ m, FileAt o σ path content m := by
  constructor
  · intro opened
    obtain ⟨n,looked,opened⟩ := bindOk.mp opened
    obtain ⟨open',there⟩ := lookupOk.mp looked
    cases kind : n.fs.isDir with
    | true => simp [kind] at opened
    | false =>
      cases carried : n.artifact with
      | none => simp [kind,carried] at opened
      | some a =>
        have id : idAt o σ path = a.artifactID := by simp [idAt,artifactAt,there,carried]
        simp only [kind,carried,Bool.false_eq_true,if_false] at opened
        cases read : readAll o σ.store a.artifactID with
        | error err => simp [read,Except.mapError] at opened
        | ok bytes =>
          simp only [read,Except.mapError,Except.ok.injEq] at opened
          subst opened
          obtain ⟨m,got,bytes⟩ := bindOk.mp read
          exact ⟨m,open',⟨n,a,there,kind,carried,id.symm⟩,id ▸ got,bytes⟩
  · rintro ⟨m,file⟩
    obtain ⟨n,a,there,kind,carried,id⟩ := file.shown
    have looked := lookupOk.mpr ⟨file.open',there⟩
    have read : readAll o σ.store a.artifactID = .ok content := bindOk.mpr ⟨m,id ▸ file.got,file.opened⟩
    simp [openInRoot,looked,kind,carried,read,bind,Except.bind,Except.mapError]

def scratchAt (o : Ops) (σ : Mounted) (path : String) (content : Bytes) : WriteFile :=
  { path := path, content := content, mode := (blockAt o σ path).mode, dirty := false, forceDirty := false
    replaceArtifactID := idAt o σ path, oldPath := path, inheritedVfsmeta := blockAt o σ path }

theorem preparedOk (opened : openInRoot o σ path = .ok content) (prepared : prepareEditingScratch o σ path = .ok f) :
    f = scratchAt o σ path content := by
  obtain ⟨n,looked,rest⟩ := bindOk.mp prepared
  obtain ⟨_,there⟩ := lookupOk.mp looked
  split at rest
  · cases rest
  obtain ⟨content',opened',rest⟩ := bindOk.mp rest
  cases opened'.symm.trans opened
  obtain ⟨_,_,rest⟩ := bindOk.mp rest
  cases rest
  simp [scratchAt,blockAt,idAt,artifactAt,there]

structure Staged (o : Ops) (σ : Mounted) (path : String) (content : Bytes) (edit : Edit) (f : WriteFile) : Prop where
  replaces : f.replaceArtifactID = idAt o σ path
  oldPath : f.oldPath = path
  target : f.path = edit.target path
  bytes : f.content = edit.bytes o content
  block : f.replaceArtifactID ≠ "" → ∀ now, f.vfsm now = edit.block path (blockAt o σ path)

theorem vfsmInherits (named : f.replaceArtifactID ≠ "") (mode : f.mode = f.inheritedVfsmeta.mode) (now : Instant) :
    f.vfsm now = {f.inheritedVfsmeta with path := f.path} := by
  rw [WriteFile.vfsm,if_neg named,mode,ite_self]

theorem stagedOk (opened : openInRoot o σ path = .ok content) (ok : staged o σ path edit = .ok f) : Staged o σ path content edit f := by
  cases edit with
  | write append touches =>
    simp only [staged,openForEdit] at ok
    split at ok
    · cases ok
    split at ok
    · cases ok
    split at ok
    · cases ok
    obtain ⟨f0,prepared,rest⟩ := bindOk.mp ok
    cases preparedOk opened prepared
    cases rest
    obtain ⟨dirty,whole⟩ := touchesWrite (o := o) touches (scratchAt o σ path content)
    rw [whole]
    exact ⟨rfl,rfl,rfl,rfl,fun named now => vfsmInherits named rfl now⟩
  | truncate size =>
    simp only [staged,truncate] at ok
    split at ok
    · cases ok
    split at ok
    · cases ok
    obtain ⟨f0,prepared,rest⟩ := bindOk.mp ok
    cases preparedOk opened prepared
    obtain ⟨f1,cut,rest⟩ := bindOk.mp rest
    obtain ⟨_,_,cut⟩ := bindOk.mp cut
    cases cut
    cases rest
    exact ⟨rfl,rfl,rfl,rfl,fun named now => vfsmInherits named rfl now⟩
  | setattr attrs =>
    simp only [staged,setattr] at ok
    split at ok
    · cases ok
    obtain ⟨f0,prepared,rest⟩ := bindOk.mp ok
    cases preparedOk opened prepared
    cases rest
    exact ⟨rfl,rfl,rfl,rfl,fun named now => vfsmInherits named rfl now⟩
  | rename newPath =>
    obtain ⟨_,_,rest⟩ := bindOk.mp ok
    obtain ⟨f0,prepared,rest⟩ := bindOk.mp rest
    cases preparedOk opened prepared
    cases rest
    exact ⟨rfl,rfl,rfl,rfl,fun named now => vfsmInherits named rfl now⟩

variable {fs}

theorem byPathActive : byPath o.json ∈ o.setup.defs := mem_append_right _ o.shown

theorem rootCollides : o.setup.collide o.setup.rootView = true := by
  refine any_eq_true.mpr ⟨byPath o.json,byPathActive,?_⟩
  rw [o.rooted]
  rfl

theorem passes (m : Manifest) : passesFilter o.setup m = true := by
  simp [passesFilter,o.unfiltered]

theorem placementAway {d} (other : d.root ≠ o.setup.rootView) {p} (put : placement o.setup m d = some p) :
    p.root ≠ o.setup.rootView := by
  have orphaned : rootByOrphaned ≠ o.setup.rootView := by
    rw [o.rooted]
    decide
  unfold placement at put
  split at put
  · cases put
    exact other
  split at put
  · cases put
  split at put
  · cases put
    exact other
  · cases put
    exact orphaned

theorem filedAtBlock (found : block o.json m.ext = some fs) : PlacedAt o.setup o.setup.rootView m (ofString fs.path) := by
  obtain ⟨before,after,active⟩ := append_of_mem (byPathActive (o := o))
  have away : ∀ d ∈ before ++ after, d.root ≠ o.setup.rootView := by
    have distinct := o.setup.distinct
    change (o.setup.defs.map ViewDef.root).Nodup at distinct
    rw [active,map_append,map_cons,nodup_middle,nodup_cons,← map_append] at distinct
    intro d other same
    exact distinct.1 (mem_map.mpr ⟨d,other,same.trans o.rooted⟩)
  have none' : ∀ ds : List ViewDef, (∀ d ∈ ds, d.root ≠ o.setup.rootView) →
      (ds.filterMap (placement o.setup m)).filter (fun p => p.root = o.setup.rootView) = [] := by
    intro ds others
    rw [filter_eq_nil_iff]
    intro p put
    obtain ⟨d,there,placed⟩ := mem_filterMap.mp put
    simpa using placementAway (others d there) placed
  have own : placement o.setup m (byPath o.json) = some ⟨o.setup.rootView,ofString fs.path,false,true⟩ := by
    simp [placement,byPath,resolver,found,o.rooted]
  unfold PlacedAt placements
  rw [active,filterMap_append,filterMap_cons_some own,filter_append,
    none' before fun d there => away d (mem_append_left _ there),filter_cons_of_pos (by simp),
    none' after fun d there => away d (mem_append_right _ there)]
  rfl

variable {σ' : Mounted} {d}

structure Closed (o : Ops) (σ : Mounted) (f : WriteFile) (d : Draw) (σ' : Mounted) (ext : Bytes) (s1 : State) (m manifest : Manifest) :
    Prop where
  embedded : embed o.json [] (f.vfsm d.putAt) = .ok ext
  put : Cas.put o.engine o.cfg σ.store (putCall o f.content ext d) = (s1,.ok m)
  deleted : Cas.delete o.engine o.cfg s1 f.replaceArtifactID d.deleteAt = (σ'.store,.ok ())
  got : storeGet o σ'.store m.artifactID = .ok manifest
  open' : σ'.view.closed = σ.view.closed
  view : σ'.view = enlist o.setup (displace o.setup σ.view (ofString f.oldPath)) manifest

theorem closeOk (dirty : (f.dirty || f.forceDirty) = true) (named : f.replaceArtifactID ≠ "") (done : close o σ f d = (σ',.ok ())) :
    ∃ ext s1 m manifest, Closed o σ f d σ' ext s1 m manifest := by
  have work : ¬ ((!f.dirty && !f.forceDirty) = true) := by
    rw [← Bool.not_or,dirty]
    exact Bool.false_ne_true
  unfold close at done
  rw [if_neg work] at done
  split at done
  · cases done
  next ext embedded =>
  split at done
  · cases done
  next s1 m put =>
  rw [if_neg named] at done
  split at done
  · cases done
  next s2 deleted =>
  split at done
  · cases done
  next manifest got =>
  rw [if_neg named] at done
  rcases moved : move o.setup σ.view (ofString f.oldPath) manifest with ⟨view,outcome⟩
  rw [moved] at done
  cases outcome with
  | error err => cases done
  | ok _ =>
    cases done
    unfold move at moved
    split at moved
    · cases moved
    · rw [passes,Bool.not_true,if_neg Bool.false_ne_true] at moved
      cases moved
      exact ⟨ext,s1,m,manifest,embedded,put,deleted,got,(enlistClosed ..).trans (displaceClosed ..),rfl⟩

variable {ext s1 manifest before}

section

/- What an edit is for: the target resolves to the artifact of the new bytes, which the Store holds with the new block, it
opens as those bytes, and after a Rename the old path leads nowhere. -/
structure TakesEffect (o : Ops) (σ' : Mounted) (path target id : String) (fs : FileSystem) (bytes : Bytes) : Prop where
  live : ∃ m, storeGet o σ'.store id = .ok m ∧ Vfsmeta.block o.json m.ext = some fs ∧ openBlob o.engine σ'.store m = .ok bytes
  shown : ShownAt (o.root σ'.view) (ofString target) id
  opens : openInRoot o σ' target = .ok bytes
  gone : target ≠ path → lookupInRoot o σ' path = .error (.pathNotFound path)

def newID (o : Ops) (bytes : Bytes) (d : Draw) : String := handleFor o.engine o.cfg bytes d.nonce

def Brings (o : Ops) (s : State) (id : String) (fs : FileSystem) (bytes : Bytes) (d : Draw) : Prop :=
  if newID o bytes d = id then
    ∃ m, load o.engine s id = .ok m ∧ Vfsmeta.block o.json m.ext = some fs ∧ openBlob o.engine s m = .ok bytes
  else HitReads o.engine o.cfg s bytes

def bidOf (o : Ops) (s : State) (id : String) (bytes : Bytes) (d : Draw) : Loser :=
  ⟨newID o bytes d,
   if newID o bytes d = id then
     match load o.engine s id with
     | .ok m => m.createdAt
     | .error _ => none
   else some (ManifestCodec.wholeSeconds d.putAt)⟩

def knownAs (o : Ops) (v : View) (id : String) (bytes : Bytes) (d : Draw) : Bool :=
  newID o bytes d ≠ id && (v.artifacts (newID o bytes d)).isSome

/- In place, if nobody else filed at the path comes first; elsewhere, if nobody else is filed at the old path, which is no
directory and not to become one. -/
def Lands (o : Ops) (σ : Mounted) (path : String) (bytes : Bytes) (d : Draw) : Edit → Prop
  | .rename newPath =>
    isPendingDir σ path = false ∧ knownAs o σ.view (idAt o σ path) bytes d = false ∧
      (o.root σ.view).losers (ofString path) = [] ∧ ¬ ofString path <:+ ofString newPath
  | _ =>
    nextAt (o.root σ.view) (ofString path) (knownAs o σ.view (idAt o σ path) bytes d) (bidOf o σ.store (idAt o σ path) bytes d) =
      some (newID o bytes d)

variable {target id bytes}

theorem loadID {s} (loaded : load o.engine s id = .ok m) : m.artifactID = id := by
  obtain ⟨_,_,_,rfl⟩ := loadResolved loaded
  rfl

theorem closedOpens (whole : Whole o.engine σ.store) (c : Closed o σ f d σ' ext s1 m manifest) (m' : Manifest) :
    openBlob o.engine σ'.store m' = openBlob o.engine s1 m' := by
  have placed : RowsPlaced o.engine.topology s1.index := by
    have kept := placedAdvance (.put o.cfg (putCall o f.content ext d)) whole.settled.placed
    rwa [advance,c.put] at kept
  obtain ⟨key,row,place,dropped⟩ := deleteDropped c.deleted
  exact droppedOpens placed dropped m'

/- What is asked of the codec, the transformers, the extension indexes and the JSON library. A document that was read back
has the keys and the block it was written with. -/
structure Trusted (o : Ops) : Prop where
  codec : Codec o.engine
  commit : DeletesCommit o.engine
  inverse : ∀ algo, Inverts o.engine.hasher o.engine.registry algo
  faithful : Faithful o.json
  block : ∀ m, Vfsmeta.block o.json (reread o.engine m).ext = Vfsmeta.block o.json m.ext
  pockets : ∀ m name, pocketGet o.json m.ext name = .ok none → pocketGet o.json (reread o.engine m).ext name = .ok none
  usr : ∀ m, m.usr = [] → (reread o.engine m).usr = []

/- Of the edit: no artifact of its second, a manifest that can be read back, and no collision. -/
structure Fresh (o : Ops) (σ : Mounted) (path : String) (edit : Edit) (d : Draw) : Prop where
  ticked : Ticked o.engine σ.store d.putAt
  legible : ∀ f ext, staged o σ path edit = .ok f → embed o.json [] (f.vfsm d.putAt) = .ok ext →
    PutsLegible o.engine σ.store (.put o.cfg (putCall o f.content ext d))
  apart : ∀ f, staged o σ path edit = .ok f → BlobApart o.engine o.cfg σ.store f.content

section
variable (trusted : Trusted o) (fresh : Fresh o σ path edit d) (file : FileAt o σ path content before)
  (ready : staged o σ path edit = .ok f) (replaces : f.replaceArtifactID = idAt o σ path)
  (c : Closed o σ f d σ' ext s1 m manifest)
include trusted fresh file ready replaces c
theorem closedManifest (stored : Stored o.engine σ.store) : m.artifactID = newID o f.content d ∧
    manifest = (if newID o f.content d = idAt o σ path then before else reread o.engine m) ∧
    (newID o f.content d ≠ idAt o σ path →
      ∃ ext usr, reread o.engine m = {ManifestCodec.carried m ext usr with digest := m.digest}) := by
  have handle : m.artifactID = newID o f.content d := (putWritten c.put).handle
  have legible := fresh.legible f ext ready c.embedded
  have deleted := c.deleted
  rw [replaces] at deleted
  refine ⟨handle,?_⟩
  have loaded := loadOfGet c.got
  by_cases same : newID o f.content d = idAt o σ path
  · rw [if_pos same]
    have back := restoredLoads trusted.codec stored legible c.put deleted (handle.trans same) fresh.ticked (loadOfGet file.got)
    rw [handle,same,back] at loaded
    cases loaded
    exact ⟨rfl,fun differ => absurd same differ⟩
  · rw [if_neg same]
    obtain ⟨back,carried⟩ := replacedLoads trusted.codec stored legible c.put deleted (handle ▸ same)
    rw [back] at loaded
    exact ⟨(Except.ok.inj loaded).symm,fun _ => carried⟩

theorem broughtIff (whole : Whole o.engine σ.store) :
    (Vfsmeta.block o.json manifest.ext = some (f.vfsm d.putAt) ∧ openBlob o.engine σ'.store manifest = .ok f.content) ↔
      Brings o σ.store (idAt o σ path) (f.vfsm d.putAt) f.content d := by
  obtain ⟨_,back,carried⟩ := closedManifest trusted fresh file ready replaces c whole.settled.stored
  have opens := closedOpens whole c
  unfold Brings
  by_cases same : newID o f.content d = idAt o σ path
  · rw [if_pos same] at back ⊢
    subst back
    -- The old bytes still open after the Put, so the new ones do exactly where they are the old.
    have still := putOpens whole (fresh.apart f ready) c.put file.opened
    rw [opens,still]
    constructor
    · rintro ⟨block,bytes⟩
      exact ⟨manifest,loadOfGet file.got,block,file.opened.trans bytes⟩
    · rintro ⟨m',loaded,block,bytes⟩
      cases loaded.symm.trans (loadOfGet file.got)
      exact ⟨block,file.opened.symm.trans bytes⟩
  · rw [if_neg same] at back ⊢
    obtain ⟨ext',usr,read⟩ := carried same
    have wanted : Vfsmeta.block o.json manifest.ext = some (f.vfsm d.putAt) := by
      rw [back,trusted.block,(putWritten c.put).ext]
      exact embedBlock trusted.faithful c.embedded
    have reads : openBlob o.engine s1 m = .ok f.content ↔ HitReads o.engine o.cfg σ.store f.content :=
      putReads whole.settled.placed trusted.inverse c.put
    rw [opens,back,read]
    exact (and_iff_right (read ▸ back ▸ wanted)).trans reads

theorem closedBid (stored : Stored o.engine σ.store) : loserOf manifest = bidOf o σ.store (idAt o σ path) f.content d := by
  obtain ⟨handle,back,carried⟩ := closedManifest trusted fresh file ready replaces c stored
  have id : manifest.artifactID = newID o f.content d := (loadID (loadOfGet c.got)).trans handle
  unfold loserOf bidOf
  rw [id]
  congr 1
  by_cases same : newID o f.content d = idAt o σ path
  · rw [if_pos same] at back ⊢
    rw [back,loadOfGet file.got]
  · rw [if_neg same] at back ⊢
    obtain ⟨ext',usr,read⟩ := carried same
    rw [back,read]
    exact congrArg (Option.map ManifestCodec.wholeSeconds) (putWritten c.put).created

end

theorem displaced (sound : SoundAt o.setup False o.setup.rootView σ.view) (shown : ShownAt (o.root σ.view) (ofString path) id) :
    displace o.setup σ.view (ofString path) = Projection.discard o.setup σ.view id := by
  obtain ⟨own,e,_,_,elected,held,rfl,_⟩ := fileOwner sound rootCollides shown
  have owner := elected.owner (ofString path)
  rw [held,Option.map_some] at owner
  unfold displace
  rw [owner]

theorem knownAfter (v : View) : ((Projection.discard o.setup v id).artifacts (newID o bytes d)).isSome = knownAs o v id bytes d := by
  rw [discardArtifacts,update_apply,knownAs]
  by_cases same : newID o bytes d = id
  · simp [same]
  · simp [same]

theorem lookupGone (open' : σ.view.closed = false) :
    lookupInRoot o σ path = .error (.pathNotFound path) ↔ (o.root σ.view).nodes (ofString path) = none := by
  unfold lookupInRoot
  rw [open',if_neg Bool.false_ne_true]
  cases (o.root σ.view).nodes (ofString path) with
  | none => simp
  | some n => simp

theorem shownID (shown : ShownAt (o.root σ.view) (ofString path) id) : idAt o σ path = id := by
  obtain ⟨n,a,there,_,carried,rfl⟩ := shown
  simp [idAt,artifactAt,there,carried]

theorem effectIff (open' : σ'.view.closed = false) (got : storeGet o σ'.store id = .ok manifest) :
    TakesEffect o σ' path target id fs bytes ↔
      (Vfsmeta.block o.json manifest.ext = some fs ∧ openBlob o.engine σ'.store manifest = .ok bytes) ∧
        ShownAt (o.root σ'.view) (ofString target) id ∧ (target ≠ path → (o.root σ'.view).nodes (ofString path) = none) := by
  constructor
  · rintro ⟨⟨m,got',block,opened⟩,shown,_,gone⟩
    cases got'.symm.trans got
    exact ⟨⟨block,opened⟩,shown,fun moved => (lookupGone open').mp (gone moved)⟩
  · rintro ⟨⟨block,opened⟩,shown,gone⟩
    have same := shownID shown
    refine ⟨⟨manifest,got,block,opened⟩,shown,?_,fun moved => (lookupGone open').mpr (gone moved)⟩
    exact openOk.mpr ⟨manifest,open',by rwa [same],by rwa [same],opened⟩

end

section
variable {renameDirTree}
theorem freeOk {newPath} (vacant : free o σ newPath = .ok ()) :
    σ.view.closed = false ∧ (o.root σ.view).nodes (ofString newPath) = none := by
  unfold free lookupInRoot at vacant
  cases open' : σ.view.closed with
  | true => simp [open'] at vacant
  | false =>
    cases there : (o.root σ.view).nodes (ofString newPath) with
    | some n => simp [open',there] at vacant
    | none => exact ⟨rfl,rfl⟩

theorem performStaged (opened : openInRoot o σ path = .ok content) (elsewhere : edit ≠ .rename path)
    (done : performEdit o renameDirTree σ path edit d = (σ',.ok ())) :
    (∃ newPath, edit = .rename newPath ∧ isPendingDir σ path = true ∧ free o σ newPath = .ok () ∧ σ'.view = σ.view) ∨
      ∃ f, staged o σ path edit = .ok f ∧ close o σ f d = (σ',.ok ()) ∧ ∀ newPath, edit = .rename newPath → isPendingDir σ path = false := by
  have scratch : ∀ edit', (match staged o σ path edit' with
      | .error fault => (σ,.error fault)
      | .ok f => close o σ f d) = (σ',.ok ()) → ∃ f, staged o σ path edit' = .ok f ∧ close o σ f d = (σ',.ok ()) := by
    intro edit' closed
    split at closed
    · cases closed
    · next f ready => exact ⟨f,ready,closed⟩
  cases edit with
  | write append touches => exact .inr ((scratch _ done).imp fun f both => ⟨both.1,both.2,nofun⟩)
  | truncate size => exact .inr ((scratch _ done).imp fun f both => ⟨both.1,both.2,nofun⟩)
  | setattr attrs => exact .inr ((scratch _ done).imp fun f both => ⟨both.1,both.2,nofun⟩)
  | rename newPath =>
    have differ : path ≠ newPath := fun same => elsewhere (same ▸ rfl)
    obtain ⟨_,file⟩ := openOk.mp opened
    obtain ⟨n,_,there,kind,_⟩ := file.shown
    have plain : isViewDir o σ path = false := by
      rw [isViewDir,lookupOk.mpr ⟨file.open',there⟩]
      exact kind
    simp only [performEdit,rename,plain] at done
    split at done
    · cases done
    split at done
    · next pending =>
      split at done
      · cases done
      unfold renamePendingDir at done
      split at done
      · cases done
      rw [if_neg differ] at done
      split at done
      · cases done
      · next vacant =>
        cases done
        exact .inl ⟨newPath,rfl,pending,vacant,rfl⟩
    · next pending =>
      rw [if_neg Bool.false_ne_true] at done
      split at done
      · cases done
      split at done
      · cases done
      · obtain ⟨f,ready,closed⟩ := scratch (.rename newPath) done
        exact .inr ⟨f,ready,closed,fun _ _ => Bool.eq_false_iff.mpr pending⟩

end

theorem blockPath (path : String) (fs : FileSystem) (edit : Edit) : (edit.block path fs).path = edit.target path := by
  cases edit with
  | write append touches => rfl
  | truncate size => rfl
  | setattr attrs => rfl
  | rename newPath => rfl

theorem landsIff (sound : SoundAt o.setup False o.setup.rootView σ.view) (file : FileAt o σ path content before)
    (id : manifest.artifactID = newID o f.content d) (bid : loserOf manifest = bidOf o σ.store (idAt o σ path) f.content d)
    (placed : PlacedAt o.setup o.setup.rootView manifest (ofString (edit.target path)))
    (view : σ'.view = enlist o.setup (displace o.setup σ.view (ofString path)) manifest) (elsewhere : edit ≠ .rename path)
    (settled : ∀ newPath, edit = .rename newPath → isPendingDir σ path = false ∧ (o.root σ.view).nodes (ofString newPath) = none) :
    (ShownAt (o.root σ'.view) (ofString (edit.target path)) (newID o f.content d) ∧
      (edit.target path ≠ path → (o.root σ'.view).nodes (ofString path) = none)) ↔ Lands o σ path f.content d edit := by
  rw [displaced sound file.shown] at view
  obtain ⟨own',c⟩ := cleared sound rootCollides file.shown
  have inPlace : PlacedAt o.setup o.setup.rootView manifest (ofString path) → (ShownAt (o.root σ'.view) (ofString path) (newID o f.content d) ↔
      nextAt (o.root σ.view) (ofString path) (knownAs o σ.view (idAt o σ path) f.content d) (bidOf o σ.store (idAt o σ path) f.content d) =
        some (newID o f.content d)) := by
    intro here
    rw [view]
    refine (replacedShows c here).trans ?_
    rw [id,knownAfter,bid]
    exact Iff.rfl
  cases edit with
  | write append touches => exact (and_iff_left fun moved => absurd rfl moved).trans (inPlace placed)
  | truncate size => exact (and_iff_left fun moved => absurd rfl moved).trans (inPlace placed)
  | setattr attrs => exact (and_iff_left fun moved => absurd rfl moved).trans (inPlace placed)
  | rename newPath =>
    obtain ⟨notPending,vacant⟩ := settled newPath rfl
    have differ : newPath ≠ path := fun same => elsewhere (same ▸ rfl)
    have apart : ofString newPath ≠ ofString path := by
      intro same
      obtain ⟨n,_,there,_⟩ := file.shown
      rw [same,there] at vacant
      cases vacant
    have moved := movedShows c vacant apart placed
    rw [id] at moved
    have unknown : (Projection.discard o.setup σ.view (idAt o σ path)).artifacts (newID o f.content d) = none ↔
        knownAs o σ.view (idAt o σ path) f.content d = false := by
      rw [← knownAfter,Option.isSome_eq_false_iff,Option.isNone_iff_eq_none]
    rw [unknown] at moved
    rw [view]
    simp only [Edit.target,Lands,notPending,true_and]
    exact (and_congr_right fun _ => ⟨fun gone => gone differ,fun gone _ => gone⟩).trans moved

theorem stagedEffect (trusted : Trusted o) (whole : Whole o.engine σ.store) (sound : SoundAt o.setup False o.setup.rootView σ.view)
    (opened : openInRoot o σ path = .ok content) (elsewhere : edit ≠ .rename path) (fresh : Fresh o σ path edit d)
    (ready : staged o σ path edit = .ok f) (dirty : (f.dirty || f.forceDirty) = true) (closed : close o σ f d = (σ',.ok ()))
    (settled : ∀ newPath, edit = .rename newPath → isPendingDir σ path = false) :
    TakesEffect o σ' path (edit.target path) (newID o (edit.bytes o content) d) (edit.block path (blockAt o σ path)) (edit.bytes o content) ↔
      Brings o σ.store (idAt o σ path) (edit.block path (blockAt o σ path)) (edit.bytes o content) d ∧
        Lands o σ path (edit.bytes o content) d edit := by
  obtain ⟨before,file⟩ := openOk.mp opened
  have s := stagedOk opened ready
  have named : f.replaceArtifactID ≠ "" := s.replaces ▸ file.named
  obtain ⟨ext,s1,m,manifest,c⟩ := closeOk dirty named closed
  obtain ⟨handle,_⟩ := closedManifest trusted fresh file ready s.replaces c whole.settled.stored
  have brought := broughtIff trusted fresh file ready s.replaces c whole
  have bid := closedBid trusted fresh file ready s.replaces c whole.settled.stored
  have id : manifest.artifactID = newID o f.content d := (loadID (loadOfGet c.got)).trans handle
  have got := c.got
  have view := c.view
  rw [handle] at got
  rw [s.oldPath] at view
  rw [← s.bytes,← s.block named d.putAt,effectIff (c.open'.trans file.open') got,brought]
  refine and_congr_right fun brings => ?_
  have placed := filedAtBlock (brought.mpr brings).1
  rw [s.block named,blockPath] at placed
  refine landsIff sound file id bid placed view elsewhere fun newPath renames => ⟨settled newPath renames,?_⟩
  subst renames
  obtain ⟨_,vacant,_⟩ := bindOk.mp ready
  exact (freeOk vacant).2

def sampleBlock (path : String) : FileSystem := ⟨path,420,0,0,none,""⟩

def sampleJson : Json :=
  { unmarshalObject := fun raw => match raw with
      | 7::body => some ((∅ : Keyed.Table String Bytes).insert key body)
      | 8::body => some (((∅ : Keyed.Table String Bytes).insert key body).insert "nsid" [9])
      | _ => none
    marshalObject := fun obj => (obj.lookup key).map fun body => 7::body
    unmarshalWire := fun raw => match raw with
      | [1] => some (sampleBlock "a").toWire
      | [2] => some (sampleBlock "b").toWire
      | _ => none
    marshalWire := fun w =>
      if w = (sampleBlock "a").toWire then some [1] else if w = (sampleBlock "b").toWire then some [2] else none }

theorem sampleFaithful : Faithful sampleJson where
  wire := by
    intro w body written
    simp only [sampleJson] at written ⊢
    split at written
    · next same => cases written; exact ⟨cons_ne_nil _ _,same ▸ rfl⟩
    · split at written
      · next same => cases written; exact ⟨cons_ne_nil _ _,same ▸ rfl⟩
      · cases written
  object := by
    intro w body raw _ marshalled
    simp only [sampleJson,AList.lookup_insert,Option.map_some,Option.some.injEq] at marshalled ⊢
    subst marshalled
    refine ⟨cons_ne_nil _ _,_,rfl,fun name => ?_⟩
    split
    · next same => rw [same,AList.lookup_insert]
    · next differ => rw [AList.lookup_insert_ne differ,AList.lookup_empty]

def smallFile (id : String) (nonce : Bytes) (sessionID : String) (now : Nat) (ext : Bytes) : Manifest :=
  { artifactID := id, name := "", digest := "", identityNonce := nonce, sessionID := sessionID, createdAt := some now
    contentHash := "00000102", originalSize := 2, hashAlgo := "sha256", blobRefs := [], handleRefs := [], layout := .inline
    pipeline := [], inlineBlob := [1,2], retentionUntil := none, ext := ext, usr := []
    identityMetaHash := Readback.sampleEngine.hasher.format identityMetaCanonEmpty }

def shortFile : Manifest :=
  {smallFile "sha256-0000070202" [2] "m" (20 * second) [7,1] with contentHash := "00000702", inlineBlob := [7,2]}

def sampleFiles : List Manifest :=
  [smallFile "sha256-0000010201" [1] "" 10 [7,1],smallFile "sha256-0000010202" [2] "m" (20 * second) [7,2],
   smallFile "sha256-00000102" [] "" 10 [7,1],smallFile "sha256-00000102" [] "m" (20 * second) [7,2],
   {smallFile "sha256-0000010201" [1] "" 10 [8,1] with usr := [5]},shortFile]

def sampleMount (mode : IdentityMode) : Ops :=
  { engine := tabled sampleFiles
    cfg := {Readback.sampleConfig [] with blobStorage := .inline, inlineBlobLimit := 10, identityMode := mode}
    json := sampleJson
    setup :=
      { formats := ⟨fun _ => "d/",fun _ => none⟩, provided := [byPath sampleJson], rootView := rootByPath, synthetic := false
        filter := ⟨"",""⟩, createdAt := some 5, distinct := by decide, reserved := by decide }
    editing := ⟨true,true,true,true,true⟩, readOnly := false, mountSession := "m", scratchQuota := 0
    shown := List.mem_cons_self, rooted := rfl, unfiltered := rfl }

def sampleWrites (mode : IdentityMode) : List StoreOp := [.put (sampleMount mode).cfg {Readback.sampleCall "u" 1 10 with ext := [7,1]}]

def sampleMounted (mode : IdentityMode) (file : Manifest) : Mounted :=
  ⟨after (advance (tabled sampleFiles)) emptyStore (sampleWrites mode),
   after (perform (sampleMount mode).setup) (initTrees (sampleMount mode).setup) [.add file],[]⟩

def noTree : Mounted → String → String → Mounted × Except Fault Unit := fun σ _ _ => (σ,.error .editingDisabled)
def sampleDraw : Draw := ⟨"v",[2],20 * second,21 * second⟩

theorem sampleTree (mode : IdentityMode) (file : Manifest) (clear : Clear (sampleMount mode).setup [file]) :
    Along (perform (sampleMount mode).setup) (Leaves (sampleMount mode).setup
      (ClearAt (sampleMount mode).setup False (sampleMount mode).setup.rootView)) (initTrees (sampleMount mode).setup) [.add file] := by
  have none : Among (sampleMount mode).setup [file] (initTrees (sampleMount mode).setup) := by
    intro id rec found
    cases found
  have kept := clearAdds clear (fun m mem => mem) none
  exact alongMono kept fun _ op => leavesMono (fun v both => ⟨(both.1 _).1,nofun⟩) op

def uniqueMounted : Mounted := sampleMounted .unique (smallFile "sha256-0000010201" [1] "" 10 [7,1])

theorem sampleTrusted (mode : IdentityMode) : Trusted (sampleMount mode) := by
  have same : ∀ m, (reread (tabled sampleFiles) m).ext = m.ext ∧ (reread (tabled sampleFiles) m).usr = m.usr := by
    intro m
    unfold reread
    split
    · next d read =>
      obtain ⟨raw,encoded,decoded⟩ := bindOk.mp read
      simp only [tabled] at encoded decoded
      split at encoded
      · next mem =>
        cases encoded
        rw [length_replicate,Nat.add_sub_cancel,getElem?_idxOf mem] at decoded
        cases decoded
        exact ⟨rfl,rfl⟩
      · cases encoded
    · exact ⟨rfl,rfl⟩
  exact ⟨tabledCodec _,tabledCommit _,Readback.sampleInverts,sampleFaithful,fun m => congrArg _ (same m).1,
    fun m name none => (congrArg (pocketGet sampleJson · name) (same m).1).trans none,fun m empty => (same m).2.trans empty⟩

theorem uniqueFresh {edit f} (ready : staged (sampleMount .unique) uniqueMounted "a" edit = .ok f)
    (legible : ∀ ext ∈ (embed sampleJson [] (f.vfsm sampleDraw.putAt)).toOption, PutsLegible (sampleMount .unique).engine
      uniqueMounted.store (.put (sampleMount .unique).cfg (putCall (sampleMount .unique) f.content ext sampleDraw))) :
    Fresh (sampleMount .unique) uniqueMounted "a" edit sampleDraw := by
  refine ⟨tickedOf (by decide +kernel),fun f' ext staged embedded => ?_,fun _ _ _ _ _ => sampleCollisionFree _⟩
  cases ready.symm.trans staged
  have embedded : embed sampleJson [] (f.vfsm sampleDraw.putAt) = .ok ext := embedded
  exact legible ext (by rw [embedded]; rfl)

theorem uniqueReached : uniqueMounted = ⟨after (advance (sampleMount .unique).engine) emptyStore (sampleWrites .unique),
    after (perform (sampleMount .unique).setup) (initTrees (sampleMount .unique).setup)
      [.add (smallFile "sha256-0000010201" [1] "" 10 [7,1])],[]⟩ := rfl

def renamed : WriteFile :=
  {scratchAt (sampleMount .unique) uniqueMounted "a" [1,2] with path := "b", forceDirty := true}

theorem renameStaged : staged (sampleMount .unique) uniqueMounted "a" (.rename "b") = .ok renamed := by decide +kernel

theorem uniqueRename : openInRoot (sampleMount .unique) uniqueMounted "a" = .ok [1,2] ∧
    Fresh (sampleMount .unique) uniqueMounted "a" (.rename "b") sampleDraw ∧
    (performEdit (sampleMount .unique) noTree uniqueMounted "a" (.rename "b") sampleDraw).2 = .ok () ∧
    blockAt (sampleMount .unique) uniqueMounted "a" = sampleBlock "a" ∧
    newID (sampleMount .unique) [1,2] sampleDraw = "sha256-0000010202" ∧
    idAt (sampleMount .unique) uniqueMounted "a" = "sha256-0000010201" := by
  exact ⟨by decide +kernel,uniqueFresh renameStaged (by decide +kernel),by decide +kernel,by decide +kernel,by decide +kernel,by decide +kernel⟩

end Scrinium.Fsops
