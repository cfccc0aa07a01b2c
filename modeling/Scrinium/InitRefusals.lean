import Scrinium.InitStore
import Scrinium.Readback
import Scrinium.StoreRuns

/-! What an initialisation that does not end in a store has done to the Location and the index. -/
namespace Scrinium.InitStore
open Keyed Domain LocalFs SqliteIndex Cas Named Trace StoreDescriptor List
open Orphanscan (Faults Ingester walk listWalk)

def primary : String := cellFile name
def Same (s s' : State) : Prop := (∀ path, s'.fs.lookup path = s.fs.lookup path) ∧ s'.index = s.index

theorem lookupRemoveAll (paths : List String) (fs : Fs) (path : String) :
    (paths.foldl remove fs).lookup path = if path ∈ paths then none else fs.lookup path := by
  induction paths generalizing fs with
  | nil => simp
  | cons first rest ih =>
    rw [foldl_cons,ih,remove,lookupErase]
    by_cases here : path = first
    · simp [here]
    · simp [here]

theorem lookupSweep (fs : Fs) (dir path : String) :
    (sweepPrefix fs dir).lookup path = if underDir dir path then none else fs.lookup path := by
  rw [sweepPrefix,lookupRemoveAll]
  by_cases under : underDir dir path = true
  · rw [if_pos under]
    split
    · rfl
    · next unlisted =>
      rw [AList.lookup_eq_none]
      exact fun held => unlisted (mem_filter.mpr ⟨held,under⟩)
  · have unlisted : path ∉ listObjects fs dir := fun listed => under (mem_filter.mp listed).2
    rw [if_neg under,if_neg unlisted]

theorem lookupSweeps (dirs : List String) (fs : Fs) (path : String) :
    (dirs.foldl sweepPrefix fs).lookup path = if dirs.any (fun dir => underDir dir path) then none else fs.lookup path := by
  induction dirs generalizing fs with
  | nil => simp
  | cons dir rest ih =>
    rw [foldl_cons,ih,lookupSweep,any_cons]
    cases underDir dir path with
    | true => simp
    | false => simp

theorem wipedPrimary (purge : Bool) (s : State) : (wipeForReinit purge s).fs.lookup primary = none := by
  have swept : (sweepTargets purge).any (fun dir => underDir dir primary) = true := by
    cases purge <;> decide +kernel
  simp only [wipeForReinit,lookupSweeps,swept,if_true]

variable {x o} {draw : Draw} {s cfg kind}

section
variable {s' desc fs}
def Wipes (x : Host) (o : InitOptions) (kind : IndexKind) (s : State) : Prop :=
  (s.fs.lookup primary).isSome = true ∧ o.forceReinit = true ∧ kind.resetter = true ∧
    read x.codec o.hashRegistry s.fs ≠ .error .panicked

inductive Probed (x : Host) (o : InitOptions) (kind : IndexKind) (s : State) : State × Option Outcome → Prop where
  | fresh (absent : s.fs.lookup primary = none) : Probed x o kind s (s,none)
  | wiped (wipes : Wipes x o kind s) : Probed x o kind s (wipeForReinit o.purgeOnReinit s,none)
  | refused (found : (s.fs.lookup primary).isSome = true) (spared : ¬ Wipes x o kind s) (r : Refusal) :
      Probed x o kind s (s,some (.refused r))
  | panicked (found : (s.fs.lookup primary).isSome = true) (spared : ¬ Wipes x o kind s)
      (unread : read x.codec o.hashRegistry s.fs = .error .panicked) :
      Probed x o kind s (s,some .panicked)

theorem wipeOrProbed (refusal : Refusal) (found : (s.fs.lookup primary).isSome = true)
    (readable : read x.codec o.hashRegistry s.fs ≠ .error .panicked) :
    Probed x o kind s (wipeOr refusal o kind s) := by
  unfold wipeOr
  cases force : o.forceReinit with
  | false => exact .refused found (fun wipes => by simp [Wipes,force] at wipes) refusal
  | true =>
    cases resets : kind.resetter with
    | false => exact .refused found (fun wipes => by simp [Wipes,resets] at wipes) .notImplemented
    | true => exact .wiped ⟨found,force,resets,readable⟩

theorem prepareProbed (x : Host) (o : InitOptions) (kind : IndexKind) (s : State) :
    Probed x o kind s (prepareInitLocation x o kind s) := by
  have missing : read x.codec o.hashRegistry s.fs = .error .artifactNotFound ↔ s.fs.lookup primary = none := readAbsent
  unfold prepareInitLocation
  cases probed : read x.codec o.hashRegistry s.fs with
  | ok existing =>
    have found := Option.isSome_iff_ne_none.mpr (mt missing.mpr (by rw [probed]; simp))
    exact wipeOrProbed _ found (by rw [probed]; simp)
  | error halt =>
    cases halt with
    | artifactNotFound => exact .fresh (missing.mp probed)
    | panicked =>
      have found := Option.isSome_iff_ne_none.mpr (mt missing.mpr (by rw [probed]; simp))
      exact .panicked found (fun wipes => wipes.2.2.2 probed) probed
    | corruptedContent =>
      have found := Option.isSome_iff_ne_none.mpr (mt missing.mpr (by rw [probed]; simp))
      exact wipeOrProbed .storeCorrupted found (by rw [probed]; simp)
    | failed err =>
      have found := Option.isSome_iff_ne_none.mpr (mt missing.mpr (by rw [probed]; simp))
      exact wipeOrProbed .storeCorrupted found (by rw [probed]; simp)

def primaryBody (x : Host) (o : InitOptions) (draw : Draw) (desc : Descriptor) : Except Halt Bytes := do
  let data ← (marshal x.codec desc).mapError .failed
  buildInlineManifest x.codec o.hashRegistry name data hashSHA256 draw.now

variable {halt body fs'}

theorem writeBothFailed (failed : primaryBody x o draw desc = .error halt) :
    writeBoth x.codec o.hashRegistry desc draw.now fs = (fs,some halt) := by
  unfold writeBoth
  unfold primaryBody at failed
  cases marshalled : marshal x.codec desc with
  | error err =>
    rw [marshalled] at failed
    cases failed
    rfl
  | ok data =>
    rw [marshalled] at failed
    have built : buildInlineManifest x.codec o.hashRegistry name data hashSHA256 draw.now = .error halt := failed
    simp only [writeReplicaCell,built,bind,Except.bind]

theorem writeBothPrimary (made : primaryBody x o draw desc = .ok body) :
    (writeBoth x.codec o.hashRegistry desc draw.now fs).1.lookup primary =
      some ⟨body,draw.now,draw.now⟩ := by
  obtain ⟨data,marshalled,built⟩ := bindOk.mp made
  have first : writeReplicaCell x.codec o.hashRegistry name data draw.now fs =
      .ok (LocalFs.put fs primary body draw.now) := by
    have laid := replicaPath .l0
    rw [Replica.name] at laid
    rw [writeReplicaCell,built]
    simp only [bind,Except.bind,writeCell,laid,Except.mapError]
    rfl
  have here : (LocalFs.put fs primary body draw.now).lookup primary = some ⟨body,draw.now,draw.now⟩ := by
    rw [LocalFs.put,lookupInsert,if_pos rfl]
  unfold writeBoth
  rw [mapErrorOk.mp marshalled]
  simp only [first]
  split
  · exact here
  next fs' wrote =>
  obtain ⟨shadow,_,rfl⟩ := @writtenCell x.codec o.hashRegistry _ _ _ .l1 _ wrote
  have apart : primary ≠ cellFile Replica.l1.name := replicasApart
  rw [LocalFs.put,lookupInsert,if_neg apart]
  exact here

theorem claimedPut {name now} (claimed : claimVersion fs name body now = .ok fs') :
    ∃ next, fs' = LocalFs.put fs (versionFile name next) body now := by
  obtain ⟨next,_,rest⟩ := bindOk.mp claimed
  obtain ⟨path,laid,rest⟩ := bindOk.mp rest
  obtain ⟨_,_,named⟩ := bindOk.mp laid
  cases named
  unfold putExclusive at rest
  split at rest
  · next same =>
    split at same <;> cases same
    cases rest
  · split at rest
    · cases rest
    · exact ⟨next,(Except.ok.inj rest).symm⟩

theorem claimedPrimary (claimed : claimVersion fs configName body draw.now = .ok fs') :
    fs'.lookup primary = fs.lookup primary := by
  obtain ⟨next,rfl⟩ := claimedPut claimed
  have apart : primary ≠ versionFile configName next := by
    intro same
    have front : (fullPfx configName).toList.isPrefixOf primary.toList = true := by
      rw [same,versionFile,String.toList_append, isPrefixOf_iff_prefix]
      exact prefix_append _ _
    exact absurd front (by decide +kernel)
  rw [LocalFs.put,lookupInsert,if_neg apart]

theorem persistFailed (failed : primaryBody x o draw desc = .error halt) :
    persistInitState x o draw cfg desc fs = (fs,some (Halt.outcome .writeDescriptor halt)) := by
  simp only [persistInitState,writeBothFailed failed]

theorem persistPrimary (made : primaryBody x o draw desc = .ok body) :
    (persistInitState x o draw cfg desc fs).1.lookup primary = some ⟨body,draw.now,draw.now⟩ := by
  have wrote := @writeBothPrimary x o draw desc fs body made
  unfold persistInitState
  generalize writeBoth x.codec o.hashRegistry desc draw.now fs = pair at wrote
  obtain ⟨fs',halt⟩ := pair
  cases halt with
  | some halt => exact wrote
  | none =>
    simp only
    split
    · exact wrote
    next fs'' saved =>
    obtain ⟨payload,_,rest⟩ := bindOk.mp saved
    obtain ⟨config,_,claimed⟩ := bindOk.mp rest
    rw [claimedPrimary (mapErrorOk.mp claimed)]
    exact wrote

theorem walkWhole (cb : Orphanscan.Pass → String → Orphanscan.Pass) (paths : List String) (p : Orphanscan.Pass) :
    (walk Faults.none cb paths p).2 = none := by
  induction paths generalizing p with
  | nil => rfl
  | cons path rest ih => exact ih (cb p path)

theorem bootstrapEnds (e : Engine) (opening : StoreOpen.StoreOptions) (now : Instant) (s : State) :
    (StoreOpen.unlockBootstrap e Faults.none opening now s true).2 = none := by
  have ends : (Orphanscan.reconcile Faults.none (some (Orphanscan.storeIngester e Faults.none now)) s).2 = none := by
    unfold Orphanscan.reconcile
    rcases staged : listWalk Faults.none _ _ _ with ⟨p,err⟩
    have whole : (listWalk Faults.none (Orphanscan.sweepStaging Faults.none) Orphanscan.stagingPrefix
        (Orphanscan.Pass.start s)).2 = none := walkWhole _ _ _
    rw [staged] at whole
    cases whole
    exact walkWhole _ _ _
  unfold StoreOpen.unlockBootstrap
  generalize Orphanscan.reconcile Faults.none _ s = pair at ends
  obtain ⟨p,err⟩ := pair
  cases ends
  rfl

structure Admitted (o : InitOptions) (cfg : Config.StoreConfig) (kind : IndexKind) : Prop where
  config : Config.resolveInit (o.cfg.getD default) o.identityMode = .ok cfg
  index : o.storeIndex = some kind
  purge : o.purgeOnReinit = true → o.forceReinit = true

theorem argumentsOk : checkArguments o = .ok (cfg,kind) ↔ Admitted o cfg kind := by
  unfold checkArguments
  simp only [bindOk,mapErrorOk]
  constructor
  · rintro ⟨resolved,config,rest⟩
    cases given : o.storeIndex with
    | none =>
      rw [given] at rest
      cases rest
    | some other =>
      rw [given] at rest
      cases purge : o.purgeOnReinit <;> cases force : o.forceReinit <;> simp only [purge,force] at rest <;> cases rest
      all_goals exact ⟨config,given,by simp [purge,force]⟩
  · rintro ⟨config,given,purge⟩
    refine ⟨cfg,config,?_⟩
    simp only [given]
    cases asked : o.purgeOnReinit with
    | false => rfl
    | true =>
      rw [purge asked]
      rfl

structure Passes (o : InitOptions) (draw : Draw) (cfg : Config.StoreConfig) (kind : IndexKind) (desc : Descriptor) :
    Prop where
  passphrase : cfg.manifestCrypto = .named .plain ∨ o.passphrase = true
  atRest : cfg.manifestCrypto = .named .paranoid → ∃ profile, kind.atRest = some profile ∧ profile ≠ .plaintext
  key : ∃ dek, draw.dek = .ok dek ∧
    (o.passphrase = false ∧ desc = ⟨draw.storeID,currentSchemaVersion,1,dek,false,none⟩ ∨
      o.passphrase = true ∧ ∃ wrapped params, draw.wrapped dek = .ok (wrapped,params) ∧
        desc = ⟨draw.storeID,currentSchemaVersion,1,wrapped,true,some params⟩)

theorem guardHolds (crypto : Config.Setting Config.ManifestCrypto) (kind : IndexKind) :
    guardIndexAtRest crypto kind = true ↔
      (crypto = .named .paranoid → ∃ profile, kind.atRest = some profile ∧ profile ≠ .plaintext) := by
  unfold guardIndexAtRest
  by_cases paranoid : crypto = .named .paranoid
  · cases reported : kind.atRest <;> simp [paranoid]
  · simp [paranoid]

theorem describeOk : describe o draw cfg kind = .ok desc ↔ Passes o draw cfg kind desc := by
  have first : ((cfg.manifestCrypto ≠ .named .plain && !o.passphrase) = true) ↔
      ¬ (cfg.manifestCrypto = .named .plain ∨ o.passphrase = true) := by simp
  have second : ((!guardIndexAtRest cfg.manifestCrypto kind) = true) ↔
      ¬ (cfg.manifestCrypto = .named .paranoid → ∃ profile, kind.atRest = some profile ∧ profile ≠ .plaintext) := by
    rw [← guardHolds]
    simp
  unfold describe
  by_cases phrase : cfg.manifestCrypto = .named .plain ∨ o.passphrase = true
  · rw [if_neg (fun refused => first.mp refused phrase)]
    by_cases rest : cfg.manifestCrypto = .named .paranoid → ∃ profile, kind.atRest = some profile ∧ profile ≠ .plaintext
    · rw [if_neg (fun refused => second.mp refused rest)]
      cases given : o.passphrase with
      | false =>
        simp only [Bool.false_eq_true,if_false]
        simp only [bindOk,mapErrorOk]
        constructor
        · rintro ⟨dek,drawn,made⟩
          exact ⟨phrase,rest,dek,drawn,.inl ⟨given,(Except.ok.inj made).symm⟩⟩
        · rintro ⟨_,_,dek,drawn,⟨_,rfl⟩ | ⟨phrase,_⟩⟩
          · exact ⟨dek,drawn,rfl⟩
          · rw [given] at phrase
            cases phrase
      | true =>
        simp only [if_true]
        simp only [bindOk,mapErrorOk]
        constructor
        · rintro ⟨dek,drawn,⟨wrapped,params⟩,sealed,made⟩
          exact ⟨phrase,rest,dek,drawn,.inr ⟨given,wrapped,params,sealed,(Except.ok.inj made).symm⟩⟩
        · rintro ⟨_,_,dek,drawn,⟨bare,_⟩ | ⟨_,wrapped,params,sealed,rfl⟩⟩
          · rw [given] at bare
            cases bare
          · exact ⟨dek,drawn,(wrapped,params),sealed,rfl⟩
    · rw [if_pos (second.mpr rest)]
      refine iff_of_false (fun made => by cases made) fun passes => rest passes.atRest
  · rw [if_pos (first.mpr phrase)]
    refine iff_of_false (fun made => by cases made) fun passes => phrase passes.passphrase

def Writes (x : Host) (o : InitOptions) (draw : Draw) (cfg : Config.StoreConfig) (kind : IndexKind) (body : Bytes) : Prop :=
  ∃ desc data registry h, Passes o draw cfg kind desc ∧ marshal x.codec desc = .ok data ∧
    o.hashRegistry = some registry ∧ registry hashSHA256 = some h ∧
    x.codec.encode (inlineManifest h name data hashSHA256 draw.now) = .ok body

theorem writesIff : Writes x o draw cfg kind body ↔
    ∃ desc, describe o draw cfg kind = .ok desc ∧ primaryBody x o draw desc = .ok body := by
  constructor
  · rintro ⟨desc,data,registry,h,passes,marshalled,given,known,encoded⟩
    refine ⟨desc,describeOk.mpr passes,?_⟩
    simp only [primaryBody,marshalled,Except.mapError,bind,Except.bind,buildInlineManifest,given,
      known,encoded]
  · rintro ⟨desc,described,made⟩
    obtain ⟨data,marshalled,built⟩ := bindOk.mp made
    obtain ⟨registry,h,given,known,encoded⟩ := builtBody built
    exact ⟨desc,data,registry,h,describeOk.mp described,mapErrorOk.mp marshalled,given,known,encoded⟩

theorem describeRefused {r} (refused : describe o draw cfg kind = .error r) (body : Bytes) :
    ¬ Writes x o draw cfg kind body := by
  intro writes
  obtain ⟨desc,described,_⟩ := writesIff.mp writes
  rw [refused] at described
  cases described

theorem bodyFailed (described : describe o draw cfg kind = .ok desc)
    (failed : primaryBody x o draw desc = .error halt) (body : Bytes) : ¬ Writes x o draw cfg kind body := by
  intro writes
  obtain ⟨other,again,made⟩ := writesIff.mp writes
  cases okSame described again
  rw [failed] at made
  cases made

inductive Created (x : Host) (o : InitOptions) (draw : Draw) (cfg : Config.StoreConfig) (kind : IndexKind) (s : State) :
    State × Outcome → Prop where
  | refused (r : Refusal) (unwritten : ∀ body, ¬ Writes x o draw cfg kind body) : Created x o draw cfg kind s (s,.refused r)
  | panicked (missing : o.hashRegistry = none) (unwritten : ∀ body, ¬ Writes x o draw cfg kind body) :
      Created x o draw cfg kind s (s,.panicked)
  | stopped (body : Bytes) (writes : Writes x o draw cfg kind body) (s' : State) (outcome : Outcome)
      (there : s'.fs.lookup primary = some ⟨body,draw.now,draw.now⟩) : Created x o draw cfg kind s (s',outcome)
  | created (body : Bytes) (writes : Writes x o draw cfg kind body) (s' : State) (session : StoreOpen.Session)
      (desc : Descriptor) : Created x o draw cfg kind s (s',.initialised session desc)

theorem bodyPanicked (panicked : primaryBody x o draw desc = .error .panicked) : o.hashRegistry = none := by
  unfold primaryBody at panicked
  cases marshalled : marshal x.codec desc with
  | error err =>
    rw [marshalled] at panicked
    cases panicked
  | ok data =>
    rw [marshalled] at panicked
    have built : buildInlineManifest x.codec o.hashRegistry name data hashSHA256 draw.now = .error .panicked := panicked
    unfold buildInlineManifest at built
    split at built
    · next missing => exact missing
    · split at built
      · cases built
      · next h _ => cases encoded : x.codec.encode _ <;> rw [encoded] at built <;> cases built

theorem createCreated (x : Host) (o : InitOptions) (draw : Draw) (cfg : Config.StoreConfig) (kind : IndexKind) (s : State) :
    Created x o draw cfg kind s (createStore x o draw cfg kind s) := by
  unfold createStore
  cases described : describe o draw cfg kind with
  | error r => exact .refused r (describeRefused described)
  | ok desc =>
    simp only
    cases made : primaryBody x o draw desc with
    | error halt =>
      rw [persistFailed made]
      cases halt with
      | panicked => exact .panicked (bodyPanicked made) (bodyFailed described made)
      | artifactNotFound => exact .refused _ (bodyFailed described made)
      | corruptedContent => exact .refused _ (bodyFailed described made)
      | failed err => exact .refused _ (bodyFailed described made)
    | ok body =>
      have there := @persistPrimary x o draw cfg desc s.fs body made
      have writes : Writes x o draw cfg kind body := writesIff.mpr ⟨desc,described,made⟩
      generalize persistInitState x o draw cfg desc s.fs = pair at there
      obtain ⟨fs,stop⟩ := pair
      cases stop with
      | some stop => exact .stopped body writes _ stop there
      | none =>
        simp only
        split
        · exact .stopped body writes _ _ there
        have ends := bootstrapEnds x.engine x.opening draw.now {s with fs := fs}
        generalize StoreOpen.unlockBootstrap _ _ _ _ _ _ = brought at ends
        obtain ⟨session,err⟩ := brought
        cases ends
        exact .created body writes _ session desc

end

section
variable (x : Host) (o : InitOptions) (draw : Draw) (s : State)
def Touches : Prop :=
  ∃ cfg kind, Admitted o cfg kind ∧
    (Wipes x o kind s ∨ s.fs.lookup primary = none ∧ ∃ body, Writes x o draw cfg kind body)

def Fresh : Prop :=
  ∀ cfg kind body, Admitted o cfg kind → Writes x o draw cfg kind body →
    s.fs.lookup primary ≠ some ⟨body,draw.now,draw.now⟩

end

section
variable (admitted : Admitted o cfg kind)
include admitted
theorem touchesIff :
    Touches x o draw s ↔ Wipes x o kind s ∨ s.fs.lookup primary = none ∧ ∃ body, Writes x o draw cfg kind body := by
  constructor
  · rintro ⟨cfg',kind',again,touches⟩
    cases okSame (argumentsOk.mpr admitted) (argumentsOk.mpr again)
    exact touches
  · intro touches
    exact ⟨cfg,kind,admitted,touches⟩

theorem unwrittenSpared (absent : s.fs.lookup primary = none) (unwritten : ∀ body, ¬ Writes x o draw cfg kind body) :
    ¬ Touches x o draw s := by
  rw [touchesIff admitted]
  rintro (wipes | ⟨_,body,writes⟩)
  · rw [Wipes,absent] at wipes
    cases wipes.1
  · exact unwritten body writes

theorem foundSpared (found : (s.fs.lookup primary).isSome = true)
    (spared : ¬ Wipes x o kind s) : ¬ Touches x o draw s := by
  rw [touchesIff admitted]
  rintro (wipes | ⟨absent,_⟩)
  · exact spared wipes
  · rw [absent] at found
    cases found

inductive Ended (x : Host) (o : InitOptions) (draw : Draw) (s : State) : State × Outcome → Prop where
  | refused (r : Refusal) (spared : ¬ Touches x o draw s) : Ended x o draw s (s,.refused r)
  | panicked (spared : ¬ Touches x o draw s)
      (cause : read x.codec o.hashRegistry s.fs = .error .panicked ∨ o.hashRegistry = none) :
      Ended x o draw s (s,.panicked)
  | wiped (touches : Touches x o draw s) (found : (s.fs.lookup primary).isSome = true) (s' : State) (outcome : Outcome)
      (gone : s'.fs.lookup primary = none) : Ended x o draw s (s',outcome)
  | written (touches : Touches x o draw s) {cfg : Config.StoreConfig} {kind : IndexKind} {body : Bytes}
      (admitted : Admitted o cfg kind) (writes : Writes x o draw cfg kind body) (s' : State) (outcome : Outcome)
      (there : s'.fs.lookup primary = some ⟨body,draw.now,draw.now⟩) : Ended x o draw s (s',outcome)
  | created (touches : Touches x o draw s) (s' : State) (session : StoreOpen.Session) (desc : Descriptor) :
      Ended x o draw s (s',.initialised session desc)

theorem freshEnded (absent : s.fs.lookup primary = none) : Ended x o draw s (createStore x o draw cfg kind s) := by
  have created := createCreated x o draw cfg kind s
  generalize createStore x o draw cfg kind s = result at created ⊢
  cases created with
  | refused r unwritten => exact .refused r (unwrittenSpared admitted absent unwritten)
  | panicked missing unwritten => exact .panicked (unwrittenSpared admitted absent unwritten) (.inr missing)
  | stopped body writes s' outcome there =>
    exact .written ((touchesIff admitted).mpr (.inr ⟨absent,body,writes⟩)) admitted writes s' outcome there
  | created body writes s' session desc =>
    exact .created ((touchesIff admitted).mpr (.inr ⟨absent,body,writes⟩)) s' session desc

theorem wipedEnded (wipes : Wipes x o kind s) :
    Ended x o draw s (createStore x o draw cfg kind (wipeForReinit o.purgeOnReinit s)) := by
  have touches : Touches x o draw s := (touchesIff admitted).mpr (.inl wipes)
  have gone := wipedPrimary o.purgeOnReinit s
  have created := createCreated x o draw cfg kind (wipeForReinit o.purgeOnReinit s)
  generalize createStore x o draw cfg kind _ = result at created ⊢
  cases created with
  | refused r _ => exact .wiped touches wipes.1 _ (.refused r) gone
  | panicked _ _ => exact .wiped touches wipes.1 _ .panicked gone
  | stopped body writes s' outcome there => exact .written touches admitted writes s' outcome there
  | created body writes s' session desc => exact .created touches s' session desc

end

section
variable (x : Host) (o : InitOptions) (draw : Draw) (s : State)
theorem initEnded : Ended x o draw s (initStore x o draw s) := by
  unfold initStore
  cases decided : checkArguments o with
  | error r =>
    refine .refused r ?_
    rintro ⟨cfg,kind,admitted,_⟩
    rw [argumentsOk.mpr admitted] at decided
    cases decided
  | ok pair =>
    obtain ⟨cfg,kind⟩ := pair
    have admitted : Admitted o cfg kind := argumentsOk.mp decided
    have probed := prepareProbed x o kind s
    simp only
    generalize prepareInitLocation x o kind s = result at probed ⊢
    cases probed with
    | fresh absent => exact freshEnded admitted absent
    | wiped wipes => exact wipedEnded admitted wipes
    | refused found spared r => exact .refused r (foundSpared admitted found spared)
    | panicked found spared unread => exact .panicked (foundSpared admitted found spared) (.inl unread)

/-- An initialisation that does not end in a store leaves every file and row as before exactly when no cell was wiped
under force and no descriptor was written before a later stop. -/
theorem refusedLeaves (fresh : Fresh x o draw s) (refused : (initStore x o draw s).2.created = false) :
    Same s (initStore x o draw s).1 ↔ ¬ Touches x o draw s := by
  have ended := initEnded x o draw s
  generalize initStore x o draw s = result at ended refused ⊢
  cases ended with
  | refused r spared => exact iff_of_true ⟨fun _ => rfl,rfl⟩ spared
  | panicked spared _ => exact iff_of_true ⟨fun _ => rfl,rfl⟩ spared
  | wiped touches found s' outcome gone =>
    refine iff_of_false ?_ (not_not.mpr touches)
    intro same
    rw [← same.1 primary,gone] at found
    cases found
  | written touches admitted writes s' outcome there =>
    refine iff_of_false ?_ (not_not.mpr touches)
    intro same
    exact fresh _ _ _ admitted writes ((same.1 primary).symm.trans there)
  | created touches s' session desc => cases refused

end

def sampleHost : Host :=
  { codec := ⟨fun d => .ok d.dek,fun b => .ok ⟨"s1",1,1,b,false,none⟩,fun m => .ok m.inlineBlob,
      fun b => .ok (inlineManifest Readback.sampleEngine.hasher name b "sha256" 0)⟩
    marshalConfig := fun _ => .ok [9]
    engine := Readback.sampleEngine
    opening := ⟨true,false,false,none,State.index,none,none,.ok []⟩ }

def sampleHashes : HashRegistry := fun algo => if algo = "sha256" then some Readback.sampleEngine.hasher else none

def sampleOptions (crypto : Config.ManifestCrypto) (force : Bool) : InitOptions :=
  { cfg := some {(default : Config.StoreConfig) with manifestCrypto := .named crypto}, identityMode := .unset
    storeIndex := some ⟨true,some .plaintext⟩, forceReinit := force, purgeOnReinit := false
    hashRegistry := some sampleHashes, readRegistry := none, passphrase := false }

def sampleDraw : Draw := ⟨5,"s2",.ok [8],fun _ => .error (.other "no passphrase")⟩

def sampleStore : State :=
  let s := (Cas.put Readback.sampleEngine (Readback.sampleConfig []) StoreRuns.emptyStore (Readback.sampleCall "u1" 1 0)).1
  {s with fs := LocalFs.put s.fs primary [7] 0}

theorem passphraseForgotten :
    (initStore sampleHost (sampleOptions .sealed true) sampleDraw sampleStore).2.refusal = some .passphraseRequired ∧
    sampleStore.fs.lookup primary = some ⟨[7],0,0⟩ ∧ sampleStore.index.manifests.entries.length = 1 ∧
    (initStore sampleHost (sampleOptions .sealed true) sampleDraw sampleStore).1.fs.lookup primary = none ∧
    (initStore sampleHost (sampleOptions .sealed true) sampleDraw sampleStore).1.index.manifests.entries.length = 0 := by
  decide +kernel

theorem unforcedLeaves :
    Same sampleStore (initStore sampleHost (sampleOptions .sealed false) sampleDraw sampleStore).1 := by
  have fresh : Fresh sampleHost (sampleOptions .sealed false) sampleDraw sampleStore := by
    intro cfg kind body _ _ same
    have old : sampleStore.fs.lookup primary = some ⟨[7],0,0⟩ := by decide +kernel
    cases someSame old same
  refine (refusedLeaves _ _ _ _ fresh (by decide +kernel)).mpr ?_
  rintro ⟨cfg,kind,_,wipes | ⟨absent,_⟩⟩
  · cases wipes.2.1
  · revert absent
    decide +kernel

end Scrinium.InitStore
