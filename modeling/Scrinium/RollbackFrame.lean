import Scrinium.IndexCompleteness
import Scrinium.Rollback

/-! What RollbackSession and Delete remove. Both work on handles, and where the identity mode lets Puts share a handle, a
handle has several rows. -/
namespace Scrinium.Rollback
open Keyed Domain Layout LocalFs SqliteIndex Cas StoreRuns ManifestFiles Stamped Trace Readback

structure RemovesSession (sessionID : String) (s s' : State) : Prop where
  rows : ∀ key row, s'.index.manifests.lookup key = some row ↔
    s.index.manifests.lookup key = some row ∧ row.sessionID ≠ sessionID
  gone : ∀ key row path, s.index.manifests.lookup key = some row → row.sessionID = sessionID →
    manifestPath (hexOut key) = .ok path → s'.fs.lookup path = none
  kept : ∀ path, (∀ key row, s.index.manifests.lookup key = some row → row.sessionID = sessionID →
    manifestPath (hexOut key) ≠ .ok path) → s'.fs.lookup path = s.fs.lookup path

def SessionNewest (tx : Index) (sessionID : String) : Prop :=
  ∀ key row other row' id, tx.manifests.lookup key = some row → tx.manifests.lookup other = some row' →
    row.artifactID = some id → row'.artifactID = some id → row.sessionID = sessionID → row'.sessionID ≠ sessionID →
    row'.csn < row.csn
instance (tx : Index) (sessionID : String) : Decidable (SessionNewest tx sessionID) :=
  decidable_of_iff (∀ mine ∈ tx.manifests.entries, ∀ other ∈ tx.manifests.entries, mine.2.artifactID ≠ none →
      other.2.artifactID = mine.2.artifactID → mine.2.sessionID = sessionID → other.2.sessionID ≠ sessionID →
      other.2.csn < mine.2.csn) <| by
    constructor
    · intro all key row other row' id found found' handle handle'
      exact all ⟨key,row⟩ (lookupEntry.mp found) ⟨other,row'⟩ (lookupEntry.mp found') (by simp [handle])
        (handle'.trans handle.symm)
    · intro all mine mem other mem' some' same
      obtain ⟨id,handle⟩ := Option.ne_none_iff_exists'.mp some'
      exact all mine.1 mine.2 other.1 other.2 id (lookupEntry.mpr mem) (lookupEntry.mpr mem') handle (same.trans handle)

section
variable {e cfg order clock s s' sessionID}
theorem rollbackOk (done : rollbackSession e cfg order clock s sessionID = (s',.ok ())) :
    sessionID ≠ "" ∧ deleteAll e cfg (fun n => clock (n + 1)) s (getBySession order s.index sessionID) = (s',.ok ()) := by
  unfold rollbackSession at done
  split at done
  · cases done
  next named =>
  refine ⟨named,?_⟩
  split at done
  · next empty =>
    rw [empty]
    exact done
  split at done
  · cases done
  split at done
  · cases done
  · exact done

theorem listedEnough (order : RowOrder) (tx : Index) (sessionID id : String) :
    (getBySession order tx sessionID).count id ≤
      countWhere (fun _ row => decide (row.artifactID = some id)) tx.manifests := by
  rw [handleCount]
  refine countMono fun _ _ _ both => ?_
  simp only [Bool.and_eq_true] at both
  exact both.2

theorem newestKindIff {tx} : NewestKind ManifestRow.artifactID ManifestRow.csn
    (fun row => decide (row.sessionID = sessionID)) tx.manifests ↔ SessionNewest tx sessionID := by
  simp only [NewestKind,SessionNewest,decide_eq_true_eq,decide_eq_false_iff_not,ne_eq]

theorem removesOfRows (cleared : Cleared s s') (rows : ∀ key row, s'.index.manifests.lookup key = some row ↔
    s.index.manifests.lookup key = some row ∧ row.sessionID ≠ sessionID) : RemovesSession sessionID s s' where
  rows := rows
  gone := by
    intro key row path found session laid
    refine cleared.gone key path (memLookup.mpr ⟨row,found⟩) (fun still => ?_) laid
    obtain ⟨row',held⟩ := memLookup.mp still
    obtain ⟨before,other⟩ := (rows key row').mp held
    cases someSame found before
    exact other session
  kept := by
    intro path away
    refine cleared.kept path fun key known absent => ?_
    obtain ⟨row,found⟩ := memLookup.mp known
    refine away key row found ?_
    by_contra other
    exact absent (memLookup.mpr ⟨row,(rows key row).mpr ⟨found,other⟩⟩)

theorem rollbackRemoves (quiet : QuietHooks e) (stored : Stored e s)
    (done : rollbackSession e cfg order clock s sessionID = (s',.ok ())) :
    RemovesSession sessionID s s' ↔ SessionNewest s.index sessionID := by
  obtain ⟨popped,_,cleared,_⟩ := deletedAll quiet stored (listedEnough order s.index sessionID) (rollbackOk done).2
  have exact := removesKind (fun row => decide (row.sessionID = sessionID)) stored.1.distinct popped
    (handleCount order s.index sessionID)
  rw [newestKindIff] at exact
  rw [← exact]
  constructor
  · intro removes key row id found _
    rw [removes.rows,and_iff_right found,decide_eq_false_iff_not]
  · intro kept
    refine removesOfRows cleared fun key row => ?_
    have survivor := survives stored.1.distinct popped key row
    constructor
    · intro last
      have found := (survivor.mp last).1
      obtain ⟨m,filed⟩ := stored.2 key row found
      exact ⟨found,of_decide_eq_false ((kept key row _ found filed.handle).mp last)⟩
    · rintro ⟨found,other⟩
      obtain ⟨m,filed⟩ := stored.2 key row found
      exact (kept key row _ found filed.handle).mpr (decide_eq_false other)

end

section
variable {e : Engine} {cfg s s' id}
def HandleFree (tx : Index) (id : String) : Prop :=
  ∀ key row, tx.manifests.lookup key = some row → row.artifactID ≠ some id

theorem getFree (free : HandleFree s.index id) : get e s id = .error .artifactNotFound := by
  have unknown : load e s id = .error .artifactNotFound := by
    unfold load
    rw [resolvesNone.mpr free]
    split <;> rfl
  unfold Cas.get
  rw [unknown]
  rfl

def YieldsOther (e : Engine) (id : String) (s : State) : StoreOp → Prop
  | .put cfg call => ∀ m, (Cas.put e cfg s call).2 = .ok m → m.artifactID ≠ id
  | .delete _ _ _ => True
  | .cycle _ _ _ _ => True

variable {call now m}

theorem freePut (free : HandleFree s.index id) (other : ∀ m, (Cas.put e cfg s call).2 = .ok m → m.artifactID ≠ id) :
    HandleFree (Cas.put e cfg s call).1.index id := by
  generalize done : Cas.put e cfg s call = pair at other
  obtain ⟨s',outcome⟩ := pair
  rcases putWrites done with ⟨_,index,_⟩ | ⟨m,raw,place,_,⟨index,_⟩ | ⟨addr,r,_,index,rfl⟩⟩
  · exact index ▸ free
  · exact index ▸ free
  intro key row found
  rw [index,registerLookup] at found
  split at found
  · cases found
    cases held : s.index.manifests.lookup r.keys.digest with
    | some old => exact free r.keys.digest old held
    | none =>
      have yields := other _ rfl
      simp only [Option.getD_none,manifestRow]
      split
      · intro same
        cases same
      · exact fun same => yields (Option.some.inj same)
  · exact free key row found

theorem freeDelete {id'} (free : HandleFree s.index id) : HandleFree (Cas.delete e cfg s id' now).1.index id := by
  rcases done : Cas.delete e cfg s id' now with ⟨s',outcome⟩
  rcases deleteCases done with ⟨rfl,_⟩ | ⟨digest,path,_,_,_,⟨index,_⟩ | ⟨dropped,_⟩⟩
  · exact free
  · exact index ▸ free
  intro key row found
  rcases deleteManifestOk dropped with ⟨index,_⟩ | ⟨k,_,_,index⟩
  · exact free key row (index ▸ found)
  · rw [index] at found
    exact free key row (lookupErased _ found).2

theorem freeAdvance {op} (placed : RowsPlaced e.topology s.index) (free : HandleFree s.index id)
    (other : YieldsOther e id s op) : HandleFree (advance e s op).index id := by
  cases op with
  | put cfg call => exact freePut free other
  | delete cfg id' now => exact freeDelete free
  | cycle complete grace tMark tSweep =>
    obtain ⟨blobs,index⟩ := (Gc.cycled placed complete grace tMark tSweep).index
    simp only [advance,index]
    exact free

theorem freeRun {ops} (placed : RowsPlaced e.topology s.index) (free : HandleFree s.index id)
    (other : Along (advance e) (YieldsOther e id) s ops) : HandleFree (after (advance e) s ops).index id := by
  have keep : ∀ s op, RowsPlaced e.topology s.index ∧ HandleFree s.index id → YieldsOther e id s op →
      RowsPlaced e.topology (advance e s op).index ∧ HandleFree (advance e s op).index id :=
    fun _ op held ok => ⟨placedAdvance op held.1,freeAdvance held.1 held.2 ok⟩
  exact (invariantAfter keep ⟨placed,free⟩ other).2

def Opens (e : Engine) (s : State) : Prop :=
  ∀ key row m, s.index.manifests.lookup key = some row → Filed e s.fs key row m → ∃ handle, openHandle s m = .ok handle

theorem openHandleOk : (∃ handle, openHandle s m = .ok handle) ↔
    m.layout = .inline ∨ m.layout = .target ∧ ∃ path, resolve s.index m.primaryBlobRef = .ok path := by
  unfold openHandle
  cases m.layout with
  | inline => simp
  | unset => simp
  | target =>
    simp only [reduceCtorEq,false_or,true_and,bindOk]
    constructor
    · rintro ⟨_,path,resolved,_⟩
      exact ⟨path,resolved⟩
    · rintro ⟨path,resolved⟩
      exact ⟨_,path,resolved,rfl⟩

theorem openHandleKept (opens : ∃ handle, openHandle s m = .ok handle)
    (kept : ∀ ref, (∃ path, resolve s.index ref = .ok path) → ∃ path, resolve s'.index ref = .ok path) :
    ∃ handle, openHandle s' m = .ok handle := by
  rw [openHandleOk] at opens ⊢
  exact opens.imp_right fun target => ⟨target.1,kept _ target.2⟩

theorem openRegistered {addr r tx} (layout : m.layout ≠ .unset)
    (possible : registration e.indexes m = .ok r) (index : s'.index = register tx m addr now r) :
    ∃ handle, openHandle s' m = .ok handle := by
  rw [openHandleOk]
  cases kind : m.layout with
  | inline => exact .inl rfl
  | unset => exact absurd kind layout
  | target =>
    refine .inr ⟨rfl,?_⟩
    have stored : m.layout ≠ .inline := by rw [kind]; nofun
    have some' : m.blobRefs ≠ [] := by
      intro empty
      obtain ⟨keys,bound,_⟩ := bindOk.mp possible
      obtain ⟨digest,_,bound⟩ := bindOk.mp bound
      rw [if_neg stored,if_pos empty] at bound
      cases bound
    have first : m.primaryBlobRef ∈ IndexCompleteness.blobRefsOf m := by
      unfold IndexCompleteness.blobRefsOf Manifest.primaryBlobRef
      rw [if_neg stored]
      cases refs : m.blobRefs with
      | nil => exact absurd refs some'
      | cons ref rest => exact List.mem_cons_self
    rw [index]
    exact IndexCompleteness.registeredRefs possible first

theorem resolvesPut {ref} (known : ∃ path, resolve s.index ref = .ok path) :
    ∃ path, resolve (Cas.put e cfg s call).1.index ref = .ok path := by
  rcases done : Cas.put e cfg s call with ⟨s',outcome⟩
  rcases putWrites done with ⟨_,index,_⟩ | ⟨m,raw,place,_,⟨index,_⟩ | ⟨addr,r,_,index,_⟩⟩
  · exact index ▸ known
  · exact index ▸ known
  · exact index ▸ IndexCompleteness.registerResolves known

theorem opensPut (codec : Codec e) (stored : Stored e s) (opens : Opens e s) {cfg call} (legible : PutsLegible e s (.put cfg call)) :
    Opens e (Cas.put e cfg s call).1 := by
  have kept : ∀ ref, (∃ path, resolve s.index ref = .ok path) →
      ∃ path, resolve (Cas.put e cfg s call).1.index ref = .ok path := fun _ => resolvesPut
  generalize done : Cas.put e cfg s call = pair at kept
  obtain ⟨s',outcome⟩ := pair
  intro key row m found filed
  rcases putRow codec legible done found with ⟨old,csn,held,rfl⟩ | ⟨m',raw,place,addr,r,ext,usr,wrote,rfl,possible,index,filed'⟩
  · obtain ⟨m',filed'⟩ := stored.2 key old held
    cases filedUnique filed (filedPut (legiblePut legible) done filed')
    exact openHandleKept (opens key old m held filed') kept
  · cases filedUnique filed filed'
    exact openRegistered (m := ManifestFiles.read _ m') wrote.layout possible index

theorem getSecond (stored : Stored e s) (opens : Opens e s) {key row path}
    (d : Dropped s s' id key row path) {other row'}
    (second : s.index.manifests.lookup other = some row') (handle : row'.artifactID = some id) (away : other ≠ key) :
    ∃ h, get e s' id = .ok h := by
  have left : s'.index.manifests.lookup other = some row' := by rw [droppedLookup d,if_neg away,second]
  obtain ⟨top,topRow,newest⟩ := newestOf ⟨other,row',left,handle⟩
  have stored' := storedDropped stored d
  obtain ⟨m,filed⟩ := stored'.2 top topRow newest.found
  have before := droppedHeld d newest.found
  obtain ⟨m',filed'⟩ := stored.2 top topRow before.2
  have same : m = m' := by
    obtain ⟨place,file,laid,held,rest⟩ := filed'.file
    refine filedUnique filed ⟨⟨place,file,laid,?_,rest⟩,filed'.handle,filed'.named,filed'.session⟩
    rw [d.fs,remove,lookupErase,if_neg,held]
    rintro rfl
    exact before.1 (manifestPathKey laid d.laid)
  subst same
  have opened : ∃ h, openHandle s' m = .ok h := by
    refine openHandleKept (opens top topRow m before.2 filed') fun ref known => ?_
    obtain ⟨place,resolved⟩ := known
    obtain ⟨k,blob,hex,held,_⟩ := resolveKey resolved
    have kept := dropIdentity s.index.blobs (edgesOf s.index key) k
    rw [held] at kept
    obtain ⟨blob',held',_⟩ := Option.map_eq_some_iff.mp kept
    refine (IndexCompleteness.resolvesKey (bindKeyOk.mpr hex)).mpr (memLookup.mpr ⟨blob',?_⟩)
    rw [d.index]
    exact held'
  obtain ⟨h,opened⟩ := opened
  refine ⟨h,?_⟩
  unfold Cas.get
  simp only [loadNewest newest stored'.1.distinct filed,bind,Except.bind]
  rw [if_neg (show (ManifestFiles.read top m).artifactID ≠ "" from filed.named)]
  exact opened

end

def OneRow (tx : Index) (id : String) : Prop :=
  ∀ key row other row', tx.manifests.lookup key = some row → tx.manifests.lookup other = some row' →
    row.artifactID = some id → row'.artifactID = some id → key = other

def putState (e : Engine) (s : State) (op : PutOp) : State := (Cas.put e op.1 s op.2).1
def putRun (e : Engine) (puts : List PutOp) : State := after (putState e) emptyStore puts

theorem putRunHeld {e} (codec : Codec e) {puts : List PutOp}
    (legible : Along (putState e) (fun s op => PutsLegible e s (.put op.1 op.2)) emptyStore puts) :
    Stored e (putRun e puts) ∧ Opens e (putRun e puts) ∧ RowsPlaced e.topology (putRun e puts).index := by
  have keep : ∀ s op, Stored e s ∧ Opens e s ∧ RowsPlaced e.topology s.index → PutsLegible e s (.put op.1 op.2) →
      Stored e (putState e s op) ∧ Opens e (putState e s op) ∧ RowsPlaced e.topology (putState e s op).index :=
    fun s op held ok => ⟨storedPut codec held.1 ok,opensPut codec held.1 held.2.1 ok,placedPut op.1 op.2 held.2.2⟩
  have initial : Opens e emptyStore := fun key row m found => by simp [emptyStore,Index.empty] at found
  exact invariantAfter keep ⟨storedEmpty e,initial,placedEmpty e.topology⟩ legible

/-- After any Puts of legible manifests a rollback removes exactly its session's manifests exactly when they are the newest under their
handles, and a deleted handle stays unknown exactly when it had one row. -/
theorem touchesWhatItNames {e : Engine} (codec : Codec e) (quiet : QuietHooks e) (puts : List PutOp)
    (legible : Along (putState e) (fun s op => PutsLegible e s (.put op.1 op.2)) emptyStore puts) :
    (∀ cfg order clock sessionID s', rollbackSession e cfg order clock (putRun e puts) sessionID = (s',.ok ()) →
      (RemovesSession sessionID (putRun e puts) s' ↔ SessionNewest (putRun e puts).index sessionID)) ∧
    ∀ cfg id now s', Cas.delete e cfg (putRun e puts) id now = (s',.ok ()) →
      ((∀ ops, Along (advance e) (YieldsOther e id) s' ops →
        get e (after (advance e) s' ops) id = .error .artifactNotFound) ↔ OneRow (putRun e puts).index id) := by
  obtain ⟨stored,opens,placed⟩ := putRunHeld codec legible
  refine ⟨fun cfg order clock sessionID s' done => rollbackRemoves quiet stored done,fun cfg id now s' done => ?_⟩
  obtain ⟨key,row,path,d⟩ := deleteDropped done
  constructor
  · intro hidden other row' third row'' found found' handle handle'
    -- a row beside the deleted one is served at once
    have unserved : ∀ k r, (putRun e puts).index.manifests.lookup k = some r → r.artifactID = some id → k = key := by
      intro k r held named
      by_contra away
      obtain ⟨h,served⟩ := getSecond stored opens d held named away
      have missing := hidden [] nofun
      rw [show after (advance e) s' [] = s' from rfl,served] at missing
      cases missing
    rw [unserved other row' found handle,unserved third row'' found' handle']
  · intro single ops other
    refine getFree (freeRun ?_ ?_ other)
    · have kept := placedDelete cfg id now placed
      rwa [done] at kept
    · intro k r found handle
      obtain ⟨away,found⟩ := droppedHeld d found
      exact away (single k r key row found d.newest.found handle d.newest.member)

def noted (sessionID : String) (now : Nat) : Manifest :=
  { artifactID := "sha256-00000102", name := "", digest := "", identityNonce := [], sessionID := sessionID
    createdAt := some now, contentHash := "00000102", originalSize := 2, hashAlgo := "sha256"
    blobRefs := ["00000102"], handleRefs := [], layout := .target, pipeline := [], inlineBlob := []
    retentionUntil := none, ext := [], usr := []
    identityMetaHash := sampleEngine.hasher.format identityMetaCanonEmpty }

def codedEngine : Engine := tabled [noted "a" 10,noted "b" 20]

def coalescing : StoreConfig := {sampleConfig [] with identityMode := .coalesced}

def sessionPut (sessionID : String) (now : Nat) : PutOp :=
  (coalescing,{sampleCall sessionID 1 now with sessionID := sessionID})

def sharedPuts : List PutOp := [sessionPut "a" 10,sessionPut "b" 20]

theorem otherSessionRemoved :
    (rollbackSession codedEngine coalescing .stored (fun _ => 30) (putRun codedEngine sharedPuts) "a").2 = .ok () ∧
    ((putRun codedEngine sharedPuts).index.manifests.lookup [0,0,0,0]).map ManifestRow.sessionID = some "b" ∧
    (rollbackSession codedEngine coalescing .stored (fun _ => 30) (putRun codedEngine sharedPuts) "a").1.index.manifests.keys =
      [[0,0,0]] ∧
    ((putRun codedEngine sharedPuts).index.manifests.lookup [0,0,0]).map ManifestRow.sessionID = some "a" ∧
    (Cas.delete codedEngine coalescing (putRun codedEngine sharedPuts) "sha256-00000102" 30).2 = .ok () ∧
    get codedEngine (Cas.delete codedEngine coalescing (putRun codedEngine sharedPuts) "sha256-00000102" 30).1
      "sha256-00000102" = .ok (.target "blobs/00/00/00000102") := by
  decide +kernel

theorem newestSessionRemoved :
    (rollbackSession codedEngine coalescing .stored (fun _ => 30) (putRun codedEngine sharedPuts) "b").2 = .ok () ∧
    RemovesSession "b" (putRun codedEngine sharedPuts)
      (rollbackSession codedEngine coalescing .stored (fun _ => 30) (putRun codedEngine sharedPuts) "b").1 ∧
    OneRow (putRun codedEngine [sessionPut "a" 10]).index "sha256-00000102" ∧
    get codedEngine (Cas.delete codedEngine coalescing (putRun codedEngine [sessionPut "a" 10]) "sha256-00000102" 30).1
      "sha256-00000102" = .error .artifactNotFound := by
  have done : (rollbackSession codedEngine coalescing .stored (fun _ => 30) (putRun codedEngine sharedPuts) "b").2 = .ok () := by
    decide +kernel
  have removed := ((touchesWhatItNames (tabledCodec _) (commitQuiet (tabledCommit _)) sharedPuts (by decide +kernel)).1 coalescing .stored (fun _ => 30) "b" _
    (Prod.ext rfl done)).mpr (by decide +kernel)
  have single : OneRow (putRun codedEngine [sessionPut "a" 10]).index "sha256-00000102" := by
    intro key row other row' found found' _ _
    have keys : (putRun codedEngine [sessionPut "a" 10]).index.manifests.keys = [[0,0,0]] := by decide +kernel
    exact (List.mem_singleton.mp (keyIn keys found)).trans (List.mem_singleton.mp (keyIn keys found')).symm
  have deleted : (Cas.delete codedEngine coalescing (putRun codedEngine [sessionPut "a" 10]) "sha256-00000102" 30).2 = .ok () := by
    decide +kernel
  exact ⟨done,removed,single,((touchesWhatItNames (tabledCodec _) (commitQuiet (tabledCommit _))
    [sessionPut "a" 10] (by decide +kernel)).2 coalescing "sha256-00000102" 30 _ (Prod.ext rfl deleted)).mpr single [] nofun⟩

end Scrinium.Rollback
